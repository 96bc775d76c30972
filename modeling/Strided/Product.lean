import Strided.Dense
import Strided.Numeric

/-!
# Products of vectors and matrices

`NDArray.matmul` multiplies two matrices, `NDArray.dot` also vectors, a vector on the
left being read as a row and one on the right as a column. On the host the operands are
taken out of their storages and multiplied as blocks.

If an operand is accelerated, the bridge of the first such operand serves the product
and both operands are flagged for it. `matmul` makes an array of zeros on that device and
has the bridge fill it. `dot` only tells the bridge about both operands and multiplies on
the host. `NDArray.lu` exists on bridges alone.
-/

namespace Strided

namespace Dense

variable {α : Type}

/-- A block of `m` by `n` elements, each one found by `entry` from its row and column. It
has memory of its own, so the number of elements is checked first. -/
def tabulate (dt : DType) (m n : Nat) (shape : Shape)
    (entry : Nat → Nat → Checked dt.Elem) : Checked (Dense dt.Elem) := do
  let size ← checkSize (m * n)
  dt.checkCapacity size
  let items ← (List.range size).mapM fun t => entry (t / n) (t % n)
  return ⟨shape, items.toArray⟩

/-- **The matrix product** of an `m` by `p` and a `p` by `n` block. -/
def matmul {dt : DType} (N : Numeric dt.Elem) (m p n : Nat) (a b : Dense dt.Elem) :
    Checked (Dense dt.Elem) :=
  tabulate dt m n ⟨[m, n]⟩ fun i j => do
    N.mul N.one (← N.innerFused (a.row p i) (b.column N.zero p n j))

/-- A row of `p` elements times a `p` by `n` block. A block with a single column has its
elements side by side. -/
def vecMul {dt : DType} (N : Numeric dt.Elem) (p n : Nat) (a b : Dense dt.Elem) :
    Checked (Dense dt.Elem) :=
  tabulate dt 1 n ⟨[n]⟩ fun _ j => do
    let column := b.column N.zero p n j
    -- the order in which the terms are added shows in the last digits
    let sum ← if n = 1 then N.innerByEight column a.items.toList
      else N.inner column a.items.toList
    N.mul sum N.one

/-- An `m` by `p` block times a column of `p` elements. -/
def mulVec {dt : DType} (N : Numeric dt.Elem) (m p : Nat) (a b : Dense dt.Elem) :
    Checked (Dense dt.Elem) :=
  tabulate dt m 1 ⟨[m]⟩ fun i _ => do
    N.mul (← N.innerByEight (a.row p i) b.items.toList) N.one

/-- A row times a column. -/
def vecDot {dt : DType} (N : Numeric dt.Elem) (a b : Dense dt.Elem) :
    Checked (Dense dt.Elem) :=
  return ⟨⟨[]⟩, #[← N.innerByEight a.items.toList b.items.toList]⟩

end Dense

namespace NDArray

/-- Refuses operands of two element types. -/
def checkSameDType (lhs rhs : NDArray) : Answer Unit :=
  if lhs.dt = rhs.dt then return () else reject (.dtypeMismatch lhs.dt rhs.dt)

/-- The bridge that serves two operands. -/
def selectBridge (lhs rhs : NDArray) : Option Handle :=
  Device.selectAccelerated [lhs.device, rhs.device]

/-! ### Inner, vector and matrix products -/

/-- The product of the elements of two arrays of rank 1 or 2. -/
def dotElements (s : Store) (lhs rhs : NDArray) (dt : DType) (N : Numeric dt.Elem) :
    Answer (Dense dt.Elem) := do
  let a ← lhs.toDense s dt
  let b ← rhs.toDense s dt
  match a.shape.dims, b.shape.dims with
  | [p], [q] =>
    if p = q then Dense.vecDot N a b else reject (.shapeMismatch lhs.shape rhs.shape)
  | [p], [q, n] =>
    if p = q then Dense.vecMul N p n a b else reject (.shapeMismatch lhs.shape rhs.shape)
  | [m, p], [q] =>
    if p = q then Dense.mulVec N m p a b else reject (.shapeMismatch lhs.shape rhs.shape)
  | [m, p], [q, n] =>
    if p = q then Dense.matmul N m p n a b else reject (.shapeMismatch lhs.shape rhs.shape)
  | l, r => reject (.unsupportedDot l.length r.length)

/-- The product on the host, as a new host array. -/
def dotHost (lhs rhs : NDArray) : Action NDArray := do
  match lhs.dt.numeric? with
  | none => reject (.unsupportedDType "dot" lhs.dt)
  | some N => ofDense lhs.dt (← Action.read fun s => dotElements s lhs rhs lhs.dt N)

/-- Tells a bridge about both operands of a product, flagged for it. -/
def announce (bridges : Bridges) (h : Handle) (lhs rhs : NDArray) : Action Unit := do
  Action.call bridges h (.handleArray (lhs.withDevice (.accelerated h)))
  Action.call bridges h (.handleArray (rhs.withDevice (.accelerated h)))

/-- **The product of arrays of rank 1 or 2**, on the device that serves the operands. -/
def dot (bridges : Bridges) (lhs rhs : NDArray) : Action NDArray := do
  checkSameDType lhs rhs
  match selectBridge lhs rhs with
  | none => dotHost lhs rhs
  | some h =>
    announce bridges h lhs rhs
    return (← dotHost lhs rhs).withDevice (.accelerated h)

/-! ### Matrix products -/

/-- The sizes `m`, `p` and `n` of a product of an `m` by `p` and a `p` by `n` matrix. -/
def matmulSizes (lhs rhs : NDArray) : Answer (Nat × Nat × Nat) :=
  match lhs.shape.dims, rhs.shape.dims with
  | [m, p], [q, n] =>
    if p = q then return (m, p, n) else reject (.shapeMismatch lhs.shape rhs.shape)
  | [_, _], r => reject (.rankMismatch 2 r.length)
  | l, _ => reject (.rankMismatch 2 l.length)

/-- The matrix product on the host, as a new host array. -/
def matmulHost (lhs rhs : NDArray) (m p n : Nat) : Action NDArray := do
  match lhs.dt.numeric? with
  | none => reject (.unsupportedDType "matmul" lhs.dt)
  | some N =>
    let c ← Action.read fun s => do
      let a ← lhs.toDense s lhs.dt
      let b ← rhs.toDense s lhs.dt
      Dense.matmul N m p n a b
    ofDense lhs.dt c

/-- The matrix product by a bridge, in a new array on its device. -/
def matmulBridge (bridges : Bridges) (h : Handle) (lhs rhs : NDArray) (m n : Nat) :
    Action NDArray := do
  let dst ← empty ⟨[m, n]⟩ lhs.dt (.accelerated h)
  Action.call bridges h
    (.matmul (lhs.withDevice (.accelerated h)) (rhs.withDevice (.accelerated h)) dst)
  return dst

/-- **The product of two matrices**, on the device that serves the operands. -/
def matmul (bridges : Bridges) (lhs rhs : NDArray) : Action NDArray := do
  checkSameDType lhs rhs
  let (m, p, n) ← matmulSizes lhs rhs
  match selectBridge lhs rhs with
  | none => matmulHost lhs rhs m p n
  | some h => matmulBridge bridges h lhs rhs m n

/-! ### Factorization -/

/-- The size of a square matrix. -/
def squareSize (a : NDArray) : Answer Nat :=
  match a.shape.dims with
  | [m, n] => if m = n then return n else reject (.notSquare a.shape)
  | _ => reject (.notSquare a.shape)

/-- **The factorization of a square matrix** with a bridge: the packed factors, in a copy
of the matrix, and the row permutation. -/
def lu (bridges : Bridges) (a : NDArray) : Action (NDArray × NDArray) := do
  unless a.dt.isFloat do
    reject (.unsupportedDType "lu" a.dt)
  let n ← a.squareSize
  match a.bridge? with
  | none => reject .hostFactorization
  | some h =>
    let factors ← a.deepClone
    let pivots ← empty ⟨[n]⟩ .i32 a.device
    Action.call bridges h (.lu factors pivots)
    return (factors, pivots)

end NDArray

end Strided
