import Strided.NDArray.Create
import Strided.Diagonal.Window

/-!
# Diagonals of arrays

`NDArray.diagonal` is a view of a diagonal of a matrix, and `NDArray.diagflat` the matrix
that has given elements on one diagonal and zeros elsewhere. `NDArray.diag` is the one
for a matrix and the other for a vector.
-/

namespace Strided.NDArray

/-- A position `z` elements from `n`, if there is one. -/
def moveBy (n : Nat) (z : Int) : Option Nat :=
  if 0 ≤ (n : Int) + z ∧ (n : Int) + z < (sizeBound : Int) then some ((n : Int) + z).toNat
  else none

/-- **The `k`-th diagonal**, a view with a single axis. -/
def diagonal (a : NDArray) (k : Int) : Answer NDArray := do
  let w ← Diagonal.window a.shape a.strides k
  match moveBy a.offset w.start with
  | none => reject (.diagonal (.startOutOfBounds a.offset w.start))
  | some offset => return a.withView ⟨⟨[w.length]⟩, ⟨[w.stride]⟩, offset⟩

/-- **The square matrix with the elements of `v` on its `k`-th diagonal** and zeros
elsewhere, a new array on the device of `v`. -/
def diagflat (v : NDArray) (k : Int) : Action NDArray := do
  -- the elements are gathered before the matrix is made
  let v ← v.flatten
  let n ← v.numel
  let size := n + k.natAbs
  unless size < sizeBound ∧ size * size < sizeBound do
    reject (.diagonal (.sizeOverflow n k))
  let a ← zeros ⟨[size, size]⟩ v.dt v.device
  copyFrom (← a.diagonal k) v
  return a

/-- **The diagonal form**: of a vector the matrix around it, of a matrix the view of its
diagonal. -/
def diag (v : NDArray) (k : Int) : Action NDArray :=
  match v.rank with
  | 1 => diagflat v k
  | 2 => Action.ofAnswer (v.diagonal k)
  | r => Action.ofAnswer (reject (.diagonal (.notVectorOrMatrix r)))

end Strided.NDArray
