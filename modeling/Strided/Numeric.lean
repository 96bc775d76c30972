import Strided.DType
import Strided.Binary.Fused

/-!
# Arithmetic on elements

`Numeric α` is the arithmetic that products of arrays need. On integers a sum or product
that leaves the range of the type is a fault; floating point and complex arithmetic
always has a result.

Sums of products start from zero. Where rounding or range matter, it also matters how they
are taken, and there are three ways:

* `Numeric.inner` takes the terms in order;
* `Numeric.innerFused` does too, but rounds a product and its sum once, not twice;
* `Numeric.innerByEight` has eight interleaved sums, which are added up before the
  remaining terms are, as suits two runs of neighbours in memory.

On integers all are the exact sum of products when no partial sum can leave the range.
-/

namespace Strided

/-- **The arithmetic of an element type.** -/
structure Numeric (α : Type) where
  zero : α
  one : α
  add : α → α → Checked α
  mul : α → α → Checked α
  /-- A sum to which the product of two elements is added, rounded once. -/
  fused : α → α → α → Checked α

namespace Numeric

variable {α : Type}

/-- Adds the product of a pair to a sum. -/
def addProduct (N : Numeric α) (sum : α) (pair : α × α) : Checked α := do
  N.add sum (← N.mul pair.1 pair.2)

/-- The sum of the products of the pairs, in order, on top of `sum`. -/
def sumFrom (N : Numeric α) (sum : α) (pairs : List (α × α)) : Checked α :=
  pairs.foldlM N.addProduct sum

/-- **The sum of products**, in order. -/
def inner (N : Numeric α) (xs ys : List α) : Checked α := N.sumFrom N.zero (xs.zip ys)

/-- **The sum of products**, in order, each term rounded once. -/
def innerFused (N : Numeric α) (xs ys : List α) : Checked α :=
  (xs.zip ys).foldlM (fun sum pair => N.fused sum pair.1 pair.2) N.zero

/-- Adds to each of several sums the product of one pair, for `blocks` rounds. The pairs
that no round takes are the second component. -/
def sumBlocks (N : Numeric α) : Nat → List α → List (α × α) → Checked (List α × List (α × α))
  | 0, sums, pairs => return (sums, pairs)
  | blocks + 1, sums, pairs => do
    let sums' ← (sums.zip pairs).mapM fun p => N.addProduct p.1 p.2
    sumBlocks N blocks sums' (pairs.drop sums.length)

/-- **The sum of products in eight interleaved sums.** -/
def innerByEight (N : Numeric α) (xs ys : List α) : Checked α := do
  let pairs := xs.zip ys
  let (sums, rest) ← N.sumBlocks (pairs.length / 8) (List.replicate 8 N.zero) pairs
  let halves ← ((sums.take 4).zip (sums.drop 4)).mapM fun p => N.add p.1 p.2
  N.sumFrom (← halves.foldlM N.add N.zero) rest

end Numeric

/-! ### The arithmetics -/

/-- The result of an operation on 32-bit integers. -/
def checkInt32 (z : Int) : Checked Int32 :=
  if -(2147483648 : Int) ≤ z ∧ z < 2147483648 then .ok (Int32.ofInt z) else .error .overflow

/-- The result of an operation on 64-bit integers. -/
def checkInt64 (z : Int) : Checked Int64 :=
  if -(signedBound : Int) ≤ z ∧ z < (signedBound : Int) then .ok (Int64.ofInt z)
  else .error .overflow

/-- The result of an operation on unsigned 32-bit integers. -/
def checkUInt32 (n : Nat) : Checked UInt32 :=
  if n < 4294967296 then .ok (UInt32.ofNat n) else .error .overflow

/-- Checked 32-bit integers. -/
def Numeric.int32 : Numeric Int32 where
  zero := 0
  one := 1
  add x y := checkInt32 (x.toInt + y.toInt)
  mul x y := checkInt32 (x.toInt * y.toInt)
  fused sum x y := do checkInt32 (sum.toInt + (← checkInt32 (x.toInt * y.toInt)).toInt)

/-- Checked 64-bit integers. -/
def Numeric.int64 : Numeric Int64 where
  zero := 0
  one := 1
  add x y := checkInt64 (x.toInt + y.toInt)
  mul x y := checkInt64 (x.toInt * y.toInt)
  fused sum x y := do checkInt64 (sum.toInt + (← checkInt64 (x.toInt * y.toInt)).toInt)

/-- Checked unsigned 32-bit integers. -/
def Numeric.uint32 : Numeric UInt32 where
  zero := 0
  one := 1
  add x y := checkUInt32 (x.toNat + y.toNat)
  mul x y := checkUInt32 (x.toNat * y.toNat)
  fused sum x y := do checkUInt32 (sum.toNat + (← checkUInt32 (x.toNat * y.toNat)).toNat)

/-- Single precision. -/
def Numeric.float32 : Numeric Float32 where
  zero := 0
  one := 1
  add x y := .ok (x + y)
  mul x y := .ok (x * y)
  fused sum x y := .ok (fusedFloat32 sum x y)

/-- Double precision. -/
def Numeric.float : Numeric Float where
  zero := 0
  one := 1
  add x y := .ok (x + y)
  mul x y := .ok (x * y)
  fused sum x y := .ok (fusedFloat sum x y)

namespace Complex

variable {α : Type}

/-- The sum, part by part. -/
def add [Add α] (z w : Complex α) : Complex α := ⟨z.re + w.re, z.im + w.im⟩

/-- The difference, part by part. -/
def sub [Sub α] (z w : Complex α) : Complex α := ⟨z.re - w.re, z.im - w.im⟩

/-- The product from four real products. -/
def mul [Add α] [Sub α] [Mul α] (z w : Complex α) : Complex α :=
  ⟨z.re * w.re - z.im * w.im, z.re * w.im + z.im * w.re⟩

/-- A sum to which the product of two numbers is added by four fused real operations. -/
def fused [Neg α] (fma : α → α → α → α) (sum z w : Complex α) : Complex α :=
  ⟨fma (fma sum.re z.re w.re) (-z.im) w.im, fma (fma sum.im z.re w.im) z.im w.re⟩

end Complex

/-- Complex arithmetic, part by part. -/
def Numeric.complex {α : Type} [Add α] [Sub α] [Mul α] [Neg α] (R : Numeric α)
    (fma : α → α → α → α) : Numeric (Complex α) where
  zero := ⟨R.zero, R.zero⟩
  one := ⟨R.one, R.zero⟩
  add z w := .ok (z.add w)
  mul z w := .ok (z.mul w)
  fused sum z w := .ok (sum.fused fma z w)

/-- **The arithmetic of every element type but the truth values.** -/
def DType.numeric? : (dt : DType) → Option (Numeric dt.Elem)
  | bool => none
  | i32 => some .int32
  | i64 => some .int64
  | u32 => some .uint32
  | f32 => some .float32
  | f64 => some .float
  | c64 => some (.complex .float32 fusedFloat32)
  | c128 => some (.complex .float fusedFloat)

end Strided
