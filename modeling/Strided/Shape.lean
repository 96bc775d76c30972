import Strided.Checked

/-!
# Shapes and strides

A `Shape` says how many indices every axis has, a `Strides` how far apart, in elements,
neighbours along every axis lie. `Strides.rowMajor` is the layout without gaps in which
the last axis runs fastest; it is the one new buffers get, and `View.isContiguous`
compares with it.

Both products of this file are taken under the 64-bit rules of `Strided.Checked`:

* `Shape.numel` multiplies the sizes from the first axis to the last and faults at the
  first partial product that is no size, even if a later axis is empty;
* `Strides.rowMajor` multiplies from the last axis to the first, once more than there
  are strides to compute, so that a shape whose row-major layout exists also has an
  element count that is a signed word.
-/

namespace Strided

/-- Decimal digits of a size. -/
def digits (n : Nat) : List Char := Nat.toDigits 10 n

/-- Decimal digits of a distance, behind a minus sign if it is negative. -/
def signedDigits : Int → List Char
  | .ofNat n => digits n
  | .negSucc n => '-' :: digits (n + 1)

/-- **The extent of every axis.** -/
structure Shape where
  dims : List Nat
  deriving DecidableEq, Inhabited

/-- **The distance between neighbours along every axis**, in elements. -/
structure Strides where
  steps : List Int
  deriving DecidableEq, Inhabited

namespace Shape

/-- The number of axes. -/
def rank (s : Shape) : Nat := s.dims.length

@[simp] theorem rank_mk (dims : List Nat) : (Shape.mk dims).rank = dims.length := rfl

/-- The product of sizes, in exact arithmetic. -/
def volume : List Nat → Nat
  | [] => 1
  | dim :: dims => dim * volume dims

/-- **The number of elements**, multiplied up from the first axis. -/
def numel (s : Shape) : Checked Nat := s.dims.foldlM (fun n dim => checkSize (n * dim)) 1

/-- A shape of at most one element has no subview but itself. -/
def isDegenerate (s : Shape) : Checked Bool := return (← s.numel) ≤ 1

/-- The bracketed text with sizes joined by `x`. Rank 0 shows as `[0]`. -/
def compact (s : Shape) : String :=
  let sizes := if s.dims.isEmpty then [0] else s.dims
  String.ofList ('[' :: List.intercalate ['x'] (sizes.map digits) ++ [']'])

/-- The bracketed list of sizes, comma separated, as characters. -/
def listing (s : Shape) : List Char :=
  '[' :: List.intercalate [',', ' '] (s.dims.map digits) ++ [']']

end Shape

namespace Strides

/-- The compact text of a shape, with signs. -/
def compact (s : Strides) : String :=
  let steps := if s.steps.isEmpty then [0] else s.steps
  String.ofList ('[' :: List.intercalate ['x'] (steps.map signedDigits) ++ [']'])

/-- The row-major strides of the axes `dims`, behind the size of the block they span. -/
def rowMajorBlock : List Nat → Checked (Int × List Int)
  | [] => .ok (1, [])
  | dim :: dims => do
    let (block, steps) ← rowMajorBlock dims
    return (← checkSigned (block * toSigned dim), block :: steps)

/-- **The strides of a gapless layout** whose last axis runs fastest. -/
def rowMajor (s : Shape) : Checked Strides := return ⟨(← rowMajorBlock s.dims).2⟩

end Strides

end Strided
