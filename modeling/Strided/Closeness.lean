import Strided.NDArray
import Strided.Numeric
import Strided.Hypot
import Strided.Binary.Shortest

/-!
# Comparing arrays up to tolerances

Two arrays of one shape are close if all elements at the same place are, as double
precision complex numbers: `|a - b| ≤ atol + rtol * |b|`. Two values that are no numbers
are close, and so are equal infinities.

If they are not, the refusal reports how many places fail, the mean and the largest
distance, and the first place with the largest one. Distances that are no numbers count
as zero towards the mean and are never the largest.
-/

namespace Strided

namespace Complex

/-- The distance from zero. -/
def norm (z : Complex Float) : Float := hypot z.re z.im

/-- Whether a part is no number. -/
def isNaN (z : Complex Float) : Bool := z.re.isNaN || z.im.isNaN

/-- Whether a part is infinite and none is no number. -/
def isInfinite (z : Complex Float) : Bool := !z.isNaN && (z.re.isInf || z.im.isInf)

/-- Equal in both parts, as numbers. -/
def eq (z w : Complex Float) : Bool := z.re == w.re && z.im == w.im

end Complex

/-- Allowed differences: an absolute one, and one relative to the second operand. -/
structure Tolerance where
  atol : Float
  rtol : Float

namespace Tolerance

/-- **Whether two elements are close**, given the distance between them. -/
def accepts (t : Tolerance) (a b : Complex Float) (distance : Float) : Bool :=
  (a.isNaN && b.isNaN) || (a.isInfinite && b.isInfinite && a.eq b)
    || distance ≤ t.atol + t.rtol * b.norm

/-- Whether two elements are close. -/
def isClose (t : Tolerance) (a b : Complex Float) : Bool := t.accepts a b (a.sub b).norm

end Tolerance

/-- **What a comparison has seen.** -/
structure Comparison where
  total : Float
  largest : Float
  largestAt : Option Nat
  count : Nat
  failures : Nat

namespace Comparison

/-- Before the first element. -/
def start : Comparison := ⟨0, 0, none, 0, 0⟩

/-- After one more pair of elements. -/
def update (t : Tolerance) (c : Comparison) (pair : Complex Float × Complex Float) :
    Comparison :=
  let distance := (pair.1.sub pair.2).norm
  let isLargest : Bool := c.largest < distance
  -- a distance that is no number is not added, and it is not larger than any other
  { total := if distance.isNaN then c.total else c.total + distance
    largest := if isLargest then distance else c.largest
    largestAt := if isLargest then some c.count else c.largestAt
    count := c.count + 1
    failures := if t.accepts pair.1 pair.2 distance then c.failures else c.failures + 1 }

/-- The comparison of two sequences of elements. -/
def of (t : Tolerance) (as bs : List (Complex Float)) : Comparison :=
  (as.zip bs).foldl (update t) start

/-- The mean distance; zero if nothing was compared. -/
def mean (c : Comparison) : Float := if c.count = 0 then 0 else c.total / c.count.toFloat

/-- The report of a comparison that failed. -/
def message (c : Comparison) : String :=
  let place := match c.largestAt with
    | none => "None"
    | some i => "Some(" ++ sizeText i ++ ")"
  sizeText c.failures ++ " samples not close - AVGE=" ++ (Binary.ofFloat c.mean).decimal
    ++ " MAE=" ++ (Binary.ofFloat c.largest).decimal ++ " at " ++ place

end Comparison

/-- **Why two arrays are not close.** -/
inductive NotClose where
  | shapes (left right : Shape)
  | samples (comparison : Comparison)

/-- The wording of the report. -/
def NotClose.message : NotClose → String
  | shapes l r => "Shape mismatch " ++ l.compact ++ " != " ++ r.compact
  | samples c => c.message

/-- **Whether two arrays are close in every element.** -/
def NDArray.allClose (s : Store) (a b : NDArray) (t : Tolerance) :
    Answer (Except NotClose Unit) := do
  if a.shape = b.shape then
    let c := Comparison.of t (← a.toComplex s) (← b.toComplex s)
    return if c.failures = 0 then .ok () else .error (.samples c)
  else
    return .error (.shapes a.shape b.shape)

end Strided
