import Strided.Shape

/-!
# Slices and subscriptions

A `Slice` is a `start:end:step` range of indices along one axis, and a `Subscription`
has one slice for every axis. A slice counts and prints without knowing the axis it is
meant for; whether it fits one is `Slice.Fits`, which also asks for at least one index.
-/

namespace Strided

/-- **A range of indices** `start, start + step, …` below `stop`. -/
structure Slice where
  start : Nat
  step : Nat
  stop : Nat
  deriving DecidableEq, Inhabited

namespace Slice

/-- The number of indices. A step of zero selects none. -/
def length (s : Slice) : Nat :=
  if s.stop ≤ s.start ∨ s.step = 0 then 0 else (s.stop - s.start + s.step - 1) / s.step

/-- Whether the slice selects no index at all. -/
def isEmpty (s : Slice) : Bool := s.length == 0

/-- The slice selects something, and nothing beyond an axis of size `dim`. -/
def Fits (s : Slice) (dim : Nat) : Prop := 1 ≤ s.step ∧ s.start < s.stop ∧ s.stop ≤ dim

instance (s : Slice) (dim : Nat) : Decidable (s.Fits dim) :=
  inferInstanceAs (Decidable (_ ∧ _ ∧ _))

/-- The characters of `start:end:step`. -/
def chars (s : Slice) : List Char :=
  digits s.start ++ ':' :: digits s.stop ++ ':' :: digits s.step

/-- The text `start:end:step`. -/
def text (s : Slice) : String := String.ofList s.chars

/-- The whole of an axis. -/
def all (dim : Nat) : Slice := ⟨0, 1, dim⟩

end Slice

/-- **One slice per axis.** -/
structure Subscription where
  slices : List Slice
  deriving DecidableEq, Inhabited

namespace Subscription

/-- The number of axes the subscription speaks of. -/
def rank (s : Subscription) : Nat := s.slices.length

/-- The shape of what the subscription selects. -/
def shape (s : Subscription) : Shape := ⟨s.slices.map Slice.length⟩

/-- The characters of the bracketed, comma separated slices. -/
def chars (s : Subscription) : List Char :=
  '[' :: List.intercalate [',', ' '] (s.slices.map Slice.chars) ++ [']']

/-- The bracketed text. -/
def text (s : Subscription) : String := String.ofList s.chars

end Subscription

end Strided
