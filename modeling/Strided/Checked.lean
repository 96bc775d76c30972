/-!
# Checked 64-bit arithmetic

Sizes, strides and positions are exact numbers here, `Nat` for what counts elements and
`Int` for what is walked in either direction. The machine behind them is a 64-bit one,
and it shows in three places only, all in this file:

* `checkSize`, `checkSigned` and `checkDifference` admit a result of exact arithmetic when
  it fits a word, and stop the computation with `Fault.overflow` when it does not;
* `toSigned` and `toSize` read the same 64 bits in the other sense, silently, so a size
  from `2 ^ 63` on is a negative distance and a negative position a huge index.

A `Fault` is not an answer about the arguments: it ends the computation at the point it
arises, and what has been written up to there stays written. Refusals that are answers
are `ArrayError`s.
-/

namespace Strided

/-- **Why a computation ended without an answer.** -/
inductive Fault where
  /-- An integer result left its range. -/
  | overflow
  /-- A position outside a buffer, or an axis that has no stride. -/
  | outOfBounds
  /-- A run of values whose bytes would not fit the address space. -/
  | capacity
  /-- A range with nothing in it was to be drawn from. -/
  | emptyRange
  /-- An array whose storage is not in the store, or holds another element type than
  the array says. -/
  | strayStorage
  deriving DecidableEq

/-- A result of layout arithmetic, which can fault but has nothing to refuse. -/
abbrev Checked (α : Type) := Except Fault α

/-- One more than the largest size, `2 ^ 64`. -/
def sizeBound : Nat := 18446744073709551616

/-- One more than the largest signed word, `2 ^ 63`. -/
def signedBound : Nat := 9223372036854775808

/-- A size, if it fits an unsigned word. -/
def checkSize (n : Nat) : Checked Nat :=
  if n < sizeBound then .ok n else .error .overflow

/-- A distance, if it fits a signed word. -/
def checkSigned (z : Int) : Checked Int :=
  if -(signedBound : Int) ≤ z ∧ z < (signedBound : Int) then .ok z else .error .overflow

/-- The difference of two sizes, if it is a size. -/
def checkDifference (n m : Nat) : Checked Nat :=
  if m ≤ n then .ok (n - m) else .error .overflow

/-- A run of values exists only if the number of its bytes is a signed word. -/
def checkMemory (bytes : Nat) : Checked Unit :=
  if bytes < signedBound then .ok () else .error .capacity

/-- The signed reading of the word that holds `n`. -/
def toSigned (n : Nat) : Int := Int.bmod n sizeBound

/-- The unsigned reading of the word that holds `z`. -/
def toSize (z : Int) : Nat := (z % (sizeBound : Int)).toNat

theorem signedBound_lt_sizeBound : signedBound < sizeBound := by decide

theorem checkSize_eq_ok_iff {n m : Nat} :
    checkSize n = .ok m ↔ n < sizeBound ∧ n = m := by
  unfold checkSize
  split
  · rename_i h; simp [h]
  · rename_i h; simp [h]

theorem checkSigned_eq_ok_iff {z w : Int} :
    checkSigned z = .ok w ↔
      (-(signedBound : Int) ≤ z ∧ z < (signedBound : Int)) ∧ z = w := by
  unfold checkSigned
  split
  · rename_i h; simp [h]
  · rename_i h
    constructor
    · intro hw; exact absurd hw (by simp)
    · rintro ⟨hz, -⟩; exact absurd hz h

theorem checkDifference_of_le {n m : Nat} (h : m ≤ n) : checkDifference n m = .ok (n - m) :=
  if_pos h

theorem checkMemory_eq_ok_iff {bytes : Nat} :
    checkMemory bytes = .ok () ↔ bytes < signedBound := by
  unfold checkMemory
  split
  · rename_i h; simp [h]
  · rename_i h; simp [h]

/-- A size below `2 ^ 63` is the distance of the same value. -/
theorem toSigned_of_lt {n : Nat} (h : n < signedBound) : toSigned n = n := by
  unfold toSigned
  unfold signedBound at h
  rw [Int.bmod_eq_of_le] <;> simp only [sizeBound] <;> omega

/-- A position that is not negative and fits a word is the index of the same value. -/
theorem toSize_of_nonneg {z : Int} (h : 0 ≤ z) (hz : z < (sizeBound : Int)) :
    (toSize z : Int) = z := by
  unfold toSize
  rw [Int.emod_eq_of_lt h hz, Int.toNat_of_nonneg h]

end Strided
