import Strided.Checked

/-!
# Drawing from ranges

Generators of test data draw sizes from closed ranges. What they draw from is a
`RangeSource`, of which they may assume no more than that it stays in the range
(`RangeSource.InRange`).

`RangeSource.ofWords` draws from uniform 64-bit words without bias: the high word of the
product of a word with the number of choices is the choice, and words whose low product
word lies beyond the last full round of choices are drawn again.
-/

namespace Strided

/-- **A source of numbers from closed ranges.** `between lo hi` is meant for `lo ≤ hi`. -/
structure RangeSource (σ : Type) where
  between : Nat → Nat → σ → Nat × σ

/-- A source never leaves the range of words it is asked for. -/
def RangeSource.InRange {σ : Type} (R : RangeSource σ) : Prop :=
  ∀ lo hi s, lo ≤ hi → hi < sizeBound →
    lo ≤ (R.between lo hi s).1 ∧ (R.between lo hi s).1 ≤ hi

/-- A computation that draws and may fault. -/
abbrev Draw (σ α : Type) := StateT σ (Except Fault) α

/-- **A number from a closed range.** An empty range is a fault. -/
def drawBetween {σ : Type} (R : RangeSource σ) (lo hi : Nat) : Draw σ Nat := fun s =>
  if lo ≤ hi then .ok (R.between lo hi s) else .error .emptyRange

/-- A source of uniform 64-bit words. -/
structure WordSource (σ : Type) where
  next : σ → UInt64 × σ

namespace RangeSource

variable {σ : Type}

/-- The last low word that is accepted among `choices` choices: the choices go into as many
equal rounds of words as the shift that fills a word allows. -/
def zone (choices : Nat) : Nat := (choices <<< (63 - choices.log2)) - 1

/-- Draws until a word is accepted, at most `fuel` words beyond the first. -/
def choose (W : WordSource σ) (choices : Nat) : Nat → σ → Nat × σ
  | 0, s =>
    let (v, s) := W.next s
    (v.toNat * choices / sizeBound, s)
  | fuel + 1, s =>
    let (v, s) := W.next s
    let product := v.toNat * choices
    -- the low word says how far into a round of choices the word has come
    if product % sizeBound ≤ zone choices then (product / sizeBound, s)
    else choose W choices fuel s

/-- **Unbiased draws from words.** The full range of words takes a word as it is. At least
every other word is accepted, so the bound on the number of words, one for every word there
is, is not reached by a source that takes all of them on in turn. -/
def ofWords (W : WordSource σ) : RangeSource σ where
  between lo hi s :=
    let choices := hi - lo + 1
    -- every word is a choice
    if choices = sizeBound then
      let (v, s) := W.next s
      (v.toNat, s)
    else
      let (i, s) := choose W choices sizeBound s
      (lo + i, s)

theorem choose_lt (W : WordSource σ) {choices : Nat} (h : 0 < choices) (fuel : Nat) (s : σ) :
    (choose W choices fuel s).1 < choices := by
  have hword : ∀ v : UInt64, v.toNat * choices / sizeBound < choices := fun v =>
    Nat.div_lt_of_lt_mul (Nat.mul_lt_mul_of_pos_right v.toNat_lt h)
  induction fuel generalizing s with
  | zero => exact hword _
  | succ fuel ih =>
    unfold choose
    simp only
    split
    · exact hword _
    · exact ih _

/-- Draws from words stay in the range. -/
theorem inRange_ofWords (W : WordSource σ) : (ofWords W).InRange := by
  intro lo hi s h hhi
  simp only [ofWords]
  split
  · rename_i hfull
    have hword : ∀ v : UInt64, v.toNat < sizeBound := fun v => v.toNat_lt
    have hv := hword (W.next s).1
    constructor
    · change lo ≤ (W.next s).1.toNat
      omega
    · change (W.next s).1.toNat ≤ hi
      omega
  · have hi' := choose_lt W (show 0 < hi - lo + 1 by omega) sizeBound s
    simp only
    omega

end RangeSource

end Strided
