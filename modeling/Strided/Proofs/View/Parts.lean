import Strided.NDArray.Diagonal
import Strided.Proofs.View.Access
import Mathlib.Data.List.Forall2
import Mathlib.Tactic.Linarith
import Mathlib.Tactic.Ring

/-!
# Parts of views

A subview and a diagonal are views of some of the elements of a view, each element found by its
multi-index in the whole: `View.PartOf` says so for a function of multi-indices. Both
operations compute a new offset and new strides in signed words, and both are shown to mean
exactly that, for strides of any sign:

* `View.slice_of_fits` — the offset, sizes and strides of a slice in closed form, as they are
  computed;
* `View.subview_cases` — a subscription is refused for what it asks of the shape, or the
  arithmetic overflows, or the result is the part with the multi-indices `Subscription.pick`;
* `NDArray.diagonal_cases` — the same for a diagonal and the multi-indices `Diagonal.indexOf`.

The operations read sizes as signed words without a check, so a size from `2 ^ 63` on is a
negative number to them. What makes this harmless is `Addressable.step_eq_zero`: along an axis
that long, elements inside a buffer can only repeat.
-/

namespace Strided

/-! ### Parts -/

namespace View

/-- **A view of some of the elements of `v`**, each multi-index sent to one of `v`. -/
structure PartOf (part v : View) (f : List Nat → List Nat) : Prop where
  rank_eq : part.strides.steps.length = part.shape.dims.length
  within : ∀ index, Within index part.shape.dims → Within (f index) v.shape.dims
  position_eq : ∀ index, Within index part.shape.dims → part.position index = v.position (f index)
  injective : ∀ i j, Within i part.shape.dims → Within j part.shape.dims → f i = f j → i = j

variable {part v : View} {f : List Nat → List Nat} {size : Nat}

/-- A part lies where the whole lies. -/
theorem PartOf.inBounds (h : PartOf part v f) (hv : v.InBounds size) : part.InBounds size := by
  rw [inBounds_iff] at hv ⊢
  intro index hin
  rw [h.position_eq index hin]
  exact hv (f index) (h.within index hin)

/-- A part repeats no cell that the whole does not. -/
theorem PartOf.distinct (h : PartOf part v f) (hv : v.Distinct) : part.Distinct := by
  rw [distinct_iff] at hv ⊢
  intro i j hi hj heq
  rw [h.position_eq i hi, h.position_eq j hj] at heq
  exact h.injective i j hi hj (hv _ _ (h.within i hi) (h.within j hj) heq)

end View

/-! ### Elements at signed words -/

/-- **Ways along an axis are exact** if its length in either direction is a signed word, and they
are signed words too. -/
theorem exact_way {n m : Nat} {step : Int} (h : n * step.natAbs < signedBound) (hm : m ≤ n) :
    toSigned m * step = m * step ∧ SignedWord (toSigned m * step) := by
  have hlt : m * step.natAbs < signedBound := lt_of_le_of_lt (Nat.mul_le_mul_right _ hm) h
  have hexact := toSigned_mul_of_way hlt
  refine ⟨hexact, .of_natAbs ?_⟩
  rwa [hexact, Int.natAbs_mul, Int.natAbs_natCast]

theorem checkSigned_cases (z : Int) : checkSigned z = .ok z ∨ checkSigned z = .error .overflow := by
  unfold checkSigned
  split
  · exact .inl rfl
  · exact .inr rfl

/-- A chain through a signed word overflows there or goes on. -/
theorem checkSigned_bind_cases {α : Type} (z : Int) (f : Int → Answer α) :
    ((checkSigned z).lift >>= f) = .error (.fault .overflow) ∨
      ((checkSigned z).lift >>= f) = f z := by
  rcases checkSigned_cases z with h | h
  · -- the number is passed on as it is
    rw [h]
    exact .inr rfl
  · rw [h]
    exact .inl rfl

/-- Every element has a position that is a size as well as a signed word. -/
def Addressable (dims : List Nat) (steps : List Int) (base : Int) : Prop :=
  ∀ index, Within index dims →
    0 ≤ base + displacement index steps ∧ base + displacement index steps < (signedBound : Int)

namespace Addressable

variable {dims : List Nat} {steps : List Int} {base : Int} {dim : Nat} {step : Int}

theorem tail {i : Nat} (h : Addressable (dim :: dims) (step :: steps) base) (hi : i < dim) :
    Addressable dims steps (base + i * step) := by
  intro index hin
  have hp := h (i :: index) ⟨hi, hin⟩
  rwa [displacement_cons, ← Int.add_assoc] at hp

/-- **Along an axis of more than `2 ^ 63` elements nothing moves.** -/
theorem step_eq_zero (h : Addressable (dim :: dims) (step :: steps) base)
    (hdims : ∀ d ∈ dims, 0 < d) (hdim : signedBound < dim) : step = 0 := by
  have hin := within_firstIndex hdims
  -- the elements `0` and `2 ^ 63` of the axis are `2 ^ 63` strides apart, and both in reach
  have hfirst := h (0 :: firstIndex dims) ⟨by omega, hin⟩
  have hfar := h (signedBound :: firstIndex dims) ⟨hdim, hin⟩
  rw [displacement_cons, displacement_firstIndex] at hfirst hfar
  unfold signedBound at hfirst hfar
  omega

/-- The signed reading of an index does not show in a product with the stride. -/
theorem toSigned_mul (h : Addressable (dim :: dims) (step :: steps) base)
    (hdims : ∀ d ∈ dims, 0 < d) {i : Nat} (hi : i < dim) : toSigned i * step = i * step := by
  by_cases hlt : i < signedBound
  · rw [toSigned_of_lt hlt]
  · -- an index that is no signed word belongs to an axis along which nothing moves
    rw [h.step_eq_zero hdims (by omega), Int.mul_zero, Int.mul_zero]

end Addressable

theorem View.InBounds.addressable {v : View} {size : Nat} (h : v.InBounds size)
    (hsize : size ≤ signedBound) : Addressable v.shape.dims v.strides.steps v.offset := by
  intro index hin
  have hp := inBounds_iff.1 h index hin
  unfold position at hp
  omega

/-! ### What a subscription asks of a shape -/

/-- The `i`-th selected index of an axis. -/
def Slice.nth (s : Slice) (i : Nat) : Nat := s.start + i * s.step

/-- **The multi-index in the whole** of an element that a subscription selects. -/
def Subscription.pick (s : Subscription) (index : List Nat) : List Nat :=
  List.zipWith Slice.nth s.slices index

/-- The strides of what is selected: each one grows by the step of its slice. -/
def Subscription.stretch (s : Subscription) (steps : List Int) : List Int :=
  List.zipWith (fun slice step => step * toSigned slice.step) s.slices steps

/-- The first slice that does not fit its axis. -/
def firstMisfit : List Slice → List Nat → Option SubviewError
  | s :: slices, dim :: dims =>
    if s.Fits dim then firstMisfit slices dims else some (.bounds s dim)
  | _, _ => none

/-- **What is wrong with a subscription** of a shape, if anything is. -/
def Subscription.refusal? (s : Subscription) (shape : Shape) : Option SubviewError :=
  if s.rank = shape.rank then firstMisfit s.slices shape.dims else some (.rank s shape.rank)

/-- No slice is the first that does not fit if all of them do. -/
theorem firstMisfit_eq_none_iff {slices : List Slice} {dims : List Nat}
    (h : slices.length = dims.length) :
    firstMisfit slices dims = none ↔ List.Forall₂ Slice.Fits slices dims := by
  induction slices generalizing dims with
  | nil =>
    obtain rfl := List.eq_nil_of_length_eq_zero h.symm
    exact ⟨fun _ => .nil, fun _ => rfl⟩
  | cons s slices ih =>
    obtain ⟨dim, dims, rfl⟩ := List.exists_cons_of_length_eq_add_one h.symm
    rw [firstMisfit, List.forall₂_cons, ← ih (Nat.succ.inj h)]
    by_cases hs : s.Fits dim
    · rw [if_pos hs]
      exact ⟨fun hn => ⟨hs, hn⟩, And.right⟩
    · rw [if_neg hs]
      exact ⟨fun hn => absurd hn (by simp), fun hn => absurd hn.1 hs⟩

/-- **One slice for every axis, and every one fits.** -/
def Subscription.Fits (s : Subscription) (shape : Shape) : Prop :=
  List.Forall₂ Slice.Fits s.slices shape.dims

instance Subscription.decidableFits (s : Subscription) (shape : Shape) : Decidable (s.Fits shape) :=
  inferInstanceAs (Decidable (List.Forall₂ _ _ _))

/-- A subscription that fits is one that nothing is wrong with. -/
theorem Subscription.refusal?_eq_none_iff {s : Subscription} {shape : Shape} :
    s.refusal? shape = none ↔ s.Fits shape := by
  unfold refusal?
  by_cases hrank : s.rank = shape.rank
  · rw [if_pos hrank]
    exact firstMisfit_eq_none_iff hrank
  · rw [if_neg hrank]
    exact ⟨fun h => absurd h (by simp), fun h => absurd h.length_eq hrank⟩

/-- What does not fit has a wrong number of slices, or a slice that does not fit its axis. -/
theorem Subscription.not_fits_iff {s : Subscription} {shape : Shape} :
    ¬s.Fits shape ↔ s.rank ≠ shape.rank ∨ ∃ p ∈ s.slices.zip shape.dims, ¬p.1.Fits p.2 := by
  rw [Fits, List.forall₂_iff_zip, not_and_or]
  refine or_congr Iff.rfl ?_
  push Not
  exact ⟨fun ⟨slice, dim, hp, hslice⟩ => ⟨(slice, dim), hp, hslice⟩,
    fun ⟨p, hp, hslice⟩ => ⟨p.1, p.2, hp, hslice⟩⟩

namespace Slice

variable {s : Slice} {dim i j : Nat}

/-- **As many indices are selected as there are before the end**, since rounding up leaves less
than a step. -/
theorem lt_length_iff (hstep : 1 ≤ s.step) : i < s.length ↔ s.nth i < s.stop := by
  unfold length nth
  by_cases hstart : s.stop ≤ s.start
  · rw [if_pos (.inl hstart)]
    omega
  · rw [if_neg (by omega), ← Nat.succ_le_iff, Nat.le_div_iff_mul_le hstep, Nat.succ_mul]
    omega

/-- Selected indices are indices of the axis. -/
theorem nth_lt (h : s.Fits dim) (hi : i < s.length) : s.nth i < s.stop :=
  (lt_length_iff h.1).1 hi

theorem nth_inj (h : s.Fits dim) (heq : s.nth i = s.nth j) : i = j :=
  Nat.eq_of_mul_eq_mul_right h.1 (Nat.add_left_cancel heq)

/-- An axis that a slice fits is not empty. -/
theorem pos_of_fits (h : s.Fits dim) : 0 < dim := by
  obtain ⟨-, hstart, hstop⟩ := h
  omega

/-- A slice that fits selects something. -/
theorem length_pos (h : s.Fits dim) : 0 < s.length := by
  obtain ⟨hstep, hstart, -⟩ := h
  unfold length
  rw [if_neg (by omega)]
  exact Nat.div_pos (by omega) hstep

end Slice

section Picks

variable {slices : List Slice} {dims : List Nat}

theorem pos_of_fits (h : List.Forall₂ Slice.Fits slices dims) : ∀ dim ∈ dims, 0 < dim := by
  induction h with
  | nil => simp
  | cons hs _ ih =>
    intro d hd
    rcases List.mem_cons.1 hd with rfl | hd
    · exact Slice.pos_of_fits hs
    · exact ih d hd

theorem length_pos_of_fits (h : List.Forall₂ Slice.Fits slices dims) :
    ∀ d ∈ slices.map Slice.length, 0 < d := by
  induction h with
  | nil => simp
  | cons hs _ ih =>
    intro d hd
    rcases List.mem_cons.1 hd with rfl | hd
    · exact Slice.length_pos hs
    · exact ih d hd

/-- Slices that fit select multi-indices. -/
theorem within_zipWith_nth (h : List.Forall₂ Slice.Fits slices dims) {index : List Nat}
    (hin : Within index (slices.map Slice.length)) :
    Within (List.zipWith Slice.nth slices index) dims := by
  induction h generalizing index with
  | nil =>
    cases index with
    | nil => trivial
    | cons i index => exact hin.elim
  | cons hs _ ih =>
    cases index with
    | nil => exact hin.elim
    | cons i index =>
      -- a selected index lies before the stop, and the stop in the axis
      exact ⟨Nat.lt_of_lt_of_le (Slice.nth_lt hs hin.1) hs.2.2, ih hin.2⟩

/-- Different elements are selected at different multi-indices. -/
theorem zipWith_nth_inj (h : List.Forall₂ Slice.Fits slices dims) {i j : List Nat}
    (hi : Within i (slices.map Slice.length)) (hj : Within j (slices.map Slice.length))
    (heq : List.zipWith Slice.nth slices i = List.zipWith Slice.nth slices j) : i = j := by
  induction h generalizing i j with
  | nil =>
    cases i with
    | nil =>
      cases j with
      | nil => rfl
      | cons j js => exact hj.elim
    | cons i is => exact hi.elim
  | cons hs _ ih =>
    cases i with
    | nil => exact hi.elim
    | cons i is =>
      cases j with
      | nil => exact hj.elim
      | cons j js =>
        -- the multi-indices differ on the first axis or on a later one
        obtain ⟨hhead, htail⟩ := List.cons.inj heq
        rw [Slice.nth_inj hs hhead, ih hi.2 hj.2 htail]

end Picks

/-! ### Subviews -/

namespace View

/-- The sizes after slicing, on the axes that have a stride. -/
def sizes (slices : List Slice) (steps : List Int) : List Nat :=
  List.zipWith (fun slice _ => slice.length) slices steps

@[simp] theorem sizes_nil (slices : List Slice) : sizes slices [] = [] := List.zipWith_nil_right

@[simp] theorem sizes_cons (s : Slice) (slices : List Slice) (step : Int) (steps : List Int) :
    sizes (s :: slices) (step :: steps) = s.length :: sizes slices steps := rfl

/-- The strides after slicing, as they are computed. -/
def stretched (slices : List Slice) (steps : List Int) : List Int :=
  List.zipWith (fun slice step => step * toSigned slice.step) slices steps

@[simp] theorem stretched_nil (slices : List Slice) : stretched slices [] = [] :=
  List.zipWith_nil_right

@[simp] theorem stretched_cons (s : Slice) (slices : List Slice) (step : Int)
    (steps : List Int) : stretched (s :: slices) (step :: steps)
      = step * toSigned s.step :: stretched slices steps := rfl

/-- Where every axis has a stride every slice counts. -/
theorem sizes_eq_map {slices : List Slice} {steps : List Int}
    (h : slices.length = steps.length) : sizes slices steps = slices.map Slice.length := by
  induction slices generalizing steps with
  | nil => rfl
  | cons s slices ih =>
    obtain ⟨step, steps, rfl⟩ := List.exists_cons_of_length_eq_add_one h.symm
    rw [sizes_cons, List.map_cons, ih (Nat.succ.inj h)]

variable {slices : List Slice} {dims : List Nat} {steps : List Int} {offset : Int}

/-- Slicing the first axis, when its slice fits. -/
theorem slice_cons {s : Slice} {dim : Nat} (step : Int) (hs : s.Fits dim) :
    slice (s :: slices) (dim :: dims) (step :: steps) offset = do
      let way ← checkSigned (toSigned s.start * step)
      let offset ← checkSigned (offset + way)
      let stride ← checkSigned (step * toSigned s.step)
      let (offset, dims, steps) ← slice slices dims steps offset
      return (offset, s.length :: dims, stride :: steps) := by
  rw [slice, if_pos hs]

/-- If the numbers computed on the first axis are signed words, the others decide. -/
theorem slice_cons_of_words {s : Slice} {dim : Nat} {step : Int} (hs : s.Fits dim)
    (hway : SignedWord (toSigned s.start * step))
    (hoffset : SignedWord (offset + toSigned s.start * step))
    (hstride : SignedWord (step * toSigned s.step)) :
    slice (s :: slices) (dim :: dims) (step :: steps) offset = do
      let (offset, dims, steps) ← slice slices dims steps (offset + toSigned s.start * step)
      return (offset, s.length :: dims, step * toSigned s.step :: steps) := by
  rw [slice_cons step hs]
  simp only [Answer.liftM_checked]
  rw [hway.check_eq, Checked.lift_ok, Checked.ok_bind, hoffset.check_eq, Checked.lift_ok,
    Checked.ok_bind, hstride.check_eq, Checked.lift_ok, Checked.ok_bind]

/-- Slicing does not overflow if it does not on the first axis nor on the others. -/
theorem slice_cons_ne_overflow {s : Slice} {dim : Nat} {step : Int} (hs : s.Fits dim)
    (hway : SignedWord (toSigned s.start * step))
    (hoffset : SignedWord (offset + toSigned s.start * step))
    (hstride : SignedWord (step * toSigned s.step))
    (hrest : slice slices dims steps (offset + toSigned s.start * step)
      ≠ .error (.fault .overflow)) :
    slice (s :: slices) (dim :: dims) (step :: steps) offset ≠ .error (.fault .overflow) := by
  rw [slice_cons_of_words hs hway hoffset hstride]
  intro h
  -- on the first axis all is well, so a fault would come from the others
  rcases hslice : slice slices dims steps (offset + toSigned s.start * step) with e | r
  · rw [hslice] at h hrest
    exact hrest (congrArg Except.error (Except.error.inj h))
  · rw [hslice] at h
    exact absurd h (by simp)

/-- The way from the first element to the first selected one, as it is computed. -/
def leap : List Slice → List Int → Int
  | s :: slices, step :: steps => toSigned s.start * step + leap slices steps
  | _, _ => 0

@[simp] theorem leap_nil (steps : List Int) : leap [] steps = 0 := rfl

@[simp] theorem leap_cons (s : Slice) (slices : List Slice) (step : Int) (steps : List Int) :
    leap (s :: slices) (step :: steps) = toSigned s.start * step + leap slices steps := rfl

/-- **Slicing in closed form**: slices that fit give an overflow or a result that can be read off
them. Axes without a stride are left out of it. -/
theorem slice_of_fits (h : List.Forall₂ Slice.Fits slices dims) (steps : List Int) (offset : Int) :
    slice slices dims steps offset = .error (.fault .overflow) ∨
      (slice slices dims steps offset = .ok (offset + leap slices steps,
          sizes slices steps, stretched slices steps) ∧
        ∀ z ∈ stretched slices steps, SignedWord z) := by
  induction h generalizing steps offset with
  | nil =>
    refine .inr ⟨?_, fun _ hz => absurd hz List.not_mem_nil⟩
    rw [leap_nil, Int.add_zero]
    rfl
  | @cons s dim slices dims hs _ ih =>
    cases steps with
    | nil =>
      refine .inr ⟨?_, fun _ hz => absurd hz List.not_mem_nil⟩
      rw [show leap (s :: slices) [] = 0 from rfl, Int.add_zero]
      rfl
    | cons step steps =>
      rw [slice_cons step hs]
      simp only [Answer.liftM_checked]
      -- the way, the offset and the stride are signed words, and each may overflow
      refine (checkSigned_bind_cases _ _).elim .inl fun hway => ?_
      rw [hway]
      refine (checkSigned_bind_cases _ _).elim .inl fun hoffset => ?_
      rw [hoffset]
      rcases checkSigned_cases (step * toSigned s.step) with hstride | hstride
      swap
      · rw [hstride]
        exact .inl rfl
      rw [hstride, Checked.lift_ok, Checked.ok_bind]
      -- the other axes start from the offset that has been moved
      rcases ih steps (offset + toSigned s.start * step) with hf | ⟨hr, hwords⟩
      · rw [hf]
        exact .inl rfl
      · rw [hr, leap_cons, ← Int.add_assoc, sizes_cons, stretched_cons]
        refine .inr ⟨rfl, fun z hz => ?_⟩
        rcases List.mem_cons.1 hz with rfl | hz
        · exact (checkSigned_eq_ok_iff.1 hstride).1
        · exact hwords z hz

/-- Slicing ends in an overflow, in the refusal of the first slice that does not fit, or in a
result; which of the latter two depends on the sizes of the axes alone. -/
theorem slice_cases (slices : List Slice) (offset : Int) (hlen : steps.length = dims.length) :
    slice slices dims steps offset = .error (.fault .overflow) ∨
      (∃ e, slice slices dims steps offset = reject (.invalidSubview e) ∧
        firstMisfit slices dims = some e) ∨
      ∃ r, slice slices dims steps offset = .ok r ∧ firstMisfit slices dims = none := by
  induction slices generalizing dims steps offset with
  | nil => exact .inr (.inr ⟨_, rfl, rfl⟩)
  | cons s slices ih =>
    cases dims with
    | nil => exact .inr (.inr ⟨_, rfl, rfl⟩)
    | cons dim dims =>
      obtain ⟨step, steps, rfl⟩ := List.exists_cons_of_length_eq_add_one hlen
      by_cases hs : s.Fits dim
      · rw [slice_cons step hs, firstMisfit, if_pos hs]
        simp only [Answer.liftM_checked]
        -- the way, the offset and the stride are signed words, and each may overflow
        refine (checkSigned_bind_cases _ _).elim .inl fun hway => ?_
        rw [hway]
        refine (checkSigned_bind_cases _ _).elim .inl fun hoffset => ?_
        rw [hoffset]
        refine (checkSigned_bind_cases _ _).elim .inl fun hstride => ?_
        rw [hstride]
        rcases ih (offset + toSigned s.start * step) (Nat.succ.inj hlen) with
          hf | ⟨e, he, hmis⟩ | ⟨r, hr, hmis⟩
        · rw [hf]
          exact .inl rfl
        · rw [he]
          exact .inr (.inl ⟨e, rfl, hmis⟩)
        · rw [hr]
          exact .inr (.inr ⟨_, rfl, hmis⟩)
      · rw [slice, if_neg hs, firstMisfit, if_neg hs]
        exact .inr (.inl ⟨.bounds s dim, rfl, rfl⟩)

/-- **The leap and the strides of a slice lead to the selected elements**, if all elements are
addressable. -/
theorem displacement_pick {base : Int} (hlen : steps.length = dims.length)
    (hfits : List.Forall₂ Slice.Fits slices dims) (haddr : Addressable dims steps base)
    {index : List Nat} (hin : Within index (slices.map Slice.length)) :
    leap slices steps + displacement index (stretched slices steps)
      = displacement (List.zipWith Slice.nth slices index) steps := by
  induction hfits generalizing steps base index with
  | nil =>
    cases index with
    | nil => rfl
    | cons i index => exact hin.elim
  | @cons s dim slices dims hs hfits ih =>
    cases index with
    | nil => exact hin.elim
    | cons i index =>
      obtain ⟨step, steps, rfl⟩ := List.exists_cons_of_length_eq_add_one hlen
      have hdims := pos_of_fits hfits
      -- the slice starts at an index of the axis, and indices are read without loss
      have hstart : s.start < dim := Nat.lt_of_lt_of_le hs.2.1 hs.2.2
      -- an axis of which more than one element is selected is longer than the step
      have hstep : i * (step * toSigned s.step) = i * s.step * step := by
        rcases Nat.eq_zero_or_pos i with rfl | hi
        · rw [Int.natCast_zero, Int.zero_mul, Int.zero_mul, Int.zero_mul]
        · have hnth := Slice.nth_lt hs hin.1
          have hle : s.step ≤ i * s.step := Nat.le_mul_of_pos_left _ hi
          have hlt : s.step < dim := by
            have hstop := hs.2.2
            unfold Slice.nth at hnth
            omega
          rw [Int.mul_comm step, haddr.toSigned_mul hdims hlt, Int.mul_assoc]
      -- the selected elements of the first axis are the bases of the later ones
      have hrest := ih (Nat.succ.inj hlen) (haddr.tail hstart) hin.2
      rw [leap_cons, haddr.toSigned_mul hdims hstart, stretched_cons, List.zipWith_cons_cons,
        displacement_cons, displacement_cons, hstep, Slice.nth]
      push_cast
      linarith

/-- **What slicing gives**: the offset of the first selected element and strides that take from
one to the next, up to a multiple of `2 ^ 64` in the offset. -/
theorem slice_eq_ok {base offset' : Int} {dims' : List Nat} {steps' : List Int}
    (hlen : steps.length = dims.length) (hfits : List.Forall₂ Slice.Fits slices dims)
    (haddr : Addressable dims steps base) (hoffset : (sizeBound : Int) ∣ offset - base)
    (h : slice slices dims steps offset = .ok (offset', dims', steps')) :
    dims' = slices.map Slice.length ∧ steps' = stretched slices steps ∧
      ∃ base', (sizeBound : Int) ∣ offset' - base' ∧ ∀ index, Within index dims' →
        base' + displacement index steps'
          = base + displacement (List.zipWith Slice.nth slices index) steps := by
  rcases slice_of_fits hfits steps offset with hf | ⟨hr, -⟩
  · rw [hf] at h
    exact absurd h (by simp)
  rw [hr] at h
  obtain ⟨rfl, rfl, rfl⟩ : offset + leap slices steps = offset' ∧
      sizes slices steps = dims' ∧ stretched slices steps = steps' := by
    simpa using h
  have hdims := sizes_eq_map (hfits.length_eq.trans hlen.symm)
  refine ⟨hdims, rfl, base + leap slices steps, ?_, fun index hin => ?_⟩
  · -- `base` is the exact offset, from which the computed one differs by whole words
    rwa [Int.add_sub_add_right]
  · rw [hdims] at hin
    rw [Int.add_assoc, displacement_pick hlen hfits haddr hin]

/-- If slicing does not overflow, neither does the subview. -/
theorem subview_ne_overflow {v : View} {s : Subscription}
    (h : s.rank = v.shape.rank → slice s.slices v.shape.dims v.strides.steps (toSigned v.offset)
      ≠ .error (.fault .overflow)) : v.subview s ≠ .error (.fault .overflow) := by
  unfold subview
  by_cases hrank : s.rank = v.shape.rank
  swap
  · rw [if_neg hrank]
    exact fun he => absurd he (by simp [reject])
  -- behind the check of the rank nothing is computed but the slices
  have hslice := h hrank
  rw [if_pos hrank]
  simp only [Checked.pure_eq]
  intro he
  rcases hr : slice s.slices v.shape.dims v.strides.steps (toSigned v.offset) with e | r
  · rw [hr] at he hslice
    exact hslice (congrArg Except.error (Except.error.inj he))
  · rw [hr] at he
    exact absurd he (by simp)

/-- **What a subscription of a view gives**, when it gives a view: the part that the
subscription picks. -/
theorem partOf_of_subview {v part : View} {s : Subscription} {size : Nat}
    (hlen : v.strides.steps.length = v.shape.dims.length) (hb : v.InBounds size)
    (hsize : size ≤ signedBound) (h : v.subview s = .ok part) :
    s.refusal? v.shape = none ∧ List.Forall₂ Slice.Fits s.slices v.shape.dims ∧
      part.shape = s.shape ∧ part.strides = ⟨s.stretch v.strides.steps⟩ ∧
      part.PartOf v s.pick := by
  unfold subview at h
  by_cases hrank : s.rank = v.shape.rank
  swap
  · rw [if_neg hrank] at h
    exact absurd h (by simp [reject])
  rw [if_pos hrank] at h
  simp only [Checked.pure_eq, Checked.bind_eq_ok] at h
  obtain ⟨⟨offset', dims', steps'⟩, hslice, h⟩ := h
  obtain rfl := Except.ok.inj h
  -- it was sliced, so no slice has been refused
  have hmis : firstMisfit s.slices v.shape.dims = none := by
    rcases slice_cases s.slices (toSigned v.offset) hlen with
      hf | ⟨e, he, -⟩ | ⟨r, -, hmis⟩
    · rw [hf] at hslice
      exact absurd hslice (by simp)
    · rw [he] at hslice
      exact absurd hslice (by simp [reject])
    · exact hmis
  have hfits := (firstMisfit_eq_none_iff hrank).1 hmis
  obtain ⟨rfl, rfl, base', hbase', hpos⟩ :=
    slice_eq_ok hlen hfits (hb.addressable hsize) (dvd_toSigned_sub v.offset) hslice
  have hfirst := within_firstIndex (length_pos_of_fits hfits)
  -- the offset is a position of the whole, so reading it as a size loses nothing
  have hoffset : (toSize offset' : Int) = base' := by
    have hin := inBounds_iff.1 hb _ (within_zipWith_nth hfits hfirst)
    unfold position at hin
    have hp := hpos _ hfirst
    rw [displacement_firstIndex, Int.add_zero] at hp
    rw [← hp] at hin
    rw [toSize_eq_of_dvd hbase']
    exact toSize_of_nonneg hin.1 (by unfold signedBound at hsize; unfold sizeBound; omega)
  refine ⟨?_, hfits, rfl, rfl, ?_, fun index hin => within_zipWith_nth hfits hin, ?_,
    fun i j hi hj heq => zipWith_nth_inj hfits hi hj heq⟩
  · rw [Subscription.refusal?, if_pos hrank, hmis]
  · show (s.stretch v.strides.steps).length = s.shape.dims.length
    rw [Subscription.stretch, Subscription.shape, List.length_zipWith, List.length_map, hlen,
      ← hfits.length_eq, Nat.min_self]
  · intro index hin
    unfold position
    rw [hoffset]
    exact hpos index hin

/-- The offset of a subview is a size. -/
theorem offset_lt_of_subview {v part : View} {s : Subscription} (h : v.subview s = .ok part) :
    part.offset < sizeBound := by
  unfold subview at h
  split at h
  swap
  · exact absurd h (by simp [reject])
  rw [Checked.bind_eq_ok] at h
  obtain ⟨⟨offset, dims, steps⟩, -, h⟩ := h
  rw [← Except.ok.inj h]
  show (offset % (sizeBound : Int)).toNat < sizeBound
  -- a word that is read as unsigned is below its bound
  have hlt := Int.emod_lt_of_pos offset (show (0 : Int) < sizeBound by decide)
  have hpos := Int.emod_nonneg offset (show (sizeBound : Int) ≠ 0 by decide)
  omega

/-- **A subscription of a view** ends in an overflow, in the refusal that the shape calls for,
or in the part it picks. -/
theorem subview_cases {v : View} {size : Nat}
    (hlen : v.strides.steps.length = v.shape.dims.length) (hb : v.InBounds size)
    (hsize : size ≤ signedBound) (s : Subscription) :
    v.subview s = .error (.fault .overflow) ∨
      (∃ e, v.subview s = reject (.invalidSubview e) ∧ s.refusal? v.shape = some e) ∨
      ∃ part, v.subview s = .ok part ∧ s.refusal? v.shape = none ∧ part.shape = s.shape ∧
        part.PartOf v s.pick := by
  rcases hview : v.subview s with e | part
  · unfold subview at hview
    by_cases hrank : s.rank = v.shape.rank
    · -- it is the slicing that failed
      rw [if_pos hrank] at hview
      simp only [Checked.pure_eq] at hview
      rcases slice_cases s.slices (toSigned v.offset) hlen with
        hf | ⟨e', he, hmis⟩ | ⟨r, hr, -⟩
      · rw [hf] at hview
        exact .inl (congrArg Except.error (Except.error.inj hview.symm))
      · rw [he] at hview
        refine .inr (.inl ⟨e', congrArg Except.error (Except.error.inj hview.symm), ?_⟩)
        rw [Subscription.refusal?, if_pos hrank, hmis]
      · rw [hr] at hview
        exact absurd hview (by simp)
    · rw [if_neg hrank] at hview
      refine .inr (.inl ⟨.rank s v.shape.rank, ?_, ?_⟩)
      · exact congrArg Except.error (Except.error.inj hview.symm)
      · rw [Subscription.refusal?, if_neg hrank]
  · -- a view that was made is the part that was asked for
    obtain ⟨hnone, -, hshape, -, hpart⟩ := partOf_of_subview hlen hb hsize hview
    exact .inr (.inr ⟨part, rfl, hnone, hshape, hpart⟩)

end View

/-! ### Diagonals -/

namespace Diagonal

/-- The multi-index in the matrix of an element of the `k`-th diagonal. -/
def indexOf (k : Int) : List Nat → List Nat
  | [t] => [(-k).toNat + t, k.toNat + t]
  | _ => []

/-- The number of elements on the `k`-th diagonal of a matrix. -/
def lengthOf (rows cols : Nat) (k : Int) : Nat := min (rows - (-k).toNat) (cols - k.toNat)

variable {rows cols : Nat} {down right base k : Int}

/-- A diagonal on or above the main one ends with the rows, or with the columns behind its first. -/
theorem lengthOf_of_nonneg (hk : 0 ≤ k) (rows cols : Nat) :
    lengthOf rows cols k = min rows (cols - k.natAbs) := by
  unfold lengthOf
  omega

/-- A diagonal below the main one ends with the columns, or with the rows under its first. -/
theorem lengthOf_of_neg (hk : k < 0) (rows cols : Nat) :
    lengthOf rows cols k = min cols (rows - k.natAbs) := by
  unfold lengthOf
  omega

/-- The distance of an element of a diagonal from the first element of the matrix. -/
theorem displacement_indexOf (k : Int) (t : Nat) (down right : Int) :
    displacement (indexOf k [t]) [down, right]
      = ((-k).toNat + t : Nat) * down + (k.toNat + t : Nat) * right := by
  rw [indexOf, displacement_cons, displacement_cons, displacement_nil, Int.add_zero]

/-- A window of any cells starts where it should, as far as the words are wide enough. -/
theorem windowFrom_cases {start stride step : Int} {first length : Nat}
    (h : length ≠ 0 → toSigned first * step = start) :
    windowFrom stride first step length = .error .overflow ∨
      windowFrom stride first step length
        = .ok ⟨if length = 0 then 0 else start, length, stride⟩ := by
  unfold windowFrom
  rcases checkSigned_cases (toSigned first * step) with hway | hway
  swap
  · rw [hway]
    exact .inl rfl
  rw [hway, Checked.ok_bind]
  -- an empty diagonal has no first cell, so it starts nowhere in particular
  by_cases hzero : length = 0
  · rw [if_pos hzero, if_pos hzero, hzero]
    exact .inr rfl
  · rw [if_neg hzero, if_neg hzero, ← h hzero]
    exact .inr rfl

/-- **The window of a diagonal**, unless the arithmetic overflows: as long as there are cells
on the diagonal, and if there are any it starts at the first of them. It takes that the way to a
cell of the first row or column is what it would be in exact arithmetic. -/
theorem window_cases (hright : 0 < rows → ∀ j < cols, toSigned j * right = j * right)
    (hdown : 0 < cols → ∀ i < rows, toSigned i * down = i * down) (k : Int) :
    window ⟨[rows, cols]⟩ ⟨[down, right]⟩ k = .error (.fault .overflow) ∨
      ∃ start, window ⟨[rows, cols]⟩ ⟨[down, right]⟩ k
          = .ok ⟨start, lengthOf rows cols k, down + right⟩ ∧
        start = if lengthOf rows cols k = 0 then 0
          else displacement (indexOf k [0]) [down, right] := by
  rw [window]
  simp only [Answer.liftM_checked]
  -- the strides are added for every diagonal, also for an empty one
  refine (checkSigned_bind_cases _ _).elim .inl fun hstride => ?_
  rw [hstride, displacement_indexOf]
  by_cases hk : 0 ≤ k
  · -- the diagonal begins in the first row, `k` columns to the right
    rw [if_pos hk]
    have hlen := lengthOf_of_nonneg hk rows cols
    by_cases hcols : cols ≤ k.natAbs
    · rw [if_pos hcols, hlen, Nat.sub_eq_zero_of_le hcols, Nat.min_zero]
      exact .inr ⟨0, rfl, rfl⟩
    have hrow : (-k).toNat + 0 = 0 := by omega
    have hcol : k.toNat + 0 = k.natAbs := by omega
    rw [if_neg hcols, ← hlen, hrow, hcol, Int.natCast_zero, Int.zero_mul, Int.zero_add]
    -- the way is needed only if there are rows for it to lead to
    have hstart : lengthOf rows cols k ≠ 0 → toSigned k.natAbs * right = k.natAbs * right := by
      intro hpos
      have hrows : 0 < rows := by unfold lengthOf at hpos; omega
      exact hright hrows k.natAbs (Nat.lt_of_not_le hcols)
    rcases windowFrom_cases hstart with hw | hw
    · rw [hw]
      exact .inl rfl
    · rw [hw]
      exact .inr ⟨_, rfl, rfl⟩
  · -- the diagonal begins in the first column, `-k` rows down
    rw [if_neg hk]
    have hlen := lengthOf_of_neg (Int.not_le.1 hk) rows cols
    by_cases hrows : rows ≤ k.natAbs
    · rw [if_pos hrows, hlen, Nat.sub_eq_zero_of_le hrows, Nat.min_zero]
      exact .inr ⟨0, rfl, rfl⟩
    have hrow : (-k).toNat + 0 = k.natAbs := by omega
    have hcol : k.toNat + 0 = 0 := by omega
    rw [if_neg hrows, ← hlen, hrow, hcol, Int.natCast_zero, Int.zero_mul, Int.add_zero]
    have hstart : lengthOf rows cols k ≠ 0 → toSigned k.natAbs * down = k.natAbs * down := by
      intro hpos
      have hcols : 0 < cols := by unfold lengthOf at hpos; omega
      exact hdown hcols k.natAbs (Nat.lt_of_not_le hrows)
    rcases windowFrom_cases hstart with hw | hw
    · rw [hw]
      exact .inl rfl
    · rw [hw]
      exact .inr ⟨_, rfl, rfl⟩

/-- Locating a diagonal does not overflow if the sum of the strides and the way to its first cell
are signed words. -/
theorem window_ne_overflow (hsum : SignedWord (down + right))
    (hright : k.natAbs < cols → SignedWord (toSigned k.natAbs * right))
    (hdown : k.natAbs < rows → SignedWord (toSigned k.natAbs * down)) :
    window ⟨[rows, cols]⟩ ⟨[down, right]⟩ k ≠ .error (.fault .overflow) := by
  -- a window that is looked for at all is found
  have hfound : ∀ {step : Int} (n : Nat), SignedWord (toSigned k.natAbs * step) →
      ∃ w, windowFrom (down + right) k.natAbs step n = .ok w := by
    intro step n hway
    unfold windowFrom
    rw [hway.check_eq]
    exact ⟨_, rfl⟩
  rw [window]
  simp only [Answer.liftM_checked]
  rw [hsum.check_eq, Checked.lift_ok, Checked.ok_bind]
  intro h
  -- a diagonal outside the matrix is empty, and nothing more is computed for it
  split at h
  · split at h
    · exact absurd h (by simp)
    · rename_i hcols
      obtain ⟨w, hw⟩ := hfound (min rows (cols - k.natAbs)) (hright (Nat.lt_of_not_le hcols))
      rw [hw] at h
      exact absurd h (by simp)
  · split at h
    · exact absurd h (by simp)
    · rename_i hrows
      obtain ⟨w, hw⟩ := hfound (min cols (rows - k.natAbs)) (hdown (Nat.lt_of_not_le hrows))
      rw [hw] at h
      exact absurd h (by simp)

/-- What is no matrix has no diagonals. -/
theorem window_of_rank_ne {shape : Shape} (h : shape.dims.length ≠ 2) (strides : Strides)
    (k : Int) : window shape strides k = reject (.diagonal (.notMatrix shape.dims.length)) := by
  obtain ⟨dims⟩ := shape
  match dims with
  | [] => rfl
  | [_] => rfl
  | [_, _] => exact absurd rfl h
  | _ :: _ :: _ :: _ => rfl

/-- Neither has a matrix with a wrong number of strides. -/
theorem window_of_strides_ne {shape : Shape} {strides : Strides} (hrank : shape.dims.length = 2)
    (h : strides.steps.length ≠ 2) (k : Int) :
    window shape strides k = reject (.diagonal (.notMatrix strides.steps.length)) := by
  obtain ⟨dims⟩ := shape
  obtain ⟨steps⟩ := strides
  obtain ⟨rows, cols, rfl⟩ := List.length_eq_two.1 hrank
  match steps with
  | [] => rfl
  | [_] => rfl
  | [_, _] => exact absurd rfl h
  | _ :: _ :: _ :: _ => rfl

/-- The elements of a diagonal are elements of the matrix. -/
theorem within_indexOf (k : Int) (index : List Nat) (h : Within index [lengthOf rows cols k]) :
    Within (indexOf k index) [rows, cols] := by
  match index, h with
  | [t], h =>
    have ht := h.1
    unfold lengthOf at ht
    exact ⟨by omega, by omega, trivial⟩

/-- Different elements of a diagonal are different elements of the matrix. -/
theorem indexOf_inj {n m : Nat} {i j : List Nat} (hi : Within i [n]) (hj : Within j [m])
    (h : indexOf k i = indexOf k j) : i = j := by
  match i, j, hi, hj with
  | [t], [u], _, _ =>
    have ht := (List.cons.inj h).1
    rw [Nat.add_left_cancel ht]

end Diagonal

open Diagonal in
/-- **A diagonal of an array** ends in the refusal of an array that is no matrix, in an
overflow, or in the part with the cells on that diagonal. -/
theorem NDArray.diagonal_cases {a : NDArray} {size : Nat}
    (hlen : a.view.strides.steps.length = a.view.shape.dims.length) (hb : a.view.InBounds size)
    (hsize : size ≤ signedBound) (hoffset : a.view.offset < sizeBound) (k : Int) :
    (a.view.shape.dims.length ≠ 2 ∧
        a.diagonal k = reject (.diagonal (.notMatrix a.view.shape.dims.length))) ∨
      ∃ rows cols down right, a.view.shape.dims = [rows, cols] ∧
        a.view.strides.steps = [down, right] ∧
        (a.diagonal k = .error (.fault .overflow) ∨
          ∃ part, a.diagonal k = .ok (a.withView part) ∧
            part.shape = ⟨[lengthOf rows cols k]⟩ ∧ part.strides = ⟨[down + right]⟩ ∧
            (lengthOf rows cols k = 0 → part.offset = a.view.offset) ∧
            part.PartOf a.view (indexOf k)) := by
  rcases a with ⟨storage, ⟨⟨dims⟩, ⟨steps⟩, offset⟩, dt, device⟩
  dsimp only at hlen hoffset ⊢
  by_cases hrank : dims.length = 2
  swap
  · refine .inl ⟨hrank, ?_⟩
    change (window ⟨dims⟩ ⟨steps⟩ k >>= _) = _
    rw [window_of_rank_ne hrank]
    rfl
  obtain ⟨rows, cols, rfl⟩ := List.length_eq_two.1 hrank
  obtain ⟨down, right, rfl⟩ := List.length_eq_two.1 hlen
  refine .inr ⟨rows, cols, down, right, rfl, rfl, ?_⟩
  have haddr : Addressable [rows, cols] [down, right] offset := hb.addressable hsize
  -- a way to a cell is exact, because the cell lies in the buffer
  have hright : 0 < rows → ∀ j < cols, toSigned j * right = j * right :=
    fun hrows _ hj => (haddr.tail hrows).toSigned_mul (by simp) hj
  have hdown : 0 < cols → ∀ i < rows, toSigned i * down = i * down :=
    fun hcols _ hi => haddr.toSigned_mul (by simpa using hcols) hi
  rcases window_cases hright hdown k with hw | ⟨start, hw, hstart⟩
  · left
    change (window ⟨[rows, cols]⟩ ⟨[down, right]⟩ k >>= _) = _
    rw [hw]
    rfl
  · right
    -- the window starts at a cell of the matrix, so the offset can be moved there
    have hmove : ∃ first : Nat,
        moveBy offset start = some first ∧ (first : Int) = offset + start := by
      have hrange : 0 ≤ (offset : Int) + start ∧ (offset : Int) + start < sizeBound := by
        by_cases hzero : lengthOf rows cols k = 0
        · rw [if_pos hzero] at hstart
          omega
        · -- the first cell of the diagonal lies in the buffer
          rw [if_neg hzero] at hstart
          have hin := View.inBounds_iff.1 hb _ (within_indexOf k [0]
            ⟨Nat.pos_of_ne_zero hzero, trivial⟩)
          unfold View.position at hin
          unfold signedBound at hsize
          unfold sizeBound
          dsimp only at hin
          omega
      refine ⟨((offset : Int) + start).toNat, ?_, Int.toNat_of_nonneg hrange.1⟩
      rw [moveBy, if_pos hrange]
    obtain ⟨first, hmove, hfirst⟩ := hmove
    refine ⟨⟨⟨[lengthOf rows cols k]⟩, ⟨[down + right]⟩, first⟩, ?_, rfl, rfl, ?_, rfl,
      fun index hin => within_indexOf k index hin, ?_, fun i j hi hj heq => indexOf_inj hi hj heq⟩
    · change (window ⟨[rows, cols]⟩ ⟨[down, right]⟩ k >>= _) = _
      rw [hw, Checked.ok_bind]
      dsimp only [NDArray.offset]
      rw [hmove]
      rfl
    · intro hzero
      rw [if_pos hzero] at hstart
      dsimp only
      omega
    · intro index hin
      match index, hin with
      | [t], hin =>
        -- a diagonal with an element on it is not empty
        rw [if_neg (Nat.ne_of_gt (Nat.zero_lt_of_lt hin.1))] at hstart
        unfold View.position
        rw [hfirst, hstart]
        simp only [indexOf, displacement_cons, displacement_nil]
        push_cast
        ring

/-- Whatever the window of a diagonal is, what follows does not overflow. -/
theorem NDArray.window_of_diagonal_overflow {a : NDArray} {k : Int}
    (h : a.diagonal k = .error (.fault .overflow)) :
    Diagonal.window a.shape a.strides k = .error (.fault .overflow) := by
  unfold NDArray.diagonal at h
  rcases hw : Diagonal.window a.shape a.strides k with e | w
  · rw [hw] at h
    exact congrArg Except.error (Except.error.inj h)
  · rw [hw, Checked.ok_bind] at h
    -- moving the offset is refused, or it is done, but it does not overflow
    split at h <;> exact absurd h (by simp [reject])

/-- The offset of a diagonal is a size. -/
theorem NDArray.offset_lt_of_diagonal {a b : NDArray} {k : Int} (h : a.diagonal k = .ok b) :
    b.view.offset < sizeBound := by
  unfold NDArray.diagonal at h
  rw [Checked.bind_eq_ok] at h
  obtain ⟨w, -, h⟩ := h
  cases hmove : moveBy a.offset w.start with
  | none =>
    rw [hmove] at h
    exact absurd h (by simp [reject])
  | some offset =>
    rw [hmove] at h
    rw [← Except.ok.inj h]
    unfold moveBy at hmove
    split at hmove
    · rename_i hrange
      rw [← Option.some.inj hmove]
      show ((a.offset : Int) + w.start).toNat < sizeBound
      omega
    · exact absurd hmove (by simp)

end Strided
