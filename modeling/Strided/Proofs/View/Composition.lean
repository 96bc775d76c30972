import Strided.Proofs.View.Parts
import Mathlib.Data.Int.ModEq

/-!
# Slicing what has been sliced

A slice of a slice is a slice: `Slice.comp` starts where the second one starts among the indices
of the first, and its step is the product of the steps. That it fits the axis (`Slice.comp_fits`)
and selects as many indices as the second slice does (`Slice.length_comp`) both come from
`Slice.nth_comp`, by which its indices are those of the first slice at those of the second, so no
rounded quotient is ever compared with another.

For views this is `View.subviews_compose`. Shapes agree as exact numbers, but offsets and strides
are computed in words, in one way when slicing twice and in another when slicing once:

* the offsets agree modulo `2 ^ 64` (`Stacked.leap_modEq`), and an offset is read as a size at
  the end;
* the strides agree modulo `2 ^ 64` as well, and being signed words they are equal
  (`Stacked.stretched_eq`).

Both are inductions on `Stacked`, the account of which slice is applied to what the other one
leaves of an axis.

Nothing of this takes that the view has a stride for every axis. The axes beyond the strides are
lost with the first subscription, the second one does not speak of them, and their slices stay
what they were in the composed one. It matters for the subscription of everything: it gives the
view back if there is a stride for every axis and an axis for every stride, and not otherwise.
-/

namespace Strided

/-! ### Words -/

/-- The signed reading of a size is the size, up to whole words. -/
theorem toSigned_modEq (n : Nat) : toSigned n ≡ n [ZMOD sizeBound] :=
  (Int.modEq_iff_dvd.2 (dvd_toSigned_sub n)).symm

/-- The unsigned reading of a number is the number, up to whole words. -/
theorem toSize_modEq (z : Int) : (toSize z : Int) ≡ z [ZMOD sizeBound] := by
  unfold toSize
  rw [Int.toNat_of_nonneg (Int.emod_nonneg z (by decide))]
  exact Int.mod_modEq z sizeBound

theorem toSize_congr {z w : Int} (h : z ≡ w [ZMOD sizeBound]) : toSize z = toSize w :=
  toSize_eq_of_dvd h.symm.dvd

/-- **Signed words that agree modulo `2 ^ 64` are equal.** -/
theorem eq_of_modEq {z w : Int} (hz : SignedWord z) (hw : SignedWord w)
    (h : z ≡ w [ZMOD sizeBound]) : z = w := by
  unfold Int.ModEq at h
  unfold SignedWord signedBound at hz hw
  unfold sizeBound at h
  omega

theorem signedWord_toSigned (n : Nat) : SignedWord (toSigned n) :=
  ⟨Int.le_bmod (show 0 < sizeBound by decide), Int.bmod_lt (show 0 < sizeBound by decide)⟩

/-- A size is what its signed reading is read as. -/
theorem toSize_toSigned {n : Nat} (h : n < sizeBound) : toSize (toSigned n) = n := by
  have hn : (toSize (n : Int) : Int) = n := toSize_of_nonneg (by omega) (by omega)
  rw [toSize_congr (toSigned_modEq n)]
  exact Int.ofNat.inj hn

/-- A signed word is what its unsigned reading is read as. -/
theorem toSigned_toSize {z : Int} (h : SignedWord z) : toSigned (toSize z) = z :=
  eq_of_modEq (signedWord_toSigned _) h ((toSigned_modEq _).trans (toSize_modEq z))

/-! ### A slice of a slice -/

namespace Slice

variable {s t : Slice} {dim : Nat}

/-- **What `t` selects of what `s` selects**, as one slice. It ends behind the last index. -/
def comp (s t : Slice) : Slice where
  start := s.start + s.step * t.start
  step := s.step * t.step
  stop := s.start + s.step * t.start + (t.length - 1) * (s.step * t.step) + 1

/-- The indices are those of the first slice at those of the second. -/
theorem nth_comp (s t : Slice) (i : Nat) : (s.comp t).nth i = s.nth (t.nth i) := by
  unfold nth comp
  ring

/-- The end is one behind the last index. -/
theorem stop_comp (s t : Slice) : (s.comp t).stop = s.nth (t.nth (t.length - 1)) + 1 := by
  rw [← nth_comp]
  rfl

/-- **A slice that fits what `s` selects fits the axis**, once it is composed with `s`. -/
theorem comp_fits (hs : s.Fits dim) (ht : t.Fits s.length) : (s.comp t).Fits dim := by
  have hlast : t.nth (t.length - 1) < s.length :=
    Nat.lt_of_lt_of_le (nth_lt ht (Nat.sub_one_lt (length_pos ht).ne')) ht.2.2
  refine ⟨Nat.mul_pos hs.1 ht.1, ?_, ?_⟩
  · show s.start + s.step * t.start
      < s.start + s.step * t.start + (t.length - 1) * (s.step * t.step) + 1
    omega
  · calc (s.comp t).stop
        = s.nth (t.nth (t.length - 1)) + 1 := stop_comp s t
      _ ≤ s.stop := nth_lt hs hlast
      _ ≤ dim := hs.2.2

/-- It selects as many indices as the second slice. -/
theorem length_comp (hs : 1 ≤ s.step) (ht : t.Fits dim) : (s.comp t).length = t.length := by
  have hpos := length_pos ht
  have hstep : 0 < s.step * t.step := Nat.mul_pos hs ht.1
  refine eq_of_forall_lt_iff fun i => ?_
  -- below the end lie the indices up to the last one, which is the last one of `t`
  rw [lt_length_iff (show 1 ≤ (s.comp t).step from hstep)]
  show s.start + s.step * t.start + i * (s.step * t.step)
    < s.start + s.step * t.start + (t.length - 1) * (s.step * t.step) + 1 ↔ i < t.length
  rw [Nat.lt_succ_iff, Nat.add_le_add_iff_left, Nat.mul_le_mul_right_iff hstep]
  omega

/-- All of an axis. -/
@[simp] theorem length_all (dim : Nat) : (all dim).length = dim := by
  -- the indices below the length are those that are selected
  refine eq_of_forall_lt_iff fun i => ?_
  rw [lt_length_iff (show 1 ≤ (all dim).step from le_rfl)]
  show 0 + i * 1 < dim ↔ i < dim
  rw [Nat.zero_add, Nat.mul_one]

theorem all_fits (h : 0 < dim) : (all dim).Fits dim := ⟨le_rfl, h, le_rfl⟩

end Slice

/-! ### A subscription of a subscription -/

/-- Slices composed axis by axis, those that have a partner. -/
def compSlices : List Slice → List Slice → List Slice
  | s :: slices, t :: later => s.comp t :: compSlices slices later
  | slices, _ => slices

@[simp] theorem compSlices_nil (slices : List Slice) : compSlices slices [] = slices := by
  cases slices <;> rfl

@[simp] theorem compSlices_cons (s t : Slice) (slices later : List Slice) :
    compSlices (s :: slices) (t :: later) = s.comp t :: compSlices slices later := rfl

/-- **What `t` selects of what `s` selects**, as one subscription. -/
def Subscription.comp (s t : Subscription) : Subscription := ⟨compSlices s.slices t.slices⟩

/-- All there is. -/
def Subscription.whole (shape : Shape) : Subscription := ⟨shape.dims.map Slice.all⟩

namespace View

section Axes

variable {slices later : List Slice} {dims : List Nat} {steps : List Int}

/-- **Slices of what other slices leave**, axis by axis. Without a stride an axis is lost with the
first slice, and there is no second one for it. -/
inductive Stacked : List Slice → List Slice → List Nat → List Int → Prop where
  | nil (steps : List Int) : Stacked [] [] [] steps
  | unstrided {slices : List Slice} {dims : List Nat} :
    List.Forall₂ Slice.Fits slices dims → Stacked slices [] dims []
  | cons {s t : Slice} {slices later : List Slice} {dim : Nat} {dims : List Nat} (step : Int)
    {steps : List Int} : s.Fits dim → t.Fits s.length → Stacked slices later dims steps →
    Stacked (s :: slices) (t :: later) (dim :: dims) (step :: steps)

/-- Two subscriptions, one of the view and one of the part, are slices of slices. -/
theorem Stacked.of_fits (hs : List.Forall₂ Slice.Fits slices dims)
    (ht : List.Forall₂ Slice.Fits later (sizes slices steps)) :
    Stacked slices later dims steps := by
  -- along the first slices; how many second ones there are is up to the strides
  induction hs generalizing steps later with
  | nil =>
    cases ht
    exact .nil steps
  | @cons s dim slices dims hs hrest ih =>
    cases steps with
    | nil =>
      cases ht
      exact .unstrided (.cons hs hrest)
    | cons step steps =>
      cases ht with
      | cons ht hlater => exact .cons step hs ht (ih hlater)

namespace Stacked

/-- **Composed slices fit**: what is left of the axes is sliced within their sizes. -/
theorem fits (h : Stacked slices later dims steps) :
    List.Forall₂ Slice.Fits (compSlices slices later) dims := by
  induction h with
  | nil => exact .nil
  | unstrided hs => rwa [compSlices_nil]
  | cons step hs ht _ ih => exact .cons (Slice.comp_fits hs ht) ih

/-- The sizes are those that the second slices leave. -/
theorem sizes_eq (h : Stacked slices later dims steps) :
    sizes (compSlices slices later) steps = sizes later (stretched slices steps) := by
  induction h with
  | nil => rfl
  | unstrided => rw [compSlices_nil, stretched_nil, sizes_nil, sizes_nil]
  | cons step hs ht _ ih =>
    rw [compSlices_cons, stretched_cons, sizes_cons, sizes_cons, ih, Slice.length_comp hs.1 ht]

/-- **The way to the first selected element** is the way through what was selected first, up to
whole words. -/
theorem leap_modEq (h : Stacked slices later dims steps) :
    leap (compSlices slices later) steps
      ≡ leap slices steps + leap later (stretched slices steps) [ZMOD sizeBound] := by
  induction h with
  | nil => exact Int.ModEq.refl _
  | unstrided => rw [compSlices_nil, leap_nil, Int.add_zero]
  | @cons s t slices later _ _ step steps _ _ _ ih =>
    -- the composed start may be read as another word than the sum, but one that is congruent
    have hstart : toSigned (s.comp t).start
        ≡ toSigned s.start + toSigned s.step * toSigned t.start [ZMOD sizeBound] :=
      calc toSigned (s.comp t).start
          ≡ ((s.comp t).start : Int) [ZMOD sizeBound] := toSigned_modEq _
        _ = (s.start : Int) + s.step * t.start := by
            rw [Slice.comp]
            push_cast
            rfl
        _ ≡ toSigned s.start + toSigned s.step * toSigned t.start [ZMOD sizeBound] :=
            ((toSigned_modEq s.start).add
              ((toSigned_modEq s.step).mul (toSigned_modEq t.start))).symm
    calc leap (s.comp t :: compSlices slices later) (step :: steps)
        = toSigned (s.comp t).start * step + leap (compSlices slices later) steps := rfl
      _ ≡ (toSigned s.start + toSigned s.step * toSigned t.start) * step
            + (leap slices steps + leap later (stretched slices steps)) [ZMOD sizeBound] :=
          (hstart.mul_right step).add ih
      _ = toSigned s.start * step + leap slices steps
            + (toSigned t.start * (step * toSigned s.step)
              + leap later (stretched slices steps)) := by ring

/-- **The strides are the same words.** -/
theorem stretched_eq (h : Stacked slices later dims steps)
    (htwice : ∀ z ∈ stretched later (stretched slices steps), SignedWord z)
    (honce : ∀ z ∈ stretched (compSlices slices later) steps, SignedWord z) :
    stretched (compSlices slices later) steps = stretched later (stretched slices steps) := by
  induction h with
  | nil => rfl
  | unstrided => rw [compSlices_nil, stretched_nil, stretched_nil]
  | @cons s t slices later _ _ step steps _ _ _ ih =>
    rw [stretched_cons, stretched_cons] at htwice
    rw [compSlices_cons, stretched_cons] at honce ⊢
    -- the product of the steps need not be a word at all, and still the strides are congruent
    have hstep : step * toSigned (s.comp t).step
        ≡ step * toSigned s.step * toSigned t.step [ZMOD sizeBound] :=
      calc step * toSigned (s.comp t).step
          ≡ step * ((s.comp t).step : Int) [ZMOD sizeBound] := (toSigned_modEq _).mul_left step
        _ = step * s.step * t.step := by
            rw [Slice.comp]
            push_cast
            ring
        _ ≡ step * toSigned s.step * toSigned t.step [ZMOD sizeBound] :=
            (((toSigned_modEq s.step).mul_left step).mul (toSigned_modEq t.step)).symm
    have hhead : step * toSigned (s.comp t).step = step * toSigned s.step * toSigned t.step :=
      eq_of_modEq (honce _ List.mem_cons_self) (htwice _ List.mem_cons_self) hstep
    have htail := ih (fun z hz => htwice z (List.mem_cons_of_mem _ hz))
      (fun z hz => honce z (List.mem_cons_of_mem _ hz))
    rw [hhead, htail, stretched_cons, stretched_cons]

end Stacked

end Axes

/-! ### Views -/

variable {v part w : View} {s t : Subscription}

/-- **A subview in closed form**, of a subscription that fits. -/
theorem subview_of_fits (h : s.Fits v.shape) :
    v.subview s = .error (.fault .overflow) ∨
      (v.subview s = .ok ⟨⟨sizes s.slices v.strides.steps⟩,
          ⟨stretched s.slices v.strides.steps⟩,
          toSize (toSigned v.offset + leap s.slices v.strides.steps)⟩ ∧
        ∀ z ∈ stretched s.slices v.strides.steps, SignedWord z) := by
  unfold subview
  rw [if_pos (show s.rank = v.shape.rank from h.length_eq)]
  rcases slice_of_fits h v.strides.steps (toSigned v.offset) with hf | ⟨hr, hwords⟩
  · rw [hf]
    exact .inl rfl
  · rw [hr]
    exact .inr ⟨rfl, hwords⟩

/-- What a subscription that fits gives, when it gives a view. -/
theorem eq_of_subview (hs : s.Fits v.shape) (h : v.subview s = .ok part) :
    part = ⟨⟨sizes s.slices v.strides.steps⟩, ⟨stretched s.slices v.strides.steps⟩,
      toSize (toSigned v.offset + leap s.slices v.strides.steps)⟩ := by
  rcases subview_of_fits hs with hf | ⟨hpart, -⟩
  · rw [hf] at h
    exact absurd h (by simp)
  · exact Except.ok.inj (h.symm.trans hpart)

/-- **A subscription that fits a subview fits the whole**, once it is composed with the first. -/
theorem comp_fits (hs : s.Fits v.shape) (hpart : v.subview s = .ok part)
    (ht : t.Fits part.shape) : (s.comp t).Fits v.shape := by
  rw [eq_of_subview hs hpart] at ht
  exact (Stacked.of_fits hs ht).fits

/-- Slicing all of every axis leaves everything where it is. -/
theorem slice_all {dims : List Nat} {steps : List Int} {offset : Int}
    (hdims : ∀ dim ∈ dims, 0 < dim) (hoffset : SignedWord offset)
    (hsteps : ∀ step ∈ steps, SignedWord step) :
    slice (dims.map Slice.all) dims steps offset
      = .ok (offset, dims.take steps.length, steps.take dims.length) := by
  induction dims generalizing steps with
  | nil => cases steps <;> rfl
  | cons dim dims ih =>
    cases steps with
    | nil => rfl
    | cons step steps =>
      have hstep := hsteps step List.mem_cons_self
      have hrest := ih (fun d hd => hdims d (List.mem_cons_of_mem _ hd))
        (fun z hz => hsteps z (List.mem_cons_of_mem _ hz))
      -- the first index adds nothing, and a step of one leaves the stride as it is
      have hway : toSigned (Slice.all dim).start * step = 0 := by
        rw [show (Slice.all dim).start = 0 from rfl, toSigned_of_lt (by decide), Nat.cast_zero,
          Int.zero_mul]
      have hstride : step * toSigned (Slice.all dim).step = step := by
        rw [show (Slice.all dim).step = 1 from rfl, toSigned_of_lt (by decide), Nat.cast_one,
          Int.mul_one]
      -- so nothing that is computed for this axis can overflow
      rw [List.map_cons, slice_cons_of_words (Slice.all_fits (hdims dim List.mem_cons_self))
        (by rw [hway]; decide) (by rwa [hway, Int.add_zero]) (by rwa [hstride]), hway, hstride,
        Int.add_zero, hrest, Slice.length_all]
      rfl

/-- **Slicing twice is slicing once**, when none of it overflows. -/
theorem subview_comp (hs : s.Fits v.shape) (hpart : v.subview s = .ok part)
    (ht : t.Fits part.shape) (htwice : part.subview t ≠ .error (.fault .overflow))
    (honce : v.subview (s.comp t) ≠ .error (.fault .overflow)) :
    ∃ w, part.subview t = .ok w ∧ v.subview (s.comp t) = .ok w := by
  have hc := comp_fits hs hpart ht
  -- the part is known in closed form, and so is what is selected of it
  obtain rfl := eq_of_subview hs hpart
  have hstacked : Stacked s.slices t.slices v.shape.dims v.strides.steps := .of_fits hs ht
  rcases subview_of_fits ht with hf | ⟨hw, hwords⟩
  · exact absurd hf htwice
  rcases subview_of_fits hc with hf | ⟨hw', hcwords⟩
  · exact absurd hf honce
  refine ⟨_, hw, ?_⟩
  -- the offset of the part has been read as a size and back, which shows in whole words only
  have hoffset : toSigned v.offset + leap (s.comp t).slices v.strides.steps
      ≡ toSigned (toSize (toSigned v.offset + leap s.slices v.strides.steps))
        + leap t.slices (stretched s.slices v.strides.steps) [ZMOD sizeBound] :=
    calc toSigned v.offset + leap (s.comp t).slices v.strides.steps
        ≡ toSigned v.offset + (leap s.slices v.strides.steps
            + leap t.slices (stretched s.slices v.strides.steps)) [ZMOD sizeBound] :=
          hstacked.leap_modEq.add_left _
      _ = (toSigned v.offset + leap s.slices v.strides.steps)
            + leap t.slices (stretched s.slices v.strides.steps) := (Int.add_assoc _ _ _).symm
      _ ≡ toSigned (toSize (toSigned v.offset + leap s.slices v.strides.steps))
            + leap t.slices (stretched s.slices v.strides.steps) [ZMOD sizeBound] :=
          ((toSigned_modEq _).trans (toSize_modEq _)).symm.add_right _
  have hsizes : sizes (s.comp t).slices v.strides.steps
      = sizes t.slices (stretched s.slices v.strides.steps) := hstacked.sizes_eq
  have hstretched : stretched (s.comp t).slices v.strides.steps
      = stretched t.slices (stretched s.slices v.strides.steps) :=
    hstacked.stretched_eq hwords hcwords
  rw [hw', toSize_congr hoffset, hsizes, hstretched]

/-- **The subscription of everything** cuts sizes and strides to a common number. -/
theorem subview_whole (hdims : ∀ dim ∈ v.shape.dims, 0 < dim) (hoffset : v.offset < sizeBound)
    (hsteps : ∀ step ∈ v.strides.steps, SignedWord step) :
    v.subview (.whole v.shape) = .ok ⟨⟨v.shape.dims.take v.strides.steps.length⟩,
      ⟨v.strides.steps.take v.shape.dims.length⟩, v.offset⟩ := by
  unfold subview
  rw [if_pos (show (Subscription.whole v.shape).rank = v.shape.rank from List.length_map _),
    Subscription.whole, slice_all hdims (signedWord_toSigned v.offset) hsteps]
  exact congrArg (fun offset => Except.ok (View.mk _ _ offset)) (toSize_toSigned hoffset)

/-- **Subviews compose.** Whatever the view, a subscription that fits its shape gives a view
unless the arithmetic overflows. One that fits the shape of that view, composed with the first,
fits the shape of the whole; and if nothing overflows, slicing twice and slicing once give the
same view. The subscription of everything, of a view whose axes all have elements, cuts sizes and
strides to a common number and changes nothing else. So it gives the view back exactly if there
are as many strides as axes. -/
theorem subviews_compose (v : View) :
    (∀ s : Subscription, s.Fits v.shape → v.subview s ≠ .error (.fault .overflow) →
      ∃ part, v.subview s = .ok part ∧ ∀ t : Subscription, t.Fits part.shape →
        (s.comp t).Fits v.shape ∧
        (part.subview t ≠ .error (.fault .overflow) →
          v.subview (s.comp t) ≠ .error (.fault .overflow) →
          ∃ w, part.subview t = .ok w ∧ v.subview (s.comp t) = .ok w)) ∧
    ((∀ dim ∈ v.shape.dims, 0 < dim) → v.offset < sizeBound →
      (∀ step ∈ v.strides.steps, SignedWord step) →
      v.subview (.whole v.shape) = .ok ⟨⟨v.shape.dims.take v.strides.steps.length⟩,
        ⟨v.strides.steps.take v.shape.dims.length⟩, v.offset⟩ ∧
      (v.subview (.whole v.shape) = .ok v ↔
        v.strides.steps.length = v.shape.dims.length)) := by
  constructor
  · intro s hs hover
    -- a subscription that fits can only fail by an overflow
    rcases subview_of_fits hs with hf | ⟨hpart, -⟩
    · exact absurd hf hover
    · exact ⟨_, hpart, fun t ht => ⟨comp_fits hs hpart ht, subview_comp hs hpart ht⟩⟩
  · intro hdims hoffset hsteps
    have hwhole := subview_whole hdims hoffset hsteps
    refine ⟨hwhole, fun h => ?_, fun h => ?_⟩
    · -- what has been cut was no longer than the other before
      rw [hwhole] at h
      have hv := Except.ok.inj h
      have hcutDims := congrArg (fun w : View => w.shape.dims.length) hv
      have hcutSteps := congrArg (fun w : View => w.strides.steps.length) hv
      simp only [List.length_take] at hcutDims hcutSteps
      omega
    · -- cutting to the same length takes nothing away
      rw [hwhole, List.take_of_length_le h.ge, List.take_of_length_le h.le]

/-- Ten rows of six cells. -/
def grid : View := ⟨⟨[10, 6]⟩, ⟨[6, 1]⟩, 0⟩

/-- Three rows of a grid, and two columns of two of them. -/
theorem subviews_compose_grid :
    ∃ s t part w, s.Fits grid.shape ∧ grid.subview s = .ok part ∧ t.Fits part.shape ∧
      part.subview t = .ok w ∧ grid.subview ⟨[⟨1, 6, 8⟩, ⟨2, 3, 6⟩]⟩ = .ok w ∧
      grid.subview ⟨[⟨0, 1, 10⟩, ⟨0, 1, 6⟩]⟩ = .ok grid := by
  obtain ⟨hcompose, hwhole⟩ := subviews_compose grid
  have hs : Subscription.Fits ⟨[⟨1, 3, 10⟩, ⟨0, 1, 6⟩]⟩ grid.shape := by decide
  obtain ⟨part, hpart, hthen⟩ := hcompose _ hs (by decide +kernel)
  have hknown : grid.subview ⟨[⟨1, 3, 10⟩, ⟨0, 1, 6⟩]⟩ = .ok ⟨⟨[3, 6]⟩, ⟨[18, 1]⟩, 6⟩ := by
    decide +kernel
  obtain rfl := Except.ok.inj (hpart.symm.trans hknown)
  have ht : Subscription.Fits ⟨[⟨0, 2, 3⟩, ⟨2, 3, 6⟩]⟩ ⟨[3, 6]⟩ := by decide
  obtain ⟨w, hw, hc⟩ := (hthen _ ht).2 (by decide +kernel) (by decide +kernel)
  have hall := (hwhole (by decide) (by decide) (by decide)).2.2 rfl
  exact ⟨_, _, _, w, hs, hpart, ht, hw, hc, hall⟩

/-- Two rows of three cells, but only one stride. -/
def unstrided : View := ⟨⟨[2, 3]⟩, ⟨[1]⟩, 0⟩

/-- The subscription of everything loses the axis that has no stride. -/
theorem unstrided_not_whole :
    (∀ dim ∈ unstrided.shape.dims, 0 < dim) ∧
      unstrided.subview (.whole unstrided.shape) = .ok ⟨⟨[2]⟩, ⟨[1]⟩, 0⟩ ∧
      unstrided.subview (.whole unstrided.shape) ≠ .ok unstrided :=
  ⟨by decide, by decide +kernel, by decide +kernel⟩

end View

end Strided
