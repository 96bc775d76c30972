import Strided.Proofs.NDArray.Slicing
import Strided.Proofs.View.Placed
import Strided.Proofs.View.Places

/-!
# Parts of dense views

The gapless row-major view of a shape can be as large as a signed word allows, and then there is no
room beside its elements. Still every subscription of it that fits and steps no further than its
axes are long gives a view, and a walk over that comes to its end (`View.subview_dense`). Nothing
more is asked of the shape than that its elements can be counted by a signed word.

A ragged last step takes the walk past the end of an axis, by less than the axis is long. So the
places one past the end of an axis may lie twice as far as the elements
(`displacement_nth_of_beyond`). But an axis before it has then still an index to go, and one row of
that axis is as long as the whole excess: the `Overrun`s, which are the places the walk does
come by, lie among the elements again (`displacement_nth_of_overrun`). The same holds of the ways
back along the axes that come round (`way_le_of_turning`): behind an axis with two indices there is
no more than half of the elements.
-/

namespace Strided

open Shape Strides View

/-! ### Steps of dense strides -/

section Steps

variable {slices : List Slice} {dims x : List Nat} {steps : List Int}

/-- The strides of what is selected lead away from the first selected element. -/
theorem displacement_nth (hlen : x.length = slices.length)
    (hword : ∀ s ∈ slices, s.step < signedBound) (steps : List Int) :
    displacement (List.zipWith Slice.nth slices x) steps
      = displacement (slices.map Slice.start) steps + displacement x (stretched slices steps) := by
  induction slices generalizing x steps with
  | nil =>
    obtain rfl := List.eq_nil_of_length_eq_zero hlen
    rfl
  | cons s slices ih =>
    obtain ⟨i, x, rfl⟩ := List.exists_cons_of_length_eq_add_one hlen
    cases steps with
    | nil => rfl
    | cons step steps =>
      have hrest := ih (Nat.succ.inj hlen) (fun t ht => hword t (List.mem_cons_of_mem _ ht)) steps
      -- a step that is a signed word is multiplied as what it is
      have hread := toSigned_of_lt (hword s List.mem_cons_self)
      rw [List.zipWith_cons_cons, List.map_cons, stretched_cons, displacement_cons,
        displacement_cons, displacement_cons, hrest, hread, Slice.nth]
      push_cast
      ring

/-- Steps no longer than axes that are signed words are such words too. -/
theorem step_lt_of_small (hsmall : List.Forall₂ (fun s dim => s.step ≤ dim) slices dims)
    (hdims : ∀ dim ∈ dims, dim < signedBound) : ∀ s ∈ slices, s.step < signedBound := by
  induction hsmall with
  | nil => exact fun s hs => absurd hs List.not_mem_nil
  | cons hle _ ih =>
    intro s hs
    rcases List.mem_cons.1 hs with rfl | hs
    · exact lt_of_le_of_lt hle (hdims _ List.mem_cons_self)
    · exact ih (fun d hd => hdims d (List.mem_cons_of_mem _ hd)) s hs

/-- The first selected index of every axis. -/
theorem zipWith_nth_firstIndex (slices : List Slice) :
    List.zipWith Slice.nth slices (firstIndex (slices.map Slice.length))
      = slices.map Slice.start := by
  induction slices with
  | nil => rfl
  | cons s slices ih =>
    rw [List.map_cons, firstIndex_cons, List.zipWith_cons_cons, ih, Slice.nth, Nat.zero_mul,
      Nat.add_zero, List.map_cons]

/-- The first selected element is one of the elements. -/
theorem displacement_start_lt (hfits : List.Forall₂ Slice.Fits slices dims) :
    displacement (slices.map Slice.start) (denseSteps dims) < volume dims := by
  induction hfits with
  | nil => exact Int.zero_lt_one
  | @cons s dim slices dims hs _ ih =>
    -- behind the first axis there is less than one row, and the start has a row left
    have hstart : (s.start + 1) * volume dims ≤ dim * volume dims :=
      Nat.mul_le_mul_right _ (Nat.lt_of_lt_of_le hs.2.1 hs.2.2)
    rw [Nat.succ_mul] at hstart
    rw [List.map_cons, denseSteps_cons, displacement_cons, volume_cons, ← Int.natCast_mul]
    omega

/-- **One past the end of an axis** of what is selected is less than twice as far as the elements
are. -/
theorem displacement_nth_of_beyond (hfits : List.Forall₂ Slice.Fits slices dims)
    (hsmall : List.Forall₂ (fun s dim => s.step ≤ dim) slices dims)
    (hx : Beyond x (slices.map Slice.length)) :
    displacement (List.zipWith Slice.nth slices x) (denseSteps dims) < (2 * volume dims : Nat) := by
  induction hfits generalizing x with
  | nil => cases x <;> exact hx.elim
  | @cons s dim slices dims hs hfits ih =>
    obtain ⟨hstep, hsmall⟩ := List.forall₂_cons.1 hsmall
    cases x with
    | nil => exact hx.elim
    | cons i x =>
      rw [List.zipWith_cons_cons, denseSteps_cons, displacement_cons, volume_cons,
        ← Int.natCast_mul, ← Nat.mul_assoc]
      rcases hx with ⟨hi, hx⟩ | ⟨rfl, rfl⟩
      · -- a row of the first axis, and less than another one
        have hrest := ih hsmall hx
        have hnth : (s.nth i + 2) * volume dims ≤ (2 * dim) * volume dims :=
          Nat.mul_le_mul_right _ (by
            have hlt := Slice.nth_lt hs hi
            have hstop := hs.2.2
            have hpos := Slice.pos_of_fits hs
            omega)
        rw [Nat.add_mul] at hnth
        omega
      · -- the end of the last step
        have hstart := displacement_start_lt hfits
        have hnth : (s.nth s.length + 1) * volume dims ≤ (2 * dim) * volume dims :=
          Nat.mul_le_mul_right _ (by
            have hlt := Slice.nth_length_lt hs
            omega)
        rw [Nat.succ_mul] at hnth
        rw [zipWith_nth_firstIndex]
        omega

/-- **Where an axis has to come round, the walk stays among the elements.** -/
theorem displacement_nth_of_overrun (hfits : List.Forall₂ Slice.Fits slices dims)
    (hsmall : List.Forall₂ (fun s dim => s.step ≤ dim) slices dims)
    (hx : Overrun x (slices.map Slice.length)) :
    displacement (List.zipWith Slice.nth slices x) (denseSteps dims) < volume dims := by
  induction hfits generalizing x with
  | nil => cases x <;> exact hx.elim
  | @cons s dim slices dims hs hfits ih =>
    obtain ⟨-, hsmall⟩ := List.forall₂_cons.1 hsmall
    cases x with
    | nil => exact hx.elim
    | cons i x =>
      rw [List.zipWith_cons_cons, denseSteps_cons, displacement_cons, volume_cons,
        ← Int.natCast_mul]
      rcases hx with ⟨hi, hx⟩ | ⟨hi, hx⟩
      · -- there is a row behind this one, and the excess is shorter than that
        have hrest := displacement_nth_of_beyond hfits hsmall hx
        have hnth : (s.nth i + 2) * volume dims ≤ dim * volume dims :=
          Nat.mul_le_mul_right _ (by
            have hnext := Slice.nth_lt hs hi
            have hstop := hs.2.2
            have hstep := hs.1
            unfold Slice.nth at hnext ⊢
            rw [Nat.succ_mul] at hnext
            omega)
        rw [Nat.add_mul] at hnth
        omega
      · -- it is a later axis that comes round, and this row is one of the axis
        have hrest := ih hsmall hx
        have hnth : (s.nth i + 1) * volume dims ≤ dim * volume dims :=
          Nat.mul_le_mul_right _ (Nat.lt_of_lt_of_le (Slice.nth_lt hs hi) hs.2.2)
        rw [Nat.succ_mul] at hnth
        omega

/-- One step of what is selected goes no further than there are elements. -/
theorem step_le_volume (hsmall : List.Forall₂ (fun s dim => s.step ≤ dim) slices dims)
    (hpos : ∀ dim ∈ dims, 0 < dim) (hword : ∀ s ∈ slices, s.step < signedBound) :
    ∀ z ∈ stretched slices (denseSteps dims), z.natAbs ≤ volume dims := by
  induction hsmall with
  | nil => exact fun z hz => absurd hz List.not_mem_nil
  | @cons s dim slices dims hle _ ih =>
    intro z hz
    rw [denseSteps_cons, stretched_cons] at hz
    rw [volume_cons]
    -- the first stride is a step of whole rows, and the axis is no shorter than the step
    rcases List.mem_cons.1 hz with hz | hz
    · rw [hz, toSigned_of_lt (hword s List.mem_cons_self), Int.natAbs_mul, Int.natAbs_natCast,
        Int.natAbs_natCast, Nat.mul_comm]
      exact Nat.mul_le_mul_right _ hle
    · refine (ih (fun d hd => hpos d (List.mem_cons_of_mem _ hd))
        (fun t ht => hword t (List.mem_cons_of_mem _ ht)) z hz).trans ?_
      exact Nat.le_mul_of_pos_left _ (hpos dim List.mem_cons_self)

/-- The way along an axis of what is selected is at most twice the way along all of it. -/
theorem way_le (hfits : List.Forall₂ Slice.Fits slices dims)
    (hsmall : List.Forall₂ (fun s dim => s.step ≤ dim) slices dims)
    (hword : ∀ s ∈ slices, s.step < signedBound) :
    ∀ p ∈ (slices.map Slice.length).zip (stretched slices (denseSteps dims)),
      p.1 * p.2.natAbs ≤ 2 * volume dims := by
  induction hfits with
  | nil => exact fun p hp => absurd hp List.not_mem_nil
  | @cons s dim slices dims hs hfits ih =>
    obtain ⟨hstep, hsmall⟩ := List.forall₂_cons.1 hsmall
    intro p hp
    rw [List.map_cons, denseSteps_cons, stretched_cons, List.zip_cons_cons] at hp
    rcases List.mem_cons.1 hp with rfl | hp
    · -- the walk leaves the axis by less than a step, and a step is no longer than the axis
      have hnth := Slice.nth_length_lt hs
      have hway : s.length * s.step ≤ 2 * dim := by
        unfold Slice.nth at hnth
        omega
      dsimp only
      rw [toSigned_of_lt (hword s List.mem_cons_self), Int.natAbs_mul, Int.natAbs_natCast,
        Int.natAbs_natCast, volume_cons]
      calc s.length * (volume dims * s.step)
          = s.length * s.step * volume dims := by ring
        _ ≤ 2 * dim * volume dims := Nat.mul_le_mul_right _ hway
        _ = 2 * (dim * volume dims) := Nat.mul_assoc _ _ _
    · -- the later axes lie within one row of the first
      have hrest := ih hsmall (fun t ht => hword t (List.mem_cons_of_mem _ ht)) p hp
      have hmul : volume dims ≤ dim * volume dims :=
        Nat.le_mul_of_pos_left _ (Slice.pos_of_fits hs)
      rw [volume_cons]
      omega

/-- **The way back along an axis that comes round** is no longer than there are elements. -/
theorem way_le_of_turning (hfits : List.Forall₂ Slice.Fits slices dims)
    (hsmall : List.Forall₂ (fun s dim => s.step ≤ dim) slices dims)
    (hword : ∀ s ∈ slices, s.step < signedBound) :
    ∀ p ∈ turningAxes (slices.map Slice.length) (stretched slices (denseSteps dims)),
      p.1 * p.2.natAbs ≤ volume dims := by
  induction hfits with
  | nil => exact fun p hp => absurd hp List.not_mem_nil
  | @cons s dim slices dims hs hfits ih =>
    obtain ⟨-, hsmall⟩ := List.forall₂_cons.1 hsmall
    have hrest : ∀ t ∈ slices, t.step < signedBound :=
      fun t ht => hword t (List.mem_cons_of_mem _ ht)
    intro p hp
    rw [List.map_cons, denseSteps_cons, stretched_cons, turningAxes] at hp
    rw [volume_cons]
    split at hp
    · exact (ih hsmall hrest p hp).trans (Nat.le_mul_of_pos_left _ (Slice.pos_of_fits hs))
    · -- two selected indices are indices of the axis
      rename_i hlong
      have hsecond := Slice.nth_lt hs (Nat.not_le.1 hlong)
      have hdim : 2 ≤ dim := by
        have hstop := hs.2.2
        have hstep := hs.1
        unfold Slice.nth at hsecond
        omega
      exact (way_le hfits hsmall hrest p hp).trans (Nat.mul_le_mul_right _ hdim)

end Steps

/-! ### Subscriptions of dense views -/

/-- **The gapless row-major view** of a shape at the start of a buffer. -/
def View.dense (shape : Shape) : View := ⟨shape, ⟨denseSteps shape.dims⟩, 0⟩

namespace View

variable {shape : Shape} {sub : Subscription} {part : View}

/-- It is the view that a new buffer is given. -/
theorem contiguous_dense (hspan : span shape.dims < signedBound) :
    contiguous shape = .ok (dense shape) :=
  contiguous_of_rowMajor (rowMajor_of_span hspan)

/-- Its elements lie in a buffer of as many cells, each in its own. -/
theorem placed_dense (hpos : ∀ dim ∈ shape.dims, 0 < dim) (hlt : volume shape.dims < signedBound) :
    (dense shape).Placed (volume shape.dims) := by
  have hspan : span shape.dims < signedBound := by rwa [span_eq_volume hpos]
  have hend : 0 < volume shape.dims → 0 + volume shape.dims ≤ volume shape.dims :=
    fun _ => (Nat.zero_add _).le
  have hzero : 0 < sizeBound := by decide
  exact placed_of_rowMajor (v := dense shape) (rowMajor_of_span hspan) hlt hend hzero

/-- **The walk over a part of a dense view comes to its end.** The ways back that it takes are
short, and so are the places it comes by. -/
theorem fault_of_dense (hlt : volume shape.dims < signedBound) (hs : sub.Fits shape)
    (hsmall : List.Forall₂ (fun s dim => s.step ≤ dim) sub.slices shape.dims)
    (hword : ∀ s ∈ sub.slices, s.step < signedBound) (hpart : part.Placed (volume shape.dims))
    (hshape : part.shape = sub.shape)
    (hstrides : part.strides = ⟨stretched sub.slices (denseSteps shape.dims)⟩)
    (hp : part.PartOf (dense shape) sub.pick) : part.offsets.fault = none := by
  have hdims : ∀ dim ∈ part.shape.dims, 0 < dim := by
    rw [hshape]
    exact length_pos_of_fits hs
  obtain ⟨hoffset, hbounds⟩ := hpart.bounds hlt.le hdims
  have hnumel : part.numel = .ok (volume part.shape.dims) :=
    numel_of_span (lt_of_le_of_lt (hpart.span_le hdims) (hlt.trans signedBound_lt_sizeBound))
  -- the elements lie in the buffer, and no way back is longer than it
  have hcalm : Calm part.shape.dims part.strides.steps (toSigned part.offset) := by
    refine calm_of_ways (fun index hindex => ?_) ?_
    · have hin := hbounds index hindex
      exact ⟨by omega, by omega⟩
    · rw [hshape, hstrides]
      exact fun p hp => lt_of_le_of_lt (way_le_of_turning hs hsmall hword p hp) hlt
  rcases fault_offsets_cases hpart.rank_eq hnumel hdims hcalm with
    ⟨hfault, -⟩ | ⟨-, x, hover, hfar⟩
  · exact hfault
  · -- the fault would be at a place where an axis comes round, and that lies among the elements
    rw [hshape] at hover
    have hlen : x.length = sub.slices.length := by
      rw [hover.beyond.le.length_eq]
      exact List.length_map _
    -- the offset is where the first selected element lies
    have hstart : (part.offset : Int)
        = displacement (sub.slices.map Slice.start) (denseSteps shape.dims) := by
      have hfirst := hp.position_eq _ (within_firstIndex hdims)
      unfold position at hfirst
      rwa [displacement_firstIndex, Int.add_zero, hshape, Subscription.pick, Subscription.shape,
        zipWith_nth_firstIndex, dense, Int.natCast_zero, Int.zero_add] at hfirst
    have hle := displacement_nth_of_overrun hs hsmall hover
    -- indices past the end of an axis still lead forwards
    have hge : 0 ≤ displacement (List.zipWith Slice.nth sub.slices x) (denseSteps shape.dims) := by
      rw [displacement_denseSteps]
      exact Int.natCast_nonneg _
    rw [hoffset, hstart, hstrides, ← displacement_nth hlen hword] at hfar
    exact absurd ⟨by omega, by omega⟩ hfar

/-- **A subscription of a dense view** that fits and steps no further than the axes are long gives
the part that it picks, and all of the part can be walked. -/
theorem subview_dense (hlt : volume shape.dims < signedBound) (hs : sub.Fits shape)
    (hsteps : sub.StepsWithin shape) :
    ∃ part, (dense shape).subview sub = .ok part ∧ part.shape = sub.shape ∧
      part.PartOf (dense shape) sub.pick ∧ part.Walks (volume shape.dims) := by
  have hpos := pos_of_fits hs
  have hplaced := placed_dense hpos hlt
  have hsmall := forall₂_of_zip hs.length_eq hsteps
  have hword : ∀ s ∈ sub.slices, s.step < signedBound := step_lt_of_small hsmall fun dim hdim =>
    lt_of_le_of_lt ((le_span hdim).trans (span_eq_volume hpos).le) hlt
  -- so the strides of the part are signed words, which is all it takes
  have hwords : ∀ z ∈ sub.stretch (dense shape).strides.steps, SignedWord z := fun z hz =>
    .of_natAbs (lt_of_le_of_lt (step_le_volume hsmall hpos hword z hz) hlt)
  obtain ⟨-, part, hpart, hpl, hshape, hstrides⟩ :=
    (hplaced.subview_cases hlt.le hs).resolve_right fun h => h.1 hwords
  obtain ⟨-, -, -, -, hpartOf⟩ := partOf_of_subview hplaced.rank_eq hplaced.inBounds hlt.le hpart
  exact ⟨part, hpart, hshape, hpartOf, hpl.rank_eq, hpl.inBounds,
    fault_of_dense hlt hs hsmall hword hpl hshape hstrides hpartOf⟩

end View

end Strided
