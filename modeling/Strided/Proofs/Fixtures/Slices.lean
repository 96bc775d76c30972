import Strided.Random.SplitMix
import Strided.Proofs.Fixtures.Draws
import Strided.Proofs.View.DenseParts

/-!
# Random subscriptions

A random slice is drawn in three steps, and the later ranges depend on what came out of the earlier
draws: the step is drawn from up to half of the axis, and the end from what the start has left of
it. On short axes, and where the start is near the end, there is no choice and no draw. Every slice
that comes out is `Slice.Inner`: it fits its axis, steps no further than the axis is long, and
leaves out the last index unless that is the only one (`yields_randomSlice`).

So a random subscription of a shape can be used without a look at it. It is a subscription of the
dense view of the shape wherever there is one, and all of what it gives can be walked
(`random_subscriptions_fit`).
-/

namespace Strided

open Shape

/-! ### Slices -/

/-- **A slice inside an axis**: it selects something and leaves out the last index, unless that is
the only one. Its step is at most half of the axis, rounded up to one. -/
structure Slice.Inner (s : Slice) (dim : Nat) : Prop where
  start_lt : s.start < s.stop
  stop_le : s.stop ≤ dim
  start_le : s.start ≤ max dim 2 - 2
  step_pos : 1 ≤ s.step
  step_le : s.step ≤ max 1 (dim / 2)
  inner : s.stop ≤ max (s.start + 1) (dim - 2)

namespace Slice.Inner

variable {s : Slice} {dim : Nat}

theorem fits (h : s.Inner dim) : s.Fits dim := ⟨h.step_pos, h.start_lt, h.stop_le⟩

/-- Half of an axis, rounded up to one, is no more than the axis. -/
theorem step_le_dim (h : s.Inner dim) : s.step ≤ dim := by
  have hstep := h.step_le
  have hpos := pos_of_fits h.fits
  omega

/-- **The last index is left out** wherever there are two. -/
theorem last_not_mem (h : s.Inner dim) (hdim : 2 ≤ dim) : dim - 1 ∉ s.indices := by
  intro hmem
  have hstop := (mem_indices.1 hmem).1
  have hstart := h.start_le
  have hinner := h.inner
  omega

end Slice.Inner

section Random

variable {σ : Type} {R : RangeSource σ} {dim lo : Nat}

/-- An index that is not the last one. -/
theorem yields_drawInner (hR : R.InRange) (hlo : lo + 2 ≤ dim) (hdim : dim < sizeBound) :
    (drawInner R lo dim).Yields fun n => lo ≤ n ∧ n + 2 ≤ dim := by
  -- two indices are left out at the end, and the difference is no underflow
  have hlast : checkDifference dim 2 = .ok (dim - 2) := checkDifference_of_le (by omega)
  refine (Draw.yields_checked (P := (· = dim - 2)) hlast rfl).bind ?_
  rintro hi rfl
  exact (Draw.yields_between hR (by omega) (by omega)).mono fun n hn => by omega

/-- A start leaves an index behind it, if the axis is long enough for a choice. -/
theorem yields_drawStart (hR : R.InRange) (hpos : 1 ≤ dim) (hdim : dim < sizeBound) :
    (drawStart R dim).Yields fun n => n < dim ∧ n ≤ max dim 2 - 2 := by
  refine Draw.Yields.ite (fun hlong => ?_) fun hshort => Draw.yields_pure ⟨by omega, by omega⟩
  exact (yields_drawInner hR hlong hdim).mono fun n hn => by omega

theorem yields_drawStep (hR : R.InRange) (hdim : dim < sizeBound) :
    (drawStep R dim).Yields fun n => 1 ≤ n ∧ n ≤ max 1 (dim / 2) := by
  refine Draw.Yields.ite (fun hlong => ?_) fun hshort => Draw.yields_pure ⟨le_rfl, by omega⟩
  exact (Draw.yields_between hR (by omega) (by omega)).mono fun n hn => by omega

/-- The end is behind the start, and the last index behind the end, if there is one to spare. -/
theorem yields_drawStop (hR : R.InRange) {start : Nat} (hstart : start < dim)
    (hdim : dim < sizeBound) : (drawStop R start dim).Yields
      fun n => start < n ∧ n ≤ dim ∧ n ≤ max (start + 1) (dim - 2) := by
  have hnext : checkSize (start + 1) = .ok (start + 1) :=
    checkSize_eq_ok_iff.2 ⟨by omega, rfl⟩
  refine (Draw.yields_checked (P := (· = start + 1)) hnext rfl).bind ?_
  rintro next rfl
  -- without a choice of end the slice selects its start only
  refine Draw.Yields.ite (fun hroom => ?_) fun hend =>
    Draw.yields_pure ⟨by omega, by omega, by omega⟩
  exact (yields_drawInner hR (by omega) hdim).mono fun n hn => by omega

/-- **A random slice lies inside its axis.** -/
theorem yields_randomSlice (hR : R.InRange) (hpos : 1 ≤ dim) (hdim : dim < sizeBound) :
    (randomSlice R dim).Yields (Slice.Inner · dim) := by
  refine (yields_drawStart hR hpos hdim).bind fun start ⟨hlt, hle⟩ => ?_
  refine (yields_drawStep hR hdim).bind fun step ⟨hone, hhalf⟩ => ?_
  refine (yields_drawStop hR hlt hdim).bind fun stop ⟨hafter, hend, hinner⟩ => ?_
  -- each draw has left the range that the next one needs
  exact Draw.yields_pure ⟨hafter, hend, hle, hone, hhalf, hinner⟩

/-! ### Subscriptions -/

/-- One random slice for every axis, and the shape of what they select. -/
theorem yields_randomSubscription (hR : R.InRange) {shape : Shape}
    (hdims : ∀ dim ∈ shape.dims, 1 ≤ dim ∧ dim < sizeBound) :
    (randomSubscription R shape).Yields fun r =>
      List.Forall₂ Slice.Inner r.1.slices shape.dims ∧ r.2 = r.1.shape := by
  unfold randomSubscription
  have hslices : (shape.dims.mapM (randomSlice R)).Yields
      (List.Forall₂ (fun dim s => Slice.Inner s dim) shape.dims) :=
    Draw.yields_mapM fun dim hdim => yields_randomSlice hR (hdims dim hdim).1 (hdims dim hdim).2
  exact hslices.bind fun slices h => Draw.yields_pure ⟨h.flip, rfl⟩

end Random

/-- Slices inside their axes fit, and step within them. -/
theorem Subscription.fits_of_inner {sub : Subscription} {shape : Shape}
    (h : List.Forall₂ Slice.Inner sub.slices shape.dims) :
    sub.Fits shape ∧ sub.StepsWithin shape :=
  ⟨h.imp fun _ _ hs => hs.fits, fun _ hp => ((List.forall₂_iff_zip.1 h).2 hp).step_le_dim⟩

/-- **Random subscriptions always fit**, whatever the source draws from the ranges it is asked for.
Neither the drawing nor the subview can fail. The elements of the subview are elements of the
shape, and none of them has the last index of an axis with more than one. -/
theorem random_subscriptions_fit {σ : Type} {R : RangeSource σ} (hR : R.InRange) (shape : Shape)
    (hdims : ∀ dim ∈ shape.dims, 1 ≤ dim ∧ dim < sizeBound) (s : σ) :
    ∃ sub viewShape s', randomSubscription R shape s = .ok ((sub, viewShape), s') ∧
      List.Forall₂ Slice.Inner sub.slices shape.dims ∧
      List.Forall₂ (fun slice dim => 2 ≤ dim → dim - 1 ∉ slice.indices) sub.slices shape.dims ∧
      (∀ slice ∈ sub.slices, 1 ≤ slice.length) ∧ viewShape = sub.shape ∧
      (volume shape.dims < signedBound →
        ∃ v part n, View.contiguous shape = .ok v ∧ shape.numel = .ok n ∧
          v.subview sub = .ok part ∧ part.shape = viewShape ∧ part.offsets.fault = none ∧
          ∀ p ∈ part.offsets.items, p < n) := by
  obtain ⟨⟨sub, viewShape⟩, s', hrun, hinner, hshape⟩ := yields_randomSubscription hR hdims s
  dsimp only at hinner hshape
  obtain ⟨hfits, hsteps⟩ := Subscription.fits_of_inner hinner
  refine ⟨sub, viewShape, s', hrun, hinner, hinner.imp fun _ _ h => h.last_not_mem, ?_, hshape, ?_⟩
  · intro slice hslice
    exact length_pos_of_fits hfits _ (List.mem_map_of_mem hslice)
  · intro hlt
    -- no axis is empty, so the strides of the shape span no more than its elements
    have hpos : ∀ dim ∈ shape.dims, 0 < dim := fun dim hdim => (hdims dim hdim).1
    have hspan : span shape.dims < signedBound := by rwa [span_eq_volume hpos]
    obtain ⟨part, hpart, hpartShape, -, hwalks⟩ := View.subview_dense hlt hfits hsteps
    refine ⟨View.dense shape, part, volume shape.dims, View.contiguous_dense hspan,
      numel_of_span (hspan.trans signedBound_lt_sizeBound), hpart, hpartShape.trans hshape.symm,
      hwalks.fault_eq, ?_⟩
    exact View.items_lt hwalks.rank_eq hwalks.inBounds (hlt.trans signedBound_lt_sizeBound).le

/-- Axes of size one, two and three leave no choice, longer ones do. -/
theorem random_subscriptions_fit_short :
    RangeSource.InRange (.ofWords Recital.source) ∧
      (∀ dim ∈ [1, 2, 3, 7], 1 ≤ dim ∧ dim < sizeBound) ∧
      ∃ sub viewShape s', randomSubscription (.ofWords Recital.source) ⟨[1, 2, 3, 7]⟩ ⟨[], 0, 0⟩
          = .ok ((sub, viewShape), s') ∧
        List.Forall₂ Slice.Inner sub.slices [1, 2, 3, 7] ∧
        (volume [1, 2, 3, 7] < signedBound → ∃ v part n, View.contiguous ⟨[1, 2, 3, 7]⟩ = .ok v ∧
          Shape.numel ⟨[1, 2, 3, 7]⟩ = .ok n ∧ v.subview sub = .ok part ∧ part.shape = viewShape ∧
          part.offsets.fault = none ∧ ∀ p ∈ part.offsets.items, p < n) := by
  have hR : RangeSource.InRange (.ofWords Recital.source) := RangeSource.inRange_ofWords _
  have hdims : ∀ dim ∈ [1, 2, 3, 7], 1 ≤ dim ∧ dim < sizeBound := by decide
  obtain ⟨sub, viewShape, s', hrun, hinner, -, -, -, hviews⟩ :=
    random_subscriptions_fit hR ⟨[1, 2, 3, 7]⟩ hdims ⟨[], 0, 0⟩
  exact ⟨hR, hdims, sub, viewShape, s', hrun, hinner, hviews⟩

end Strided
