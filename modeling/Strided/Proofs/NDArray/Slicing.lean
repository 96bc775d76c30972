import Strided.Proofs.NDArray.Access
import Strided.Proofs.View.Composition
import Strided.Proofs.View.Reach
import Strided.Proofs.View.Sound
import Mathlib.Data.List.Sort

/-!
# What a subscription selects

A subscription of an array answers with another array over the same storage. Which elements does
it have? Those at the indices that the slices speak of: `Slice.indices` is the list of them as one
would write it down, with no quotient in it, and `Slice.indices_eq` finds as many of them as
`Slice.length` counts, at the places `Slice.nth` names.

`NDArray.subview_selects` says this for every layout whose offset and `reach` are a signed word,
reversed, repeating and empty ones among them, and for slices that step no further than their axis
is long. Such a subscription does not overflow (`View.subview_ne_overflow_of_reach`): what the
offset moves by is taken from the reach that is left. So it is refused for what it asks of the
shape, and for nothing else, or it `Selects`.

A slice with a ragged last step has its end up to a step behind the end of the axis. The walk over
what it selects may have to go there before it turns back, so in the worst case it needs twice the
room, and `Selects.readable` asks for that.
-/

namespace Strided

open Strides

/-! ### The indices of a slice -/

namespace Slice

variable {s : Slice} {dim i : Nat}

/-- **The indices that a slice speaks of**: those before its end that lie some whole number of
steps behind its start. -/
def indices (s : Slice) : List Nat :=
  (List.range s.stop).filter fun i => s.start ≤ i ∧ s.step ∣ i - s.start

theorem mem_indices : i ∈ s.indices ↔ i < s.stop ∧ s.start ≤ i ∧ s.step ∣ i - s.start := by
  rw [indices, List.mem_filter, List.mem_range, decide_eq_true_iff]

/-- **There are as many of them as are counted**, one step after the other. -/
theorem indices_eq (h : 1 ≤ s.step) : s.indices = (List.range s.length).map s.nth := by
  have hleft : s.indices.Pairwise (· < ·) := List.pairwise_lt_range.filter _
  have hright : ((List.range s.length).map s.nth).Pairwise (· < ·) := by
    rw [List.pairwise_map]
    refine List.pairwise_lt_range.imp fun hlt => ?_
    exact Nat.add_lt_add_left (Nat.mul_lt_mul_of_pos_right hlt h) s.start
  -- both lists are increasing, so it is enough that they have the same members
  refine hleft.eq_of_mem_iff hright fun i => ?_
  rw [mem_indices, List.mem_map]
  constructor
  · rintro ⟨hstop, hstart, j, hj⟩
    have hi : s.nth j = i := by
      unfold nth
      rw [Nat.mul_comm, ← hj, Nat.add_sub_cancel' hstart]
    rw [← hi, ← lt_length_iff h] at hstop
    exact ⟨j, List.mem_range.2 hstop, hi⟩
  · rintro ⟨j, hj, rfl⟩
    refine ⟨(lt_length_iff h).1 (List.mem_range.1 hj), Nat.le_add_right _ _, j, ?_⟩
    rw [nth, Nat.add_sub_cancel_left, Nat.mul_comm]

/-- The count that a slice computes by a division is that of its indices. -/
theorem length_indices (h : 1 ≤ s.step) : s.indices.length = s.length := by
  rw [indices_eq h, List.length_map, List.length_range]

/-- A slice that selects something steps. -/
theorem step_pos (h : 0 < s.length) : 1 ≤ s.step := by
  by_contra hzero
  rw [length, if_pos (.inr (by omega))] at h
  exact lt_irrefl 0 h

/-- The last step of a slice ends less than a step behind the end of the axis. -/
theorem nth_length_lt (h : s.Fits dim) : s.nth s.length < dim + s.step := by
  have hpos := length_pos h
  have hlast := nth_lt h (Nat.sub_one_lt hpos.ne')
  have hmul : s.length * s.step = (s.length - 1) * s.step + s.step := by
    rw [← Nat.succ_mul, Nat.succ_eq_add_one, Nat.sub_add_cancel hpos]
  have hstop := h.2.2
  unfold nth at hlast ⊢
  omega

end Slice

/-! ### Slicing within reach -/

namespace View

section Axes

variable {slices : List Slice} {dims : List Nat} {steps : List Int} {offset : Int}

/-- Some steps further. -/
theorem natAbs_add_way_le (offset : Int) (n : Nat) (step : Int) :
    (offset + n * step).natAbs ≤ offset.natAbs + n * step.natAbs := by
  have hsum := Int.natAbs_add_le offset (n * step)
  rwa [Int.natAbs_mul, Int.natAbs_natCast] at hsum

/-- **Within its reach a layout can be sliced.** -/
theorem slice_ne_overflow_of_reach (hlen : steps.length = dims.length)
    (hsmall : List.Forall₂ (fun s dim => s.step ≤ dim) slices dims)
    (hreach : offset.natAbs + reach dims steps < signedBound) :
    slice slices dims steps offset ≠ .error (.fault .overflow) := by
  -- along the axes, with the offset and the reach of those that are left as one number
  induction hsmall generalizing steps offset with
  | nil => exact fun h => absurd h (by simp [slice])
  | @cons s dim slices dims hs _ ih =>
    obtain ⟨step, steps, rfl⟩ := List.exists_cons_of_length_eq_add_one hlen
    by_cases hfits : s.Fits dim
    swap
    · -- a slice that does not fit is refused before anything is computed
      rw [slice, if_neg hfits]
      exact fun h => absurd h (by simp [reject])
    rw [reach_cons] at hreach
    have haxis : dim * step.natAbs < signedBound := by omega
    have hstart : s.start ≤ dim := hfits.2.1.le.trans hfits.2.2
    obtain ⟨hway, hwayWord⟩ := exact_way haxis hstart
    obtain ⟨-, hstrideWord⟩ := exact_way haxis hs
    -- the offset moves by a part of the reach, and the rest of it is left for the other axes
    have hmove := natAbs_add_way_le offset s.start step
    have hpart := Nat.mul_le_mul_right step.natAbs hstart
    refine slice_cons_ne_overflow hfits hwayWord (.of_natAbs ?_)
      (by rwa [Int.mul_comm]) (ih (Nat.succ.inj hlen) ?_)
    · rw [hway]
      omega
    · rw [hway]
      omega

/-- **What is selected has at most twice the reach**: to the end of the axis, and from there
to the end of the last step. -/
theorem reach_slice_le (hlen : steps.length = dims.length)
    (hfits : List.Forall₂ Slice.Fits slices dims)
    (hsmall : List.Forall₂ (fun s dim => s.step ≤ dim) slices dims)
    (hreach : reach dims steps < signedBound) (offset : Int) :
    (offset + leap slices steps).natAbs + reach (slices.map Slice.length) (stretched slices steps)
      ≤ offset.natAbs + 2 * reach dims steps := by
  induction hfits generalizing steps offset with
  | nil =>
    rw [leap_nil, Int.add_zero]
    exact le_rfl
  | @cons s dim slices dims hs _ ih =>
    obtain ⟨step, steps, rfl⟩ := List.exists_cons_of_length_eq_add_one hlen
    obtain ⟨hle, hsmall⟩ := List.forall₂_cons.1 hsmall
    -- what the axis adds to the offset and to the reach is read off the slice exactly
    rw [reach_cons] at hreach
    have hlength : dim * step.natAbs < signedBound := by omega
    obtain ⟨hway, -⟩ := exact_way hlength (hs.2.1.le.trans hs.2.2)
    obtain ⟨hstride, -⟩ := exact_way hlength hle
    have hstep : s.step * step.natAbs ≤ dim * step.natAbs := Nat.mul_le_mul_right _ hle
    -- from the start of the axis to the end of the last step
    have haxis : s.start * step.natAbs + s.length * (s.step * step.natAbs)
        ≤ 2 * (dim * step.natAbs) :=
      calc s.start * step.natAbs + s.length * (s.step * step.natAbs)
          = s.nth s.length * step.natAbs := by rw [Slice.nth, Nat.add_mul, Nat.mul_assoc]
        _ ≤ (dim + s.step) * step.natAbs := Nat.mul_le_mul_right _ (Slice.nth_length_lt hs).le
        _ = dim * step.natAbs + s.step * step.natAbs := Nat.add_mul _ _ _
        _ ≤ 2 * (dim * step.natAbs) := by omega
    have hmove := natAbs_add_way_le offset s.start step
    have hrest := ih (Nat.succ.inj hlen) hsmall (by omega) (offset + s.start * step)
    rw [leap_cons, stretched_cons, List.map_cons, hway, Int.mul_comm step, hstride, reach_cons,
      reach_cons, Int.natAbs_mul, Int.natAbs_natCast, ← Int.add_assoc]
    omega

end Axes

variable {v part : View} {sub : Subscription} {size : Nat}

/-- **Within its reach a view can be sliced**, by slices that step no further than their axes are
long. -/
theorem subview_ne_overflow_of_reach (hrank : v.strides.steps.length = v.shape.dims.length)
    (hreach : (toSigned v.offset).natAbs + reach v.shape.dims v.strides.steps < signedBound)
    (hsteps : sub.StepsWithin v.shape) : v.subview sub ≠ .error (.fault .overflow) :=
  subview_ne_overflow fun hlen =>
    slice_ne_overflow_of_reach hrank (forall₂_of_zip hlen hsteps) hreach

/-- Slices that fit select no more elements than there are. -/
theorem volume_le_of_fits {slices : List Slice} {dims : List Nat}
    (h : List.Forall₂ Slice.Fits slices dims) :
    Shape.volume (slices.map Slice.length) ≤ Shape.volume dims :=
  calc Shape.volume (slices.map Slice.length)
      ≤ Shape.span (slices.map Slice.length) := Shape.volume_le_span _
    _ ≤ Shape.span dims := span_le_of_fits h
    _ = Shape.volume dims := Shape.span_eq_volume (pos_of_fits h)

/-- With twice the reach, what is selected can be walked. -/
theorem fault_of_subview (hrank : v.strides.steps.length = v.shape.dims.length)
    (hvolume : Shape.volume v.shape.dims < sizeBound)
    (hreach : (toSigned v.offset).natAbs + 2 * reach v.shape.dims v.strides.steps < signedBound)
    (hsteps : sub.StepsWithin v.shape) (hfits : sub.Fits v.shape)
    (hpart : v.subview sub = .ok part) : part.offsets.fault = none := by
  obtain rfl := eq_of_subview hfits hpart
  have hsizes : sizes sub.slices v.strides.steps = sub.slices.map Slice.length :=
    sizes_eq_map (hfits.length_eq.trans hrank.symm)
  have hle := reach_slice_le hrank hfits (forall₂_of_zip hfits.length_eq hsteps) (by omega)
    (toSigned v.offset)
  -- the new offset is a signed word, so it is read as what was computed
  have hoffset : toSigned (toSize (toSigned v.offset + leap sub.slices v.strides.steps))
      = toSigned v.offset + leap sub.slices v.strides.steps :=
    toSigned_toSize (.of_natAbs (by omega))
  refine fault_of_reach ?_ (Shape.numel_of_span ?_) ?_
  · rw [hsizes, stretched, List.length_zipWith, List.length_map, hfits.length_eq, hrank,
      Nat.min_self]
  · -- there are no more elements than before, and those could be counted
    rw [hsizes, Shape.span_eq_volume (length_pos_of_fits hfits)]
    exact lt_of_le_of_lt (volume_le_of_fits hfits) hvolume
  · rw [hoffset, hsizes]
    exact lt_of_le_of_lt hle hreach

/-- What is selected is walked within the whole, as far as the walk gets. -/
theorem PartOf.mem_places {f : List Nat → List Nat} {p : Nat} (h : PartOf part v f)
    (hb : v.InBounds size) (hsize : size ≤ sizeBound) (hp : p ∈ part.offsets.items) :
    p ∈ v.places := by
  -- a walk that faults has yielded positions of elements until then
  obtain ⟨z, hz, rfl⟩ := List.mem_map.1 ((items_offsets_initial h.rank_eq).subset hp)
  obtain ⟨index, hindex, rfl⟩ := List.mem_map.1 hz
  have hin := mem_indicesOf.1 hindex
  have hwithin := h.within index hin
  rw [h.position_eq index hin]
  -- a position in the buffer is a size, and read as itself
  have hbounds := inBounds_iff.1 hb _ hwithin
  have hread := toSize_of_nonneg hbounds.1 (by omega)
  refine List.mem_map.2 ⟨v.position (f index), ?_, by omega⟩
  exact List.mem_map_of_mem (mem_indicesOf.2 hwithin)

/-- **The element at a multi-index**, among the cells of a buffer. -/
def element? {α : Type} (v : View) (cells : Array α) (index : List Nat) : Option α :=
  if 0 ≤ v.position index then cells[(v.position index).toNat]? else none

variable {α : Type} {cells : Array α} {index : List Nat} {i : Nat}

/-- It is what lies at its position. -/
theorem element?_congr {index' : List Nat} (h : part.position index = v.position index') :
    part.element? cells index = v.element? cells index' := by
  rw [element?, element?, h]

/-- In a buffer every element exists. -/
theorem InBounds.exists_element? (h : v.InBounds cells.size) (hin : Within index v.shape.dims) :
    ∃ x, v.element? cells index = some x := by
  have hrange := inBounds_iff.1 h index hin
  have hlt : (v.position index).toNat < cells.size := by omega
  exact ⟨cells[(v.position index).toNat],
    by rw [element?, if_pos hrange.1, Array.getElem?_eq_getElem hlt]⟩

/-- The cells are listed in row-major order. -/
theorem getElem?_places (hin : Within index v.shape.dims)
    (hi : displacement index (denseSteps v.shape.dims) = i) :
    v.places[i]? = some (v.position index).toNat := by
  rw [places, positions, List.getElem?_map, List.getElem?_map, Shape.indices,
    getElem?_indicesOf hin hi]
  rfl

end View

/-! ### Arrays -/

namespace NDArray

variable {s : Store} {a b : NDArray} {cells : Array a.dt.Elem} {sub : Subscription}

/-- An array that has been read can be walked. -/
theorem fault_of_toList {dt : DType} {xs : List dt.Elem} (h : a.toList s dt = .ok xs) :
    a.view.offsets.fault = none := by
  unfold toList at h
  simp only [Answer.liftM_checked, Checked.bind_eq_ok, Checked.lift_eq_ok] at h
  obtain ⟨cells, -, n, -, -, -, hxs⟩ := h
  exact View.fault_of_gather hxs

/-- **An element that has been read** stands where its multi-index stands in row-major order. -/
theorem getElem?_of_toList {xs : List a.dt.Elem} {index : List Nat} {i : Nat}
    (hbuf : a.Backed s cells) (hrank : a.strides.steps.length = a.shape.dims.length)
    (hb : a.view.InBounds cells.size) (hsize : cells.size ≤ sizeBound)
    (hxs : a.toList s a.dt = .ok xs) (hin : Within index a.shape.dims)
    (hi : displacement index (denseSteps a.shape.dims) = i) :
    xs[i]? = a.view.element? cells index := by
  have hwalks : a.view.Walks cells.size := ⟨hrank, hb, fault_of_toList hxs⟩
  rw [getElem?_of_map_places ((toList_eq_ok_iff hbuf hwalks hsize).1 hxs).2
      (View.getElem?_places hin hi), View.element?, if_pos (View.inBounds_iff.1 hb index hin).1]

/-- **The array `b` is what a subscription selects of `a`**, whose buffer has these cells. -/
structure Selects (s : Store) (a : NDArray) (cells : Array a.dt.Elem) (sub : Subscription)
    (b : NDArray) : Prop where
  storage_eq : b.storage = a.storage
  dt_eq : b.dt = a.dt
  device_eq : b.device = a.device
  shape_eq : b.shape = sub.shape
  /-- Every axis has as many entries as its slice speaks of, and one at least. -/
  counts : ∀ slice ∈ sub.slices, slice.length = slice.indices.length ∧ 0 < slice.length
  /-- The element at a multi-index is the element of `a` that is picked for it. -/
  elements : ∀ index, Within index b.shape.dims → Within (sub.pick index) a.shape.dims ∧
    b.view.position index = a.view.position (sub.pick index) ∧
    ∃ x, a.view.element? cells (sub.pick index) = some x ∧ b.view.element? cells index = some x
  /-- So it is what is read in its place, if both arrays are read. -/
  shown : ∀ xs ys, a.toList s a.dt = .ok xs → b.toList s a.dt = .ok ys →
    ∀ (index : List Nat) (i j : Nat), Within index b.shape.dims →
      displacement index (denseSteps b.shape.dims) = i →
      displacement (sub.pick index) (denseSteps a.shape.dims) = j →
      ∃ x, xs[j]? = some x ∧ ys[i]? = some x
  /-- With twice the reach, `b` can be read if `a` can. -/
  readable : ∀ xs, a.toList s a.dt = .ok xs →
    (toSigned a.offset).natAbs + 2 * reach a.shape.dims a.strides.steps < signedBound →
    ∃ ys, b.toList s a.dt = .ok ys
  /-- No walk over `b` leaves the elements of `a`. -/
  confined : ∀ p ∈ b.view.offsets.items, p ∈ a.view.places

/-- A view that a subscription gives is one of what it selects. -/
theorem selects_of_subview {part : View} (hbuf : a.Backed s cells)
    (hfits : (Buffer.mk a.dt cells).Fits)
    (hrank : a.strides.steps.length = a.shape.dims.length) (hb : a.view.InBounds cells.size)
    (hsteps : sub.StepsWithin a.shape) (hpart : a.view.subview sub = .ok part) :
    Selects s a cells sub (a.withView part) := by
  have hsize : cells.size ≤ sizeBound := hfits.size_le
  obtain ⟨-, hsub, hshape, -, hp⟩ := View.partOf_of_subview hrank hb hfits.size_lt.le hpart
  -- the part is backed by the same cells, and lies among them
  have hbuf' : (a.withView part).Backed s cells := hbuf
  have hb' : (a.withView part).view.InBounds cells.size := hp.inBounds hb
  have hsame : ∀ index, Within index part.shape.dims →
      part.element? cells index = a.view.element? cells (sub.pick index) :=
    fun index hin => View.element?_congr (hp.position_eq index hin)
  exact
    { storage_eq := rfl
      dt_eq := rfl
      device_eq := rfl
      shape_eq := hshape
      counts := by
        intro slice hslice
        have hpos := length_pos_of_fits hsub _ (List.mem_map_of_mem hslice)
        exact ⟨(Slice.length_indices (Slice.step_pos hpos)).symm, hpos⟩
      elements := by
        intro index hin
        have hwithin := hp.within index hin
        obtain ⟨x, hx⟩ := hb.exists_element? hwithin
        exact ⟨hwithin, hp.position_eq index hin, x, hx, (hsame index hin).trans hx⟩
      shown := by
        intro xs ys hxs hys index i j hin hi hj
        have hwithin := hp.within index hin
        obtain ⟨x, hx⟩ := hb.exists_element? hwithin
        -- both lists have their elements at the numbers of the multi-indices
        refine ⟨x, (getElem?_of_toList hbuf hrank hb hsize hxs hwithin hj).trans hx, ?_⟩
        calc ys[i]?
            = part.element? cells index :=
              getElem?_of_toList hbuf' hp.rank_eq hb' hsize hys hin hi
          _ = some x := (hsame index hin).trans hx
      readable := by
        intro xs hxs hreach
        obtain ⟨-, -, hlen, hcap⟩ := of_toList hxs
        have hvolume : Shape.volume a.shape.dims < sizeBound := by
          have hle := Nat.le_mul_of_pos_left xs.length a.dt.bytes_pos
          have hlt := signedBound_lt_sizeBound
          omega
        have hfault := View.fault_of_subview hrank hvolume hreach hsteps hsub hpart
        refine exists_toList hbuf' ⟨hp.rank_eq, hb', hfault⟩ hsize (lt_of_le_of_lt ?_ hcap)
        -- no more elements are selected than have been read
        rw [hlen]
        refine Nat.mul_le_mul_left _ ?_
        show Shape.volume part.shape.dims ≤ Shape.volume a.shape.dims
        rw [hshape]
        exact View.volume_le_of_fits hsub
      confined := fun p => hp.mem_places hb hsize }

/-- **A subscription selects.** An array with strides for all axes, elements in its buffer, and an
offset and reach that are together a signed word refuses a subscription if and only if it has a
wrong number of slices or one that does not fit its axis. Otherwise it gives the array of what the
subscription selects. -/
theorem subview_selects (hbuf : a.Backed s cells) (hfits : (Buffer.mk a.dt cells).Fits)
    (hrank : a.strides.steps.length = a.shape.dims.length) (hb : a.view.InBounds cells.size)
    (hreach : (toSigned a.offset).natAbs + reach a.shape.dims a.strides.steps < signedBound)
    (hsteps : sub.StepsWithin a.shape) :
    ((∃ e, a.subview sub = reject (.invalidSubview e)) ↔
      sub.rank ≠ a.rank ∨ ∃ p ∈ sub.slices.zip a.shape.dims, ¬p.1.Fits p.2) ∧
    (¬(sub.rank ≠ a.rank ∨ ∃ p ∈ sub.slices.zip a.shape.dims, ¬p.1.Fits p.2) →
      ∃ b, a.subview sub = .ok b ∧ Selects s a cells sub b) := by
  have hnot : (sub.rank ≠ a.rank ∨ ∃ p ∈ sub.slices.zip a.shape.dims, ¬p.1.Fits p.2) ↔
      ¬sub.Fits a.shape := Subscription.not_fits_iff.symm
  rw [hnot, not_not, ← Subscription.refusal?_eq_none_iff]
  have hover := View.subview_ne_overflow_of_reach hrank hreach hsteps
  rcases View.subview_cases hrank hb hfits.size_lt.le sub with
    hf | ⟨e, he, href⟩ | ⟨part, hpart, hnone, -⟩
  · exact absurd hf hover
  · -- something is wrong with the subscription
    have hrefused : a.subview sub = reject (.invalidSubview e) := by
      rw [subview, he]
      rfl
    have hsome : sub.refusal? a.shape ≠ none := fun h => by
      rw [show sub.refusal? a.shape = some e from href] at h
      exact absurd h (by simp)
    exact ⟨⟨fun _ => hsome, fun _ => ⟨e, hrefused⟩⟩, fun h => absurd h hsome⟩
  · have hgiven : a.subview sub = .ok (a.withView part) := by
      rw [subview, hpart]
      rfl
    refine ⟨⟨fun ⟨e, he⟩ => ?_, fun h => absurd hnone h⟩, fun _ => ⟨_, hgiven, ?_⟩⟩
    · rw [hgiven] at he
      exact absurd he (by simp [reject])
    · exact selects_of_subview hbuf hfits hrank hb hsteps hpart

/-! ### The corners of a matrix -/

/-- A matrix of six numbers, the last one first. -/
def countdown : NDArray := ⟨0, View.turned, .i32, .host⟩

/-- The first and the last entry of both rows. -/
def corners : Subscription := ⟨[⟨0, 1, 2⟩, ⟨0, 2, 3⟩]⟩

/-- Every second entry of a row that runs backwards. -/
theorem subview_selects_countdown :
    countdown.Backed (counting 6).store (countTo 6) ∧
      (Buffer.mk countdown.dt (countTo 6)).Fits ∧
      countdown.strides.steps.length = countdown.shape.dims.length ∧
      countdown.view.InBounds (countTo 6).size ∧
      (toSigned countdown.offset).natAbs + reach countdown.shape.dims countdown.strides.steps
        < signedBound ∧
      corners.StepsWithin countdown.shape ∧
      ∃ b, countdown.subview corners = .ok b ∧ Selects (counting 6).store countdown
        (countTo 6) corners b := by
  have hbuf : countdown.Backed (counting 6).store (countTo 6) := rfl
  have hfits : (Buffer.mk countdown.dt (countTo 6)).Fits := by decide
  have hb : countdown.view.InBounds (countTo 6).size := by decide
  have hreach : (toSigned countdown.offset).natAbs
      + reach countdown.shape.dims countdown.strides.steps < signedBound := by decide
  have hsteps : corners.StepsWithin countdown.shape := by decide
  exact ⟨hbuf, hfits, rfl, hb, hreach, hsteps,
    (subview_selects hbuf hfits rfl hb hreach hsteps).2 (by decide)⟩

end NDArray

end Strided
