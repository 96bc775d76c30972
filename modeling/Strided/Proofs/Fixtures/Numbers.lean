import Strided.Fixtures
import Strided.Proofs.NDArray.RowMajor
import Strided.Proofs.View.DenseParts

/-!
# Fixtures as arrays

A fixture stands for an array: the numbers from zero on in the shape of the fixture, seen through
its subscription. If the subscription is in order (`ViewFixture.Sound`) and the numbers fit the
memory, the fixture can be made into that array, with every selected element the place of its
multi-index in the shape (`ViewFixture.shows_of_sound`). Whether they fit is a matter of their
bytes: shapes of `2 ^ 60` elements and more have row-major strides too, but there is no memory for
their numbers (`ViewFixture.materialize_of_no_memory`).
-/

namespace Strided

open Shape Strides

/-! ### Numbers seen through a view -/

@[simp] theorem size_numbers (n : Nat) : (numbers n).size = n := by
  rw [numbers, Array.size_map, Array.size_range]

theorem getElem?_numbers {n i : Nat} (h : i < n) : (numbers n)[i]? = some (Int64.ofNat i) := by
  rw [numbers, Array.getElem?_map, Array.getElem?_range, if_pos h]
  rfl

/-- **The elements of an array are places in a shape**, each one that of the multi-index that `f`
gives. -/
def NDArray.Numbered (s : Store) (a : NDArray) (shape : Shape) (f : List Nat → List Nat) : Prop :=
  ∃ xs : List Int64, a.toList s .i64 = .ok xs ∧ xs.length = volume a.shape.dims ∧
    ∀ (j : Nat) (index : List Nat), a.shape.indices[j]? = some index →
      ∃ (i : Nat) (x : Int64), shape.indices[i]? = some (f index) ∧ xs[j]? = some x ∧ x.toInt = i

/-- **A part of the dense view shows the places of its elements.** -/
theorem numbered_of_partOf {s : Store} {shape : Shape} {part : View} {storage : Nat}
    {device : Device} {f : List Nat → List Nat}
    (hbuf : s.buffer? storage = some ⟨.i64, numbers (volume shape.dims)⟩)
    (hcap : 8 * volume shape.dims < signedBound) (hle : volume part.shape.dims ≤ volume shape.dims)
    (hp : part.PartOf (.dense shape) f) (hwalks : part.Walks (volume shape.dims)) :
    NDArray.Numbered s ⟨storage, part, .i64, device⟩ shape f := by
  have hlt : volume shape.dims < signedBound := @DType.count_lt .i64 _ hcap
  have hsize : (numbers (volume shape.dims)).size ≤ sizeBound := by
    rw [size_numbers]
    exact (hlt.trans signedBound_lt_sizeBound).le
  have hwalks' : part.Walks (numbers (volume shape.dims)).size := by rwa [size_numbers]
  have hbytes : 8 * volume part.shape.dims < signedBound :=
    lt_of_le_of_lt (Nat.mul_le_mul_left 8 hle) hcap
  obtain ⟨xs, hxs⟩ := NDArray.exists_toList (a := ⟨storage, part, .i64, device⟩) hbuf hwalks' hsize
    hbytes
  refine ⟨xs, hxs, (NDArray.of_toList hxs).2.2.1, fun j index hindex => ?_⟩
  have hin : Within index part.shape.dims := mem_indicesOf.1 (List.mem_of_getElem? hindex)
  have hplace := displacement_of_getElem?_indicesOf hindex
  -- the selected element lies at its place in the whole
  have hwithin := hp.within index hin
  obtain ⟨hge, hbelow⟩ := displacement_denseSteps_lt hwithin
  obtain ⟨i, hi⟩ := Int.eq_ofNat_of_zero_le hge
  have hposition : part.position index = i := by
    rw [hp.position_eq index hin, ← hi]
    exact Int.zero_add _
  have hsmall : i < volume shape.dims := by
    rw [hi] at hbelow
    exact Int.ofNat_lt.1 hbelow
  -- below the number of elements the integers of the cells do not wrap around
  have hfits : i < 2 ^ 63 := hsmall.trans hlt
  refine ⟨i, Int64.ofNat i, getElem?_indicesOf hwithin hi, ?_, Int64.toInt_ofNat_of_lt hfits⟩
  have helement := NDArray.getElem?_of_toList (a := ⟨storage, part, .i64, device⟩) hbuf
    hwalks'.rank_eq hwalks'.inBounds hsize hxs hin hplace
  rw [View.element?, hposition, if_pos (Int.natCast_nonneg i), Int.toNat_natCast,
    getElem?_numbers hsmall] at helement
  exact helement

/-! ### Fixtures -/

namespace ViewFixture

/-- **The multi-index in the shape** of an element of the fixture. -/
def pick (f : ViewFixture) (index : List Nat) : List Nat :=
  f.subscription.elim index fun s => s.pick index

/-- **The fixture can be taken at its word**: its subscription fits its shape, steps no further than
the axes are long, and gives what it says. -/
def Sound (f : ViewFixture) : Prop :=
  match f.subscription with
  | none => f.viewShape = f.shape
  | some s => s.Fits f.shape ∧ s.StepsWithin f.shape ∧ f.viewShape = s.shape

/-- **The fixture can be made into the array that it describes.** -/
def Shows (f : ViewFixture) (device : Device) (w : World) : Prop :=
  ∃ a w', f.materialize device w = (.ok a, w') ∧ a.shape = f.viewShape ∧ a.device = device ∧
    a.Numbered w'.store f.shape f.pick

variable {f : ViewFixture}

/-- The number of elements, as a length. -/
theorem toSigned_toNat_of_lt {n : Nat} (h : n < signedBound) : (toSigned n).toNat = n := by
  rw [toSigned_of_lt h, Int.toNat_natCast]

/-- With memory for the numbers, a fixture is a part of the dense array that has them. -/
theorem materialize_eq (hspan : span f.shape.dims < signedBound)
    (hcap : 8 * volume f.shape.dims < signedBound) (device : Device) (w : World) :
    f.materialize device w = (f.restrict ⟨w.store.nextId, .dense f.shape, .i64, device⟩,
      { w with store := w.store.push ⟨.i64, numbers (volume f.shape.dims)⟩ }) := by
  have hnumel : f.shape.numel = .ok (volume f.shape.dims) :=
    numel_of_span (hspan.trans signedBound_lt_sizeBound)
  have hcount := toSigned_toNat_of_lt (@DType.count_lt .i64 _ hcap)
  have hsize : (Buffer.mk .i64 (numbers (volume f.shape.dims))).size = volume f.shape.dims :=
    size_numbers _
  have hfits : (Buffer.mk .i64 (numbers (volume f.shape.dims))).Fits := by
    rw [Buffer.Fits, hsize]
    exact hcap
  -- the numbers are as many as the shape has elements, so they make a dense array of it
  have hmake := NDArray.ofArray_eq (b := ⟨.i64, numbers (volume f.shape.dims)⟩)
    (hnumel.trans (congrArg _ hsize.symm)) (View.contiguous_dense hspan) hfits device w
  unfold materialize
  rw [Action.bind_checked_ok hnumel, hcount,
    Action.bind_checked_ok (DType.checkCapacity_eq_ok_iff.2 hcap),
    Action.bind_of_ok hmake]
  rfl

/-- **Without memory for them there is no array**, and no buffer is made. -/
theorem materialize_of_no_memory (hspan : span f.shape.dims < signedBound)
    (hcap : ¬8 * volume f.shape.dims < signedBound) (device : Device) (w : World) :
    f.materialize device w = (.error (.fault .capacity), w) := by
  have hnumel : f.shape.numel = .ok (volume f.shape.dims) :=
    numel_of_span (hspan.trans signedBound_lt_sizeBound)
  have hcount := toSigned_toNat_of_lt (lt_of_le_of_lt (volume_le_span _) hspan)
  unfold materialize
  rw [Action.bind_checked_ok hnumel, hcount]
  exact Action.bind_checked_error (DType.checkCapacity_eq_error hcap) _ w

/-- **A sound fixture shows what it describes**, if there is memory for it. -/
theorem shows_of_sound (h : f.Sound) (hspan : span f.shape.dims < signedBound)
    (hcap : 8 * volume f.shape.dims < signedBound) (device : Device) (w : World) :
    f.Shows device w := by
  have hlt : volume f.shape.dims < signedBound := @DType.count_lt .i64 _ hcap
  have hbuf : (w.store.push ⟨.i64, numbers (volume f.shape.dims)⟩).buffer? w.store.nextId
      = some ⟨.i64, numbers (volume f.shape.dims)⟩ := by
    rw [Store.buffer?_push, if_pos rfl]
  have hrun := materialize_eq hspan hcap device w
  obtain ⟨shape, subscription, viewShape⟩ := f
  unfold Shows
  rw [hrun]
  cases subscription with
  | none =>
    -- the whole is a part of itself
    obtain rfl : viewShape = shape := h
    have hp : (View.dense viewShape).PartOf (.dense viewShape) id :=
      ⟨length_denseSteps _, fun _ hin => hin, fun _ _ => rfl, fun _ _ _ _ heq => heq⟩
    obtain ⟨hwalks, -⟩ := View.walks_of_contiguous (View.contiguous_dense hspan)
      (numel_of_span (hspan.trans signedBound_lt_sizeBound)) hlt
    exact ⟨_, _, rfl, rfl, rfl, numbered_of_partOf hbuf hcap le_rfl hp hwalks⟩
  | some s =>
    obtain ⟨hfits, hsteps, rfl⟩ := h
    obtain ⟨part, hpart, hshape, hp, hwalks⟩ := View.subview_dense hlt hfits hsteps
    have hle : volume part.shape.dims ≤ volume shape.dims := by
      rw [hshape]
      exact View.volume_le_of_fits hfits
    have hsubview : NDArray.subview ⟨w.store.nextId, .dense shape, .i64, device⟩ s
        = .ok ⟨w.store.nextId, part, .i64, device⟩ := by
      rw [NDArray.subview, hpart]
      rfl
    exact ⟨_, _, Prod.ext hsubview rfl, hshape, rfl, numbered_of_partOf hbuf hcap hle hp hwalks⟩

end ViewFixture

end Strided
