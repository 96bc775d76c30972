import Strided.Proofs.View.Access

/-!
# Gapless views

New buffers are laid out row-major, and so is what a reshape gives. The elements of such a view
lie in a block of consecutive cells, in order: they are a run (`View.Consecutive`,
`View.positions_of_gapless`). From this alone follows that they are distinct and that they fit any
buffer that is long enough.

The walk over them never overflows as long as the end of the block is a signed word
(`View.Gapless.walks`). There is no slack in this: the walk does reach the end of the block,
one past the last element, whenever an axis is through.

A new buffer is seen through the view `View.contiguous` makes. It reads as the buffer does
(`View.gather_of_contiguous`), and what is written through it is the buffer afterwards
(`View.eq_of_written_contiguous`). That includes the buffers without cells, whose views need not
be gapless.
-/

namespace Strided

open Shape Strides

/-! ### The block of a row-major layout -/

/-- Consecutive blocks of consecutive numbers are consecutive numbers. -/
private theorem flatMap_range (m n : Nat) :
    ((List.range m).flatMap fun i => (List.range n).map (i * n + ·)) = List.range (m * n) := by
  induction m with
  | zero => rw [Nat.zero_mul]; rfl
  | succ m ih =>
    rw [List.range_succ, List.flatMap_append, ih, List.flatMap_singleton, Nat.succ_mul,
      List.range_add]

/-- **The multi-indices in row-major order are displaced by `0, 1, 2, …`** in a gapless
layout. -/
theorem map_displacement_denseSteps (dims : List Nat) :
    (indicesOf dims).map (displacement · (denseSteps dims))
      = (List.range (volume dims)).map fun i : Nat => (i : Int) := by
  induction dims with
  | nil => rfl
  | cons dim dims ih =>
    have hrow : ∀ i : Nat, ((indicesOf dims).map (i :: ·)).map
          (displacement · (denseSteps (dim :: dims)))
        = ((List.range (volume dims)).map (i * volume dims + ·)).map fun i : Nat => (i : Int) := by
      intro i
      -- row `i` is the block of the later axes, moved by `i` blocks
      have hshift := congrArg (List.map (fun z => (i : Int) * volume dims + z)) ih
      rw [List.map_map, List.map_map] at hshift
      rw [List.map_map, List.map_map]
      refine Eq.trans hshift (List.map_congr_left fun k _ => ?_)
      rw [Function.comp_apply, Function.comp_apply, Int.natCast_add, Int.natCast_mul]
    rw [indicesOf, List.map_flatMap, volume_cons, ← flatMap_range, List.map_flatMap]
    exact congrArg (List.flatMap · (List.range dim)) (funext hrow)

/-- An element of a gapless layout lies in the block. -/
theorem displacement_denseSteps_lt {dims index : List Nat} (h : Within index dims) :
    0 ≤ displacement index (denseSteps dims) ∧
      displacement index (denseSteps dims) < volume dims := by
  -- the displacement is one of the numbers below the volume
  have hmem := List.mem_map_of_mem (f := (displacement · (denseSteps dims))) (mem_indicesOf.2 h)
  rw [map_displacement_denseSteps] at hmem
  obtain ⟨i, hi, heq⟩ := List.mem_map.1 hmem
  have hlt := List.mem_range.1 hi
  omega

/-- One past the end of an axis is at most the end of the block. -/
theorem displacement_denseSteps_le {dims index : List Nat} (h : Beyond index dims) :
    0 ≤ displacement index (denseSteps dims) ∧
      displacement index (denseSteps dims) ≤ volume dims := by
  induction dims generalizing index with
  | nil => cases index <;> exact h.elim
  | cons dim dims ih =>
    cases index with
    | nil => exact h.elim
    | cons i index =>
      rw [denseSteps_cons, displacement_cons, volume_cons, ← Int.natCast_mul]
      rcases h with ⟨hi, hlater⟩ | ⟨rfl, rfl⟩
      · -- the block of row `i` ends where the next row begins, which is still in the block
        have hle := ih hlater
        have hblock : (i + 1) * volume dims ≤ dim * volume dims := Nat.mul_le_mul_right _ hi
        rw [Nat.succ_mul] at hblock
        omega
      · rw [displacement_firstIndex]
        omega

/-- The axes of a gapless layout without an empty axis are no longer than its block. -/
theorem mul_natAbs_le_volume {dims : List Nat} (h : ∀ dim ∈ dims, 0 < dim) :
    ∀ p ∈ dims.zip (denseSteps dims), p.1 * p.2.natAbs ≤ volume dims := by
  induction dims with
  | nil => simp
  | cons dim dims ih =>
    intro p hp
    rw [denseSteps_cons, List.zip_cons_cons] at hp
    rcases List.mem_cons.1 hp with rfl | hp
    · exact Nat.le_of_eq rfl
    · refine le_trans (ih (fun d hd => h d (List.mem_cons_of_mem _ hd)) p hp) ?_
      exact Nat.le_mul_of_pos_left _ (h dim List.mem_cons_self)

/-- A gapless layout has room if the end of its block is a signed word. -/
theorem room_denseSteps {dims : List Nat} {base : Nat} (h : ∀ dim ∈ dims, 0 < dim)
    (hend : base + volume dims < signedBound) : Room dims (denseSteps dims) base where
  within_lt index hin := by
    have hd := displacement_denseSteps_lt hin
    omega
  beyond_lt index hin := by
    have hd := displacement_denseSteps_le hin
    omega
  way_lt p hp := by
    have hle := mul_natAbs_le_volume h p hp
    omega

namespace View

variable {v : View} {size : Nat}

/-! ### Runs of cells -/

/-- **The elements lie one after the other**, in row-major order, from the offset on. -/
def Consecutive (v : View) : Prop :=
  v.positions = (List.range' v.offset (volume v.shape.dims)).map fun p : Nat => (p : Int)

instance (v : View) : Decidable v.Consecutive := inferInstanceAs (Decidable (_ = _))

theorem Consecutive.distinct (h : v.Consecutive) : v.Distinct := by
  unfold Distinct
  rw [h]
  exact List.Nodup.map (fun p q => Int.ofNat.inj) List.nodup_range'

/-- A run lies in the buffer if its end does. One without elements lies anywhere. -/
theorem Consecutive.inBounds (h : v.Consecutive)
    (hend : 0 < volume v.shape.dims → v.offset + volume v.shape.dims ≤ size) :
    v.InBounds size := by
  intro z hz
  unfold Consecutive at h
  rw [h] at hz
  obtain ⟨p, hp, rfl⟩ := List.mem_map.1 hz
  rw [List.mem_range'_1] at hp
  -- an element is there, so the view is not empty
  have hle := hend (by omega)
  omega

/-! ### Views of a block -/

/-- The strides of the view are the row-major ones of its shape. -/
def Gapless (v : View) : Prop := v.strides.steps = denseSteps v.shape.dims

/-- Row-major strides of a shape whose elements can be numbered by signed words are exact. -/
theorem gapless_of_volume (hrow : rowMajor v.shape = .ok v.strides)
    (hpos : 0 < volume v.shape.dims) (hlt : volume v.shape.dims < signedBound) : v.Gapless := by
  -- no axis is empty, so the span is the volume
  have hspan : span v.shape.dims < signedBound := by
    rwa [span_eq_volume (volume_pos_iff.1 hpos)]
  have hdense := Except.ok.inj ((rowMajor_of_span hspan).symm.trans hrow)
  exact (congrArg Strides.steps hdense).symm

theorem Gapless.rank_eq (h : v.Gapless) : v.strides.steps.length = v.shape.dims.length := by
  rw [h, length_denseSteps]

/-- **The elements of a gapless view lie one after the other** from its offset on. -/
theorem positions_of_gapless (h : v.Gapless) :
    v.positions = (List.range' v.offset (volume v.shape.dims)).map fun p : Nat => (p : Int) := by
  -- the dense displacements, all moved by the offset
  have hshift := congrArg (List.map (fun z => (v.offset : Int) + z))
    (map_displacement_denseSteps v.shape.dims)
  rw [List.map_map, List.map_map] at hshift
  unfold positions position Shape.indices
  rw [h, List.range'_eq_map_range, List.map_map]
  refine Eq.trans hshift (List.map_congr_left fun i _ => ?_)
  rw [Function.comp_apply, Function.comp_apply, Int.natCast_add]

/-- Its places are the cells from the offset on. -/
theorem Gapless.places_eq (h : v.Gapless) :
    v.places = List.range' v.offset (volume v.shape.dims) := by
  unfold places
  rw [positions_of_gapless h, List.map_map]
  calc (List.range' v.offset (volume v.shape.dims)).map (Int.toNat ∘ fun p : Nat => (p : Int))
      = (List.range' v.offset (volume v.shape.dims)).map id :=
        List.map_congr_left fun p _ => Int.toNat_natCast p
    _ = List.range' v.offset (volume v.shape.dims) := List.map_id _

theorem Gapless.distinct (h : v.Gapless) : v.Distinct :=
  Consecutive.distinct (positions_of_gapless h)

theorem Gapless.inBounds (h : v.Gapless) (hsize : v.offset + volume v.shape.dims ≤ size) :
    v.InBounds size :=
  Consecutive.inBounds (positions_of_gapless h) fun _ => hsize

/-- **A gapless view of part of a buffer can be used on it**, if the elements can be counted. -/
theorem Gapless.walks (h : v.Gapless) (hnumel : v.numel = .ok (volume v.shape.dims))
    (hsize : v.offset + volume v.shape.dims ≤ size) (hlt : size < signedBound) :
    v.Walks size where
  rank_eq := h.rank_eq
  inBounds := h.inBounds hsize
  fault_eq := by
    rcases Nat.eq_zero_or_pos (volume v.shape.dims) with hzero | hpos
    · rw [offsets_of_numel hnumel, hzero]
      rfl
    · -- a view without elements is not walked; of any other no axis is empty
      apply fault_offsets h.rank_eq hnumel
      rw [h, toSigned_of_lt (by omega)]
      exact room_denseSteps (volume_pos_iff.1 hpos) (by omega)

/-! ### Views of new buffers -/

section Contiguous

variable {shape : Shape} {own : Strides} {n : Nat} {α : Type} {cells cells' : Array α}
  {xs : List α}

/-- A shape that has row-major strides has a view from the first cell on. -/
theorem contiguous_of_rowMajor (h : rowMajor shape = .ok own) :
    contiguous shape = .ok ⟨shape, own, 0⟩ := by
  unfold contiguous
  rw [h]
  rfl

/-- A view is asked whether its strides are the row-major ones of its shape. -/
theorem isContiguous_of_rowMajor (h : rowMajor v.shape = .ok own) :
    v.isContiguous = .ok (v.strides == own) := by
  unfold isContiguous
  rw [h]
  rfl

/-- Such a view has no other strides than the row-major ones. -/
theorem rowMajor_of_contiguous (h : contiguous shape = .ok v) :
    ∃ own, rowMajor shape = .ok own ∧ ⟨shape, own, 0⟩ = v := by
  unfold contiguous at h
  rw [Checked.bind_eq_ok] at h
  obtain ⟨own, hrow, h⟩ := h
  exact ⟨own, hrow, Except.ok.inj h⟩

theorem shape_of_contiguous (h : contiguous shape = .ok v) : v.shape = shape := by
  obtain ⟨own, -, rfl⟩ := rowMajor_of_contiguous h
  rfl

/-- **A row-major view of `n` cells** from the start of a buffer, also if there are none. The
machine may round the strides of a shape without elements, which nothing is found by. -/
theorem walks_of_contiguous (h : contiguous shape = .ok v) (hnumel : shape.numel = .ok n)
    (hlt : n < signedBound) : v.Walks n ∧ v.places = List.range n := by
  obtain rfl := eq_volume_of_numel hnumel
  obtain ⟨own, hrow, rfl⟩ := rowMajor_of_contiguous h
  have hcount : (View.mk shape own 0).numel = .ok (volume shape.dims) := hnumel
  rcases Nat.eq_zero_or_pos (volume shape.dims) with hnone | hpos
  · rw [hnone] at hcount ⊢
    -- nothing is found through a view without elements
    have hempty : (View.mk shape own 0).positions = [] := by
      rw [← List.length_eq_zero_iff, length_positions, hnone]
    refine ⟨⟨length_of_rowMajor hrow, ?_, ?_⟩, ?_⟩
    · intro z hz
      rw [hempty] at hz
      exact absurd hz (by simp)
    · rw [offsets_of_numel hcount]
      rfl
    · rw [places, hempty]
      rfl
  · -- no axis is empty, so the strides are the exact ones
    have hgapless : (View.mk shape own 0).Gapless := gapless_of_volume hrow hpos hlt
    refine ⟨hgapless.walks hcount (Nat.zero_add _).le hlt, ?_⟩
    rw [hgapless.places_eq, List.range_eq_range']

/-- It lists the cells in order. -/
theorem map_places_of_contiguous (h : contiguous shape = .ok v)
    (hnumel : shape.numel = .ok cells.size) (hlt : cells.size < signedBound) :
    v.places.map (cells[·]?) = cells.toList.map some := by
  rw [(walks_of_contiguous h hnumel hlt).2]
  refine List.ext_getElem (by simp) fun i hi _ => ?_
  rw [List.getElem_map, List.getElem_map, List.getElem_range, Array.getElem_toList]
  rw [List.length_map, List.length_range] at hi
  exact Array.getElem?_eq_getElem hi

/-- **It reads as the buffer.** -/
theorem gather_of_contiguous (h : contiguous shape = .ok v)
    (hnumel : shape.numel = .ok cells.size) (hlt : cells.size < signedBound) :
    v.gather cells = .ok cells.toList :=
  (gather_eq_ok_iff (walks_of_contiguous h hnumel hlt).1
    (le_trans hlt.le signedBound_lt_sizeBound.le)).2 (map_places_of_contiguous h hnumel hlt)

/-- **What is written through it is the buffer afterwards.** -/
theorem eq_of_written_contiguous (h : contiguous shape = .ok v)
    (hnumel : shape.numel = .ok cells.size) (hlt : cells.size < signedBound)
    (hlen : xs.length = cells.size) (hw : Written v.places xs cells cells') :
    cells' = xs.toArray := by
  have hplaces := (walks_of_contiguous h hnumel hlt).2
  -- no place is listed twice, so each holds its own item afterwards
  have hread : v.places.map (cells'[·]?) = xs.map some := by
    refine hw.map_places ?_ ?_
    · rw [hplaces]
      exact List.nodup_range
    · rw [hplaces, List.length_range, hlen]
  -- and the places are the whole buffer
  have hsize := hw.size_eq
  rw [map_places_of_contiguous h (by rwa [hsize]) (by rwa [hsize])] at hread
  rw [← List.map_injective_iff.2 (Option.some_injective α) hread, Array.toArray_toList]

end Contiguous

end View

end Strided
