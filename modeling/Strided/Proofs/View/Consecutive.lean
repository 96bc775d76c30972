import Strided.Proofs.View.Gapless
import Mathlib.Order.Interval.Set.Defs
import Mathlib.Data.Int.ConditionallyCompleteOrder
import Mathlib.Order.ConditionallyCompleteLattice.Basic
import Mathlib.Data.Set.Function

/-!
# Runs of cells

The elements of a gapless view are a run: they lie one after the other, in row-major order. Here it
is the other way round, from the run to the strides.

* `View.run_of_rowMajor` — a row-major view of a buffer is a run, and so is every view with other
  row-major strides from the same cell on. The machine may round the size of an axis that is no
  signed word when it computes the strides, but such an axis would leave the buffer
  (`View.end_le_of_rowMajor`).
* `View.strides_of_consecutive` — the strides of a run are the row-major ones if no axis is shorter
  than two. They are found by a step along each axis (`steps_eq_of_displacement`).

Without elements there is nothing to lie anywhere, so the empty views count as runs, whatever
strides they have.
-/

namespace Strided

open Shape Strides

/-! ### Strides by their steps -/

/-- A step along each axis determines the strides. -/
theorem steps_eq_of_displacement {dims : List Nat} {steps steps' : List Int}
    (hlen : steps.length = dims.length) (hlen' : steps'.length = dims.length)
    (htwo : ∀ dim ∈ dims, 2 ≤ dim)
    (h : ∀ index, Within index dims → displacement index steps = displacement index steps') :
    steps = steps' := by
  induction dims generalizing steps steps' with
  | nil => rw [List.eq_nil_of_length_eq_zero hlen, List.eq_nil_of_length_eq_zero hlen']
  | cons dim dims ih =>
    obtain ⟨step, steps, rfl⟩ := List.exists_cons_of_length_eq_add_one hlen
    obtain ⟨step', steps', rfl⟩ := List.exists_cons_of_length_eq_add_one hlen'
    have hdim : 2 ≤ dim := htwo dim List.mem_cons_self
    have hrest : ∀ d ∈ dims, 2 ≤ d := fun d hd => htwo d (List.mem_cons_of_mem _ hd)
    have hfirst : Within (firstIndex dims) dims := within_firstIndex fun d hd => by
      have := hrest d hd
      omega
    -- a step along the first axis
    have hstep : step = step' := by
      have heq := h (1 :: firstIndex dims) ⟨by omega, hfirst⟩
      rw [displacement_cons, displacement_cons, displacement_firstIndex,
        displacement_firstIndex] at heq
      omega
    -- the first axis at its start
    have hsteps : steps = steps' := by
      refine ih (Nat.succ.inj hlen) (Nat.succ.inj hlen') hrest fun index hin => ?_
      have heq := h (0 :: index) ⟨by omega, hin⟩
      rw [displacement_cons, displacement_cons, Int.natCast_zero, Int.zero_mul,
        Int.zero_mul] at heq
      omega
    rw [hstep, hsteps]

/-- **Multi-indices are the digits of the numbers below the element count.** Each number belongs to
exactly one of them. -/
theorem Strides.displacement_bijOn (dims : List Nat) :
    Set.BijOn (displacement · (denseSteps dims)) {index | Within index dims}
      (Set.Ico 0 (volume dims : Int)) := by
  have hlist := map_displacement_denseSteps dims
  refine ⟨fun index hin => displacement_denseSteps_lt hin, fun i hi j hj heq => ?_, fun z hz => ?_⟩
  · -- in row-major order the displacements count up, so none is there twice
    have hnodup : ((indicesOf dims).map (displacement · (denseSteps dims))).Nodup := by
      rw [hlist]
      exact List.nodup_range.map fun p q => Int.ofNat.inj
    exact List.inj_on_of_nodup_map hnodup (mem_indicesOf.2 hi) (mem_indicesOf.2 hj) heq
  · obtain ⟨hpos, hlt⟩ := hz
    have hmem : z ∈ (indicesOf dims).map (displacement · (denseSteps dims)) := by
      rw [hlist]
      exact List.mem_map.2 ⟨z.toNat, List.mem_range.2 (by omega), Int.toNat_of_nonneg hpos⟩
    obtain ⟨index, hindex, heq⟩ := List.mem_map.1 hmem
    exact ⟨index, mem_indicesOf.1 hindex, heq⟩

/-- The last element of a gapless layout. -/
theorem exists_last {dims : List Nat} (hpos : ∀ dim ∈ dims, 0 < dim) :
    ∃ index, Within index dims ∧
      displacement index (denseSteps dims) = (volume dims : Int) - 1 := by
  have hvolume := volume_pos_iff.2 hpos
  have hmem : (volume dims : Int) - 1 ∈ Set.Ico 0 (volume dims : Int) := ⟨by omega, by omega⟩
  obtain ⟨index, hin, heq⟩ := (displacement_bijOn dims).surjOn hmem
  exact ⟨index, hin, heq⟩

/-- Row-major strides that keep the elements below the end of a buffer are exact. -/
private theorem rowMajorBlock_of_inside {dims : List Nat} {block base : Int} {steps : List Int}
    {size : Nat} (hpos : ∀ dim ∈ dims, 0 < dim) (hsize : size < signedBound) (hbase : 0 ≤ base)
    (h : rowMajorBlock dims = .ok (block, steps))
    (hin : ∀ index, Within index dims → base + displacement index steps < size) :
    block = volume dims ∧ steps = denseSteps dims ∧ base + volume dims ≤ size := by
  induction dims generalizing block steps with
  | nil =>
    obtain ⟨rfl, rfl⟩ := Prod.mk.inj (Except.ok.inj h)
    have hend := hin [] trivial
    rw [displacement_nil] at hend
    exact ⟨rfl, rfl, by rw [volume_nil]; omega⟩
  | cons dim dims ih =>
    rw [rowMajorBlock, Checked.bind_eq_ok] at h
    obtain ⟨⟨b, later⟩, hlater, h⟩ := h
    rw [Checked.bind_eq_ok] at h
    obtain ⟨p, hp, h⟩ := h
    obtain ⟨rfl, rfl⟩ := Prod.mk.inj (Except.ok.inj h)
    have hdim : 0 < dim := hpos dim List.mem_cons_self
    have hrest : ∀ d ∈ dims, 0 < d := fun d hd => hpos d (List.mem_cons_of_mem _ hd)
    obtain ⟨rfl, rfl, -⟩ := ih hrest hlater fun index hindex => by
      have hend := hin (0 :: index) ⟨hdim, hindex⟩
      rwa [displacement_cons, Int.natCast_zero, Int.zero_mul, Int.zero_add] at hend
    -- the last element of the last row is inside, so the whole block is
    obtain ⟨m, rfl⟩ : ∃ m, dim = m + 1 := Nat.exists_eq_add_one.2 hdim
    obtain ⟨last, hlast, heq⟩ := exists_last hrest
    have hend := hin (m :: last) ⟨Nat.lt_succ_self m, hlast⟩
    have hvolume : (volume ((m + 1) :: dims) : Int) = m * volume dims + volume dims := by
      rw [volume_cons, Nat.succ_mul]
      push_cast
      rfl
    have hle : base + volume ((m + 1) :: dims) ≤ size := by
      rw [displacement_cons, heq] at hend
      omega
    refine ⟨?_, rfl, hle⟩
    -- hence the length of the axis is a signed word
    have hword : m + 1 < signedBound := by
      have hself : m + 1 ≤ volume ((m + 1) :: dims) :=
        Nat.le_mul_of_pos_right _ (volume_pos_iff.2 hrest)
      omega
    rw [toSigned_of_lt hword] at hp
    rw [← (checkSigned_eq_ok_iff.1 hp).2, volume_cons, Nat.mul_comm]
    push_cast
    rfl

namespace View

variable {v : View} {size n : Nat}

/-! ### Row-major views -/

/-- **The elements of a row-major view are a run**, if there are any. -/
theorem consecutive_of_rowMajor (hrow : rowMajor v.shape = .ok v.strides)
    (hlt : volume v.shape.dims < signedBound) : v.Consecutive := by
  rcases Nat.eq_zero_or_pos (volume v.shape.dims) with hzero | hpos
  · unfold Consecutive
    rw [hzero]
    exact List.eq_nil_of_length_eq_zero ((length_positions v).trans hzero)
  · exact positions_of_gapless (gapless_of_volume hrow hpos hlt)

/-- The walk over a row-major view counts the cells of the run. -/
theorem offsets_of_rowMajor (hnumel : v.numel = .ok n) (hrow : rowMajor v.shape = .ok v.strides)
    (hend : 0 < n → v.offset + n ≤ size) (hsize : size < signedBound) :
    v.offsets = ⟨List.range' v.offset n, none⟩ := by
  rcases Nat.eq_zero_or_pos n with rfl | hpos
  · exact offsets_of_numel hnumel
  · have hle := hend hpos
    obtain rfl := eq_volume_of_numel hnumel
    have hgapless := gapless_of_volume hrow hpos (by omega)
    rw [← hgapless.places_eq]
    exact (hgapless.walks hnumel hle hsize).offsets_eq (hsize.trans signedBound_lt_sizeBound).le

/-- **A row-major view of a buffer ends in the buffer**: the strides are the exact ones. -/
theorem end_le_of_rowMajor (hrow : rowMajor v.shape = .ok v.strides) (hb : v.InBounds size)
    (hsize : size < signedBound) (hpos : 0 < volume v.shape.dims) :
    v.offset + volume v.shape.dims ≤ size := by
  rw [rowMajor, Checked.bind_eq_ok] at hrow
  obtain ⟨⟨block, steps⟩, hblock, hrow⟩ := hrow
  have hsteps : v.strides.steps = steps := by rw [← Except.ok.inj hrow]
  -- it is enough that no element is too far away
  obtain ⟨-, -, hle⟩ := rowMajorBlock_of_inside (volume_pos_iff.1 hpos) hsize
    (Int.natCast_nonneg v.offset) hblock fun index hin => by
      have hend := (inBounds_iff.1 hb index hin).2
      rwa [position, hsteps] at hend
  omega

/-- There are no more elements in it than there are cells. -/
theorem volume_lt_of_rowMajor (hrow : rowMajor v.shape = .ok v.strides) (hb : v.InBounds size)
    (hsize : size < signedBound) : volume v.shape.dims < signedBound := by
  rcases Nat.eq_zero_or_pos (volume v.shape.dims) with hzero | hpos
  · rw [hzero]
    decide
  · have hend := end_le_of_rowMajor hrow hb hsize hpos
    omega

/-- **A view with row-major strides is a run of cells**, and any other shape of as many elements
makes the same run of them. -/
theorem run_of_rowMajor {shape : Shape} {target : Strides} (hnumel : v.numel = .ok n)
    (hrow : rowMajor v.shape = .ok v.strides) (hb : v.InBounds size) (hsize : size < signedBound)
    (hcount : shape.numel = .ok n) (htarget : rowMajor shape = .ok target) :
    v.Consecutive ∧ v.offsets = ⟨List.range' v.offset n, none⟩ ∧
      (View.mk shape target v.offset).offsets = ⟨List.range' v.offset n, none⟩ := by
  -- both layouts begin with the same cell and have as many
  have hend := end_le_of_rowMajor hrow hb hsize
  rw [← eq_volume_of_numel hnumel] at hend
  have hnew : (View.mk shape target v.offset).numel = .ok n := hcount
  exact ⟨consecutive_of_rowMajor hrow (volume_lt_of_rowMajor hrow hb hsize),
    offsets_of_rowMajor hnumel hrow hend hsize, offsets_of_rowMajor hnew htarget hend hsize⟩

/-- **A run of cells has row-major strides**, if a step is taken on every axis. -/
theorem strides_of_consecutive {own : Strides} (h : v.Consecutive) (hb : v.InBounds size)
    (hsize : size < signedBound) (hrank : v.strides.steps.length = v.shape.dims.length)
    (htwo : ∀ dim ∈ v.shape.dims, 2 ≤ dim) (hrow : rowMajor v.shape = .ok own) :
    v.strides = own := by
  have hpos : ∀ dim ∈ v.shape.dims, 0 < dim := fun dim hdim => by
    have := htwo dim hdim
    omega
  -- there are no more elements than cells, so the row-major strides are exact
  have hle := volume_le_of_distinct h.distinct hb
  have hspan : span v.shape.dims < signedBound := by
    rw [span_eq_volume hpos]
    omega
  obtain rfl := Except.ok.inj ((rowMajor_of_span hspan).symm.trans hrow)
  -- the exact row-major view has the same positions
  have hdense : (View.mk v.shape ⟨denseSteps v.shape.dims⟩ v.offset).Gapless := rfl
  have heq : v.positions = (View.mk v.shape ⟨denseSteps v.shape.dims⟩ v.offset).positions :=
    h.trans (positions_of_gapless hdense).symm
  refine congrArg Strides.mk (steps_eq_of_displacement hrank (length_denseSteps _) htwo ?_)
  intro index hin
  exact Int.add_left_cancel (List.map_inj_left.1 heq index (mem_indicesOf.2 hin))

end View

end Strided
