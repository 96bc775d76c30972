import Strided.Proofs.View.Consecutive
import Strided.Proofs.View.Parts

/-!
# Views of small buffers

Every view that the operations make of a buffer is `View.Placed` on it: it has a stride on every
axis, and its elements lie in the buffer, no two of them in the same cell. Runs of cells are
(`View.Consecutive.placed`), and so is every part of a placed view (`View.PartOf.placed`). Nothing
is known about the size of the strides then, because an axis with a single index puts no bound on
its stride, and a slice may step as far as it likes over the end of an axis.

In a buffer that is short compared with a word such strides are the only thing that can overflow:

* `View.Placed.subview_cases` — a subscription that fits gives a view if and only if the strides of
  the view are signed words;
* `View.Placed.fault_cases` — the walk over a view with such strides comes to its end if and only if
  the view is `Clear`, which is a condition on the places one past the end of an axis. Each of them
  is one stride from an element, so a view is clear if there is room for that
  (`View.Placed.clear`).

A walk that does not come to its end takes down what is done along it, reading
(`View.gather_of_fault`) as well as writing (`View.scatter_of_fault`).
-/

namespace Strided

open Shape

/-! ### Ways in a small buffer -/

section Bounds

variable {dims : List Nat} {steps : List Int} {base : Int} {size : Nat}

/-- **Ways along the axes of a small buffer are signed words** if the strides are. Along an axis
with more than one index the elements show how far a stride goes; an axis with a single index is as
long as its stride. -/
theorem ways_of_bounds (hlen : steps.length = dims.length) (hpos : ∀ dim ∈ dims, 0 < dim)
    (hin : ∀ index, Within index dims →
      0 ≤ base + displacement index steps ∧ base + displacement index steps < (size : Int))
    (hsize : 2 * size ≤ signedBound) (hwords : ∀ step ∈ steps, SignedWord step) :
    ∀ p ∈ dims.zip steps, p.2 * toSigned p.1 = p.2 * (p.1 : Int) ∧
      SignedWord (p.2 * (p.1 : Int)) := by
  induction dims generalizing steps base with
  | nil => simp
  | cons dim dims ih =>
    obtain ⟨step, steps, rfl⟩ := List.exists_cons_of_length_eq_add_one hlen
    have hdim : 0 < dim := hpos dim List.mem_cons_self
    have hrest : ∀ d ∈ dims, 0 < d := fun d hd => hpos d (List.mem_cons_of_mem _ hd)
    have hfirst := within_firstIndex hrest
    intro p hp
    rw [List.zip_cons_cons] at hp
    rcases List.mem_cons.1 hp with rfl | hp
    · dsimp only
      rcases Nat.eq_or_lt_of_le hdim with rfl | hlong
      · have hone : toSigned 1 = 1 := toSigned_of_lt (by decide)
        rw [hone, Nat.cast_one, Int.mul_one]
        exact ⟨rfl, hwords step List.mem_cons_self⟩
      · -- the first and the last index of the axis are both in the buffer
        obtain ⟨m, rfl⟩ : ∃ m, dim = m + 2 := Nat.exists_eq_add_of_le' hlong
        have hstart := hin (0 :: firstIndex dims) ⟨hdim, hfirst⟩
        have hend := hin ((m + 1) :: firstIndex dims) ⟨Nat.lt_succ_self (m + 1), hfirst⟩
        rw [displacement_cons, displacement_firstIndex] at hstart hend
        have hreach : ((m + 1 : Nat) * step).natAbs < size := by omega
        rw [Int.natAbs_mul, Int.natAbs_natCast] at hreach
        -- the way along the axis is at most twice as far as the last index
        have hway : (m + 2) * step.natAbs < signedBound := by
          have hdouble : (m + 2) * step.natAbs ≤ 2 * ((m + 1) * step.natAbs) := by
            rw [← Nat.mul_assoc]
            exact Nat.mul_le_mul_right _ (by omega)
          omega
        obtain ⟨hexact, hword⟩ := exact_way hway le_rfl
        rw [hexact] at hword
        rw [Int.mul_comm step, Int.mul_comm step]
        exact ⟨hexact, hword⟩
    · -- the later axes lie in the buffer, with the first one at its start
      have hlater : ∀ index, Within index dims →
          0 ≤ base + displacement index steps ∧ base + displacement index steps < (size : Int) := by
        intro index hindex
        have hinside := hin (0 :: index) ⟨hdim, hindex⟩
        rwa [displacement_cons, Int.natCast_zero, Int.zero_mul, Int.zero_add] at hinside
      exact ih (Nat.succ.inj hlen) hrest hlater
        (fun z hz => hwords z (List.mem_cons_of_mem _ hz)) p hp

/-- So the layout is tame: the elements themselves lie in the buffer. -/
theorem tame_of_bounds (hlen : steps.length = dims.length) (hpos : ∀ dim ∈ dims, 0 < dim)
    (hin : ∀ index, Within index dims →
      0 ≤ base + displacement index steps ∧ base + displacement index steps < (size : Int))
    (hsize : 2 * size ≤ signedBound) (hwords : ∀ step ∈ steps, SignedWord step) :
    Tame dims steps base where
  within_word index hindex := by
    have hinside := hin index hindex
    exact ⟨by omega, by omega⟩
  way_eq p hp := (ways_of_bounds hlen hpos hin hsize hwords p hp).1
  way_word p hp := (ways_of_bounds hlen hpos hin hsize hwords p hp).2

end Bounds

namespace View

variable {v part : View} {s : Subscription} {size : Nat} {f : List Nat → List Nat}

/-! ### Placed views -/

/-- **What holds of the views of a buffer** that the operations make, however far they step: every
axis has a stride, and the elements lie in the buffer, no two of them in the same cell. -/
structure Placed (v : View) (size : Nat) : Prop where
  rank_eq : v.strides.steps.length = v.shape.dims.length
  inBounds : v.InBounds size
  distinct : v.Distinct
  offset_lt : v.offset < sizeBound

/-- **A run of cells of a buffer** is placed on it. -/
theorem Consecutive.placed (h : v.Consecutive)
    (hrank : v.strides.steps.length = v.shape.dims.length)
    (hend : 0 < volume v.shape.dims → v.offset + volume v.shape.dims ≤ size)
    (hoffset : v.offset < sizeBound) : v.Placed size where
  rank_eq := hrank
  inBounds := h.inBounds hend
  distinct := h.distinct
  offset_lt := hoffset

/-- A row-major view of a buffer is placed on it. -/
theorem placed_of_rowMajor (hrow : Strides.rowMajor v.shape = .ok v.strides)
    (hlt : volume v.shape.dims < signedBound)
    (hend : 0 < volume v.shape.dims → v.offset + volume v.shape.dims ≤ size)
    (hoffset : v.offset < sizeBound) : v.Placed size :=
  (consecutive_of_rowMajor hrow hlt).placed (Strides.length_of_rowMajor hrow) hend hoffset

/-- A part of a placed view is placed, since it has no other elements. -/
theorem PartOf.placed (h : part.PartOf v f) (hv : v.Placed size)
    (hoffset : part.offset < sizeBound) : part.Placed size :=
  ⟨h.rank_eq, h.inBounds hv.inBounds, h.distinct hv.distinct, hoffset⟩

namespace Placed

/-- Where there are elements their positions are computed from the offset itself. -/
theorem bounds (h : v.Placed size) (hsize : size ≤ signedBound)
    (hpos : ∀ dim ∈ v.shape.dims, 0 < dim) : toSigned v.offset = v.offset ∧
      ∀ index, Within index v.shape.dims →
        0 ≤ toSigned v.offset + displacement index v.strides.steps ∧
          toSigned v.offset + displacement index v.strides.steps < (size : Int) := by
  have hoffset : toSigned v.offset = v.offset :=
    toSigned_of_lt (Nat.lt_of_lt_of_le (h.inBounds.offset_lt hpos) hsize)
  rw [hoffset]
  exact ⟨rfl, fun index hin => inBounds_iff.1 h.inBounds index hin⟩

/-- There are no more elements than cells, so they can be counted. -/
theorem span_le (h : v.Placed size) (hpos : ∀ dim ∈ v.shape.dims, 0 < dim) :
    span v.shape.dims ≤ size := by
  rw [span_eq_volume hpos]
  exact volume_le_of_distinct h.distinct h.inBounds

end Placed

/-- **The places one past the end of an axis are at signed words**, where an axis has to come
round. -/
def Clear (v : View) : Prop := ∀ x, Overrun x v.shape.dims → SignedWord (v.position x)

/-- **The walk over a view of a small buffer comes to its end if and only if the view is clear**,
and else it overflows. -/
theorem Placed.fault_cases (h : v.Placed size) (hpos : ∀ dim ∈ v.shape.dims, 0 < dim)
    (hsize : 2 * size ≤ signedBound) (hwords : ∀ step ∈ v.strides.steps, SignedWord step) :
    (v.Clear ∧ v.offsets.fault = none) ∨ (¬v.Clear ∧ v.offsets.fault = some .overflow) := by
  obtain ⟨hoffset, hbounds⟩ := h.bounds (by omega) hpos
  have hnumel : v.numel = .ok (volume v.shape.dims) := by
    refine numel_of_span (lt_of_le_of_lt (h.span_le hpos) ?_)
    have hlt := signedBound_lt_sizeBound
    unfold signedBound at hsize hlt
    omega
  -- the elements and the ways are signed words, so only the turns are left to decide
  have htame := tame_of_bounds h.rank_eq hpos hbounds hsize hwords
  have hcases := fault_offsets_cases h.rank_eq hnumel hpos htame.calm
  rw [hoffset] at hcases
  rcases hcases with ⟨hfault, hclear⟩ | ⟨hfault, x, hx, hword⟩
  · exact .inl ⟨hclear, hfault⟩
  · exact .inr ⟨fun hclear => hword (hclear x hx), hfault⟩

/-- One past the end of an axis is a step behind the last element of a row. -/
theorem exists_step_of_beyond {dims x : List Nat} {steps : List Int}
    (hlen : steps.length = dims.length) (hpos : ∀ dim ∈ dims, 0 < dim) (hx : Beyond x dims) :
    ∃ index, Within index dims ∧ ∃ step ∈ steps,
      displacement x steps = displacement index steps + step := by
  induction dims generalizing x steps with
  | nil => cases x <;> exact hx.elim
  | cons dim dims ih =>
    obtain ⟨step, steps, rfl⟩ := List.exists_cons_of_length_eq_add_one hlen
    have hrest : ∀ d ∈ dims, 0 < d := fun d hd => hpos d (List.mem_cons_of_mem _ hd)
    cases x with
    | nil => exact hx.elim
    | cons i x =>
      rcases hx with ⟨hi, hx⟩ | ⟨rfl, rfl⟩
      · -- a later axis is through
        obtain ⟨index, hin, z, hz, heq⟩ := ih (Nat.succ.inj hlen) hrest hx
        refine ⟨i :: index, ⟨hi, hin⟩, z, List.mem_cons_of_mem _ hz, ?_⟩
        rw [displacement_cons, displacement_cons, heq, Int.add_assoc]
      · -- this one is, and the later ones stand at their start
        obtain ⟨m, rfl⟩ : ∃ m, i = m + 1 := Nat.exists_eq_add_one.2 (hpos i List.mem_cons_self)
        refine ⟨m :: firstIndex dims, ⟨Nat.lt_succ_self m, within_firstIndex hrest⟩, step,
          List.mem_cons_self, ?_⟩
        rw [displacement_cons, displacement_cons]
        push_cast
        ring

/-- **A view is clear if its strides leave room for the buffer** in a signed word. -/
theorem Placed.clear (h : v.Placed size) (hpos : ∀ dim ∈ v.shape.dims, 0 < dim)
    (hsteps : ∀ step ∈ v.strides.steps, step.natAbs + size ≤ signedBound) : v.Clear := by
  intro x hx
  -- the place is one stride from an element, and that lies in the buffer
  obtain ⟨index, hin, step, hstep, heq⟩ := exists_step_of_beyond h.rank_eq hpos hx.beyond
  have hinside := inBounds_iff.1 h.inBounds index hin
  have hroom := hsteps step hstep
  unfold position at hinside ⊢
  rw [heq]
  exact ⟨by omega, by omega⟩

/-! ### Subviews -/

/-- Slices that fit do not overflow as long as the strides do not: they start at elements. -/
theorem slice_ne_overflow_of_words {slices : List Slice} {dims : List Nat} {steps : List Int}
    {offset : Int} (hfits : List.Forall₂ Slice.Fits slices dims)
    (hlen : steps.length = dims.length) (hsize : size ≤ signedBound)
    (hin : ∀ index, Within index dims →
      0 ≤ offset + displacement index steps ∧ offset + displacement index steps < (size : Int))
    (hwords : ∀ z ∈ stretched slices steps, SignedWord z) :
    slice slices dims steps offset ≠ .error (.fault .overflow) := by
  induction hfits generalizing steps offset with
  | nil => exact fun h => absurd h (by simp [slice])
  | @cons s dim slices dims hs hfits ih =>
    obtain ⟨step, steps, rfl⟩ := List.exists_cons_of_length_eq_add_one hlen
    have hdims := pos_of_fits hfits
    have hfirst := within_firstIndex hdims
    have hstart : s.start < dim := Nat.lt_of_lt_of_le hs.2.1 hs.2.2
    have haddr : Addressable (dim :: dims) (step :: steps) offset := fun index hindex => by
      have hinside := hin index hindex
      exact ⟨hinside.1, by omega⟩
    have hexact := haddr.toSigned_mul hdims hstart
    -- the first element and the first selected one, on this axis
    have hzero := hin (0 :: firstIndex dims) ⟨Nat.zero_lt_of_lt hstart, hfirst⟩
    have hleap := hin (s.start :: firstIndex dims) ⟨hstart, hfirst⟩
    rw [displacement_cons, displacement_firstIndex] at hzero hleap
    refine slice_cons_ne_overflow hs ?_ ?_ (hwords _ List.mem_cons_self) ?_
    · rw [hexact]
      exact ⟨by omega, by omega⟩
    · rw [hexact]
      exact ⟨by omega, by omega⟩
    · refine ih (Nat.succ.inj hlen) (fun index hindex => ?_)
        fun z hz => hwords z (List.mem_cons_of_mem _ hz)
      have hinside := hin (s.start :: index) ⟨hstart, hindex⟩
      rwa [displacement_cons, ← Int.add_assoc, ← hexact] at hinside

/-- **A subscription that fits gives a view if and only if the strides of the view are signed
words**, and else the arithmetic overflows. It is never refused. -/
theorem Placed.subview_cases (h : v.Placed size) (hsize : size ≤ signedBound)
    (hs : s.Fits v.shape) :
    ((∀ z ∈ s.stretch v.strides.steps, SignedWord z) ∧ ∃ part, v.subview s = .ok part ∧
        part.Placed size ∧ part.shape = s.shape ∧ part.strides = ⟨s.stretch v.strides.steps⟩) ∨
      ((¬∀ z ∈ s.stretch v.strides.steps, SignedWord z) ∧
        v.subview s = .error (.fault .overflow)) := by
  have hnone : s.refusal? v.shape = none := Subscription.refusal?_eq_none_iff.2 hs
  rcases View.subview_cases h.rank_eq h.inBounds hsize s with hf | ⟨e, -, he⟩ | ⟨part, hpart, -⟩
  · -- with strides that are words there would be no overflow
    refine .inr ⟨fun hwords => ?_, hf⟩
    obtain ⟨-, hbounds⟩ := h.bounds hsize (pos_of_fits hs)
    exact subview_ne_overflow
      (fun _ => slice_ne_overflow_of_words hs h.rank_eq hsize hbounds hwords) hf
  · -- nothing is wrong with a subscription that fits
    rw [hnone] at he
    exact absurd he (by simp)
  · obtain ⟨-, -, hshape, hstrides, hp⟩ := partOf_of_subview h.rank_eq h.inBounds hsize hpart
    refine .inl ⟨?_, part, hpart, hp.placed h (offset_lt_of_subview hpart), hshape, hstrides⟩
    rcases slice_of_fits hs v.strides.steps (toSigned v.offset) with hf | ⟨-, hwords⟩
    · -- the part was made, so its strides have passed their checks
      have hoverflow : v.subview s = .error (.fault .overflow) := by
        unfold subview
        rw [if_pos (show s.rank = v.shape.rank from hs.length_eq), hf]
        rfl
      exact absurd (hoverflow.symm.trans hpart) (by simp)
    · exact hwords

/-! ### Reading and writing along a walk that overflows -/

section Faults

variable {α : Type} {cells : Array α} {xs : List α} {fault : Fault}

/-- As far as a walk over a view of a buffer gets it stays in the buffer. -/
theorem items_lt (hlen : v.strides.steps.length = v.shape.dims.length) (hb : v.InBounds size)
    (hsize : size ≤ sizeBound) : ∀ p ∈ v.offsets.items, p < size := by
  intro p hp
  -- what is yielded is the position of an element
  obtain ⟨z, hz, rfl⟩ := List.mem_map.1 ((items_offsets_initial hlen).subset hp)
  have hinside := hb z hz
  have hread := toSize_of_nonneg hinside.1 (by omega)
  omega

/-- Reading along a walk ends in the fault the walk ends in. -/
theorem gather_of_fault (hlen : v.strides.steps.length = v.shape.dims.length)
    (hb : v.InBounds cells.size) (hsize : cells.size ≤ sizeBound)
    (hf : v.offsets.fault = some fault) : v.gather cells = .error fault := by
  obtain ⟨items, hitems⟩ := Offsets.exists_mapM_readAt (items_lt hlen hb hsize)
  rw [gather_eq, Offsets.gather, hitems, Checked.ok_bind, hf]
  rfl

/-- Writes inside a buffer go through. -/
theorem writeAll_of_lt {writes : List (Nat × α)} (h : ∀ p ∈ writes, p.1 < cells.size) :
    (Offsets.writeAll writes cells).2 = none := by
  induction writes generalizing cells with
  | nil => rfl
  | cons p writes ih =>
    rw [Offsets.writeAll, dif_pos (h p List.mem_cons_self)]
    refine ih fun q hq => ?_
    rw [Array.size_set]
    exact h q (List.mem_cons_of_mem _ hq)

/-- So does writing. What was written up to there stays. -/
theorem scatter_of_fault (hlen : v.strides.steps.length = v.shape.dims.length)
    (hb : v.InBounds cells.size) (hsize : cells.size ≤ sizeBound)
    (hf : v.offsets.fault = some fault) (xs : List α) :
    (v.offsets.scatter xs cells).2 = some fault := by
  -- every place that is come by can be written
  have hwrites : (Offsets.writeAll (v.offsets.items.zip xs) cells).2 = none :=
    writeAll_of_lt fun p hp => items_lt hlen hb hsize p.1 (List.of_mem_zip hp).1
  unfold Offsets.scatter
  rcases hw : Offsets.writeAll (v.offsets.items.zip xs) cells with ⟨cells', r⟩
  rw [hw] at hwrites
  obtain rfl : r = none := hwrites
  exact hf

end Faults

end View

end Strided
