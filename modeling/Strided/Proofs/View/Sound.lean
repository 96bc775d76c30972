import Strided.Proofs.View.Gapless
import Strided.Proofs.View.Parts

/-!
# Views that cannot go wrong

Which views can be walked, sliced and cut along a diagonal without ever leaving the words? Not
all whose elements lie in a buffer: the strides of a subview are products, those of a diagonal
are sums, and both are computed even where nothing lies along them. `View.Modest` is a set of
bounds that the operations cannot exceed, provided that no slice steps further than its axis is
long:

* `Modest.fault_eq`, `Modest.subview_ne_overflow` and `Modest.diagonal_ne_overflow` — within
  the bounds nothing overflows;
* `Modest.of_gapless` — row-major layouts of a moderate span are within them;
* `Sound.subview`, `Sound.diagonal` and `Sound.reshape` — the operations keep to them, and to
  elements that are distinct and lie in the buffer, which together make a view `Sound`.

The bound that carries all this is the one on the `extent`, the distance of the last element
from the first. It falls with every slice. A stride can grow by a slice only on an axis with
more than one element, and there it is at most the extent; the axis may be left with a single
element and a stride up to twice the extent, but after that it stays as it is, since a slice of
it has step one. A diagonal adds two strides, once, because it leaves a single axis.
-/

namespace Strided

open Shape Strides

/-! ### The extent of a layout -/

/-- **The distance of the last element from the first**, in exact arithmetic. An empty axis
adds nothing to it. -/
def extent : List Nat → List Int → Int
  | dim :: dims, step :: steps => ((dim - 1 : Nat) : Int) * step + extent dims steps
  | _, _ => 0

@[simp] theorem extent_nil (steps : List Int) : extent [] steps = 0 := rfl

@[simp] theorem extent_cons (dim : Nat) (dims : List Nat) (step : Int) (steps : List Int) :
    extent (dim :: dims) (step :: steps) = ((dim - 1 : Nat) : Int) * step + extent dims steps :=
  rfl

section Extent

variable {dims index : List Nat} {steps : List Int}

/-- Where no stride is negative the last element is not before the first. -/
theorem extent_nonneg (dims : List Nat) (h : ∀ step ∈ steps, 0 ≤ step) :
    0 ≤ extent dims steps := by
  induction dims generalizing steps with
  | nil => exact le_rfl
  | cons dim dims ih =>
    cases steps with
    | nil => exact le_rfl
    | cons step steps =>
      have hstep := h step List.mem_cons_self
      have hrest := ih fun z hz => h z (List.mem_cons_of_mem _ hz)
      have hhead : 0 ≤ ((dim - 1 : Nat) : Int) * step := Int.mul_nonneg (Int.natCast_nonneg _) hstep
      rw [extent_cons]
      omega

/-- What one axis adds is at most the whole. -/
theorem mul_le_extent (dims : List Nat) (h : ∀ step ∈ steps, 0 ≤ step) :
    ∀ p ∈ dims.zip steps, ((p.1 - 1 : Nat) : Int) * p.2 ≤ extent dims steps := by
  induction dims generalizing steps with
  | nil => simp
  | cons dim dims ih =>
    cases steps with
    | nil => simp
    | cons step steps =>
      have hrest : ∀ z ∈ steps, 0 ≤ z := fun z hz => h z (List.mem_cons_of_mem _ hz)
      have htail := extent_nonneg dims hrest
      have hhead : 0 ≤ ((dim - 1 : Nat) : Int) * step :=
        Int.mul_nonneg (Int.natCast_nonneg _) (h step List.mem_cons_self)
      intro p hp
      rw [List.zip_cons_cons] at hp
      rw [extent_cons]
      rcases List.mem_cons.1 hp with rfl | hp
      · dsimp only
        omega
      · have hle := ih hrest p hp
        omega

/-- No element is displaced further than the extent. -/
theorem displacement_le_extent (h : ∀ step ∈ steps, 0 ≤ step) (hin : Within index dims) :
    0 ≤ displacement index steps ∧ displacement index steps ≤ extent dims steps := by
  induction dims generalizing index steps with
  | nil =>
    cases index with
    | nil => exact ⟨le_rfl, le_rfl⟩
    | cons i index => exact hin.elim
  | cons dim dims ih =>
    cases index with
    | nil => exact hin.elim
    | cons i index =>
      cases steps with
      | nil => exact ⟨le_rfl, le_rfl⟩
      | cons step steps =>
        have hstep := h step List.mem_cons_self
        have hrest := ih (fun z hz => h z (List.mem_cons_of_mem _ hz)) hin.2
        -- the index of an axis is at most the last one
        have hi : (i : Int) ≤ ((dim - 1 : Nat) : Int) := by have hi := hin.1; omega
        have hhead : (i : Int) * step ≤ ((dim - 1 : Nat) : Int) * step :=
          Int.mul_le_mul_of_nonneg_right hi hstep
        have hpos : 0 ≤ (i : Int) * step := Int.mul_nonneg (Int.natCast_nonneg _) hstep
        rw [displacement_cons, extent_cons]
        omega

/-- One past the end of an axis is at most one stride further. -/
theorem displacement_le_of_beyond {bound : Int} (h : ∀ step ∈ steps, 0 ≤ step)
    (hbound : ∀ step ∈ steps, step ≤ bound) (hzero : 0 ≤ bound) (hin : Beyond index dims) :
    0 ≤ displacement index steps ∧ displacement index steps ≤ extent dims steps + bound := by
  induction dims generalizing index steps with
  | nil => cases index <;> exact hin.elim
  | cons dim dims ih =>
    cases index with
    | nil => exact hin.elim
    | cons i index =>
      cases steps with
      | nil => exact ⟨le_rfl, show (0 : Int) ≤ 0 + bound by omega⟩
      | cons step steps =>
        have hstep := h step List.mem_cons_self
        have hrest : ∀ z ∈ steps, 0 ≤ z := fun z hz => h z (List.mem_cons_of_mem _ hz)
        rw [displacement_cons, extent_cons]
        rcases hin with ⟨hi, hlater⟩ | ⟨rfl, rfl⟩
        · -- the end of a later axis
          have hle := ih hrest (fun z hz => hbound z (List.mem_cons_of_mem _ hz)) hlater
          have hhead : (i : Int) * step ≤ ((dim - 1 : Nat) : Int) * step :=
            Int.mul_le_mul_of_nonneg_right (by omega) hstep
          have hpos : 0 ≤ (i : Int) * step := Int.mul_nonneg (Int.natCast_nonneg _) hstep
          omega
        · -- the end of this one
          have hle := hbound step List.mem_cons_self
          have htail := extent_nonneg dims hrest
          have hpos : 0 ≤ (i : Int) * step := Int.mul_nonneg (Int.natCast_nonneg _) hstep
          have hhead : (i : Int) * step ≤ ((i - 1 : Nat) : Int) * step + step :=
            calc (i : Int) * step
                ≤ (((i - 1 : Nat) : Int) + 1) * step :=
                  Int.mul_le_mul_of_nonneg_right (by omega) hstep
              _ = ((i - 1 : Nat) : Int) * step + step := by rw [Int.add_mul, Int.one_mul]
          rw [displacement_firstIndex]
          omega

end Extent

/-- The extent of a gapless layout is below its span. -/
theorem extent_denseSteps_lt (dims : List Nat) : extent dims (denseSteps dims) < span dims := by
  induction dims with
  | nil => exact Int.zero_lt_one
  | cons dim dims ih =>
    -- an empty axis adds nothing on the left and one block on the right
    have hle : (dim - 1) * volume dims ≤ (max dim 1 - 1) * span dims :=
      Nat.mul_le_mul (by omega) (volume_le_span dims)
    have hspan : (max dim 1 - 1) * span dims + span dims = span (dim :: dims) :=
      calc (max dim 1 - 1) * span dims + span dims
          = (max dim 1 - 1 + 1) * span dims := (Nat.succ_mul _ _).symm
        _ = max dim 1 * span dims := by rw [Nat.sub_add_cancel (le_max_right dim 1)]
        _ = span (dim :: dims) := rfl
    rw [denseSteps_cons, extent_cons, ← Int.natCast_mul]
    omega

/-- The strides of a gapless layout are no larger than its span, and none is negative. -/
theorem denseSteps_le_span {dims : List Nat} :
    ∀ step ∈ denseSteps dims, 0 ≤ step ∧ step ≤ span dims := by
  induction dims with
  | nil => simp [denseSteps]
  | cons dim dims ih =>
    have htail := span_tail_le dim dims
    intro step hstep
    rcases List.mem_cons.1 hstep with rfl | hstep
    · have hle := volume_le_span dims
      omega
    · have hle := ih step hstep
      omega

/-! ### Modest views -/

/-- The size that no layout is to exceed, `2 ^ 60`. -/
def sizeLimit : Nat := 1152921504606846976

theorem sizeLimit_lt_signedBound : sizeLimit < signedBound := by decide

theorem sizeLimit_lt_sizeBound : sizeLimit < sizeBound :=
  lt_trans sizeLimit_lt_signedBound signedBound_lt_sizeBound

namespace View

/-- **Bounds within which nothing overflows.** Only a view with a single axis, which has no
diagonals, may have a stride above twice the limit. -/
structure Modest (v : View) : Prop where
  rank_eq : v.strides.steps.length = v.shape.dims.length
  span_le : span v.shape.dims ≤ sizeLimit
  offset_le : v.offset ≤ sizeLimit
  nonneg : ∀ step ∈ v.strides.steps, 0 ≤ step
  extent_le : extent v.shape.dims v.strides.steps ≤ sizeLimit
  step_le : ∀ step ∈ v.strides.steps, step ≤ 4 * sizeLimit
  step_le_of_rank : v.shape.dims.length ≠ 1 → ∀ step ∈ v.strides.steps, step ≤ 2 * sizeLimit

variable {v : View} {size : Nat}

/-- **A row-major layout of a moderate span is modest.** -/
theorem Modest.of_gapless (h : v.Gapless) (hspan : span v.shape.dims ≤ sizeLimit)
    (hoffset : v.offset ≤ sizeLimit) : v.Modest where
  rank_eq := h.rank_eq
  span_le := hspan
  offset_le := hoffset
  nonneg step hstep := by
    rw [h] at hstep
    exact (denseSteps_le_span step hstep).1
  extent_le := by
    have hlt := extent_denseSteps_lt v.shape.dims
    rw [h]
    omega
  step_le step hstep := by
    rw [h] at hstep
    have hle := denseSteps_le_span step hstep
    omega
  step_le_of_rank _ step hstep := by
    rw [h] at hstep
    have hle := denseSteps_le_span step hstep
    omega

/-- A moderate shape can be laid out row-major. -/
theorem contiguous_of_span {shape : Shape} (h : span shape.dims ≤ sizeLimit) :
    contiguous shape = .ok ⟨shape, ⟨denseSteps shape.dims⟩, 0⟩ :=
  contiguous_of_rowMajor (rowMajor_of_span (lt_of_le_of_lt h sizeLimit_lt_signedBound))

namespace Modest

theorem numel_eq (h : v.Modest) : v.numel = .ok (volume v.shape.dims) :=
  numel_of_span (lt_of_le_of_lt h.span_le sizeLimit_lt_sizeBound)

/-- A modest view has room. -/
theorem room (h : v.Modest) : Room v.shape.dims v.strides.steps v.offset where
  within_lt index hin := by
    have hd := displacement_le_extent h.nonneg hin
    have hextent := h.extent_le
    have hoffset := h.offset_le
    unfold sizeLimit at hextent hoffset
    unfold signedBound
    omega
  beyond_lt index hin := by
    have hd := displacement_le_of_beyond h.nonneg h.step_le (by omega) hin
    have hextent := h.extent_le
    have hoffset := h.offset_le
    unfold sizeLimit at hd hextent hoffset
    unfold signedBound
    omega
  way_lt p hp := by
    obtain ⟨dim, step⟩ := p
    have hmem := (List.of_mem_zip hp).2
    have hle := mul_le_extent _ h.nonneg _ hp
    have hextent := h.extent_le
    have hstep := h.step_le step hmem
    obtain ⟨n, rfl⟩ := Int.eq_ofNat_of_zero_le (h.nonneg step hmem)
    -- the way back is a stride longer than the axis adds to the extent
    have hway : dim * n ≤ (dim - 1) * n + n :=
      calc dim * n
          ≤ (dim - 1 + 1) * n := Nat.mul_le_mul_right n (by omega)
        _ = (dim - 1) * n + n := Nat.succ_mul _ _
    dsimp only at hle ⊢
    rw [← Int.natCast_mul] at hle
    rw [Int.natAbs_natCast]
    unfold sizeLimit at hextent hstep
    unfold signedBound
    omega

/-- **The walk over a modest view comes to its end.** -/
theorem fault_eq (h : v.Modest) : v.offsets.fault = none := by
  have hoffset : toSigned v.offset = v.offset :=
    toSigned_of_lt (lt_of_le_of_lt h.offset_le sizeLimit_lt_signedBound)
  apply fault_offsets h.rank_eq h.numel_eq
  rw [hoffset]
  exact h.room

/-- A modest view that lies in a buffer can be used on it. -/
theorem walks (h : v.Modest) (hb : v.InBounds size) : v.Walks size := ⟨h.rank_eq, hb, h.fault_eq⟩

end Modest

/-! ### Slicing -/

section Slicing

variable {slices : List Slice} {dims : List Nat} {steps : List Int} {offset : Int}

/-- Within the bounds slicing does not overflow: the offset moves towards the last element, and
a stride grows at most to the length of its axis. -/
theorem slice_ne_overflow (hlen : steps.length = dims.length)
    (hdims : ∀ dim ∈ dims, dim ≤ sizeLimit) (hnonneg : ∀ step ∈ steps, 0 ≤ step)
    (hextent : extent dims steps ≤ sizeLimit) (hstep : ∀ step ∈ steps, step ≤ 4 * sizeLimit)
    (hsmall : List.Forall₂ (fun s dim => s.step ≤ dim) slices dims)
    (hoffset : 0 ≤ offset ∧ offset + extent dims steps ≤ 2 * sizeLimit) :
    slice slices dims steps offset ≠ .error (.fault .overflow) := by
  induction hsmall generalizing steps offset with
  | nil => exact fun h => absurd h (by simp [slice])
  | @cons s dim slices dims hs _ ih =>
    obtain ⟨step, steps, rfl⟩ := List.exists_cons_of_length_eq_add_one hlen
    by_cases hfits : s.Fits dim
    -- a slice that does not fit is refused before anything is computed
    swap
    · rw [slice, if_neg hfits]
      exact fun h => absurd h (by simp [reject])
    have hdim := hdims dim List.mem_cons_self
    have hpos := hnonneg step List.mem_cons_self
    have hle := hstep step List.mem_cons_self
    have htail : ∀ z ∈ steps, 0 ≤ z := fun z hz => hnonneg z (List.mem_cons_of_mem _ hz)
    have hrest := extent_nonneg dims htail
    have hhead : 0 ≤ ((dim - 1 : Nat) : Int) * step := Int.mul_nonneg (Int.natCast_nonneg _) hpos
    have hwords := sizeLimit_lt_signedBound
    rw [extent_cons] at hextent hoffset
    -- the way to the first selected element
    have hway : 0 ≤ s.start * step ∧ s.start * step ≤ ((dim - 1 : Nat) : Int) * step := by
      obtain ⟨-, hstart, hstop⟩ := hfits
      exact ⟨Int.mul_nonneg (Int.natCast_nonneg _) hpos,
        Int.mul_le_mul_of_nonneg_right (by omega) hpos⟩
    -- the new stride
    have hstride0 : 0 ≤ step * s.step := Int.mul_nonneg hpos (Int.natCast_nonneg _)
    have hstride : step * s.step ≤ ((dim - 1 : Nat) : Int) * step + step :=
      calc step * s.step
          = s.step * step := Int.mul_comm _ _
        _ ≤ (((dim - 1 : Nat) : Int) + 1) * step :=
          Int.mul_le_mul_of_nonneg_right (by omega) hpos
        _ = ((dim - 1 : Nat) : Int) * step + step := by rw [Int.add_mul, Int.one_mul]
    have hstart : toSigned s.start = s.start := by
      obtain ⟨-, hstart, hstop⟩ := hfits
      exact toSigned_of_lt (by omega)
    have hs : toSigned s.step = s.step := toSigned_of_lt (by omega)
    -- so all that is computed on the way stays below five times the limit
    have hbounds : (5 * sizeLimit : Nat) < signedBound := by decide
    -- what the offset has moved by is no longer part of the extent
    have hroom : 0 ≤ offset + s.start * step ∧
        offset + s.start * step + extent dims steps ≤ 2 * sizeLimit := by omega
    have hnext := ih (Nat.succ.inj hlen) (fun d hd => hdims d (List.mem_cons_of_mem _ hd)) htail
      (by omega) (fun z hz => hstep z (List.mem_cons_of_mem _ hz)) hroom
    refine slice_cons_ne_overflow hfits ?_ ?_ ?_ ?_
    · rw [hstart]
      exact .of_natAbs (by omega)
    · rw [hstart]
      exact .of_natAbs (by omega)
    · rw [hs]
      exact .of_natAbs (by omega)
    · rwa [hstart]

/-- Slices select from as many elements as there are, on every axis. -/
theorem span_le_of_fits (h : List.Forall₂ Slice.Fits slices dims) :
    span (slices.map Slice.length) ≤ span dims := by
  induction h with
  | nil => exact le_rfl
  | @cons s dim slices dims hs _ ih =>
    -- there are at least as many indices before the last selected one as are selected before it
    have hlast := Slice.nth_lt hs (Nat.sub_lt (Slice.length_pos hs) Nat.one_pos)
    have hstop := hs.2.2
    have hle : s.length ≤ dim := by
      have hmul : s.length - 1 ≤ (s.length - 1) * s.step := Nat.le_mul_of_pos_right _ hs.1
      unfold Slice.nth at hlast
      omega
    rw [List.map_cons, span_cons, span_cons]
    exact Nat.mul_le_mul (by omega) ih

/-- The last selected element is no further from the first one than the last of all. -/
theorem extent_le_of_fits (hlen : steps.length = dims.length)
    (hnonneg : ∀ step ∈ steps, 0 ≤ step) (hdims : ∀ dim ∈ dims, dim ≤ sizeLimit)
    (hsmall : ∀ p ∈ slices.zip dims, p.1.step ≤ p.2)
    (h : List.Forall₂ Slice.Fits slices dims) :
    extent (slices.map Slice.length)
        (List.zipWith (fun slice step => step * toSigned slice.step) slices steps)
      ≤ extent dims steps := by
  induction h generalizing steps with
  | nil => exact extent_nonneg _ hnonneg
  | @cons s dim slices dims hs _ ih =>
    obtain ⟨step, steps, rfl⟩ := List.exists_cons_of_length_eq_add_one hlen
    have hrest := ih (Nat.succ.inj hlen) (fun z hz => hnonneg z (List.mem_cons_of_mem _ hz))
      (fun d hd => hdims d (List.mem_cons_of_mem _ hd))
      (fun p hp => hsmall p (List.mem_cons_of_mem _ hp))
    have hlast := Slice.nth_lt hs (Nat.sub_lt (Slice.length_pos hs) Nat.one_pos)
    -- a step is no longer than its axis, so it is read as what it is
    have hword : toSigned s.step = s.step := by
      have hstep := hsmall (s, dim) List.mem_cons_self
      have hdim := hdims dim List.mem_cons_self
      exact toSigned_of_lt (lt_of_le_of_lt (le_trans hstep hdim) sizeLimit_lt_signedBound)
    -- the last selected index is an index of the axis
    have hhead : ((s.length - 1 : Nat) : Int) * (step * s.step)
        ≤ ((dim - 1 : Nat) : Int) * step := by
      have hle : (s.length - 1) * s.step ≤ dim - 1 := by
        have hstop := hs.2.2
        unfold Slice.nth at hlast
        omega
      calc ((s.length - 1 : Nat) : Int) * (step * s.step)
          = (((s.length - 1) * s.step : Nat) : Int) * step := by
            rw [Int.natCast_mul, Int.mul_assoc, Int.mul_comm step]
        _ ≤ ((dim - 1 : Nat) : Int) * step :=
          Int.mul_le_mul_of_nonneg_right (Int.ofNat_le.2 hle) (hnonneg step List.mem_cons_self)
    rw [List.map_cons, List.zipWith_cons_cons, extent_cons, extent_cons, hword]
    omega

/-- **A stride grows at most to twice the extent**, or it stays as it is. -/
theorem stretch_le_of_fits (hlen : steps.length = dims.length)
    (hnonneg : ∀ step ∈ steps, 0 ≤ step) (hdims : ∀ dim ∈ dims, dim ≤ sizeLimit)
    (hsmall : ∀ p ∈ slices.zip dims, p.1.step ≤ p.2)
    (h : List.Forall₂ Slice.Fits slices dims) :
    ∀ z ∈ List.zipWith (fun slice step => step * toSigned slice.step) slices steps,
      0 ≤ z ∧ (z ≤ 2 * extent dims steps ∨ ∃ step ∈ steps, z ≤ step) := by
  induction h generalizing steps with
  | nil => simp
  | @cons s dim slices dims hs _ ih =>
    obtain ⟨step, steps, rfl⟩ := List.exists_cons_of_length_eq_add_one hlen
    have hpos := hnonneg step List.mem_cons_self
    have htail : ∀ z ∈ steps, 0 ≤ z := fun z hz => hnonneg z (List.mem_cons_of_mem _ hz)
    have hrest := ih (Nat.succ.inj hlen) htail (fun d hd => hdims d (List.mem_cons_of_mem _ hd))
      (fun p hp => hsmall p (List.mem_cons_of_mem _ hp))
    have hextent := extent_nonneg dims htail
    have hhead : 0 ≤ ((dim - 1 : Nat) : Int) * step := Int.mul_nonneg (Int.natCast_nonneg _) hpos
    have hstep := hsmall (s, dim) List.mem_cons_self
    have hword : toSigned s.step = s.step := by
      have hdim := hdims dim List.mem_cons_self
      exact toSigned_of_lt (lt_of_le_of_lt (le_trans hstep hdim) sizeLimit_lt_signedBound)
    intro z hz
    rw [List.zipWith_cons_cons, hword] at hz
    rw [extent_cons]
    rcases List.mem_cons.1 hz with rfl | hz
    · refine ⟨Int.mul_nonneg hpos (Int.natCast_nonneg _), ?_⟩
      dsimp only at hstep
      by_cases hone : dim ≤ 1
      · -- a step of one
        have hsone : s.step = 1 := by have hp := hs.1; omega
        refine .inr ⟨step, List.mem_cons_self, ?_⟩
        rw [hsone, Int.natCast_one, Int.mul_one]
      · -- a step is no longer than the axis, which is at most twice its last index
        have hmul : step * s.step ≤ 2 * (((dim - 1 : Nat) : Int) * step) :=
          calc step * s.step
              = s.step * step := Int.mul_comm _ _
            _ ≤ 2 * ((dim - 1 : Nat) : Int) * step :=
              Int.mul_le_mul_of_nonneg_right (by omega) hpos
            _ = 2 * (((dim - 1 : Nat) : Int) * step) := Int.mul_assoc _ _ _
        exact .inl (by omega)
    · obtain ⟨hz0, hz | ⟨old, hold, hz⟩⟩ := hrest z hz
      · exact ⟨hz0, .inl (by omega)⟩
      · exact ⟨hz0, .inr ⟨old, List.mem_cons_of_mem _ hold, hz⟩⟩

end Slicing

theorem forall₂_of_zip {slices : List Slice} {dims : List Nat} (hlen : slices.length = dims.length)
    (h : ∀ p ∈ slices.zip dims, p.1.step ≤ p.2) :
    List.Forall₂ (fun s dim => s.step ≤ dim) slices dims :=
  List.forall₂_iff_zip.2 ⟨hlen, fun hp => h _ hp⟩

/-! ### Sound views -/

/-- **A view that cannot go wrong** on a buffer of `size` cells: it is modest, its elements lie
in the buffer, and no two of them share a cell. -/
structure Sound (v : View) (size : Nat) : Prop extends v.Modest where
  size_le : size ≤ sizeLimit
  inBounds : v.InBounds size
  distinct : v.Distinct

/-- A sound view can be used on its buffer. -/
theorem Sound.walks (h : v.Sound size) : v.Walks size := h.toModest.walks h.inBounds

/-- A fresh row-major layout is sound on a buffer that holds exactly its elements. -/
theorem Sound.of_gapless (h : v.Gapless) (hspan : span v.shape.dims ≤ sizeLimit)
    (hzero : v.offset = 0) : v.Sound (volume v.shape.dims) where
  toModest := .of_gapless h hspan (by omega)
  size_le := le_trans (volume_le_span _) hspan
  inBounds := h.inBounds (by omega)
  distinct := h.distinct

theorem dim_le_sizeLimit (h : v.Modest) : ∀ dim ∈ v.shape.dims, dim ≤ sizeLimit :=
  fun _ hdim => le_trans (le_span hdim) h.span_le

end View

/-- **No slice steps further than its axis is long.** -/
def Subscription.StepsWithin (s : Subscription) (shape : Shape) : Prop :=
  ∀ p ∈ s.slices.zip shape.dims, p.1.step ≤ p.2

instance (s : Subscription) (shape : Shape) : Decidable (s.StepsWithin shape) :=
  inferInstanceAs (Decidable (∀ p ∈ s.slices.zip shape.dims, _))

namespace View

variable {v : View} {size : Nat}

/-- **A subview of a modest view does not overflow.** -/
theorem Modest.subview_ne_overflow {s : Subscription} (h : v.Modest)
    (hs : s.StepsWithin v.shape) : v.subview s ≠ .error (.fault .overflow) := by
  have hoffset : toSigned v.offset = v.offset :=
    toSigned_of_lt (lt_of_le_of_lt h.offset_le sizeLimit_lt_signedBound)
  -- the offset is at most the limit, and so is the extent
  have hroom : 0 ≤ toSigned v.offset ∧
      toSigned v.offset + extent v.shape.dims v.strides.steps ≤ 2 * sizeLimit := by
    have hextent := h.extent_le
    have hle := h.offset_le
    omega
  exact View.subview_ne_overflow fun hrank =>
    slice_ne_overflow h.rank_eq (dim_le_sizeLimit h) h.nonneg h.extent_le h.step_le
      (forall₂_of_zip hrank hs) hroom

/-- What a subscription picks from a sound view is sound. -/
theorem Sound.of_subview {s : Subscription} {part : View} (h : v.Sound size)
    (hs : s.StepsWithin v.shape) (hpart : v.subview s = .ok part) : part.Sound size := by
  have hsize : size ≤ signedBound := le_trans h.size_le sizeLimit_lt_signedBound.le
  obtain ⟨-, hfits, hshape, hstrides, hp⟩ := partOf_of_subview h.rank_eq h.inBounds hsize hpart
  have hdims := dim_le_sizeLimit h.toModest
  have hbounds := hp.inBounds h.inBounds
  have hextent := h.extent_le
  have hpos : ∀ dim ∈ part.shape.dims, 0 < dim := by
    rw [hshape]
    exact length_pos_of_fits hfits
  -- the new strides are bounded by the old extent, or by the old strides
  have hstretch : ∀ z ∈ part.strides.steps,
      0 ≤ z ∧ (z ≤ 2 * extent v.shape.dims v.strides.steps ∨
        ∃ step ∈ v.strides.steps, z ≤ step) := by
    rw [hstrides]
    exact stretch_le_of_fits h.rank_eq h.nonneg hdims hs hfits
  exact
    { rank_eq := hp.rank_eq
      span_le := by
        rw [hshape]
        exact le_trans (span_le_of_fits hfits) h.span_le
      -- a slice that fits selects something, and the first of it lies in the buffer
      offset_le := le_trans (hbounds.offset_lt hpos).le h.size_le
      nonneg := fun z hz => (hstretch z hz).1
      extent_le := by
        rw [hshape, hstrides]
        exact le_trans (extent_le_of_fits h.rank_eq h.nonneg hdims hs hfits) h.extent_le
      step_le := by
        intro z hz
        obtain ⟨-, hle | ⟨step, hstep, hle⟩⟩ := hstretch z hz
        · omega
        · exact le_trans hle (h.step_le step hstep)
      step_le_of_rank := by
        -- slicing keeps the number of axes
        intro hrank z hz
        have hrank' : v.shape.dims.length ≠ 1 := by
          rw [hshape, Subscription.shape, List.length_map, hfits.length_eq] at hrank
          exact hrank
        obtain ⟨-, hle | ⟨step, hstep, hle⟩⟩ := hstretch z hz
        · omega
        · exact le_trans hle (h.step_le_of_rank hrank' step hstep)
      size_le := h.size_le
      inBounds := hbounds
      distinct := hp.distinct h.distinct }

/-- **A subview of a sound view is sound**, and the only subviews that are refused are those
that the shape calls for. -/
theorem Sound.subview {s : Subscription} (h : v.Sound size) (hs : s.StepsWithin v.shape) :
    (∃ e, v.subview s = reject (.invalidSubview e) ∧ s.refusal? v.shape = some e) ∨
      ∃ part, v.subview s = .ok part ∧ s.refusal? v.shape = none ∧ part.shape = s.shape ∧
        part.Sound size := by
  have hsize : size ≤ signedBound := le_trans h.size_le sizeLimit_lt_signedBound.le
  rcases subview_cases h.rank_eq h.inBounds hsize s with
    hf | hrefused | ⟨part, hpart, hnone, hshape, -⟩
  · -- a slice that steps no further than its axis is long does not overflow
    exact absurd hf (h.subview_ne_overflow hs)
  · exact .inl hrefused
  · exact .inr ⟨part, hpart, hnone, hshape, h.of_subview hs hpart⟩

open Diagonal in
/-- The cells of a diagonal of a sound matrix make a sound view. -/
theorem Sound.of_diagonal {part : View} {rows cols : Nat} {down right k : Int}
    (h : v.Sound size) (hdims : v.shape.dims = [rows, cols])
    (hsteps : v.strides.steps = [down, right]) (hshape : part.shape = ⟨[lengthOf rows cols k]⟩)
    (hstrides : part.strides = ⟨[down + right]⟩)
    (hempty : lengthOf rows cols k = 0 → part.offset = v.offset)
    (hp : part.PartOf v (indexOf k)) : part.Sound size := by
  -- a matrix has the smaller strides, since it has more than one axis
  have hrank : v.shape.dims.length ≠ 1 := by rw [hdims]; simp
  have hmem : ∀ {z : Int}, z = down ∨ z = right → z ∈ v.strides.steps := by
    intro z hz
    rw [hsteps]
    simpa using hz
  have hdown0 := h.nonneg down (hmem (.inl rfl))
  have hright0 := h.nonneg right (hmem (.inr rfl))
  have hdown := h.step_le_of_rank hrank down (hmem (.inl rfl))
  have hright := h.step_le_of_rank hrank right (hmem (.inr rfl))
  have hrows : lengthOf rows cols k ≤ rows := by unfold lengthOf; omega
  have hcols : lengthOf rows cols k ≤ cols := by unfold lengthOf; omega
  have hbounds := hp.inBounds h.inBounds
  exact
    { rank_eq := hp.rank_eq
      span_le := by
        have hle : rows ≤ span v.shape.dims := le_span (by rw [hdims]; exact List.mem_cons_self)
        have hone := span_pos v.shape.dims
        have hspan := h.span_le
        rw [hshape, span_cons, span_nil]
        omega
      offset_le := by
        by_cases hzero : lengthOf rows cols k = 0
        · rw [hempty hzero]
          exact h.offset_le
        · have hpos : ∀ dim ∈ part.shape.dims, 0 < dim := by
            rw [hshape]
            simpa using Nat.pos_of_ne_zero hzero
          exact le_trans (hbounds.offset_lt hpos).le h.size_le
      nonneg := by
        rw [hstrides]
        simpa using Int.add_nonneg hdown0 hright0
      extent_le := by
        -- a step along the diagonal is one along both axes
        have hextent := h.extent_le
        rw [hdims, hsteps, extent_cons, extent_cons, extent_nil] at hextent
        have hd : ((lengthOf rows cols k - 1 : Nat) : Int) * down
            ≤ ((rows - 1 : Nat) : Int) * down :=
          Int.mul_le_mul_of_nonneg_right (by omega) hdown0
        have hr : ((lengthOf rows cols k - 1 : Nat) : Int) * right
            ≤ ((cols - 1 : Nat) : Int) * right :=
          Int.mul_le_mul_of_nonneg_right (by omega) hright0
        rw [hshape, hstrides, extent_cons, extent_nil, Int.mul_add]
        omega
      step_le := by
        rw [hstrides]
        intro z hz
        obtain rfl : z = down + right := by simpa using hz
        omega
      step_le_of_rank := by
        rw [hshape]
        exact fun hone => absurd rfl hone
      size_le := h.size_le
      inBounds := hbounds
      distinct := hp.distinct h.distinct }

end View

/-! ### Diagonals -/

namespace NDArray

variable {a : NDArray} {size : Nat}

/-- **A diagonal of a modest view does not overflow.** -/
theorem diagonal_ne_overflow (h : a.view.Modest) (k : Int) :
    a.diagonal k ≠ .error (.fault .overflow) := by
  obtain ⟨storage, ⟨⟨dims⟩, ⟨steps⟩, offset⟩, dt, device⟩ := a
  have hrank := h.rank_eq
  have hextent := h.extent_le
  have hsteps := h.step_le_of_rank
  have hnonneg := h.nonneg
  have hdims := View.dim_le_sizeLimit h
  have hmul := mul_le_extent dims h.nonneg
  dsimp only at hrank hextent hsteps hnonneg hdims hmul
  suffices hw : Diagonal.window ⟨dims⟩ ⟨steps⟩ k ≠ .error (.fault .overflow) from
    fun he => hw (window_of_diagonal_overflow he)
  by_cases hlen : dims.length = 2
  swap
  · rw [Diagonal.window_of_rank_ne hlen]
    exact fun he => absurd he (by simp [reject])
  obtain ⟨rows, cols, rfl⟩ := List.length_eq_two.1 hlen
  obtain ⟨down, right, rfl⟩ := List.length_eq_two.1 (hrank.trans hlen)
  -- two strides of a matrix add up to at most four times the limit
  have hwords : (4 * sizeLimit : Nat) < signedBound := by decide
  have hdown := hsteps (by simp) down List.mem_cons_self
  have hright := hsteps (by simp) right (List.mem_cons_of_mem _ List.mem_cons_self)
  have hdown0 := hnonneg down List.mem_cons_self
  have hright0 := hnonneg right (List.mem_cons_of_mem _ List.mem_cons_self)
  have hrows := hdims rows List.mem_cons_self
  have hcols := hdims cols (List.mem_cons_of_mem _ List.mem_cons_self)
  have hrowsway := hmul (rows, down) List.mem_cons_self
  have hcolsway := hmul (cols, right) (List.mem_cons_of_mem _ List.mem_cons_self)
  -- the first cell of a diagonal lies at most the extent away
  have hway : ∀ {dim : Nat} {step : Int}, dim ≤ sizeLimit → 0 ≤ step →
      ((dim - 1 : Nat) : Int) * step ≤ extent [rows, cols] [down, right] →
      k.natAbs < dim → SignedWord (toSigned k.natAbs * step) := by
    intro dim step hdim hstep hway hk
    have hle : (k.natAbs : Int) * step ≤ ((dim - 1 : Nat) : Int) * step :=
      Int.mul_le_mul_of_nonneg_right (by omega) hstep
    have hpos : 0 ≤ (k.natAbs : Int) * step := Int.mul_nonneg (Int.natCast_nonneg _) hstep
    have hword : toSigned k.natAbs = k.natAbs := toSigned_of_lt (by omega)
    rw [hword]
    exact .of_natAbs (by omega)
  exact Diagonal.window_ne_overflow (.of_natAbs (by omega)) (hway hcols hright0 hcolsway)
    (hway hrows hdown0 hrowsway)

/-- **A diagonal of a sound view is sound**, and every matrix has all its diagonals. -/
theorem sound_diagonal (h : a.view.Sound size) (k : Int) :
    (a.view.shape.dims.length ≠ 2 ∧
        a.diagonal k = reject (.diagonal (.notMatrix a.view.shape.dims.length))) ∨
      (a.view.shape.dims.length = 2 ∧
        ∃ part, a.diagonal k = .ok (a.withView part) ∧ part.Sound size) := by
  have hsize : size ≤ signedBound := le_trans h.size_le sizeLimit_lt_signedBound.le
  have hoffset : a.view.offset < sizeBound := lt_of_le_of_lt h.offset_le sizeLimit_lt_sizeBound
  -- the operation is refused or makes a part, and a part of a sound view is sound
  rcases diagonal_cases h.rank_eq h.inBounds hsize hoffset k with
    hrefused | ⟨rows, cols, down, right, hdims, hsteps, hcases⟩
  · exact .inl hrefused
  rcases hcases with hf | ⟨part, hpart, hshape, hstrides, hempty, hp⟩
  · exact absurd hf (diagonal_ne_overflow h.toModest k)
  have hrank : a.view.shape.dims.length = 2 := by rw [hdims]; rfl
  exact .inr ⟨hrank, part, hpart, h.of_diagonal hdims hsteps hshape hstrides hempty hp⟩

/-! ### Reshapes -/

/-- **What a reshape answers** where neither shape overflows: the number of elements is checked
first, and then the layout. -/
theorem reshape_eq {shape : Shape} {n m : Nat} {own target : Strides} (hown : a.numel = .ok n)
    (hrow : rowMajor a.shape = .ok own) (hnumel : shape.numel = .ok m)
    (htarget : rowMajor shape = .ok target) :
    a.reshape shape =
      if m = n then
        if a.strides = own then .ok (a.withView ⟨shape, target, a.offset⟩)
        else reject (.notContiguous a.view)
      else reject (.shapeMismatch a.shape shape) := by
  have hcontiguous : a.isContiguous = .ok (a.strides == own) := View.isContiguous_of_rowMajor hrow
  unfold reshape
  simp only [Answer.liftM_checked]
  rw [hnumel, hown, hcontiguous, htarget]
  simp only [Checked.lift_ok, Checked.ok_bind, beq_iff_eq]
  -- the checks are made in this order
  by_cases hcount : m = n
  · rw [if_pos hcount, if_pos hcount]
    by_cases hsteps : a.strides = own
    · rw [if_pos hsteps, if_pos hsteps]
      rfl
    · rw [if_neg hsteps, if_neg hsteps]
      rfl
  · rw [if_neg hcount, if_neg hcount]
    rfl

/-- **A reshape of a sound view is sound**, if the new shape has a moderate span. It keeps the
block of cells. -/
theorem sound_reshape {shape : Shape} (h : a.view.Sound size)
    (hspan : span shape.dims ≤ sizeLimit) :
    (∃ e, a.reshape shape = reject e) ∨
      ∃ v, a.reshape shape = .ok (a.withView v) ∧ v.shape = shape ∧ v.Sound size := by
  have hnumel : shape.numel = .ok (volume shape.dims) :=
    numel_of_span (lt_of_le_of_lt hspan sizeLimit_lt_sizeBound)
  have hold : a.numel = .ok (volume a.view.shape.dims) := h.numel_eq
  have hrow : rowMajor a.shape = .ok ⟨denseSteps a.view.shape.dims⟩ :=
    rowMajor_of_span (lt_of_le_of_lt h.span_le sizeLimit_lt_signedBound)
  have hstrides := rowMajor_of_span (lt_of_le_of_lt hspan sizeLimit_lt_signedBound)
  rw [reshape_eq hold hrow hnumel hstrides]
  by_cases hvolume : volume shape.dims = volume a.view.shape.dims
  swap
  · rw [if_neg hvolume]
    exact .inl ⟨_, rfl⟩
  rw [if_pos hvolume]
  by_cases hsteps : a.strides = ⟨denseSteps a.view.shape.dims⟩
  swap
  · rw [if_neg hsteps]
    exact .inl ⟨_, rfl⟩
  rw [if_pos hsteps]
  refine .inr ⟨_, rfl, rfl, ?_⟩
  -- the layout that was accepted is the dense one
  have hgapless : a.view.Gapless := congrArg Strides.steps hsteps
  have hnew : (View.mk shape ⟨denseSteps shape.dims⟩ a.offset).Gapless := rfl
  refine ⟨.of_gapless hnew hspan h.offset_le, h.size_le, ?_, hnew.distinct⟩
  -- both views have the same positions
  have hin := h.inBounds
  unfold View.InBounds at hin ⊢
  rw [View.positions_of_gapless hgapless] at hin
  rw [View.positions_of_gapless hnew]
  dsimp only
  rw [hvolume]
  exact hin

end NDArray

end Strided
