import Strided.Shape
import Strided.Proofs.Run
import Mathlib.Algebra.BigOperators.Group.List.Basic
import Mathlib.Algebra.Order.BigOperators.Ring.List
import Mathlib.Algebra.Order.Group.Nat
import Mathlib.Algebra.Order.Ring.Nat

/-!
# Element counts and row-major strides

`Shape.numel` and `Strides.rowMajor` multiply sizes under the rules of a 64-bit machine. What
they give when they give anything, and when they do, is stated here in exact arithmetic:

* `Shape.eq_volume_of_numel` — an element count is the product of the sizes;
* `Shape.numel_of_span` and `Strides.rowMajor_of_span` — both exist when the *span* of the
  shape is small enough, and the strides are then the exact ones, `denseSteps`;
* `Strides.rowMajor_of_suffixes` and `Strides.rowMajor_of_large` — more exactly, the strides exist
  if and only if the sizes from each axis on multiply to a signed word.

The span counts an empty axis as one of size one. It bounds every partial product that either
function forms, from whichever end it starts, which the element count itself does not: an
empty axis makes that zero and leaves the other axes free.
-/

namespace Strided

namespace Shape

@[simp] theorem volume_nil : volume [] = 1 := rfl

@[simp] theorem volume_cons (dim : Nat) (dims : List Nat) :
    volume (dim :: dims) = dim * volume dims := rfl

/-- A volume is the product of a list, as the library has it. -/
theorem volume_eq_prod (dims : List Nat) : volume dims = dims.prod := by
  induction dims with
  | nil => rfl
  | cons dim dims ih => rw [volume_cons, List.prod_cons, ih]

/-- The axes of two shapes in a row multiply. -/
theorem volume_append (dims later : List Nat) :
    volume (dims ++ later) = volume dims * volume later := by
  simp only [volume_eq_prod, List.prod_append]

theorem volume_replicate (n dim : Nat) : volume (List.replicate n dim) = dim ^ n := by
  rw [volume_eq_prod, List.prod_replicate]

/-- The order of the axes does not matter to the number of elements. -/
theorem volume_reverse (dims : List Nat) : volume dims.reverse = volume dims := by
  rw [volume_eq_prod, volume_eq_prod, List.prod_reverse]

/-- There are elements exactly when no axis is empty. -/
theorem volume_pos_iff {dims : List Nat} : 0 < volume dims ↔ ∀ dim ∈ dims, 0 < dim := by
  rw [volume_eq_prod]
  -- among natural numbers a product is positive when every factor is
  exact CanonicallyOrderedAdd.list_prod_pos

/-- The product of the sizes, empty axes counted as axes of size one. -/
def span (dims : List Nat) : Nat := volume (dims.map (max · 1))

@[simp] theorem span_nil : span [] = 1 := rfl

@[simp] theorem span_cons (dim : Nat) (dims : List Nat) :
    span (dim :: dims) = max dim 1 * span dims := rfl

theorem span_append (dims later : List Nat) : span (dims ++ later) = span dims * span later := by
  rw [span, List.map_append, volume_append, span, span]

theorem span_pos (dims : List Nat) : 0 < span dims := by
  refine volume_pos_iff.2 fun d hd => ?_
  obtain ⟨dim, -, rfl⟩ := List.mem_map.1 hd
  exact Nat.lt_of_lt_of_le Nat.one_pos (le_max_right dim 1)

/-- There are no more elements than the shape spans. -/
theorem volume_le_span (dims : List Nat) : volume dims ≤ span dims := by
  induction dims with
  | nil => exact le_rfl
  | cons dim dims ih => exact Nat.mul_le_mul (le_max_left dim 1) ih

/-- A shape without an empty axis spans its elements. -/
theorem span_eq_volume {dims : List Nat} (h : ∀ dim ∈ dims, 0 < dim) :
    span dims = volume dims := by
  rw [span, List.map_congr_left fun dim hdim => max_eq_left (h dim hdim), List.map_id']

/-- Empty axes add nothing to the span. -/
theorem span_eq_volume_filter (dims : List Nat) : span dims = volume (dims.filter (· ≠ 0)) := by
  induction dims with
  | nil => rfl
  | cons dim dims ih =>
    rw [span_cons, ih]
    -- an empty axis counts as a factor of one, like one that is left out
    by_cases hzero : dim = 0
    · rw [List.filter_cons_of_neg (by simpa using hzero), hzero, Nat.zero_max, Nat.one_mul]
    · rw [List.filter_cons_of_pos (by simpa using hzero), volume_cons,
        Nat.max_eq_left (Nat.pos_of_ne_zero hzero)]

/-- What the axes after the first span. -/
theorem span_tail_le (dim : Nat) (dims : List Nat) : span dims ≤ span (dim :: dims) :=
  Nat.le_mul_of_pos_left _ (Nat.lt_of_lt_of_le Nat.one_pos (le_max_right dim 1))

/-- The axes from any one on span no more than all of them. -/
theorem span_le_of_suffix {later dims : List Nat} (h : later <:+ dims) :
    span later ≤ span dims := by
  induction dims with
  | nil => rw [List.suffix_nil.1 h]
  | cons dim dims ih =>
    rcases List.suffix_cons_iff.1 h with rfl | h
    · exact le_rfl
    · exact (ih h).trans (span_tail_le dim dims)

/-- No axis is longer than the span. -/
theorem le_span {dims : List Nat} {dim : Nat} (h : dim ∈ dims) : dim ≤ span dims := by
  induction dims with
  | nil => exact absurd h (by simp)
  | cons d dims ih =>
    -- the later axes only multiply the first, and it only multiplies them
    rcases List.mem_cons.1 h with rfl | h
    · exact le_trans (le_max_left dim 1) (Nat.le_mul_of_pos_right _ (span_pos dims))
    · exact le_trans (ih h) (span_tail_le d dims)

/-! ### The number of elements -/

/-- A product that is built up from `acc` is that many times the volume. -/
private theorem foldlM_eq_ok {dims : List Nat} {acc n : Nat}
    (h : dims.foldlM (fun n dim => checkSize (n * dim)) acc = .ok n) :
    n = acc * volume dims := by
  induction dims generalizing acc with
  | nil =>
    obtain rfl : acc = n := Except.ok.inj h
    rw [volume_nil, Nat.mul_one]
  | cons dim dims ih =>
    rw [List.foldlM_cons, Checked.bind_eq_ok] at h
    obtain ⟨m, hm, h⟩ := h
    -- a product that is a size is exact
    obtain ⟨-, rfl⟩ := checkSize_eq_ok_iff.1 hm
    rw [ih h, volume_cons, Nat.mul_assoc]

/-- **An element count is the product of the sizes.** -/
theorem eq_volume_of_numel {s : Shape} {n : Nat} (h : s.numel = .ok n) : n = volume s.dims := by
  rw [foldlM_eq_ok h, Nat.one_mul]

/-- It is built up if no partial product, empty axes counted as one, leaves the range. -/
private theorem foldlM_of_span (dims : List Nat) {acc : Nat} (h : acc * span dims < sizeBound) :
    dims.foldlM (fun n dim => checkSize (n * dim)) acc = .ok (acc * volume dims) := by
  induction dims generalizing acc with
  | nil =>
    rw [volume_nil, Nat.mul_one]
    rfl
  | cons dim dims ih =>
    -- an empty axis makes the count zero, but leaves the span as it is
    have hle : acc * dim * span dims ≤ acc * span (dim :: dims) :=
      calc acc * dim * span dims
          ≤ acc * max dim 1 * span dims :=
            Nat.mul_le_mul_right _ (Nat.mul_le_mul_left _ (le_max_left dim 1))
        _ = acc * span (dim :: dims) := Nat.mul_assoc acc (max dim 1) _
    have hacc : acc * dim < sizeBound :=
      lt_of_le_of_lt (Nat.le_mul_of_pos_right _ (span_pos dims)) (lt_of_le_of_lt hle h)
    rw [List.foldlM_cons, checkSize_eq_ok_iff.2 ⟨hacc, rfl⟩, Checked.ok_bind,
      ih (lt_of_le_of_lt hle h), volume_cons, Nat.mul_assoc]

/-- **A shape whose span is a size has an element count.** -/
theorem numel_of_span {s : Shape} (h : span s.dims < sizeBound) :
    s.numel = .ok (volume s.dims) := by
  have hone : 1 * span s.dims < sizeBound := by rwa [Nat.one_mul]
  have hs := foldlM_of_span s.dims hone
  rwa [Nat.one_mul] at hs

end Shape

namespace Strides

open Shape

/-! ### Row-major strides -/

/-- **The strides of a gapless layout**, in exact arithmetic: along an axis lie blocks of as
many elements as the axes after it have. -/
def denseSteps : List Nat → List Int
  | [] => []
  | _ :: dims => (volume dims : Int) :: denseSteps dims

@[simp] theorem denseSteps_cons (dim : Nat) (dims : List Nat) :
    denseSteps (dim :: dims) = (volume dims : Int) :: denseSteps dims := rfl

@[simp] theorem length_denseSteps (dims : List Nat) :
    (denseSteps dims).length = dims.length := by
  induction dims with
  | nil => rfl
  | cons dim dims ih => rw [denseSteps_cons, List.length_cons, ih, List.length_cons]

/-- Entry by entry: the product of the sizes of the later axes. -/
theorem getElem?_denseSteps {dims : List Nat} {i : Nat} (h : i < dims.length) :
    (denseSteps dims)[i]? = some (volume (dims.drop (i + 1)) : Int) := by
  induction dims generalizing i with
  | nil => exact absurd h (by simp)
  | cons dim dims ih =>
    cases i with
    | zero => rfl
    | succ i => exact ih (Nat.lt_of_succ_lt_succ h)

/-- The block of an axis is as long as the volume from that axis on. -/
private theorem volume_mul_cast (dim : Nat) (dims : List Nat) :
    (volume dims : Int) * dim = (volume (dim :: dims) : Nat) := by
  rw [volume_cons, Nat.mul_comm]
  exact (Int.natCast_mul _ _).symm

/-- The blocks are built up from the last axis on, so what they need is that the later axes fit,
from each axis on. -/
private theorem rowMajorBlock_of_suffixes {dims : List Nat}
    (hdims : ∀ dim ∈ dims, dim < signedBound)
    (hfit : ∀ later, later <:+ dims → volume later < signedBound) :
    rowMajorBlock dims = .ok ((volume dims : Int), denseSteps dims) := by
  induction dims with
  | nil => rfl
  | cons dim dims ih =>
    -- the whole list is one of the suffixes
    have hvol : volume (dim :: dims) < signedBound := hfit _ List.suffix_rfl
    have hcheck : checkSigned ((volume (dim :: dims) : Nat) : Int)
        = .ok ((volume (dim :: dims) : Nat) : Int) :=
      checkSigned_eq_ok_iff.2 ⟨⟨by omega, by omega⟩, rfl⟩
    have hlater := ih (fun d hd => hdims d (List.mem_cons_of_mem _ hd))
      fun later hsuffix => hfit later (hsuffix.trans (List.suffix_cons dim dims))
    rw [rowMajorBlock, hlater, Checked.ok_bind]
    dsimp only
    rw [toSigned_of_lt (hdims dim List.mem_cons_self), volume_mul_cast, hcheck]
    rfl

/-- The first block from behind that does not fit ends the computation. -/
private theorem rowMajorBlock_of_large {dims later : List Nat}
    (hdims : ∀ dim ∈ dims, dim < signedBound) (hsuffix : later <:+ dims)
    (hlarge : signedBound ≤ volume later) : rowMajorBlock dims = .error .overflow := by
  induction dims generalizing later with
  | nil =>
    obtain rfl := List.suffix_nil.1 hsuffix
    exact absurd hlarge (by decide)
  | cons dim dims ih =>
    have hrest : ∀ d ∈ dims, d < signedBound := fun d hd => hdims d (List.mem_cons_of_mem _ hd)
    by_cases hfit : ∀ rest, rest <:+ dims → volume rest < signedBound
    · -- the later axes have a block, so it is the whole list that is too large
      obtain rfl : later = dim :: dims := (List.suffix_cons_iff.1 hsuffix).resolve_right
        fun hrest => absurd (hfit later hrest) (Nat.not_lt.2 hlarge)
      have hcheck : checkSigned ((volume (dim :: dims) : Nat) : Int) = .error .overflow :=
        if_neg (by omega)
      rw [rowMajorBlock, rowMajorBlock_of_suffixes hrest hfit, Checked.ok_bind]
      dsimp only
      rw [toSigned_of_lt (hdims dim List.mem_cons_self), volume_mul_cast, hcheck]
      rfl
    · push Not at hfit
      -- a later suffix is too large already
      obtain ⟨rest, hsuffix, hlarge⟩ := hfit
      rw [rowMajorBlock, ih hrest hsuffix hlarge]
      rfl

/-- The recursion adds a stride for every axis. -/
private theorem length_of_rowMajorBlock {dims : List Nat} {block : Int} {steps : List Int}
    (h : rowMajorBlock dims = .ok (block, steps)) : steps.length = dims.length := by
  induction dims generalizing block steps with
  | nil =>
    obtain ⟨-, rfl⟩ := Prod.mk.inj (Except.ok.inj h)
    rfl
  | cons dim dims ih =>
    rw [rowMajorBlock, Checked.bind_eq_ok] at h
    obtain ⟨⟨b, later⟩, hlater, h⟩ := h
    rw [Checked.bind_eq_ok] at h
    obtain ⟨p, -, h⟩ := h
    obtain ⟨-, rfl⟩ := Prod.mk.inj (Except.ok.inj h)
    rw [List.length_cons, List.length_cons, ih hlater]

/-- There is a stride for every axis. -/
theorem length_of_rowMajor {s : Shape} {strides : Strides} (h : rowMajor s = .ok strides) :
    strides.steps.length = s.dims.length := by
  rw [rowMajor, Checked.bind_eq_ok] at h
  obtain ⟨⟨block, steps⟩, hblock, h⟩ := h
  rw [← Except.ok.inj h]
  exact length_of_rowMajorBlock hblock

/-- **Sizes that multiply to a signed word from every axis on** have row-major strides, the exact
ones. -/
theorem rowMajor_of_suffixes {s : Shape} (hdims : ∀ dim ∈ s.dims, dim < signedBound)
    (hfit : ∀ later, later <:+ s.dims → volume later < signedBound) :
    rowMajor s = .ok ⟨denseSteps s.dims⟩ := by
  rw [rowMajor, rowMajorBlock_of_suffixes hdims hfit]
  rfl

/-- **Sizes whose product leaves the range from some axis on** have none, even if an axis before
that one is empty. -/
theorem rowMajor_of_large {s : Shape} {later : List Nat}
    (hdims : ∀ dim ∈ s.dims, dim < signedBound) (hsuffix : later <:+ s.dims)
    (hlarge : signedBound ≤ volume later) : rowMajor s = .error .overflow := by
  rw [rowMajor, rowMajorBlock_of_large hdims hsuffix hlarge]
  rfl

/-- **A shape whose span is a signed word has row-major strides**, the exact ones. -/
theorem rowMajor_of_span {s : Shape} (h : span s.dims < signedBound) :
    rowMajor s = .ok ⟨denseSteps s.dims⟩ :=
  rowMajor_of_suffixes (fun _ hdim => lt_of_le_of_lt (le_span hdim) h) fun later hsuffix =>
    lt_of_le_of_lt ((volume_le_span later).trans (span_le_of_suffix hsuffix)) h

end Strides

end Strided
