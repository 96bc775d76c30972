import Strided.Proofs.NDArray.Diagonals
import Strided.Proofs.NDArray.Fresh
import Strided.Proofs.View.Consecutive
import Strided.Proofs.View.Places

/-!
# Row-major layouts, exactly

A shape has row-major strides as long as the products that make them are signed words. There is a
product for every axis, that of the sizes from this axis on, and one of them may leave the range
although the element count is zero: an empty axis absorbs the sizes of the axes after it in
`Shape.numel`, which begins with the first axis, but not in `Strides.rowMajor`, which begins with
the last one. So the condition is on the suffixes of the list of sizes, and it is exact
(`Strides.rowMajor_of_suffixes`, `Strides.rowMajor_of_large`).

Without an empty axis the layout is dense. The positions are the numbers below the element count,
in order, and every one belongs to one multi-index (`Strides.displacement_bijOn`); hence an array
that is made of given elements shows them. `NDArray.row_major_exact_and_dense` puts this together.
The elements of an array with any other layout are read in this order too
(`NDArray.spells_of_toList`).
-/

namespace Strided

open Shape Strides

namespace NDArray

/-! ### Elements by multi-index -/

/-- **The element at a multi-index.** -/
def elementAt (a : NDArray) (cells : Array a.dt.Elem) (index : List Nat) : a.dt.Elem :=
  (a.view.element? cells index).getD default

/-- **What is read are the elements** in row-major order, whatever the layout is. -/
theorem spells_of_toList {s : Store} {a : NDArray} {cells : Array a.dt.Elem} {xs : List a.dt.Elem}
    (hbuf : a.Backed s cells) (hfits : (Buffer.mk a.dt cells).Fits)
    (hwalks : a.view.Walks cells.size) (hxs : a.toList s a.dt = .ok xs) :
    Spells a.shape.dims (a.elementAt cells) xs where
  length_eq := (of_toList hxs).2.2.1
  get_eq := fun index hin => by
    -- the element exists, so the default of `elementAt` is never shown
    obtain ⟨x, hx⟩ := hwalks.inBounds.exists_element? hin
    rw [getElem?_of_toList hbuf hwalks.rank_eq hwalks.inBounds hfits.size_le hxs hin
      (displacement_denseSteps _ _), hx, elementAt, hx, Option.getD_some]

/-! ### Arrays of given elements -/

variable {shape : Shape} {v : View} {b : Buffer}

/-- Elements with memory of their own, as many as the shape has, become an array of it. -/
theorem ofArray_eq (hnumel : shape.numel = .ok b.size) (hview : View.contiguous shape = .ok v)
    (hfits : b.Fits) (device : Device) (w : World) :
    ofArray b shape device w = (.ok ⟨w.store.nextId, v, b.dt, device⟩,
      { w with store := w.store.push b }) := by
  unfold ofArray
  rw [Action.bind_checked_ok hnumel]
  dsimp only
  rw [if_pos rfl, Action.bind_checked_ok (DType.checkCapacity_eq_ok_iff.2 hfits)]
  exact ofBuffer_eq_ok.2 ⟨⟨_, hnumel⟩, v, hview, rfl, rfl⟩

/-- **As many elements as the shape has make an array that shows them**, if the shape has a layout.
They have been given memory already. -/
theorem exists_ofArray (hnumel : shape.numel = .ok b.size) (hview : View.contiguous shape = .ok v)
    (hfits : b.Fits) (device : Device) (w : World) :
    ∃ a w', ofArray b shape device w = (.ok a, w') ∧ a.view = v ∧
      a.toList w'.store b.dt = .ok b.cells.toList := by
  have hwhole : Whole (w.store.push b) ⟨w.store.nextId, v, b.dt, device⟩ b.cells :=
    Whole.new hnumel hview hfits w.store device
  exact ⟨_, _, ofArray_eq hnumel hview hfits device w, rfl, hwhole.toList_eq⟩

/-- **Row-major strides are exact and dense.** The strides of a shape whose sizes are signed words
overflow if and only if the sizes from some axis on multiply to no signed word; else the stride of
an axis is the product of the sizes of the later axes. If in addition no axis is empty, the
elements can be counted, the row-major view is walked in the order `0, 1, 2, …` without a fault,
multi-indices and numbers below the element count correspond to each other, and an array of given
elements shows the elements, whatever they are. -/
theorem row_major_exact_and_dense {dims : List Nat} (hdims : ∀ dim ∈ dims, dim < signedBound) :
    (rowMajor ⟨dims⟩ = .error .overflow ↔
      ∃ later, later <:+ dims ∧ signedBound ≤ volume later) ∧
    ((¬∃ later, later <:+ dims ∧ signedBound ≤ volume later) →
      (∃ strides, rowMajor ⟨dims⟩ = .ok strides ∧ strides.steps.length = dims.length ∧
        ∀ i < dims.length, strides.steps[i]? = some (volume (dims.drop (i + 1)) : Int)) ∧
      ((∀ dim ∈ dims, dim ≠ 0) → ∃ v, (⟨dims⟩ : Shape).numel = .ok (volume dims) ∧
        View.contiguous ⟨dims⟩ = .ok v ∧ v.offsets = ⟨List.range (volume dims), none⟩ ∧
        Set.BijOn (displacement · v.strides.steps) {index | Within index dims}
          (Set.Ico 0 (volume dims : Int)) ∧
        ∀ (b : Buffer) (device : Device) (w : World), b.Fits → b.size = volume dims →
          ∃ a w', ofArray b ⟨dims⟩ device w = (.ok a, w') ∧ a.view = v ∧
            a.toList w'.store b.dt = .ok b.cells.toList)) := by
  -- the refusal and the strides are the two outcomes of one computation, so the negation of the
  -- first gives the second
  have hexact : (¬∃ later, later <:+ dims ∧ signedBound ≤ volume later) →
      rowMajor ⟨dims⟩ = .ok ⟨denseSteps dims⟩ := fun hfit =>
    rowMajor_of_suffixes hdims fun later hsuffix => by
      by_contra hlarge
      exact hfit ⟨later, hsuffix, Nat.not_lt.1 hlarge⟩
  refine ⟨⟨fun h => ?_, fun ⟨later, hsuffix, hlarge⟩ => rowMajor_of_large hdims hsuffix hlarge⟩,
    fun hfit => ⟨⟨_, hexact hfit, length_denseSteps dims, fun i hi => getElem?_denseSteps hi⟩,
      fun hne => ?_⟩⟩
  · by_contra hfit
    rw [hexact hfit] at h
    exact absurd h (by simp)
  · have hpos : ∀ dim ∈ dims, 0 < dim := fun dim hdim => Nat.pos_of_ne_zero (hne dim hdim)
    -- the shape is a suffix of itself
    have hvolume : volume dims < signedBound := by
      by_contra hlarge
      exact hfit ⟨dims, List.suffix_rfl, Nat.not_lt.1 hlarge⟩
    -- the element count is multiplied up from the other end, but all sizes are positive
    have hnumel : (⟨dims⟩ : Shape).numel = .ok (volume dims) := by
      refine numel_of_span ?_
      rw [span_eq_volume hpos]
      exact lt_trans hvolume signedBound_lt_sizeBound
    have hview := View.contiguous_of_rowMajor (hexact hfit)
    obtain ⟨hwalks, hplaces⟩ := View.walks_of_contiguous hview hnumel hvolume
    have hoffsets := hwalks.offsets_eq (hvolume.trans signedBound_lt_sizeBound).le
    rw [hplaces] at hoffsets
    refine ⟨_, hnumel, hview, hoffsets, displacement_bijOn dims,
      fun b device w hfits hsize => exists_ofArray ?_ hview hfits device w⟩
    rw [hsize]
    exact hnumel

/-- Two rows of three numbers; and two axes that are too long together, behind an empty one. -/
theorem row_major_exact_and_dense_six :
    (∀ dim ∈ [2, 3], dim < signedBound) ∧
      (∃ a w', ofArray ⟨.i32, countTo 6⟩ ⟨[2, 3]⟩ .host (counting 6) = (.ok a, w') ∧
        a.view.offsets = ⟨[0, 1, 2, 3, 4, 5], none⟩ ∧
        a.toList w'.store .i32 = .ok [1, 2, 3, 4, 5, 6]) ∧
      rowMajor ⟨[0, 4294967296, 2147483648]⟩ = .error .overflow ∧
      (⟨[0, 4294967296, 2147483648]⟩ : Shape).numel = .ok 0 := by
  have hsmall : ∀ dim ∈ [2, 3], dim < signedBound := by decide
  have hfit : ¬∃ later, later <:+ [2, 3] ∧ signedBound ≤ volume later := fun h =>
    absurd ((row_major_exact_and_dense hsmall).1.2 h) (by decide)
  obtain ⟨-, hdense⟩ := (row_major_exact_and_dense hsmall).2 hfit
  obtain ⟨v, -, -, hoffsets, -, hshow⟩ := hdense (by decide)
  obtain ⟨a, w', hmake, rfl, hread⟩ := hshow ⟨.i32, countTo 6⟩ .host (counting 6) (by decide) rfl
  exact ⟨hsmall, ⟨a, w', hmake, hoffsets, hread⟩,
    (row_major_exact_and_dense (by decide)).1.2 ⟨[4294967296, 2147483648], by decide, by decide⟩,
    rfl⟩

end NDArray

end Strided
