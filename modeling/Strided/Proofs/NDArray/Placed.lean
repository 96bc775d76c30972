import Strided.Proofs.NDArray.Fresh
import Strided.Proofs.View.Placed

/-!
# Slices of placed arrays

An array is `Placed` if its view is placed on its buffer. Every array that the operations make is,
with nothing asked of their arguments: new arrays are (`Fresh.placed`), and so are the subviews, the
diagonals and the reshapes of placed arrays.

What is not known of a placed array is how far apart its strides put what no two elements lie
along. `Slice.Fits` bounds the start and the end of a slice by the size of the axis, but not the
step, and the steps are multiplied into the strides. So for a slice that fits there are three ways
to end (`NDArray.subview_cases`):

* a stride of the subview is no signed word, and `NDArray.subview` overflows itself;
* the strides are, but a place one past the end of an axis is not. Then there is a subview, and
  whatever is done along it `Overflows`: it is not `View.Clear`;
* the subview is clear, and it is `Usable`.

The last case is the common one. For the strides to be signed words with a buffer to spare is enough
(`NDArray.usable_of_room`).
-/

namespace Strided.NDArray

open Shape

variable {before s s' : Store} {a b : NDArray} {w : World} {cells : Array a.dt.Elem}
  {sub : Subscription}

/-! ### Placed arrays -/

/-- **An array whose view is placed on its buffer.** -/
def Placed : Store → NDArray → Prop := Held View.Placed

/-- **New arrays are placed.** -/
theorem Fresh.placed (h : Fresh before s a) : Placed s a := by
  obtain ⟨buffer, hbuffer, hdt, hfits, hsize⟩ := h.backed
  obtain ⟨own, hrow, heq⟩ := View.rowMajor_of_contiguous h.view_eq
  -- a buffer has fewer cells than there are signed words, and a new array is as large as its buffer
  have hlt : volume a.shape.dims < signedBound := by
    rw [← hsize]
    exact hfits.size_lt
  refine ⟨buffer, hbuffer, hdt, hfits, ?_⟩
  rw [← heq]
  refine View.placed_of_rowMajor hrow hlt (fun _ => ?_) (show 0 < sizeBound by decide)
  dsimp only
  omega

theorem Placed.withDevice (h : Placed s a) (device : Device) : Placed s (a.withDevice device) := h

/-- **Subviews of a placed array are placed.** -/
theorem Placed.subview (h : Placed s a) (hsub : a.subview sub = .ok b) : Placed s b := by
  obtain ⟨buffer, hbuffer, hdt, hfits, hview⟩ := h
  unfold NDArray.subview at hsub
  rw [Checked.bind_eq_ok] at hsub
  obtain ⟨part, hpart, heq⟩ := hsub
  obtain rfl := Except.ok.inj heq
  obtain ⟨-, -, -, -, hp⟩ :=
    View.partOf_of_subview hview.rank_eq hview.inBounds hfits.size_lt.le hpart
  exact ⟨buffer, hbuffer, hdt, hfits, hp.placed hview (View.offset_lt_of_subview hpart)⟩

/-- **Diagonals of a placed array are placed.** -/
theorem Placed.diagonal {k : Int} (h : Placed s a) (hk : a.diagonal k = .ok b) : Placed s b := by
  obtain ⟨buffer, hbuffer, hdt, hfits, hview⟩ := h
  have hoffset := offset_lt_of_diagonal hk
  -- the array had a diagonal, which leaves the last one of the three cases
  rcases diagonal_cases hview.rank_eq hview.inBounds hfits.size_lt.le hview.offset_lt k with
    ⟨-, he⟩ | ⟨rows, cols, down, right, -, -, hf | ⟨part, hpart, -, -, -, hp⟩⟩
  · rw [he] at hk
    exact absurd hk (by simp [reject])
  · rw [hf] at hk
    exact absurd hk (by simp)
  · obtain rfl : a.withView part = b := Except.ok.inj (hpart.symm.trans hk)
    exact ⟨buffer, hbuffer, hdt, hfits, hp.placed hview hoffset⟩

/-- **Reshapes of a placed array are placed.** -/
theorem Placed.reshape {shape : Shape} (h : Placed s a) (hb : a.reshape shape = .ok b) :
    Placed s b := by
  obtain ⟨buffer, hbuffer, hdt, hfits, hview⟩ := h
  obtain ⟨n, target, hown, hcount, hrow, htarget, rfl⟩ := rowMajor_of_reshape hb
  -- as many cells as before, from the same one on
  have hvolume : volume shape.dims = volume a.shape.dims :=
    (eq_volume_of_numel hcount).symm.trans (eq_volume_of_numel hown)
  have hlt := View.volume_lt_of_rowMajor hrow hview.inBounds hfits.size_lt
  have hend := View.end_le_of_rowMajor hrow hview.inBounds hfits.size_lt
  refine ⟨buffer, hbuffer, hdt, hfits,
    View.placed_of_rowMajor (v := ⟨shape, target, a.offset⟩) htarget ?_ ?_ hview.offset_lt⟩
  · change volume shape.dims < signedBound
    rwa [hvolume]
  · change 0 < volume shape.dims → a.offset + volume shape.dims ≤ buffer.size
    rwa [hvolume]

/-! ### Using an array -/

/-- **The array can be used as a whole**: it can be read, it can be written, and it can be
copied. -/
structure Usable (w : World) (a : NDArray) : Prop where
  numel : a.numel = .ok (volume a.shape.dims)
  read : ∃ items, a.toList w.store a.dt = .ok items ∧ items.length = volume a.shape.dims
  assign : ∀ items : List a.dt.Elem, items.length = volume a.shape.dims →
    ∃ w', a.assign a.dt items w = (.ok (), w')
  deepClone : ∃ b w', a.deepClone w = (.ok b, w')

/-- **Using the array overflows**, whatever it is used for. -/
structure Overflows (w : World) (a : NDArray) : Prop where
  numel : a.numel = .ok (volume a.shape.dims)
  read : a.toList w.store a.dt = .error (.fault .overflow)
  assign : ∀ items : List a.dt.Elem, items.length = volume a.shape.dims →
    ∃ w', a.assign a.dt items w = (.error (.fault .overflow), w')
  deepClone : a.deepClone w = (.error (.fault .overflow), w)

/-- An array whose walk comes to its end is usable, if its elements are apart. -/
theorem usable_of_walks (hbuf : a.Backed w.store cells) (hfits : (Buffer.mk a.dt cells).Fits)
    (hwalks : a.view.Walks cells.size) (hdistinct : a.view.Distinct)
    (hpos : ∀ dim ∈ a.shape.dims, 0 < dim) : Usable w a := by
  have hsize := hfits.size_le
  -- elements that share no cell need no more room than the buffer has
  have hcap := fits_volume hfits hdistinct hwalks.inBounds
  obtain ⟨items, hitems⟩ := exists_toList hbuf hwalks hsize hcap
  refine ⟨View.numel_of_fault hwalks.fault_eq, ⟨items, hitems, (of_toList hitems).2.2.1⟩, ?_, ?_⟩
  · intro items hlen
    obtain ⟨cells', hassign, -⟩ := assign_eq hbuf hwalks hsize hlen
    exact ⟨_, hassign⟩
  · -- the copy has a shape of the same elements, which can be laid out
    have hgather : (a.gather w.store).lift = .ok ⟨a.dt, items.toArray⟩ := by
      rw [hbuf.gather_eq_toList, hitems]
      rfl
    have hspan : span a.shape.dims < signedBound := by
      rw [span_eq_volume hpos]
      exact DType.count_lt hcap
    unfold NDArray.deepClone
    rw [Action.bind_read_ok hgather]
    exact exists_ofBuffer hspan

/-- An array whose walk overflows takes down what is done along it. -/
theorem overflows_of_fault (hbuf : a.Backed w.store cells) (hfits : (Buffer.mk a.dt cells).Fits)
    (hview : a.view.Placed cells.size) (hnumel : a.numel = .ok (volume a.shape.dims))
    (hf : a.view.offsets.fault = some .overflow) : Overflows w a := by
  have hsize : cells.size ≤ sizeBound := hfits.size_le
  have hcap : a.dt.checkCapacity (volume a.shape.dims) = .ok () :=
    DType.checkCapacity_eq_ok_iff.2 (fits_volume hfits hview.distinct hview.inBounds)
  have hread : a.toList w.store a.dt = .error (.fault .overflow) := by
    rw [hbuf.toList_eq, readOwn, hnumel, Checked.ok_bind, hcap, Checked.ok_bind,
      View.gather_of_fault hview.rank_eq hview.inBounds hsize hf]
    rfl
  refine ⟨hnumel, hread, ?_, ?_⟩
  · intro items hlen
    have hdt : a.checkDType a.dt = .ok () := if_pos rfl
    have hcells : (w.store.buffer? a.storage).bind (·.cellsAs a.dt) = some cells := by
      rw [hbuf, Option.bind_some, Buffer.cellsAs_mk]
    have hscatter := View.scatter_of_fault hview.rank_eq hview.inBounds hsize hf items
    -- the items go to their cells one after the other, until the walk overflows
    rcases hw : a.view.offsets.scatter items cells with ⟨cells', fault⟩
    rw [hw] at hscatter
    obtain rfl : fault = some .overflow := hscatter
    refine ⟨{ w with store := w.store.replace a.storage ⟨a.dt, cells'⟩ }, ?_⟩
    unfold NDArray.assign
    rw [Action.bind_answer_ok hdt, Action.bind_checked_ok hnumel]
    dsimp only
    rw [if_pos hlen, Action.bind_read_ok hbuf.cells_eq]
    unfold Action.write
    rw [hcells]
    dsimp only
    rw [hw]
  · -- a copy gathers the elements before anything is made
    have hgather : (a.gather w.store).lift = .error (.fault .overflow) := by
      rw [hbuf.gather_eq_toList, hread]
      rfl
    unfold NDArray.deepClone
    exact Action.bind_read_error hgather _

/-- **A placed array of a small buffer is usable if and only if its view is clear**, and else using
it overflows. -/
theorem use_cases (hbuf : a.Backed w.store cells) (hfits : (Buffer.mk a.dt cells).Fits)
    (hview : a.view.Placed cells.size) (hpos : ∀ dim ∈ a.shape.dims, 0 < dim)
    (hsize : 2 * cells.size ≤ signedBound) (hwords : ∀ step ∈ a.strides.steps, SignedWord step) :
    (a.view.Clear ∧ Usable w a) ∨ (¬a.view.Clear ∧ Overflows w a) := by
  rcases hview.fault_cases hpos hsize hwords with ⟨hclear, hf⟩ | ⟨hclear, hf⟩
  · have hwalks : a.view.Walks cells.size := ⟨hview.rank_eq, hview.inBounds, hf⟩
    exact .inl ⟨hclear, usable_of_walks hbuf hfits hwalks hview.distinct hpos⟩
  · -- the elements can be counted all the same, since no two of them share a cell
    have hlt : span a.shape.dims < sizeBound :=
      lt_of_le_of_lt (hview.span_le hpos) (hfits.size_lt.trans signedBound_lt_sizeBound)
    exact .inr ⟨hclear, overflows_of_fault hbuf hfits hview (numel_of_span hlt) hf⟩

/-! ### Slicing an array -/

/-- **How a slice that fits can end.** It overflows at once if a stride of the subview is no signed
word. Else there is a subview, and it is usable if and only if it is clear. -/
theorem subview_cases (hbuf : a.Backed w.store cells) (hfits : (Buffer.mk a.dt cells).Fits)
    (hview : a.view.Placed cells.size) (hsize : 2 * cells.size ≤ signedBound)
    (hsub : sub.Fits a.shape) :
    ((¬∀ z ∈ sub.stretch a.strides.steps, SignedWord z) ∧
        a.subview sub = .error (.fault .overflow)) ∨
      ((∀ z ∈ sub.stretch a.strides.steps, SignedWord z) ∧ ∃ part, a.subview sub = .ok part ∧
        part.shape = sub.shape ∧ part.strides = ⟨sub.stretch a.strides.steps⟩ ∧
        part.view.Placed cells.size ∧
        ((part.view.Clear ∧ Usable w part) ∨ (¬part.view.Clear ∧ Overflows w part))) := by
  have hword : cells.size ≤ signedBound := hfits.size_lt.le
  rcases hview.subview_cases hword hsub with
    ⟨hwords, part, hpart, hplaced, hshape, hstrides⟩ | ⟨hwords, hf⟩
  · have hok : a.subview sub = .ok (a.withView part) := by
      unfold NDArray.subview
      rw [hpart]
      rfl
    -- a slice that fits has an index, so no axis of the subview is empty
    have hpos : ∀ dim ∈ part.shape.dims, 0 < dim := by
      rw [hshape]
      exact length_pos_of_fits hsub
    have hsteps : ∀ step ∈ part.strides.steps, SignedWord step := by
      rw [hstrides]
      exact hwords
    exact .inr ⟨hwords, a.withView part, hok, hshape, hstrides, hplaced,
      use_cases (a := a.withView part) hbuf hfits hplaced hpos hsize hsteps⟩
  · refine .inl ⟨hwords, ?_⟩
    unfold NDArray.subview
    rw [hf]
    rfl

/-- **A slice that fits is usable if its strides leave room for the buffer** in a signed word. -/
theorem usable_of_room (hbuf : a.Backed w.store cells) (hfits : (Buffer.mk a.dt cells).Fits)
    (hview : a.view.Placed cells.size) (hsize : 2 * cells.size ≤ signedBound)
    (hsub : sub.Fits a.shape)
    (hroom : ∀ z ∈ sub.stretch a.strides.steps, z.natAbs + cells.size ≤ signedBound) :
    ∃ part, a.subview sub = .ok part ∧ Usable w part := by
  -- there is an element, so there is a cell
  have hcell : 0 < cells.size := Nat.zero_lt_of_lt (hview.inBounds.offset_lt (pos_of_fits hsub))
  rcases subview_cases hbuf hfits hview hsize hsub with
    ⟨hwords, -⟩ | ⟨-, part, hpart, hshape, hstrides, hplaced, hcases⟩
  · refine absurd (fun z hz => SignedWord.of_natAbs ?_) hwords
    have hz' := hroom z hz
    omega
  · have hpos : ∀ dim ∈ part.shape.dims, 0 < dim := by
      rw [hshape]
      exact length_pos_of_fits hsub
    have hclear : part.view.Clear := by
      refine hplaced.clear hpos fun step hstep => hroom step ?_
      have hsteps : part.view.strides.steps = sub.stretch a.strides.steps :=
        congrArg Strides.steps hstrides
      rwa [hsteps] at hstep
    rcases hcases with ⟨-, husable⟩ | ⟨hnot, -⟩
    · exact ⟨part, hpart, husable⟩
    · exact absurd hclear hnot

end Strided.NDArray
