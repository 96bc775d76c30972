import Strided.Proofs.Growth
import Strided.Proofs.NDArray.Access
import Strided.Proofs.View.Sound

/-!
# Arrays that cannot go wrong

An array is `Sound` if it has a buffer of its element type and a sound view of it. This is the
invariant of all arrays that the operations make, and it is one that lasts, because stores only
grow (`Sound.mono`).

What it is good for is `Sound.dependable`: reading, writing and copying a sound array always
succeed, and taking a view of it succeeds or is refused for a reason that lies in the arguments.
None of them ends in a fault.
-/

namespace Strided.NDArray

open Shape Strides

/-- **An array that cannot go wrong**: its buffer has its element type and fits the memory, and
its view is sound on the buffer. -/
structure Sound (s : Store) (a : NDArray) : Prop where
  backed : ∃ b, s.buffer? a.storage = some b ∧ b.dt = a.dt ∧ b.Fits ∧ a.view.Sound b.size

variable {s s' : Store} {a : NDArray} {w : World}

/-- **An array on a buffer** of its element type that fits the memory, through a view of a certain
kind. -/
def Held (P : View → Nat → Prop) (s : Store) (a : NDArray) : Prop :=
  ∃ b, s.buffer? a.storage = some b ∧ b.dt = a.dt ∧ b.Fits ∧ P a.view b.size

/-- The buffer is still there in a store that has grown. -/
theorem Held.mono {P : View → Nat → Prop} (h : Held P s a) (hs : s.Extends s') :
    Held P s' a := by
  obtain ⟨b, hb, hdt, hfits, hview⟩ := h
  obtain ⟨b', hb', hdt', hsize'⟩ := hs a.storage b hb
  exact ⟨b', hb', hdt'.trans hdt, hfits.congr hdt' hsize', by rwa [hsize']⟩

/-- The cells behind the array. -/
theorem Held.exists_cells {P : View → Nat → Prop} (h : Held P s a) :
    ∃ cells : Array a.dt.Elem, a.Backed s cells ∧ (Buffer.mk a.dt cells).Fits ∧
      P a.view cells.size := by
  obtain ⟨⟨dt, cells⟩, hb, hdt, hfits, hview⟩ := h
  -- the element types of the array and of its buffer are one and the same from here on
  obtain ⟨storage, view, adt, device⟩ := a
  obtain rfl : dt = adt := hdt
  exact ⟨cells, hb, hfits, hview⟩

/-- Sound arrays stay sound, whatever is made beside them or written to them. -/
theorem Sound.mono (h : Sound s a) (hs : s.Extends s') : Sound s' a := ⟨Held.mono h.backed hs⟩

/-- Moving an array to another device moves neither its cells nor its view. -/
theorem Sound.withDevice (h : Sound s a) (d : Device) : Sound s (a.withDevice d) := ⟨h.backed⟩

/-- The cells behind a sound array. -/
theorem Sound.exists_cells (h : Sound s a) : ∃ cells : Array a.dt.Elem, a.Backed s cells ∧
    (Buffer.mk a.dt cells).Fits ∧ a.view.Sound cells.size :=
  Held.exists_cells h.backed

/-! ### Views -/

/-- **Subviews of a sound array are sound.** -/
theorem Sound.subview {b : NDArray} {sub : Subscription} (h : Sound s a)
    (hsteps : sub.StepsWithin a.shape) (hsub : a.subview sub = .ok b) : Sound s b := by
  obtain ⟨buffer, hbuffer, hdt, hfits, hview⟩ := h.backed
  unfold NDArray.subview at hsub
  rw [Checked.bind_eq_ok] at hsub
  obtain ⟨v, hv, heq⟩ := hsub
  obtain rfl := Except.ok.inj heq
  rcases hview.subview hsteps with ⟨e, he, -⟩ | ⟨part, hpart, -, -, hsound⟩
  · -- it has not been refused
    rw [he] at hv
    exact absurd hv (by simp [reject])
  · obtain rfl : part = v := Except.ok.inj (hpart.symm.trans hv)
    exact ⟨buffer, hbuffer, hdt, hfits, hsound⟩

/-- **Diagonals of a sound array are sound.** -/
theorem Sound.diagonal {b : NDArray} {k : Int} (h : Sound s a) (hk : a.diagonal k = .ok b) :
    Sound s b := by
  obtain ⟨buffer, hbuffer, hdt, hfits, hview⟩ := h.backed
  rcases sound_diagonal hview k with ⟨-, he⟩ | ⟨-, part, hpart, hsound⟩
  · -- only what is no matrix is refused a diagonal
    rw [he] at hk
    exact absurd hk (by simp [reject])
  · obtain rfl : a.withView part = b := Except.ok.inj (hpart.symm.trans hk)
    exact ⟨buffer, hbuffer, hdt, hfits, hsound⟩

/-- **What an accepted reshape says** of the two shapes: they have as many elements, neither
overflows, and the strides of the array are the row-major ones. -/
theorem rowMajor_of_reshape {b : NDArray} {shape : Shape} (h : a.reshape shape = .ok b) :
    ∃ n target, a.numel = .ok n ∧ shape.numel = .ok n ∧ rowMajor a.shape = .ok a.strides ∧
      rowMajor shape = .ok target ∧ a.withView ⟨shape, target, a.offset⟩ = b := by
  unfold reshape at h
  simp only [Answer.liftM_checked] at h
  rw [Checked.bind_eq_ok] at h
  -- one guard after the other: both shapes can be counted, the counts agree, the array is
  -- contiguous
  obtain ⟨m, hm, h⟩ := h
  rw [Checked.bind_eq_ok] at h
  obtain ⟨n, hn, h⟩ := h
  split at h
  swap
  · exact absurd h (by simp [reject])
  rename_i hcount
  obtain rfl := hcount
  rw [Checked.bind_eq_ok] at h
  obtain ⟨contiguous, hcontiguous, h⟩ := h
  split at h
  swap
  · exact absurd h (by simp [reject])
  rename_i hyes
  rw [Checked.bind_eq_ok] at h
  obtain ⟨target, htarget, h⟩ := h
  -- the strides have been compared with the row-major ones
  have hsame : a.view.isContiguous = .ok contiguous := Checked.lift_eq_ok.1 hcontiguous
  rw [View.isContiguous, Checked.bind_eq_ok] at hsame
  obtain ⟨own, hown, hsame⟩ := hsame
  have hequal : (a.view.strides == own) = true := by rw [Except.ok.inj hsame, hyes]
  obtain rfl := eq_of_beq hequal
  exact ⟨m, target, Checked.lift_eq_ok.1 hn, Checked.lift_eq_ok.1 hm, hown,
    Checked.lift_eq_ok.1 htarget, Except.ok.inj h⟩

/-- **A reshape gives a view** of the shape asked for. -/
theorem exists_of_reshape {b : NDArray} {shape : Shape} (h : a.reshape shape = .ok b) :
    ∃ strides, b = a.withView ⟨shape, strides, a.offset⟩ := by
  obtain ⟨-, target, -, -, -, -, heq⟩ := rowMajor_of_reshape h
  exact ⟨target, heq.symm⟩

/-- **A subview is a view.** -/
theorem exists_of_subview {b : NDArray} {sub : Subscription} (h : a.subview sub = .ok b) :
    ∃ v, b = a.withView v := by
  unfold subview at h
  rw [Checked.bind_eq_ok] at h
  obtain ⟨v, -, h⟩ := h
  exact ⟨v, (Except.ok.inj h).symm⟩

/-- **A diagonal is a view.** -/
theorem exists_of_diagonal {b : NDArray} {k : Int} (h : a.diagonal k = .ok b) :
    ∃ v, b = a.withView v := by
  unfold diagonal at h
  rw [Checked.bind_eq_ok] at h
  obtain ⟨window, -, h⟩ := h
  split at h
  · exact absurd h (by simp [reject])
  · exact ⟨_, (Except.ok.inj h).symm⟩

/-- **Reshapes of a sound array are sound**, if the span is moderate. -/
theorem Sound.reshape {b : NDArray} {shape : Shape} (h : Sound s a)
    (hspan : span b.shape.dims ≤ sizeLimit) (hb : a.reshape shape = .ok b) : Sound s b := by
  obtain ⟨buffer, hbuffer, hdt, hfits, hview⟩ := h.backed
  have hshape : b.shape = shape := by
    obtain ⟨strides, rfl⟩ := exists_of_reshape hb
    rfl
  rw [hshape] at hspan
  rcases sound_reshape hview hspan with ⟨e, he⟩ | ⟨v, hv, -, hsound⟩
  · rw [he] at hb
    exact absurd hb (by simp [reject])
  · obtain rfl : a.withView v = b := Except.ok.inj (hv.symm.trans hb)
    exact ⟨buffer, hbuffer, hdt, hfits, hsound⟩

/-! ### Operations that always succeed -/

/-- **What can be relied on.** Nothing here ends in a fault; a view is taken or refused, and
which of the two is decided by the shape and the arguments. -/
structure Dependable (w : World) (a : NDArray) : Prop where
  numel : a.numel = .ok (volume a.shape.dims)
  read : ∃ items, a.toList w.store a.dt = .ok items ∧ items.length = volume a.shape.dims
  assign : ∀ items : List a.dt.Elem, items.length = volume a.shape.dims →
    ∃ w', a.assign a.dt items w = (.ok (), w')
  fill : ∀ x : a.dt.Elem, ∃ w', a.fill a.dt x w = (.ok (), w')
  deepClone : ∃ b w', a.deepClone w = (.ok b, w')
  flatten : ∃ b w', a.flatten w = (.ok b, w')
  subview : ∀ sub : Subscription, sub.StepsWithin a.shape →
    match sub.refusal? a.shape with
    | none => ∃ b, a.subview sub = .ok b
    | some e => a.subview sub = reject (.invalidSubview e)
  diagonal : ∀ k, if a.rank = 2 then ∃ b, a.diagonal k = .ok b
    else a.diagonal k = reject (.diagonal (.notMatrix a.rank))
  reshape : ∀ shape : Shape, span shape.dims ≤ sizeLimit →
    (∃ b, a.reshape shape = .ok b) ∨ ∃ e, a.reshape shape = reject e

/-- **Sound arrays can be read.** -/
theorem Sound.exists_toList (h : Sound s a) :
    ∃ items, a.toList s a.dt = .ok items ∧ items.length = volume a.shape.dims := by
  obtain ⟨cells, hbuf, hfits, hview⟩ := h.exists_cells
  have hsize : cells.size ≤ sizeBound := le_trans hview.size_le sizeLimit_lt_sizeBound.le
  -- the elements have cells of their own, so they take no more memory than the buffer does
  obtain ⟨items, hitems⟩ :=
    NDArray.exists_toList hbuf hview.walks hsize (fits_volume hfits hview.distinct hview.inBounds)
  exact ⟨items, hitems, (of_toList hitems).2.2.1⟩

/-- Sound arrays can be gathered. -/
theorem Sound.exists_gather (h : Sound s a) :
    ∃ items : List a.dt.Elem, a.gather s = .ok ⟨a.dt, items.toArray⟩ ∧
      items.length = volume a.shape.dims := by
  obtain ⟨cells, hbuf, hfits, hview⟩ := h.exists_cells
  obtain ⟨items, hitems, hlen⟩ := h.exists_toList
  -- reading and gathering are one pass over the cells, with the type checked in one of them only
  have hgather := hbuf.gather_eq_toList
  rw [hitems] at hgather
  exact ⟨items, Checked.lift_eq_ok.1 hgather, hlen⟩

/-- Sound arrays can be written. -/
theorem Sound.exists_assign {items : List a.dt.Elem} (h : Sound w.store a)
    (hlen : items.length = volume a.shape.dims) : ∃ w', a.assign a.dt items w = (.ok (), w') := by
  obtain ⟨cells, hbuf, hfits, hview⟩ := h.exists_cells
  have hsize : cells.size ≤ sizeBound := le_trans hview.size_le sizeLimit_lt_sizeBound.le
  obtain ⟨cells', hassign, -⟩ := assign_eq hbuf hview.walks hsize hlen
  exact ⟨_, hassign⟩

/-- A new buffer of a shape that is not too large. -/
theorem exists_ofBuffer {b : Buffer} {shape : Shape} {d : Device}
    (hspan : span shape.dims < signedBound) : ∃ a w', ofBuffer b shape d w = (.ok a, w') := by
  have hnumel : shape.numel = .ok (volume shape.dims) :=
    numel_of_span (hspan.trans signedBound_lt_sizeBound)
  have hview := View.contiguous_of_rowMajor (rowMajor_of_span hspan)
  unfold ofBuffer
  rw [Action.bind_checked_ok hnumel, Action.bind_checked_ok hview]
  exact ⟨_, _, rfl⟩

/-- **Sound arrays can be depended on.** -/
theorem Sound.dependable (h : Sound w.store a) : Dependable w a := by
  obtain ⟨cells, hbuf, hfits, hview⟩ := h.exists_cells
  have hnumel : a.numel = .ok (volume a.shape.dims) := hview.numel_eq
  have hspan : span a.shape.dims ≤ sizeLimit := hview.span_le
  obtain ⟨items, hgather, hlen⟩ := h.exists_gather
  have hread : (a.gather w.store).lift = .ok ⟨a.dt, items.toArray⟩ := Checked.lift_eq_ok.2 hgather
  refine ⟨hnumel, h.exists_toList, fun items hitems => h.exists_assign hitems, ?_, ?_, ?_, ?_, ?_,
    ?_⟩
  · -- a fill is a write of as many copies as there are elements
    intro x
    rw [fill_eq hnumel (fits_volume hfits hview.distinct hview.inBounds)]
    exact h.exists_assign List.length_replicate
  · -- a copy has the shape of the original, whose span is moderate
    unfold NDArray.deepClone
    rw [Action.bind_read_ok hread]
    exact exists_ofBuffer (lt_of_le_of_lt hspan sizeLimit_lt_signedBound)
  · -- a single axis of as many elements spans no more
    have hflat : span [volume a.shape.dims] ≤ sizeLimit := by
      have hle := volume_le_span a.shape.dims
      have hpos := span_pos a.shape.dims
      rw [span_cons, span_nil]
      omega
    unfold NDArray.flatten
    rw [Action.bind_read_ok hread, Action.bind_checked_ok hnumel]
    exact exists_ofBuffer (lt_of_le_of_lt hflat sizeLimit_lt_signedBound)
  · -- subviews are refused by the shape and by nothing else
    intro sub hsteps
    unfold NDArray.subview
    rcases hview.subview hsteps with ⟨e, he, hrefused⟩ | ⟨part, hpart, hnone, -⟩
    · have hshape : sub.refusal? a.shape = some e := hrefused
      rw [hshape, he]
      rfl
    · have hshape : sub.refusal? a.shape = none := hnone
      rw [hshape, hpart]
      exact ⟨_, rfl⟩
  · -- matrices have all their diagonals
    intro k
    rcases sound_diagonal hview k with ⟨hrank, he⟩ | ⟨hrank, part, hpart, -⟩
    · have hne : a.rank ≠ 2 := hrank
      rw [if_neg hne]
      exact he
    · have htwo : a.rank = 2 := hrank
      rw [if_pos htwo]
      exact ⟨_, hpart⟩
  · intro shape hshape
    -- reshapes are refused for the counts or for the layout
    rcases sound_reshape hview hshape with hrefused | ⟨v, hv, -⟩
    · exact .inr hrefused
    · exact .inl ⟨_, hv⟩

/-- **Sound arrays of one shape and element type can be copied to each other**, even if they
overlap. -/
theorem Sound.exists_copyFrom {src : NDArray} (h : Sound w.store a) (hsrc : Sound w.store src)
    (hshape : src.shape = a.shape) (hdt : src.dt = a.dt) :
    ∃ w', a.copyFrom src w = (.ok (), w') := by
  obtain ⟨items, hgather, hlen⟩ := hsrc.exists_gather
  rw [copyFrom_of_gather hshape hdt hgather]
  -- the items have been gathered before the first cell is written
  obtain ⟨storage, view, dt, device⟩ := src
  obtain rfl : dt = a.dt := hdt
  obtain ⟨cells, hbuf, -, hview⟩ := h.exists_cells
  have hsize : cells.size ≤ sizeBound := le_trans hview.size_le sizeLimit_lt_sizeBound.le
  have hcount : items.length = volume a.shape.dims := by rw [← hshape]; exact hlen
  obtain ⟨cells', hwrite, -⟩ := write_eq (w := w) hbuf hview.walks hsize hcount
  exact ⟨_, hwrite⟩

end Strided.NDArray
