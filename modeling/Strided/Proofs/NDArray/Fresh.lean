import Strided.NDArray.Diagonal
import Strided.Proofs.NDArray.Sound

/-!
# Fresh arrays

An operation that makes an array lays it out row-major over the whole of a new buffer: the
result is `Fresh`. The lemmas here follow the operations of `Strided.NDArray.Create` and state
two things about each: that it keeps all buffers (`grows_*`), and that what it gives is fresh
(`fresh_of_*`). A fresh array stays fresh, whatever is written to it and wherever, because the
store only grows (`Fresh.mono`).

A fresh array of a moderate shape is sound (`Fresh.sound`), which is where the invariant of all
arrays begins.
-/

namespace Strided

open Shape

/-- A buffer of one element, repeated, has the size asked for, and there is memory for it. -/
theorem Buffer.of_filled {dt : DType} {x : dt.Elem} {n : Nat} {b : Buffer}
    (h : Buffer.filled dt x n = .ok b) : b.size = n ∧ b.Fits := by
  unfold Buffer.filled at h
  rw [Checked.bind_eq_ok] at h
  obtain ⟨u, hcap, h⟩ := h
  obtain rfl := Except.ok.inj h
  have hsize : (Buffer.mk dt (Array.replicate n x)).size = n := Array.size_replicate
  refine ⟨hsize, ?_⟩
  unfold Buffer.Fits
  rw [hsize]
  exact DType.checkCapacity_eq_ok_iff.1 hcap

namespace NDArray

/-- **A row-major array over the whole of a buffer** of its element type, which was not in the
store before. -/
structure Fresh (before s : Store) (a : NDArray) : Prop where
  new : before.nextId ≤ a.storage
  view_eq : View.contiguous a.shape = .ok a.view
  backed : ∃ b, s.buffer? a.storage = some b ∧ b.dt = a.dt ∧ b.Fits ∧ b.size = volume a.shape.dims

variable {before s s' : Store} {a : NDArray} {w w' : World} {b : Buffer} {shape : Shape}
  {d : Device}

/-- **A fresh array stays fresh** when the store grows, since its buffer keeps its type and its
size. -/
theorem Fresh.mono (h : Fresh before s a) (hs : s.Extends s') : Fresh before s' a := by
  obtain ⟨b, hb, hdt, hfits, hsize⟩ := h.backed
  obtain ⟨b', hb', hdt', hsize'⟩ := hs a.storage b hb
  exact ⟨h.new, h.view_eq, b', hb', hdt'.trans hdt, hfits.congr hdt' hsize', hsize'.trans hsize⟩

/-- What was not there yet was not there before. -/
theorem Fresh.since {earlier : Store} (h : Fresh before s a) (he : earlier.Extends before) :
    Fresh earlier s a :=
  ⟨Nat.le_trans he.nextId_le h.new, h.view_eq, h.backed⟩

theorem Fresh.lt_nextId (h : Fresh before s a) : a.storage < s.nextId := by
  obtain ⟨b, hb, -⟩ := h.backed
  exact Store.lt_nextId hb

/-- The device of an array says nothing about its storage. -/
theorem Fresh.withDevice (h : Fresh before s a) (d : Device) : Fresh before s (a.withDevice d) :=
  ⟨h.new, h.view_eq, h.backed⟩

/-- **A fresh array of a moderate shape is sound.** -/
theorem Fresh.sound (h : Fresh before s a) (hspan : span a.shape.dims ≤ sizeLimit) : Sound s a := by
  obtain ⟨b, hb, hdt, hfits, hsize⟩ := h.backed
  -- of a moderate shape the row-major view is the gapless one
  have hview := Except.ok.inj ((View.contiguous_of_span hspan).symm.trans h.view_eq)
  have hgapless : a.view.Gapless := by rw [← hview]; rfl
  have hzero : a.view.offset = 0 := by rw [← hview]
  refine ⟨b, hb, hdt, hfits, ?_⟩
  rw [hsize]
  exact .of_gapless hgapless hspan hzero

/-! ### Whole buffers -/

/-- **A row-major array over the whole of a buffer with these cells.** It is as good as the buffer:
reading and writing it is reading and writing the buffer from its start. -/
structure Whole (s : Store) (a : NDArray) (cells : Array a.dt.Elem) : Prop where
  backed : a.Backed s cells
  view_eq : View.contiguous a.shape = .ok a.view
  numel_eq : a.numel = .ok cells.size
  fits : (Buffer.mk a.dt cells).Fits

namespace Whole

variable {cells : Array a.dt.Elem}

/-- What it takes to read a whole array is there: the count, the memory and the walk. -/
private theorem readOwn_eq (h : Whole s a cells) : a.readOwn cells = .ok cells.toList := by
  have hcap : a.dt.checkCapacity cells.size = .ok () := DType.checkCapacity_eq_ok_iff.2 h.fits
  unfold readOwn
  rw [h.numel_eq, Checked.ok_bind, hcap, Checked.ok_bind,
    View.gather_of_contiguous h.view_eq h.numel_eq h.fits.size_lt]

/-- Reading it gives the cells. -/
theorem toList_eq (h : Whole s a cells) : a.toList s a.dt = .ok cells.toList := by
  rw [h.backed.toList_eq, h.readOwn_eq]
  rfl

theorem gather_eq (h : Whole s a cells) : a.gather s = .ok ⟨a.dt, cells⟩ := by
  rw [h.backed.gather_eq, h.readOwn_eq]
  rfl

/-- As many items as there are cells take their places. -/
theorem write_eq {items : List a.dt.Elem} (h : Whole w.store a cells)
    (hlen : items.length = cells.size) :
    Action.write a a.dt items w
      = (.ok (), { w with store := w.store.replace a.storage ⟨a.dt, items.toArray⟩ }) := by
  obtain ⟨hwalks, -⟩ := View.walks_of_contiguous h.view_eq h.numel_eq h.fits.size_lt
  -- through the whole view every cell is written, so nothing of the old ones is left
  obtain ⟨cells', hwrite, hwritten⟩ := NDArray.write_eq h.backed hwalks h.fits.size_le
    (hlen.trans (eq_volume_of_numel h.numel_eq))
  rw [hwrite, View.eq_of_written_contiguous h.view_eq h.numel_eq h.fits.size_lt hlen hwritten]

/-- It stays whole where its buffer stays as it is. -/
theorem mono (h : Whole s a cells) (hs : s.Agrees s') : Whole s' a cells :=
  ⟨hs _ _ h.backed, h.view_eq, h.numel_eq, h.fits⟩

/-- Other cells in the place of the old ones. -/
theorem replace (h : Whole s a cells) {cells' : Array a.dt.Elem}
    (hsize : cells'.size = cells.size) :
    Whole (s.replace a.storage ⟨a.dt, cells'⟩) a cells' := by
  have hlt : a.storage < s.nextId := Store.lt_nextId h.backed
  refine ⟨?_, h.view_eq, h.numel_eq.trans (congrArg Except.ok hsize.symm), h.fits.congr rfl hsize⟩
  unfold Backed
  rw [Store.buffer?_replace, if_pos ⟨rfl, hlt⟩]

/-- **A new buffer** makes a whole array. -/
theorem new {dt : DType} {cells : Array dt.Elem} {v : View} (hnumel : shape.numel = .ok cells.size)
    (hview : View.contiguous shape = .ok v) (hfits : (Buffer.mk dt cells).Fits) (s : Store)
    (d : Device) : Whole (s.push ⟨dt, cells⟩) ⟨s.nextId, v, dt, d⟩ cells := by
  have hshape : v.shape = shape := View.shape_of_contiguous hview
  refine ⟨?_, (congrArg View.contiguous hshape).trans hview,
    (congrArg Shape.numel hshape).trans hnumel, hfits⟩
  change (s.push ⟨dt, cells⟩).buffer? s.nextId = some ⟨dt, cells⟩
  rw [Store.buffer?_push, if_pos rfl]

end Whole

/-! ### Making arrays -/

/-- Laying out a buffer leaves the others as they are. -/
theorem adds_ofBuffer (b : Buffer) (shape : Shape) (d : Device) : (ofBuffer b shape d).Adds :=
  .bind (.checked _) fun _ => .bind (.checked _) fun _ =>
    .bind (Action.adds_allocate b) fun _ => .pure _

/-- **A new array around a buffer** has the next free storage, and its view starts there. -/
theorem ofBuffer_eq_ok : ofBuffer b shape d w = (.ok a, w') ↔ (∃ n, shape.numel = .ok n) ∧
    ∃ v, View.contiguous shape = .ok v ∧ a = ⟨w.store.nextId, v, b.dt, d⟩ ∧
      w' = { w with store := w.store.push b } := by
  unfold ofBuffer
  rw [Action.bind_checked_eq_ok]
  constructor
  · rintro ⟨n, hn, h⟩
    rw [Action.bind_checked_eq_ok] at h
    obtain ⟨v, hv, h⟩ := h
    obtain ⟨ha, rfl⟩ := Prod.mk.inj h
    exact ⟨⟨n, hn⟩, v, hv, (Except.ok.inj ha).symm, rfl⟩
  · rintro ⟨⟨n, hn⟩, v, hv, rfl, rfl⟩
    refine ⟨n, hn, ?_⟩
    rw [Action.bind_checked_ok hv]
    rfl

/-- **A new buffer of the right size makes a fresh array.** -/
theorem fresh_of_ofBuffer (h : ofBuffer b shape d w = (.ok a, w')) (hfits : b.Fits)
    (hsize : b.size = volume shape.dims) : Fresh w.store w'.store a := by
  obtain ⟨-, v, hv, rfl, rfl⟩ := ofBuffer_eq_ok.1 h
  have hshape : v.shape = shape := View.shape_of_contiguous hv
  -- the storage is the next free one, and the buffer is found there
  refine ⟨le_rfl, ?_, b, ?_, rfl, hfits, ?_⟩
  · exact (congrArg View.contiguous hshape).trans hv
  · change (w.store.push b).buffer? w.store.nextId = some b
    rw [Store.buffer?_push, if_pos rfl]
  · exact hsize.trans (congrArg (fun s : Shape => volume s.dims) hshape.symm)

theorem adds_ofArray (b : Buffer) (shape : Shape) (d : Device) : (ofArray b shape d).Adds :=
  .bind (.checked _) fun _ =>
    .check (.bind (.checked _) fun _ => adds_ofBuffer b shape d)
      (.bind (.checked _) fun _ => adds_ofBuffer b shape d)

/-- Given elements are as many as the shape has, and have been given memory. -/
theorem fresh_of_ofArray (h : ofArray b shape d w = (.ok a, w')) : Fresh w.store w'.store a := by
  unfold ofArray at h
  rw [Action.bind_checked_eq_ok] at h
  obtain ⟨n, hn, h⟩ := h
  dsimp only at h
  rw [Action.check_eq_ok, Action.bind_checked_eq_ok] at h
  obtain ⟨hsize, u, hcap, h⟩ := h
  exact fresh_of_ofBuffer h (DType.checkCapacity_eq_ok_iff.1 hcap)
    (hsize.trans (eq_volume_of_numel hn))

/-- A buffer of one repeated element makes a fresh array. -/
theorem fresh_of_filled {dt : DType} {x : dt.Elem}
    (h : (do ofBuffer (← Buffer.filled dt x (← shape.numel)) shape d : Action NDArray) w
      = (.ok a, w')) : Fresh w.store w'.store a := by
  rw [Action.bind_checked_eq_ok] at h
  obtain ⟨n, hn, h⟩ := h
  rw [Action.bind_checked_eq_ok] at h
  obtain ⟨b, hb, h⟩ := h
  -- the buffer was made with as many elements as the shape has
  obtain ⟨hsize, hfits⟩ := Buffer.of_filled hb
  exact fresh_of_ofBuffer h hfits (hsize.trans (eq_volume_of_numel hn))

/-- A new array of zeros is fresh. -/
theorem fresh_of_zeros {dt : DType} (h : zeros shape dt d w = (.ok a, w')) :
    Fresh w.store w'.store a := fresh_of_filled h

theorem fresh_of_ones {dt : DType} (h : ones shape dt d w = (.ok a, w')) :
    Fresh w.store w'.store a := fresh_of_filled h

/-- **A new array of zeros**, whose elements have been given memory. -/
theorem zeros_eq_ok {dt : DType} : zeros shape dt d w = (.ok a, w') ↔
    ∃ n, shape.numel = .ok n ∧ dt.bytes * n < signedBound ∧
      ∃ v, View.contiguous shape = .ok v ∧ a = ⟨w.store.nextId, v, dt, d⟩ ∧
        w' = { w with store := w.store.push ⟨dt, Array.replicate n dt.zero⟩ } := by
  unfold zeros
  rw [Action.bind_checked_eq_ok]
  -- the count comes first in either direction
  refine exists_congr fun n => and_congr_right fun hn => ?_
  rw [Action.bind_checked_eq_ok]
  constructor
  · rintro ⟨b, hb, h⟩
    unfold Buffer.zeros Buffer.filled at hb
    rw [Checked.bind_eq_ok] at hb
    obtain ⟨u, hcap, hb⟩ := hb
    obtain rfl := Except.ok.inj hb
    exact ⟨DType.checkCapacity_eq_ok_iff.1 hcap, (ofBuffer_eq_ok.1 h).2⟩
  · rintro ⟨hcap, hv⟩
    refine ⟨⟨dt, Array.replicate n dt.zero⟩, ?_, ofBuffer_eq_ok.2 ⟨⟨n, hn⟩, hv⟩⟩
    unfold Buffer.zeros Buffer.filled
    rw [DType.checkCapacity_eq_ok_iff.2 hcap]
    rfl

theorem adds_zeros (shape : Shape) (dt : DType) (d : Device) : (zeros shape dt d).Adds :=
  .bind (.checked _) fun _ => .bind (.checked _) fun _ => adds_ofBuffer _ _ _

theorem adds_ones (shape : Shape) (dt : DType) (d : Device) : (ones shape dt d).Adds :=
  .bind (.checked _) fun _ => .bind (.checked _) fun _ => adds_ofBuffer _ _ _

/-! ### Copies -/

/-- What is gathered has as many elements as the array, and memory of its own. -/
theorem of_gather {src : NDArray} (h : src.gather s = .ok b) :
    src.numel = .ok b.size ∧ b.size = volume src.shape.dims ∧ b.Fits := by
  unfold gather at h
  rw [Checked.bind_eq_ok] at h
  obtain ⟨c, -, h⟩ := h
  rw [Checked.bind_eq_ok] at h
  obtain ⟨n, hn, h⟩ := h
  rw [Checked.bind_eq_ok] at h
  obtain ⟨u, hcap, h⟩ := h
  rw [Checked.bind_eq_ok] at h
  obtain ⟨xs, hxs, h⟩ := h
  obtain rfl := Except.ok.inj h
  -- the walk yields as many elements as the shape has, and memory was asked for as many
  have hlen := View.length_of_gather hxs
  have hnum : n = xs.length := (eq_volume_of_numel hn).trans hlen.symm
  rw [hnum] at hn hcap
  exact ⟨hn, hlen, DType.checkCapacity_eq_ok_iff.1 hcap⟩

theorem adds_deepClone (a : NDArray) : a.deepClone.Adds :=
  .bind (.read _) fun _ => adds_ofBuffer _ _ _

/-- **A copy is fresh**, whatever the strides of the original are. -/
theorem fresh_of_deepClone {src : NDArray} (h : src.deepClone w = (.ok a, w')) :
    Fresh w.store w'.store a := by
  unfold deepClone at h
  rw [Action.bind_read_eq_ok] at h
  obtain ⟨b, hb, h⟩ := h
  obtain ⟨-, hsize, hfits⟩ := of_gather (Checked.lift_eq_ok.1 hb)
  exact fresh_of_ofBuffer h hfits hsize

theorem adds_flatten (a : NDArray) : a.flatten.Adds :=
  .bind (.read _) fun _ => .bind (.checked _) fun _ => adds_ofBuffer _ _ _

/-- **So is a flat copy**: its one axis has as many elements as were gathered. -/
theorem fresh_of_flatten {src : NDArray} (h : src.flatten w = (.ok a, w')) :
    Fresh w.store w'.store a := by
  unfold flatten at h
  rw [Action.bind_read_eq_ok] at h
  obtain ⟨b, hb, h⟩ := h
  rw [Action.bind_checked_eq_ok] at h
  obtain ⟨n, hn, h⟩ := h
  obtain ⟨hnumel, -, hfits⟩ := of_gather (Checked.lift_eq_ok.1 hb)
  -- the count that is asked for is the number of elements gathered
  obtain rfl : n = b.size := Except.ok.inj (hn.symm.trans hnumel)
  exact fresh_of_ofBuffer h hfits (Nat.mul_one _).symm

/-! ### Writing -/

/-- **A write keeps the buffers**, refused or not. -/
theorem grows_assign (a : NDArray) (dt : DType) (items : List dt.Elem) :
    (a.assign dt items).Grows :=
  .bind (.answer _) fun _ => .bind (.checked _) fun _ =>
    .check (.bind (.read _) fun _ => Action.grows_write _ _ _)
      (.bind (.read _) fun _ => Action.grows_write _ _ _)

theorem grows_fill (a : NDArray) (dt : DType) (x : dt.Elem) : (a.fill dt x).Grows :=
  .bind (.checked _) fun _ => .bind (.checked _) fun _ => grows_assign _ _ _

theorem grows_copyFrom (a src : NDArray) : (a.copyFrom src).Grows := by
  have hcopy : (Action.read (fun s => (src.gather s).lift) >>= fun b =>
      Action.write a b.dt b.cells.toList).Grows :=
    .bind (.read _) fun b => Action.grows_write a b.dt b.cells.toList
  exact .check (.check hcopy hcopy) (.check hcopy hcopy)

/-! ### Diagonal matrices -/

/-- To put a vector on a diagonal is to make two arrays and to write to the second. -/
theorem grows_diagflat (a : NDArray) (k : Int) : (a.diagflat k).Grows := by
  -- all that follows the check of the size is done whether it is checked or not
  have hfill : ∀ (size : Nat) (v : NDArray), (zeros ⟨[size, size]⟩ v.dt v.device >>= fun m =>
      (liftM (m.diagonal k) : Action NDArray) >>= fun diagonal =>
        diagonal.copyFrom v >>= fun _ => pure m).Grows := fun size v =>
    .bind (adds_zeros _ _ _).grows fun _ => .bind (.answer _) fun _ =>
      .bind (grows_copyFrom _ _) fun _ => .pure _
  exact .bind (adds_flatten a).grows fun v => .bind (.checked _) fun n =>
    .check (hfill _ v) (hfill _ v)

/-- **The matrix around a diagonal is fresh.** -/
theorem fresh_of_diagflat {src : NDArray} {k : Int} (h : src.diagflat k w = (.ok a, w')) :
    Fresh w.store w'.store a := by
  unfold diagflat at h
  rw [Action.bind_eq_ok] at h
  obtain ⟨v, w₁, hv, h⟩ := h
  rw [Action.bind_checked_eq_ok] at h
  obtain ⟨n, -, h⟩ := h
  dsimp only at h
  rw [Action.check_eq_ok, Action.bind_eq_ok] at h
  obtain ⟨-, m, w₂, hm, h⟩ := h
  rw [Action.bind_answer_eq_ok] at h
  obtain ⟨diagonal, -, h⟩ := h
  rw [Action.bind_eq_ok] at h
  obtain ⟨u, w₃, hcopy, h⟩ := h
  obtain ⟨hr, rfl⟩ := Prod.mk.inj h
  obtain rfl := Except.ok.inj hr
  -- the vector is written along the diagonal of a matrix that is new
  have hfresh := (fresh_of_zeros hm).mono (grows_copyFrom diagonal v w₂ _ w₃ hcopy)
  exact hfresh.since (adds_flatten src w _ w₁ hv).toExtends

/-- The diagonal form is that of a vector, that of a matrix, or refused. -/
theorem diag_cases (a : NDArray) (k : Int) :
    (a.rank = 1 ∧ a.diag k = a.diagflat k) ∨
      (a.rank = 2 ∧ a.diag k = Action.ofAnswer (a.diagonal k)) ∨
      (a.rank ≠ 1 ∧ a.rank ≠ 2 ∧
        a.diag k = Action.ofAnswer (reject (.diagonal (.notVectorOrMatrix a.rank)))) := by
  unfold diag
  split
  · rename_i hrank
    exact .inl ⟨hrank, rfl⟩
  · rename_i hrank
    exact .inr (.inl ⟨hrank, rfl⟩)
  · rename_i h₁ h₂
    exact .inr (.inr ⟨h₁, h₂, rfl⟩)

/-- Either direction keeps the buffers. -/
theorem grows_diag (a : NDArray) (k : Int) : (a.diag k).Grows := by
  rcases diag_cases a k with ⟨-, h⟩ | ⟨-, h⟩ | ⟨-, -, h⟩
  · rw [h]
    exact grows_diagflat a k
  · rw [h]
    exact .answer _
  · rw [h]
    exact .answer _

/-- The diagonal form is a fresh matrix or a view of a diagonal. -/
theorem fresh_or_diagonal_of_diag {src : NDArray} {k : Int} (h : src.diag k w = (.ok a, w')) :
    Fresh w.store w'.store a ∨ src.diagonal k = .ok a := by
  rcases diag_cases src k with ⟨-, hdiag⟩ | ⟨-, hdiag⟩ | ⟨-, -, hdiag⟩
  · rw [hdiag] at h
    exact .inl (fresh_of_diagflat h)
  · rw [hdiag] at h
    exact .inr (Prod.mk.inj h).1
  · rw [hdiag] at h
    exact absurd (congrArg Prod.fst h) (by simp [reject])

end NDArray

end Strided
