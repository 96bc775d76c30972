import Strided.Proofs.Growth
import Strided.Proofs.NDArray.WriteThrough

/-!
# Copies between overlapping arrays

Two views of one buffer can overlap in such a way that there is no order in which the elements
could be moved one by one: a row and the same row backwards, a matrix and its transpose. A copy
does not look for an order. It reads the whole source before it writes, so that it comes to the
same as assigning what the source has shown before (`NDArray.copyFrom_eq_assign`), and nothing has
to be known about where the two arrays lie.

The main result is `NDArray.copyFrom_simultaneous`. Beside the accepted and the refused copies it
has the one that does neither: the elements that are read need memory, and a source that repeats
its cells may have more of them than there is memory for (`NDArray.repeated_copy_faults`).

`Store.ChangedOnly` says which cells a computation may have changed, and for the cells an array
covers (`NDArray.Covers`) this is what a write through it leaves alone. It is a statement about
cells and not about storages, so that it says something about the arrays that overlap the
destination, too (`NDArray.toList_of_changedOnly`).
-/

namespace Strided

/-! ### Cells that are left alone -/

/-- **The cells of one store are in the other, apart from those that have been touched.** The
buffers keep their element types and their sizes, and there may be more of them. -/
def Store.ChangedOnly (touched : StorageId → Nat → Prop) (s s' : Store) : Prop :=
  ∀ (id : StorageId) (dt : DType) (cells : Array dt.Elem), s.buffer? id = some ⟨dt, cells⟩ →
    ∃ cells' : Array dt.Elem, s'.buffer? id = some ⟨dt, cells'⟩ ∧ cells'.size = cells.size ∧
      ∀ p, ¬touched id p → cells'[p]? = cells[p]?

namespace Store.ChangedOnly

variable {touched touched' : StorageId → Nat → Prop} {s s₁ s₂ : Store}

/-- What two steps have changed, one or the other has touched. -/
theorem trans (h₁ : s.ChangedOnly touched s₁) (h₂ : s₁.ChangedOnly touched s₂) :
    s.ChangedOnly touched s₂ := by
  intro id dt cells hcells
  -- the buffer has cells of the same type and number in between
  obtain ⟨cells₁, hcells₁, hsize₁, heq₁⟩ := h₁ id dt cells hcells
  obtain ⟨cells₂, hcells₂, hsize₂, heq₂⟩ := h₂ id dt cells₁ hcells₁
  exact ⟨cells₂, hcells₂, hsize₂.trans hsize₁, fun p hp => (heq₂ p hp).trans (heq₁ p hp)⟩

theorem mono (h : s.ChangedOnly touched s₁) (hle : ∀ id p, touched id p → touched' id p) :
    s.ChangedOnly touched' s₁ := by
  intro id dt cells hcells
  obtain ⟨cells₁, hcells₁, hsize, heq⟩ := h id dt cells hcells
  exact ⟨cells₁, hcells₁, hsize, fun p hp => heq p fun htouched => hp (hle id p htouched)⟩

theorem toExtends (h : s.ChangedOnly touched s₁) : s.Extends s₁ := by
  rintro id ⟨dt, cells⟩ hcells
  obtain ⟨cells₁, hcells₁, hsize, -⟩ := h id dt cells hcells
  exact ⟨_, hcells₁, rfl, hsize⟩

/-- A buffer without touched cells is as it was. -/
theorem buffer?_eq {id : StorageId} {b : Buffer} (h : s.ChangedOnly touched s₁)
    (hb : s.buffer? id = some b) (hfree : ∀ p, ¬touched id p) : s₁.buffer? id = some b := by
  obtain ⟨dt, cells⟩ := b
  obtain ⟨cells₁, hb₁, -, heq⟩ := h id dt cells hb
  obtain rfl : cells₁ = cells := Array.ext_getElem? fun p => heq p (hfree p)
  exact hb₁

end Store.ChangedOnly

/-- New buffers touch no cell. -/
theorem Store.Agrees.changedOnly {s s' : Store} (h : s.Agrees s')
    (touched : StorageId → Nat → Prop) : s.ChangedOnly touched s' :=
  fun id _ cells hcells => ⟨cells, h id _ hcells, rfl, fun _ _ => rfl⟩

/-- A store that agrees with what a store has become has changed no more cells. -/
theorem Store.Agrees.trans_changedOnly {s s₁ s₂ : Store} {touched : StorageId → Nat → Prop}
    (h : s.Agrees s₁) (h₁ : s₁.ChangedOnly touched s₂) : s.ChangedOnly touched s₂ :=
  (h.changedOnly touched).trans h₁

/-- **Changes to new buffers only** leave those that were there before. -/
theorem Store.Agrees.trans_new {s s₁ s₂ : Store} {touched : StorageId → Nat → Prop}
    (h : s.Agrees s₁) (h₁ : s₁.ChangedOnly touched s₂)
    (hnew : ∀ id p, touched id p → s.nextId ≤ id) : s.Agrees s₂ := fun id b hb =>
  h₁.buffer?_eq (h id b hb) fun p hp => absurd (Store.lt_nextId hb) (Nat.not_lt.2 (hnew id p hp))

namespace NDArray

/-- **The cells of the elements of an array.** -/
def Covers (a : NDArray) (id : StorageId) (p : Nat) : Prop := id = a.storage ∧ p ∈ a.view.places

variable {s s' : Store} {a src : NDArray} {w : World}

/-- Writing items at the places of an array touches the cells it covers. -/
theorem changedOnly_of_written {items : List a.dt.Elem} {cells cells' : Array a.dt.Elem}
    (hbuf : a.Backed s cells) (h : Written a.view.places items cells cells') :
    s.ChangedOnly a.Covers (s.replace a.storage ⟨a.dt, cells'⟩) := by
  intro id dt old hold
  rw [Store.buffer?_replace]
  by_cases hid : a.storage = id
  · subst hid
    -- this is the buffer that has been written to
    have heq : (⟨dt, old⟩ : Buffer) = ⟨a.dt, cells⟩ := Option.some.inj (hold.symm.trans hbuf)
    obtain ⟨rfl, hcells⟩ := Buffer.mk.inj heq
    obtain rfl := eq_of_heq hcells
    rw [if_pos ⟨rfl, Store.lt_nextId hold⟩]
    exact ⟨cells', rfl, h.size_eq, fun p hp => h.rest_eq p fun hmem => hp ⟨rfl, hmem⟩⟩
  · rw [if_neg fun hand => hid hand.1]
    exact ⟨old, hold, rfl, fun _ _ => rfl⟩

/-- What has been read was in a buffer. -/
theorem exists_backed_of_toList {dt : DType} {items : List dt.Elem}
    (h : a.toList s dt = .ok items) : ∃ cells : Array a.dt.Elem, a.Backed s cells := by
  obtain rfl := (of_toList h).1
  have hdt : a.checkDType a.dt = .ok () := if_pos rfl
  unfold toList NDArray.cells buffer at h
  rw [hdt, Checked.ok_bind] at h
  unfold Backed
  cases hb : s.buffer? a.storage with
  | none =>
    rw [hb] at h
    exact absurd h (by simp)
  | some b =>
    rw [hb] at h
    obtain ⟨dt, cells⟩ := b
    by_cases hne : dt = a.dt
    · subst hne
      exact ⟨cells, rfl⟩
    · -- a buffer of another type would have been refused
      rw [Answer.liftM_checked, Checked.lift_ok, Checked.ok_bind] at h
      dsimp only at h
      rw [Buffer.cellsAs_eq_none_iff.2 hne] at h
      exact absurd h (by simp [reject])

/-- A larger store reads the same. -/
theorem toList_of_agrees {dt : DType} {items : List dt.Elem} (h : a.toList s dt = .ok items)
    (hs : s.Agrees s') : a.toList s' dt = .ok items := by
  obtain ⟨cells, hbuf⟩ := exists_backed_of_toList h
  rw [toList_congr ((hs _ _ hbuf).trans hbuf.symm)]
  exact h

/-- **An array shows the same as before** if no cell of its elements has been touched. -/
theorem toList_of_changedOnly {touched : StorageId → Nat → Prop} {dt : DType}
    {items : List dt.Elem} {cells : Array a.dt.Elem} (h : s.ChangedOnly touched s')
    (hbuf : a.Backed s cells) (hfits : (Buffer.mk a.dt cells).Fits)
    (hwalks : a.view.Walks cells.size) (hfree : ∀ p ∈ a.view.places, ¬touched a.storage p)
    (hread : a.toList s dt = .ok items) : a.toList s' dt = .ok items := by
  obtain rfl := (of_toList hread).1
  obtain ⟨cells', hbuf', hsize, heq⟩ := h a.storage a.dt cells hbuf
  obtain ⟨hcap, hitems⟩ := (toList_eq_ok_iff hbuf hwalks hfits.size_le).1 hread
  rw [← hsize] at hwalks
  refine (toList_eq_ok_iff hbuf' hwalks ?_).2 ⟨hcap, ?_⟩
  · rw [hsize]
    exact hfits.size_le
  · -- place by place the cell is the same, since none of them was touched
    rw [← hitems]
    exact List.map_congr_left fun p hp => heq p (hfree p hp)

/-- **Without repetitions an array shows what has been written to it.** -/
theorem toList_of_written {items : List a.dt.Elem} {cells cells' : Array a.dt.Elem}
    (hbuf : a.Backed s cells') (hfits : (Buffer.mk a.dt cells).Fits)
    (hwalks : a.view.Walks cells.size) (hd : a.view.Distinct)
    (hlen : items.length = Shape.volume a.shape.dims)
    (h : Written a.view.places items cells cells') : a.toList s a.dt = .ok items := by
  -- as many elements as cells at most, so reading has the memory
  have hcap := fits_volume hfits hd hwalks.inBounds
  have hnodup := hd.nodup_places hwalks.inBounds
  rw [← h.size_eq] at hwalks
  refine (toList_eq_ok_iff hbuf hwalks ?_).2 ⟨hcap, ?_⟩
  · rw [h.size_eq]
    exact hfits.size_le
  · exact h.map_places hnodup (hlen.trans (View.length_places _).symm)

/-- What can be read is gathered. -/
theorem gather_of_toList {dt : DType} {items : List dt.Elem} (h : a.toList s dt = .ok items) :
    a.gather s = .ok ⟨dt, items.toArray⟩ := by
  obtain ⟨cells, hbuf⟩ := exists_backed_of_toList h
  obtain rfl := (of_toList h).1
  -- reading and gathering are one computation
  have heq := hbuf.gather_eq_toList
  rw [h] at heq
  exact Checked.lift_eq_ok.1 heq

/-- Elements that do not fit the memory are not gathered. -/
theorem gather_of_no_memory {cells : Array a.dt.Elem} (hbuf : a.Backed s cells)
    (hnumel : a.numel = .ok (Shape.volume a.shape.dims))
    (hcap : ¬a.dt.bytes * Shape.volume a.shape.dims < signedBound) :
    a.gather s = .error .capacity := by
  rw [hbuf.gather_eq]
  unfold readOwn
  rw [hnumel, Checked.ok_bind, DType.checkCapacity_eq_error hcap]
  rfl

/-! ### Copies as assignments -/

/-- **A copy is the assignment of what the source shows.** The destination is only asked for its
buffer; the two arrays may overlap in any way, and repeat their own cells. -/
theorem copyFrom_eq_assign {cells : Array a.dt.Elem} {dt : DType} {old : List dt.Elem}
    (hbuf : a.Backed w.store cells) (hshape : src.shape = a.shape) (hdt : src.dt = a.dt)
    (hold : src.toList w.store dt = .ok old) : a.copyFrom src w = a.assign dt old w := by
  obtain ⟨rfl, hnumel, -, -⟩ := of_toList hold
  rw [copyFrom_of_gather hshape hdt (gather_of_toList hold)]
  -- the two element types have to be one before the items can be written
  obtain ⟨storage, view, dt, device⟩ := src
  obtain rfl : dt = a.dt := hdt
  have hcheck : a.checkDType a.dt = .ok () := if_pos rfl
  -- the shapes agree, so the check of the number passes
  have hcount : a.numel = .ok old.length := (congrArg Shape.numel hshape.symm).trans hnumel
  unfold assign
  rw [Action.bind_answer_ok hcheck, Action.bind_checked_ok hcount]
  dsimp only
  rw [if_pos rfl, Action.bind_read_ok hbuf.cells_eq]

/-- **A source that can be read is copied**, to an array of its shape and element type. -/
theorem exists_copyFrom {cells : Array a.dt.Elem} {dt : DType} {old : List dt.Elem}
    (hbuf : a.Backed w.store cells) (hfits : (Buffer.mk a.dt cells).Fits)
    (hwalks : a.view.Walks cells.size) (hshape : src.shape = a.shape) (hdt : src.dt = a.dt)
    (hold : src.toList w.store dt = .ok old) :
    ∃ w', a.copyFrom src w = (.ok (), w') ∧ a.assign dt old w = (.ok (), w') ∧
      (a.view.Distinct → a.toList w'.store dt = .ok old) ∧
      w.store.ChangedOnly a.Covers w'.store := by
  have heq := copyFrom_eq_assign hbuf hshape hdt hold
  obtain ⟨rfl, -, hcount, -⟩ := of_toList hold
  rw [heq]
  obtain ⟨storage, view, dt, device⟩ := src
  obtain rfl : dt = a.dt := hdt
  have hlen : old.length = Shape.volume a.shape.dims := by
    rw [← hshape]
    exact hcount
  obtain ⟨cells', hassign, hwritten⟩ := assign_eq hbuf hwalks hfits.size_le hlen
  refine ⟨_, hassign, hassign, fun hd => ?_, changedOnly_of_written hbuf hwritten⟩
  -- the buffer now holds what was written
  have hbuf' : a.Backed (w.store.replace a.storage ⟨a.dt, cells'⟩) cells' := by
    rw [Backed, Store.buffer?_replace, if_pos ⟨rfl, Store.lt_nextId hbuf⟩]
  exact toList_of_written hbuf' hfits hwalks hd hlen hwritten

end NDArray

/-! ### Faults of a layout -/

/-- **A computation that does not miss a buffer**: whatever fault it ends in, a storage that is not
there or holds other elements is not the cause. -/
def Checked.NeverStray {α : Type} (x : Checked α) : Prop := x ≠ .error .strayStorage

namespace Checked.NeverStray

variable {α β : Type} {x : Checked α} {f : α → Checked β}

theorem ok (a : α) : NeverStray (.ok a) := fun h => absurd h (by simp)

/-- A chain misses no buffer if none of its links does. -/
theorem bind (hx : x.NeverStray) (hf : ∀ a, (f a).NeverStray) : (x >>= f).NeverStray := by
  cases x with
  | ok a => exact hf a
  | error e => exact fun h => hx (congrArg Except.error (Except.error.inj h))

theorem checkSize (n : Nat) : (Strided.checkSize n).NeverStray := by
  unfold Strided.checkSize
  split <;> exact fun h => absurd h (by simp)

theorem checkSigned (z : Int) : (Strided.checkSigned z).NeverStray := by
  unfold Strided.checkSigned
  split <;> exact fun h => absurd h (by simp)

theorem checkCapacity (dt : DType) (n : Nat) : (dt.checkCapacity n).NeverStray := by
  unfold DType.checkCapacity checkMemory
  split <;> exact fun h => absurd h (by simp)

theorem readAt (cells : Array α) (p : Nat) : (Offsets.readAt cells p).NeverStray := by
  unfold Offsets.readAt
  split <;> exact fun h => absurd h (by simp)

theorem numel (shape : Shape) : shape.numel.NeverStray := by
  -- on the sizes that are left, for any product so far
  have hfold : ∀ (dims : List Nat) (n : Nat),
      (dims.foldlM (fun n dim => Strided.checkSize (n * dim)) n).NeverStray := by
    intro dims
    induction dims with
    | nil => exact ok
    | cons dim dims ih => exact fun n => .bind (.checkSize _) ih
  exact hfold shape.dims 1

/-- A move overflows, or comes to an axis without a stride. -/
theorem advance (dims : List Nat) (steps : List Int) (index : List Nat) (position : Int) :
    (Odometer.advance dims steps index position).NeverStray := by
  induction dims generalizing steps index position with
  | nil => exact ok _
  | cons dim dims ih =>
    cases index with
    | nil => exact ok _
    | cons i index =>
      refine .bind (ih steps.tail index position) fun ⟨carry, index', position'⟩ => ?_
      dsimp only
      -- the later axes have moved, and then there is nothing left to do
      split
      · exact ok _
      cases steps.head? with
      | none => exact fun h => absurd (Except.error.inj h) (by simp)
      | some step =>
        refine .bind (.checkSigned _) fun moved => ?_
        split
        · exact ok _
        · exact .bind (.checkSigned _) fun way => .bind (.checkSigned _) fun _ => ok _

/-- A call of the walk moves on at most. -/
theorem next (o : Odometer) : o.next.NeverStray := by
  unfold Odometer.next
  split
  · exact ok _
  · exact ok _
  · exact .bind (.advance _ _ _ _) fun _ => ok _

/-- A walk begins with the count of the elements. -/
theorem odometer (v : View) : v.odometer.NeverStray := .bind (.numel _) fun _ => ok _

/-- Reading along a walk moves on and reads, again and again. -/
theorem walk (cells : Array α) (n : Nat) (o : Odometer) : (o.gather cells n).NeverStray := by
  induction n generalizing o with
  | zero => exact ok _
  | succ n ih =>
    refine .bind (.next o) fun found => ?_
    rcases found with _ | ⟨p, o'⟩
    · exact ok _
    · exact .bind (.readAt cells p) fun _ => .bind (ih o') fun _ => ok _

/-- **So reading through a view never misses a buffer.** -/
theorem gather (v : View) (cells : Array α) : (v.gather cells).NeverStray :=
  .bind (.odometer v) fun o => walk cells _ o

end Checked.NeverStray

/-- A walk over all offsets ends in a fault of one of its moves. -/
theorem Odometer.fault_drain_ne_strayStorage (n : Nat) (o : Odometer) :
    (o.drain n).fault ≠ some .strayStorage := by
  induction n generalizing o with
  | zero => exact fun h => absurd h (by simp [drain])
  | succ n ih =>
    unfold drain
    have hnext := Checked.NeverStray.next o
    rcases hfound : o.next with f | _ | ⟨p, o'⟩
    · rw [hfound] at hnext
      exact fun h => hnext (congrArg Except.error (Option.some.inj h))
    · exact fun h => absurd h (by simp)
    · exact ih o'

/-- The walk over a view is one over all offsets from its start on. -/
theorem View.fault_offsets_ne_strayStorage (v : View) : v.offsets.fault ≠ some .strayStorage := by
  unfold offsets
  have hstart := Checked.NeverStray.odometer v
  rcases hfound : v.odometer with f | o
  · rw [hfound] at hstart
    exact fun h => hstart (congrArg Except.error (Option.some.inj h))
  · exact Odometer.fault_drain_ne_strayStorage _ o

/-- Writes end outside the buffer, if they do not come to their end. -/
theorem Offsets.writeAll_ne_strayStorage {α : Type} (writes : List (Nat × α)) (cells : Array α) :
    (writeAll writes cells).2 ≠ some .strayStorage := by
  induction writes generalizing cells with
  | nil => exact fun h => absurd h (by simp [writeAll])
  | cons write writes ih =>
    unfold writeAll
    split
    · exact ih _
    · exact fun h => absurd h (by simp)

/-- Along a view, writes end in a fault of the walk or outside the buffer. -/
theorem View.scatter_ne_strayStorage {α : Type} (v : View) (items : List α) (cells : Array α) :
    (v.offsets.scatter items cells).2 ≠ some .strayStorage := by
  have hall := Offsets.writeAll_ne_strayStorage (v.offsets.items.zip items) cells
  unfold Offsets.scatter
  split
  · exact v.fault_offsets_ne_strayStorage
  · rename_i h
    rwa [h] at hall

namespace NDArray

variable {a src : NDArray} {w : World}

/-- **A copy never finds elements of two types** between arrays whose buffers have their element
types, whatever else is wrong with them. -/
theorem copyFrom_ne_strayStorage {b c : Buffer} (ha : w.store.buffer? a.storage = some b)
    (hadt : b.dt = a.dt) (hs : w.store.buffer? src.storage = some c) (hsdt : c.dt = src.dt) :
    (a.copyFrom src w).1 ≠ .error (.fault .strayStorage) := by
  by_cases hshape : src.shape = a.shape
  -- a difference in shape or type is refused, and that is no fault
  swap
  · rw [copyFrom_of_ne_shape hshape]
    exact fun h => absurd h (by simp)
  by_cases hdt : src.dt = a.dt
  swap
  · rw [copyFrom_of_ne_dtype hshape hdt]
    exact fun h => absurd h (by simp)
  -- the source has a buffer, so that only its layout can be at fault
  have hbuffer : src.buffer w.store = .ok c := by
    unfold buffer
    rw [hs]
  have hrun : src.gather w.store = (do
      c.dt.checkCapacity (← src.numel)
      return ⟨c.dt, (← src.view.gather c.cells).toArray⟩) := by
    unfold gather
    rw [hbuffer, Checked.ok_bind]
  rcases hgather : src.gather w.store with f | g
  · rw [copyFrom_of_fault hshape hdt hgather]
    intro h
    obtain rfl : f = .strayStorage := by simpa using h
    have hnever : (src.gather w.store).NeverStray := by
      rw [hrun]
      exact .bind (.numel _) fun n => .bind (.checkCapacity _ n) fun _ =>
        .bind (.gather _ _) fun _ => .ok _
    exact hnever hgather
  · -- what has been gathered has the type of the destination's buffer
    have hgdt : g.dt = c.dt := by
      rw [hrun] at hgather
      simp only [Checked.bind_eq_ok] at hgather
      obtain ⟨n, -, u, -, items, -, hg⟩ := hgather
      rw [← Except.ok.inj hg]
    rw [copyFrom_of_gather hshape hdt hgather]
    obtain ⟨gdt, gcells⟩ := g
    obtain ⟨bdt, bcells⟩ := b
    obtain rfl : gdt = bdt := hgdt.trans (hsdt.trans (hdt.trans hadt.symm))
    have hcells : (w.store.buffer? a.storage).bind (·.cellsAs gdt) = some bcells := by
      rw [ha, Option.bind_some, Buffer.cellsAs_mk]
    -- the walk for the write may fault, but not for want of a buffer
    have hfault := View.scatter_ne_strayStorage a.view gcells.toList bcells
    unfold Action.write
    rw [hcells]
    dsimp only
    cases hf : (a.view.offsets.scatter gcells.toList bcells).2 with
    | none => exact fun h => absurd h (by simp)
    | some f =>
      rw [hf] at hfault
      exact fun h => hfault (congrArg some (by simpa using h))

/-! ### Copies in general -/

/-- **A copy is one simultaneous assignment.** Both arrays can be walked; they may lie in one buffer
and overlap there in any way. If they agree in shape and element type, and the elements fit the
memory, then the copy succeeds, and it does what an assignment of the old elements of the source
does: where the destination repeats no cell it shows them, and the cells it does not cover are as
they were. Elements that do not fit the memory are a fault and a difference in shape or type is a
refusal, the shape first, and then nothing changes at all. That the two buffers have different
types is never found out during a copy, whatever the arrays, as long as each has its buffer. -/
theorem copyFrom_simultaneous {cells : Array a.dt.Elem} {others : Array src.dt.Elem}
    (hbuf : a.Backed w.store cells) (hfits : (Buffer.mk a.dt cells).Fits)
    (hwalks : a.view.Walks cells.size) (hsrc : src.Backed w.store others)
    (hsrcfits : (Buffer.mk src.dt others).Fits) (hsrcwalks : src.view.Walks others.size) :
    (src.shape = a.shape → src.dt = a.dt →
      (src.dt.bytes * Shape.volume src.shape.dims < signedBound →
        ∃ old w', src.toList w.store src.dt = .ok old ∧ a.copyFrom src w = (.ok (), w') ∧
          a.assign src.dt old w = (.ok (), w') ∧
          (a.view.Distinct → a.toList w'.store src.dt = .ok old) ∧
          w.store.ChangedOnly a.Covers w'.store) ∧
      (¬src.dt.bytes * Shape.volume src.shape.dims < signedBound →
        a.copyFrom src w = (.error (.fault .capacity), w))) ∧
    (src.shape ≠ a.shape →
      a.copyFrom src w = (.error (.rejected (.shapeMismatch a.shape src.shape)), w)) ∧
    (src.shape = a.shape → src.dt ≠ a.dt →
      a.copyFrom src w = (.error (.rejected (.dtypeMismatch a.dt src.dt)), w)) ∧
    ∀ (x y : NDArray) (b c : Buffer), w.store.buffer? x.storage = some b → b.dt = x.dt →
      w.store.buffer? y.storage = some c → c.dt = y.dt →
      (x.copyFrom y w).1 ≠ .error (.fault .strayStorage) := by
  refine ⟨fun hshape hdt => ⟨fun hcap => ?_, fun hcap => ?_⟩,
    fun hshape => copyFrom_of_ne_shape hshape w,
    fun hshape hdt => copyFrom_of_ne_dtype hshape hdt w,
    fun x y b c hx hxdt hy hydt => copyFrom_ne_strayStorage hx hxdt hy hydt⟩
  · -- the elements fit the memory, so the source is read, and then copied
    obtain ⟨old, hold⟩ := exists_toList hsrc hsrcwalks hsrcfits.size_le hcap
    obtain ⟨w', hcopy⟩ := exists_copyFrom hbuf hfits hwalks hshape hdt hold
    exact ⟨old, w', hold, hcopy⟩
  · exact copyFrom_of_fault hshape hdt
      (gather_of_no_memory hsrc (View.numel_of_fault hsrcwalks.fault_eq) hcap)

/-! ### A row and the same row backwards -/

/-- Three numbers in their order. -/
def forward : NDArray := lineOver 0 3 .i32 .host

/-- The same three numbers, the last one first. -/
def backward : NDArray := ⟨0, ⟨⟨[3]⟩, ⟨[-1]⟩, 2⟩, .i32, .host⟩

/-- A row is reversed in place by copying it backwards: every cell is both read and written. -/
theorem copyFrom_simultaneous_backwards :
    forward.Backed (counting 3).store (countTo 3) ∧ (Buffer.mk forward.dt (countTo 3)).Fits ∧
      forward.view.Walks (countTo 3).size ∧ backward.Backed (counting 3).store (countTo 3) ∧
      (Buffer.mk backward.dt (countTo 3)).Fits ∧ backward.view.Walks (countTo 3).size ∧
      ∃ w', forward.copyFrom backward (counting 3) = (.ok (), w') ∧
        forward.toList w'.store .i32 = .ok [3, 2, 1] ∧
        (counting 3).store.ChangedOnly forward.Covers w'.store := by
  have hbuf : forward.Backed (counting 3).store (countTo 3) := rfl
  have hfits : (Buffer.mk forward.dt (countTo 3)).Fits := by decide
  have hwalks : forward.view.Walks (countTo 3).size := ⟨rfl, by decide, by decide⟩
  have hsrc : backward.Backed (counting 3).store (countTo 3) := rfl
  have hback : backward.view.Walks (countTo 3).size := ⟨rfl, by decide, by decide⟩
  obtain ⟨old, w', hold, hcopy, -, hshown, hrest⟩ :=
    ((copyFrom_simultaneous hbuf hfits hwalks hsrc hfits hback).1 rfl rfl).1 (by decide)
  -- what the source shows before the copy
  have hread : backward.toList (counting 3).store .i32 = .ok [3, 2, 1] := rfl
  obtain rfl := Except.ok.inj (hread.symm.trans hold)
  have hdistinct : forward.view.Distinct := by
    unfold View.Distinct
    decide
  exact ⟨hbuf, hfits, hwalks, hsrc, hfits, hback, w', hcopy, hshown hdistinct, hrest⟩

/-! ### A source that is too long -/

/-- The buffer of a zero. -/
def zeroCell : Array Float := #[0]

/-- A one and a zero in buffers of their own. -/
def oneAndZero : World := .holding [⟨.f64, lone .f64⟩, ⟨.f64, zeroCell⟩]

/-- **A copy of one shape and element type may fault.** Both arrays can be walked, but the `2 ^ 60`
elements of the source do not fit the memory. -/
theorem repeated_copy_faults :
    (repeated 1 .f64).Backed oneAndZero.store zeroCell ∧ (repeated 1 .f64).view.Walks 1 ∧
      (repeated 0 .f64).Backed oneAndZero.store (lone .f64) ∧ (repeated 0 .f64).view.Walks 1 ∧
      (Buffer.mk .f64 zeroCell).Fits ∧ (Buffer.mk .f64 (lone .f64)).Fits ∧
      (repeated 0 .f64).shape = (repeated 1 .f64).shape ∧
      (repeated 0 .f64).dt = (repeated 1 .f64).dt ∧
      ∀ w', (repeated 1 .f64).copyFrom (repeated 0 .f64) oneAndZero ≠ (.ok (), w') := by
  have hsrc : (repeated 0 .f64).Backed oneAndZero.store (lone .f64) := rfl
  have hwalks := walks_repeated 0 .f64
  refine ⟨rfl, walks_repeated 1 .f64, hsrc, hwalks, by decide, by decide, rfl, rfl,
    fun w' h => ?_⟩
  have hnumel : (repeated 0 .f64).numel = .ok (Shape.volume (repeated 0 .f64).shape.dims) :=
    View.numel_of_fault hwalks.fault_eq
  -- the elements are counted before any cell is looked at
  have hgather : (repeated 0 .f64).gather oneAndZero.store = .error .capacity :=
    gather_of_no_memory hsrc hnumel (by decide)
  have hcopy : (repeated 1 .f64).copyFrom (repeated 0 .f64) oneAndZero
      = (.error (.fault .capacity), oneAndZero) := copyFrom_of_fault rfl rfl hgather
  exact Action.error_ne_ok hcopy h

end NDArray

end Strided
