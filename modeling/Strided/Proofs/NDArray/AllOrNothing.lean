import Strided.Proofs.NDArray.Copies
import Strided.Proofs.NDArray.Results
import Strided.Proofs.View.Gapless

/-!
# All or nothing

A function with an output array makes its result first, which changes no cell that is there, and
then copies it into the output. The copy is refused before it begins or not at all. So a function
that is refused has left no trace (`NDArray.agrees_of_mapUnary_rejected`,
`NDArray.agrees_of_mapBinary_rejected`).

`NDArray.modf` has two outputs, and the second one is looked at when the first has been written.
This file finds out when the split is `NDArray.AllOrNothing`, that is, has a result or no effect.
It always is but for one case, the `NDArray.HalfDone` one: the first output takes the fractions,
and does not hold them already, and the second one refuses the floors. The main result,
`NDArray.modf_allOrNothing_iff`, makes this an equivalence, and `NDArray.modf_leaves_fractions`
is a split of that kind.

What carries the proof is that the two results lie in new buffers (`NDArray.Laid`): the outputs,
which are older, may share storage with the argument and with each other, but not with them, so
the floors can be gathered after the fractions have been written.
-/

namespace Strided.NDArray

open Shape

/-! ### New arrays of given elements -/

/-- **A new array of given elements** in the shape and of the type of `x`, row-major in a buffer
of its own. -/
structure Laid (before s : Store) (x r : NDArray) (items : List x.dt.Elem) : Prop where
  new : before.nextId ≤ r.storage
  shape_eq : r.shape = x.shape
  dt_eq : r.dt = x.dt
  view_eq : View.contiguous x.shape = .ok r.view
  numel_eq : x.numel = .ok items.length
  fits : x.dt.bytes * items.length < signedBound
  buffer_eq : s.buffer? r.storage = some ⟨x.dt, items.toArray⟩

variable {before s s' : Store} {x r o : NDArray} {w w' : World}

namespace Laid

variable {items : List x.dt.Elem}

/-- **What is gathered** from it are the elements. -/
theorem gather_eq (h : Laid before s x r items) : r.gather s = .ok ⟨x.dt, items.toArray⟩ := by
  obtain ⟨-, hshape, hdt, hview, hnumel, hfits, hbuf⟩ := h
  obtain ⟨storage, view, dt, device⟩ := r
  obtain rfl : dt = x.dt := hdt
  have hback : (NDArray.mk storage view x.dt device).Backed s items.toArray := hbuf
  have hcount : (NDArray.mk storage view x.dt device).numel = .ok items.length :=
    (congrArg Shape.numel hshape).trans hnumel
  have hlt : items.toArray.size < signedBound := DType.count_lt hfits
  -- a row-major view of as many elements as the buffer has goes through them in order
  have hgather := View.gather_of_contiguous hview hnumel hlt
  rw [hback.gather_eq]
  unfold readOwn
  rw [hcount, Checked.ok_bind]
  dsimp only
  rw [DType.checkCapacity_eq_ok_iff.2 hfits, Checked.ok_bind, hgather]
  rfl

theorem mono (h : Laid before s x r items) (hs : s.Agrees s') : Laid before s' x r items :=
  ⟨h.new, h.shape_eq, h.dt_eq, h.view_eq, h.numel_eq, h.fits, hs _ _ h.buffer_eq⟩

/-- What was not there yet was not there before. -/
theorem since (h : Laid before s x r items) {earlier : Store}
    (he : earlier.nextId ≤ before.nextId) : Laid earlier s x r items :=
  ⟨le_trans he h.new, h.shape_eq, h.dt_eq, h.view_eq, h.numel_eq, h.fits, h.buffer_eq⟩

/-- Writing to an older buffer does not touch it. -/
theorem replace (h : Laid before s x r items) {id : StorageId} (hid : id < before.nextId)
    (b : Buffer) : Laid before (s.replace id b) x r items := by
  refine ⟨h.new, h.shape_eq, h.dt_eq, h.view_eq, h.numel_eq, h.fits, ?_⟩
  have hne : id ≠ r.storage := Nat.ne_of_lt (Nat.lt_of_lt_of_le hid h.new)
  rw [Store.buffer?_replace, if_neg fun hand => hne hand.1]
  exact h.buffer_eq

end Laid

/-- **The images of the elements**, in a new array. -/
theorem exists_laid {xs : List x.dt.Elem} {v : View} (f : x.dt.Elem → x.dt.Elem)
    (hx : x.toList w.store x.dt = .ok xs) (hlayout : View.contiguous x.shape = .ok v) :
    ∃ r w₁, x.mapElements (⟨x.dt, f⟩ : Elementwise.Kernel x.dt) w = (.ok r, w₁) ∧
      Laid w.store w₁.store x r (xs.map f) := by
  obtain ⟨-, hnumel, -, hfits⟩ := of_toList hx
  have hnumel' : x.shape.numel = .ok (xs.map f).length := by
    rw [List.length_map]
    exact hnumel
  have hfits' : x.dt.bytes * (xs.map f).length < signedBound := by
    rw [List.length_map]
    exact hfits
  have hsize : (Buffer.mk x.dt (xs.map f).toArray).size = (xs.map f).length := rfl
  have hcap : x.dt.checkCapacity (Buffer.mk x.dt (xs.map f).toArray).size = .ok () :=
    DType.checkCapacity_eq_ok_iff.2 hfits'
  -- the new array is the next storage, seen through the row-major view
  refine ⟨⟨w.store.nextId, v, x.dt, x.device⟩,
    { w with store := w.store.push ⟨x.dt, (xs.map f).toArray⟩ }, ?_, ?_⟩
  · unfold mapElements ofArray ofBuffer
    rw [Action.bind_read_ok hx, Action.bind_checked_ok hnumel']
    dsimp only
    rw [if_pos hsize, Action.bind_checked_ok hcap, Action.bind_checked_ok hnumel',
      Action.bind_checked_ok hlayout]
    rfl
  · refine ⟨le_rfl, View.shape_of_contiguous hlayout, rfl, hlayout, hnumel', hfits', ?_⟩
    dsimp only
    rw [Store.buffer?_push, if_pos rfl]

/-! ### Deliveries -/

/-- **An output takes a result** of its own shape and element type. -/
def Takes (o r : NDArray) : Prop := r.shape = o.shape ∧ r.dt = o.dt

instance (o r : NDArray) : Decidable (o.Takes r) := inferInstanceAs (Decidable (_ ∧ _))

/-- **An array that can be written**: it is backed by a buffer and can be walked. -/
def Writable (s : Store) (o : NDArray) : Prop :=
  ∃ cells : Array o.dt.Elem, o.Backed s cells ∧ (Buffer.mk o.dt cells).Fits ∧
    o.view.Walks cells.size

/-- It can be written as long as the buffer is there, whatever the cells hold. -/
theorem Writable.mono (h : o.Writable s) (hs : s.Extends s') : o.Writable s' := by
  obtain ⟨cells, hbuf, hfits, hwalks⟩ := h
  obtain ⟨⟨dt, cells'⟩, hbuf', hdt, hsize⟩ := hs _ _ hbuf
  obtain rfl : dt = o.dt := hdt
  refine ⟨cells', hbuf', hfits.congr rfl hsize, ?_⟩
  have hsize' : cells'.size = cells.size := hsize
  rw [hsize']
  exact hwalks

/-- A result is refused before anything is written. -/
theorem deliver_of_not_takes (h : ¬o.Takes r) (w : World) :
    ∃ e, deliver r (some o) w = (.error (.rejected e), w) := by
  unfold deliver
  by_cases hshape : r.shape = o.shape
  · -- the shape is checked first, and then the element type
    have hdt : r.dt ≠ o.dt := fun hdt => h ⟨hshape, hdt⟩
    exact ⟨_, Action.bind_of_error (copyFrom_of_ne_dtype hshape hdt w)⟩
  · exact ⟨_, Action.bind_of_error (copyFrom_of_ne_shape hshape w)⟩

/-- **A result that is taken** is written to the output, and nothing else is. -/
theorem deliver_of_takes {items : List x.dt.Elem} (hr : Laid before w.store x r items)
    (ho : o.Writable w.store) (ht : o.Takes x) :
    ∃ cells cells' : Array x.dt.Elem, w.store.buffer? o.storage = some ⟨x.dt, cells⟩ ∧
      Written o.view.places items cells cells' ∧ deliver r (some o) w
        = (.ok o, { w with store := w.store.replace o.storage ⟨x.dt, cells'⟩ }) := by
  obtain ⟨hshape, hdt⟩ := ht
  have hcopy := copyFrom_of_gather (hr.shape_eq.trans hshape) (hr.dt_eq.trans hdt) hr.gather_eq
  have hcount : items.length = volume o.shape.dims := by
    rw [← hshape]
    exact eq_volume_of_numel hr.numel_eq
  obtain ⟨storage, view, dt, device⟩ := o
  obtain rfl : x.dt = dt := hdt
  obtain ⟨cells, hbuf, hfits, hwalks⟩ := ho
  have hsize : cells.size ≤ sizeBound := hfits.size_le
  -- the items come from another buffer, so it does not matter what the write changes
  obtain ⟨cells', hwrite, hwritten⟩ := write_eq hbuf hwalks hsize hcount
  refine ⟨cells, cells', hbuf, hwritten, ?_⟩
  unfold deliver
  exact Action.bind_of_ok (hcopy.trans hwrite)

/-- One delivery goes through, or is refused without a trace. -/
theorem deliver_cases {out : Option NDArray} {items : List x.dt.Elem}
    (hr : Laid before w.store x r items) (hout : ∀ o, out = some o → o.Writable w.store) :
    ((∃ a w', deliver r out w = (.ok a, w')) ∧ ∀ o, out = some o → o.Takes x) ∨
      ∃ o e, out = some o ∧ ¬o.Takes x ∧ deliver r out w = (.error (.rejected e), w) := by
  cases out with
  | none => exact .inl ⟨⟨r, w, rfl⟩, fun o ho => absurd ho (by simp)⟩
  | some o =>
    by_cases ht : o.Takes x
    · obtain ⟨cells, cells', -, -, hdeliver⟩ := deliver_of_takes hr (hout o rfl) ht
      refine .inl ⟨⟨_, _, hdeliver⟩, fun o' ho' => ?_⟩
      obtain rfl := Option.some.inj ho'
      exact ht
    · -- the result has the shape and the type of the argument, so the output refuses either of them
      have hr' : ¬o.Takes r := by
        unfold Takes at ht ⊢
        rwa [hr.shape_eq, hr.dt_eq]
      obtain ⟨e, he⟩ := deliver_of_not_takes hr' w
      exact .inr ⟨o, e, rfl, ht, he⟩

/-! ### Functions with one output -/

/-- A write is never refused. -/
theorem write_ne_rejected {dt : DType} {items : List dt.Elem} {e : ArrayError} :
    (Action.write o dt items w).1 ≠ .error (.rejected e) := by
  unfold Action.write
  -- a write has no cells, or scatters the items until the walk ends or faults
  cases (w.store.buffer? o.storage).bind (·.cellsAs dt) with
  | none => exact fun h => absurd h (by simp)
  | some cells =>
    dsimp only
    cases (o.view.offsets.scatter items cells).2 <;> exact fun h => absurd h (by simp)

/-- A refused copy has not begun to write. -/
theorem eq_of_copyFrom_rejected {e : ArrayError}
    (h : o.copyFrom r w = (.error (.rejected e), w')) : w' = w := by
  by_cases hshape : r.shape = o.shape
  swap
  · rw [copyFrom_of_ne_shape hshape] at h
    exact (Prod.mk.inj h).2.symm
  by_cases hdt : r.dt = o.dt
  swap
  · rw [copyFrom_of_ne_dtype hshape hdt] at h
    exact (Prod.mk.inj h).2.symm
  -- the source is gathered, or the copy faults
  rcases hgather : r.gather w.store with f | b
  · rw [copyFrom_of_fault hshape hdt hgather] at h
    exact absurd (congrArg Prod.fst h) (by simp)
  · rw [copyFrom_of_gather hshape hdt hgather] at h
    exact absurd (congrArg Prod.fst h) write_ne_rejected

/-- A result that is made first and then delivered is delivered or leaves no trace. -/
private theorem agrees_of_delivery {x : Action NDArray} {out : Option NDArray} {e : ArrayError}
    (hx : x.Adds) (h : (x >>= fun r => deliver r out) w = (.error (.rejected e), w')) :
    w.store.Agrees w'.store := by
  rcases hw : x w with ⟨e' | r, w₁⟩
  · -- no result was made
    rw [Action.bind_of_error hw] at h
    obtain rfl := (Prod.mk.inj h).2
    exact hx w _ w₁ hw
  · -- a result was made, so the refusal is one of the copy
    rw [Action.bind_of_ok hw] at h
    have hs : w.store.Agrees w₁.store := hx w _ w₁ hw
    cases out with
    | none =>
      have hdeliver : deliver r none w₁ = (.ok r, w₁) := rfl
      rw [hdeliver] at h
      exact absurd (congrArg Prod.fst h) (by simp)
    | some o =>
      change (o.copyFrom r >>= fun _ => pure o) w₁ = _ at h
      rcases hcopy : o.copyFrom r w₁ with ⟨e' | u, w₂⟩
      · rw [Action.bind_of_error hcopy] at h
        obtain ⟨he, rfl⟩ := Prod.mk.inj h
        obtain rfl : e' = .rejected e := Except.error.inj he
        rw [eq_of_copyFrom_rejected hcopy]
        exact hs
      · rw [Action.bind_of_ok hcopy] at h
        exact absurd (Prod.mk.inj h).1 (by simp)

/-- **A function of one argument that is refused** has changed no cell. -/
theorem agrees_of_mapUnary_rejected {f : Elementwise.UnaryFunction} {out : Option NDArray}
    {e : ArrayError} (h : x.mapUnary f out w = (.error (.rejected e), w')) :
    w.store.Agrees w'.store := by
  unfold mapUnary at h
  cases hk : f.kernel? x.dt with
  | none =>
    rw [hk] at h
    obtain rfl := (Prod.mk.inj h).2
    exact .refl _
  | some k =>
    rw [hk] at h
    exact agrees_of_delivery (adds_mapElements x k) h

/-- **A function of two arguments that is refused** has changed no cell. -/
theorem agrees_of_mapBinary_rejected {f : Elementwise.BinaryFunction} {y : NDArray}
    {out : Option NDArray} {e : ArrayError}
    (h : x.mapBinary f y out w = (.error (.rejected e), w')) : w.store.Agrees w'.store := by
  unfold mapBinary at h
  cases hk : f.kernel? x.dt with
  | none =>
    rw [hk] at h
    obtain rfl := (Prod.mk.inj h).2
    exact .refl _
  | some k =>
    rw [hk] at h
    exact agrees_of_delivery (adds_zipElements x y k) h

/-! ### Two deliveries -/

/-- **All or nothing**: there is a result, or there is a refusal and no cell of a buffer has
changed. -/
def AllOrNothing {α : Type} (w : World) (run : Answer α × World) : Prop :=
  (∃ v, run.1 = .ok v) ∨ (∃ e, run.1 = .error (.rejected e)) ∧ w.store.Agrees run.2.store

/-- **Half of the work**: there is an output for the fractions that takes them and does not hold
them already, and an output for the floors that refuses them. -/
def HalfDone (s : Store) (x : NDArray) (out₁ out₂ : Option NDArray) : Prop :=
  ∃ (R : Elementwise.Reals x.dt.Elem) (xs : List x.dt.Elem) (cells : Array x.dt.Elem)
    (o₁ o₂ : NDArray), Elementwise.reals? x.dt = some R ∧ x.toList s x.dt = .ok xs ∧
      out₁ = some o₁ ∧ out₂ = some o₂ ∧ o₁.Takes x ∧ ¬o₂.Takes x ∧
      s.buffer? o₁.storage = some ⟨x.dt, cells⟩ ∧
      ¬Written o₁.view.places (xs.map R.fraction) cells cells

variable {R : Elementwise.Reals x.dt.Elem} {xs : List x.dt.Elem} {v : View}
  {out₁ out₂ : Option NDArray}

/-- Both results are made before the first is delivered. -/
theorem exists_parts (hR : Elementwise.reals? x.dt = some R) (hx : x.toList w.store x.dt = .ok xs)
    (hlayout : View.contiguous x.shape = .ok v) :
    ∃ fraction floor w₂, w.store.Agrees w₂.store ∧
      Laid w.store w₂.store x fraction (xs.map R.fraction) ∧
      Laid w.store w₂.store x floor (xs.map R.floor) ∧
      ∀ out₁ out₂, x.modf out₁ out₂ w
        = (deliver fraction out₁ >>= fun a => deliver floor out₂ >>= fun b => pure (a, b)) w₂ := by
  obtain ⟨fraction, w₁, hfraction, hlaid⟩ := exists_laid R.fraction hx hlayout
  have hs₁ : w.store.Agrees w₁.store := adds_mapElements x _ w _ w₁ hfraction
  -- the argument is read again, from a store with one more buffer
  obtain ⟨floor, w₂, hfloor, hlaid'⟩ := exists_laid R.floor (toList_of_agrees hx hs₁) hlayout
  have hs₂ : w₁.store.Agrees w₂.store := adds_mapElements x _ w₁ _ w₂ hfloor
  refine ⟨fraction, floor, w₂, hs₁.trans hs₂, hlaid.mono hs₂,
    hlaid'.since hs₁.toExtends.nextId_le, fun out₁ out₂ => ?_⟩
  unfold modf
  rw [hR]
  dsimp only
  rw [Action.bind_of_ok hfraction, Action.bind_of_ok hfloor]

/-- **A write that is not undone** shows, unless the items were there already. -/
theorem agrees_replace_iff {dt : DType} {id : StorageId} {cells cells' : Array dt.Elem}
    {ps : List Nat} {items : List dt.Elem} (hs : s.Agrees s')
    (hid : s.buffer? id = some ⟨dt, cells⟩)
    (hwritten : Written ps items cells cells') :
    s.Agrees (s'.replace id ⟨dt, cells'⟩) ↔ Written ps items cells cells := by
  have hid' := hs id _ hid
  have hlt : id < s'.nextId := (Array.getElem?_eq_some_iff.1 hid').1
  constructor
  · -- the buffer that was written to holds what it held
    intro h
    have hnew := h id _ hid
    rw [Store.buffer?_replace, if_pos ⟨rfl, hlt⟩] at hnew
    obtain rfl : cells' = cells := by simpa using hnew
    exact hwritten
  · -- there is one way to write the items, and it changes nothing
    intro h id₁ b hb
    obtain rfl := hwritten.unique h
    rw [Store.buffer?_replace]
    by_cases heq : id = id₁ ∧ id < s'.nextId
    · rw [if_pos heq]
      obtain rfl := heq.1
      exact hid.symm.trans hb
    · rw [if_neg heq]
      exact hs id₁ b hb

/-- Half of the work takes two outputs, one that takes its part and one that refuses it. -/
theorem HalfDone.exists_outputs (h : HalfDone s x out₁ out₂) :
    ∃ o₁ o₂, out₁ = some o₁ ∧ out₂ = some o₂ ∧ o₁.Takes x ∧ ¬o₂.Takes x := by
  obtain ⟨-, -, -, o₁, o₂, -, -, ho₁, ho₂, ht, hrefuses, -⟩ := h
  exact ⟨o₁, o₂, ho₁, ho₂, ht, hrefuses⟩

/-- Between an output that takes the fractions and one that refuses the floors, the work is half
done unless the fractions were there already. -/
theorem halfDone_iff {o₁ o₂ : NDArray} {cells : Array x.dt.Elem}
    (hR : Elementwise.reals? x.dt = some R) (hx : x.toList s x.dt = .ok xs)
    (ht : o₁.Takes x) (hrefuses : ¬o₂.Takes x)
    (hbuf : s.buffer? o₁.storage = some ⟨x.dt, cells⟩) :
    HalfDone s x (some o₁) (some o₂) ↔
      ¬Written o₁.view.places (xs.map R.fraction) cells cells := by
  constructor
  · -- the element type, the elements and the buffer are determined by the array
    rintro ⟨R', xs', cells', o₁', o₂', hR', hx', ho₁, -, -, -, hbuf', hnot⟩
    obtain rfl := Option.some.inj ho₁
    obtain rfl := Option.some.inj (hR.symm.trans hR')
    obtain rfl := Except.ok.inj (hx.symm.trans hx')
    obtain rfl : cells = cells' := by simpa using hbuf.symm.trans hbuf'
    exact hnot
  · intro hnot
    exact ⟨R, xs, cells, o₁, o₂, hR, hx, rfl, rfl, ht, hrefuses, hbuf, hnot⟩

/-- **How a computation ends that may stop half-way**: with a result, or with a refusal that
leaves a trace exactly when half of the work has been done. -/
def EndsWith {α : Type} (w : World) (half : Prop) (run : Answer α × World) : Prop :=
  ((∃ v, run.1 = .ok v) ∧ ¬half) ∨
    (∃ e, run.1 = .error (.rejected e)) ∧ (w.store.Agrees run.2.store ↔ ¬half)

/-- It is all or nothing unless half of the work is done, and it is never left open. -/
theorem EndsWith.allOrNothing_iff {α : Type} {half : Prop} {run : Answer α × World}
    (h : EndsWith w half run) :
    (∀ f, run.1 ≠ .error (.fault f)) ∧ (AllOrNothing w run ↔ ¬half) := by
  rcases h with ⟨⟨r, hr⟩, hno⟩ | ⟨⟨e, he⟩, hiff⟩
  · refine ⟨fun f => ?_, iff_of_true (.inl ⟨r, hr⟩) hno⟩
    rw [hr]
    exact fun h => absurd h (by simp)
  · refine ⟨fun f => ?_, ?_⟩
    · rw [he]
      exact fun h => absurd h (by simp)
    · -- a refusal is all or nothing if it has left no trace
      rw [← hiff]
      constructor
      · rintro (⟨r, hr⟩ | ⟨-, hagrees⟩)
        · exact absurd (hr.symm.trans he) (by simp)
        · exact hagrees
      · exact fun hagrees => .inr ⟨⟨e, he⟩, hagrees⟩

/-- The floors after the fractions have been written. -/
private theorem endsWith_of_written {w₂ : World} {o₁ floor : NDArray}
    {cells cells' : Array x.dt.Elem} (hR : Elementwise.reals? x.dt = some R)
    (hx : x.toList w.store x.dt = .ok xs) (hs : w.store.Agrees w₂.store)
    (hbuf : w.store.buffer? o₁.storage = some ⟨x.dt, cells⟩) (ht : o₁.Takes x)
    (hwritten : Written o₁.view.places (xs.map R.fraction) cells cells')
    (hfloor : Laid w.store w₂.store x floor (xs.map R.floor))
    (hout₂ : ∀ o, out₂ = some o → o.Writable w.store) :
    EndsWith w (HalfDone w.store x (some o₁) out₂)
      ((deliver floor out₂ >>= fun b => pure (o₁, b))
        { w₂ with store := w₂.store.replace o₁.storage ⟨x.dt, cells'⟩ }) := by
  -- neither the floors nor the other output are touched by the first delivery
  have hlt : o₁.storage < w.store.nextId := (Array.getElem?_eq_some_iff.1 hbuf).1
  have hkept : w.store.Extends (w₂.store.replace o₁.storage ⟨x.dt, cells'⟩) :=
    hs.toExtends.trans (.replace (hs _ _ hbuf) rfl hwritten.size_eq)
  have hwrite : ∀ o, out₂ = some o →
      o.Writable (w₂.store.replace o₁.storage ⟨x.dt, cells'⟩) := fun o ho =>
    (hout₂ o ho).mono hkept
  have hlast := deliver_cases
    (w := { w₂ with store := w₂.store.replace o₁.storage ⟨x.dt, cells'⟩ })
    (hfloor.replace hlt ⟨x.dt, cells'⟩) hwrite
  rcases hlast with ⟨⟨b, w', hsecond⟩, htakes⟩ | ⟨o₂, e, rfl, hrefuses, hsecond⟩
  · -- the floors are taken, too
    rw [Action.bind_of_ok hsecond]
    refine .inl ⟨⟨_, rfl⟩, fun hhalf => ?_⟩
    obtain ⟨-, o₂, -, ho₂, -, hrefuses⟩ := hhalf.exists_outputs
    exact hrefuses (htakes o₂ ho₂)
  · -- the floors are refused, and the fractions stay
    rw [Action.bind_of_error hsecond]
    refine .inr ⟨⟨e, rfl⟩, ?_⟩
    rw [halfDone_iff hR hx ht hrefuses hbuf, not_not]
    exact agrees_replace_iff hs hbuf hwritten

/-- **How a split ends.** -/
theorem endsWith_modf (hx : x.toList w.store x.dt = .ok xs)
    (hlayout : View.contiguous x.shape = .ok v)
    (hout₁ : ∀ o, out₁ = some o → o.Writable w.store)
    (hout₂ : ∀ o, out₂ = some o → o.Writable w.store) :
    EndsWith w (HalfDone w.store x out₁ out₂) (x.modf out₁ out₂ w) := by
  cases hR : Elementwise.reals? x.dt with
  | none =>
    -- there are no parts to split the elements into
    have hno : ¬HalfDone w.store x out₁ out₂ := by
      rintro ⟨R, xs', cells, o₁, o₂, hreals, -⟩
      rw [hR] at hreals
      exact absurd hreals (by simp)
    unfold modf
    rw [hR]
    exact .inr ⟨⟨_, rfl⟩, iff_of_true (.refl _) hno⟩
  | some R =>
    obtain ⟨fraction, floor, w₂, hs, hfraction, hfloor, hmodf⟩ := exists_parts hR hx hlayout
    have hwrite₁ : ∀ o, out₁ = some o → o.Writable w₂.store := fun o ho =>
      (hout₁ o ho).mono hs.toExtends
    have hwrite₂ : ∀ o, out₂ = some o → o.Writable w₂.store := fun o ho =>
      (hout₂ o ho).mono hs.toExtends
    rw [hmodf out₁ out₂]
    cases out₁ with
    | none =>
      -- nothing is written before the floors are
      have hno : ¬HalfDone w.store x none out₂ := by
        intro hhalf
        obtain ⟨o₁, -, ho₁, -⟩ := hhalf.exists_outputs
        exact absurd ho₁ (by simp)
      have hfirst : deliver fraction none w₂ = (.ok fraction, w₂) := rfl
      rw [Action.bind_of_ok hfirst]
      -- one delivery is left, and that is made or leaves no trace
      rcases deliver_cases hfloor hwrite₂ with ⟨⟨b, w', hsecond⟩, -⟩ | ⟨o₂, e, -, -, hsecond⟩
      · rw [Action.bind_of_ok hsecond]
        exact .inl ⟨⟨_, rfl⟩, hno⟩
      · rw [Action.bind_of_error hsecond]
        exact .inr ⟨⟨e, rfl⟩, iff_of_true hs hno⟩
    | some o₁ =>
      by_cases ht : o₁.Takes x
      · -- the fractions are written, whatever happens to the floors
        obtain ⟨cells, cells', hbuf, hwritten, hfirst⟩ :=
          deliver_of_takes hfraction (hwrite₁ o₁ rfl) ht
        -- the output is older than the two results, so its cells are those of the beginning
        have hbuf₀ : w.store.buffer? o₁.storage = some ⟨x.dt, cells⟩ := by
          obtain ⟨cells₀, hback, -⟩ := hout₁ o₁ rfl
          rw [← hbuf, hs _ _ hback, hback]
        rw [Action.bind_of_ok hfirst]
        exact endsWith_of_written hR hx hs hbuf₀ ht hwritten hfloor hout₂
      · -- the fractions are refused, and nothing has been written
        have hno : ¬HalfDone w.store x (some o₁) out₂ := by
          intro hhalf
          obtain ⟨o, -, ho, -, ht', -⟩ := hhalf.exists_outputs
          obtain rfl := Option.some.inj ho
          exact ht ht'
        rcases deliver_cases hfraction hwrite₁ with ⟨-, htakes⟩ | ⟨o, e, -, -, hfirst⟩
        · exact absurd (htakes o₁ rfl) ht
        · rw [Action.bind_of_error hfirst]
          exact .inr ⟨⟨e, rfl⟩, iff_of_true hs hno⟩

/-- **A split is all or nothing unless half of the work is done.** The argument can be read and
its shape laid out anew, and the outputs can be written; apart from that the arrays may be of any
shape and type and share storages in any way. There is always a result or a refusal. -/
theorem modf_allOrNothing_iff (hx : x.toList w.store x.dt = .ok xs)
    (hlayout : View.contiguous x.shape = .ok v)
    (hout₁ : ∀ o, out₁ = some o → o.Writable w.store)
    (hout₂ : ∀ o, out₂ = some o → o.Writable w.store) :
    (∀ f, (x.modf out₁ out₂ w).1 ≠ .error (.fault f)) ∧
      (AllOrNothing w (x.modf out₁ out₂ w) ↔ ¬HalfDone w.store x out₁ out₂) :=
  (endsWith_modf hx hlayout hout₁ hout₂).allOrNothing_iff

/-! ### A split that stops half-way -/

/-- Two equal numbers. -/
def twoHalves : Array DType.f64.Elem := #[2.5, 2.5]

/-- Two different numbers. -/
def zeroOne : Array DType.f64.Elem := #[0, 1]

/-- Three numbers. -/
def threeZeros : Array DType.f64.Elem := #[0, 0, 0]

/-- A world of all of them. -/
def threeBuffers : World :=
  .holding [⟨.f64, twoHalves⟩, ⟨.f64, zeroOne⟩, ⟨.f64, threeZeros⟩]

/-- The whole of buffer `id`, which has `n` cells. -/
def row (id n : Nat) : NDArray := lineOver id n .f64 .host

theorem toList_row : (row 0 2).toList threeBuffers.store .f64 = .ok [2.5, 2.5] := rfl

/-- The whole of a buffer of numbers can be written. -/
theorem writable_row {id : Nat} {cells : Array DType.f64.Elem}
    (hbuf : s.buffer? id = some ⟨.f64, cells⟩) (hfits : (Buffer.mk .f64 cells).Fits) :
    (row id cells.size).Writable s := by
  have hgapless : (row id cells.size).view.Gapless := rfl
  have hone : volume [cells.size] = cells.size := Nat.mul_one _
  have hspan : span [cells.size] < sizeBound := by
    have hlt : cells.size < signedBound := hfits.size_lt
    have hle := signedBound_lt_sizeBound
    rw [span_cons, span_nil]
    unfold sizeBound at hle ⊢
    omega
  refine ⟨cells, hbuf, hfits, hgapless.walks (numel_of_span hspan) ?_ hfits.size_lt⟩
  exact le_of_eq ((Nat.zero_add _).trans hone)

theorem writable_zeroOne : (row 1 2).Writable threeBuffers.store := by
  have hbuf : threeBuffers.store.buffer? 1 = some ⟨.f64, zeroOne⟩ := rfl
  exact writable_row hbuf (by decide)

theorem writable_threeZeros : (row 2 3).Writable threeBuffers.store := by
  have hbuf : threeBuffers.store.buffer? 2 = some ⟨.f64, threeZeros⟩ := rfl
  exact writable_row hbuf (by decide)

/-- Two equal fractions are not zero and one. -/
theorem halfDone_rows :
    HalfDone threeBuffers.store (row 0 2) (some (row 1 2)) (some (row 2 3)) := by
  have hnot : ¬Written (row 1 2).view.places
      ([2.5, 2.5].map Elementwise.double.fraction) zeroOne zeroOne := by
    intro h
    have hplaces : (row 1 2).view.places = [0, 1] := rfl
    rw [hplaces] at h
    have hzero := h.last_eq 0 0 (lastAt_of_nodup (by decide) rfl)
    have hone := h.last_eq 1 1 (lastAt_of_nodup (by decide) rfl)
    -- the two items are one number
    have heq : (0 : Float) = 1 := Option.some.inj (hzero.trans hone.symm)
    exact absurd heq (by decide)
  exact (halfDone_iff rfl toList_row (by decide) (by decide) rfl).2 hnot

/-- **A refused split can leave its fractions behind.** The fractions of two equal numbers go to an
output that holds zero and one, and then the floors are refused by an output of three. -/
theorem modf_leaves_fractions :
    ¬AllOrNothing threeBuffers
      ((row 0 2).modf (some (row 1 2)) (some (row 2 3)) threeBuffers) := by
  have hends : EndsWith threeBuffers
      (HalfDone threeBuffers.store (row 0 2) (some (row 1 2)) (some (row 2 3)))
      ((row 0 2).modf (some (row 1 2)) (some (row 2 3)) threeBuffers) :=
    endsWith_modf toList_row rfl
      (fun _ ho => Option.some.inj ho ▸ writable_zeroOne)
      (fun _ ho => Option.some.inj ho ▸ writable_threeZeros)
  intro hall
  -- the way it ends tells the two apart
  exact hends.allOrNothing_iff.2.1 hall halfDone_rows

/-- With outputs that can be written the split is all or nothing or half done. -/
theorem modf_allOrNothing_iff_rows :
    (row 0 2).toList threeBuffers.store .f64 = .ok [2.5, 2.5] ∧
      View.contiguous (row 0 2).shape = .ok (row 0 2).view ∧
      (row 1 2).Writable threeBuffers.store ∧ (row 2 3).Writable threeBuffers.store ∧
      (AllOrNothing threeBuffers
          ((row 0 2).modf (some (row 1 2)) (some (row 2 3)) threeBuffers) ↔
        ¬HalfDone threeBuffers.store (row 0 2) (some (row 1 2)) (some (row 2 3))) :=
  ⟨toList_row, rfl, writable_zeroOne, writable_threeZeros,
    (modf_allOrNothing_iff toList_row rfl
      (fun _ ho => Option.some.inj ho ▸ writable_zeroOne)
      (fun _ ho => Option.some.inj ho ▸ writable_threeZeros)).2⟩

end Strided.NDArray
