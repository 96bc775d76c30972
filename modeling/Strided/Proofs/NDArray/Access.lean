import Strided.NDArray.Create
import Strided.Proofs.View.Access

/-!
# Reading and writing arrays

An array is a view of a buffer, and an operation on it checks several things before it touches
a cell: the element type asked for, the number of elements, the memory they need. This file
reduces the operations to what `Strided.Proofs.View.Access` says about views, for an array that
is `Backed` by cells of its own element type:

* `NDArray.toList_eq_ok_iff` — reading gives the contents of the places, if they fit the
  memory;
* `NDArray.assign_eq` — writing puts the items at the places and does nothing else;
* `NDArray.assign_of_ne_dtype`, `NDArray.assign_of_ne_length` — a refused write does nothing;
* `NDArray.fill_eq`, `NDArray.copyFrom_of_gather` — fills and copies are such writes.

The last section has a few small worlds and arrays, in which theorems about arrays are tried out.
-/

namespace Strided

/-- The elements of a buffer fit the memory. -/
def Buffer.Fits (b : Buffer) : Prop := b.dt.bytes * b.size < signedBound

instance (b : Buffer) : Decidable b.Fits := inferInstanceAs (Decidable (_ < _))

namespace DType

theorem bytes_pos (dt : DType) : 0 < dt.bytes := by cases dt <;> decide

/-- Elements that fit the memory are fewer than there are signed words. -/
theorem count_lt {dt : DType} {n : Nat} (h : dt.bytes * n < signedBound) : n < signedBound :=
  Nat.lt_of_le_of_lt (Nat.le_mul_of_pos_left n dt.bytes_pos) h

theorem bytes_le (dt : DType) : dt.bytes ≤ 16 := by cases dt <;> decide

/-- There is memory for a run of elements if its bytes can be counted by a signed word. -/
theorem checkCapacity_eq_ok_iff {dt : DType} {n : Nat} :
    dt.checkCapacity n = .ok () ↔ dt.bytes * n < signedBound := checkMemory_eq_ok_iff

/-- A longer run is a fault, whatever the elements are for. -/
theorem checkCapacity_eq_error {dt : DType} {n : Nat} (h : ¬dt.bytes * n < signedBound) :
    dt.checkCapacity n = .error .capacity := by
  unfold checkCapacity checkMemory
  rw [if_neg h]

end DType

/-- There are fewer cells than signed words. -/
theorem Buffer.Fits.size_lt {b : Buffer} (h : b.Fits) : b.size < signedBound :=
  DType.count_lt h

theorem Buffer.Fits.size_le {b : Buffer} (h : b.Fits) : b.size ≤ sizeBound :=
  le_trans h.size_lt.le signedBound_lt_sizeBound.le

/-- Whether the elements fit does not depend on what they are. -/
theorem Buffer.Fits.congr {b b' : Buffer} (h : b.Fits) (hdt : b'.dt = b.dt)
    (hsize : b'.size = b.size) : b'.Fits := by
  unfold Buffer.Fits at h ⊢
  rwa [hdt, hsize]

theorem Checked.lift_bind {α β : Type} (x : Checked α) (f : α → Checked β) :
    (x >>= f).lift = (x.lift >>= fun a => (f a).lift) := by
  cases x <;> rfl

namespace NDArray

/-- **The array is a view of a buffer with these cells**, which has the array's element type. -/
def Backed (s : Store) (a : NDArray) (cells : Array a.dt.Elem) : Prop :=
  s.buffer? a.storage = some ⟨a.dt, cells⟩

variable {s : Store} {a : NDArray} {cells : Array a.dt.Elem} {xs : List a.dt.Elem}

/-! ### Reading -/

theorem Backed.buffer_eq (h : a.Backed s cells) : a.buffer s = .ok ⟨a.dt, cells⟩ := by
  unfold buffer
  rw [h]

/-- **What is read depends on the array's own buffer only.** -/
theorem toList_congr {s' : Store} (h : s'.buffer? a.storage = s.buffer? a.storage) (dt : DType) :
    a.toList s' dt = a.toList s dt := by
  unfold toList NDArray.cells buffer
  rw [h]

/-- Its cells are read as elements of the type of the array. -/
theorem Backed.cells_eq (h : a.Backed s cells) : a.cells s a.dt = .ok cells := by
  have hdt : a.checkDType a.dt = .ok () := if_pos rfl
  unfold NDArray.cells
  rw [hdt, Checked.ok_bind, h.buffer_eq, Answer.liftM_checked, Checked.lift_ok, Checked.ok_bind,
    Buffer.cellsAs_mk]
  rfl

/-- An array is not read as elements of another type than its own. -/
theorem toList_of_ne_dtype {dt : DType} (h : dt ≠ a.dt) :
    a.toList s dt = reject (.dtypeMismatch a.dt dt) := by
  have hdt : a.checkDType dt = reject (.dtypeMismatch a.dt dt) := if_neg h
  unfold toList NDArray.cells
  rw [hdt]
  rfl

/-- What it takes to read a run of elements: a count, the memory for them, and the walk. -/
def readOwn (a : NDArray) (cells : Array a.dt.Elem) : Checked (List a.dt.Elem) := do
  let n ← a.numel
  a.dt.checkCapacity n
  a.view.gather cells

/-- Reading a backed array is reading its own cells. -/
theorem Backed.toList_eq (h : a.Backed s cells) : a.toList s a.dt = (a.readOwn cells).lift := by
  unfold toList readOwn
  rw [h.cells_eq, Checked.ok_bind, Checked.lift_bind]
  simp only [Checked.lift_bind, Answer.liftM_checked]

/-- Gathering is reading into a buffer. -/
theorem Backed.gather_eq (h : a.Backed s cells) :
    a.gather s = (a.readOwn cells).map fun xs => ⟨a.dt, xs.toArray⟩ := by
  unfold gather readOwn
  rw [h.buffer_eq, Checked.ok_bind]
  dsimp only
  -- both chains stop at the same link, if they stop
  cases a.numel with
  | error f => rfl
  | ok n =>
    rw [Checked.ok_bind, Checked.ok_bind]
    cases a.dt.checkCapacity n with
    | error f => rfl
    | ok u =>
      rw [Checked.ok_bind, Checked.ok_bind]
      cases a.view.gather cells <;> rfl

/-- What is gathered is what is read. -/
theorem Backed.gather_eq_toList (h : a.Backed s cells) :
    (a.gather s).lift = (a.toList s a.dt).map fun xs => ⟨a.dt, xs.toArray⟩ := by
  rw [h.gather_eq, h.toList_eq]
  cases a.readOwn cells <;> rfl

/-- **Elements without repetitions fit the memory** if their buffer does. -/
theorem fits_volume (hfits : (Buffer.mk a.dt cells).Fits) (hd : a.view.Distinct)
    (hb : a.view.InBounds cells.size) : a.dt.bytes * Shape.volume a.shape.dims < signedBound :=
  lt_of_le_of_lt (Nat.mul_le_mul_left _ (View.volume_le_of_distinct hd hb)) hfits

/-- **What is known once an array has been read**, with nothing assumed about it. -/
theorem of_toList {dt : DType} {xs : List dt.Elem} (h : a.toList s dt = .ok xs) :
    dt = a.dt ∧ a.numel = .ok xs.length ∧ xs.length = Shape.volume a.shape.dims ∧
      dt.bytes * xs.length < signedBound := by
  unfold toList NDArray.cells checkDType at h
  simp only [Answer.liftM_checked, Checked.bind_eq_ok, Checked.lift_eq_ok] at h
  obtain ⟨cells, ⟨u, hdt, -⟩, n, hn, v, hcap, hxs⟩ := h
  have hlen := View.length_of_gather hxs
  obtain rfl : n = xs.length := (Shape.eq_volume_of_numel hn).trans hlen.symm
  refine ⟨?_, hn, hlen, DType.checkCapacity_eq_ok_iff.1 hcap⟩
  -- another element type would have been refused
  by_contra hne
  rw [if_neg hne] at hdt
  exact absurd hdt (by simp [reject])

/-- **Reading gives the contents of the places**, in row-major order, if they fit the memory. -/
theorem toList_eq_ok_iff (h : a.Backed s cells) (hwalks : a.view.Walks cells.size)
    (hsize : cells.size ≤ sizeBound) :
    a.toList s a.dt = .ok xs ↔ a.dt.bytes * Shape.volume a.shape.dims < signedBound ∧
      a.view.places.map (cells[·]?) = xs.map some := by
  have hnumel : a.numel = .ok (Shape.volume a.shape.dims) := View.numel_of_fault hwalks.fault_eq
  rw [h.toList_eq, Checked.lift_eq_ok, readOwn, hnumel, Checked.ok_bind, Checked.bind_eq_ok,
    ← View.gather_eq_ok_iff hwalks hsize]
  constructor
  · rintro ⟨u, hcap, hxs⟩
    exact ⟨DType.checkCapacity_eq_ok_iff.1 hcap, hxs⟩
  · rintro ⟨hcap, hxs⟩
    exact ⟨(), DType.checkCapacity_eq_ok_iff.2 hcap, hxs⟩

/-- An array whose elements fit the memory can be read. -/
theorem exists_toList (h : a.Backed s cells) (hwalks : a.view.Walks cells.size)
    (hsize : cells.size ≤ sizeBound)
    (hcap : a.dt.bytes * Shape.volume a.shape.dims < signedBound) :
    ∃ xs, a.toList s a.dt = .ok xs := by
  -- every place lies in the buffer, so all of them can be read
  obtain ⟨xs, hxs⟩ := View.exists_gather hwalks hsize
  exact ⟨xs, (toList_eq_ok_iff h hwalks hsize).2 ⟨hcap, (View.gather_eq_ok_iff hwalks hsize).1 hxs⟩⟩

/-- One whose elements do not is not read. -/
theorem toList_of_no_room (h : a.Backed s cells)
    (hnumel : a.numel = .ok (Shape.volume a.shape.dims))
    (hcap : ¬a.dt.bytes * Shape.volume a.shape.dims < signedBound) :
    a.toList s a.dt = .error (.fault .capacity) := by
  rw [h.toList_eq, readOwn, hnumel, Checked.ok_bind, DType.checkCapacity_eq_error hcap]
  rfl

/-! ### Reading into another form -/

section Forms

variable {α : Type} (dt : DType) (f : a.dt.Elem → α)

/-- What is read can be given another form, if there is memory for that. -/
theorem map_of_toList (hxs : a.toList s a.dt = .ok xs)
    (hroom : dt.bytes * Shape.volume a.shape.dims < signedBound) :
    (do
      let items ← a.toList s a.dt
      dt.checkCapacity items.length
      return items.map f : Answer (List α)) = .ok (xs.map f) := by
  have hcap : dt.checkCapacity xs.length = .ok () := by
    rw [DType.checkCapacity_eq_ok_iff, (of_toList hxs).2.2.1]
    exact hroom
  rw [hxs, Checked.ok_bind, hcap]
  rfl

/-- **Without the memory nothing is read**, or it is read in vain. -/
theorem map_of_no_room (h : a.Backed s cells) (hwalks : a.view.Walks cells.size)
    (hsize : cells.size ≤ sizeBound)
    (hroom : ¬dt.bytes * Shape.volume a.shape.dims < signedBound) :
    (do
      let items ← a.toList s a.dt
      dt.checkCapacity items.length
      return items.map f : Answer (List α)) = .error (.fault .capacity) := by
  -- the elements may already be too many in their own type
  by_cases hown : a.dt.bytes * Shape.volume a.shape.dims < signedBound
  · obtain ⟨xs, hxs⟩ := exists_toList h hwalks hsize hown
    have hcap : dt.checkCapacity xs.length = .error .capacity :=
      DType.checkCapacity_eq_error (by rw [(of_toList hxs).2.2.1]; exact hroom)
    rw [hxs, Checked.ok_bind, hcap]
    rfl
  · rw [toList_of_no_room h (View.numel_of_fault hwalks.fault_eq) hown]
    rfl

end Forms

/-! ### Writing -/

variable {w : World} {items : List a.dt.Elem}

/-- Writing to a backed array changes the cells of its buffer, and nothing else. -/
theorem write_eq (h : a.Backed w.store cells) (hwalks : a.view.Walks cells.size)
    (hsize : cells.size ≤ sizeBound) (hlen : items.length = Shape.volume a.shape.dims) :
    ∃ cells', Action.write a a.dt items w
        = (.ok (), { w with store := w.store.replace a.storage ⟨a.dt, cells'⟩ }) ∧
      Written a.view.places items cells cells' := by
  obtain ⟨cells', hscatter, hwritten⟩ := View.scatter_eq hwalks hsize hlen
  -- the write finds the buffer, and in it cells of the type of the items
  have hcells : (w.store.buffer? a.storage).bind (·.cellsAs a.dt) = some cells := by
    rw [h, Option.bind_some, Buffer.cellsAs_mk]
  refine ⟨cells', ?_, hwritten⟩
  unfold Action.write
  rw [hcells]
  dsimp only
  rw [hscatter]

/-- **An accepted write**: the items lie at the places of the array afterwards, and nothing else
has changed. -/
theorem assign_eq (h : a.Backed w.store cells) (hwalks : a.view.Walks cells.size)
    (hsize : cells.size ≤ sizeBound) (hlen : items.length = Shape.volume a.shape.dims) :
    ∃ cells', a.assign a.dt items w
        = (.ok (), { w with store := w.store.replace a.storage ⟨a.dt, cells'⟩ }) ∧
      Written a.view.places items cells cells' := by
  obtain ⟨cells', hwrite, hwritten⟩ := write_eq h hwalks hsize hlen
  -- the checks pass: the type is that of the array, and the number that of its elements
  have hnumel : a.numel = .ok items.length :=
    (View.numel_of_fault hwalks.fault_eq).trans (congrArg Except.ok hlen.symm)
  have hdt : a.checkDType a.dt = .ok () := if_pos rfl
  refine ⟨cells', ?_, hwritten⟩
  unfold assign
  rw [Action.bind_answer_ok hdt, Action.bind_checked_ok hnumel]
  dsimp only
  rw [if_pos rfl, Action.bind_read_ok h.cells_eq, hwrite]

/-! ### Refused writes -/

/-- Items of another element type are refused before anything else is looked at. -/
theorem assign_of_ne_dtype {dt : DType} (h : dt ≠ a.dt) (items : List dt.Elem) (w : World) :
    a.assign dt items w = (.error (.rejected (.dtypeMismatch a.dt dt)), w) :=
  Action.bind_answer_error (if_neg h) _ w

/-- Items in a wrong number are refused as items of another shape. -/
theorem assign_of_ne_length {n : Nat} (hnumel : a.numel = .ok n) (h : items.length ≠ n)
    (w : World) :
    a.assign a.dt items w = (.error (.rejected (.shapeMismatch a.shape ⟨[items.length]⟩)), w) := by
  have hdt : a.checkDType a.dt = .ok () := if_pos rfl
  unfold assign
  rw [Action.bind_answer_ok hdt, Action.bind_checked_ok hnumel]
  dsimp only
  rw [if_neg h]
  exact Action.bind_answer_error rfl _ w

/-- Filling writes a list, if there is memory for it. -/
theorem fill_eq {dt : DType} {n : Nat} (hnumel : a.numel = .ok n)
    (hcap : dt.bytes * n < signedBound) (x : dt.Elem) (w : World) :
    a.fill dt x w = a.assign dt (List.replicate n x) w := by
  unfold fill
  rw [Action.bind_checked_ok hnumel,
    Action.bind_checked_ok (DType.checkCapacity_eq_ok_iff.2 hcap)]

/-- Without memory for the list nothing is filled, and nothing is refused either. -/
theorem fill_of_no_memory {dt : DType} {n : Nat} (hnumel : a.numel = .ok n)
    (hcap : ¬dt.bytes * n < signedBound) (x : dt.Elem) (w : World) :
    a.fill dt x w = (.error (.fault .capacity), w) := by
  unfold fill
  rw [Action.bind_checked_ok hnumel]
  exact Action.bind_checked_error (DType.checkCapacity_eq_error hcap) _ w

/-! ### Copies -/

variable {src : NDArray}

/-- A source of another shape is refused first. -/
theorem copyFrom_of_ne_shape (h : src.shape ≠ a.shape) (w : World) :
    a.copyFrom src w = (.error (.rejected (.shapeMismatch a.shape src.shape)), w) := by
  unfold copyFrom
  rw [if_neg h]
  exact Action.bind_answer_error rfl _ w

/-- A source of another element type is refused next. -/
theorem copyFrom_of_ne_dtype (hshape : src.shape = a.shape) (h : src.dt ≠ a.dt) (w : World) :
    a.copyFrom src w = (.error (.rejected (.dtypeMismatch a.dt src.dt)), w) := by
  unfold copyFrom
  rw [if_pos hshape]
  dsimp only
  rw [if_neg h]
  exact Action.bind_answer_error rfl _ w

/-- **An accepted copy** gathers the source and then writes. -/
theorem copyFrom_of_gather {b : Buffer} (hshape : src.shape = a.shape) (hdt : src.dt = a.dt)
    (h : src.gather w.store = .ok b) : a.copyFrom src w = Action.write a b.dt b.cells.toList w := by
  have hread : (src.gather w.store).lift = .ok b := by rw [h, Checked.lift_ok]
  unfold copyFrom
  rw [if_pos hshape]
  dsimp only
  rw [if_pos hdt, Action.bind_read_ok hread]

/-- A copy whose source cannot be gathered writes nothing. -/
theorem copyFrom_of_fault {f : Fault} (hshape : src.shape = a.shape) (hdt : src.dt = a.dt)
    (h : src.gather w.store = .error f) : a.copyFrom src w = (.error (.fault f), w) := by
  have hread : (src.gather w.store).lift = .error (.fault f) := by rw [h, Checked.lift_error]
  unfold copyFrom
  rw [if_pos hshape]
  dsimp only
  rw [if_pos hdt]
  exact Action.bind_read_error hread _

end NDArray

/-! ### Small worlds -/

/-- **The world of some buffers**, in which nothing has been called. -/
def World.holding (buffers : List Buffer) : World := ⟨⟨buffers.toArray⟩, []⟩

/-- The numbers from one to `n`. -/
def countTo (n : Nat) : Array DType.i32.Elem :=
  ((List.range' 1 n).map Int32.ofNat).toArray

/-- The world of the numbers from one to `n`. -/
def counting (n : Nat) : World := .holding [⟨.i32, countTo n⟩]

/-- A cell that holds the one of an element type. -/
def lone (dt : DType) : Array dt.Elem := #[dt.one]

/-- The world of a single cell. -/
def alone (dt : DType) : World := .holding [⟨dt, lone dt⟩]

namespace NDArray

/-- The row-major array with a single axis over the whole of a buffer. -/
def lineOver (id : StorageId) (n : Nat) (dt : DType) (device : Device) : NDArray :=
  ⟨id, ⟨⟨[n]⟩, ⟨Strides.denseSteps [n]⟩, 0⟩, dt, device⟩

/-- The numbers of the first buffer in rows, one row after the other. -/
def inRows (rows cols : Nat) : NDArray := ⟨0, ⟨⟨[rows, cols]⟩, ⟨[cols, 1]⟩, 0⟩, .i32, .host⟩

/-- The first cell of a buffer, repeated `2 ^ 60` times. -/
def repeated (id : StorageId) (dt : DType) : NDArray :=
  ⟨id, ⟨⟨[1152921504606846976]⟩, ⟨[0]⟩, 0⟩, dt, .host⟩

end NDArray

end Strided
