import Strided.View
import Strided.DType

/-!
# Buffers

A `Buffer` is a run of elements of one type. Elements are read and written at the
positions of a walk (`Strided.View`): `Offsets.gather` reads them in the order of the
walk, and `Offsets.scatter` writes one item after the other, so that of several writes to
one cell the last one stays, and a walk that ends in a fault leaves the writes before it.

`View.gather` reads the elements of a view while walking, so that a view of any extent
that leaves the buffer is found out at the first position outside. It gives what reading
along the whole list of positions gives (`View.gather_eq`).
-/

namespace Strided

/-- **A run of elements of one type.** -/
structure Buffer where
  dt : DType
  cells : Array dt.Elem

namespace Buffer

/-- The number of elements. -/
def size (b : Buffer) : Nat := b.cells.size

/-- A buffer that repeats one element. -/
def filled (dt : DType) (x : dt.Elem) (n : Nat) : Checked Buffer := do
  dt.checkCapacity n
  return ⟨dt, Array.replicate n x⟩

/-- A buffer of zeros. -/
def zeros (dt : DType) (n : Nat) : Checked Buffer := filled dt dt.zero n

/-- A buffer of ones. -/
def ones (dt : DType) (n : Nat) : Checked Buffer := filled dt dt.one n

/-- The cells, if they hold elements of the type asked for. -/
def cellsAs (b : Buffer) (dt : DType) : Option (Array dt.Elem) :=
  if h : b.dt = dt then some (h ▸ b.cells) else none

@[simp] theorem cellsAs_mk (dt : DType) (cells : Array dt.Elem) :
    (Buffer.mk dt cells).cellsAs dt = some cells := by simp [cellsAs]

theorem cellsAs_eq_none_iff {b : Buffer} {dt : DType} : b.cellsAs dt = none ↔ b.dt ≠ dt := by
  simp [cellsAs]

end Buffer

namespace Offsets

/-- The element at a position. -/
def readAt {α : Type} (cells : Array α) (p : Nat) : Checked α :=
  match cells[p]? with
  | some x => .ok x
  | none => .error .outOfBounds

/-- **The elements at the positions of a walk**, in its order. -/
def gather {α : Type} (o : Offsets) (cells : Array α) : Checked (List α) := do
  let items ← o.items.mapM (readAt cells)
  match o.fault with
  | some f => throw f
  | none => return items

theorem gather_stopped {α : Type} (f : Fault) (cells : Array α) :
    (stopped f).gather cells = .error f := rfl

theorem gather_cons {α : Type} (p : Nat) (o : Offsets) (cells : Array α) :
    (cons p o).gather cells = do return (← readAt cells p) :: (← o.gather cells) := by
  simp only [gather, cons, List.mapM_cons, bind_assoc, pure_bind]
  congr 1
  funext x
  congr 1
  funext items
  cases o.fault <;> rfl

/-- Writes one item after the other, up to the first position outside the buffer. -/
def writeAll {α : Type} : List (Nat × α) → Array α → Array α × Option Fault
  | [], cells => (cells, none)
  | (p, x) :: writes, cells =>
    if h : p < cells.size then writeAll writes (cells.set p x h)
    else (cells, some .outOfBounds)

/-- **Writes along a walk.** The buffer afterwards, and the fault that ended the writes
early, if one did. -/
def scatter {α : Type} (o : Offsets) (items : List α) (cells : Array α) :
    Array α × Option Fault :=
  match writeAll (o.items.zip items) cells with
  | (cells, none) => (cells, o.fault)
  | (cells, some f) => (cells, some f)

/-- Writing keeps the size of a buffer. -/
@[simp] theorem size_writeAll {α : Type} (writes : List (Nat × α)) (cells : Array α) :
    (writeAll writes cells).1.size = cells.size := by
  induction writes generalizing cells with
  | nil => rfl
  | cons w writes ih =>
    obtain ⟨p, x⟩ := w
    unfold writeAll
    split
    · rw [ih, Array.size_set]
    · rfl

@[simp] theorem size_scatter {α : Type} (o : Offsets) (items : List α) (cells : Array α) :
    (o.scatter items cells).1.size = cells.size := by
  rw [← size_writeAll (o.items.zip items) cells]
  unfold scatter
  split <;> rename_i h <;> rw [h]

end Offsets

/-- The elements at the next `n` positions of a walk, each one read before the walk goes
on. -/
def Odometer.gather {α : Type} (cells : Array α) : Nat → Odometer → Checked (List α)
  | 0, _ => return []
  | n + 1, o => do
    match ← o.next with
    | none => return []
    | some (p, o) =>
      let x ← Offsets.readAt cells p
      return x :: (← gather cells n o)

/-- **The elements of a view of a buffer**, in logical row-major order. -/
def View.gather {α : Type} (v : View) (cells : Array α) : Checked (List α) := do
  let o ← v.odometer
  o.gather cells o.remaining

theorem Odometer.gather_eq {α : Type} (cells : Array α) (n : Nat) (o : Odometer) :
    o.gather cells n = (o.drain n).gather cells := by
  induction n generalizing o with
  | zero => rfl
  | succ n ih =>
    unfold Odometer.gather Odometer.drain
    match o.next with
    | .error f => rfl
    | .ok none => rfl
    | .ok (some (p, o)) =>
      rw [Offsets.gather_cons, ← ih]
      rfl

/-- Reading while walking is reading along the walk. -/
theorem View.gather_eq {α : Type} (v : View) (cells : Array α) :
    v.gather cells = v.offsets.gather cells := by
  unfold View.gather View.offsets
  match v.odometer with
  | .error f => rfl
  | .ok o => exact Odometer.gather_eq cells o.remaining o

/-- The elements of a buffer at the positions of a walk, as a buffer of their own. -/
def Buffer.gather (b : Buffer) (o : Offsets) : Checked Buffer :=
  return ⟨b.dt, (← o.gather b.cells).toArray⟩

end Strided
