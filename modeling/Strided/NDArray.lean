import Strided.View.Subview
import Strided.Store
import Strided.Device

/-!
# Arrays

An `NDArray` is a view of a buffer in a `Store`, together with the type of its elements
and the device that serves it. It is a handle: copying it, or deriving a view from it,
copies no element.

This file holds what can be read from an array. Reading needs the store but leaves it
alone, so these operations are functions of the store and not steps of a computation:
`NDArray.toList` gives the elements in logical row-major order, `NDArray.gather` the same
as a buffer.
-/

namespace Strided

/-- **A runtime typed view of a storage.** -/
structure NDArray where
  storage : StorageId
  view : View
  dt : DType
  device : Device
  deriving DecidableEq, Inhabited

namespace NDArray

/-- The extent of every axis. -/
def shape (a : NDArray) : Shape := a.view.shape

/-- The distances between neighbours. -/
def strides (a : NDArray) : Strides := a.view.strides

/-- The position of the first element. -/
def offset (a : NDArray) : Nat := a.view.offset

/-- The number of axes. -/
def rank (a : NDArray) : Nat := a.shape.rank

/-- The number of elements. -/
def numel (a : NDArray) : Checked Nat := a.shape.numel

/-- The bridge that serves the array, if it is accelerated. -/
def bridge? (a : NDArray) : Option Handle := a.device.bridge?

/-- Whether the strides are row-major. -/
def isContiguous (a : NDArray) : Checked Bool := a.view.isContiguous

/-- Whether writes to one array can show in the other. -/
def sharesStorage (a b : NDArray) : Bool := a.storage == b.storage

/-- **Another view of the same storage.** -/
def withView (a : NDArray) (v : View) : NDArray := { a with view := v }

/-- **The same view, flagged for another device.** -/
def withDevice (a : NDArray) (d : Device) : NDArray := { a with device := d }

/-- The text that shows an array without its elements. -/
def text (a : NDArray) : String :=
  "Array \x7b dt: " ++ a.dt.label ++ ", shape: " ++ a.shape.compact ++ ", strides: "
    ++ a.strides.compact ++ ", offset: " ++ sizeText a.offset ++ ", device: " ++ a.device.text
    ++ " \x7d"

/-- The bridge of an array that must have one. -/
def requireBridge (a : NDArray) : Answer Handle :=
  match a.bridge? with
  | some b => return b
  | none => reject (.deviceMismatch "Accelerated" "Host")

/-! ### Reading -/

/-- Refuses elements of another type than the array's. -/
def checkDType (a : NDArray) (dt : DType) : Answer Unit :=
  if dt = a.dt then return () else reject (.dtypeMismatch a.dt dt)

/-- The buffer the array is a view of. -/
def buffer (s : Store) (a : NDArray) : Checked Buffer :=
  match s.buffer? a.storage with
  | some b => .ok b
  | none => .error .strayStorage

/-- The cells of the array's buffer, as elements of the type asked for. -/
def cells (s : Store) (a : NDArray) (dt : DType) : Answer (Array dt.Elem) := do
  a.checkDType dt
  let b ← a.buffer s
  match b.cellsAs dt with
  | some cells => return cells
  | none => reject (.dtypeMismatch b.dt dt)

/-- **The elements**, in logical row-major order. -/
def toList (s : Store) (a : NDArray) (dt : DType) : Answer (List dt.Elem) := do
  let cells ← a.cells s dt
  -- the list gets its memory before the first element is read
  dt.checkCapacity (← a.numel)
  a.view.gather cells

/-- The elements in logical row-major order, as a buffer of their own. -/
def gather (s : Store) (a : NDArray) : Checked Buffer := do
  let b ← a.buffer s
  b.dt.checkCapacity (← a.numel)
  return ⟨b.dt, (← a.view.gather b.cells).toArray⟩

/-- **The elements, widened** to double precision complex numbers. The wider list is a run of
values of its own. -/
def toComplex (s : Store) (a : NDArray) : Answer (List (Complex Float)) := do
  let items ← a.toList s a.dt
  DType.c128.checkCapacity items.length
  return items.map a.dt.widen

/-- **A view of a part**, one slice per axis. -/
def subview (a : NDArray) (s : Subscription) : Answer NDArray :=
  return a.withView (← a.view.subview s)

/-- **The same elements in another shape** of as many elements. Only a row-major layout
can be read in other portions. -/
def reshape (a : NDArray) (shape : Shape) : Answer NDArray := do
  unless (← shape.numel) = (← a.numel) do
    reject (.shapeMismatch a.shape shape)
  unless (← a.isContiguous) do
    reject (.notContiguous a.view)
  -- the elements stay where they are, so the offset does too
  return a.withView ⟨shape, ← Strides.rowMajor shape, a.offset⟩

end NDArray

end Strided
