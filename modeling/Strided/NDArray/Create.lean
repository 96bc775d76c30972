import Strided.World

/-!
# Making and writing arrays

Every array made here owns a new storage, laid out row-major from its start; what an
operation returns shares storage with an argument only where it is a view of it
(`NDArray.subview`, `NDArray.reshape`, `NDArray.withDevice`).

Writes go through the view of the destination in row-major order. The shape, the element
type and the number of items are checked before the first write, so a refused write has
changed nothing.
-/

namespace Strided.NDArray

/-- **A new array around a buffer** of as many elements as the shape has. -/
def ofBuffer (b : Buffer) (shape : Shape) (device : Device) : Action NDArray := do
  let _ ← shape.numel
  let view ← View.contiguous shape
  let storage ← Action.allocate b
  return ⟨storage, view, b.dt, device⟩

/-- **A new array of given elements**, in row-major order. The elements are copied into a
buffer of their own. -/
def ofArray (b : Buffer) (shape : Shape) (device : Device) : Action NDArray := do
  unless b.size = (← shape.numel) do
    reject (.shapeMismatch shape ⟨[b.size]⟩)
  b.dt.checkCapacity b.size
  ofBuffer b shape device

/-- A new array of zeros. -/
def zeros (shape : Shape) (dt : DType) (device : Device) : Action NDArray := do
  ofBuffer (← Buffer.zeros dt (← shape.numel)) shape device

/-- A new array of ones. -/
def ones (shape : Shape) (dt : DType) (device : Device) : Action NDArray := do
  ofBuffer (← Buffer.ones dt (← shape.numel)) shape device

/-- A new array for a caller that overwrites every element. They are zero until then. -/
def empty (shape : Shape) (dt : DType) (device : Device) : Action NDArray :=
  zeros shape dt device

/-- What `make` gives for the shape of `a`, by default with its element type and device. -/
def like (make : Shape → DType → Device → Action NDArray) (a : NDArray) (dt : Option DType)
    (device : Option Device) : Action NDArray :=
  make a.shape (dt.getD a.dt) (device.getD a.device)

/-- **A copy with its own storage**, row-major. -/
def deepClone (a : NDArray) : Action NDArray := do
  ofBuffer (← Action.read fun s => (a.gather s).lift) a.shape a.device

/-- **A copy with a single axis**, row-major. -/
def flatten (a : NDArray) : Action NDArray := do
  let b ← Action.read fun s => (a.gather s).lift
  ofBuffer b ⟨[← a.numel]⟩ a.device

/-! ### Writing -/

/-- **Writes the items through the view**, in logical row-major order. -/
def assign (a : NDArray) (dt : DType) (items : List dt.Elem) : Action Unit := do
  a.checkDType dt
  unless items.length = (← a.numel) do
    reject (.shapeMismatch a.shape ⟨[items.length]⟩)
  let _ ← Action.read fun s => a.cells s dt
  Action.write a dt items

/-- Writes one item to every element. -/
def fill (a : NDArray) (dt : DType) (x : dt.Elem) : Action Unit := do
  let n ← a.numel
  dt.checkCapacity n
  assign a dt (List.replicate n x)

/-- **Copies the elements of `src`.** They are all read before the first is written, so
the two arrays may overlap in any way. -/
def copyFrom (a src : NDArray) : Action Unit := do
  unless src.shape = a.shape do
    reject (.shapeMismatch a.shape src.shape)
  unless src.dt = a.dt do
    reject (.dtypeMismatch a.dt src.dt)
  let b ← Action.read fun s => (src.gather s).lift
  Action.write a b.dt b.cells.toList

end Strided.NDArray
