import Strided.Shape

/-!
# Strided views

A `View` places a logical array in a flat buffer: `shape` many indices, neighbours along
an axis `strides` apart, the first element at `offset`. Nothing ties the three together,
so a view can run backwards, repeat an element, or leave every buffer.

`View.offsets` lists the buffer positions of the elements in logical row-major order.
They are walked rather than computed one by one: an `Odometer` holds the current
multi-index and position, and `Odometer.next` returns that position and moves on, adding
the stride of the last axis and, where an axis is through, taking the way back along it
off again and carrying into the axis before. All of these sums are signed words. Since
the move belongs to the position that is returned, a move that leaves the word range
loses that position too; `Offsets` is therefore a list of positions together with the
fault that cut it short, if one did.

`View.position` in `Strided.View.Index` is the closed form of the positions.
-/

namespace Strided

/-- **A layout of a logical array in a flat buffer.** -/
structure View where
  shape : Shape
  strides : Strides
  offset : Nat
  deriving DecidableEq, Inhabited

namespace View

/-- The gapless row-major layout at the start of a buffer. -/
def contiguous (shape : Shape) : Checked View := return ⟨shape, ← Strides.rowMajor shape, 0⟩

/-- The number of elements. -/
def numel (v : View) : Checked Nat := v.shape.numel

/-- Whether the strides are the row-major ones. An axis of size one, on which no stride is
ever walked, counts too. -/
def isContiguous (v : View) : Checked Bool := return v.strides == (← Strides.rowMajor v.shape)

/-- The text in which messages show a view. -/
def text (v : View) : String :=
  "StorageView \x7b shape: " ++ v.shape.compact ++ ", strides: " ++ v.strides.compact
    ++ ", offset: " ++ String.ofList (digits v.offset) ++ " \x7d"

end View

/-- **A walk over the elements of a view**, standing on one of them. -/
structure Odometer where
  view : View
  index : List Nat
  remaining : Nat
  position : Int

namespace Odometer

/-- One move to the next multi-index in row-major order, over the axes `dims` with
strides `steps`. The first component tells that all these axes have come round to
index zero, so that the axis before them has to move. -/
def advance : List Nat → List Int → List Nat → Int → Checked (Bool × List Nat × Int)
  | dim :: dims, steps, i :: index, position => do
    let (carry, index, position) ← advance dims steps.tail index position
    if !carry then
      return (false, i :: index, position)
    let some step := steps.head? | throw .outOfBounds
    let position ← checkSigned (position + step)
    if i + 1 < dim then
      return (false, (i + 1) :: index, position)
    let way ← checkSigned (step * toSigned (i + 1))
    return (true, 0 :: index, ← checkSigned (position - way))
  | _, _, index, position => return (true, index, position)

/-- **The next position**, and the walk from there on. There is none at the end. -/
def next (o : Odometer) : Checked (Option (Nat × Odometer)) :=
  match o.remaining with
  | 0 => return none
  | 1 => return some (toSize o.position, ⟨o.view, o.index, 0, o.position⟩)
  | remaining + 2 => do
    let (_, index, position) ←
      advance o.view.shape.dims o.view.strides.steps o.index o.position
    return some (toSize o.position, ⟨o.view, index, remaining + 1, position⟩)

/-- The first `n` positions, fewer at the end of the walk, and the walk after them. -/
def take : Nat → Odometer → Checked (List Nat × Odometer)
  | 0, o => return ([], o)
  | n + 1, o => do
    match ← o.next with
    | none => return ([], o)
    | some (p, o) =>
      let (ps, o) ← take n o
      return (p :: ps, o)

end Odometer

/-- **The positions a walk yields**, and what stopped it before its end. -/
structure Offsets where
  items : List Nat
  fault : Option Fault
  deriving DecidableEq

namespace Offsets

/-- A walk that yields nothing but a fault. -/
def stopped (f : Fault) : Offsets := ⟨[], some f⟩

/-- One position ahead of the others. -/
def cons (p : Nat) (o : Offsets) : Offsets := ⟨p :: o.items, o.fault⟩

end Offsets

/-- At most `n` further positions of a walk. -/
def Odometer.drain : Nat → Odometer → Offsets
  | 0, _ => ⟨[], none⟩
  | n + 1, o =>
    match o.next with
    | .error f => .stopped f
    | .ok none => ⟨[], none⟩
    | .ok (some (p, o)) => .cons p (drain n o)

namespace View

/-- The walk from the first element. -/
def odometer (v : View) : Checked Odometer :=
  return ⟨v, v.shape.dims.map fun _ => 0, ← v.numel, toSigned v.offset⟩

/-- **The positions of all elements** in logical row-major order. -/
def offsets (v : View) : Offsets :=
  match v.odometer with
  | .error f => .stopped f
  | .ok o => o.drain o.remaining

end View

end Strided
