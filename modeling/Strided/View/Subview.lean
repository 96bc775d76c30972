import Strided.Error

/-!
# Subviews

A subscription selects a slice of every axis. The selected elements are again a strided
view: the offset moves to the first selected index of every axis, and the strides grow
by the steps. The axes are taken in order, each one checked before its arithmetic is
done, so of several bad slices the first one is reported.
-/

namespace Strided

namespace View

/-- Offset, sizes and strides after slicing the axes `dims` with strides `steps`, for an
element that lies at `offset` before. -/
def slice : List Slice → List Nat → List Int → Int → Answer (Int × List Nat × List Int)
  | s :: slices, dim :: dims, step :: steps, offset => do
    unless s.Fits dim do
      reject (.invalidSubview (.bounds s dim))
    let way ← checkSigned (toSigned s.start * step)
    let offset ← checkSigned (offset + way)
    let stride ← checkSigned (step * toSigned s.step)
    let (offset, dims, steps) ← slice slices dims steps offset
    return (offset, s.length :: dims, stride :: steps)
  | _, _, _, offset => return (offset, [], [])

/-- **The view of what a subscription selects.** -/
def subview (v : View) (s : Subscription) : Answer View := do
  unless s.rank = v.shape.rank do
    reject (.invalidSubview (.rank s v.shape.rank))
  let (offset, dims, steps) ← slice s.slices v.shape.dims v.strides.steps (toSigned v.offset)
  return ⟨⟨dims⟩, ⟨steps⟩, toSize offset⟩

end View

end Strided
