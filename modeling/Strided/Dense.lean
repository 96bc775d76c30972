import Strided.NDArray.Create

/-!
# Dense blocks

A `Dense` is a shape with its elements in row-major order, outside any store: the form in
which elements leave an array for computations that need them all, and in which results
come back. An element count beyond the signed words has no such block.
-/

namespace Strided

/-- **Elements in row-major order under a shape.** -/
structure Dense (α : Type) where
  shape : Shape
  items : Array α

namespace Dense

variable {α : Type}

/-- The block with its axes in reversed order. -/
def transpose (d : Dense α) : Checked (Dense α) := do
  let steps := (← Strides.rowMajor d.shape).steps
  let view : View := ⟨⟨d.shape.dims.reverse⟩, ⟨steps.reverse⟩, 0⟩
  return ⟨view.shape, (← view.gather d.items).toArray⟩

/-- Row `i` of a matrix with `cols` columns. -/
def row (d : Dense α) (cols i : Nat) : List α :=
  (d.items.extract (i * cols) ((i + 1) * cols)).toList

/-- Column `j` of a `rows` by `cols` matrix, with `z` for what the block does not have. -/
def column (d : Dense α) (z : α) (rows cols j : Nat) : List α :=
  (List.range rows).map fun i => d.items.getD (i * cols + j) z

end Dense

/-- The sizes of the axes that are not empty have a product that is a signed word. -/
def Shape.Dense (s : Shape) : Prop := volume (s.dims.filter (· ≠ 0)) < signedBound

instance (s : Shape) : Decidable s.Dense := inferInstanceAs (Decidable (_ < _))

namespace NDArray

/-- **The elements of an array as a block.** -/
def toDense (s : Store) (a : NDArray) (dt : DType) : Answer (Dense dt.Elem) := do
  let items ← a.toList s dt
  unless a.shape.Dense do
    reject .layoutOverflow
  return ⟨a.shape, items.toArray⟩

/-- **A new host array of the elements of a block.** -/
def ofDense (dt : DType) (d : Dense dt.Elem) : Action NDArray :=
  ofBuffer ⟨dt, d.items⟩ d.shape .host

end NDArray

end Strided
