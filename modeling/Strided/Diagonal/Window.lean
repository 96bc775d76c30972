import Strided.Error

/-!
# The diagonals of a matrix layout

The `k`-th diagonal of a matrix has the cells `(i, j)` with `j - i = k`: it begins in row
`0` for `k ≥ 0` and in column `0` otherwise, and a step along it is a step along both
axes. `Diagonal.window` locates it relative to the first element of the matrix, for any
strides. A diagonal without cells is the empty window at distance `0`.
-/

namespace Strided.Diagonal

/-- **The place of a diagonal**: `length` elements, `stride` apart, the first one `start`
elements from the first element of the matrix. -/
structure Window where
  start : Int
  length : Nat
  stride : Int
  deriving DecidableEq

/-- Whether there is no cell on the diagonal. -/
def Window.isEmpty (w : Window) : Bool := w.length == 0

/-- The window of `length` cells that begins `first` steps of `step` away. The way there is
computed for a window without cells too, and dropped. -/
def windowFrom (stride : Int) (first : Nat) (step : Int) (length : Nat) : Checked Window := do
  let start ← checkSigned (toSigned first * step)
  return if length = 0 then ⟨0, 0, stride⟩ else ⟨start, length, stride⟩

/-- **The `k`-th diagonal** of a `shape` matrix laid out with `strides`. -/
def window (shape : Shape) (strides : Strides) (k : Int) : Answer Window :=
  match shape.dims, strides.steps with
  | [rows, cols], [down, right] => do
    let stride ← checkSigned (down + right)
    let first := k.natAbs
    if 0 ≤ k then
      if cols ≤ first then return ⟨0, 0, stride⟩
      windowFrom stride first right (min rows (cols - first))
    else
      if rows ≤ first then return ⟨0, 0, stride⟩
      windowFrom stride first down (min cols (rows - first))
  | [_, _], steps => reject (.diagonal (.notMatrix steps.length))
  | dims, _ => reject (.diagonal (.notMatrix dims.length))

end Strided.Diagonal
