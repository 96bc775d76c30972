/-!
# The length of a pair

`hypot x y` is the square root of `x * x + y * y`, to within one unit in the last place
and without overflow or underflow on the way. The root `h` of the rounded sum of squares
is corrected by what it misses, `(h * h - x * x - y * y) / (2 * h)`; the numerator is
formed from differences of nearby numbers, which are small and nearly exact. Pairs of huge
or tiny numbers are scaled by a power of two, and a part too small to matter is added.
An infinite part makes the length infinite, even beside a part that is no number.
-/

namespace Strided

/-- The length of a pair `x ≥ y > 0` whose squares are ordinary numbers. -/
def correctedRoot (x y : Float) : Float :=
  let h := (x * x + y * y).sqrt
  -- `h * h - x * x - y * y` for sides that are similar, or else with `h` close to `x`
  let missed :=
    if h ≤ 2 * y then
      let d := h - y
      x * (2 * d - x) + (d - 2 * (x - y)) * d
    else
      let d := h - x
      2 * d * (x - 2 * y) + ((4 * d - y) * y + d * d)
  h - missed / (2 * h)

/-- Half a unit of one: a smaller part does not change a length. -/
def halfUnit : Float := Float.scaleB 1 (-54)

/-- A power of two that takes huge numbers to ordinary ones. -/
def shrink : Float := Float.scaleB 1 (-600)

/-- The length of a pair `x ≥ y ≥ 0` of finite numbers. -/
def orderedLength (x y : Float) : Float :=
  -- the squares of huge numbers and of tiny ones would leave the range of numbers
  if Float.scaleB 1 511 < x then
    if y ≤ x * halfUnit then x + y else correctedRoot (x * shrink) (y * shrink) / shrink
  else if y < Float.scaleB 1 (-459) then
    if y / halfUnit ≤ x then x + y else correctedRoot (x / shrink) (y / shrink) * shrink
  else if y ≤ x * halfUnit then x + y
  else correctedRoot x y

/-- **The length of a pair** of double precision numbers. -/
def hypot (x y : Float) : Float :=
  -- an infinite part counts even beside what is no number
  if x.isInf || y.isInf then 1 / 0
  else if x.isNaN || y.isNaN then x + y
  else if x.abs < y.abs then orderedLength y.abs x.abs
  else orderedLength x.abs y.abs

/-- The length of a pair of single precision numbers. Their squares are ordinary double
precision numbers. -/
def hypotSingle (x y : Float32) : Float32 :=
  if x.isInf || y.isInf then 1 / 0
  else
    let x := x.toFloat
    let y := y.toFloat
    (x * x + y * y).sqrt.toFloat32

end Strided
