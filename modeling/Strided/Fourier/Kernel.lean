import Strided.Fourier
import Strided.Numeric

/-!
# The discrete Fourier transform

A line `x` of `n` elements becomes the line of the sums of `x t * ω ^ (k * t)` over `t`,
with `ω` the `n`-th root of unity `exp (-2πi / n)`. How the sums are taken shows where
elements are infinite, or no numbers, or so large that a sum overflows, so it is part of
what this file says:

* a line of odd length is taken in pairs of elements at opposite distances from the first
  one (`transformOdd`), whose roots are conjugates: their sum meets the real part of the
  root and their difference the imaginary part;
* a line of twice an odd length is two such lines, of which every coefficient is a sum or
  a difference (`transformTwiceOdd`);
* a line whose length is a multiple of four is halved (`transformHalves`): the sums of
  elements half a line apart give the even coefficients, and their differences, each
  multiplied by its root, the odd ones. At length four the roots are one and a quarter
  turn, and nothing is multiplied.

A line of a single element is its own transform as far as it is finite; the one term of
the sum is multiplied by `1 - 0i` all the same, which makes the infinite part of a number
spoil the other one.
-/

namespace Strided.Fourier

/-! ### Roots of unity -/

/-- Half a turn. -/
def halfTurn : Float := 3.141592653589793

/-- The `j`-th power of the `n`-th root of unity. -/
def root (n j : Nat) : Complex Float :=
  let angle := -2 * halfTurn / n.toFloat * j.toFloat
  ⟨angle.cos, angle.sin⟩

variable {α : Type} [Add α] [Sub α] [Mul α] [Neg α]

/-- The `j`-th power of the `n`-th root of unity, in the precision that `real` rounds to. -/
def rootIn (real : Float → α) (n j : Nat) : Complex α :=
  ⟨real (root n j).re, real (root n j).im⟩

/-- A number turned by a quarter, clockwise: `-i * z`. -/
def turnRight (z : Complex α) : Complex α := ⟨z.im, -z.re⟩

/-- A number turned by a quarter, counterclockwise: `i * z`. -/
def turnLeft (z : Complex α) : Complex α := ⟨-z.im, z.re⟩

/-- A number scaled by a real one. -/
def scale (c : α) (z : Complex α) : Complex α := ⟨c * z.re, c * z.im⟩

/-! ### Odd lengths -/

/-- The sum of the numbers, each scaled by a weight, on top of `start`. -/
def weighted (start : Complex α) (weights : List α) (zs : List (Complex α)) : Complex α :=
  (weights.zip zs).foldl (fun sum p => sum.add (scale p.1 p.2)) start

/-- **The transform of a line of odd length.** The roots of the elements at places `j` and
`n - j` are conjugates, and so are those of the coefficients at places `k` and `n - k`. -/
def transformOdd (real : Float → α) : List (Complex α) → List (Complex α)
  | [] => []
  | x :: rest =>
    let n := rest.length + 1
    let places := List.range' 1 (rest.length / 2)
    -- every element is taken together with the one as far from the end of the line
    let sums := List.zipWith Complex.add (rest.take places.length) rest.reverse
    let differences := List.zipWith Complex.sub (rest.take places.length) rest.reverse
    let roots := Array.ofFn fun j : Fin n => rootIn real n j
    let rootsAt := fun k => places.map fun j => roots.getD (j * k % n) x
    let parts := places.map fun k =>
      (weighted x ((rootsAt k).map (·.re)) sums,
        turnLeft (weighted ⟨real 0, real 0⟩ ((rootsAt k).map (·.im)) differences))
    -- the first coefficient is the sum of all elements, and the others come in pairs
    sums.foldl Complex.add x :: (parts.map fun p => p.1.add p.2)
      ++ parts.reverse.map fun p => p.1.sub p.2

/-! ### Even lengths -/

/-- Every other item, from the first one on. -/
def everyOther {β : Type} : List β → List β
  | x :: _ :: xs => x :: everyOther xs
  | xs => xs

/-- The items at even places of one list and at odd places of another, each in its place. -/
def alternate {β : Type} (xs ys : List β) : List β :=
  (xs.zip ys).zipIdx.map fun p => if p.2 % 2 = 0 then p.1.1 else p.1.2

/-- All items of two lists in turn. -/
def interleave {β : Type} : List β → List β → List β
  | x :: xs, y :: ys => x :: y :: interleave xs ys
  | xs, [] => xs
  | [], ys => ys

/-- **The transform of a line of `2 * h` elements**, with `h` odd. The elements at even
places form one line, and those `h` places further, around the end, the other one. -/
def transformTwiceOdd (real : Float → α) (h : Nat) (line : List (Complex α)) :
    List (Complex α) :=
  -- the even places, and those that are an odd number of places from them
  let a := transformOdd real (everyOther line)
  let b := transformOdd real (everyOther (line.drop h ++ line.take h))
  let sums := List.zipWith Complex.add a b
  let differences := List.zipWith Complex.sub a b
  alternate sums differences ++ alternate differences sums

/-- The difference of two elements half a line of `n` apart, the first one at place `j`,
multiplied by its root. -/
def turned (real : Float → α) (n j : Nat) (z : Complex α) : Complex α :=
  if n = 4 then if j = 0 then z else turnRight z
  else z.mul (rootIn real n j)

/-- **The transform of a line**, which is halved at most `levels` times. -/
def transformHalves (real : Float → α) : Nat → List (Complex α) → List (Complex α)
  | 0, line =>
    if line.length % 2 = 0 then transformTwiceOdd real (line.length / 2) line
    else transformOdd real line
  | levels + 1, line =>
    let h := line.length / 2
    if line.length % 4 = 0 then
      let sums := List.zipWith Complex.add (line.take h) (line.drop h)
      let differences := List.zipWith Complex.sub (line.take h) (line.drop h)
      -- the sums give the even coefficients and the differences the odd ones
      interleave (transformHalves real levels sums)
        (transformHalves real levels
          (differences.zipIdx.map fun p => turned real line.length p.2 p.1))
    else if line.length % 2 = 0 then transformTwiceOdd real h line
    else transformOdd real line

/-! ### Both precisions -/

/-- **The discrete Fourier transform of a line**, in the precision that `real` rounds to. -/
def dft (real : Float → α) : List (Complex α) → List (Complex α)
  | [z] => [Complex.add ⟨real 0, real 0⟩ (z.mul (rootIn real 1 0))]
  | line => transformHalves real line.length.log2 line

/-- The discrete Fourier transform in either precision. -/
def discrete : LineTransform where
  single := dft Float.toFloat32
  double := dft id

end Strided.Fourier
