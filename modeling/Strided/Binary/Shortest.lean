import Strided.Binary

/-!
# Shortest decimal text

The decimal text of a double precision number has the fewest digits that read back as the
same number, and of several such decimals the nearest; of two equally near ones the larger
stands. It never has an exponent, and no point for a whole number.

The decimals of one length around a number lie on a grid of a power of ten. The grids are
tried from the coarsest on, and of each only the two points next to the number: if any
point of a grid reads back, one of these does.
-/

namespace Strided.Binary

/-- Ten to the power `n`. -/
def tenPow (n : Nat) : Nat := Nat.pow 10 n

/-- Compares `a * 10 ^ i` with `n * 2 ^ j`. -/
def compareScaled (a : Nat) (i : Int) (n : Nat) (j : Int) : Ordering :=
  compare ((a * tenPow i.toNat) <<< (-j).toNat) ((n * tenPow (-i).toNat) <<< j.toNat)

/-- Whether `a * 10 ^ i` lies among the reals that round to the double precision number
`m * 2 ^ e`. They reach half a unit up and half a unit down, or a quarter below a power of
two, and contain their ends if `m` is even. -/
def readsBack (m : Nat) (e : Int) (a : Nat) (i : Int) : Bool :=
  -- below a power of two the numbers are twice as dense
  let low := if m = twoPow 52 ∧ e > double.minExponent then 4 * m - 1 else 4 * m - 2
  let below := compareScaled a i low (e - 2)
  let above := compareScaled a i (4 * m + 2) (e - 2)
  (below == .gt || (m % 2 == 0 && below == .eq))
    && (above == .lt || (m % 2 == 0 && above == .eq))

/-- The integer part of `m * 2 ^ e / 10 ^ i`. -/
def gridFloor (m : Nat) (e i : Int) : Nat :=
  ((m * tenPow (-i).toNat) <<< e.toNat) / (tenPow i.toNat <<< (-e).toNat)

/-- The point of the grid `10 ^ i` that reads back as `m * 2 ^ e`, the nearer one if there
are two. -/
def onGrid? (m : Nat) (e i : Int) : Option Nat :=
  let a := gridFloor m e i
  match readsBack m e a i, readsBack m e (a + 1) i with
  -- the number is compared with the middle between the two points
  | true, true => some (if compareScaled (2 * a + 1) i (2 * m) e == .gt then a else a + 1)
  | true, false => some a
  | false, true => some (a + 1)
  | false, false => none

/-- The shortest decimal of `m * 2 ^ e` on the grids `10 ^ i`, `10 ^ (i - 1)`, …, as digits
and exponent. -/
def search : Nat → Nat → Int → Int → Nat × Int
  | 0, m, e, i => (gridFloor m e i, i)
  | fuel + 1, m, e, i =>
    match onGrid? m e i with
    | some a => (a, i)
    | none => search fuel m e (i - 1)

/-- A power of ten that the positive number `m * 2 ^ e` does not reach. -/
def decimalScale (m : Nat) (e : Int) : Int := (e + bitLength m) * 30103 / 100000 + 1

/-- **The shortest decimal** of a positive double precision number. Eighteen grids after
the coarsest one are enough, since seventeen digits always read back. -/
def shortest (m : Nat) (e : Int) : Nat × Int := search 20 m e (decimalScale m e)

/-- The positional text of `a * 10 ^ i`. -/
def positional (a : Nat) (i : Int) : List Char :=
  let digits := Nat.toDigits 10 a
  if 0 ≤ i then digits ++ List.replicate i.toNat '0'
  else
    let places := (-i).toNat
    -- zeros in front, so that there is a digit before the point
    let padded := List.replicate (places + 1 - digits.length) '0' ++ digits
    padded.take (padded.length - places) ++ '.' :: padded.drop (padded.length - places)

/-- **The decimal text of a double precision number.** -/
def decimal : Binary → String
  | nan => "NaN"
  | infinite negative => if negative then "-inf" else "inf"
  | finite negative m e =>
    let magnitude := if m = 0 then ['0'] else
      let (a, i) := shortest m e
      positional a i
    String.ofList (if negative then '-' :: magnitude else magnitude)

end Strided.Binary
