/-!
# Floating point numbers as exact values

Machine numbers are taken apart into `Binary`: a sign, a natural mantissa and a power of
two, or an infinity, or no number. Everything that has to be exact or correctly rounded is
done on this form with natural numbers, and `Binary.round` takes the result back to a
machine format, to nearest with ties to the even neighbour.

The written form of a value (`Binary.text`) is `<m>p<e>` for `m * 2 ^ e` with `m` odd, and
`Binary.parse?` reads it, also with an even `m`.
-/

namespace Strided

/-- **The exact value of a machine number.** A zero has mantissa `0`. -/
inductive Binary where
  | nan
  | infinite (negative : Bool)
  | finite (negative : Bool) (mantissa : Nat) (exponent : Int)
  deriving DecidableEq, Inhabited

namespace Binary

/-- Two to the power `n`. -/
def twoPow (n : Nat) : Nat := 1 <<< n

/-- **A machine format**: bits of a mantissa with its leading one, bits of the exponent
field, and the exponent of the least positive number. -/
structure Format where
  precision : Nat
  exponentBits : Nat
  minExponent : Int

/-- Single precision. -/
def single : Format := ⟨24, 8, -149⟩

/-- Double precision. -/
def double : Format := ⟨53, 11, -1074⟩

namespace Format

/-- The bits after the leading one that are stored. -/
def fractionBits (f : Format) : Nat := f.precision - 1

/-- The exponent field of infinities. -/
def topField (f : Format) : Nat := twoPow f.exponentBits - 1

/-- What the sign adds to a bit pattern. -/
def signBit (f : Format) (negative : Bool) : Nat :=
  if negative then twoPow (f.fractionBits + f.exponentBits) else 0

end Format

/-! ### Taking machine numbers apart -/

/-- The value of a bit pattern. -/
def ofBits (f : Format) (bits : Nat) : Binary :=
  let fraction := bits % twoPow f.fractionBits
  let field := (bits >>> f.fractionBits) % twoPow f.exponentBits
  let negative := (bits >>> (f.fractionBits + f.exponentBits)) % 2 == 1
  -- the top field belongs to infinities and to what is no number, the field zero to numbers
  -- without a leading bit
  if field = f.topField then
    if fraction = 0 then infinite negative else nan
  else if field = 0 then finite negative fraction f.minExponent
  else finite negative (twoPow f.fractionBits + fraction) (f.minExponent + (field - 1 : Nat))

/-- The value of a double precision number. -/
def ofFloat (x : Float) : Binary := ofBits double x.toBits.toNat

/-- The value of a single precision number. -/
def ofFloat32 (x : Float32) : Binary := ofBits single x.toBits.toNat

/-! ### Putting them together -/

/-- Number of binary digits; `0` for `0`. -/
def bitLength (m : Nat) : Nat := if m = 0 then 0 else m.log2 + 1

/-- The quotient by a power of two, to nearest, a half to the even neighbour. -/
def shiftToEven (m shift : Nat) : Nat :=
  let quotient := m >>> shift
  let rest := m % twoPow shift
  if 2 * rest < twoPow shift then quotient
  else if 2 * rest = twoPow shift ∧ quotient % 2 = 0 then quotient
  else quotient + 1

/-- The magnitude bits of `mantissa * 2 ^ exponent`, rounded to a format: to nearest, ties
to even, to infinity from half a unit above the largest number on. -/
def magnitudeBits (f : Format) (mantissa : Nat) (exponent : Int) : Nat :=
  if mantissa = 0 then 0 else
  -- the exponent of the last bit that the format keeps
  let target := max (exponent + bitLength mantissa - f.precision) f.minExponent
  let rounded :=
    if exponent ≤ target then shiftToEven mantissa (target - exponent).toNat
    else mantissa <<< (exponent - target).toNat
  let steps := (target - f.minExponent).toNat
  -- a mantissa that was rounded up to a power of two carries into the exponent field
  min (rounded + (steps <<< f.fractionBits)) (f.topField <<< f.fractionBits)

/-- **The bit pattern nearest to a value.** -/
def round (f : Format) : Binary → Nat
  | nan => (f.topField <<< f.fractionBits) + twoPow (f.fractionBits - 1)
  | infinite negative => f.signBit negative + (f.topField <<< f.fractionBits)
  | finite negative mantissa exponent => f.signBit negative + magnitudeBits f mantissa exponent

/-- The double precision number nearest to a value. -/
def toFloat (b : Binary) : Float := Float.ofBits (UInt64.ofNat (b.round double))

/-- The single precision number nearest to a value. -/
def toFloat32 (b : Binary) : Float32 := Float32.ofBits (UInt32.ofNat (b.round single))

/-! ### Written form -/

/-- An odd mantissa for the same value, or `0` with exponent `0`. At most `fuel` factors
of two are moved to the exponent. -/
def oddPart : Nat → Nat → Int → Nat × Int
  | 0, m, e => (m, e)
  | fuel + 1, m, e =>
    if m = 0 then (0, 0) else if m % 2 = 1 then (m, e) else oddPart fuel (m / 2) (e + 1)

/-- **The written form**: `nan`, `inf`, `0` or `<m>p<e>` with `m` odd, behind a minus sign
if the value has one. -/
def text : Binary → String
  | nan => "nan"
  | infinite negative => if negative then "-inf" else "inf"
  | finite negative mantissa exponent =>
    -- there are no more factors of two than binary digits
    let (m, e) := oddPart (bitLength mantissa + 1) mantissa exponent
    let magnitude := if m = 0 then "0" else toString m ++ "p" ++ toString e
    if negative then "-" ++ magnitude else magnitude

/-- The value of an unsigned written form. -/
def parseMagnitude? (negative : Bool) (s : String) : Option Binary :=
  if s = "nan" then some nan
  else if s = "inf" then some (infinite negative)
  else
    match s.splitOn "p" with
    | [m] => m.toNat?.map fun m => finite negative m 0
    | [m, e] => do return finite negative (← m.toNat?) (← e.toInt?)
    | _ => none

/-- **The value of a written form.** -/
def parse? (s : String) : Option Binary :=
  if s.startsWith "-" then parseMagnitude? true (s.drop 1).toString
  else parseMagnitude? false s

/-- The value of an integer. -/
def ofInt (z : Int) : Binary := finite (z < 0) z.natAbs 0

end Binary

end Strided
