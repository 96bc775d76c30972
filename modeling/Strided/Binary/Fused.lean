import Strided.Binary

/-!
# Fused multiplication and addition

`mulAdd sum x y` is `sum + x * y` with a single rounding: product and sum are exact, on
mantissas brought to a common power of two. A sum that is exactly zero is negative only if
both of its terms are; a product of zero and an infinity, and a sum of opposite infinities,
are no numbers.
-/

namespace Strided.Binary

/-- The value of a signed mantissa, with the sign of zero given. -/
def ofSigned (z : Int) (e : Int) (negativeZero : Bool) : Binary :=
  if z = 0 then finite negativeZero 0 e else finite (z < 0) z.natAbs e

/-- A mantissa with its sign. -/
def signedMantissa (negative : Bool) (m : Nat) : Int := if negative then -(m : Int) else m

/-- The exact product. -/
def mul : Binary → Binary → Binary
  | nan, _ => nan
  | _, nan => nan
  | infinite s, infinite t => infinite (s != t)
  | infinite s, finite t m _ => if m = 0 then nan else infinite (s != t)
  | finite s m _, infinite t => if m = 0 then nan else infinite (s != t)
  | finite s m e, finite t m' e' => finite (s != t) (m * m') (e + e')

/-- The exact sum. -/
def add : Binary → Binary → Binary
  | nan, _ => nan
  | _, nan => nan
  | infinite s, infinite t => if s = t then infinite s else nan
  | infinite s, finite .. => infinite s
  | finite .., infinite t => infinite t
  | finite s m e, finite t m' e' =>
    let low := min e e'
    ofSigned (signedMantissa s (m <<< (e - low).toNat)
      + signedMantissa t (m' <<< (e' - low).toNat)) low (s && t)

/-- **The exact value of a sum and a product.** -/
def mulAdd (sum x y : Binary) : Binary := add sum (mul x y)

end Strided.Binary

namespace Strided

/-- Double precision `sum + x * y`, rounded once. -/
def fusedFloat (sum x y : Float) : Float :=
  ((Binary.ofFloat sum).mulAdd (.ofFloat x) (.ofFloat y)).toFloat

/-- Single precision `sum + x * y`, rounded once. -/
def fusedFloat32 (sum x y : Float32) : Float32 :=
  ((Binary.ofFloat32 sum).mulAdd (.ofFloat32 x) (.ofFloat32 y)).toFloat32

end Strided
