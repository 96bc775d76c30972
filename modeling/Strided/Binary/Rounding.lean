import Strided.Binary

/-!
# Rounding to fewer digits

Results that depend on how a sum or an elementary function was evaluated are compared
after rounding: to a number of significant bits, or to a multiple of a power of two. Both
round to nearest and a half away from zero.
-/

namespace Strided.Binary

/-- The quotient by a power of two, to nearest, a half upwards. -/
def shiftHalfUp (m shift : Nat) : Nat := (2 * m + twoPow shift) >>> (shift + 1)

/-- **The value with at most `bits` significant bits.** -/
def toSignificant (bits : Nat) : Binary → Binary
  | finite negative m e =>
    let shift := bitLength m - bits
    finite negative (shiftHalfUp m shift) (e + shift)
  | b => b

/-- **The value as a multiple of `2 ^ -q`.** A zero has no sign. -/
def toGrid (q : Int) : Binary → Binary
  | finite negative m e =>
    let m' := if e < -q then shiftHalfUp m (-q - e).toNat else m <<< (e + q).toNat
    finite (negative && m' != 0) m' (-q)
  | b => b

end Strided.Binary
