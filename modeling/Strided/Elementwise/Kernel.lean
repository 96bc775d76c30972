import Strided.Numeric
import Strided.Hypot

/-!
# Functions of single elements

`UnaryFunction` and `BinaryFunction` name the functions that apply to arrays element by
element; their `kernel?` is the function for an element type, if it has one. The result of a binary
function has the type of its operands, that of a unary one is part of its kernel.

The logarithms of sums never form a large power: with `t` the difference of the operands,
`log (exp x + exp y)` is the larger operand plus `log (1 + exp (-|t|))`. Operands that are
equal, which includes equal infinities, are taken first, and a difference that is no number
is the result.
-/

namespace Strided

namespace Elementwise

/-! ### Real functions in both precisions -/

/-- **The real functions of a floating point type.** -/
structure Reals (α : Type) where
  degreesPerRadian : α
  radiansPerDegree : α
  zero : α
  one : α
  ln2 : α
  log2e : α
  add : α → α → α
  sub : α → α → α
  mul : α → α → α
  neg : α → α
  lt : α → α → Bool
  le : α → α → Bool
  eq : α → α → Bool
  floor : α → α
  exp : α → α
  exp2 : α → α
  /-- The logarithm of one more than its argument. -/
  log1p : α → α
  hypot : α → α → α

/-- The logarithm of `1 + x` for `x` in `[0, 1]`: that of the rounded sum, and to first
order that of what the rounding took away. -/
def log1p (x : Float) : Float :=
  let u := 1 + x
  u.log + (x - (u - 1)) / u

/-- A real function of double precision numbers, rounded to single precision. -/
def throughDouble (f : Float → Float) (x : Float32) : Float32 := (f x.toFloat).toFloat32

/-- The functions in double precision. -/
def double : Reals Float where
  degreesPerRadian := 180 / 3.141592653589793
  radiansPerDegree := 3.141592653589793 / 180
  zero := 0
  one := 1
  ln2 := 0.6931471805599453
  log2e := 1.4426950408889634
  add x y := x + y
  sub x y := x - y
  mul x y := x * y
  neg x := -x
  lt x y := x < y
  le x y := x ≤ y
  eq x y := x == y
  floor x := x.floor
  exp x := x.exp
  exp2 x := x.exp2
  log1p := log1p
  hypot := Strided.hypot

/-- The functions in single precision. The elementary ones are evaluated in double
precision and rounded. -/
def single : Reals Float32 where
  degreesPerRadian := (57.29577951308232 : Float).toFloat32
  radiansPerDegree := (3.141592653589793 : Float).toFloat32 / 180
  zero := 0
  one := 1
  ln2 := (0.6931471805599453 : Float).toFloat32
  log2e := (1.4426950408889634 : Float).toFloat32
  add x y := x + y
  sub x y := x - y
  mul x y := x * y
  neg x := -x
  lt x y := x < y
  le x y := x ≤ y
  eq x y := x == y
  floor x := x.floor
  exp := throughDouble Float.exp
  exp2 := throughDouble Float.exp2
  log1p := throughDouble log1p
  hypot := hypotSingle

/-- The real functions of the elements, if they are floating point numbers. -/
def reals? : (dt : DType) → Option (Reals dt.Elem)
  | .f32 => some single
  | .f64 => some double
  | _ => none

namespace Reals

variable {α : Type} (R : Reals α)

/-- The logarithm of the sum of the exponentials. -/
def logAddExp (x y : α) : α :=
  -- equal operands are taken first, since the difference of infinities is no number
  if R.eq x y then R.add x R.ln2
  else
    let t := R.sub x y
    if R.lt R.zero t then R.add x (R.log1p (R.exp (R.neg t)))
    else if R.le t R.zero then R.add y (R.log1p (R.exp t))
    else t

/-- The same to base two. -/
def logAddExp2 (x y : α) : α :=
  if R.eq x y then R.add x R.one
  else
    let t := R.sub x y
    if R.lt R.zero t then R.add x (R.mul (R.log1p (R.exp2 (R.neg t))) R.log2e)
    else if R.le t R.zero then R.add y (R.mul (R.log1p (R.exp2 t)) R.log2e)
    else t

/-- One, minus one or zero with the sign of a number; zero for what is no number. -/
def sign (x : α) : α :=
  if R.lt R.zero x then R.one else if R.lt x R.zero then R.neg R.one else R.zero

/-- What a number has beyond its floor. -/
def fraction (x : α) : α := R.sub x (R.floor x)

end Reals

/-! ### The functions by name -/

/-- **Functions of one element.** -/
inductive UnaryFunction where
  | rad2deg
  | deg2rad
  | sign
  | signbit
  deriving DecidableEq

/-- **Functions of two elements.** -/
inductive BinaryFunction where
  | logaddexp
  | logaddexp2
  | hypot
  deriving DecidableEq

/-- The name that messages use. -/
def UnaryFunction.name : UnaryFunction → String
  | rad2deg => "rad2deg"
  | deg2rad => "deg2rad"
  | sign => "sign"
  | signbit => "signbit"

/-- The name that messages use. -/
def BinaryFunction.name : BinaryFunction → String
  | logaddexp => "logaddexp"
  | logaddexp2 => "logaddexp2"
  | hypot => "hypot"

/-- **A function of elements of type `dt`** and the type of its results. -/
structure Kernel (dt : DType) where
  result : DType
  apply : dt.Elem → result.Elem

/-- A function that keeps the type of real elements. -/
def ofReals (f : {α : Type} → Reals α → α → α) (dt : DType) : Option (Kernel dt) :=
  (reals? dt).map fun R => ⟨dt, f R⟩

/-- The sign of an integer. -/
def signOf (z : Int) : Int := if 0 < z then 1 else if z < 0 then -1 else 0

/-- **The function for an element type**, if it has one. -/
def UnaryFunction.kernel? : UnaryFunction → (dt : DType) → Option (Kernel dt)
  | rad2deg, dt => ofReals (fun R x => R.mul x R.degreesPerRadian) dt
  | deg2rad, dt => ofReals (fun R x => R.mul x R.radiansPerDegree) dt
  | sign, .i32 => some ⟨.i32, fun x => Int32.ofInt (signOf x.toInt)⟩
  | sign, .i64 => some ⟨.i64, fun x => Int64.ofInt (signOf x.toInt)⟩
  | sign, dt => ofReals Reals.sign dt
  | signbit, .i32 => some ⟨.bool, fun x => x.toInt < 0⟩
  | signbit, .i64 => some ⟨.bool, fun x => x.toInt < 0⟩
  | signbit, .u32 => some ⟨.bool, fun _ => false⟩
  | signbit, .f32 => some ⟨.bool, fun x => x < 0⟩
  | signbit, .f64 => some ⟨.bool, fun x => x < 0⟩
  | signbit, _ => none

/-- The function for the real functions of an element type. -/
def BinaryFunction.apply {α : Type} (R : Reals α) : BinaryFunction → α → α → α
  | logaddexp => R.logAddExp
  | logaddexp2 => R.logAddExp2
  | hypot => R.hypot

/-- **The function for an element type**, if it has one. -/
def BinaryFunction.kernel? (f : BinaryFunction) (dt : DType) :
    Option (dt.Elem → dt.Elem → dt.Elem) :=
  (reals? dt).map fun R => f.apply R

end Elementwise

end Strided
