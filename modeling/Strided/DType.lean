import Strided.Checked

/-!
# Element types

`DType` names the eight element types at run time and `DType.Elem` gives the type of
the elements themselves, so that a buffer is an array of `dt.Elem` for the `dt` it
carries, and code that never looks at elements is written once for all of them.
-/

namespace Strided

/-- A complex number over the floating point type `α`. -/
structure Complex (α : Type) where
  re : α
  im : α
  deriving Inhabited

/-- **The element types**, at run time. -/
inductive DType where
  | bool
  | i32
  | i64
  | u32
  | f32
  | f64
  | c64
  | c128
  deriving DecidableEq, Inhabited

namespace DType

/-- The type of the elements. -/
@[reducible] def Elem : DType → Type
  | bool => Bool
  | i32 => Int32
  | i64 => Int64
  | u32 => UInt32
  | f32 => Float32
  | f64 => Float
  | c64 => Complex Float32
  | c128 => Complex Float

/-- All element types. -/
def all : List DType := [bool, i32, i64, u32, f32, f64, c64, c128]

/-- The element type of an array nobody chose one for. -/
def standard : DType := f32

/-- Whether the elements are real floating point numbers. -/
def isFloat : DType → Bool
  | f32 | f64 => true
  | _ => false

/-- Whether the elements are complex numbers. -/
def isComplex : DType → Bool
  | c64 | c128 => true
  | _ => false

/-- The short lower case name. -/
def name : DType → String
  | bool => "bool"
  | i32 => "i32"
  | i64 => "i64"
  | u32 => "u32"
  | f32 => "f32"
  | f64 => "f64"
  | c64 => "c64"
  | c128 => "c128"

/-- The capitalised name that messages use. -/
def label : DType → String
  | bool => "Bool"
  | i32 => "I32"
  | i64 => "I64"
  | u32 => "U32"
  | f32 => "F32"
  | f64 => "F64"
  | c64 => "C64"
  | c128 => "C128"

/-- The element type of a short name. -/
def ofName? (s : String) : Option DType := all.find? (·.name == s)

/-- Bytes per element. -/
def bytes : DType → Nat
  | bool => 1
  | i32 | u32 | f32 => 4
  | i64 | f64 | c64 => 8
  | c128 => 16

/-- The zero of the element type; `false` for truth values. -/
def zero : (dt : DType) → dt.Elem
  | bool => false
  | i32 => 0
  | i64 => 0
  | u32 => 0
  | f32 => 0
  | f64 => 0
  | c64 => ⟨0, 0⟩
  | c128 => ⟨0, 0⟩

/-- The one of the element type; `true` for truth values. -/
def one : (dt : DType) → dt.Elem
  | bool => true
  | i32 => 1
  | i64 => 1
  | u32 => 1
  | f32 => 1
  | f64 => 1
  | c64 => ⟨1, 0⟩
  | c128 => ⟨1, 0⟩

instance (dt : DType) : Inhabited dt.Elem := ⟨dt.zero⟩

/-- **Widening.** Every element as a double precision complex number. Only a 64-bit
integer beyond 53 bits is rounded. -/
def widen : (dt : DType) → dt.Elem → Complex Float
  | bool, b => ⟨if b then 1 else 0, 0⟩
  | i32, x => ⟨x.toFloat, 0⟩
  | i64, x => ⟨x.toFloat, 0⟩
  | u32, x => ⟨x.toFloat, 0⟩
  | f32, x => ⟨x.toFloat, 0⟩
  | f64, x => ⟨x, 0⟩
  | c64, z => ⟨z.re.toFloat, z.im.toFloat⟩
  | c128, z => z

/-- A buffer of `n` elements exists only if its bytes fit a signed word. -/
def checkCapacity (dt : DType) (n : Nat) : Checked Unit :=
  checkMemory (dt.bytes * n)

end DType

end Strided
