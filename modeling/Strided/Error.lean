import Strided.View
import Strided.Subscription
import Strided.DType

/-!
# Refusals

Every operation checks its arguments before it works, and refuses what it cannot take
with an `ArrayError`. The constructors are the causes, with the values that a message
shows; the wording is in `ArrayError.message` alone. A computation on arrays ends in a
`Failure`, which is either such a refusal or a `Fault`.
-/

namespace Strided

/-- Why a subscription does not select from a view. -/
inductive SubviewError where
  /-- The subscription has another number of axes than the view. -/
  | rank (subscription : Subscription) (viewRank : Nat)
  /-- A slice selects nothing or reaches beyond the end of its axis. -/
  | bounds (slice : Slice) (dim : Nat)
  deriving DecidableEq

/-- Why a diagonal cannot be taken or filled. -/
inductive DiagonalError where
  /-- Only a matrix has diagonals. -/
  | notMatrix (rank : Nat)
  /-- Only a vector or a matrix has a diagonal form. -/
  | notVectorOrMatrix (rank : Nat)
  /-- The first cell of the diagonal would lie before the start of the storage. -/
  | startOutOfBounds (offset : Nat) (start : Int)
  /-- The square matrix around the diagonal has more cells than a size can count. -/
  | sizeOverflow (length : Nat) (k : Int)
  deriving DecidableEq

/-- What a bridge reports when it did not do what it was asked. -/
inductive BridgeError where
  | failed (what : String)
  | unsupported (what : String)
  deriving DecidableEq

/-- **Why an operation refuses its arguments.** -/
inductive ArrayError where
  | dtypeMismatch (expected actual : DType)
  | shapeMismatch (expected actual : Shape)
  | rankMismatch (expected actual : Nat)
  | notSquare (shape : Shape)
  | invalidSubview (cause : SubviewError)
  | notContiguous (view : View)
  | unsupportedDType (operation : String) (dt : DType)
  /-- There is no product of operands of these ranks. -/
  | unsupportedDot (left right : Nat)
  /-- Only a bridge can factorize. -/
  | hostFactorization
  | diagonal (cause : DiagonalError)
  /-- A device without a bridge was asked for one. -/
  | deviceMismatch (requested actual : String)
  | bridge (cause : BridgeError)
  /-- The axes that are not empty multiply to more than a signed word. -/
  | layoutOverflow
  deriving DecidableEq

/-- **How a computation on arrays ends without a result.** -/
inductive Failure where
  | rejected (cause : ArrayError)
  | fault (kind : Fault)
  deriving DecidableEq

/-- What an operation answers that reads no storage. -/
abbrev Answer (α : Type) := Except Failure α

/-- A refusal. -/
def reject {α : Type} (cause : ArrayError) : Answer α := .error (.rejected cause)

/-- Layout arithmetic inside an operation. -/
def Checked.lift {α : Type} : Checked α → Answer α
  | .ok a => .ok a
  | .error f => .error (.fault f)

instance : MonadLift (Except Fault) (Except Failure) := ⟨Checked.lift⟩

@[simp] theorem Checked.lift_ok {α : Type} (a : α) :
    Checked.lift (.ok a : Checked α) = .ok a := rfl

@[simp] theorem Checked.lift_error {α : Type} (f : Fault) :
    Checked.lift (.error f : Checked α) = .error (.fault f) := rfl

/-! ### Wording -/

/-- The decimal text of a size. -/
def sizeText (n : Nat) : String := String.ofList (digits n)

/-- The decimal text of a distance. -/
def signedText (z : Int) : String := String.ofList (signedDigits z)

/-- The wording of a refused subscription. -/
def SubviewError.message : SubviewError → String
  | .rank s r =>
    "subscription " ++ s.text ++ " has " ++ sizeText s.rank ++ " dimensions, view has "
      ++ sizeText r
  | .bounds s dim =>
    s.text ++ " is out of bounds for a dimension of size " ++ sizeText dim

/-- The wording of a refused diagonal. -/
def DiagonalError.message : DiagonalError → String
  | .notMatrix r => "diagonal requires a 2-D array, got " ++ sizeText r ++ " dimensions"
  | .notVectorOrMatrix r =>
    "diag requires a 1-D or 2-D input, got " ++ sizeText r ++ " dimensions"
  | .startOutOfBounds offset start =>
    "diagonal starts " ++ signedText start ++ " elements from offset " ++ sizeText offset
      ++ ", outside the storage"
  | .sizeOverflow length k =>
    "a " ++ sizeText length ++ " element diagonal at offset " ++ signedText k
      ++ " does not fit in a square matrix"

/-- The wording of a bridge's report. -/
def BridgeError.message : BridgeError → String
  | .failed what => "Bridge operation failed: " ++ what
  | .unsupported what => "Bridge does not support " ++ what

/-- **The wording of a refusal.** -/
def ArrayError.message : ArrayError → String
  | .dtypeMismatch expected actual =>
    "DType mismatch, expected " ++ expected.label ++ ", got " ++ actual.label
  | .shapeMismatch expected actual =>
    "Shape mismatch " ++ expected.compact ++ " != " ++ actual.compact
  | .rankMismatch expected actual =>
    "Expected a " ++ sizeText expected ++ "-D array, got " ++ sizeText actual ++ "-D"
  | .notSquare shape => "Expected a square matrix, got " ++ shape.compact
  | .invalidSubview cause => "Invalid subview: " ++ cause.message
  | .notContiguous view => "View " ++ view.text ++ " is not contiguous"
  | .unsupportedDType operation dt => operation ++ " does not support dtype " ++ dt.label
  | .unsupportedDot left right =>
    "dot of " ++ sizeText left ++ "-D and " ++ sizeText right ++ "-D arrays"
  | .hostFactorization => "LU factorization requires an accelerated array"
  | .diagonal cause => cause.message
  | .deviceMismatch requested actual =>
    "Device mismatch, requested device: " ++ requested ++ ", actual device: " ++ actual
  | .bridge cause => cause.message
  | .layoutOverflow => "ShapeError/Overflow: arithmetic overflow"

end Strided
