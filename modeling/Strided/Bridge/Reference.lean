import Strided.Product

/-!
# The reference bridge

The plainest bridge there is. It multiplies matrices as the host does, and stands in for
the rest: a factorization leaves ones and a descending count, a transform copies its
source. Any of its requests can be made to fail instead.
-/

namespace Strided.Bridge

/-- How a request that is made to fail reports it. -/
inductive Refusal where
  | failed
  | unsupported
  deriving DecidableEq

/-- Bridges that answer every request without doing anything. -/
def idle : Bridges := fun _ _ w => (.done, w.store)

/-- A bridge's answer by way of a computation. Its refusals become reports of the bridge. -/
def byAction (x : Action Unit) (w : World) : Response × Store :=
  match x w with
  | (.ok (), w) => (.done, w.store)
  | (.error (.rejected e), w) => (.error (.failed e.message), w.store)
  | (.error (.fault f), w) => (.fault f, w.store)

/-- The product of two matrices, on the host, into `dst`. -/
def multiply (lhs rhs dst : NDArray) : Action Unit := do
  let product ← (lhs.withDevice .host).matmul idle (rhs.withDevice .host)
  dst.copyFrom product

/-- Ones in place of factors, and `n - 1, …, 1, 0` in place of a permutation. -/
def pseudoFactorize (factors pivots : NDArray) : Action Unit := do
  factors.fill factors.dt factors.dt.one
  let n ← pivots.numel
  pivots.assign .i32 ((List.range n).reverse.map Int32.ofNat)

/-- **The reference behaviour**, of a bridge with a name whose requests may be refused. -/
def reference (name : String) (refusal? : Request → Option Refusal) : Bridge := fun r w =>
  let what := r.name ++ " on " ++ name
  match refusal? r with
  | some .failed => (.error (.failed what), w.store)
  | some .unsupported => (.error (.unsupported what), w.store)
  | none =>
    match r with
    | .handleArray _ => (.done, w.store)
    | .matmul lhs rhs dst => byAction (multiply lhs rhs dst) w
    | .lu factors pivots => byAction (pseudoFactorize factors pivots) w
    | .fft src dst => byAction (dst.copyFrom src) w
    | .fft2 src dst => byAction (dst.copyFrom src) w

end Strided.Bridge
