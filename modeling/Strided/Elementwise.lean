import Strided.NDArray.Create
import Strided.Elementwise.Kernel

/-!
# Functions of arrays, element by element

The result of a function is a new array in the shape and on the device of the first
argument. With an output array the new elements are copied into that one, and the result
is that array: a view of its storage.

All elements are read before the first is written, so an output array may overlap the
arguments. `NDArray.modf` has two output arrays and fills them one after the other; when
the second one is refused, the first one has been filled.
-/

namespace Strided.NDArray

open Elementwise

/-- **Gives a result to its receiver**: copies it into `out`, if there is one. -/
def deliver (result : NDArray) : Option NDArray → Action NDArray
  | none => return result
  | some out => do
    out.copyFrom result
    return out

/-- A new array of the images of all elements under a kernel. -/
def mapElements (a : NDArray) {dt : DType} (k : Kernel dt) : Action NDArray := do
  let items ← Action.read fun s => a.toList s dt
  ofArray ⟨k.result, (items.map k.apply).toArray⟩ a.shape a.device

/-- A new array of the images of the pairs of elements at the same place. -/
def zipElements (a b : NDArray) {dt : DType} (f : dt.Elem → dt.Elem → dt.Elem) :
    Action NDArray := do
  unless a.dt = b.dt do
    reject (.dtypeMismatch a.dt b.dt)
  unless a.shape = b.shape do
    reject (.shapeMismatch a.shape b.shape)
  let xs ← Action.read fun s => a.toList s dt
  let ys ← Action.read fun s => b.toList s dt
  ofArray ⟨dt, (List.zipWith f xs ys).toArray⟩ a.shape a.device

/-- **A function of one argument.** -/
def mapUnary (f : UnaryFunction) (a : NDArray) (out : Option NDArray) : Action NDArray := do
  match f.kernel? a.dt with
  | none => reject (.unsupportedDType f.name a.dt)
  | some k => deliver (← a.mapElements k) out

/-- **A function of two arguments.** -/
def mapBinary (f : BinaryFunction) (a b : NDArray) (out : Option NDArray) :
    Action NDArray := do
  match f.kernel? a.dt with
  | none => reject (.unsupportedDType f.name a.dt)
  | some k => deliver (← a.zipElements b k) out

/-- **Fraction and floor** of every element, the fraction delivered first. -/
def modf (a : NDArray) (out₁ out₂ : Option NDArray) : Action (NDArray × NDArray) := do
  match reals? a.dt with
  | none => reject (.unsupportedDType "modf" a.dt)
  | some R =>
    -- both results are there before the first one is delivered
    let fraction ← a.mapElements (⟨a.dt, R.fraction⟩ : Kernel a.dt)
    let floor ← a.mapElements (⟨a.dt, R.floor⟩ : Kernel a.dt)
    let fraction ← deliver fraction out₁
    let floor ← deliver floor out₂
    return (fraction, floor)

end Strided.NDArray
