import Strided.NDArray.Create

/-!
# Fourier transforms of arrays

A transform of an array is a transform of lines: along the last axis every row by itself
(`alongRows`), and over the last two axes also every column of what that gives
(`alongColumns`), plane by plane. Which transform a line undergoes is a parameter, the
`LineTransform`; `Strided.Fourier.Kernel` has the discrete Fourier transform.

Complex arrays on an accelerator go to its bridge, `fft` up to rank 2 and `fft2` at rank
2. All others are transformed on the host, in single precision if their elements are
single precision complex numbers and in double precision otherwise.
-/

namespace Strided

namespace Fourier

/-- **What happens to a line**, in either precision. -/
structure LineTransform where
  single : List (Complex Float32) → List (Complex Float32)
  double : List (Complex Float) → List (Complex Float)

/-- The trailing axes that a transform runs over. -/
inductive Axes where
  | last
  | lastTwo
  deriving DecidableEq

/-- The rank an array must have at least. -/
def Axes.minRank : Axes → Nat
  | .last => 1
  | .lastTwo => 2

variable {α : Type}

/-- The first `count` portions of `n` items. -/
def portions (n : Nat) : Nat → List α → List (List α)
  | 0, _ => []
  | count + 1, items => items.take n :: portions n count (items.drop n)

/-- The columns of rows of `n` items. -/
def columns (n : Nat) (rows : List (List α)) : List (List α) :=
  (List.range n).map fun j => rows.filterMap (·[j]?)

/-- **Every row of `n` items on its own.** -/
def alongRows (F : List α → List α) (n : Nat) (items : List α) : List α :=
  ((portions n (items.length / n) items).map F).flatten

/-- Every column of one plane of `m` rows and `n` columns. -/
def alongPlaneColumns (F : List α → List α) (m n : Nat) (plane : List α) : List α :=
  (columns m ((columns n (portions n m plane)).map F)).flatten

/-- **Every column on its own**, plane by plane. -/
def alongColumns (F : List α → List α) (m n : Nat) (items : List α) : List α :=
  ((portions (m * n) (items.length / (m * n)) items).map (alongPlaneColumns F m n)).flatten

/-- **The lines of an array**, given in row-major order, under a transform of lines. -/
def transform (F : List α → List α) (axes : Axes) (shape : Shape) (items : List α) : List α :=
  match axes, shape.dims.reverse with
  | .last, n :: _ => alongRows F n items
  | .lastTwo, n :: m :: _ => alongColumns F m n (alongRows F n items)
  | _, _ => items

end Fourier

namespace NDArray

open Strided.Fourier

/-- A transform on the host. -/
def transformHost (F : LineTransform) (axes : Axes) (a : NDArray) : Action NDArray := do
  unless axes.minRank ≤ a.rank do
    reject (.rankMismatch axes.minRank a.rank)
  if a.dt = .c64 then
    let items ← Action.read fun s => a.toList s .c64
    ofArray ⟨.c64, (transform F.single axes a.shape items).toArray⟩ a.shape a.device
  else
    let items ← Action.read fun s => a.toComplex s
    ofArray ⟨.c128, (transform F.double axes a.shape items).toArray⟩ a.shape a.device

/-- A transform by a bridge, which is asked with `request` to fill a new array. -/
def transformBridge (bridges : Bridges) (h : Handle) (a : NDArray)
    (request : NDArray → NDArray → Request) : Action NDArray := do
  let dst ← empty a.shape a.dt a.device
  Action.call bridges h (request a dst)
  return dst

/-- The bridge that transforms the array, if its elements are complex. -/
def complexBridge? (a : NDArray) : Option Handle := if a.dt.isComplex then a.bridge? else none

/-- **The transform along the last axis.** -/
def fft (bridges : Bridges) (F : LineTransform) (a : NDArray) : Action NDArray := do
  match a.rank, a.complexBridge? with
  | 0, _ => reject (.rankMismatch 1 0)
  | 1, some h => transformBridge bridges h a .fft
  | 2, some h => transformBridge bridges h a .fft
  | _, _ => transformHost F .last a

/-- **The transform over the last two axes.** -/
def fft2 (bridges : Bridges) (F : LineTransform) (a : NDArray) : Action NDArray := do
  match a.rank, a.complexBridge? with
  | 2, some h => transformBridge bridges h a .fft2
  | _, _ => transformHost F .lastTwo a

end NDArray

end Strided
