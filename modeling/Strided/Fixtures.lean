import Strided.NDArray.Create
import Strided.Random.Range

/-!
# Test fixtures

Shapes and subviews to try strided code on, drawn from a `RangeSource` or listed
exhaustively.

* `randomSubscription` draws one slice for every axis of a shape;
* `generateShapes` gives shapes of a range of ranks: all of them, with no samples asked
  for, or the two extreme ones and some random ones of every rank;
* `generateViews` follows every such shape with random subviews of it, no two alike.
-/

namespace Strided

variable {σ : Type}

/-! ### Subscriptions -/

/-- A random index from `lo` on that is not the last one of an axis of size `dim`. -/
def drawInner (R : RangeSource σ) (lo dim : Nat) : Draw σ Nat := do
  drawBetween R lo (← checkDifference dim 2)

/-- The first index of a random slice of an axis of size `dim`. -/
def drawStart (R : RangeSource σ) (dim : Nat) : Draw σ Nat :=
  if 1 < dim then drawInner R 0 dim else pure 0

/-- Its step, up to half of a long axis. -/
def drawStep (R : RangeSource σ) (dim : Nat) : Draw σ Nat :=
  if 3 < dim then drawBetween R 1 (dim / 2) else pure 1

/-- Its end, as far as the first index leaves a choice. -/
def drawStop (R : RangeSource σ) (start dim : Nat) : Draw σ Nat := do
  let next ← checkSize (start + 1)
  if next < dim - 1 then drawInner R next dim else return next

/-- **A random slice of an axis** of size `dim`. It selects an index and leaves out the last
one, unless that is the only one. -/
def randomSlice (R : RangeSource σ) (dim : Nat) : Draw σ Slice := do
  let start ← drawStart R dim
  let step ← drawStep R dim
  let stop ← drawStop R start dim
  return ⟨start, step, stop⟩

/-- **A random slice for every axis**, and the shape of what they select. -/
def randomSubscription (R : RangeSource σ) (shape : Shape) : Draw σ (Subscription × Shape) := do
  let s := Subscription.mk (← shape.dims.mapM (randomSlice R))
  return (s, s.shape)

/-! ### Shapes -/

/-- **The sizes that follow** `dims` when the last axis runs fastest and every size runs from one
to `maxDim`. A size that comes out too large starts anew, and the axis before it moves. There are
none after the last. -/
def nextDims (maxDim : Nat) : List Nat → Checked (Option (List Nat))
  | [] => return none
  | dim :: dims => do
    match ← nextDims maxDim dims with
    | some dims => return some (dim :: dims)
    | none =>
      -- the sum is taken before it is compared
      let raised ← checkSize (dim + 1)
      return if raised ≤ maxDim then some (raised :: dims.map fun _ => 1) else none

/-- A number that every move makes smaller: what is left to each axis up to `maxDim`, every move
of it worth a round of the axes after it. -/
def movesLeft (maxDim : Nat) : List Nat → Nat
  | [] => 0
  | dim :: dims =>
    (maxDim - dim) * Shape.volume (List.replicate dims.length maxDim) + movesLeft maxDim dims

/-- Axes that start anew have less than a round before them. -/
theorem movesLeft_ones_lt {maxDim : Nat} (h : 1 ≤ maxDim) (dims : List Nat) :
    movesLeft maxDim (dims.map fun _ => 1)
      < Shape.volume (List.replicate dims.length maxDim) := by
  induction dims with
  | nil => exact Nat.one_pos
  | cons dim dims ih =>
    let round := Shape.volume (List.replicate dims.length maxDim)
    show (maxDim - 1) * Shape.volume (List.replicate (dims.map fun _ => 1).length maxDim)
      + movesLeft maxDim (dims.map fun _ => 1) < maxDim * round
    -- the first axis has one move less than sizes, and the others have less than that one
    have hround : (maxDim - 1) * round + round = maxDim * round := by
      rw [← Nat.succ_mul, Nat.succ_eq_add_one, Nat.sub_add_cancel h]
    rw [List.length_map, ← hround]
    exact Nat.add_lt_add_left ih _

/-- **A move keeps the number of axes, and leaves fewer moves.** -/
theorem of_nextDims {maxDim : Nat} {dims next : List Nat}
    (h : nextDims maxDim dims = .ok (some next)) :
    next.length = dims.length ∧ movesLeft maxDim next < movesLeft maxDim dims := by
  induction dims generalizing next with
  | nil => exact absurd (Except.ok.inj h) (by simp)
  | cons dim dims ih =>
    rw [nextDims] at h
    rcases hlater : nextDims maxDim dims with f | _ | later
    · rw [hlater] at h
      cases h
    · -- the later axes start anew, and this one moves
      rw [hlater] at h
      by_cases hsize : dim + 1 < sizeBound
      · rw [checkSize_eq_ok_iff.2 ⟨hsize, rfl⟩] at h
        by_cases hmove : dim + 1 ≤ maxDim
        · obtain rfl : (dim + 1) :: dims.map (fun _ => 1) = next :=
            Option.some.inj ((if_pos hmove).symm.trans (Except.ok.inj h))
          have hone : 1 ≤ maxDim := Nat.le_trans (Nat.le_add_left 1 dim) hmove
          have hrest := movesLeft_ones_lt hone dims
          have hfirst : maxDim - dim = maxDim - (dim + 1) + 1 := by omega
          refine ⟨by simp, ?_⟩
          rw [movesLeft, movesLeft, hfirst, List.length_map, Nat.succ_mul]
          omega
        · exact absurd ((if_neg hmove).symm.trans (Except.ok.inj h)) (by simp)
      · rw [checkSize, if_neg hsize] at h
        cases h
    · -- a later axis moves, and this one stays
      rw [hlater] at h
      obtain rfl : dim :: later = next := Option.some.inj (Except.ok.inj h)
      obtain ⟨hlen, hmoves⟩ := ih hlater
      refine ⟨congrArg (· + 1) hlen, ?_⟩
      rw [movesLeft, movesLeft, hlen]
      exact Nat.add_lt_add_left hmoves _

/-- The sizes from `dims` on, behind those found before. -/
def dimsFrom (maxDim : Nat) (dims : List Nat) (found : Array (List Nat)) :
    Checked (Array (List Nat)) :=
  match _ : nextDims maxDim dims with
  | .error f => .error f
  | .ok none => .ok (found.push dims)
  | .ok (some next) => dimsFrom maxDim next (found.push dims)
termination_by movesLeft maxDim dims
decreasing_by exact (of_nextDims ‹_›).2

/-- **All shapes of a rank** with sizes from one to `maxDim`, from the smallest sizes on. -/
def allShapes (maxDim ndim : Nat) : Checked (List Shape) := do
  if maxDim = 0 then return []
  let found ← dimsFrom maxDim (List.replicate ndim 1) #[]
  return found.toList.map Shape.mk

/-- A shape with sizes below `maxDim`. -/
def randomShape (R : RangeSource σ) (maxDim ndim : Nat) : Draw σ Shape := do
  let dims ← (List.range ndim).mapM fun _ =>
    if 1 < maxDim then drawBetween R 1 (maxDim - 1) else pure 1
  return ⟨dims⟩

/-- Shapes of one rank: the smallest, the largest and `samples` random ones. -/
def sampleShapes (R : RangeSource σ) (maxDim samples ndim : Nat) : Draw σ (List Shape) := do
  let drawn ← (List.range samples).mapM fun _ => randomShape R maxDim ndim
  return ⟨List.replicate ndim 1⟩ :: ⟨List.replicate ndim maxDim⟩ :: drawn

/-- The shapes of a rank: some of them if samples are asked for, else all. The sizes of one
shape are as many words. -/
def shapesOfRank (R : RangeSource σ) (maxDim samples ndim : Nat) : Draw σ (List Shape) := do
  checkMemory (8 * ndim)
  if 0 < samples then sampleShapes R maxDim samples ndim else allShapes maxDim ndim

/-- The shapes of `count` ranks from `ndim` on. -/
def shapesFromRank (R : RangeSource σ) (maxDim samples : Nat) :
    Nat → Nat → Draw σ (List Shape)
  | _, 0 => return []
  | ndim, count + 1 => do
    let shapes ← shapesOfRank R maxDim samples ndim
    return shapes ++ (← shapesFromRank R maxDim samples (ndim + 1) count)

/-- **Shapes of every rank in a range**, if there are sizes or samples to take them from. -/
def generateShapes (R : RangeSource σ) (maxNdim maxDim samples minNdim : Nat) :
    Draw σ (List Shape) :=
  if maxDim = 0 ∧ samples = 0 then return []
  else shapesFromRank R maxDim samples minNdim (maxNdim + 1 - minNdim)

/-! ### Fixtures -/

/-- The numbers from zero on. -/
def numbers (n : Nat) : Array Int64 := (Array.range n).map Int64.ofNat

/-- **A shape, and a subscription of it if only a part is meant.** -/
structure ViewFixture where
  shape : Shape
  subscription : Option Subscription
  viewShape : Shape
  deriving DecidableEq

namespace ViewFixture

/-- The fixture that means all of a shape. -/
def whole (shape : Shape) : ViewFixture := ⟨shape, none, shape⟩

/-- The characters of the fixture: what it selects from, the selection, what that gives. -/
def chars (f : ViewFixture) : List Char :=
  f.shape.listing ++ (f.subscription.elim [] Subscription.chars) ++ [' ', '-', '>', ' ']
    ++ f.viewShape.listing

/-- The text of the fixture. -/
def text (f : ViewFixture) : String := String.ofList f.chars

/-- The part of an array of the shape that is meant. -/
def restrict (f : ViewFixture) (base : NDArray) : Answer NDArray :=
  match f.subscription with
  | none => return base
  | some s => base.subview s

/-- **The numbers from zero on in the shape of the fixture**, seen through its
subscription. -/
def materialize (f : ViewFixture) (device : Device) : Action NDArray := do
  let count := (toSigned (← f.shape.numel)).toNat
  DType.i64.checkCapacity count
  let base ← NDArray.ofArray ⟨.i64, numbers count⟩ f.shape device
  f.restrict base

end ViewFixture

/-- Random subviews of a shape, in `samples` draws. One whose text was seen before is
dropped. -/
def drawViews (R : RangeSource σ) (shape : Shape) : Nat → List String → Draw σ (List ViewFixture)
  | 0, _ => return []
  | samples + 1, seen => do
    let (s, viewShape) ← randomSubscription R shape
    if seen.contains s.text then
      drawViews R shape samples seen
    else
      return ⟨shape, some s, viewShape⟩ :: (← drawViews R shape samples (s.text :: seen))

/-- The fixtures of one shape: all of it, and random subviews if it has any. -/
def shapeViews (R : RangeSource σ) (samples : Nat) (shape : Shape) :
    Draw σ (List ViewFixture) := do
  if (← shape.isDegenerate) then
    return [.whole shape]
  return .whole shape :: (← drawViews R shape samples [])

/-- **Fixtures for shapes of every rank in a range.** -/
def generateViews (R : RangeSource σ) (maxNdim maxDim minNdim samples : Nat) :
    Draw σ (List ViewFixture) := do
  let shapes ← generateShapes R maxNdim maxDim samples minNdim
  return (← shapes.mapM (shapeViews R samples)).flatten

end Strided
