import Strided.Proofs.Fourier.Lines
import Strided.Proofs.NDArray.Calls
import Strided.Proofs.NDArray.RowMajor
import Strided.Proofs.NDArray.WriteThrough

/-!
# Transforms on the host

A transform that no bridge does is done on the host, in single precision for single precision
complex numbers and in double precision for everything else. The elements are read into a list of
their own, promoted to that precision (`NDArray.promoted`), and the list is transformed line by line
in row-major order, whatever the layout of the array is. The result is a new array of the same shape
that shows the transformed list (`NDArray.Shows`).

So `NDArray.fft_lines` is about multi-indices only: along the last axis every row undergoes the line
transform by itself, and over the last two axes every column of what that gives, plane by plane. Of
the line transform nothing is asked but that it keeps the length of a line. The one thing that can
go wrong is that there is no memory for the promoted list.
-/

namespace Strided

open Shape Strides Strided.Fourier

/-! ### Precisions -/

/-- The element type of a transform. -/
def DType.transformed : DType → DType
  | .c64 => .c64
  | _ => .c128

/-- **An element in the precision of its transform.** -/
def DType.promote : (dt : DType) → dt.Elem → dt.transformed.Elem
  | .bool, b => widen .bool b
  | .i32, x => widen .i32 x
  | .i64, x => widen .i64 x
  | .u32, x => widen .u32 x
  | .f32, x => widen .f32 x
  | .f64, x => widen .f64 x
  | .c64, z => z
  | .c128, z => widen .c128 z

/-- What happens to a line of elements of some type. Only complex numbers are transformed. -/
def Fourier.LineTransform.on (F : LineTransform) : (dt : DType) → List dt.Elem → List dt.Elem
  | .c64, line => F.single line
  | .c128, line => F.double line
  | _, line => line

/-- A line keeps its length in either precision. -/
theorem Fourier.LineTransform.KeepsLength.on {F : LineTransform} (h : F.KeepsLength) (dt : DType)
    (line : List dt.Elem) : (F.on dt line).length = line.length := by
  cases dt with
  | c64 => exact h.single line
  | c128 => exact h.double line
  | _ => rfl

namespace NDArray

variable {a : NDArray} {cells : Array a.dt.Elem} {w : World} {F : LineTransform} {axes : Axes}
  {bridges : Bridges} {xs : List a.dt.Elem}

/-- **The element at a multi-index**, in the precision of its transform. -/
def promoted (a : NDArray) (cells : Array a.dt.Elem) (index : List Nat) : a.dt.transformed.Elem :=
  a.dt.promote (a.elementAt cells index)

/-- **The array `b` shows the values `y`** under the shape of `a` and on its device, in the
precision of a transform. -/
structure Transformed (s : Store) (a b : NDArray) (y : List Nat → a.dt.transformed.Elem) :
    Prop where
  shape_eq : b.shape = a.shape
  device_eq : b.device = a.device
  dt_eq : b.dt = a.dt.transformed
  shows : ∃ ys, b.toList s a.dt.transformed = .ok ys ∧ Spells a.shape.dims y ys

/-! ### Reading -/

/-- There is memory for the promoted elements. -/
def RoomToTransform (a : NDArray) : Prop :=
  a.dt.transformed.bytes * volume a.shape.dims < signedBound

instance (a : NDArray) : Decidable a.RoomToTransform := inferInstanceAs (Decidable (_ < _))

/-- No element is narrower in the precision of its transform. -/
theorem bytes_le_transformed (dt : DType) : dt.bytes ≤ dt.transformed.bytes := by
  cases dt <;> decide

/-- The elements, each in the precision of its transform. -/
def toPromoted (s : Store) (a : NDArray) : Answer (List a.dt.transformed.Elem) := do
  let items ← a.toList s a.dt
  a.dt.transformed.checkCapacity items.length
  return items.map a.dt.promote

/-- **The promoted elements** of an array that can be read, if there is memory for them. -/
theorem toPromoted_of_toList (hxs : a.toList w.store a.dt = .ok xs)
    (hroom : a.RoomToTransform) : a.toPromoted w.store = .ok (xs.map a.dt.promote) := by
  unfold toPromoted
  exact map_of_toList a.dt.transformed a.dt.promote hxs hroom

/-- **Without the memory nothing is read**, or it is read in vain. -/
theorem toPromoted_of_no_room (hbuf : a.Backed w.store cells) (hwalks : a.view.Walks cells.size)
    (hsize : cells.size ≤ sizeBound) (hroom : ¬a.RoomToTransform) :
    a.toPromoted w.store = .error (.fault .capacity) := by
  unfold toPromoted
  exact map_of_no_room a.dt.transformed a.dt.promote hbuf hwalks hsize hroom

/-- An array with too few axes is refused before it is read. -/
theorem transformHost_of_rank (hrank : a.rank < axes.minRank) (F : LineTransform) (w : World) :
    transformHost F axes a w = (.error (.rejected (.rankMismatch axes.minRank a.rank)), w) := by
  unfold transformHost
  rw [if_neg (Nat.not_le.2 hrank)]
  exact Action.bind_answer_error rfl _ w

/-- The host reads, transforms and makes an array, in the same way in both precisions. -/
theorem transformHost_eq_of_rank (hrank : axes.minRank ≤ a.rank) :
    transformHost F axes a w = (Action.read (fun s => a.toPromoted s) >>= fun items =>
      ofArray ⟨a.dt.transformed, (transform (F.on a.dt.transformed) axes a.shape items).toArray⟩
        a.shape a.device) w := by
  obtain ⟨storage, view, dt, device⟩ := a
  unfold transformHost
  rw [if_pos hrank]
  cases dt with
  | c64 =>
    dsimp only
    rw [if_pos rfl]
    refine Action.bind_read_congr ?_ fun _ => rfl
    -- these elements are in their precision already, and in memory
    cases hread : NDArray.toList w.store ⟨storage, view, .c64, device⟩ .c64 with
    | error e =>
      unfold toPromoted
      rw [hread]
      rfl
    | ok xs =>
      have hcap := (of_toList hread).2.2.2
      rw [(of_toList hread).2.2.1] at hcap
      exact (toPromoted_of_toList hread hcap).trans (congrArg Except.ok (List.map_id xs))
        |>.symm
  | _ => rfl

/-! ### What the host promises -/

/-- **What `run` promises**, for all transforms of lines that keep their length. -/
structure TransformsLines (run : LineTransform → Action NDArray) (axes : Axes) (a : NDArray)
    (cells : Array a.dt.Elem) (w : World) : Prop where
  /-- Without the axes it runs over there is no transform. -/
  refused : a.rank < axes.minRank → ∀ F,
    run F w = (.error (.rejected (.rankMismatch axes.minRank a.rank)), w)
  /-- Without the memory there is none either. -/
  exhausted : axes.minRank ≤ a.rank → ¬a.RoomToTransform → ∀ F,
    run F w = (.error (.fault .capacity), w)
  /-- Otherwise there is one, line by line. -/
  lines : axes.minRank ≤ a.rank → a.RoomToTransform → ∀ F : LineTransform, F.KeepsLength →
    ∃ b w' y, run F w = (.ok b, w') ∧ Transformed w'.store a b y ∧
      LinesUnder (F.on a.dt.transformed) a.shape.dims (a.promoted cells) y axes
  /-- No line of an empty array is asked for. -/
  idle : volume a.shape.dims = 0 → ∀ F G, run F w = run G w

/-- **A transform on the host** shows the promoted elements, line by line. -/
theorem transformHost_lines (hF : F.KeepsLength) (hbuf : a.Backed w.store cells)
    (hfits : (Buffer.mk a.dt cells).Fits) (hwalks : a.view.Walks cells.size)
    (hown : ∃ own, rowMajor a.shape = .ok own) (hrank : axes.minRank ≤ a.rank)
    (hroom : a.RoomToTransform) :
    ∃ b w' y, transformHost F axes a w = (.ok b, w') ∧ Transformed w'.store a b y ∧
      LinesUnder (F.on a.dt.transformed) a.shape.dims (a.promoted cells) y axes := by
  obtain ⟨own, hown⟩ := hown
  -- there is memory for the wider elements, so there is for the narrower ones
  have hsmall : a.dt.bytes * volume a.shape.dims < signedBound :=
    lt_of_le_of_lt (Nat.mul_le_mul_right _ (bytes_le_transformed a.dt)) hroom
  obtain ⟨xs, hxs⟩ := exists_toList hbuf hwalks hfits.size_le hsmall
  have hspells : Spells a.shape.dims (a.promoted cells) (xs.map a.dt.promote) :=
    (spells_of_toList hbuf hfits hwalks hxs).map a.dt.promote
  -- as many elements come out as went in, so they make an array of the shape
  have hkeeps := hF.on a.dt.transformed
  have hlen := length_transform hkeeps axes hspells.length_eq
  obtain ⟨y, hy⟩ := exists_spells hlen
  let ys := transform (F.on a.dt.transformed) axes a.shape (xs.map a.dt.promote)
  have hsize : (Buffer.mk a.dt.transformed ys.toArray).size = volume a.shape.dims := hlen
  have hnumel : a.shape.numel = .ok (Buffer.mk a.dt.transformed ys.toArray).size := by
    rw [hsize]
    exact View.numel_of_fault hwalks.fault_eq
  have hview := View.contiguous_of_rowMajor hown
  have hfits' : (Buffer.mk a.dt.transformed ys.toArray).Fits := by
    unfold Buffer.Fits
    rw [hsize]
    exact hroom
  have hwhole := Whole.new hnumel hview hfits' w.store a.device
  refine ⟨⟨w.store.nextId, ⟨a.shape, own, 0⟩, a.dt.transformed, a.device⟩,
    { w with store := w.store.push ⟨a.dt.transformed, ys.toArray⟩ }, y, ?_,
    ⟨rfl, rfl, rfl, ys, hwhole.toList_eq, hy⟩, linesUnder_transform hkeeps axes hspells hy⟩
  rw [transformHost_eq_of_rank hrank, Action.bind_read_ok (toPromoted_of_toList hxs hroom)]
  exact ofArray_eq hnumel hview hfits' a.device w

/-- **The host keeps the promise**, over either axes. -/
theorem transformsLines_host (axes : Axes) (hbuf : a.Backed w.store cells)
    (hfits : (Buffer.mk a.dt cells).Fits) (hwalks : a.view.Walks cells.size)
    (hown : ∃ own, rowMajor a.shape = .ok own) :
    TransformsLines (fun F => transformHost F axes a) axes a cells w where
  refused := fun hrank F => transformHost_of_rank hrank F w
  exhausted := fun hrank hroom F => by
    rw [transformHost_eq_of_rank hrank]
    exact Action.bind_read_error (toPromoted_of_no_room hbuf hwalks hfits.size_le hroom) _
  lines := fun hrank hroom F hF => transformHost_lines hF hbuf hfits hwalks hown hrank hroom
  idle := fun hempty F G => by
    by_cases hrank : axes.minRank ≤ a.rank
    · -- an empty array needs no memory, and has no line to transform
      have hroom : a.RoomToTransform := by
        unfold RoomToTransform
        rw [hempty, Nat.mul_zero]
        decide
      have hsmall : a.dt.bytes * volume a.shape.dims < signedBound := by
        rw [hempty, Nat.mul_zero]
        decide
      obtain ⟨xs, hxs⟩ := exists_toList hbuf hwalks hfits.size_le hsmall
      have hnil : xs = [] := List.length_eq_zero_iff.1 ((of_toList hxs).2.2.1.trans hempty)
      have hread := toPromoted_of_toList hxs hroom
      rw [transformHost_eq_of_rank hrank, transformHost_eq_of_rank hrank,
        Action.bind_read_ok hread, Action.bind_read_ok hread, hnil, List.map_nil, transform_nil,
        transform_nil]
    · rw [transformHost_of_rank (Nat.not_le.1 hrank), transformHost_of_rank (Nat.not_le.1 hrank)]

/-- **Transforms on the host, line by line.** An array is given whose elements lie in a buffer of
its element type, whose walk does not overflow, and whose shape has row-major strides; and no bridge
is there to transform it. Then both transforms are refused if the array has too few axes, and stop
if there is no memory for the promoted elements. Otherwise each gives an array of the same shape, on
the same device, in the precision of the transform, and shows the promoted elements line by line
under any transform of lines that keeps the length: along the last axis every row, and over the last
two the columns of the transformed rows. If the array is empty no line transform plays a part. -/
theorem fft_lines (bridges : Bridges) (hbuf : a.Backed w.store cells)
    (hfits : (Buffer.mk a.dt cells).Fits) (hwalks : a.view.Walks cells.size)
    (hown : ∃ own, rowMajor a.shape = .ok own) :
    ((Heavy.fft a).bridge? = none → TransformsLines (a.fft bridges) .last a cells w) ∧
      ((Heavy.fft2 a).bridge? = none → TransformsLines (a.fft2 bridges) .lastTwo a cells w) := by
  refine ⟨fun hb => ?_, fun hb => ?_⟩
  · -- without a bridge the transform is the one of the host
    rw [funext fun F => fft_of_host bridges F hb]
    exact transformsLines_host .last hbuf hfits hwalks hown
  · rw [funext fun F => fft2_of_host bridges F hb]
    exact transformsLines_host .lastTwo hbuf hfits hwalks hown

/-- Two planes of two rows, each of them column by column. -/
def planes : NDArray := ⟨0, ⟨⟨[2, 2, 2]⟩, ⟨[4, 1, 2]⟩, 0⟩, .i32, .host⟩

/-- Every line backwards. -/
def backwards : LineTransform := ⟨List.reverse, List.reverse⟩

/-- A row of the second plane backwards, and the second plane turned around. -/
theorem fft_lines_planes :
    planes.Backed (counting 8).store (countTo 8) ∧ (Buffer.mk planes.dt (countTo 8)).Fits ∧
      planes.view.Walks (countTo 8).size ∧ (∃ own, rowMajor planes.shape = .ok own) ∧
      (Heavy.fft planes).bridge? = none ∧ (Heavy.fft2 planes).bridge? = none ∧
      (∃ b w' y, planes.fft Bridge.idle backwards (counting 8) = (.ok b, w') ∧
        Transformed w'.store planes b y ∧
        [y [1, 0, 0], y [1, 0, 1]] = [DType.widen .i32 7, DType.widen .i32 5]) ∧
      ∃ b w' y, planes.fft2 Bridge.idle backwards (counting 8) = (.ok b, w') ∧
        Transformed w'.store planes b y ∧ y [1, 0, 0] = DType.widen .i32 8 := by
  have hbuf : planes.Backed (counting 8).store (countTo 8) := rfl
  have hfits : (Buffer.mk planes.dt (countTo 8)).Fits := by decide
  have hwalks : planes.view.Walks (countTo 8).size := ⟨rfl, by decide, by decide⟩
  have hown : ∃ own, rowMajor planes.shape = .ok own := ⟨_, rfl⟩
  have hF : backwards.KeepsLength := ⟨fun _ => List.length_reverse, fun _ => List.length_reverse⟩
  obtain ⟨hlast, hlastTwo⟩ := fft_lines Bridge.idle hbuf hfits hwalks hown
  obtain ⟨b, w', y, hrun, hshow, hrows⟩ :=
    (hlast rfl).lines (by decide) (by decide) backwards hF
  obtain ⟨c, v', x, hrun2, hshow2, hboth⟩ :=
    (hlastTwo rfl).lines (by decide) (by decide) backwards hF
  obtain ⟨z, hfirst, hthen⟩ := hboth [2] 2 2 rfl
  -- the columns are turned after the rows, so the corner goes to the opposite one
  have hcorner : x [1, 0, 0] = z [1, 1, 0] :=
    (List.cons.inj (hthen [1] (by decide) 0 (by decide))).1
  have hopposite : z [1, 1, 0] = DType.widen .i32 8 :=
    (List.cons.inj (hfirst [1, 1] (by decide))).1
  exact ⟨hbuf, hfits, hwalks, hown, rfl, rfl,
    ⟨b, w', y, hrun, hshow, hrows [2, 2] 2 rfl [1, 0] (by decide)⟩,
    ⟨c, v', x, hrun2, hshow2, hcorner.trans hopposite⟩⟩

/-- **There need not be a transform.** The array can be walked and its shape has strides, but its
elements do not fit the memory. -/
theorem fft_lines_exhausted :
    (repeated 0 .i64).Backed (alone .i64).store (lone .i64) ∧
      (Buffer.mk (repeated 0 .i64).dt (lone .i64)).Fits ∧
      (repeated 0 .i64).view.Walks (lone .i64).size ∧
      (∃ own, rowMajor (repeated 0 .i64).shape = .ok own) ∧
      (Heavy.fft (repeated 0 .i64)).bridge? = none ∧ 1 ≤ (repeated 0 .i64).rank ∧
      ∀ (F : LineTransform) (b : NDArray) (w' : World),
        (repeated 0 .i64).fft Bridge.idle F (alone .i64) ≠ (.ok b, w') := by
  have hbuf : (repeated 0 .i64).Backed (alone .i64).store (lone .i64) := rfl
  have hfits : (Buffer.mk (repeated 0 .i64).dt (lone .i64)).Fits := by decide
  have hwalks : (repeated 0 .i64).view.Walks (lone .i64).size := walks_repeated 0 .i64
  have hown : ∃ own, rowMajor (repeated 0 .i64).shape = .ok own := ⟨_, rfl⟩
  refine ⟨hbuf, hfits, hwalks, hown, rfl, by decide, fun F b w' hrun => ?_⟩
  rw [fft_of_host _ F rfl, (transformsLines_host (w := alone .i64) .last hbuf
    hfits hwalks hown).exhausted (by decide) (by decide)] at hrun
  exact absurd (congrArg Prod.fst hrun) (by simp)

end NDArray

end Strided
