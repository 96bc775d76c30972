import Strided.Bridge.Reference
import Strided.Elementwise
import Strided.Fourier
import Strided.NDArray.Diagonal
import Strided.Proofs.SameRun

/-!
# Operations that call no bridge

All operations but products, factorizations and transforms run on the host alone, and so do the
parts of those that no bridge takes part in. Each is `Action.Offline`: the calls listed so far are
not looked at, and none is added (`Action.Offline.calls_eq`). The proofs follow the text of the
operations.
-/

namespace Strided.NDArray

/-! ### Making arrays -/

/-- Laying out a buffer is arithmetic, and then the store is given it. -/
theorem offline_ofBuffer (b : Buffer) (shape : Shape) (d : Device) :
    (ofBuffer b shape d).Offline :=
  .bind (.checked _) fun _ => .bind (.checked _) fun _ => .bind (.allocate b) fun _ => .pure _

/-- The count is checked before the buffer is laid out. -/
theorem offline_ofArray (b : Buffer) (shape : Shape) (d : Device) : (ofArray b shape d).Offline :=
  .bind (.checked _) fun _ =>
    .check (.bind (.checked _) fun _ => offline_ofBuffer b shape d)
      (.bind (.checked _) fun _ => offline_ofBuffer b shape d)

theorem offline_zeros (shape : Shape) (dt : DType) (d : Device) : (zeros shape dt d).Offline :=
  .bind (.checked _) fun _ => .bind (.checked _) fun _ => offline_ofBuffer _ _ _

theorem offline_ones (shape : Shape) (dt : DType) (d : Device) : (ones shape dt d).Offline :=
  .bind (.checked _) fun _ => .bind (.checked _) fun _ => offline_ofBuffer _ _ _

/-- A copy is gathered from the store and put into a new buffer. -/
theorem offline_deepClone (a : NDArray) : a.deepClone.Offline :=
  .bind (.read _) fun _ => offline_ofBuffer _ _ _

theorem offline_flatten (a : NDArray) : a.flatten.Offline :=
  .bind (.read _) fun _ => .bind (.checked _) fun _ => offline_ofBuffer _ _ _

/-- A block that has been computed goes into a new buffer. -/
theorem offline_ofDense (dt : DType) (d : Dense dt.Elem) : (ofDense dt d).Offline :=
  offline_ofBuffer _ _ _

/-! ### Writing -/

/-- **A write** looks at the buffer that it goes to. -/
theorem offline_assign (a : NDArray) (dt : DType) (items : List dt.Elem) :
    (a.assign dt items).Offline := by
  -- the write itself, with or without the check of the number of items
  have hwrite : (Action.read (fun s => a.cells s dt) >>= fun _ =>
      Action.write a dt items).Offline := .bind (.read _) fun _ => .write a dt items
  exact .bind (.answer _) fun _ => .bind (.checked _) fun _ => .check hwrite hwrite

/-- A fill is a write of a list that is made for it. -/
theorem offline_fill (a : NDArray) (dt : DType) (x : dt.Elem) : (a.fill dt x).Offline :=
  .bind (.checked _) fun _ => .bind (.checked _) fun _ => offline_assign _ _ _

/-- **A copy** gathers the source, and then it is a write. -/
theorem offline_copyFrom (dst src : NDArray) : (dst.copyFrom src).Offline := by
  have hcopy : (Action.read (fun s => (src.gather s).lift) >>= fun b =>
      Action.write dst b.dt b.cells.toList).Offline := .bind (.read _) fun _ => .write _ _ _
  exact .check (.check hcopy hcopy) (.check hcopy hcopy)

/-- **A matrix with a given diagonal** is made of operations that are offline themselves. -/
theorem offline_diagflat (v : NDArray) (k : Int) : (v.diagflat k).Offline := by
  -- all that follows the check of the size is done whether it is checked or not
  have hfill : ∀ (size : Nat) (v : NDArray), (zeros ⟨[size, size]⟩ v.dt v.device >>= fun m =>
      (liftM (m.diagonal k) : Action NDArray) >>= fun diagonal =>
        diagonal.copyFrom v >>= fun _ => pure m).Offline := fun size v =>
    .bind (offline_zeros _ _ _) fun _ => .bind (.answer _) fun _ =>
      .bind (offline_copyFrom _ _) fun _ => .pure _
  exact .bind (offline_flatten v) fun v => .bind (.checked _) fun n =>
    .check (hfill _ v) (hfill _ v)

/-- Which of the two directions is taken depends on the rank alone. -/
theorem offline_diag (v : NDArray) (k : Int) : (v.diag k).Offline := by
  unfold diag
  split
  · exact offline_diagflat v k
  · exact .answer _
  · exact .answer _

/-! ### Products and transforms on the host -/

/-- A dot product reads both arrays and makes a new one. -/
theorem offline_dotHost (lhs rhs : NDArray) : (dotHost lhs rhs).Offline := by
  unfold dotHost
  cases lhs.dt.numeric? with
  | none => exact .answer _
  | some N => exact .bind (.read _) fun _ => offline_ofBuffer _ _ _

theorem offline_matmulHost (lhs rhs : NDArray) (m p n : Nat) :
    (matmulHost lhs rhs m p n).Offline := by
  unfold matmulHost
  cases lhs.dt.numeric? with
  | none => exact .answer _
  | some N => exact .bind (.read _) fun _ => offline_ofBuffer _ _ _

/-- **A transform** reads its elements in the precision it is done in. -/
theorem offline_transformHost (F : Fourier.LineTransform) (axes : Fourier.Axes) (a : NDArray) :
    (transformHost F axes a).Offline := by
  -- behind the check of the rank: one reading for each precision
  have hbody : (if a.dt = .c64 then
      Action.read (fun s => a.toList s .c64) >>= fun items =>
        ofArray ⟨.c64, (Fourier.transform F.single axes a.shape items).toArray⟩ a.shape a.device
    else
      Action.read (fun s => a.toComplex s) >>= fun items =>
        ofArray ⟨.c128, (Fourier.transform F.double axes a.shape items).toArray⟩ a.shape
          a.device).Offline :=
    .ite (.bind (.read _) fun _ => offline_ofArray _ _ _)
      (.bind (.read _) fun _ => offline_ofArray _ _ _)
  exact .check hbody hbody

/-! ### Functions of elements -/

section Elementwise

open Elementwise

/-- A result is handed on, or it is copied into the output array. -/
theorem offline_deliver (r : NDArray) (out : Option NDArray) : (deliver r out).Offline := by
  cases out with
  | none => exact .pure _
  | some o => exact .bind (offline_copyFrom o r) fun _ => .pure _

/-- A function of one argument reads that argument. -/
theorem offline_mapElements (a : NDArray) {dt : DType} (k : Kernel dt) :
    (a.mapElements k).Offline :=
  .bind (.read _) fun _ => offline_ofArray _ _ _

/-- A function of two arguments reads both, once their types and shapes agree. -/
theorem offline_zipElements (a b : NDArray) {dt : DType} (f : dt.Elem → dt.Elem → dt.Elem) :
    (a.zipElements b f).Offline := by
  -- behind the checks both arrays are read, the first one first
  have hbody : (Action.read (fun s => a.toList s dt) >>= fun xs =>
      Action.read (fun s => b.toList s dt) >>= fun ys =>
        ofArray ⟨dt, (List.zipWith f xs ys).toArray⟩ a.shape a.device).Offline :=
    .bind (.read _) fun _ => .bind (.read _) fun _ => offline_ofArray _ _ _
  exact .check (.check hbody hbody) (.check hbody hbody)

/-- A function of one argument is applied and its result delivered. -/
theorem offline_mapUnary (f : UnaryFunction) (a : NDArray) (out : Option NDArray) :
    (a.mapUnary f out).Offline := by
  unfold mapUnary
  cases f.kernel? a.dt with
  | none => exact .answer _
  | some k => exact .bind (offline_mapElements a k) fun r => offline_deliver r out

theorem offline_mapBinary (f : BinaryFunction) (a b : NDArray) (out : Option NDArray) :
    (a.mapBinary f b out).Offline := by
  unfold mapBinary
  cases f.kernel? a.dt with
  | none => exact .answer _
  | some k => exact .bind (offline_zipElements a b k) fun r => offline_deliver r out

/-- **Fractions and integer parts** are two results, made and delivered one after the other. -/
theorem offline_modf (a : NDArray) (out₁ out₂ : Option NDArray) : (a.modf out₁ out₂).Offline := by
  unfold modf
  cases reals? a.dt with
  | none => exact .answer _
  | some R =>
    -- both results are there before either is delivered
    exact .bind (offline_mapElements a _) fun r₁ => .bind (offline_mapElements a _) fun r₂ =>
      .bind (offline_deliver r₁ out₁) fun _ => .bind (offline_deliver r₂ out₂) fun _ => .pure _

end Elementwise

end Strided.NDArray
