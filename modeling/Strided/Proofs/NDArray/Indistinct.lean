import Strided.Closeness
import Strided.Proofs.NDArray.Alike
import Strided.Proofs.NDArray.Results

/-!
# What operations see of an array

An operation on the host reads an array through `NDArray.toList` or `NDArray.gather` and
otherwise looks at its shape, its element type and its device. It has no other way to the
elements, so on arrays that no reader can tell apart it does the same: it ends in the same
answer, and leaves the same storages, down to the place of a new one. The lemmas of this file,
all in the namespace `NDArray.Indistinct`, say so for one operation after the other, in the
order in which the operations are built from each other.

The equalities hold in the world the arrays are indistinct in. `NDArray.modf` reads its argument
twice and makes an array in between; that the arrays are indistinct also in larger stores
(`Indistinct.mono`) is there for such operations.
-/

namespace Strided.NDArray

open Elementwise Strided.Fourier

variable {w : World} {s : Store} {a a' b b' : NDArray}

/-! ### Reading -/

namespace Indistinct

/-- It is a matter of the store alone, not of the world. -/
theorem of_store (h : Indistinct s a a') {s' : Store} (hs : s' = s) : Indistinct s' a a' := by
  rw [hs]
  exact h

theorem numel_eq (h : Indistinct s a a') : a'.numel = a.numel := congrArg Shape.numel h.shape_eq

theorem rank_eq (h : Indistinct s a a') : a'.rank = a.rank := congrArg Shape.rank h.shape_eq

/-- They are on the device of one bridge, or of none. -/
theorem bridge?_eq (h : Indistinct s a a') : a'.bridge? = a.bridge? :=
  congrArg Device.bridge? h.device_eq

/-- Apart from the storage and the view the arrays are one. -/
theorem exists_eq (h : Indistinct s a a') :
    ∃ storage view, a' = ⟨storage, view, a.dt, a.device⟩ := by
  obtain ⟨storage, view, dt, device⟩ := a'
  obtain rfl : dt = a.dt := h.dt_eq
  obtain rfl : device = a.device := h.device_eq
  exact ⟨storage, view, rfl⟩

/-- They are read as the same complex numbers. -/
theorem toComplex_eq (h : Indistinct s a a') : a'.toComplex s = a.toComplex s := by
  have hlist := h.toList_eq s (.refl s) a.dt
  unfold toComplex
  rw [h.dt_eq, hlist]

/-- They are read as the same block, or neither is. -/
theorem toDense_eq (h : Indistinct s a a') (dt : DType) : a'.toDense s dt = a.toDense s dt := by
  unfold toDense
  rw [h.toList_eq s (.refl s), h.shape_eq]

/-- **Comparing them** with others gives the same verdict. -/
theorem allClose_eq (ha : Indistinct s a a') (hb : Indistinct s b b') (t : Tolerance) :
    a'.allClose s b' t = a.allClose s b t := by
  unfold allClose
  rw [ha.shape_eq, hb.shape_eq, ha.toComplex_eq, hb.toComplex_eq]

/-! ### Copies -/

/-- A copy is gathered, and the gathered elements are the same. -/
theorem deepClone_eq (h : Indistinct w.store a a') : a'.deepClone w = a.deepClone w := by
  unfold deepClone
  rw [h.shape_eq, h.device_eq]
  exact Action.bind_read_congr (by rw [h.gather_eq _ (.refl _)]) fun _ => rfl

theorem flatten_eq (h : Indistinct w.store a a') : a'.flatten w = a.flatten w := by
  unfold flatten
  rw [h.numel_eq, h.device_eq]
  exact Action.bind_read_congr (by rw [h.gather_eq _ (.refl _)]) fun _ => rfl

/-- **Copying either of them** into an array does the same to it. -/
theorem copyFrom_eq (h : Indistinct w.store a a') (dst : NDArray) :
    dst.copyFrom a' w = dst.copyFrom a w := by
  unfold copyFrom
  rw [h.shape_eq, h.dt_eq]
  dsimp only
  -- the checks are of the shape and of the element type
  apply Action.check_congr
  intro _
  apply Action.check_congr
  intro _
  exact Action.bind_read_congr (by rw [h.gather_eq _ (.refl _)]) fun _ => rfl

/-- A matrix with a given diagonal begins with a flat copy of it. -/
theorem diagflat_eq (h : Indistinct w.store a a') (k : Int) : a'.diagflat k w = a.diagflat k w := by
  unfold diagflat
  exact Action.bind_congr h.flatten_eq fun _ _ _ => rfl

/-! ### Functions of elements -/

/-- A function of the elements has the same values. -/
theorem mapElements_eq (h : Indistinct w.store a a') {dt : DType} (k : Kernel dt) :
    a'.mapElements k w = a.mapElements k w := by
  unfold mapElements
  rw [h.shape_eq, h.device_eq]
  exact Action.bind_read_congr (h.toList_eq _ (.refl _) dt) fun _ => rfl

theorem zipElements_eq (ha : Indistinct w.store a a') (hb : Indistinct w.store b b') {dt : DType}
    (f : dt.Elem → dt.Elem → dt.Elem) : a'.zipElements b' f w = a.zipElements b f w := by
  unfold zipElements
  rw [ha.dt_eq, hb.dt_eq, ha.shape_eq, hb.shape_eq, ha.device_eq]
  dsimp only
  apply Action.check_congr
  intro _
  apply Action.check_congr
  intro _
  apply Action.bind_read_congr (ha.toList_eq _ (.refl _) dt)
  intro xs
  exact Action.bind_read_congr (hb.toList_eq _ (.refl _) dt) fun ys => rfl

/-- **A function of one argument** does the same with either argument. -/
theorem mapUnary_eq (h : Indistinct w.store a a') (f : UnaryFunction) (out : Option NDArray) :
    a'.mapUnary f out w = a.mapUnary f out w := by
  -- the element type is then one and the same, as the type of the kernel requires
  obtain ⟨storage, view, rfl⟩ := h.exists_eq
  unfold mapUnary
  dsimp only
  cases f.kernel? a.dt with
  | none => rfl
  | some k => exact Action.bind_congr (h.mapElements_eq k) fun _ _ _ => rfl

/-- **A function of two arguments** does the same with either pair. -/
theorem mapBinary_eq (ha : Indistinct w.store a a') (hb : Indistinct w.store b b')
    (f : BinaryFunction) (out : Option NDArray) :
    a'.mapBinary f b' out w = a.mapBinary f b out w := by
  -- only the type of the first argument decides which function it is
  obtain ⟨storage, view, rfl⟩ := ha.exists_eq
  unfold mapBinary
  dsimp only
  cases f.kernel? a.dt with
  | none => rfl
  | some k => exact Action.bind_congr (ha.zipElements_eq hb k) fun _ _ _ => rfl

/-- **Taking numbers apart** does the same, although the argument is read twice. -/
theorem modf_eq (h : Indistinct w.store a a') (out₁ out₂ : Option NDArray) :
    a'.modf out₁ out₂ w = a.modf out₁ out₂ w := by
  obtain ⟨storage, view, rfl⟩ := h.exists_eq
  unfold modf
  dsimp only
  cases reals? a.dt with
  | none => rfl
  | some R =>
    apply Action.bind_congr (h.mapElements_eq _)
    intro fraction w₁ hfraction
    -- the buffer of the fractions is new, and those of the arrays are what they were
    have h₁ := h.mono (adds_mapElements a _ w _ w₁ hfraction)
    exact Action.bind_congr (h₁.mapElements_eq _) fun _ _ _ => rfl

/-! ### Transforms, products and factorizations -/

/-- **A transform** is computed from the elements, in the precision of their type. -/
theorem transformHost_eq (h : Indistinct w.store a a') (F : LineTransform) (axes : Axes) :
    transformHost F axes a' w = transformHost F axes a w := by
  unfold transformHost
  rw [h.rank_eq, h.dt_eq, h.shape_eq, h.device_eq]
  dsimp only
  apply Action.check_congr
  intro _
  -- in either precision the elements are read once
  by_cases hdt : a.dt = .c64
  · rw [if_pos hdt, if_pos hdt]
    exact Action.bind_read_congr (h.toList_eq _ (.refl _) _) fun _ => rfl
  · rw [if_neg hdt, if_neg hdt]
    exact Action.bind_read_congr h.toComplex_eq fun _ => rfl

/-- A dot product is chosen by the ranks and computed from two blocks. -/
theorem dotElements_eq (ha : Indistinct s a a') (hb : Indistinct s b b') (dt : DType)
    (N : Numeric dt.Elem) : dotElements s a' b' dt N = dotElements s a b dt N := by
  unfold dotElements
  rw [ha.toDense_eq, hb.toDense_eq, ha.shape_eq, hb.shape_eq]

/-- So the host multiplies either pair to the same array. -/
theorem dotHost_eq (ha : Indistinct w.store a a') (hb : Indistinct w.store b b') :
    dotHost a' b' w = dotHost a b w := by
  obtain ⟨storage, view, rfl⟩ := ha.exists_eq
  unfold dotHost
  dsimp only
  cases a.dt.numeric? with
  | none => rfl
  | some N => exact Action.bind_read_congr (ha.dotElements_eq hb _ N) fun _ => rfl

theorem matmulHost_eq (ha : Indistinct w.store a a') (hb : Indistinct w.store b b') (m p n : Nat) :
    matmulHost a' b' m p n w = matmulHost a b m p n w := by
  obtain ⟨storage, view, rfl⟩ := ha.exists_eq
  unfold matmulHost
  dsimp only
  cases a.dt.numeric? with
  | none => rfl
  | some N =>
    refine Action.bind_read_congr ?_ fun _ => rfl
    rw [ha.toDense_eq, hb.toDense_eq]

/-- Either is a square matrix of the same size, or neither is one. -/
theorem squareSize_eq (h : Indistinct s a a') : a'.squareSize = a.squareSize := by
  unfold squareSize
  rw [h.shape_eq]

/-- The bridge works on a copy, so nothing of the array itself is passed. -/
theorem lu_eq (h : Indistinct w.store a a') (bridges : Bridges) :
    a'.lu bridges w = a.lu bridges w := by
  unfold lu
  rw [h.dt_eq, h.squareSize_eq, h.bridge?_eq, h.device_eq]
  dsimp only
  apply Action.check_congr
  intro _
  apply Action.bind_congr rfl
  intro n w₁ hn
  -- to look at the size changes nothing
  obtain rfl : w = w₁ := congrArg Prod.snd hn
  cases a.bridge? with
  | none => rfl
  | some handle => exact Action.bind_congr h.deepClone_eq fun _ _ _ => rfl

end Indistinct

end Strided.NDArray
