import Strided.Proofs.NDArray.DiagonalMatrix
import Strided.Proofs.View.Consecutive

/-!
# Reshapes

`NDArray.reshape` reads the same cells in other portions, and copies nothing. It can do so when the
elements lie one after the other, which it does not look at: it compares the strides with the
row-major ones. `NDArray.reshape_sound_reversible` says what this comparison is worth:

* whatever is accepted does lie one after the other, so that the reshaped array shows the same
  elements, and can be reshaped back;
* if no axis is shorter than two, whatever lies one after the other is accepted. On an axis of
  size one a stride is never walked, but it is compared all the same.

What runs of cells have to do with row-major strides is said in `View.run_of_rowMajor` and
`View.strides_of_consecutive`, one for each direction.
-/

namespace Strided

open Shape Strides

namespace NDArray

variable {s : Store} {a b f : NDArray} {w w' : World} {shape : Shape} {n m : Nat}
  {own target : Strides}

/-! ### What is shown -/

/-- Another view with the same walk shows the same. -/
theorem toList_withView {v : View} (hnumel : v.numel = a.numel)
    (hoffsets : v.offsets = a.view.offsets) (s : Store) (dt : DType) :
    (a.withView v).toList s dt = a.toList s dt := by
  have hcells : (a.withView v).cells s dt = a.cells s dt := rfl
  have hcount : (a.withView v).numel = a.numel := hnumel
  have hgather : ∀ cells : Array dt.Elem, (a.withView v).view.gather cells = a.view.gather cells :=
    fun cells => by
      have hview : (a.withView v).view.offsets = a.view.offsets := hoffsets
      rw [View.gather_eq, View.gather_eq, hview]
  unfold toList
  rw [hcells, hcount]
  simp only [hgather]

/-- **A flattened copy shows the same**, whatever element type it is asked for. -/
theorem toList_of_flatten {cells : Array a.dt.Elem} (hbuf : a.Backed w.store cells)
    (h : a.flatten w = (.ok f, w')) (dt : DType) : f.toList w'.store dt = a.toList w.store dt := by
  have hgather := hbuf.gather_eq_toList
  rcases hread : a.toList w.store a.dt with e | xs
  · -- an array that cannot be read has no copy
    rw [hread] at hgather
    unfold flatten at h
    rw [Action.bind_read_error hgather] at h
    exact absurd (congrArg Prod.fst h) (by simp)
  · obtain ⟨f', w₁, hflatten, -, hdt, -, hshown⟩ := exists_flatten hread
    obtain ⟨rfl, rfl⟩ := Action.ok_unique h hflatten
    -- of another type neither of them is read, and both refuse it in the same words
    by_cases hne : dt = a.dt
    · subst hne
      rw [hshown, hread]
    · rw [toList_of_ne_dtype hne, toList_of_ne_dtype (hdt ▸ hne), hdt]

/-! ### Reshaping and back -/

/-- **What an accepted reshape is**: the same cells in the new shape, row-major, which show what the
array and its flattened copy show, and from which the array can be had back. -/
structure Reshaped (w : World) (a b : NDArray) (shape : Shape) : Prop where
  shape_eq : b.shape = shape
  storage_eq : b.storage = a.storage
  dt_eq : b.dt = a.dt
  device_eq : b.device = a.device
  offset_eq : b.offset = a.offset
  contiguous_eq : b.isContiguous = .ok true
  toList_eq : ∀ dt, b.toList w.store dt = a.toList w.store dt
  flatten_eq : ∀ f w', a.flatten w = (.ok f, w') →
    ∀ dt, f.toList w'.store dt = b.toList w.store dt
  back_eq : b.reshape a.shape = .ok a

/-- If neither shape overflows, a reshape is decided by the two comparisons, and its outcome is
known. -/
theorem reshape_eq_ok_iff (hown : a.numel = .ok n) (hrow : rowMajor a.shape = .ok own)
    (hcount : shape.numel = .ok m) (htarget : rowMajor shape = .ok target) :
    a.reshape shape = .ok b ↔
      m = n ∧ a.strides = own ∧ a.withView ⟨shape, target, a.offset⟩ = b := by
  rw [reshape_eq hown hrow hcount htarget]
  by_cases hvolume : m = n
  · by_cases hsteps : a.strides = own
    · simp [hvolume, hsteps]
    · simp [hvolume, hsteps, reject]
  · simp [hvolume, reject]

/-- An array whose strides are row-major is reshaped to any shape of as many elements. -/
theorem reshaped_of_rowMajor {cells : Array a.dt.Elem} (hbuf : a.Backed w.store cells)
    (hsize : cells.size < signedBound) (hb : a.view.InBounds cells.size) (hown : a.numel = .ok n)
    (hrow : rowMajor a.shape = .ok a.strides) (hcount : shape.numel = .ok n)
    (htarget : rowMajor shape = .ok target) :
    Reshaped w a (a.withView ⟨shape, target, a.offset⟩) shape := by
  obtain ⟨-, hoffsets, hoffsets'⟩ := View.run_of_rowMajor hown hrow hb hsize hcount htarget
  have hnew : (a.withView ⟨shape, target, a.offset⟩).numel = .ok n := hcount
  have hshown : ∀ dt, (a.withView ⟨shape, target, a.offset⟩).toList w.store dt
      = a.toList w.store dt :=
    toList_withView (hnew.trans hown.symm) (hoffsets'.trans hoffsets.symm) w.store
  refine ⟨rfl, rfl, rfl, rfl, rfl, ?_, hshown, fun f w' hf dt => ?_, ?_⟩
  · have hcontiguous : (View.mk shape target a.offset).isContiguous
        = .ok (target == target) := View.isContiguous_of_rowMajor htarget
    rw [beq_self_eq_true] at hcontiguous
    exact hcontiguous
  · rw [toList_of_flatten hbuf hf, hshown]
  · -- the way back is a reshape too, between the same two shapes the other way round
    exact (reshape_eq_ok_iff hnew htarget hown hrow).2 ⟨rfl, rfl, rfl⟩

/-- **Reshape is sound, reversible and not over-cautious.** For an array that lies in a buffer, and
as long as neither shape overflows, a reshape is accepted if and only if the element counts agree
and the strides are the row-major ones. What is accepted is the array in another shape: it can be
reshaped back, and if the buffer fits the memory both it and a flattened copy can be read and show
the same elements. An array whose elements do not lie one after the other is never accepted; one
whose elements do is accepted if there are at least two indices on every axis. -/
theorem reshape_sound_reversible {cells : Array a.dt.Elem} (hbuf : a.Backed w.store cells)
    (hsize : cells.size < signedBound) (hrank : a.strides.steps.length = a.shape.dims.length)
    (hb : a.view.InBounds cells.size) (hown : a.numel = .ok n)
    (hrow : rowMajor a.shape = .ok own) (hcount : shape.numel = .ok m)
    (htarget : rowMajor shape = .ok target) :
    ((∃ b, a.reshape shape = .ok b) ↔ m = n ∧ a.strides = own) ∧
    (∀ b, a.reshape shape = .ok b → Reshaped w a b shape ∧
      ((Buffer.mk a.dt cells).Fits → ∃ xs f w', b.toList w.store a.dt = .ok xs ∧
        a.toList w.store a.dt = .ok xs ∧ a.flatten w = (.ok f, w') ∧
        f.toList w'.store a.dt = .ok xs)) ∧
    (¬a.view.Consecutive → ∀ b, a.reshape shape ≠ .ok b) ∧
    ((∀ dim ∈ a.shape.dims, 2 ≤ dim) → m = n → a.view.Consecutive →
      ∃ b, a.reshape shape = .ok b) := by
  refine ⟨⟨fun ⟨b, h⟩ => ?_, fun ⟨hvolume, hsteps⟩ => ?_⟩, fun b h => ?_, fun hrun b h => hrun ?_,
    fun htwo hvolume hrun => ?_⟩
  · obtain ⟨hvolume, hsteps, -⟩ := (reshape_eq_ok_iff hown hrow hcount htarget).1 h
    exact ⟨hvolume, hsteps⟩
  · exact ⟨_, (reshape_eq_ok_iff hown hrow hcount htarget).2 ⟨hvolume, hsteps, rfl⟩⟩
  · obtain ⟨rfl, rfl, rfl⟩ := (reshape_eq_ok_iff hown hrow hcount htarget).1 h
    have hreshaped := reshaped_of_rowMajor hbuf hsize hb hown hrow hcount htarget
    refine ⟨hreshaped, fun hfits => ?_⟩
    -- a run of cells can be walked, and has no more elements than there are cells
    obtain ⟨hrun, hoffsets, -⟩ := View.run_of_rowMajor hown hrow hb hsize hcount htarget
    have hwalks : a.view.Walks cells.size := ⟨hrank, hb, by rw [hoffsets]⟩
    have hcap := fits_volume hfits hrun.distinct hb
    obtain ⟨xs, hxs⟩ := exists_toList hbuf hwalks hfits.size_le hcap
    obtain ⟨f, w', hflatten, -, -, -, hshown⟩ := exists_flatten hxs
    exact ⟨xs, f, w', (hreshaped.toList_eq a.dt).trans hxs, hxs, hflatten, hshown⟩
  · obtain ⟨rfl, rfl, -⟩ := (reshape_eq_ok_iff hown hrow hcount htarget).1 h
    exact (View.run_of_rowMajor hown hrow hb hsize hcount htarget).1
  · -- on axes of at least two indices a run of cells leaves no choice of the strides
    have hsteps := View.strides_of_consecutive hrun hb hsize hrank htwo hrow
    exact ⟨_, (reshape_eq_ok_iff hown hrow hcount htarget).2 ⟨hvolume, hsteps, rfl⟩⟩

/-- The last four of six numbers in two rows. -/
def lastRows : NDArray := ⟨0, ⟨⟨[2, 2]⟩, ⟨[2, 1]⟩, 2⟩, .i32, .host⟩

/-- Two rows of two numbers are four rows of one, and the other way round. The same four numbers
in reverse are not. -/
theorem reshape_sound_reversible_lastRows :
    lastRows.Backed (counting 6).store (countTo 6) ∧
      lastFour.Backed (counting 6).store (countTo 6) ∧
      lastRows.view.InBounds 6 ∧ lastFour.view.InBounds 6 ∧
      (∃ b, lastRows.reshape ⟨[4, 1]⟩ = .ok b ∧ b.reshape ⟨[2, 2]⟩ = .ok lastRows ∧
        b.toList (counting 6).store .i32 = .ok [3, 4, 5, 6]) ∧
      ∀ b, lastFour.reshape ⟨[4, 1]⟩ ≠ .ok b := by
  have hbuf : lastRows.Backed (counting 6).store (countTo 6) := rfl
  have hbuf' : lastFour.Backed (counting 6).store (countTo 6) := rfl
  have hb : lastRows.view.InBounds 6 := by decide
  have hb' : lastFour.view.InBounds 6 := by decide
  have hcount : (⟨[4, 1]⟩ : Shape).numel = .ok 4 := rfl
  have htarget : rowMajor ⟨[4, 1]⟩ = .ok ⟨[1, 1]⟩ := rfl
  obtain ⟨-, hsound, -, haccepted⟩ :=
    reshape_sound_reversible hbuf (by decide) rfl hb rfl rfl hcount htarget
  obtain ⟨-, -, hnever, -⟩ :=
    reshape_sound_reversible hbuf' (by decide) rfl hb' rfl rfl hcount htarget
  obtain ⟨b, hreshape⟩ := haccepted (by decide) rfl (by decide)
  obtain ⟨hreshaped, -⟩ := hsound b hreshape
  have hread : lastRows.toList (counting 6).store .i32 = .ok [3, 4, 5, 6] := rfl
  exact ⟨hbuf, hbuf', hb, hb', ⟨b, hreshape, hreshaped.back_eq,
    (hreshaped.toList_eq .i32).trans hread⟩, hnever (by decide)⟩

end NDArray

end Strided
