import Strided.Proofs.NDArray.Diagonals
import Strided.Proofs.NDArray.Fresh

/-!
# Matrices with one diagonal

`NDArray.diagflat` flattens its argument, makes a matrix of zeros, and copies the one onto a
diagonal of the other. The main result, `NDArray.diagflat_inverts_diagonal`, says what this comes
to: the new matrix has the elements on that diagonal and zeros elsewhere, so that the diagonal
shows them again; and if the elements were those of a diagonal to begin with, the new matrix is
the old one with zeros off the diagonal.

The size of the matrix is chosen so that the diagonal is exactly as long as there are elements
(`NDArray.lengthOf_side`), on either side of the main diagonal. A matrix of a size that can be
counted need not fit the memory, though, and then it is not made
(`NDArray.single_element_too_large`).

The new matrix lies in a buffer that was not there before. What is known about a write to a
diagonal (`NDArray.IsDiagonal.exists_copyFrom`) says what is in it, and everything else is as it was
(`Store.Agrees.trans_new`).
-/

namespace Strided

open Shape Strides

/-- A shape whose span is a signed word has a row-major layout, the exact one. -/
theorem View.contiguous_eq {shape : Shape} (h : span shape.dims < signedBound) :
    View.contiguous shape = .ok ⟨shape, ⟨denseSteps shape.dims⟩, 0⟩ :=
  View.contiguous_of_rowMajor (rowMajor_of_span h)

theorem one_lt_signedBound : 1 < signedBound := by decide

theorem Shape.span_line {n : Nat} (h : n < signedBound) : span [n] < signedBound := by
  rw [span_cons, span_nil, Nat.mul_one]
  exact max_lt h one_lt_signedBound

/-- A square spans the product of its sides, or one cell if it is empty. -/
theorem Shape.span_square {n bound : Nat} (hbound : 1 < bound) (h : n * n < bound) :
    span [n, n] < bound := by
  rw [span_cons, span_cons, span_nil, Nat.mul_one]
  rcases Nat.eq_zero_or_pos n with rfl | hpos
  · exact hbound
  · rwa [Nat.max_eq_left hpos]

theorem Shape.numel_square {n : Nat} (h : n * n < sizeBound) :
    (⟨[n, n]⟩ : Shape).numel = .ok (n * n) := by
  have hspan := span_square (one_lt_signedBound.trans signedBound_lt_sizeBound) h
  have hnumel := numel_of_span (s := ⟨[n, n]⟩) hspan
  rwa [volume_cons, volume_cons, volume_nil, Nat.mul_one] at hnumel

namespace NDArray

variable {s : Store} {a d v : NDArray} {w : World} {n : Nat} {k : Int} {dt : DType}
  {device : Device}

/-! ### The parts of the matrix -/

/-- The row-major square matrix over the whole of a buffer. -/
def squareOver (id : StorageId) (n : Nat) (dt : DType) (device : Device) : NDArray :=
  ⟨id, ⟨⟨[n, n]⟩, ⟨denseSteps [n, n]⟩, 0⟩, dt, device⟩

/-- **An array that can be read is flattened** to a new one that shows the same. -/
theorem exists_flatten {xs : List v.dt.Elem} (h : v.toList w.store v.dt = .ok xs) :
    ∃ f w₁, v.flatten w = (.ok f, w₁) ∧ f.shape = ⟨[xs.length]⟩ ∧ f.dt = v.dt ∧
      f.device = v.device ∧ f.toList w₁.store v.dt = .ok xs := by
  obtain ⟨-, hnumel, -, hfits⟩ := of_toList h
  have hgather : (v.gather w.store).lift = .ok ⟨v.dt, xs.toArray⟩ := by
    rw [gather_of_toList h, Checked.lift_ok]
  have hlt : xs.length < signedBound := DType.count_lt hfits
  -- the elements fit the memory, so the line that they make can be counted and laid out
  have hline : (⟨[xs.length]⟩ : Shape).numel = .ok xs.toArray.size :=
    numel_line (lt_trans hlt signedBound_lt_sizeBound)
  have hview : View.contiguous ⟨[xs.length]⟩ = _ := View.contiguous_eq (span_line hlt)
  have hwhole := Whole.new hline hview hfits w.store v.device
  refine ⟨lineOver w.store.nextId xs.length v.dt v.device,
    { w with store := w.store.push ⟨v.dt, xs.toArray⟩ }, ?_, rfl, rfl, rfl, hwhole.toList_eq⟩
  unfold flatten
  rw [Action.bind_read_ok hgather, Action.bind_checked_ok hnumel]
  exact ofBuffer_eq_ok.2 ⟨⟨_, hline⟩, _, hview, rfl, rfl⟩

/-- **A matrix of zeros** is a square over a new buffer. -/
theorem zeros_square (hsize : n * n < signedBound) (hcap : dt.bytes * (n * n) < signedBound)
    (device : Device) (w : World) : zeros ⟨[n, n]⟩ dt device w
      = (.ok (squareOver w.store.nextId n dt device),
        { w with store := w.store.push ⟨dt, Array.replicate (n * n) dt.zero⟩ }) :=
  zeros_eq_ok.2 ⟨n * n, numel_square (hsize.trans signedBound_lt_sizeBound), hcap, _,
    View.contiguous_eq (span_square one_lt_signedBound hsize), rfl, rfl⟩

/-- A square over a buffer of as many cells shows all of it. -/
theorem whole_square {cells : Array dt.Elem} {id : StorageId} (device : Device)
    (hsize : n * n < signedBound) (hcells : cells.size = n * n) (hfits : (Buffer.mk dt cells).Fits)
    (hbuf : s.buffer? id = some ⟨dt, cells⟩) : Whole s (squareOver id n dt device) cells := by
  refine ⟨hbuf, View.contiguous_eq (span_square one_lt_signedBound hsize), ?_, hfits⟩
  exact (numel_square (hsize.trans signedBound_lt_sizeBound)).trans
    (congrArg Except.ok hcells.symm)

/-- Row-major squares leave no gaps, so nothing is between the entries. -/
theorem gapless_square (id : StorageId) (n : Nat) (dt : DType) (device : Device) :
    (squareOver id n dt device).view.Gapless := rfl

theorem inBounds_square (id : StorageId) (n : Nat) (dt : DType) (device : Device) :
    (squareOver id n dt device).view.InBounds (n * n) := by
  refine (gapless_square id n dt device).inBounds (le_of_eq ?_)
  show 0 + volume [n, n] = n * n
  rw [volume_cons, volume_cons, volume_nil, Nat.mul_one, Nat.zero_add]

/-- The place of an entry in row-major order. -/
theorem displacement_square (n i j : Nat) :
    displacement [i, j] (denseSteps [n, n]) = ((i * n + j : Nat) : Int) := by
  rw [denseSteps_cons, denseSteps_cons, displacement_cons, displacement_cons, displacement_nil,
    volume_cons, volume_nil]
  push_cast
  ring

/-- The diagonals of a square can be found. -/
theorem isMatrix_square (id : StorageId) (dt : DType) (device : Device)
    (hsize : n * n < signedBound) : (squareOver id n dt device).IsMatrix n n n 1 where
  shape_eq := rfl
  strides_eq := by
    show (⟨[((n * 1 : Nat) : Int), 1]⟩ : Strides) = ⟨[(n : Int), 1]⟩
    rw [Nat.mul_one]
  sum_word := by
    -- from a side of two on the sum of the strides is no more than the square; below it is at most
    -- two
    refine .of_natAbs ?_
    have htwo : 2 ≤ n → 2 * n ≤ n * n := Nat.mul_le_mul_right n
    have hword : 2 < signedBound := by decide
    omega
  down_lt := hsize
  right_lt := by
    show n * 1 < signedBound
    rw [Nat.mul_one]
    exact Nat.lt_of_le_of_lt (Nat.le_mul_self n) hsize

/-- **The size of a matrix** with `n` elements on its `k`-th diagonal. -/
def side (n : Nat) (k : Int) : Nat := n + k.natAbs

/-- The diagonal is exactly as long as there are elements. -/
theorem lengthOf_side (n : Nat) (k : Int) : Diagonal.lengthOf (side n k) (side n k) k = n := by
  unfold Diagonal.lengthOf side
  omega

/-- A diagonal of a square has no more elements than the square. -/
theorem lengthOf_le_square (n : Nat) (k : Int) : Diagonal.lengthOf n n k ≤ n * n := by
  have hself := Nat.le_mul_self n
  unfold Diagonal.lengthOf
  omega

/-- **A square matrix of its own** with entries that are given by row and column: it is row-major
over a storage that was not there before, and has the element type and the device of `v`. -/
structure Tabulated (before s : Store) (v m : NDArray) (n : Nat)
    (entry : Nat → Nat → Option v.dt.Elem) : Prop where
  new : before.nextId ≤ m.storage
  shape_eq : m.shape = ⟨[n, n]⟩
  dt_eq : m.dt = v.dt
  device_eq : m.device = v.device
  contiguous_eq : m.isContiguous = .ok true
  offset_eq : m.offset = 0
  shown : ∃ ys : List v.dt.Elem, m.toList s v.dt = .ok ys ∧ ys.length = n * n ∧
    ∀ i < n, ∀ j < n, ys[i * n + j]? = entry i j

/-- The entries may be given in another way. -/
theorem Tabulated.congr {before : Store} {entry entry' : Nat → Nat → Option v.dt.Elem}
    (h : Tabulated before s v m n entry) (heq : ∀ i < n, ∀ j < n, entry i j = entry' i j) :
    Tabulated before s v m n entry' := by
  obtain ⟨hnew, hshape, hdt, hdevice, hcontiguous, hoffset, ys, hys, hlen, hentry⟩ := h
  exact ⟨hnew, hshape, hdt, hdevice, hcontiguous, hoffset, ys, hys, hlen,
    fun i hi j hj => (hentry i hi j hj).trans (heq i hi j hj)⟩

/-- A square over a new buffer has the elements of the buffer for its entries. -/
theorem tabulated_square {before : Store} {cells : Array v.dt.Elem} {id : StorageId}
    {entry : Nat → Nat → Option v.dt.Elem} (hsize : n * n < signedBound)
    (hcells : cells.size = n * n) (hfits : (Buffer.mk v.dt cells).Fits)
    (hbuf : s.buffer? id = some ⟨v.dt, cells⟩) (hnew : before.nextId ≤ id)
    (hentry : ∀ i < n, ∀ j < n,
      (squareOver id n v.dt v.device).view.element? cells [i, j] = entry i j) :
    Tabulated before s v (squareOver id n v.dt v.device) n entry := by
  have hwhole := whole_square v.device hsize hcells hfits hbuf
  refine ⟨hnew, rfl, rfl, rfl, ?_, rfl, cells.toList, hwhole.toList_eq, ?_, fun i hi j hj => ?_⟩
  · have hstrides : (squareOver id n v.dt v.device).isContiguous
        = .ok ((⟨denseSteps [n, n]⟩ : Strides) == ⟨denseSteps [n, n]⟩) :=
      View.isContiguous_of_rowMajor (rowMajor_of_span (span_square one_lt_signedBound hsize))
    rw [hstrides, beq_self_eq_true]
  · rw [Array.length_toList, hcells]
  · -- the `i * n + j`-th element is read back through the position of the entry
    have hb : (squareOver id n v.dt v.device).view.InBounds cells.size := by
      rw [hcells]
      exact inBounds_square id n v.dt v.device
    rw [← hentry i hi j hj]
    exact getElem?_of_toList hwhole.backed rfl hb hfits.size_le hwhole.toList_eq ⟨hi, hj, trivial⟩
      (displacement_square n i j)

/-! ### The matrix -/

/-- The element of a square of zeros. -/
theorem element?_zeros (id : StorageId) (device : Device) {i j : Nat} (hi : i < n) (hj : j < n) :
    (squareOver id n dt device).view.element? (Array.replicate (n * n) dt.zero) [i, j]
      = some dt.zero := by
  have hrange := View.inBounds_iff.1 (inBounds_square id n dt device) [i, j] ⟨hi, hj, trivial⟩
  unfold View.element?
  rw [if_pos hrange.1, Array.getElem?_replicate, if_pos (by omega)]

/-- **A copy to the diagonal of a square of zeros** leaves the elements on the diagonal and zeros
elsewhere. -/
theorem exists_copy_to_square {xs : List dt.Elem} {f : NDArray} {id : StorageId}
    (hn : side xs.length k = n) (hcap : dt.bytes * (n * n) < signedBound)
    (hbuf : w.store.buffer? id = some ⟨dt, Array.replicate (n * n) dt.zero⟩)
    (hshape : f.shape = ⟨[xs.length]⟩) (hread : f.toList w.store dt = .ok xs) :
    ∃ d w' cells', (squareOver id n dt device).diagonal k = .ok d ∧ d.storage = id ∧
      d.copyFrom f w = (.ok (), w') ∧ w'.store.buffer? id = some ⟨dt, cells'⟩ ∧
      cells'.size = n * n ∧
      (∀ i < n, ∀ j < n, (squareOver id n dt device).view.element? cells' [i, j]
        = if (j : Int) - i = k then xs[min i j]? else some dt.zero) ∧
      d.toList w'.store dt = .ok xs ∧ w.store.ChangedOnly d.Covers w'.store := by
  have hsize : n * n < signedBound := DType.count_lt hcap
  have hcount : Diagonal.lengthOf n n k = xs.length := by
    rw [← hn]
    exact lengthOf_side xs.length k
  have hcells : (Array.replicate (n * n) dt.zero).size = n * n := Array.size_replicate
  have hfits : (Buffer.mk dt (Array.replicate (n * n) dt.zero)).Fits := by
    show dt.bytes * (Array.replicate (n * n) dt.zero).size < signedBound
    rwa [hcells]
  have hb : (squareOver id n dt device).view.InBounds (Array.replicate (n * n) dt.zero).size := by
    rw [hcells]
    exact inBounds_square id n dt device
  have hd : (squareOver id n dt device).view.Distinct := (gapless_square id n dt device).distinct
  have hlt : Diagonal.lengthOf n n k < sizeBound :=
    lt_trans (Nat.lt_of_le_of_lt (lengthOf_le_square n k) hsize) signedBound_lt_sizeBound
  -- the diagonal is as long as there are elements
  have hmany : xs.length = (Diagonal.cells n n k).length := by
    rw [Diagonal.length_cells, hcount]
  have hzero : (squareOver id n dt device).view.offset < sizeBound := by
    show 0 < sizeBound
    decide
  obtain ⟨d, hdiagonal, hof⟩ := exists_diagonal (isMatrix_square id dt device hsize) hb
    hfits.size_lt.le hzero k hlt
  obtain ⟨w', cells', hcopy, hback, hsize', helements, hshown, hrest⟩ :=
    hof.exists_copyFrom hbuf hfits rfl hb hd hshape hmany hread
  refine ⟨d, w', cells', hdiagonal, congrArg NDArray.storage hof.array_eq, hcopy, hback,
    hsize'.trans hcells, fun i hi j hj => (helements i hi j hj).trans ?_, hshown, hrest⟩
  -- off the diagonal the zeros are still there
  exact if_congr Iff.rfl rfl (element?_zeros id device hi hj)

/-- **A matrix that can be counted** is made of the flattened elements, by a copy to the diagonal of
a matrix of zeros. -/
theorem exists_diagflat_eq {xs : List v.dt.Elem} (h : v.toList w.store v.dt = .ok xs)
    (hn : side xs.length k = n) (hsize : n * n < sizeBound) :
    ∃ f w₁, w.store.Agrees w₁.store ∧ f.shape = ⟨[xs.length]⟩ ∧
      f.toList w₁.store v.dt = .ok xs ∧
      v.diagflat k w = (do
        let m ← zeros ⟨[n, n]⟩ v.dt v.device
        copyFrom (← m.diagonal k) f
        return m : Action NDArray) w₁ := by
  obtain ⟨f, w₁, hflatten, hshape, hdt, hdevice, hread⟩ := exists_flatten h
  refine ⟨f, w₁, adds_flatten v w _ w₁ hflatten, hshape, hread, ?_⟩
  -- both guards of the size are met: a side is no more than the square
  have hword : n < sizeBound ∧ n * n < sizeBound := by
    have hle := Nat.le_mul_self n
    omega
  have hside : xs.length + k.natAbs = n := hn
  unfold diagflat
  rw [Action.bind_of_ok hflatten, Action.bind_checked_ok (of_toList hread).2.1]
  dsimp only
  rw [hside, if_pos hword, hdt, hdevice]

/-- **The elements of an array on a diagonal of a new matrix**, and zeros elsewhere, as long as the
matrix fits the memory. Nothing else is touched, and the diagonal shows the elements again. -/
theorem exists_diagflat {xs : List v.dt.Elem} (h : v.toList w.store v.dt = .ok xs)
    (hn : side xs.length k = n) (hcap : v.dt.bytes * (n * n) < signedBound) :
    ∃ m w', v.diagflat k w = (.ok m, w') ∧ w.store.Agrees w'.store ∧
      (Tabulated w.store w'.store v m n fun i j =>
        if (j : Int) - i = k then xs[min i j]? else some v.dt.zero) ∧
      ∃ d, m.diagonal k = .ok d ∧ d.toList w'.store v.dt = .ok xs := by
  have hsize : n * n < signedBound := DType.count_lt hcap
  obtain ⟨f, w₁, hs₁, hshape, hread, hrun⟩ :=
    exists_diagflat_eq h hn (hsize.trans signedBound_lt_sizeBound)
  have hzeros := zeros_square hsize hcap v.device w₁
  -- the matrix of zeros is new, too
  obtain ⟨w₂, hw₂⟩ : ∃ w₂ : World, { w₁ with
    store := w₁.store.push ⟨v.dt, Array.replicate (n * n) v.dt.zero⟩ } = w₂ := ⟨_, rfl⟩
  rw [hw₂] at hzeros
  have hs₂ : w₁.store.Agrees w₂.store := adds_zeros _ _ _ w₁ _ w₂ hzeros
  have hbuf : w₂.store.buffer? w₁.store.nextId
      = some ⟨v.dt, Array.replicate (n * n) v.dt.zero⟩ := by
    rw [← hw₂, Store.buffer?_push, if_pos rfl]
  obtain ⟨d, w', cells', hdiagonal, hstorage, hcopy, hback, hcells, helements, hshown, hrest⟩ :=
    exists_copy_to_square hn hcap hbuf hshape (toList_of_agrees hread hs₂)
  have hnew : w.store.nextId ≤ w₁.store.nextId := hs₁.toExtends.nextId_le
  refine ⟨squareOver w₁.store.nextId n v.dt v.device, w', ?_, ?_, ?_, d, hdiagonal, hshown⟩
  · rw [hrun, Action.bind_of_ok hzeros, Action.bind_answer_ok hdiagonal, Action.bind_of_ok hcopy]
    rfl
  · refine (hs₁.trans hs₂).trans_new hrest ?_
    -- what has been written to lies in the new buffer
    rintro id p ⟨rfl, -⟩
    exact hnew.trans (le_of_eq hstorage.symm)
  · refine tabulated_square hsize hcells ?_ hback hnew helements
    show v.dt.bytes * cells'.size < signedBound
    rwa [hcells]

/-- Elements that do not fit the memory are put in no matrix, whatever its size. -/
theorem diagflat_of_many {cells : Array v.dt.Elem} (hbuf : v.Backed w.store cells)
    (hnumel : v.numel = .ok (volume v.shape.dims))
    (hcap : ¬v.dt.bytes * volume v.shape.dims < signedBound) :
    ∃ w', v.diagflat k w = (.error (.fault .capacity), w') ∧ w.store.Agrees w'.store := by
  have hgather : (v.gather w.store).lift = .error (.fault .capacity) := by
    rw [gather_of_no_memory hbuf hnumel hcap, Checked.lift_error]
  have hflatten : v.flatten w = (.error (.fault .capacity), w) := by
    unfold flatten
    exact Action.bind_read_error hgather _
  refine ⟨w, ?_, .refl _⟩
  unfold diagflat
  exact Action.bind_of_error hflatten

/-- **A matrix that does not fit the memory is not made**, and neither is one whose elements do
not fit it to begin with. -/
theorem diagflat_of_no_memory {cells : Array v.dt.Elem} (hbuf : v.Backed w.store cells)
    (hfits : (Buffer.mk v.dt cells).Fits) (hwalks : v.view.Walks cells.size)
    (hn : side (volume v.shape.dims) k = n) (hsize : n * n < sizeBound)
    (hcap : ¬v.dt.bytes * (n * n) < signedBound) :
    ∃ w', v.diagflat k w = (.error (.fault .capacity), w') ∧ w.store.Agrees w'.store := by
  by_cases hsmall : v.dt.bytes * volume v.shape.dims < signedBound
  · obtain ⟨xs, hxs⟩ := exists_toList hbuf hwalks hfits.size_le hsmall
    have hside : side xs.length k = n := by
      rw [(of_toList hxs).2.2.1]
      exact hn
    obtain ⟨f, w₁, hs₁, -, -, hrun⟩ := exists_diagflat_eq hxs hside hsize
    -- the elements fit the memory, but the zeros around them do not
    have hzeros : zeros ⟨[n, n]⟩ v.dt v.device w₁ = (.error (.fault .capacity), w₁) := by
      unfold zeros
      rw [Action.bind_checked_ok (numel_square hsize)]
      refine Action.bind_checked_error ?_ _ w₁
      unfold Buffer.zeros Buffer.filled
      rw [DType.checkCapacity_eq_error hcap]
      rfl
    exact ⟨w₁, hrun.trans (Action.bind_of_error hzeros), hs₁⟩
  · -- the elements do not even fit a list
    exact diagflat_of_many hbuf (View.numel_of_fault hwalks.fault_eq) hsmall

/-- **What a diagonal shows** are the entries of the matrix on it. -/
theorem IsDiagonal.getElem?_of_toList {cells : Array a.dt.Elem} {zs xs : List a.dt.Elem} {i j : Nat}
    (h : IsDiagonal a n n k cells.size d) (hshape : a.shape = ⟨[n, n]⟩)
    (hbuf : a.Backed s cells) (hfits : (Buffer.mk a.dt cells).Fits)
    (hwalks : a.view.Walks cells.size) (hzs : a.toList s a.dt = .ok zs)
    (hxs : d.toList s a.dt = .ok xs) (hi : i < n) (hj : j < n) (hk : (j : Int) - i = k) :
    xs[min i j]? = zs[i * n + j]? := by
  have hdims : a.shape.dims = [n, n] := congrArg Shape.dims hshape
  have hin : Within [i, j] a.shape.dims := within_of_shape hshape hi hj
  have hplace : displacement [i, j] (denseSteps a.shape.dims) = ((i * n + j : Nat) : Int) := by
    rw [hdims]
    exact displacement_square n i j
  -- both lists are read off the buffer: the matrix shows the entry at the place of `i, j`, and so
  -- does the diagonal, at its own place
  rw [NDArray.getElem?_of_toList hbuf hwalks.rank_eq hwalks.inBounds hfits.size_le hzs hin hplace,
    View.element?, if_pos (View.inBounds_iff.1 hwalks.inBounds _ hin).1]
  have hmin := h.getElem?_places hi hj hk
  have hline := h.walks
  obtain ⟨v, rfl⟩ : ∃ v, d = a.withView v := ⟨_, h.array_eq⟩
  have hback : (a.withView v).Backed s cells := hbuf
  exact getElem?_of_map_places ((toList_eq_ok_iff hback hline hfits.size_le).1 hxs).2 hmin

/-- **The matrix of a diagonal of a matrix** is the matrix with zeros off the diagonal. -/
theorem exists_diagflat_diagonal {cells : Array a.dt.Elem} {down right : Int}
    (hm : a.IsMatrix n n down right) (hbuf : a.Backed w.store cells)
    (hfits : (Buffer.mk a.dt cells).Fits) (hwalks : a.view.Walks cells.size)
    (hoffset : a.view.offset < sizeBound) (hk : k.natAbs ≤ n)
    (hcap : a.dt.bytes * (n * n) < signedBound) :
    ∃ zs d m w', a.toList w.store a.dt = .ok zs ∧ a.diagonal k = .ok d ∧
      d.diagflat k w = (.ok m, w') ∧ w.store.Agrees w'.store ∧
      Tabulated w.store w'.store a m n fun i j =>
        if (j : Int) - i = k then zs[i * n + j]? else some a.dt.zero := by
  have hsize : n * n < signedBound := DType.count_lt hcap
  have hvolume : volume a.shape.dims = n * n := by
    rw [hm.shape_eq, volume_cons, volume_cons, volume_nil, Nat.mul_one]
  have hle := lengthOf_le_square n k
  obtain ⟨zs, hzs⟩ := exists_toList hbuf hwalks hfits.size_le (by rwa [hvolume])
  obtain ⟨d, hdiagonal, hof⟩ := exists_diagonal hm hwalks.inBounds hfits.size_lt.le hoffset k
    (lt_trans (Nat.lt_of_le_of_lt hle hsize) signedBound_lt_sizeBound)
  have hdvolume : volume d.shape.dims = Diagonal.lengthOf n n k := by
    rw [hof.shape_eq, volume_cons, volume_nil, Nat.mul_one, Diagonal.length_cells]
  -- whatever the diagonal shows are entries of the matrix, so either list tells them
  have hentries : ∀ xs, d.toList w.store a.dt = .ok xs → ∀ i < n, ∀ j < n,
      (if (j : Int) - i = k then xs[min i j]? else some a.dt.zero)
        = if (j : Int) - i = k then zs[i * n + j]? else some a.dt.zero := by
    intro xs hxs i hi j hj
    by_cases hij : (j : Int) - i = k
    · rw [if_pos hij, if_pos hij]
      exact hof.getElem?_of_toList hm.shape_eq hbuf hfits hwalks hzs hxs hi hj hij
    · rw [if_neg hij, if_neg hij]
  have hline := hof.walks
  obtain ⟨v, rfl⟩ : ∃ v, d = a.withView v := ⟨_, hof.array_eq⟩
  -- the diagonal is read from the buffer of the matrix
  have hback : (a.withView v).Backed w.store cells := hbuf
  have hroom : a.dt.bytes * volume (a.withView v).shape.dims < signedBound := by
    rw [hdvolume]
    calc a.dt.bytes * Diagonal.lengthOf n n k
        ≤ a.dt.bytes * (n * n) := Nat.mul_le_mul_left _ hle
      _ < signedBound := hcap
  obtain ⟨xs, hxs⟩ := exists_toList hback hline hfits.size_le hroom
  -- the elements of the diagonal and the way to it make up the side of the matrix again
  have hside : side xs.length k = n := by
    rw [(of_toList hxs).2.2.1, hdvolume]
    unfold side Diagonal.lengthOf
    omega
  obtain ⟨m, w', hflat, hs, htable, -⟩ := exists_diagflat hxs hside hcap
  refine ⟨zs, _, m, w', hzs, hdiagonal, hflat, hs, ?_⟩
  have htable' := htable.congr (hentries xs hxs)
  exact ⟨htable'.new, htable'.shape_eq, htable'.dt_eq, htable'.device_eq, htable'.contiguous_eq,
    htable'.offset_eq, htable'.shown⟩

/-- **Taking a diagonal and making a matrix of it are inverse to each other**, as long as there is
memory for the matrix. The array can be walked, and lies in a buffer in any layout. If a matrix
with its elements on the `k`-th diagonal fits the memory, it is made, nothing else changes, and its
diagonal shows the elements again. If it can be counted but does not fit the memory, that is a
fault, and nothing changes. If the array is a square matrix whose diagonals can be found, the matrix
that is made of one of them is the array with zeros off the diagonal. -/
theorem diagflat_inverts_diagonal {cells : Array v.dt.Elem} (hbuf : v.Backed w.store cells)
    (hfits : (Buffer.mk v.dt cells).Fits) (hwalks : v.view.Walks cells.size) (k : Int) :
    (∀ n, side (volume v.shape.dims) k = n → n * n < signedBound →
      (v.dt.bytes * (n * n) < signedBound →
        ∃ xs m w', v.toList w.store v.dt = .ok xs ∧ v.diagflat k w = (.ok m, w') ∧
          w.store.Agrees w'.store ∧ v.toList w'.store v.dt = .ok xs ∧
          (Tabulated w.store w'.store v m n fun i j =>
            if (j : Int) - i = k then xs[min i j]? else some v.dt.zero) ∧
          ∃ d, m.diagonal k = .ok d ∧ d.toList w'.store v.dt = .ok xs) ∧
      (¬v.dt.bytes * (n * n) < signedBound →
        ∃ w', v.diagflat k w = (.error (.fault .capacity), w') ∧ w.store.Agrees w'.store)) ∧
    ∀ n down right, v.IsMatrix n n down right → v.view.offset < sizeBound → k.natAbs ≤ n →
      v.dt.bytes * (n * n) < signedBound →
      ∃ zs d m w', v.toList w.store v.dt = .ok zs ∧ v.diagonal k = .ok d ∧
        d.diagflat k w = (.ok m, w') ∧ w.store.Agrees w'.store ∧
        Tabulated w.store w'.store v m n fun i j =>
          if (j : Int) - i = k then zs[i * n + j]? else some v.dt.zero := by
  refine ⟨fun n hn hsize => ⟨fun hcap => ?_,
    diagflat_of_no_memory hbuf hfits hwalks hn (hsize.trans signedBound_lt_sizeBound)⟩,
    fun n down right hm hoffset hk hcap =>
      exists_diagflat_diagonal hm hbuf hfits hwalks hoffset hk hcap⟩
  -- the elements are no more than the matrix has room for
  have hle : volume v.shape.dims ≤ n * n := by
    have hself := Nat.le_mul_self n
    unfold side at hn
    omega
  have hroom : v.dt.bytes * volume v.shape.dims < signedBound :=
    calc v.dt.bytes * volume v.shape.dims
        ≤ v.dt.bytes * (n * n) := Nat.mul_le_mul_left _ hle
      _ < signedBound := hcap
  obtain ⟨xs, hxs⟩ := exists_toList hbuf hwalks hfits.size_le hroom
  have hside : side xs.length k = n := by
    rw [(of_toList hxs).2.2.1]
    exact hn
  obtain ⟨m, w', hflat, hs, htable, hread⟩ := exists_diagflat hxs hside hcap
  exact ⟨xs, m, w', hxs, hflat, hs, toList_of_agrees hxs hs, htable, hread⟩

/-- The last four of six numbers in two rows, the last one first. -/
def lastFour : NDArray := ⟨0, ⟨⟨[2, 2]⟩, ⟨[-2, -1]⟩, 5⟩, .i32, .host⟩

/-- All four elements, and the one above the main diagonal, on the diagonal of a matrix. -/
theorem diagflat_inverts_diagonal_lastFour :
    lastFour.Backed (counting 6).store (countTo 6) ∧ (Buffer.mk .i32 (countTo 6)).Fits ∧
      lastFour.view.Walks 6 ∧ lastFour.IsMatrix 2 2 (-2) (-1) ∧
      (∃ m w' d, lastFour.diagflat 1 (counting 6) = (.ok m, w') ∧ m.diagonal 1 = .ok d ∧
        d.toList w'.store .i32 = .ok [6, 5, 4, 3]) ∧
      ∃ d m w' ys, lastFour.diagonal 1 = .ok d ∧ d.diagflat 1 (counting 6) = (.ok m, w') ∧
        m.toList w'.store .i32 = .ok ys ∧ ys[1]? = some (5 : Int32) ∧
        ys[2]? = some (0 : Int32) := by
  have hbuf : lastFour.Backed (counting 6).store (countTo 6) := rfl
  have hfits : (Buffer.mk .i32 (countTo 6)).Fits := by decide
  have hwalks : lastFour.view.Walks 6 := ⟨rfl, by decide, by decide⟩
  have hm : lastFour.IsMatrix 2 2 (-2) (-1) := ⟨rfl, rfl, by decide, by decide, by decide⟩
  obtain ⟨hflat, hback⟩ := diagflat_inverts_diagonal hbuf hfits hwalks 1
  have hread : lastFour.toList (counting 6).store .i32 = .ok [6, 5, 4, 3] := rfl
  obtain ⟨xs, m, w', hxs, hrun, -, -, -, d, hd, hshown⟩ := (hflat 5 rfl (by decide)).1 (by decide)
  obtain rfl := Except.ok.inj (hread.symm.trans hxs)
  obtain ⟨zs, d', m', w₁, hzs, hd', hrun', -, htable⟩ :=
    hback 2 (-2) (-1) hm (by decide) (by decide) (by decide)
  obtain rfl := Except.ok.inj (hread.symm.trans hzs)
  obtain ⟨ys, hys, -, hentry⟩ := htable.shown
  exact ⟨hbuf, hfits, hwalks, hm, ⟨m, w', d, hrun, hd, hshown⟩, d', m', w₁, ys, hd', hrun', hys,
    hentry 0 (by decide) 1 (by decide), hentry 1 (by decide) 0 (by decide)⟩

/-! ### A matrix that is too large -/

/-- The array of a single element. -/
def single (dt : DType) : NDArray := lineOver 0 1 dt .host

/-- **A matrix that can be counted may be too large.** It has less than `2 ^ 63` entries, but they
are numbers of eight bytes. -/
theorem single_element_too_large :
    (single .f64).Backed (alone .f64).store (lone .f64) ∧ (Buffer.mk .f64 (lone .f64)).Fits ∧
      (single .f64).view.Walks 1 ∧ (single .f64).numel = .ok 1 ∧
      side 1 3037000498 * side 1 3037000498 < signedBound ∧
      ∀ m w', (single .f64).diagflat 3037000498 (alone .f64) ≠ (.ok m, w') := by
  have hbuf : (single .f64).Backed (alone .f64).store (lone .f64) := rfl
  have hfits : (Buffer.mk .f64 (lone .f64)).Fits := by decide
  have hwalks : (single .f64).view.Walks 1 := ⟨rfl, by decide, by decide⟩
  have hsize : side 1 3037000498 * side 1 3037000498 < signedBound := by decide
  refine ⟨hbuf, hfits, hwalks, rfl, hsize, fun m w' h => ?_⟩
  obtain ⟨w₁, hrun, -⟩ := diagflat_of_no_memory hbuf hfits hwalks rfl
    (hsize.trans signedBound_lt_sizeBound) (by decide)
  exact Action.error_ne_ok hrun h

end NDArray

end Strided
