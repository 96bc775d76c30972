import Strided.Proofs.NDArray.Copies
import Strided.Proofs.NDArray.Slicing
import Strided.Proofs.View.DiagonalCells

/-!
# The diagonals of a matrix

A diagonal is an array with a single axis, and as long as its elements lie in a buffer it can be
walked, however far apart they are: a walk along one axis never turns round
(`View.walks_of_line`). This is more than can be said of the matrix, where the walk may overflow at
the end of a row.

What is known about the window of a diagonal then carries over to the array: `NDArray.IsDiagonal`
says that its elements are the cells of the diagonal, in their order. Since every cell lies on one
diagonal, `NDArray.diagonals_partition` can say that the diagonals divide the cells among them, and
that a write to one of them changes the cells on it and no others.
-/

namespace Strided

/-! ### Walks along one axis -/

namespace Odometer

variable {n i : Nat} {step position : Int}

/-- Before the end of the axis a move is one step. -/
theorem advance_line (hi : i + 1 < n) (h : SignedWord (position + step)) :
    advance [n] [step] [i] position = .ok (false, [i + 1], position + step) := by
  have hlast : advance [] ([step] : List Int).tail [] position = .ok (true, [], position) := rfl
  rw [advance, hlast, Checked.ok_bind]
  simp only [Bool.not_true, Bool.false_eq_true, if_false, List.head?_cons]
  rw [h.check_eq, Checked.ok_bind, if_pos hi]
  rfl

/-- **A walk along one axis** goes through if the positions on it are signed words. -/
theorem fault_drain_line {v : View} {base : Int} (hdims : v.shape.dims = [n])
    (hsteps : v.strides.steps = [step]) (hword : ∀ j < n, SignedWord (base + (j : Nat) * step))
    (m : Nat) (hm : i + m = n) : (drain m ⟨v, [i], m, base + i * step⟩).fault = none := by
  induction m generalizing i with
  | zero => rfl
  | succ m ih =>
    -- the last element is shown without a move, so the position past the end is never made
    cases m with
    | zero => rfl
    | succ m =>
      have hmove : base + i * step + step = base + (i + 1 : Nat) * step := by
        push_cast
        ring
      have hlt : i + 1 < n := by omega
      have hadv : advance v.shape.dims v.strides.steps [i] (base + i * step)
          = .ok (false, [i + 1], base + (i + 1 : Nat) * step) := by
        rw [hdims, hsteps, ← hmove]
        refine advance_line hlt ?_
        rw [hmove]
        exact hword (i + 1) hlt
      rw [drain, next_of_more, hadv]
      exact ih (by omega)

end Odometer

theorem Shape.numel_line {n : Nat} (hn : n < sizeBound) : (⟨[n]⟩ : Shape).numel = .ok n := by
  unfold Shape.numel
  rw [List.foldlM_cons, Nat.one_mul, checkSize_eq_ok_iff.2 ⟨hn, rfl⟩]
  rfl

/-- The multi-indices of a single axis. -/
theorem indicesOf_line (n : Nat) : indicesOf [n] = (List.range n).map fun t => [t] :=
  List.map_eq_flatMap.symm

/-- **A single axis in a buffer can be walked.** -/
theorem View.walks_of_line {v : View} {n size : Nat} {step : Int} (hshape : v.shape = ⟨[n]⟩)
    (hstrides : v.strides = ⟨[step]⟩) (hb : v.InBounds size) (hsize : size ≤ signedBound)
    (hn : n < sizeBound) : v.Walks size := by
  have hdims : v.shape.dims = [n] := congrArg Shape.dims hshape
  have hsteps : v.strides.steps = [step] := congrArg Strides.steps hstrides
  refine ⟨by rw [hdims, hsteps]; rfl, hb, ?_⟩
  have hnumel : v.numel = .ok n := by
    unfold View.numel
    rw [hshape]
    exact Shape.numel_line hn
  rw [offsets_of_numel hnumel]
  cases n with
  | zero => rfl
  | succ n =>
    have hposition : ∀ j < n + 1, 0 ≤ (v.offset : Int) + (j : Nat) * step ∧
        (v.offset : Int) + (j : Nat) * step < (size : Int) := by
      intro j hj
      have hin := inBounds_iff.1 hb [j] (by rw [hdims]; exact ⟨hj, trivial⟩)
      rwa [position, hsteps, displacement_cons, displacement_nil, Int.add_zero] at hin
    have hword : ∀ j < n + 1, SignedWord ((v.offset : Int) + (j : Nat) * step) := by
      intro j hj
      have hin := hposition j hj
      exact .of_natAbs (by omega)
    -- the walk starts at the first element, whose position is the offset
    have hfirst := hposition 0 (Nat.succ_pos n)
    rw [Int.natCast_zero, Int.zero_mul, Int.add_zero] at hfirst
    have hdrain := Odometer.fault_drain_line (i := 0) hdims hsteps hword (n + 1) (Nat.zero_add _)
    rw [Int.natCast_zero, Int.zero_mul, Int.add_zero] at hdrain
    rw [toSigned_of_lt (by omega), hdims]
    exact hdrain

/-! ### The cells of a matrix -/

namespace Diagonal

variable {rows cols i j : Nat} {k : Int}

/-- **A cell is numbered along its diagonal** by the smaller one of its indices. -/
theorem getElem?_cells (hi : i < rows) (hj : j < cols) (hk : (j : Int) - i = k) :
    (cells rows cols k)[min i j]? = some (i, j) := by
  have hlt : min i j < lengthOf rows cols k := by
    unfold lengthOf
    omega
  -- the cells begin in the first row or in the first column, and go down by one and right by one
  rw [cells_at hlt]
  refine congrArg some (Prod.ext ?_ ?_)
  · show (-k).toNat + min i j = i
    omega
  · show k.toNat + min i j = j
    omega

/-- Outside the matrix there are no cells. -/
theorem cells_eq_nil (hk : k ≤ -(rows : Int) ∨ (cols : Int) ≤ k) : cells rows cols k = [] := by
  refine List.eq_nil_of_length_eq_zero ?_
  rw [length_cells]
  unfold lengthOf
  omega

end Diagonal

namespace NDArray

open Diagonal (lengthOf indexOf cells_eq length_cells mem_cells)

variable {a d d' : NDArray} {rows cols size : Nat} {down right k k' : Int}

/-! ### The entries of a matrix -/

section Entries

variable {i j i' j' : Nat} {p : Int}

theorem within_of_shape (hshape : a.shape = ⟨[rows, cols]⟩) (hi : i < rows) (hj : j < cols) :
    Within [i, j] a.view.shape.dims := by
  have hdims : a.view.shape.dims = [rows, cols] := congrArg Shape.dims hshape
  rw [hdims]
  exact ⟨hi, hj, trivial⟩

/-- The positions of a matrix, by row and column. -/
theorem mem_positions_of_shape (hshape : a.shape = ⟨[rows, cols]⟩) :
    p ∈ a.view.positions ↔ ∃ i j, i < rows ∧ j < cols ∧ a.view.position [i, j] = p := by
  have hdims : a.view.shape.dims = [rows, cols] := congrArg Shape.dims hshape
  constructor
  · intro hp
    obtain ⟨index, hindex, rfl⟩ := List.mem_map.1 hp
    have hin := mem_indicesOf.1 hindex
    rw [hdims] at hin
    -- an index within two axes has two entries
    rcases index with _ | ⟨i, _ | ⟨j, _ | ⟨l, index⟩⟩⟩
    · exact hin.elim
    · exact hin.2.elim
    · exact ⟨i, j, hin.1, hin.2.1, rfl⟩
    · exact hin.2.2.elim
  · rintro ⟨i, j, hi, hj, rfl⟩
    exact List.mem_map_of_mem (mem_indicesOf.2 (within_of_shape hshape hi hj))

/-- In a matrix that repeats no cell a position tells the row and the column. -/
theorem entry_inj (hd : a.view.Distinct) (hshape : a.shape = ⟨[rows, cols]⟩) (hi : i < rows)
    (hj : j < cols) (hi' : i' < rows) (hj' : j' < cols)
    (h : a.view.position [i, j] = a.view.position [i', j']) : i = i' ∧ j = j' := by
  have heq := View.distinct_iff.1 hd _ _ (within_of_shape hshape hi hj)
    (within_of_shape hshape hi' hj') h
  simpa using heq

end Entries

/-! ### One diagonal -/

/-- **A matrix whose diagonals can be found**: the sum of its strides is a signed word, and so is
the way along either axis. -/
structure IsMatrix (a : NDArray) (rows cols : Nat) (down right : Int) : Prop where
  shape_eq : a.shape = ⟨[rows, cols]⟩
  strides_eq : a.strides = ⟨[down, right]⟩
  sum_word : SignedWord (down + right)
  down_lt : rows * down.natAbs < signedBound
  right_lt : cols * right.natAbs < signedBound

/-- **The `k`-th diagonal of a matrix** in a buffer of `size` cells: a view of the same storage,
which can be walked, and comes to the cells of the diagonal in their order. -/
structure IsDiagonal (a : NDArray) (rows cols : Nat) (k : Int) (size : Nat) (d : NDArray) :
    Prop where
  array_eq : d = a.withView d.view
  shape_eq : d.shape = ⟨[(Diagonal.cells rows cols k).length]⟩
  positions_eq : d.view.positions
    = (Diagonal.cells rows cols k).map fun c => a.view.position [c.1, c.2]
  walks : d.view.Walks size
  distinct : a.view.Distinct → d.view.Distinct

/-- **A matrix in a buffer has every diagonal**, if its elements can be counted. -/
theorem exists_diagonal (hm : a.IsMatrix rows cols down right) (hb : a.view.InBounds size)
    (hsize : size ≤ signedBound) (hoffset : a.view.offset < sizeBound) (k : Int)
    (hcount : lengthOf rows cols k < sizeBound) :
    ∃ d, a.diagonal k = .ok d ∧ IsDiagonal a rows cols k size d := by
  obtain ⟨hshape, hstrides, hsum, hdown, hright⟩ := hm
  have hdims : a.view.shape.dims = [rows, cols] := congrArg Shape.dims hshape
  have hsteps : a.view.strides.steps = [down, right] := congrArg Strides.steps hstrides
  have hlen : a.view.strides.steps.length = a.view.shape.dims.length := by
    rw [hdims, hsteps]
    rfl
  rcases diagonal_cases hlen hb hsize hoffset k with ⟨hrank, -⟩ | ⟨rows', cols', down', right',
    hdims', hsteps', hcase⟩
  · -- a matrix has two axes
    exact absurd (congrArg List.length hdims) hrank
  obtain ⟨rfl, rfl⟩ : rows = rows' ∧ cols = cols' := by simpa using hdims.symm.trans hdims'
  obtain ⟨rfl, rfl⟩ : down = down' ∧ right = right' := by simpa using hsteps.symm.trans hsteps'
  rcases hcase with hover | ⟨part, hpart, hline, hstep, -, hpartOf⟩
  · -- the way to the first cell is a signed word
    have hw := window_of_diagonal_overflow hover
    rw [hshape, hstrides] at hw
    exact absurd hw (Diagonal.window_ne_overflow hsum (fun hk => (exact_way hright hk.le).2)
      fun hk => (exact_way hdown hk.le).2)
  · refine ⟨_, hpart, rfl, ?_, ?_, ?_, hpartOf.distinct⟩
    · rw [length_cells]
      exact hline
    · -- the `t`-th element of the part is the `t`-th cell
      have hpdims : part.shape.dims = [lengthOf rows cols k] := congrArg Shape.dims hline
      have hindices : part.shape.indices
          = (List.range (lengthOf rows cols k)).map fun t => [t] := by
        unfold Shape.indices
        rw [hpdims]
        exact indicesOf_line _
      show part.positions = _
      rw [View.positions, hindices, cells_eq, List.map_map, List.map_map]
      refine List.map_congr_left fun t ht => ?_
      have hin : Within [t] part.shape.dims := by
        rw [hpdims]
        exact ⟨List.mem_range.1 ht, trivial⟩
      exact hpartOf.position_eq [t] hin
    · exact View.walks_of_line hline hstep (hpartOf.inBounds hb) hsize hcount

namespace IsDiagonal

variable {cells : Array a.dt.Elem} {items : List a.dt.Elem} {w : World} {p : Int}

/-- The positions on a diagonal are those of the entries whose column and row differ by its
number. -/
theorem mem_positions (h : IsDiagonal a rows cols k size d) : p ∈ d.view.positions ↔
    ∃ i j : Nat, i < rows ∧ j < cols ∧ (j : Int) - i = k ∧ a.view.position [i, j] = p := by
  rw [h.positions_eq, List.mem_map]
  constructor
  · rintro ⟨⟨i, j⟩, hc, rfl⟩
    obtain ⟨hi, hj, hk⟩ := mem_cells.1 hc
    exact ⟨i, j, hi, hj, hk, rfl⟩
  · rintro ⟨i, j, hi, hj, hk, rfl⟩
    exact ⟨(i, j), mem_cells.2 ⟨hi, hj, hk⟩, rfl⟩

/-- The cells of a diagonal lie where they lie in the matrix. -/
theorem places_eq (h : IsDiagonal a rows cols k size d) : d.view.places
    = (Diagonal.cells rows cols k).map fun c => (a.view.position [c.1, c.2]).toNat := by
  rw [View.places, h.positions_eq, List.map_map]
  rfl

/-- An element of the matrix that is on the diagonal, by its number there. -/
theorem getElem?_places (h : IsDiagonal a rows cols k size d) {i j : Nat} (hi : i < rows)
    (hj : j < cols) (hk : (j : Int) - i = k) :
    d.view.places[min i j]? = some (a.view.position [i, j]).toNat := by
  rw [h.places_eq, List.getElem?_map, Diagonal.getElem?_cells hi hj hk]
  rfl

/-- **Two diagonals share no position** if the matrix repeats none. -/
theorem disjoint (hd : a.view.Distinct) (hshape : a.shape = ⟨[rows, cols]⟩)
    (h : IsDiagonal a rows cols k size d) (h' : IsDiagonal a rows cols k' size d') (hk : k ≠ k') :
    d.view.positions.Disjoint d'.view.positions := by
  intro p hp hp'
  obtain ⟨i, j, hi, hj, rfl, hpos⟩ := h.mem_positions.1 hp
  obtain ⟨i', j', hi', hj', rfl, hpos'⟩ := h'.mem_positions.1 hp'
  obtain ⟨rfl, rfl⟩ := entry_inj hd hshape hi hj hi' hj' (hpos.trans hpos'.symm)
  exact hk rfl

/-- **A write to a diagonal** changes the elements on it and no other element of the matrix. -/
theorem exists_assign (h : IsDiagonal a rows cols k cells.size d)
    (hbuf : a.Backed w.store cells) (hfits : (Buffer.mk a.dt cells).Fits)
    (hshape : a.shape = ⟨[rows, cols]⟩) (hb : a.view.InBounds cells.size) (hd : a.view.Distinct)
    (hlen : items.length = (Diagonal.cells rows cols k).length) :
    ∃ w' cells', d.assign a.dt items w = (.ok (), w') ∧ a.Backed w'.store cells' ∧
      cells'.size = cells.size ∧
      (∀ i < rows, ∀ j < cols, a.view.element? cells' [i, j]
        = if (j : Int) - i = k then items[min i j]? else a.view.element? cells [i, j]) ∧
      w.store.ChangedOnly d.Covers w'.store := by
  have hnodup : d.view.places.Nodup := (h.distinct hd).nodup_places h.walks.inBounds
  obtain ⟨v, rfl⟩ : ∃ v, d = a.withView v := ⟨_, h.array_eq⟩
  -- an item for every element of the diagonal
  have hvolume : items.length = Shape.volume (a.withView v).shape.dims := by
    rw [h.shape_eq, hlen]
    exact (Nat.mul_one _).symm
  have hback : (a.withView v).Backed w.store cells := hbuf
  obtain ⟨cells', hassign, hwritten⟩ := assign_eq hback h.walks hfits.size_le hvolume
  refine ⟨_, cells', hassign, ?_, hwritten.size_eq, fun i hi j hj => ?_,
    changedOnly_of_written hback hwritten⟩
  · show (w.store.replace a.storage ⟨a.dt, cells'⟩).buffer? a.storage = some ⟨a.dt, cells'⟩
    rw [Store.buffer?_replace, if_pos ⟨rfl, Store.lt_nextId hbuf⟩]
  · have hrange := View.inBounds_iff.1 hb _ (within_of_shape hshape hi hj)
    unfold View.element?
    rw [if_pos hrange.1, if_pos hrange.1]
    by_cases hk : (j : Int) - i = k
    · rw [if_pos hk]
      exact hwritten.last_eq _ _ (lastAt_of_nodup hnodup (h.getElem?_places hi hj hk))
    · rw [if_neg hk]
      refine hwritten.rest_eq _ fun hmem => ?_
      -- the element would be on two diagonals
      rw [h.places_eq] at hmem
      obtain ⟨⟨i', j'⟩, hc, heq⟩ := List.mem_map.1 hmem
      obtain ⟨hi', hj', hk'⟩ := mem_cells.1 hc
      have hrange' := View.inBounds_iff.1 hb _ (within_of_shape hshape hi' hj')
      have hsame : a.view.position [i', j'] = a.view.position [i, j] := by
        dsimp only at heq
        omega
      obtain ⟨rfl, rfl⟩ := entry_inj hd hshape hi' hj' hi hj hsame
      exact hk hk'

/-- **A copy to a diagonal** is a write of what the source shows, and the diagonal shows it. -/
theorem exists_copyFrom {src : NDArray} (h : IsDiagonal a rows cols k cells.size d)
    (hbuf : a.Backed w.store cells) (hfits : (Buffer.mk a.dt cells).Fits)
    (hshape : a.shape = ⟨[rows, cols]⟩) (hb : a.view.InBounds cells.size) (hd : a.view.Distinct)
    (hsrc : src.shape = ⟨[items.length]⟩)
    (hlen : items.length = (Diagonal.cells rows cols k).length)
    (hread : src.toList w.store a.dt = .ok items) :
    ∃ w' cells', d.copyFrom src w = (.ok (), w') ∧ a.Backed w'.store cells' ∧
      cells'.size = cells.size ∧
      (∀ i < rows, ∀ j < cols, a.view.element? cells' [i, j]
        = if (j : Int) - i = k then items[min i j]? else a.view.element? cells [i, j]) ∧
      d.toList w'.store a.dt = .ok items ∧ w.store.ChangedOnly d.Covers w'.store := by
  obtain ⟨w', cells', hassign, hback, hsize, helements, hrest⟩ :=
    h.exists_assign hbuf hfits hshape hb hd hlen
  -- the shapes agree, so that the copy comes to a write of the items
  have hdiagonal : src.shape = d.shape := by rw [hsrc, h.shape_eq, hlen]
  have hwalks := h.walks
  have hdistinct := h.distinct hd
  obtain ⟨v, rfl⟩ : ∃ v, d = a.withView v := ⟨_, h.array_eq⟩
  have hbuf' : (a.withView v).Backed w.store cells := hbuf
  obtain ⟨w₁, hcopy, hassign', hshown, -⟩ := NDArray.exists_copyFrom hbuf' hfits hwalks hdiagonal
    (of_toList hread).1.symm hread
  obtain rfl : w' = w₁ := congrArg Prod.snd (hassign.symm.trans hassign')
  exact ⟨w', cells', hcopy, hback, hsize, helements, hshown hdistinct, hrest⟩

end IsDiagonal

/-! ### All diagonals -/

/-- **The diagonals of a matrix divide its cells among them.** The matrix lies in a buffer, in any
layout that repeats no cell, and the sum of its strides and the way along either axis are signed
words. Then there is a diagonal for every number, which shares the storage; different diagonals
have no position in common, those that begin in the matrix have all positions between them, and
those that do not are empty. A write to a diagonal changes the elements on it and nothing else. -/
theorem diagonals_partition {cells : Array a.dt.Elem} {w : World}
    (hm : a.IsMatrix rows cols down right) (hrows : 0 < rows) (hcols : 0 < cols)
    (hbuf : a.Backed w.store cells) (hfits : (Buffer.mk a.dt cells).Fits)
    (hb : a.view.InBounds cells.size) (hd : a.view.Distinct) :
    (∀ k, ∃ d, a.diagonal k = .ok d ∧ IsDiagonal a rows cols k cells.size d ∧ d.view.Distinct) ∧
    (∀ k k' d d', a.diagonal k = .ok d → a.diagonal k' = .ok d' → k ≠ k' →
      d.view.positions.Disjoint d'.view.positions) ∧
    (∀ p, p ∈ a.view.positions ↔ ∃ k d, -((rows : Int) - 1) ≤ k ∧ k ≤ (cols : Int) - 1 ∧
      a.diagonal k = .ok d ∧ p ∈ d.view.positions) ∧
    (∀ k d, a.diagonal k = .ok d → k < -((rows : Int) - 1) ∨ (cols : Int) - 1 < k →
      d.shape = ⟨[0]⟩ ∧ d.view.positions = []) ∧
    ∀ k d items, a.diagonal k = .ok d → items.length = (Diagonal.cells rows cols k).length →
      ∃ w' cells', d.assign a.dt items w = (.ok (), w') ∧ a.Backed w'.store cells' ∧
        cells'.size = cells.size ∧
        (∀ i < rows, ∀ j < cols, a.view.element? cells' [i, j]
          = if (j : Int) - i = k then items[min i j]? else a.view.element? cells [i, j]) ∧
        w.store.ChangedOnly d.Covers w'.store := by
  have hdims : a.view.shape.dims = [rows, cols] := congrArg Shape.dims hm.shape_eq
  have hsize : cells.size < signedBound := hfits.size_lt
  have hword := signedBound_lt_sizeBound
  -- the first element lies at the offset
  -- there is only one outcome of `diagonal`, so every diagonal is the one that has been found
  have hoffset : a.view.offset < cells.size := by
    refine hb.offset_lt ?_
    rw [hdims]
    simp [hrows, hcols]
  -- a diagonal is no longer than the matrix is large
  have hcount : ∀ k, lengthOf rows cols k < sizeBound := by
    intro k
    have hvolume : rows * (cols * 1) ≤ cells.size := by
      have hle := View.volume_le_of_distinct hd hb
      rwa [hdims] at hle
    have hrow : rows ≤ rows * (cols * 1) := by
      rw [Nat.mul_one]
      exact Nat.le_mul_of_pos_right rows hcols
    unfold lengthOf
    omega
  have hfound : ∀ k, ∃ d, a.diagonal k = .ok d ∧ IsDiagonal a rows cols k cells.size d := fun k =>
    exists_diagonal hm hb hsize.le (by omega) k (hcount k)
  have hof : ∀ k d, a.diagonal k = .ok d → IsDiagonal a rows cols k cells.size d := by
    intro k d h
    obtain ⟨d', h', hdiagonal⟩ := hfound k
    obtain rfl := Except.ok.inj (h.symm.trans h')
    exact hdiagonal
  refine ⟨fun k => ?_, fun k k' d d' h h' hk => ?_, fun p => ⟨fun hp => ?_, ?_⟩,
    fun k d h hk => ?_, fun k d items h hlen => ?_⟩
  · obtain ⟨d, h, hdiagonal⟩ := hfound k
    exact ⟨d, h, hdiagonal, hdiagonal.distinct hd⟩
  · exact (hof k d h).disjoint hd hm.shape_eq (hof k' d' h') hk
  · -- every cell is on the diagonal that its indices tell
    obtain ⟨i, j, hi, hj, rfl⟩ := (mem_positions_of_shape hm.shape_eq).1 hp
    obtain ⟨d, h, hdiagonal⟩ := hfound ((j : Int) - i)
    exact ⟨(j : Int) - i, d, by omega, by omega, h,
      hdiagonal.mem_positions.2 ⟨i, j, hi, hj, rfl, rfl⟩⟩
  · rintro ⟨k, d, -, -, h, hp⟩
    obtain ⟨i, j, hi, hj, -, rfl⟩ := (hof k d h).mem_positions.1 hp
    exact (mem_positions_of_shape hm.shape_eq).2 ⟨i, j, hi, hj, rfl⟩
  · -- the number lies outside the matrix, and no cell has it
    have hnone : Diagonal.cells rows cols k = [] := Diagonal.cells_eq_nil (by omega)
    have hdiagonal := hof k d h
    rw [hdiagonal.shape_eq, hdiagonal.positions_eq, hnone]
    exact ⟨rfl, rfl⟩
  · exact (hof k d h).exists_assign hbuf hfits hm.shape_eq hb hd hlen

/-- Three rows of two numbers, one column after the other, each of them upside down. -/
def upsideDown : NDArray := ⟨0, ⟨⟨[3, 2]⟩, ⟨[-1, 3]⟩, 2⟩, .i32, .host⟩

/-- A write to the diagonal below the main one. -/
theorem diagonals_partition_upsideDown :
    upsideDown.IsMatrix 3 2 (-1) 3 ∧ upsideDown.Backed (counting 6).store (countTo 6) ∧
      (Buffer.mk .i32 (countTo 6)).Fits ∧ upsideDown.view.InBounds 6 ∧ upsideDown.view.Distinct ∧
      ∃ d w' cells', upsideDown.diagonal (-1) = .ok d ∧ d.view.positions = [1, 3] ∧
        d.assign .i32 [7, 8] (counting 6) = (.ok (), w') ∧ upsideDown.Backed w'.store cells' ∧
        upsideDown.view.element? cells' [2, 1] = some (8 : Int32) ∧
        upsideDown.view.element? cells' [2, 0] = some (1 : Int32) := by
  have hm : upsideDown.IsMatrix 3 2 (-1) 3 := ⟨rfl, rfl, by decide, by decide, by decide⟩
  have hbuf : upsideDown.Backed (counting 6).store (countTo 6) := rfl
  have hfits : (Buffer.mk .i32 (countTo 6)).Fits := by decide
  have hb : upsideDown.view.InBounds 6 := by
    unfold View.InBounds
    decide
  have hd : upsideDown.view.Distinct := by
    unfold View.Distinct
    decide
  obtain ⟨hfound, -, -, -, hwrite⟩ :=
    diagonals_partition hm (by decide) (by decide) hbuf hfits hb hd
  obtain ⟨d, h, hdiagonal, -⟩ := hfound (-1)
  obtain ⟨w', cells', hassign, hback, -, helements, -⟩ := hwrite (-1) d ([7, 8] : List Int32) h rfl
  exact ⟨hm, hbuf, hfits, hb, hd, d, w', cells', h, hdiagonal.positions_eq, hassign, hback,
    helements 2 (by decide) 1 (by decide), helements 2 (by decide) 0 (by decide)⟩

end NDArray

end Strided
