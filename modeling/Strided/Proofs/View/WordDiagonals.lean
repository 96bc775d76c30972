import Strided.Proofs.View.Composition
import Strided.Proofs.View.DiagonalCells

/-!
# Diagonals of matrices that words cannot count

The strides of a gapless matrix are computed from its sizes read as signed words, and so is the way
down to the first cell of a diagonal below the main one. A number of columns from `2 ^ 63` on is a
negative distance then. The arithmetic catches this only where a result is no signed word
(`Representable`), and where none is caught the window is `wordWindow`.

It always has as many places as the diagonal has cells. Where they lie is another matter
(`locates_wordWindow_iff`): two cells of one diagonal are a row apart, so that the number of columns
has to be what it is read as, and the same holds of a single cell if there are rows above it. Only a
single cell of the first row has nothing to do with it.
-/

namespace Strided.Diagonal

variable {rows cols : Nat} {k : Int}

/-- **The window has the cells of a diagonal at its places**, in a gapless matrix. -/
structure Window.Locates (w : Window) (rows cols : Nat) (k : Int) : Prop where
  length_eq : w.length = (cells rows cols k).length
  place_eq : ∀ t i j : Nat, (cells rows cols k)[t]? = some (i, j) →
    w.start + t * w.stride = i * cols + j
  start_eq : cells rows cols k = [] → w.start = 0

/-! ### Locating in words -/

/-- The way to the first cell of a diagonal, with the sizes read as signed words. -/
def wordStart (cols : Nat) (k : Int) : Int := toSigned (-k).toNat * toSigned cols + k.toNat

/-- **The results on the way to a window** that have to be signed words. -/
structure Representable (rows cols : Nat) (k : Int) : Prop where
  block : SignedWord (toSigned cols * toSigned rows)
  stride : SignedWord (toSigned cols + 1)
  start : lengthOf rows cols k ≠ 0 → SignedWord (wordStart cols k)

/-- The window that is found if they are. -/
def wordWindow (rows cols : Nat) (k : Int) : Window where
  start := if lengthOf rows cols k = 0 then 0 else wordStart cols k
  length := lengthOf rows cols k
  stride := toSigned cols + 1

/-- The strides of a gapless matrix. The whole block is measured although no stride is as long. -/
theorem rowMajor_matrix (rows cols : Nat) : Strides.rowMajor ⟨[rows, cols]⟩ = do
    let _ ← checkSigned (toSigned cols * toSigned rows)
    return ⟨[toSigned cols, 1]⟩ := by
  -- the later axis comes first, and its block is the number of columns
  have hline : Strides.rowMajorBlock [cols] = .ok (toSigned cols, [1]) := by
    rw [Strides.rowMajorBlock, Strides.rowMajorBlock, Checked.ok_bind]
    dsimp only
    rw [Int.one_mul, (signedWord_toSigned cols).check_eq]
    rfl
  rw [Strides.rowMajor, Strides.rowMajorBlock, hline, Checked.ok_bind]
  dsimp only
  rcases checkSigned_cases (toSigned cols * toSigned rows) with h | h
  · rw [h]
    simp only [Checked.ok_bind, Checked.pure_eq]
  · rw [h]
    rfl

/-- A window from the first cell on, once the way there is known. -/
theorem windowFrom_eq {first length : Nat} {stride step start : Int}
    (h : toSigned first * step = start) (hzero : length = 0 → SignedWord start) :
    windowFrom stride first step length = if length = 0 then .ok ⟨0, 0, stride⟩ else do
      return ⟨← checkSigned start, length, stride⟩ := by
  rw [windowFrom, h]
  by_cases hlen : length = 0
  · rw [if_pos hlen, (hzero hlen).check_eq, Checked.ok_bind, if_pos hlen]
    rfl
  · rw [if_neg hlen]
    simp only [if_neg hlen]

/-- The step along a diagonal is taken first. -/
theorem window_of_not_stride {down right : Int} (h : ¬SignedWord (down + right)) :
    window ⟨[rows, cols]⟩ ⟨[down, right]⟩ k = .error (.fault .overflow) := by
  rw [window]
  simp only [Answer.liftM_checked, checkSigned_of_not h, Checked.lift_error, Checked.error_bind]

/-- **The window of a diagonal of a gapless matrix**, whatever its sizes are. -/
theorem window_matrix (hk : SignedWord k) (hstride : SignedWord (toSigned cols + 1)) :
    window ⟨[rows, cols]⟩ ⟨[toSigned cols, 1]⟩ k =
      Checked.lift (if lengthOf rows cols k = 0 then .ok ⟨0, 0, toSigned cols + 1⟩ else do
        return ⟨← checkSigned (wordStart cols k), lengthOf rows cols k, toSigned cols + 1⟩) := by
  rw [window]
  simp only [Answer.liftM_checked, hstride.check_eq, Checked.lift_ok, Checked.ok_bind]
  by_cases hnonneg : 0 ≤ k
  · -- the way along the first row is exact
    have hway : toSigned k.natAbs * 1 = wordStart cols k := by
      have hlt : k.natAbs < signedBound := by have := hk.2; omega
      have hrow : (-k).toNat = 0 := by omega
      have hcol : (k.natAbs : Int) = k.toNat := by omega
      rw [wordStart, hrow, toSigned_of_lt hlt, hcol, toSigned_of_lt (by decide)]
      simp
    have hlen := lengthOf_of_nonneg hnonneg rows cols
    rw [if_pos hnonneg]
    by_cases hcols : cols ≤ k.natAbs
    · rw [if_pos hcols, hlen, Nat.sub_eq_zero_of_le hcols, Nat.min_zero, if_pos rfl]
      rfl
    · rw [if_neg hcols, ← hlen, windowFrom_eq hway fun _ => ?_]
      rw [← hway, Int.mul_one]
      exact signedWord_toSigned _
  · -- below the main diagonal the way is as many rows, in words
    have hway : toSigned k.natAbs * toSigned cols = wordStart cols k := by
      have hrow : (-k).toNat = k.natAbs := by omega
      have hcol : k.toNat = 0 := by omega
      rw [wordStart, hrow, hcol, Int.natCast_zero, Int.add_zero]
    have hlen := lengthOf_of_neg (Int.not_le.1 hnonneg) rows cols
    rw [if_neg hnonneg]
    by_cases hrows : rows ≤ k.natAbs
    · rw [if_pos hrows, hlen, Nat.sub_eq_zero_of_le hrows, Nat.min_zero, if_pos rfl]
      rfl
    · rw [if_neg hrows, ← hlen, windowFrom_eq hway fun hzero => ?_]
      -- without columns there is no way to go
      have hnone : cols = 0 := by omega
      have hread : toSigned 0 = 0 := by decide
      rw [← hway, hnone, hread, Int.mul_zero]
      decide

/-! ### Where the places lie -/

theorem length_wordWindow (rows cols : Nat) (k : Int) :
    (wordWindow rows cols k).length = (cells rows cols k).length := (length_cells rows cols k).symm

/-- The places are right if the way down to every cell is what the words say. -/
theorem locates_wordWindow :
    (wordWindow rows cols k).Locates rows cols k ↔ ∀ t < lengthOf rows cols k,
      toSigned (-k).toNat * toSigned cols + t * toSigned cols
        = ((-k).toNat + t : Nat) * (cols : Int) := by
  constructor
  · intro h t ht
    have hplace := h.place_eq t _ _ (cells_at ht)
    have hpos : lengthOf rows cols k ≠ 0 := Nat.ne_of_gt (Nat.zero_lt_of_lt ht)
    rw [wordWindow, if_neg hpos, wordStart] at hplace
    push_cast at hplace ⊢
    linarith
  · intro h
    refine ⟨length_wordWindow rows cols k, fun t i j hget => ?_, fun hnone => ?_⟩
    · obtain ⟨ht, rfl, rfl⟩ := of_cells_at hget
      have hpos : lengthOf rows cols k ≠ 0 := Nat.ne_of_gt (Nat.zero_lt_of_lt ht)
      have hrow := h t ht
      rw [wordWindow, if_neg hpos, wordStart]
      push_cast at hrow ⊢
      linarith
    · -- without cells the window starts at zero
      have hzero : lengthOf rows cols k = 0 := by rw [← length_cells, hnone, List.length_nil]
      rw [wordWindow, if_pos hzero]

/-- **`2 ^ 63` rows are read as `-2 ^ 63`**, and there is no word for the way down. -/
theorem ne_of_first (h : Representable rows cols k) (hlen : lengthOf rows cols k ≠ 0)
    (hneg : k < 0) (hfirst : toSigned (-k).toNat * toSigned cols = (-k).toNat * (cols : Int)) :
    k ≠ -signedBound := by
  rintro rfl
  -- there is a cell, so there is a column
  have hcols : 0 < cols := by
    rw [lengthOf_of_neg hneg] at hlen
    omega
  have hword := h.start hlen
  have hread : toSigned (-(-(signedBound : Int))).toNat = -signedBound := by decide
  have hrows : (-(-(signedBound : Int))).toNat = signedBound := by decide
  have hright : (-(signedBound : Int)).toNat = 0 := by decide
  rw [wordStart, hread, hright] at hword
  rw [hread, hrows] at hfirst
  unfold SignedWord at hword
  unfold signedBound at hword hfirst
  -- a product of `-2 ^ 63` and a positive number is not the positive one
  omega

/-- **When the places are right**: if there are no cells or only one of the first row, or else if
the number of columns is what it is read as, and so is that of the rows above. -/
theorem locates_wordWindow_iff (hk : SignedWord k) (h : Representable rows cols k) :
    (wordWindow rows cols k).Locates rows cols k ↔
      lengthOf rows cols k = 0 ∨ (0 ≤ k ∧ lengthOf rows cols k = 1) ∨
        (cols < signedBound ∧ k ≠ -signedBound) := by
  rw [locates_wordWindow]
  constructor
  · intro hrow
    by_cases hzero : lengthOf rows cols k = 0
    · exact .inl hzero
    have hfirst := hrow 0 (Nat.pos_of_ne_zero hzero)
    rw [Nat.add_zero, Int.natCast_zero, Int.zero_mul, Int.add_zero] at hfirst
    -- it is enough that the columns are read as what they are
    have hcolumns : toSigned cols = cols → cols < signedBound := by
      intro heq
      have := (signedWord_toSigned cols).2
      omega
    by_cases hnonneg : 0 ≤ k
    · by_cases hone : lengthOf rows cols k = 1
      · exact .inr (.inl ⟨hnonneg, hone⟩)
      · -- two cells of the diagonal are a row apart, and that row is read as it is
        have hsecond := hrow 1 (by omega)
        refine .inr (.inr ⟨hcolumns ?_, by unfold signedBound; omega⟩)
        push_cast at hsecond
        linarith
    · have hmin := ne_of_first h hzero (Int.not_le.1 hnonneg) hfirst
      refine .inr (.inr ⟨hcolumns ?_, hmin⟩)
      have hlt : (-k).toNat < signedBound := by have := hk.1; omega
      rw [toSigned_of_lt hlt] at hfirst
      exact Int.eq_of_mul_eq_mul_left (by omega) hfirst
  · intro hcases t ht
    rcases hcases with hzero | ⟨hnonneg, hone⟩ | ⟨hcols, hmin⟩
    · omega
    · -- the only cell lies in the first row, so no row is counted
      obtain rfl : t = 0 := by omega
      have hrow : (-k).toNat = 0 := by omega
      rw [hrow, toSigned_of_lt (by decide)]
      simp
    · -- both factors are read as what they are
      have hlt : (-k).toNat < signedBound := by have := hk.1; omega
      rw [toSigned_of_lt hcols, toSigned_of_lt hlt]
      push_cast
      ring

/-- A matrix whose elements a signed word counts, and its columns with one more, is represented. -/
theorem representable_of_small (hblock : rows * cols < signedBound)
    (hcols : cols + 1 < signedBound) (k : Int) : Representable rows cols k := by
  have hread : toSigned cols = cols := toSigned_of_lt (by omega)
  refine ⟨?_, ?_, fun hlen => ?_⟩
  · rcases Nat.eq_zero_or_pos cols with rfl | hpos
    · rw [hread, Int.natCast_zero, Int.zero_mul]
      decide
    · -- with a column there are no more rows than elements
      have hrows : rows < signedBound :=
        lt_of_le_of_lt (Nat.le_mul_of_pos_right rows hpos) hblock
      rw [hread, toSigned_of_lt hrows]
      exact .of_natAbs (by rw [← Int.natCast_mul, Int.natAbs_natCast, Nat.mul_comm]; exact hblock)
  · rw [hread]
    exact .of_natAbs (by omega)
  · -- the first cell lies in the block
    have hrow : (-k).toNat < rows := by unfold lengthOf at hlen; omega
    have hcol : k.toNat < cols := by unfold lengthOf at hlen; omega
    have hrows : rows < signedBound :=
      lt_of_le_of_lt (Nat.le_mul_of_pos_right rows (Nat.zero_lt_of_lt hcol)) hblock
    have hplace : (-k).toNat * cols + k.toNat < rows * cols := calc
      (-k).toNat * cols + k.toNat < (-k).toNat * cols + cols := Nat.add_lt_add_left hcol _
      _ = ((-k).toNat + 1) * cols := (Nat.succ_mul _ _).symm
      _ ≤ rows * cols := Nat.mul_le_mul_right cols hrow
    rw [wordStart, hread, toSigned_of_lt (hrow.trans hrows)]
    exact .of_natAbs (by exact_mod_cast hplace.trans hblock)

/-- In a matrix that can be counted the places are right. -/
theorem locates_of_small (hblock : rows * cols < signedBound) (hcols : cols + 1 < signedBound)
    (hk : SignedWord k) : (wordWindow rows cols k).Locates rows cols k := by
  rw [locates_wordWindow_iff hk (representable_of_small hblock hcols k)]
  by_cases hmin : k = -signedBound
  · -- a diagonal as far down as that has no cells in so small a matrix
    have hrows : cols = 0 ∨ rows < signedBound := by
      rcases Nat.eq_zero_or_pos cols with hzero | hpos
      · exact .inl hzero
      · exact .inr (lt_of_le_of_lt (Nat.le_mul_of_pos_right rows hpos) hblock)
    have hrow : (-k).toNat = signedBound := by
      rw [hmin]
      rfl
    refine .inl ?_
    unfold lengthOf
    omega
  · exact .inr (.inr ⟨Nat.lt_of_succ_lt hcols, hmin⟩)

end Strided.Diagonal
