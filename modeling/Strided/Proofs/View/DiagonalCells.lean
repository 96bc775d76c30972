import Strided.Proofs.View.Parts
import Mathlib.Data.List.Sort
import Mathlib.Data.Prod.Lex

/-!
# The cells of a diagonal

The `k`-th diagonal of a matrix has the cells `(i, j)` with `j - i = k`. `Diagonal.cells` lists
them as that says, out of all cells and row by row, and `Diagonal.window_enumerates` is what the
window of a diagonal has to do with them: it is as long as the list, and its `t`-th place is where
the `t`-th cell lies.

The window is found in two ways that look different, above the main diagonal and below it. In
between stands the closed form of the list, `Diagonal.cells_eq`, which knows no such cases: the
rows begin with the `-k`-th and the columns with the `k`-th, a negative number being read as zero.
Both lists are in row-major order, so that they are equal as soon as they have the same members.
-/

namespace Strided.Diagonal

/-- **The cells on the `k`-th diagonal** of a matrix, row by row. -/
def cells (rows cols : Nat) (k : Int) : List (Nat × Nat) :=
  (List.range rows).flatMap fun i : Nat =>
    ((List.range cols).filter fun j : Nat => (j : Int) - (i : Int) = k).map fun j => (i, j)

variable {rows cols i j t : Nat} {down right k : Int}

/-- A cell is on the `k`-th diagonal if it lies `k` columns further right than it lies down. -/
theorem mem_cells : (i, j) ∈ cells rows cols k ↔ i < rows ∧ j < cols ∧ (j : Int) - i = k := by
  simp [cells]

/-- The cells are listed in row-major order. -/
theorem pairwise_cells (rows cols : Nat) (k : Int) :
    (cells rows cols k).Pairwise (Prod.Lex (· < ·) (· < ·)) := by
  rw [cells, List.pairwise_flatMap]
  constructor
  · -- within a row the columns increase
    intro i _
    rw [List.pairwise_map]
    exact (List.pairwise_lt_range.filter _).imp fun hlt => .right _ hlt
  · -- and every cell of a later row comes later
    apply List.pairwise_lt_range.imp
    intro i i' hlt p hp q hq
    obtain ⟨j, -, rfl⟩ := List.mem_map.1 hp
    obtain ⟨j', -, rfl⟩ := List.mem_map.1 hq
    exact .left _ _ hlt

/-- **The cells in closed form**: from the first row and column on that belong together, as far
as there are rows and columns. -/
theorem cells_eq (rows cols : Nat) (k : Int) : cells rows cols k
    = (List.range (lengthOf rows cols k)).map fun t => ((-k).toNat + t, k.toNat + t) := by
  have hright : ((List.range (lengthOf rows cols k)).map fun t =>
      ((-k).toNat + t, k.toNat + t)).Pairwise (Prod.Lex (· < ·) (· < ·)) := by
    rw [List.pairwise_map]
    exact List.pairwise_lt_range.imp fun hlt => .left _ _ (Nat.add_lt_add_left hlt _)
  -- two lists in the same order are equal if they have the same members
  refine (pairwise_cells rows cols k).eq_of_mem_iff hright fun ⟨i, j⟩ => ?_
  rw [mem_cells, List.mem_map]
  constructor
  · rintro ⟨hi, hj, hk⟩
    -- the rows above the cell, counted from the first row of the diagonal
    refine ⟨i - (-k).toNat, List.mem_range.2 ?_, Prod.ext ?_ ?_⟩
    · unfold lengthOf
      omega
    · show (-k).toNat + (i - (-k).toNat) = i
      omega
    · show k.toNat + (i - (-k).toNat) = j
      omega
  · rintro ⟨t, ht, heq⟩
    obtain ⟨rfl, rfl⟩ := Prod.mk.inj heq
    have hlt := List.mem_range.1 ht
    unfold lengthOf at hlt
    omega

theorem length_cells (rows cols : Nat) (k : Int) :
    (cells rows cols k).length = lengthOf rows cols k := by
  rw [cells_eq, List.length_map, List.length_range]

/-- **The `t`-th cell** lies `t` rows and `t` columns from the first. -/
theorem cells_at (ht : t < lengthOf rows cols k) :
    (cells rows cols k)[t]? = some ((-k).toNat + t, k.toNat + t) := by
  rw [cells_eq, List.getElem?_map, List.getElem?_range ht, Option.map_some]

theorem of_cells_at (h : (cells rows cols k)[t]? = some (i, j)) :
    t < lengthOf rows cols k ∧ i = (-k).toNat + t ∧ j = k.toNat + t := by
  have ht : t < lengthOf rows cols k := by
    rw [← length_cells]
    exact (List.getElem?_eq_some_iff.1 h).1
  exact ⟨ht, Prod.mk.inj (Option.some.inj (h.symm.trans (cells_at ht)))⟩

/-- The number of cells, by the side of the main diagonal that they lie on. -/
theorem lengthOf_eq (rows cols : Nat) (k : Int) : (lengthOf rows cols k : Int)
    = if 0 ≤ k then max 0 (min (rows : Int) (cols - k))
      else max 0 (min (rows + k) (cols : Int)) := by
  unfold lengthOf
  split
  · omega
  · omega

/-- **The window has the cells of a diagonal at its places**, in a matrix with these strides. -/
structure Window.Enumerates (w : Window) (rows cols : Nat) (down right k : Int) : Prop where
  stride_eq : w.stride = down + right
  length_eq : w.length = (cells rows cols k).length
  count_eq : (w.length : Int) = if 0 ≤ k then max 0 (min (rows : Int) (cols - k))
    else max 0 (min (rows + k) (cols : Int))
  place_eq : ∀ t i j : Nat, (cells rows cols k)[t]? = some (i, j) →
    w.start + t * w.stride = i * down + j * right
  start_eq : cells rows cols k = [] → w.start = 0

/-- A window of the right length that begins at the first cell enumerates the cells. -/
theorem Window.enumerates_of_start {start : Int} (h : start = if lengthOf rows cols k = 0 then 0
      else displacement (indexOf k [0]) [down, right]) :
    Window.Enumerates ⟨start, lengthOf rows cols k, down + right⟩ rows cols down right k where
  stride_eq := rfl
  length_eq := (length_cells rows cols k).symm
  count_eq := lengthOf_eq rows cols k
  place_eq t i j hcell := by
    -- the `t`-th cell lies `t` cells from the first one
    obtain ⟨hlt, rfl, rfl⟩ := of_cells_at hcell
    -- every step along the diagonal goes down one row and right one column
    rw [if_neg (Nat.ne_of_gt (Nat.zero_lt_of_lt hlt)), displacement_indexOf] at h
    rw [h]
    push_cast
    ring
  start_eq hnone := by
    have hzero : lengthOf rows cols k = 0 := by rw [← length_cells, hnone, List.length_nil]
    rw [h, if_pos hzero]

/-- **The window of a diagonal enumerates its cells.** A matrix with strides whose sum is a
signed word, along axes whose lengths in either direction are signed words, has a window for every
diagonal: it has as many places as there are cells on the diagonal, the `t`-th place is that of
the `t`-th cell, and if there are no cells it starts at zero. What has not two sizes and two
strides is refused, and the refusal names the number of sizes if that is wrong, and that of
strides if not. -/
theorem window_enumerates :
    (∀ (rows cols : Nat) (down right k : Int), SignedWord (down + right) →
      rows * down.natAbs < signedBound → cols * right.natAbs < signedBound →
      ∃ w, window ⟨[rows, cols]⟩ ⟨[down, right]⟩ k = .ok w ∧
        w.Enumerates rows cols down right k) ∧
    ∀ (shape : Shape) (strides : Strides) (k : Int),
      (shape.dims.length ≠ 2 →
        window shape strides k = reject (.diagonal (.notMatrix shape.dims.length))) ∧
      (shape.dims.length = 2 → strides.steps.length ≠ 2 →
        window shape strides k = reject (.diagonal (.notMatrix strides.steps.length))) := by
  constructor
  · intro rows cols down right k hsum hdown hright
    -- along axes of that length every way is a signed word
    have hover : window ⟨[rows, cols]⟩ ⟨[down, right]⟩ k ≠ .error (.fault .overflow) :=
      window_ne_overflow hsum (fun hk => (exact_way hright hk.le).2)
        (fun hk => (exact_way hdown hk.le).2)
    rcases window_cases (fun _ _ hj => (exact_way hright hj.le).1)
      (fun _ _ hi => (exact_way hdown hi.le).1) k with hf | ⟨start, hw, hstart⟩
    · exact absurd hf hover
    · exact ⟨_, hw, Window.enumerates_of_start hstart⟩
  · exact fun shape strides k => ⟨fun h => window_of_rank_ne h strides k,
      fun hrank h => window_of_strides_ne hrank h k⟩

/-- The diagonal below the main one, of three rows of two cells each. -/
theorem window_enumerates_below :
    SignedWord (2 + 1) ∧ 3 * (2 : Int).natAbs < signedBound ∧ 2 * (1 : Int).natAbs < signedBound ∧
      ∃ w, window ⟨[3, 2]⟩ ⟨[2, 1]⟩ (-1) = .ok w ∧ w.Enumerates 3 2 2 1 (-1) := by
  have hsum : SignedWord (2 + 1) := by decide
  have hdown : 3 * (2 : Int).natAbs < signedBound := by decide
  have hright : 2 * (1 : Int).natAbs < signedBound := by decide
  exact ⟨hsum, hdown, hright, window_enumerates.1 3 2 2 1 (-1) hsum hdown hright⟩

end Strided.Diagonal
