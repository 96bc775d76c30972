import Strided.Product
import Strided.Proofs.NDArray.Access
import Strided.Proofs.Numeric
import Strided.Proofs.View.Consecutive
import Strided.Proofs.View.Places

/-!
# Products of blocks, entry by entry

There are four products of blocks, for vectors and matrices on either side. In terms of
multi-indices they are one: a first block with the axes `lead` and, last, an axis of `p` elements, a
second block with an axis of `p` elements and then the axes `trail`, and an entry for every
multi-index of `lead` followed by one of `trail`. The entry is the sum of `p` products
(`Dense.terms`). On the side of a vector there are no such axes.

`Dense.HasSums` says this of a block of integers. What the products have in common is that they
tabulate their entries (`Dense.exists_tabulate`), so what is left for each is to find its row, its
column and its way to sum products.
-/

namespace Strided

open Shape Strides Numeric

/-- A computation that gives a result for every item is mapped over all of them. -/
theorem exists_mapM {α β ε : Type} {f : α → Except ε β} {as : List α}
    (h : ∀ a ∈ as, ∃ b, f a = .ok b) :
    ∃ bs, as.mapM f = .ok bs ∧ List.Forall₂ (fun a b => f a = .ok b) as bs := by
  induction as with
  | nil => exact ⟨[], rfl, .nil⟩
  | cons a as ih =>
    obtain ⟨b, hb⟩ := h a List.mem_cons_self
    obtain ⟨bs, hbs, hall⟩ := ih fun a ha => h a (List.mem_cons_of_mem _ ha)
    refine ⟨b :: bs, ?_, .cons hb hall⟩
    rw [List.mapM_cons, hb, Checked.ok_bind, hbs]
    rfl

namespace Dense

variable {dt : DType} {N : Numeric dt.Elem} {value : dt.Elem → Int} {bound m p n i j : Nat}
  {lead trail : List Nat} {x y : List Nat → dt.Elem} {a b : Dense dt.Elem}

/-- **The products that an entry is the sum of.** -/
def terms (x y : List Nat → Int) (p : Nat) (i j : List Nat) : List Int :=
  (List.range p).map fun l => x (i ++ [l]) * y (l :: j)

/-- **The block has sums as entries**, one for every multi-index of the axes `lead` followed by one
of the axes `trail`. -/
structure HasSums (value : dt.Elem → Int) (lead trail : List Nat)
    (terms : List Nat → List Nat → List Int) (d : Dense dt.Elem) : Prop where
  shape_eq : d.shape = ⟨lead ++ trail⟩
  size_eq : d.items.size = volume (lead ++ trail)
  entry_eq : ∀ i j, Within i lead → Within j trail → ∃ z,
    d.items[place (lead ++ trail) (i ++ j)]? = some z ∧ value z = (terms i j).sum

/-- **There is room for all partial sums.** -/
def Fit (lead trail : List Nat) (terms : List Nat → List Nat → List Int) (bound : Nat) : Prop :=
  ∀ i j, Within i lead → Within j trail → magnitude (terms i j) ≤ bound

/-! ### Tables -/

/-- **A table has the sums as entries** if every row and column gives one. -/
theorem exists_tabulate {sums : List Nat → List Nat → List Int} {shape : Shape} {rows cols : Nat}
    {entry : Nat → Nat → Checked dt.Elem}
    (hrows : rows = volume lead) (hcols : cols = volume trail) (hshape : shape = ⟨lead ++ trail⟩)
    (hroom : dt.bytes * volume (lead ++ trail) < signedBound)
    (hentry : ∀ i j, Within i lead → Within j trail → ∃ z,
      entry (place lead i) (place trail j) = .ok z ∧ value z = (sums i j).sum) :
    ∃ d, tabulate dt rows cols shape entry = .ok d ∧ HasSums value lead trail sums d := by
  subst hrows hcols hshape
  rw [volume_append] at hroom
  have hsize : checkSize (volume lead * volume trail) = .ok (volume lead * volume trail) :=
    checkSize_eq_ok_iff.2 ⟨(DType.count_lt hroom).trans signedBound_lt_sizeBound, rfl⟩
  -- every number below the count is the place of an entry
  have hcell : ∀ t ∈ List.range (volume lead * volume trail),
      ∃ z, entry (t / volume trail) (t % volume trail) = .ok z := by
    intro t ht
    rw [List.mem_range] at ht
    have hpos : 0 < volume trail := Nat.pos_of_ne_zero fun h => by simp [h] at ht
    obtain ⟨i, hi, hplace⟩ := exists_place_eq (Nat.div_lt_of_lt_mul (by rwa [Nat.mul_comm] at ht))
    obtain ⟨j, hj, hplace'⟩ := exists_place_eq (Nat.mod_lt t hpos)
    obtain ⟨z, hz, -⟩ := hentry i j hi hj
    exact ⟨z, by rw [← hplace, ← hplace', hz]⟩
  obtain ⟨items, hitems, hall⟩ := exists_mapM hcell
  have hlen : items.length = volume lead * volume trail :=
    hall.length_eq.symm.trans List.length_range
  refine ⟨⟨⟨lead ++ trail⟩, items.toArray⟩, ?_, rfl, ?_, fun i j hi hj => ?_⟩
  · unfold tabulate
    rw [hsize, Checked.ok_bind, DType.checkCapacity_eq_ok_iff.2 hroom, Checked.ok_bind, hitems]
    rfl
  · rw [volume_append, ← hlen]
    rfl
  · have hlt : place (lead ++ trail) (i ++ j) < items.length := by
      rw [hlen, ← volume_append]
      exact place_lt (hi.append hj)
    -- so the table is read like the range it was made from
    have hget := (List.forall₂_iff_get.1 hall).2 _ (by rwa [hall.length_eq]) hlt
    obtain ⟨z, hz, hvalue⟩ := hentry i j hi hj
    -- the place is taken apart again into row and column
    have hj' : place trail j < volume trail := place_lt hj
    have hrow : place (lead ++ trail) (i ++ j) / volume trail = place lead i := by
      rw [place_append hi, Nat.add_comm, Nat.add_mul_div_right _ _ (by omega),
        Nat.div_eq_of_lt hj', Nat.zero_add]
    have hcolumn : place (lead ++ trail) (i ++ j) % volume trail = place trail j := by
      rw [place_append hi, Nat.mul_add_mod_of_lt hj']
    rw [List.get_eq_getElem, List.getElem_range, hrow, hcolumn, hz] at hget
    refine ⟨z, ?_, hvalue⟩
    rw [List.getElem?_toArray, List.getElem?_eq_getElem hlt]
    exact congrArg some (Except.ok.inj hget).symm

/-- Without the memory there is no table. -/
theorem tabulate_of_no_room {entry : Nat → Nat → Checked dt.Elem} {shape : Shape}
    (hsize : m * n < sizeBound) (hroom : ¬dt.bytes * (m * n) < signedBound) :
    tabulate dt m n shape entry = .error .capacity := by
  unfold tabulate
  rw [checkSize_eq_ok_iff.2 ⟨hsize, rfl⟩, Checked.ok_bind, DType.checkCapacity_eq_error hroom]
  rfl

/-! ### Rows and columns -/

/-- The row of a matrix lies in the block in one piece, from the place of its first element on. -/
theorem row_eq (hx : Spells [m, p] x a.items.toList) (hi : i < m) :
    a.row p i = (List.range p).map fun l => x [i, l] := by
  have hsize : a.items.size = m * p := by
    rw [← Array.length_toList, hx.length_eq, volume_cons, volume_cons, volume_nil, Nat.mul_one]
  -- the row ends where the block does, or before
  have hend : (i + 1) * p ≤ m * p := Nat.mul_le_mul_right _ hi
  rw [Nat.succ_mul] at hend
  refine eq_map_range ?_ fun l hl => ?_
  · rw [row, Array.length_toList, Array.size_extract, hsize, Nat.succ_mul]
    omega
  · have hget := hx.get_eq [i, l] ⟨hi, hl, trivial⟩
    simp only [place_cons, place_nil, volume_cons, volume_nil, Nat.mul_one, Nat.add_zero,
      Array.getElem?_toList] at hget
    rw [row, Array.getElem?_toList, Array.getElem?_extract, hsize, Nat.succ_mul,
      if_pos (by omega), hget]

/-- The elements of a column lie as far apart as the rows are long. -/
theorem column_eq (hy : Spells [p, n] y b.items.toList) (z : dt.Elem) (hj : j < n) :
    b.column z p n j = (List.range p).map fun l => y [l, j] := by
  refine List.map_congr_left fun l hl => ?_
  have hget := hy.get_eq [l, j] ⟨List.mem_range.1 hl, hj, trivial⟩
  simp only [place_cons, place_nil, volume_cons, volume_nil, Nat.mul_one, Nat.add_zero,
    Array.getElem?_toList] at hget
  rw [Array.getD_eq_getD_getElem?, hget, Option.getD_some]

theorem line_eq (hx : Spells [p] x a.items.toList) :
    a.items.toList = (List.range p).map fun l => x [l] := by
  refine eq_map_range (by simpa using hx.length_eq) fun l hl => ?_
  simpa using hx.get_eq [l] ⟨hl, trivial⟩

/-- **A row and a column, summed up**, give an entry. -/
theorem exists_entry {f : List dt.Elem → List dt.Elem → Checked dt.Elem} {xs ys : List dt.Elem}
    {i j : List Nat} (hf : SumsProducts value bound f)
    (hxs : xs = (List.range p).map fun l => x (i ++ [l]))
    (hys : ys = (List.range p).map fun l => y (l :: j))
    (hfit : magnitude (terms (value ∘ x) (value ∘ y) p i j) ≤ bound) :
    ∃ z, f xs ys = .ok z ∧ value z = (terms (value ∘ x) (value ∘ y) p i j).sum ∧
      (value z).natAbs ≤ bound := by
  -- the pairs of factors are those of the terms
  have hterms : (xs.zip ys).map (product value) = terms (value ∘ x) (value ∘ y) p i j := by
    rw [hxs, hys, List.zip_map', List.map_map]
    rfl
  rw [← hterms] at hfit ⊢
  obtain ⟨z, hz, hvalue⟩ := hf xs ys hfit
  refine ⟨z, hz, hvalue, ?_⟩
  rw [hvalue]
  exact (natAbs_sum_le _).trans hfit

/-! ### The four products -/

section Products

variable (h : N.Exact value bound)

include h

/-- **A matrix times a matrix.** -/
theorem exists_matmul (hx : Spells [m, p] x a.items.toList) (hy : Spells [p, n] y b.items.toList)
    (hroom : dt.bytes * volume [m, n] < signedBound)
    (hfit : Fit [m] [n] (terms (value ∘ x) (value ∘ y) p) bound) :
    ∃ d, matmul N m p n a b = .ok d ∧
      HasSums value [m] [n] (terms (value ∘ x) (value ∘ y) p) d := by
  refine exists_tabulate (volume_singleton m).symm (volume_singleton n).symm rfl hroom
    fun i j hi hj => ?_
  obtain ⟨k, hk, rfl⟩ := within_singleton.1 hi
  obtain ⟨l, hl, rfl⟩ := within_singleton.1 hj
  rw [place_singleton, place_singleton]
  obtain ⟨t, ht, hvalue, hb⟩ := exists_entry h.sumsProducts_innerFused (row_eq hx hk)
    (column_eq hy N.zero hl) (hfit [k] [l] hi hj)
  -- what is stored is the sum times one
  obtain ⟨z, hz, hsame⟩ := h.one_mul hb
  exact ⟨z, by rw [ht, Checked.ok_bind, hz], hsame.trans hvalue⟩

/-- **A row times a matrix.** -/
theorem exists_vecMul (hx : Spells [p] x a.items.toList) (hy : Spells [p, n] y b.items.toList)
    (hroom : dt.bytes * volume [n] < signedBound)
    (hfit : Fit [] [n] (terms (value ∘ x) (value ∘ y) p) bound) :
    ∃ d, vecMul N p n a b = .ok d ∧ HasSums value [] [n] (terms (value ∘ x) (value ∘ y) p) d := by
  refine exists_tabulate rfl (volume_singleton n).symm rfl hroom fun i j hi hj => ?_
  obtain rfl := within_nil.1 hi
  obtain ⟨l, hl, rfl⟩ := within_singleton.1 hj
  rw [place_singleton]
  -- either way of summing is given the column first
  have hsum : SumsProducts value bound fun xs ys =>
      if n = 1 then N.innerByEight ys xs else N.inner ys xs := by
    split
    · exact h.sumsProducts_innerByEight.flip
    · exact h.sumsProducts_inner.flip
  obtain ⟨t, ht, hvalue, hb⟩ := exists_entry hsum (line_eq hx) (column_eq hy N.zero hl)
    (hfit [] [l] hi hj)
  obtain ⟨z, hz, hsame⟩ := h.mul_one hb
  refine ⟨z, ?_, hsame.trans hvalue⟩
  dsimp only at ht ⊢
  by_cases hone : n = 1
  · rw [if_pos hone] at ht ⊢
    rw [ht, Checked.ok_bind, hz]
  · rw [if_neg hone] at ht ⊢
    rw [ht, Checked.ok_bind, hz]

/-- **A matrix times a column.** -/
theorem exists_mulVec (hx : Spells [m, p] x a.items.toList) (hy : Spells [p] y b.items.toList)
    (hroom : dt.bytes * volume [m] < signedBound)
    (hfit : Fit [m] [] (terms (value ∘ x) (value ∘ y) p) bound) :
    ∃ d, mulVec N m p a b = .ok d ∧ HasSums value [m] [] (terms (value ∘ x) (value ∘ y) p) d := by
  refine exists_tabulate (volume_singleton m).symm rfl rfl hroom fun i j hi hj => ?_
  obtain ⟨k, hk, rfl⟩ := within_singleton.1 hi
  obtain rfl := within_nil.1 hj
  rw [place_singleton]
  obtain ⟨t, ht, hvalue, hb⟩ := exists_entry h.sumsProducts_innerByEight (row_eq hx hk)
    (line_eq hy) (hfit [k] [] hi hj)
  obtain ⟨z, hz, hsame⟩ := h.mul_one hb
  exact ⟨z, by rw [ht, Checked.ok_bind, hz], hsame.trans hvalue⟩

/-- **A row times a column.** -/
theorem exists_vecDot (hx : Spells [p] x a.items.toList) (hy : Spells [p] y b.items.toList)
    (hfit : Fit [] [] (terms (value ∘ x) (value ∘ y) p) bound) :
    ∃ d, vecDot N a b = .ok d ∧ HasSums value [] [] (terms (value ∘ x) (value ∘ y) p) d := by
  obtain ⟨t, ht, hvalue, -⟩ := exists_entry h.sumsProducts_innerByEight (line_eq hx)
    (line_eq hy) (hfit [] [] trivial trivial)
  refine ⟨⟨⟨[]⟩, #[t]⟩, ?_, rfl, rfl, fun i j hi hj => ?_⟩
  · unfold vecDot
    rw [ht]
    rfl
  · obtain rfl := within_nil.1 hi
    obtain rfl := within_nil.1 hj
    exact ⟨t, rfl, hvalue⟩

end Products

end Dense

end Strided
