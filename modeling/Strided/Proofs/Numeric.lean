import Strided.Numeric
import Strided.Proofs.Run
import Mathlib.Algebra.BigOperators.Group.List.Basic
import Mathlib.Algebra.GroupWithZero.Nat
import Mathlib.Algebra.Order.Group.Int
import Mathlib.Algebra.Ring.Int.Defs
import Mathlib.Data.List.Zip

/-!
# Sums of integer products are exact

A sum of products is taken in order, in order with products that are not rounded by themselves, or
in eight interleaved sums. On integers all three are the exact sum, as long as the magnitudes of the
products add up to no more than the type holds: a partial sum, of whatever terms in whatever order,
is then no larger than that. So no order is looked at here. What carries a sum from step to step is
the pair of what has been added up, exactly, and of the magnitudes that are still to come
(`Adds.foldlM`, `Adds.mapM_zip`, `Exact.sumBlocks_eq`).

Of the arithmetic nothing is used but that it is exact within a bound (`Numeric.Exact`), as that of
the three integer types is.
-/

namespace Strided

/-- The sum of the magnitudes. -/
def magnitude (terms : List Int) : Nat := (terms.map Int.natAbs).sum

@[simp] theorem magnitude_nil : magnitude [] = 0 := rfl

@[simp] theorem magnitude_cons (t : Int) (terms : List Int) :
    magnitude (t :: terms) = t.natAbs + magnitude terms := by
  rw [magnitude, List.map_cons, List.sum_cons, magnitude]

/-- The magnitudes of two lists in a row add up. -/
theorem magnitude_append (l r : List Int) : magnitude (l ++ r) = magnitude l + magnitude r := by
  rw [magnitude, List.map_append, List.sum_append, magnitude, magnitude]

/-- A sum is no larger than its terms together. -/
theorem natAbs_sum_le (terms : List Int) : terms.sum.natAbs ≤ magnitude terms := by
  induction terms with
  | nil => rfl
  | cons t terms ih =>
    rw [List.sum_cons, magnitude_cons]
    have habs := Int.natAbs_add_le t terms.sum
    omega

namespace Numeric

variable {α β : Type} {N : Numeric α} {value : α → Int} {bound : Nat}

/-- **The arithmetic is exact** where the result is not larger than `bound`. -/
structure Exact (N : Numeric α) (value : α → Int) (bound : Nat) : Prop where
  zero_eq : value N.zero = 0
  one_eq : value N.one = 1
  add_eq : ∀ x y, (value x + value y).natAbs ≤ bound →
    ∃ z, N.add x y = .ok z ∧ value z = value x + value y
  mul_eq : ∀ x y, (value x * value y).natAbs ≤ bound →
    ∃ z, N.mul x y = .ok z ∧ value z = value x * value y
  fused_eq : ∀ sum x y, (value x * value y).natAbs ≤ bound →
    (value sum + value x * value y).natAbs ≤ bound →
    ∃ z, N.fused sum x y = .ok z ∧ value z = value sum + value x * value y

/-- The value of the product of a pair. -/
def product (value : α → Int) (pair : α × α) : Int := value pair.1 * value pair.2

/-! ### One term after the other -/

/-- **A step that adds a term** to a sum, if both together are not larger than `bound`. -/
def Adds (value : α → Int) (bound : Nat) (f : α → β → Checked α) (term : β → Int) : Prop :=
  ∀ sum b, (value sum).natAbs + (term b).natAbs ≤ bound →
    ∃ z, f sum b = .ok z ∧ value z = value sum + term b

/-- **Steps that add terms give the sum of the terms.** -/
theorem Adds.foldlM {f : α → β → Checked α} {term : β → Int} (h : Adds value bound f term)
    (bs : List β) (sum : α) (hb : (value sum).natAbs + magnitude (bs.map term) ≤ bound) :
    ∃ z, bs.foldlM f sum = .ok z ∧ value z = value sum + (bs.map term).sum := by
  induction bs generalizing sum with
  | nil => exact ⟨sum, rfl, by rw [List.map_nil, List.sum_nil, Int.add_zero]⟩
  | cons b bs ih =>
    rw [List.map_cons, magnitude_cons] at hb
    obtain ⟨z, hz, hvalue⟩ := h sum b (by omega)
    -- the term has moved from those to come to the sum
    have habs : (value z).natAbs ≤ (value sum).natAbs + (term b).natAbs := by
      rw [hvalue]
      exact Int.natAbs_add_le _ _
    obtain ⟨y, hy, htotal⟩ := ih z (by omega)
    refine ⟨y, ?_, ?_⟩
    · rw [List.foldlM_cons, hz, Checked.ok_bind, hy]
    · rw [htotal, hvalue, List.map_cons, List.sum_cons, Int.add_assoc]

/-- Adding a number is such a step. -/
theorem Exact.adds_add (h : N.Exact value bound) : Adds value bound N.add value := by
  intro sum x hb
  exact h.add_eq sum x (le_trans (Int.natAbs_add_le _ _) hb)

theorem Exact.adds_addProduct (h : N.Exact value bound) :
    Adds value bound N.addProduct (product value) := by
  intro sum pair hb
  -- the product by itself has room, since the sum before it takes some
  have hmul : (value pair.1 * value pair.2).natAbs ≤ bound := le_trans (Nat.le_add_left _ _) hb
  obtain ⟨y, hy, hvalue⟩ := h.mul_eq pair.1 pair.2 hmul
  have hadd : (value sum + value y).natAbs ≤ bound := by
    rw [hvalue]
    exact le_trans (Int.natAbs_add_le _ _) hb
  obtain ⟨z, hz, htotal⟩ := h.add_eq sum y hadd
  refine ⟨z, ?_, by rw [htotal, hvalue, product]⟩
  unfold addProduct
  rw [hy, Checked.ok_bind, hz]

theorem Exact.adds_fused (h : N.Exact value bound) :
    Adds value bound (fun sum pair => N.fused sum pair.1 pair.2) (product value) := by
  intro sum pair hb
  have hmul : (value pair.1 * value pair.2).natAbs ≤ bound := le_trans (Nat.le_add_left _ _) hb
  exact h.fused_eq sum pair.1 pair.2 hmul (le_trans (Int.natAbs_add_le _ _) hb)

/-- **A way to add up products** that gives the exact sum, if the products have room. -/
def SumsProducts (value : α → Int) (bound : Nat) (f : List α → List α → Checked α) : Prop :=
  ∀ xs ys, magnitude ((xs.zip ys).map (product value)) ≤ bound →
    ∃ z, f xs ys = .ok z ∧ value z = ((xs.zip ys).map (product value)).sum

/-- The two factors of every product may be swapped. -/
theorem SumsProducts.flip {f : List α → List α → Checked α} (h : SumsProducts value bound f) :
    SumsProducts value bound fun xs ys => f ys xs := by
  intro xs ys hb
  have hswap : (ys.zip xs).map (product value) = (xs.zip ys).map (product value) := by
    rw [← List.zip_swap, List.map_map]
    exact List.map_congr_left fun _ _ => Int.mul_comm _ _
  rw [← hswap] at hb ⊢
  exact h ys xs hb

/-- Steps that add products, from zero on, are such a way. -/
theorem Adds.sumsProducts {f : α → α × α → Checked α} (h : Adds value bound f (product value))
    {zero : α} (hzero : value zero = 0) :
    SumsProducts value bound fun xs ys => (xs.zip ys).foldlM f zero := by
  intro xs ys hb
  obtain ⟨z, hz, hvalue⟩ := h.foldlM (xs.zip ys) zero
    (by rw [hzero, Int.natAbs_zero, Nat.zero_add]; exact hb)
  exact ⟨z, hz, by rw [hvalue, hzero, Int.zero_add]⟩

/-- The products, one after the other. -/
theorem Exact.sumsProducts_inner (h : N.Exact value bound) : SumsProducts value bound N.inner :=
  h.adds_addProduct.sumsProducts h.zero_eq

/-- The products, one after the other and each in one rounding with the sum. -/
theorem Exact.sumsProducts_innerFused (h : N.Exact value bound) :
    SumsProducts value bound N.innerFused :=
  h.adds_fused.sumsProducts h.zero_eq

/-- Multiplying by one changes nothing. -/
theorem Exact.mul_one (h : N.Exact value bound) {x : α} (hb : (value x).natAbs ≤ bound) :
    ∃ z, N.mul x N.one = .ok z ∧ value z = value x := by
  obtain ⟨z, hz, hvalue⟩ := h.mul_eq x N.one (by rwa [h.one_eq, Int.mul_one])
  exact ⟨z, hz, by rw [hvalue, h.one_eq, Int.mul_one]⟩

theorem Exact.one_mul (h : N.Exact value bound) {x : α} (hb : (value x).natAbs ≤ bound) :
    ∃ z, N.mul N.one x = .ok z ∧ value z = value x := by
  obtain ⟨z, hz, hvalue⟩ := h.mul_eq N.one x (by rwa [h.one_eq, Int.one_mul])
  exact ⟨z, hz, by rw [hvalue, h.one_eq, Int.one_mul]⟩

/-! ### Many sums at a time -/

/-- **Sums side by side**: nothing is lost and nothing gets larger. -/
theorem Adds.mapM_zip {f : α → β → Checked α} {term : β → Int} (h : Adds value bound f term)
    (sums : List α) (bs : List β) (hlen : bs.length = sums.length)
    (hb : magnitude (sums.map value) + magnitude (bs.map term) ≤ bound) :
    ∃ zs, (sums.zip bs).mapM (fun p => f p.1 p.2) = .ok zs ∧ zs.length = sums.length ∧
      (zs.map value).sum = (sums.map value).sum + (bs.map term).sum ∧
      magnitude (zs.map value) ≤ magnitude (sums.map value) + magnitude (bs.map term) := by
  induction sums generalizing bs with
  | nil =>
    obtain rfl := List.length_eq_zero_iff.1 hlen
    exact ⟨[], rfl, rfl, rfl, Nat.le_refl _⟩
  | cons sum sums ih =>
    obtain ⟨b, bs, rfl⟩ := List.exists_cons_of_length_eq_add_one hlen
    simp only [List.map_cons, magnitude_cons, List.sum_cons] at hb ⊢
    obtain ⟨z, hz, hvalue⟩ := h sum b (by omega)
    obtain ⟨zs, hzs, hcount, hsum, hmagnitude⟩ := ih bs (Nat.succ.inj hlen) (by omega)
    -- the new sum is no larger than the old one and its term together
    have habs := Int.natAbs_add_le (value sum) (term b)
    refine ⟨z :: zs, ?_, congrArg (· + 1) hcount, ?_, ?_⟩
    · rw [List.zip_cons_cons, List.mapM_cons, hz, Checked.ok_bind, hzs]
      rfl
    · rw [List.map_cons, List.sum_cons, hvalue, hsum]
      omega
    · rw [List.map_cons, magnitude_cons, hvalue]
      omega

/-- **Rounds of interleaved sums**: what the sums and the pairs that are left come to stays. -/
theorem Exact.sumBlocks_eq (h : N.Exact value bound) (blocks : Nat) (sums : List α)
    (pairs : List (α × α)) (hlen : blocks * sums.length ≤ pairs.length)
    (hb : magnitude (sums.map value) + magnitude (pairs.map (product value)) ≤ bound) :
    ∃ sums' rest, N.sumBlocks blocks sums pairs = .ok (sums', rest) ∧
      sums'.length = sums.length ∧
      (sums'.map value).sum + (rest.map (product value)).sum
        = (sums.map value).sum + (pairs.map (product value)).sum ∧
      magnitude (sums'.map value) + magnitude (rest.map (product value)) ≤ bound := by
  induction blocks generalizing sums pairs with
  | zero => exact ⟨sums, pairs, rfl, rfl, rfl, hb⟩
  | succ blocks ih =>
    rw [Nat.succ_mul] at hlen
    -- a round takes one pair for every sum
    have htaken : (pairs.take sums.length).length = sums.length := by
      rw [List.length_take]
      omega
    have hzip : sums.zip pairs = sums.zip (pairs.take sums.length) := by
      rw [List.zip_eq_zip_take_min, Nat.min_eq_left (by omega), List.take_length]
    have hsplit : pairs.map (product value) = (pairs.take sums.length).map (product value)
        ++ (pairs.drop sums.length).map (product value) := by
      rw [← List.map_append, List.take_append_drop]
    rw [hsplit, magnitude_append] at hb
    -- the pairs of this round move into the sums, the others are left for the next
    obtain ⟨sums', hsums, hcount, hsum, hmagnitude⟩ :=
      h.adds_addProduct.mapM_zip sums (pairs.take sums.length) htaken (by omega)
    obtain ⟨last, rest, hrest, hlast, htotal, hbound⟩ := ih sums' (pairs.drop sums.length)
      (by rw [hcount, List.length_drop]; omega) (by omega)
    refine ⟨last, rest, ?_, hlast.trans hcount, ?_, hbound⟩
    · rw [sumBlocks, hzip, hsums, Checked.ok_bind, hrest]
    · rw [htotal, hsum, hsplit, List.sum_append, Int.add_assoc]

/-- **Eight interleaved sums** are such a way too. -/
theorem Exact.sumsProducts_innerByEight (h : N.Exact value bound) :
    SumsProducts value bound N.innerByEight := by
  intro xs ys hb
  have hzero : (List.replicate 8 N.zero).map value = List.replicate 8 0 := by
    rw [List.map_replicate, h.zero_eq]
  -- there are as many rounds as there are full blocks of eight
  obtain ⟨sums, rest, hsums, hcount, htotal, hbound⟩ :=
    h.sumBlocks_eq ((xs.zip ys).length / 8) (List.replicate 8 N.zero) (xs.zip ys)
      (by rw [List.length_replicate]; exact Nat.div_mul_le_self _ _)
      (by rw [hzero]; simpa [magnitude] using hb)
  rw [List.length_replicate] at hcount
  have hstart : ((List.replicate 8 N.zero).map value).sum = 0 := by
    rw [hzero]
    rfl
  rw [hstart, Int.zero_add] at htotal
  -- one half of the sums is added to the other
  have hsplit : sums.map value = (sums.take 4).map value ++ (sums.drop 4).map value := by
    rw [← List.map_append, List.take_append_drop]
  have hsame : (sums.drop 4).length = (sums.take 4).length := by
    rw [List.length_take, List.length_drop]
    omega
  rw [hsplit, magnitude_append] at hbound
  rw [hsplit, List.sum_append] at htotal
  obtain ⟨halves, hhalves, -, hsum, hmagnitude⟩ :=
    h.adds_add.mapM_zip (sums.take 4) (sums.drop 4) hsame (by omega)
  -- the halves are added in order, and then the pairs that are left
  obtain ⟨y, hy, hvalue⟩ := h.adds_add.foldlM halves N.zero
    (by rw [h.zero_eq, Int.natAbs_zero]; omega)
  rw [h.zero_eq, Int.zero_add] at hvalue
  have habs : (value y).natAbs ≤ magnitude (halves.map value) := by
    rw [hvalue]
    exact natAbs_sum_le _
  obtain ⟨z, hz, hlast⟩ := h.adds_addProduct.foldlM rest y (by omega)
  refine ⟨z, ?_, by rw [hlast, hvalue, hsum, htotal]⟩
  unfold innerByEight
  dsimp only
  rw [hsums, Checked.ok_bind]
  dsimp only
  rw [hhalves, Checked.ok_bind, hy, Checked.ok_bind]
  exact hz

/-! ### The integer types -/

/-- Arithmetic on integers that checks the results is exact as far as it lets them pass. -/
theorem exact_of_check (check : Int → Checked α) (hzero : value N.zero = 0)
    (hone : value N.one = 1)
    (hcheck : ∀ t, t.natAbs ≤ bound → ∃ z, check t = .ok z ∧ value z = t)
    (hadd : ∀ x y, N.add x y = check (value x + value y))
    (hmul : ∀ x y, N.mul x y = check (value x * value y))
    (hfused : ∀ sum x y, N.fused sum x y
      = (check (value x * value y) >>= fun z => check (value sum + value z))) :
    N.Exact value bound where
  zero_eq := hzero
  one_eq := hone
  add_eq x y hb := by
    rw [hadd]
    exact hcheck _ hb
  mul_eq x y hb := by
    rw [hmul]
    exact hcheck _ hb
  fused_eq sum x y hmul hb := by
    obtain ⟨z, hz, hvalue⟩ := hcheck _ hmul
    rw [hfused, hz, Checked.ok_bind, hvalue]
    exact hcheck _ hb

/-- 32-bit integers with a sign are exact up to the largest of them. -/
theorem exact_int32 : Exact .int32 Int32.toInt 2147483647 := by
  refine exact_of_check checkInt32 rfl rfl (fun t ht => ?_) (fun _ _ => rfl)
    (fun _ _ => rfl) fun _ _ _ => rfl
  refine ⟨Int32.ofInt t, if_pos (by omega), Int32.toInt_ofInt_of_le ?_ ?_⟩ <;> omega

theorem exact_int64 : Exact .int64 Int64.toInt 9223372036854775807 := by
  refine exact_of_check checkInt64 rfl rfl (fun t ht => ?_) (fun _ _ => rfl)
    (fun _ _ => rfl) fun _ _ _ => rfl
  refine ⟨Int64.ofInt t, if_pos ?_, Int64.toInt_ofInt_of_le ?_ ?_⟩
  · unfold signedBound
    omega
  · omega
  · omega

theorem exact_uint32 : Exact .uint32 (fun x => (x.toNat : Int)) 4294967295 := by
  have hcheck : ∀ n ≤ 4294967295, ∃ z, checkUInt32 n = .ok z ∧ (z.toNat : Int) = n := fun n hn => by
    refine ⟨UInt32.ofNat n, if_pos (by omega), ?_⟩
    rw [UInt32.toNat_ofNat_of_lt' (by change n < 4294967296; omega)]
  -- sums and products of numbers without a sign have none either
  have hadd : ∀ x y : UInt32, ((x.toNat : Int) + y.toNat).natAbs ≤ 4294967295 →
      ∃ z, checkUInt32 (x.toNat + y.toNat) = .ok z ∧ (z.toNat : Int) = x.toNat + y.toNat :=
    fun x y hb => by simpa using hcheck (x.toNat + y.toNat) (by omega)
  have hmul : ∀ x y : UInt32, ((x.toNat : Int) * y.toNat).natAbs ≤ 4294967295 →
      ∃ z, checkUInt32 (x.toNat * y.toNat) = .ok z ∧ (z.toNat : Int) = x.toNat * y.toNat :=
    fun x y hb => by
      rw [← Int.natCast_mul, Int.natAbs_natCast] at hb
      simpa using hcheck (x.toNat * y.toNat) hb
  refine ⟨rfl, rfl, hadd, hmul, fun sum x y hproduct hb => ?_⟩
  obtain ⟨z, hz, hvalue⟩ := hmul x y hproduct
  change ∃ t, (checkUInt32 (x.toNat * y.toNat) >>= fun z => checkUInt32 (sum.toNat + z.toNat))
    = .ok t ∧ _
  rw [hz, Checked.ok_bind, ← hvalue]
  exact hadd sum z (by rw [hvalue]; exact hb)

end Numeric

end Strided
