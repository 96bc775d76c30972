import Strided.Fourier.Kernel
import Strided.Proofs.Fourier.Lines

/-!
# The discrete transform keeps the length of a line

The transform of a line is put together from the transforms of shorter lines, and each way of
putting them together asks for a length of its own: the pairs around the first element for an odd
one, the two interwoven lines for twice an odd one, and the halves for a multiple of four. So the
length is kept only as long as every line is taken by the method that is meant for it. Halving stops
after a given number of levels, and the one fact to watch is that by then the line has no more than
one element (`length_transformHalves`); the binary logarithm of the length is levels enough.
-/

namespace Strided.Fourier

variable {α β : Type} [Add α] [Sub α] [Mul α] [Neg α] {line : List (Complex α)} {levels h : Nat}

/-! ### Putting lists together -/

/-- Every other element: half of them, rounded up, since the first one is taken. -/
theorem length_everyOther (xs : List β) : (everyOther xs).length = (xs.length + 1) / 2 := by
  fun_induction everyOther xs with
  | case1 x y xs ih =>
    rw [List.length_cons, ih, List.length_cons, List.length_cons]
    omega
  | case2 xs hshort =>
    -- what is shorter than two has no second element to skip
    match xs with
    | [] => simp
    | [x] => simp
    | x :: y :: xs => exact absurd rfl (hshort x y xs)

@[simp] theorem length_alternate (xs ys : List β) :
    (alternate xs ys).length = min xs.length ys.length := by
  simp [alternate]

/-- Interweaving takes up what is left of the longer list. -/
theorem length_interleave (xs ys : List β) :
    (interleave xs ys).length = xs.length + ys.length := by
  fun_induction interleave xs ys with
  | case1 x xs y ys ih =>
    simp only [List.length_cons, ih]
    omega
  | case2 xs => rw [List.length_nil, Nat.add_zero]
  | case3 ys => rw [List.length_nil, Nat.zero_add]

/-! ### Every method for its lengths -/

/-- **The odd method** keeps an odd length. -/
theorem length_transformOdd (real : Float → α) (hodd : line.length % 2 = 1) :
    (transformOdd real line).length = line.length := by
  cases line with
  | nil => rfl
  | cons x rest =>
    rw [List.length_cons] at hodd
    simp only [transformOdd, List.length_append, List.length_cons, List.length_map,
      List.length_reverse, List.length_range']
    -- one coefficient, and two for each pair of elements around the first one
    omega

/-- **The method for twice an odd length** splits the line into two lines of that odd length. -/
theorem length_transformTwiceOdd (real : Float → α) (hlen : line.length = 2 * h)
    (hodd : h % 2 = 1) : (transformTwiceOdd real h line).length = line.length := by
  -- both of the interwoven lines have an odd length, so the odd method is right for them
  have heven : (everyOther line).length = h := by
    rw [length_everyOther, hlen]
    omega
  have hother : (everyOther (line.drop h ++ line.take h)).length = h := by
    rw [length_everyOther, List.length_append, List.length_drop, List.length_take, hlen]
    omega
  have ha := length_transformOdd real (heven.symm ▸ hodd)
  have hb := length_transformOdd real (hother.symm ▸ hodd)
  simp only [transformTwiceOdd, List.length_append, length_alternate, List.length_zipWith, ha, hb,
    heven, hother, hlen]
  omega

/-- **Halving keeps the length**, if there are levels enough for the line. -/
theorem length_transformHalves (real : Float → α) (hlevels : line.length < 2 ^ (levels + 1)) :
    (transformHalves real levels line).length = line.length := by
  induction levels generalizing line with
  | zero =>
    -- nothing is left to halve
    match line with
    | [] => rfl
    | [x] =>
      have hodd : [x].length % 2 = 1 := by simp
      exact length_transformOdd real hodd
    | x :: y :: rest =>
      simp only [List.length_cons] at hlevels
      omega
  | succ levels ih =>
    simp only [transformHalves]
    split
    · rename_i hfour
      have hhalf : line.length / 2 < 2 ^ (levels + 1) := by
        rw [Nat.pow_succ] at hlevels
        omega
      -- sums and differences of the halves are lines of half the length, with one level less to go
      have hpart : ∀ f : Complex α → Complex α → Complex α,
          (List.zipWith f (line.take (line.length / 2)) (line.drop (line.length / 2))).length
            = line.length / 2 := fun f => by
        rw [List.length_zipWith, List.length_take, List.length_drop]
        omega
      rw [length_interleave, ih (by rwa [hpart]), ih (by simpa [hpart] using hhalf), hpart,
        List.length_map, List.length_zipIdx, hpart]
      omega
    · split
      · exact length_transformTwiceOdd real (by omega) (by omega)
      · exact length_transformOdd real (by omega)

/-- The binary logarithm of the length is levels enough, for every line. -/
theorem length_dft (real : Float → α) (line : List (Complex α)) :
    (dft real line).length = line.length := by
  unfold dft
  split
  · rfl
  · exact length_transformHalves real Nat.lt_log2_self

/-- **The discrete transform keeps the length of a line.** -/
theorem discrete_keepsLength : discrete.KeepsLength where
  single := length_dft Float.toFloat32
  double := length_dft id

end Strided.Fourier
