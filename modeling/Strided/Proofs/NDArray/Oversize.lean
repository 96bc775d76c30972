import Strided.Proofs.NDArray.DiagonalMatrix

/-!
# Matrices that are too large for their diagonal

`NDArray.diagflat` refuses a matrix whose entries cannot be counted, with
`DiagonalError.sizeOverflow`, before it makes any. The count it checks is a size, below `2 ^ 64`.
The layout of the matrix needs more than that: its strides are signed words, and so is the number of
its bytes. Between the two limits the check passes, and the matrix cannot be made all the same.

`NDArray.diagflat_oversize` has the three ways a call can end and exactly when it ends in each of
them. The refusal is what a matrix too large for its layout gets if and only if it is not in that
band; in the band the call ends in a fault (`NDArray.band_not_reported`).
-/

namespace Strided

open Shape Strides

/-- A square whose entries can be counted, but not by a signed word, has no layout. -/
theorem View.contiguous_band {m : Nat} (hlarge : signedBound ≤ m * m) (hcount : m * m < sizeBound) :
    View.contiguous ⟨[m, m]⟩ = .error .overflow := by
  -- a side that is no signed word makes more entries than there are sizes
  have hside : m < signedBound := by
    by_contra hm
    have hsquare : signedBound * signedBound ≤ m * m :=
      Nat.mul_le_mul (Nat.not_lt.1 hm) (Nat.not_lt.1 hm)
    have hbig : sizeBound ≤ signedBound * signedBound := by decide
    omega
  have hvolume : volume [m, m] = m * m := by
    rw [volume_cons, volume_cons, volume_nil, Nat.mul_one]
  have hdims : ∀ dim ∈ [m, m], dim < signedBound := by
    intro dim hdim
    obtain rfl : dim = m := by simpa using hdim
    exact hside
  have hrow : rowMajor ⟨[m, m]⟩ = .error .overflow :=
    rowMajor_of_large hdims List.suffix_rfl (by rwa [hvolume])
  unfold View.contiguous
  rw [hrow]
  rfl

namespace NDArray

variable {v : NDArray} {w : World} {n m : Nat} {k : Int}

theorem le_square_side (hm : side n k = m) : n ≤ m * m := by
  have hself := Nat.le_mul_self m
  unfold side at hm
  omega

/-- **A matrix whose entries are no size is refused**, after the elements have been copied. -/
theorem diagflat_of_sizeBound_le {xs : List v.dt.Elem} (h : v.toList w.store v.dt = .ok xs)
    (hm : side xs.length k = m) (hlarge : sizeBound ≤ m * m) :
    ∃ w', v.diagflat k w = (reject (.diagonal (.sizeOverflow xs.length k)), w') ∧
      w.store.Agrees w'.store := by
  obtain ⟨f, w₁, hflatten, hshape, hdt, -, hread⟩ := exists_flatten h
  -- one of the two guards fails: a side that is a size has no square that is one
  have hcheck : ¬(xs.length + k.natAbs < sizeBound ∧
      (xs.length + k.natAbs) * (xs.length + k.natAbs) < sizeBound) := by
    have hside : xs.length + k.natAbs = m := hm
    rw [hside]
    omega
  refine ⟨w₁, ?_, adds_flatten v w _ w₁ hflatten⟩
  unfold diagflat
  rw [Action.bind_of_ok hflatten, Action.bind_checked_ok (of_toList hread).2.1]
  dsimp only
  rw [if_neg hcheck]
  exact Action.bind_answer_error rfl _ w₁

/-- The three ways a call can end, each with its condition. None of them changes a buffer that was
there. -/
theorem diagflat_cases {cells : Array v.dt.Elem} (hbuf : v.Backed w.store cells)
    (hfits : (Buffer.mk v.dt cells).Fits) (hwalks : v.view.Walks cells.size)
    (hnumel : v.numel = .ok n) (hm : side n k = m) :
    ∃ w', w.store.Agrees w'.store ∧
      ((v.dt.bytes * n < signedBound ∧ sizeBound ≤ m * m ∧
          v.diagflat k w = (reject (.diagonal (.sizeOverflow n k)), w')) ∨
        (v.dt.bytes * (m * m) < signedBound ∧ ∃ b, v.diagflat k w = (.ok b, w')) ∨
        (¬(v.dt.bytes * n < signedBound ∧ sizeBound ≤ m * m) ∧
          ¬v.dt.bytes * (m * m) < signedBound ∧
          v.diagflat k w = (.error (.fault .capacity), w'))) := by
  obtain rfl := eq_volume_of_numel hnumel
  have hvolume : volume v.shape.dims ≤ m * m := le_square_side hm
  by_cases hmemory : v.dt.bytes * (m * m) < signedBound
  · -- the matrix fits the memory, and so do its elements
    have hroom : v.dt.bytes * volume v.shape.dims < signedBound :=
      lt_of_le_of_lt (Nat.mul_le_mul_left _ hvolume) hmemory
    obtain ⟨xs, hxs⟩ := exists_toList hbuf hwalks hfits.size_le hroom
    have hside : side xs.length k = m := by
      rw [(of_toList hxs).2.2.1]
      exact hm
    obtain ⟨b, w', hrun, hs, -⟩ := exists_diagflat hxs hside hmemory
    exact ⟨w', hs, .inr (.inl ⟨hmemory, b, hrun⟩)⟩
  · by_cases hcheck : v.dt.bytes * volume v.shape.dims < signedBound ∧ sizeBound ≤ m * m
    · -- the elements have been copied when the check of the size refuses them
      obtain ⟨xs, hxs⟩ := exists_toList hbuf hwalks hfits.size_le hcheck.1
      have hlen : xs.length = volume v.shape.dims := (of_toList hxs).2.2.1
      obtain ⟨w', hrun, hs⟩ := diagflat_of_sizeBound_le hxs (hlen ▸ hm) hcheck.2
      rw [hlen] at hrun
      exact ⟨w', hs, .inl ⟨hcheck.1, hcheck.2, hrun⟩⟩
    · -- either the zeros do not fit the memory, or the elements do not
      obtain ⟨w', hrun, hs⟩ : ∃ w', v.diagflat k w = (.error (.fault .capacity), w') ∧
          w.store.Agrees w'.store := by
        by_cases hcount : m * m < sizeBound
        · exact diagflat_of_no_memory hbuf hfits hwalks hm hcount hmemory
        · exact diagflat_of_many hbuf hnumel fun hroom => hcheck ⟨hroom, Nat.not_lt.1 hcount⟩
      exact ⟨w', hs, .inr (.inr ⟨hcheck, hmemory, hrun⟩)⟩

/-- **When a matrix is made, when it is refused, and when neither.** A matrix with `m` rows for `n`
elements is made if and only if it fits the memory. It is refused if and only if its entries cannot
be counted, once the elements have been copied. All other calls fault for want of memory, and no
integer ever overflows on the way. If the entries can be counted, but not by a signed word, it is
not the memory alone that is missing, because the matrix has no layout; so oversize is reported as
such if and only if the entries are not in this band. -/
theorem diagflat_oversize {cells : Array v.dt.Elem} (hbuf : v.Backed w.store cells)
    (hfits : (Buffer.mk v.dt cells).Fits) (hwalks : v.view.Walks cells.size)
    (hnumel : v.numel = .ok n) (hm : side n k = m) :
    ((∃ b w', v.diagflat k w = (.ok b, w')) ↔ v.dt.bytes * (m * m) < signedBound) ∧
    ((∃ w', v.diagflat k w = (reject (.diagonal (.sizeOverflow n k)), w')) ↔
      v.dt.bytes * n < signedBound ∧ sizeBound ≤ m * m) ∧
    ((∃ w', v.diagflat k w = (.error (.fault .capacity), w')) ↔
      ¬v.dt.bytes * (m * m) < signedBound ∧
        ¬(v.dt.bytes * n < signedBound ∧ sizeBound ≤ m * m)) ∧
    (∀ w', v.diagflat k w ≠ (.error (.fault .overflow), w')) ∧
    (m * m < signedBound → ∃ view, View.contiguous ⟨[m, m]⟩ = .ok view) ∧
    (signedBound ≤ m * m → m * m < sizeBound → View.contiguous ⟨[m, m]⟩ = .error .overflow) ∧
    (v.dt.bytes * n < signedBound →
      ((signedBound ≤ m * m →
          ∃ w', v.diagflat k w = (reject (.diagonal (.sizeOverflow n k)), w')) ↔
        ¬(signedBound ≤ m * m ∧ m * m < sizeBound))) := by
  obtain ⟨w₁, -, hcases⟩ := diagflat_cases hbuf hfits hwalks hnumel hm
  have hbytes : m * m ≤ v.dt.bytes * (m * m) := Nat.le_mul_of_pos_left _ v.dt.bytes_pos
  have hbound := signedBound_lt_sizeBound
  -- a call has one end, so each condition holds of no other end
  have hends : ∀ {r r' : Answer NDArray} {w₂ : World}, v.diagflat k w = (r, w₂) → r ≠ r' →
      ¬∃ w', v.diagflat k w = (r', w') := by
    rintro r r' w₂ h hne ⟨w', h'⟩
    exact hne (congrArg Prod.fst (h.symm.trans h'))
  -- the refusal comes twice in the statement, by itself and outside the band
  have hrefused : (∃ w', v.diagflat k w = (reject (.diagonal (.sizeOverflow n k)), w')) ↔
      v.dt.bytes * n < signedBound ∧ sizeBound ≤ m * m := by
    rcases hcases with ⟨hroom, hlarge, hrun⟩ | ⟨hmemory, b, hrun⟩ | ⟨hcheck, -, hrun⟩
    · exact ⟨fun _ => ⟨hroom, hlarge⟩, fun _ => ⟨w₁, hrun⟩⟩
    · exact ⟨fun h => absurd h (hends hrun (by simp [reject])), fun h => by omega⟩
    · exact ⟨fun h => absurd h (hends hrun (by simp [reject])), fun h => absurd h hcheck⟩
  refine ⟨?_, hrefused, ?_, fun w' h => ?_, fun hsmall => ?_, View.contiguous_band,
    fun hroom => ?_⟩
  · rcases hcases with ⟨-, hlarge, hrun⟩ | ⟨hmemory, b, hrun⟩ | ⟨-, hmemory, hrun⟩
    · refine ⟨?_, fun h => by omega⟩
      rintro ⟨b, h⟩
      exact absurd h (hends hrun (by simp [reject]))
    · exact ⟨fun _ => hmemory, fun _ => ⟨b, w₁, hrun⟩⟩
    · refine ⟨?_, fun h => absurd h hmemory⟩
      rintro ⟨b, h⟩
      exact absurd h (hends hrun (by simp))
  · rcases hcases with ⟨hroom, hlarge, hrun⟩ | ⟨hmemory, b, hrun⟩ | ⟨hcheck, hmemory, hrun⟩
    · exact ⟨fun h => absurd h (hends hrun (by simp [reject])),
        fun h => absurd ⟨hroom, hlarge⟩ h.2⟩
    · exact ⟨fun h => absurd h (hends hrun (by simp)), fun h => absurd hmemory h.1⟩
    · exact ⟨fun _ => ⟨hmemory, hcheck⟩, fun _ => ⟨w₁, hrun⟩⟩
  · rcases hcases with ⟨-, -, hrun⟩ | ⟨-, b, hrun⟩ | ⟨-, -, hrun⟩
    · exact hends hrun (by simp [reject]) ⟨w', h⟩
    · exact hends hrun (by simp) ⟨w', h⟩
    · exact hends hrun (by simp) ⟨w', h⟩
  · exact ⟨_, View.contiguous_eq (span_square one_lt_signedBound hsmall)⟩
  · rw [hrefused]
    -- oversize entries that are not in the band cannot be counted, which is the condition of a
    -- refusal
    constructor
    · rintro h ⟨hlarge, hcount⟩
      exact absurd (h hlarge).2 (Nat.not_le.2 hcount)
    · intro hband hlarge
      exact ⟨hroom, Nat.not_lt.1 fun hcount => hband ⟨hlarge, hcount⟩⟩

/-- A truth value on the diagonal of a matrix with three rows, and on one of a matrix whose entries
cannot be counted. -/
theorem diagflat_oversize_truth :
    (single .bool).Backed (alone .bool).store (lone .bool) ∧ (Buffer.mk .bool (lone .bool)).Fits ∧
      (single .bool).view.Walks 1 ∧ (single .bool).numel = .ok 1 ∧
      (∃ b w', (single .bool).diagflat (-2) (alone .bool) = (.ok b, w')) ∧
      ∃ w', (single .bool).diagflat 4294967295 (alone .bool)
        = (reject (.diagonal (.sizeOverflow 1 4294967295)), w') := by
  have hbuf : (single .bool).Backed (alone .bool).store (lone .bool) := rfl
  have hfits : (Buffer.mk .bool (lone .bool)).Fits := by decide
  have hwalks : (single .bool).view.Walks 1 := ⟨rfl, by decide, by decide⟩
  have hnumel : (single .bool).numel = .ok 1 := rfl
  exact ⟨hbuf, hfits, hwalks, hnumel,
    (diagflat_oversize hbuf hfits hwalks hnumel rfl).1.2 (by decide),
    (diagflat_oversize hbuf hfits hwalks hnumel rfl).2.1.2 (by decide)⟩

/-- **In the band oversize is not reported.** A matrix with 3037000500 rows has more entries than
there are signed words, and the call for it ends in a fault. -/
theorem band_not_reported :
    (single .bool).Backed (alone .bool).store (lone .bool) ∧ (Buffer.mk .bool (lone .bool)).Fits ∧
      (single .bool).view.Walks 1 ∧ (single .bool).numel = .ok 1 ∧
      signedBound ≤ side 1 3037000499 * side 1 3037000499 ∧
      View.contiguous ⟨[3037000500, 3037000500]⟩ = .error .overflow ∧
      (∃ w', (single .bool).diagflat 3037000499 (alone .bool) = (.error (.fault .capacity), w')) ∧
      ∀ w', (single .bool).diagflat 3037000499 (alone .bool)
        ≠ (reject (.diagonal (.sizeOverflow 1 3037000499)), w') := by
  have hbuf : (single .bool).Backed (alone .bool).store (lone .bool) := rfl
  have hfits : (Buffer.mk .bool (lone .bool)).Fits := by decide
  have hwalks : (single .bool).view.Walks 1 := ⟨rfl, by decide, by decide⟩
  have hside : side 1 3037000499 = 3037000500 := rfl
  obtain ⟨w₁, -, hcases⟩ := diagflat_cases hbuf hfits hwalks rfl hside
  have hrun : (single .bool).diagflat 3037000499 (alone .bool)
      = (.error (.fault .capacity), w₁) := by
    rcases hcases with ⟨-, hlarge, -⟩ | ⟨hmemory, -⟩ | ⟨-, -, hrun⟩
    · exact absurd hlarge (by decide)
    · exact absurd hmemory (by decide)
    · exact hrun
  refine ⟨hbuf, hfits, hwalks, rfl, by decide, View.contiguous_band (by decide) (by decide),
    ⟨w₁, hrun⟩, fun w' h => ?_⟩
  exact absurd (congrArg Prod.fst (hrun.symm.trans h)) (by simp [reject])

end NDArray

end Strided
