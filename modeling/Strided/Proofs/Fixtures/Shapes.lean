import Strided.Random.SplitMix
import Strided.Proofs.Fixtures.Draws
import Strided.Proofs.View.Walk

/-!
# Generated shapes

Shapes are generated rank by rank, all of them or some random ones. All of them are listed by an
odometer: the last axis runs fastest, every size runs from one to the largest that is asked for,
and what comes out too large starts anew and carries over. The sizes are the multi-indices of the
largest shape, moved up by one (`sizesAt`), and a move of the odometer goes to the sizes of the
successor of the multi-index (`nextDims_sizesAt`). So the odometer, which knows nothing but the
sizes it is at, lists what `indicesOf` does (`allShapes_eq`), and all that is said of the list is
said of that (`Shape.Lists`): it is complete, in strictly increasing order, and as long as the
largest shape has elements. No sum in it overflows, because the largest size that is formed is one
more than the largest that is asked for.

Whether all or some of them, the shapes are no longer and no wider than was asked for
(`Shape.InBox`). What can be missing is memory for the sizes of a single shape, from `2 ^ 60` axes
on, and then nothing is generated.
-/

namespace Strided

open Shape

/-! ### Shapes in a box -/

/-- **At most so many axes, each at most so long.** -/
structure Shape.InBox (shape : Shape) (rank size : Nat) : Prop where
  rank_le : shape.dims.length ≤ rank
  dim_le : ∀ dim ∈ shape.dims, dim ≤ size

/-- What lies in a box spans no more than the box. -/
theorem span_le_pow {dims : List Nat} {rank size : Nat} (hsize : 1 ≤ size)
    (hdims : ∀ dim ∈ dims, dim ≤ size) (hrank : dims.length ≤ rank) : span dims ≤ size ^ rank := by
  induction dims generalizing rank with
  | nil => exact Nat.one_le_pow _ _ hsize
  | cons dim dims ih =>
    obtain ⟨rank, rfl⟩ : ∃ n, rank = n + 1 := Nat.exists_eq_add_one.2 (Nat.zero_lt_of_lt hrank)
    have hfirst : max dim 1 ≤ size := max_le (hdims dim List.mem_cons_self) hsize
    have hrest :=
      ih (fun d hd => hdims d (List.mem_cons_of_mem _ hd)) (Nat.le_of_succ_le_succ hrank)
    rw [span_cons, Nat.pow_succ, Nat.mul_comm]
    exact Nat.mul_le_mul hrest hfirst

namespace Shape.InBox

variable {shape : Shape} {rank rank' size size' : Nat}

theorem mono (h : shape.InBox rank size) (hrank : rank ≤ rank') (hsize : size ≤ size') :
    shape.InBox rank' size' :=
  ⟨h.rank_le.trans hrank, fun dim hdim => (h.dim_le dim hdim).trans hsize⟩

/-- If the box can be counted by a signed word, so can the shape. -/
theorem span_lt (h : shape.InBox rank size) (hsize : 1 ≤ size)
    (hbox : size ^ rank < signedBound) : span shape.dims < signedBound :=
  lt_of_le_of_lt (span_le_pow hsize h.dim_le h.rank_le) hbox

theorem of_replicate (n m : Nat) : (Shape.mk (List.replicate n m)).InBox n m :=
  ⟨(List.length_replicate).le, fun _ hdim => (List.eq_of_mem_replicate hdim).le⟩

end Shape.InBox

/-! ### The order of sizes -/

/-- Multi-indices are listed in increasing order. -/
theorem pairwise_indicesOf (dims : List Nat) : (indicesOf dims).Pairwise (· < ·) := by
  induction dims with
  | nil => exact List.pairwise_singleton _ _
  | cons dim dims ih =>
    rw [indicesOf, List.pairwise_flatMap]
    constructor
    · -- behind one index the later ones increase
      intro i _
      rw [List.pairwise_map]
      exact ih.imp fun hlt => List.cons_lt_cons_iff.2 (.inr ⟨rfl, hlt⟩)
    · -- and every larger index comes later
      apply List.pairwise_lt_range.imp
      intro i j hlt index hindex index' hindex'
      obtain ⟨rest, -, rfl⟩ := List.mem_map.1 hindex
      obtain ⟨rest', -, rfl⟩ := List.mem_map.1 hindex'
      exact List.cons_lt_cons_iff.2 (.inl hlt)

/-- **The sizes at a multi-index** of the largest shape: they begin with one and not with zero. -/
def sizesAt (index : List Nat) : List Nat := index.map (· + 1)

@[simp] theorem sizesAt_cons (i : Nat) (index : List Nat) :
    sizesAt (i :: index) = (i + 1) :: sizesAt index := rfl

@[simp] theorem length_sizesAt (index : List Nat) : (sizesAt index).length = index.length :=
  List.length_map _

/-- At the first multi-index all sizes are one. -/
theorem sizesAt_firstIndex (dims : List Nat) :
    sizesAt (firstIndex dims) = List.replicate dims.length 1 := by
  rw [sizesAt, firstIndex, List.map_map]
  exact List.map_const'

/-- Sizes are ordered as their multi-indices are. -/
theorem sizesAt_lt {index index' : List Nat} (h : index < index') :
    sizesAt index < sizesAt index' := by
  induction index generalizing index' with
  | nil =>
    cases index' with
    | nil => exact absurd h (List.lt_irrefl _)
    | cons i index' => exact List.nil_lt_cons _ _
  | cons i index ih =>
    cases index' with
    | nil => exact absurd h (List.not_lt_nil _)
    | cons i' index' =>
      rw [sizesAt_cons, sizesAt_cons, List.cons_lt_cons_iff]
      -- moving both heads up by one keeps their order, and their equality
      rcases List.cons_lt_cons_iff.1 h with hlt | ⟨rfl, hlt⟩
      · exact .inl (Nat.succ_lt_succ hlt)
      · exact .inr ⟨rfl, ih hlt⟩

/-- In a box with sides of one length all indices have the same bound. -/
theorem within_replicate {n dim : Nat} {index : List Nat} :
    Within index (List.replicate n dim) ↔ index.length = n ∧ ∀ i ∈ index, i < dim := by
  simp only [within_iff_forall₂, List.forall₂_iff_get, List.length_replicate,
    List.get_eq_getElem, List.getElem_replicate]
  refine and_congr_right fun hlen => ⟨fun h i hi => ?_, fun h k hk _ => h _ (List.getElem_mem hk)⟩
  obtain ⟨k, hk, rfl⟩ := List.mem_iff_getElem.1 hi
  exact h k hk (hk.trans_eq hlen)

/-! ### All shapes of a rank -/

section Listing

variable {maxDim ndim : Nat}

/-- **A move of the odometer** goes to the sizes of the successor, and stops after the last. -/
theorem nextDims_sizesAt (hmax : maxDim + 1 < sizeBound) {index : List Nat}
    (h : Within index (List.replicate ndim maxDim)) :
    nextDims maxDim (sizesAt index)
      = .ok (if (successor (List.replicate ndim maxDim) index).1 then none
          else some (sizesAt (successor (List.replicate ndim maxDim) index).2)) := by
  induction ndim generalizing index with
  | zero =>
    obtain rfl : index = [] := List.length_eq_zero_iff.1 (within_replicate.1 h).1
    rfl
  | succ ndim ih =>
    rcases index with - | ⟨i, index⟩
    · exact h.elim
    obtain ⟨hi, hrest⟩ := h
    have hlater := ih hrest
    rw [List.replicate_succ, sizesAt_cons, nextDims]
    rcases hs : successor (List.replicate ndim maxDim) index with ⟨carry, next⟩
    rw [hs] at hlater
    cases carry with
    | false =>
      -- a later axis moves, this one stays
      rw [successor_of_stay maxDim i hs, hlater]
      rfl
    | true =>
      -- the later axes start anew, so this one moves or does so too
      rw [successor_of_round maxDim i hs, hlater]
      show (checkSize (i + 1 + 1) >>= fun raised => _) = _
      rw [checkSize_eq_ok_iff.2 ⟨by omega, rfl⟩, Checked.ok_bind, Checked.pure_eq]
      by_cases hmove : i + 1 < maxDim
      · -- the later axes are back at the first multi-index, where all sizes are one
        have hones : (sizesAt index).map (fun _ => 1) = sizesAt next := by
          have hfirst : next = firstIndex (List.replicate ndim maxDim) := by
            have hround := (within_successor hrest).2
            rw [hs] at hround
            exact hround rfl
          rw [hfirst, sizesAt_firstIndex, List.map_const', length_sizesAt, List.length_replicate,
            (within_replicate.1 hrest).1]
        rw [if_pos hmove, if_pos (Nat.succ_le_of_lt hmove), hones]
        rfl
      · rw [if_neg hmove, if_neg (Nat.not_le.2 (by omega))]
        rfl

/-- The odometer stops at sizes after which there are none. -/
theorem dimsFrom_of_none {dims : List Nat} (h : nextDims maxDim dims = .ok none)
    (found : Array (List Nat)) : dimsFrom maxDim dims found = .ok (found.push dims) := by
  rw [dimsFrom]
  split
  case h_1 f hfault => exact absurd (h.symm.trans hfault) (by simp)
  case h_2 => rfl
  case h_3 next hsome => exact absurd (h.symm.trans hsome) (by simp)

/-- Otherwise it goes on with the next ones. -/
theorem dimsFrom_of_some {dims next : List Nat} (h : nextDims maxDim dims = .ok (some next))
    (found : Array (List Nat)) :
    dimsFrom maxDim dims found = dimsFrom maxDim next (found.push dims) := by
  rw [dimsFrom]
  split
  case h_1 f hfault => exact absurd (h.symm.trans hfault) (by simp)
  case h_2 hnone => exact absurd (h.symm.trans hnone) (by simp)
  case h_3 later hsome =>
    obtain rfl := Option.some.inj (Except.ok.inj (h.symm.trans hsome))
    rfl

/-- **From its sizes on the odometer lists those of all later multi-indices.** -/
theorem dimsFrom_sizesAt (hmax : maxDim + 1 < sizeBound) {index : List Nat}
    (h : Within index (List.replicate ndim maxDim)) (found : Array (List Nat)) :
    dimsFrom maxDim (sizesAt index) found
      = .ok (found ++ ((indicesFrom (List.replicate ndim maxDim) index).map sizesAt).toArray) := by
  -- the list gets shorter with every move
  induction hlist : indicesFrom (List.replicate ndim maxDim) index generalizing index found with
  | nil =>
    rw [indicesFrom_eq h] at hlist
    exact absurd hlist (List.cons_ne_nil _ _)
  | cons first later ih =>
    rw [indicesFrom_eq h] at hlist
    obtain ⟨rfl, hlater⟩ := List.cons.inj hlist
    have hnext := nextDims_sizesAt hmax h
    by_cases hround : (successor (List.replicate ndim maxDim) index).1
    · rw [if_pos hround] at hnext hlater
      rw [dimsFrom_of_none hnext, ← hlater]
      simp
    · rw [if_neg hround] at hnext hlater
      rw [dimsFrom_of_some hnext, ih (within_successor h).1 _ hlater]
      simp

/-- The shapes of a rank with sizes from one to `maxDim`, by the multi-indices of the largest. -/
def boxShapes (maxDim ndim : Nat) : List Shape :=
  (indicesOf (List.replicate ndim maxDim)).map fun index => ⟨sizesAt index⟩

/-- **All shapes of a rank are listed**, without an overflow. -/
theorem allShapes_eq (hone : 1 ≤ maxDim) (hmax : maxDim + 1 < sizeBound) (ndim : Nat) :
    allShapes maxDim ndim = .ok (boxShapes maxDim ndim) := by
  have hpos : ∀ dim ∈ List.replicate ndim maxDim, 0 < dim := by
    intro dim hdim
    rw [List.eq_of_mem_replicate hdim]
    exact hone
  -- the odometer begins with the sizes at the first multi-index
  have hfirst : List.replicate ndim 1 = sizesAt (firstIndex (List.replicate ndim maxDim)) := by
    rw [sizesAt_firstIndex, List.length_replicate]
  rw [allShapes, if_neg (Nat.ne_of_gt hone), hfirst,
    dimsFrom_sizesAt hmax (within_firstIndex hpos), indicesFrom_firstIndex hpos]
  simp [boxShapes]

/-- **These are all shapes of the rank** with sizes from one to `maxDim`, each of them once and in
increasing order of their sizes, the last axis running fastest. -/
structure Shape.Lists (maxDim ndim : Nat) (shapes : List Shape) : Prop where
  mem_iff : ∀ shape : Shape, shape ∈ shapes ↔
    shape.dims.length = ndim ∧ ∀ dim ∈ shape.dims, 1 ≤ dim ∧ dim ≤ maxDim
  increasing : shapes.Pairwise fun shape later => shape.dims < later.dims
  nodup : shapes.Nodup
  length_eq : shapes.length = maxDim ^ ndim

/-- **The listed shapes are all shapes of the rank**, in order and without repetitions. -/
theorem lists_boxShapes (maxDim ndim : Nat) : Shape.Lists maxDim ndim (boxShapes maxDim ndim) := by
  have hincreasing :
      (boxShapes maxDim ndim).Pairwise fun shape later => shape.dims < later.dims := by
    rw [boxShapes, List.pairwise_map]
    exact (pairwise_indicesOf _).imp sizesAt_lt
  constructor
  case mem_iff =>
    rintro ⟨dims⟩
    rw [boxShapes, List.mem_map]
    constructor
    · rintro ⟨index, hindex, heq⟩
      obtain rfl : sizesAt index = dims := congrArg Shape.dims heq
      obtain ⟨hlen, hlt⟩ := within_replicate.1 (mem_indicesOf.1 hindex)
      refine ⟨(length_sizesAt index).trans hlen, fun dim hdim => ?_⟩
      obtain ⟨i, hi, rfl⟩ := List.mem_map.1 hdim
      exact ⟨Nat.le_add_left 1 i, hlt i hi⟩
    · rintro ⟨hlen, hdims⟩
      -- the multi-index of sizes is found by moving them down by one
      refine ⟨dims.map (· - 1), mem_indicesOf.2 (within_replicate.2 ⟨?_, ?_⟩), ?_⟩
      · rw [List.length_map]
        exact hlen
      · intro i hi
        obtain ⟨dim, hdim, rfl⟩ := List.mem_map.1 hi
        obtain ⟨hone, hle⟩ := hdims dim hdim
        omega
      · rw [sizesAt, List.map_map]
        refine congrArg Shape.mk ((List.map_congr_left fun dim hdim => ?_).trans (List.map_id dims))
        exact Nat.sub_add_cancel (hdims dim hdim).1
  case increasing => exact hincreasing
  case nodup =>
    -- what increases strictly repeats nothing
    apply hincreasing.imp
    rintro shape later hlt rfl
    exact List.lt_irrefl _ hlt
  case length_eq => rw [boxShapes, List.length_map, length_indicesOf, volume_replicate]

/-- Listed shapes are no wider than was asked for. With sizes up to zero there are none. -/
theorem exists_allShapes (hmax : maxDim + 1 < sizeBound) (ndim : Nat) :
    ∃ shapes, allShapes maxDim ndim = .ok shapes ∧ ∀ shape ∈ shapes, shape.InBox ndim maxDim := by
  rcases Nat.eq_zero_or_pos maxDim with rfl | hone
  · exact ⟨[], rfl, fun _ h => absurd h List.not_mem_nil⟩
  · refine ⟨_, allShapes_eq hone hmax ndim, fun shape hshape => ?_⟩
    obtain ⟨hlen, hdims⟩ := ((lists_boxShapes maxDim ndim).mem_iff shape).1 hshape
    exact ⟨hlen.le, fun dim hdim => (hdims dim hdim).2⟩

end Listing

/-! ### Shapes of all ranks -/

section Ranks

variable {σ : Type} {R : RangeSource σ} {maxDim samples ndim maxNdim minNdim : Nat}

/-- **A random shape lies in the box**, whatever the source draws. -/
theorem yields_randomShape (hR : R.InRange) (hdim : maxDim < sizeBound) (ndim : Nat) :
    (randomShape R maxDim ndim).Yields (·.InBox ndim (max maxDim 1)) := by
  -- an axis is drawn below the largest size, or is one where there is no choice
  have haxis : (if 1 < maxDim then drawBetween R 1 (maxDim - 1) else pure 1).Yields
      (· ≤ max maxDim 1) := by
    refine Draw.Yields.ite (fun hlong => ?_) fun _ => Draw.yields_pure (Nat.le_max_right _ _)
    exact (Draw.yields_between hR (by omega) (by omega)).mono fun n hn => by omega
  have haxes := Draw.yields_mapM_all (List.range ndim) fun _ _ => haxis
  refine haxes.bind fun dims ⟨hlen, hdims⟩ => Draw.yields_pure ⟨?_, hdims⟩
  rw [hlen, List.length_range]

/-- A rank for which there is memory yields shapes, and every one of them has this rank and axes
that are not too long. -/
theorem yields_shapesOfRank (hR : R.InRange) (hdim : maxDim + 1 < sizeBound)
    (hmem : 8 * ndim < signedBound) (samples : Nat) :
    (shapesOfRank R maxDim samples ndim).Yields
      fun shapes => ∀ shape ∈ shapes, shape.InBox ndim (max maxDim 1) := by
  refine (Draw.yields_checked (P := fun _ => True) (checkMemory_eq_ok_iff.2 hmem) trivial).bind
    fun _ _ => Draw.Yields.ite (fun _ => ?_) fun _ => ?_
  · have hrandom := Draw.yields_mapM_all (List.range samples)
      fun _ _ => yields_randomShape hR (Nat.lt_of_succ_lt hdim) ndim
    refine hrandom.bind fun drawn ⟨_, hdrawn⟩ => Draw.yields_pure fun shape hshape => ?_
    rcases List.mem_cons.1 hshape with rfl | hshape
    · exact (InBox.of_replicate ndim 1).mono le_rfl (Nat.le_max_right _ _)
    rcases List.mem_cons.1 hshape with rfl | hshape
    · exact (InBox.of_replicate ndim maxDim).mono le_rfl (Nat.le_max_left _ _)
    · exact hdrawn shape hshape
  · obtain ⟨shapes, hshapes, hboxes⟩ := exists_allShapes hdim ndim
    exact Draw.yields_checked hshapes fun shape hshape =>
      (hboxes shape hshape).mono le_rfl (Nat.le_max_left _ _)

/-- There is no memory for the sizes of a shape with too many axes. -/
theorem faults_shapesOfRank (hmem : ¬8 * ndim < signedBound) :
    (shapesOfRank R maxDim samples ndim).Faults .capacity :=
  (Draw.faults_checked (if_neg hmem)).bind

/-- **Rank after rank yields shapes**, all of them in the largest box. -/
theorem yields_shapesFromRank (hR : R.InRange) (hdim : maxDim + 1 < sizeBound) {count : Nat}
    (hend : ndim + count ≤ maxNdim + 1) (hmem : 8 * maxNdim < signedBound) :
    (shapesFromRank R maxDim samples ndim count).Yields
      fun shapes => ∀ shape ∈ shapes, shape.InBox maxNdim (max maxDim 1) := by
  induction count generalizing ndim with
  | zero => exact Draw.yields_pure fun _ h => absurd h List.not_mem_nil
  | succ count ih =>
    have hfits : 8 * ndim < signedBound := by omega
    -- the ranks so far are drawn first, and what they draw does not matter to the later ones
    refine (yields_shapesOfRank hR hdim hfits samples).bind fun shapes hshapes => ?_
    refine (ih (by omega)).bind fun later hlater => Draw.yields_pure fun shape hshape => ?_
    rcases List.mem_append.1 hshape with hshape | hshape
    · exact (hshapes shape hshape).mono (by omega) le_rfl
    · exact hlater shape hshape

/-- If every rank with memory yields shapes, it is the last one without that stops. -/
theorem faults_shapesFromRank
    (hranks : ∀ n, 8 * n < signedBound → (shapesOfRank R maxDim samples n).Yields fun _ => True)
    {count : Nat} (hend : ndim + count = maxNdim + 1) (hle : ndim ≤ maxNdim)
    (hmem : ¬8 * maxNdim < signedBound) :
    (shapesFromRank R maxDim samples ndim count).Faults .capacity := by
  induction count generalizing ndim with
  | zero => omega
  | succ count ih =>
    by_cases hfits : 8 * ndim < signedBound
    · -- the last rank is another one
      refine (hranks ndim hfits).bind_faults fun shapes _ => Draw.Faults.bind ?_
      exact ih (by omega) (by omega)
    · -- this rank stops before it draws anything
      exact (faults_shapesOfRank hfits).bind

/-- There is nothing to generate shapes from, or no rank to generate them for, or memory for the
sizes of every one. -/
def RanksFit (maxNdim maxDim samples minNdim : Nat) : Prop :=
  (maxDim = 0 ∧ samples = 0) ∨ maxNdim < minNdim ∨ 8 * maxNdim < signedBound

instance (maxNdim maxDim samples minNdim : Nat) :
    Decidable (RanksFit maxNdim maxDim samples minNdim) :=
  inferInstanceAs (Decidable (_ ∨ _))

/-- **What is generated lies in the box**, if there is memory for the sizes of every shape. -/
theorem yields_generateShapes (hR : R.InRange) (hdim : maxDim + 1 < sizeBound)
    (hfit : RanksFit maxNdim maxDim samples minNdim) :
    (generateShapes R maxNdim maxDim samples minNdim).Yields
      fun shapes => ∀ shape ∈ shapes, shape.InBox maxNdim (max maxDim 1) := by
  refine Draw.Yields.ite (fun _ => Draw.yields_pure fun _ h => absurd h List.not_mem_nil)
    fun hsome => ?_
  rcases hfit with hnone | hempty | hmem
  · exact absurd hnone hsome
  · -- no rank is left, so nothing is drawn and no memory asked for
    rw [show maxNdim + 1 - minNdim = 0 by omega]
    exact Draw.yields_pure fun _ h => absurd h List.not_mem_nil
  · by_cases hle : minNdim ≤ maxNdim + 1
    · exact yields_shapesFromRank hR hdim (by omega) hmem
    · rw [show maxNdim + 1 - minNdim = 0 by omega]
      exact Draw.yields_pure fun _ h => absurd h List.not_mem_nil

/-- If there is not, nothing is generated. -/
theorem faults_generateShapes
    (hranks : ∀ n, 8 * n < signedBound → (shapesOfRank R maxDim samples n).Yields fun _ => True)
    (hfit : ¬RanksFit maxNdim maxDim samples minNdim) :
    (generateShapes R maxNdim maxDim samples minNdim).Faults .capacity := by
  -- none of the three ways to fit holds
  obtain ⟨hsome, hle, hmem⟩ : ¬(maxDim = 0 ∧ samples = 0) ∧ minNdim ≤ maxNdim ∧
      ¬8 * maxNdim < signedBound := by
    unfold RanksFit at hfit
    omega
  intro s
  unfold generateShapes
  rw [if_neg hsome]
  exact faults_shapesFromRank hranks (by omega) hle hmem s

/-! ### Without samples -/

/-- Without samples nothing is drawn: all shapes of the rank are listed. -/
theorem shapesOfRank_zero (hone : 1 ≤ maxDim) (hmax : maxDim + 1 < sizeBound)
    (hmem : 8 * ndim < signedBound) (s : σ) :
    shapesOfRank R maxDim 0 ndim s = .ok (boxShapes maxDim ndim, s) := by
  have hcheck : (liftM (checkMemory (8 * ndim)) : Draw σ Unit) s = .ok ((), s) := by
    rw [checkMemory_eq_ok_iff.2 hmem]
    rfl
  rw [shapesOfRank, Draw.bind_of_ok hcheck, if_neg (Nat.lt_irrefl 0), allShapes_eq hone hmax]
  rfl

/-- Rank after rank all shapes are listed, and the source is not asked. -/
theorem shapesFromRank_zero (hone : 1 ≤ maxDim) (hmax : maxDim + 1 < sizeBound) {count : Nat}
    (hend : ndim + count ≤ maxNdim + 1) (hmem : 8 * maxNdim < signedBound) (s : σ) :
    shapesFromRank R maxDim 0 ndim count s
      = .ok (((List.range' ndim count).map (boxShapes maxDim)).flatten, s) := by
  induction count generalizing ndim with
  | zero => rfl
  | succ count ih =>
    have hfits : 8 * ndim < signedBound := by omega
    rw [shapesFromRank, Draw.bind_of_ok (shapesOfRank_zero hone hmax hfits s),
      Draw.bind_of_ok (ih (by omega)), List.range'_succ, List.map_cons, List.flatten_cons]
    rfl

/-- **All shapes are generated, rank by rank**, when no samples are asked for. The source is left as
it is, so nothing is drawn from it, and no sum overflows. If there is no rank there are no shapes,
and if there is no memory for the sizes of a shape of some rank that is asked for, nothing is
generated. -/
theorem exhaustive_shapes (hone : 1 ≤ maxDim) (hmax : maxDim + 1 < sizeBound)
    (R : RangeSource σ) (maxNdim minNdim : Nat) (s : σ) :
    (RanksFit maxNdim maxDim 0 minNdim → ∃ blocks : List (List Shape),
      generateShapes R maxNdim maxDim 0 minNdim s = .ok (blocks.flatten, s) ∧
      List.Forall₂ (Shape.Lists maxDim) (List.range' minNdim (maxNdim + 1 - minNdim)) blocks) ∧
    (maxNdim < minNdim → generateShapes R maxNdim maxDim 0 minNdim s = .ok ([], s)) ∧
    (¬RanksFit maxNdim maxDim 0 minNdim →
      generateShapes R maxNdim maxDim 0 minNdim s = .error .capacity) := by
  have hsome : ¬(maxDim = 0 ∧ (0 : Nat) = 0) := fun h => Nat.ne_of_gt hone h.1
  have hempty : maxNdim < minNdim → generateShapes R maxNdim maxDim 0 minNdim s = .ok ([], s) := by
    intro hlt
    rw [generateShapes, if_neg hsome, Nat.sub_eq_zero_of_le hlt]
    rfl
  refine ⟨fun hfit => ?_, hempty, fun hfit => ?_⟩
  · refine ⟨(List.range' minNdim (maxNdim + 1 - minNdim)).map (boxShapes maxDim), ?_, ?_⟩
    · rcases hfit with hnone | hlt | hmem
      · exact absurd hnone hsome
      · rw [hempty hlt, Nat.sub_eq_zero_of_le hlt]
        rfl
      · by_cases hlt : maxNdim < minNdim
        · rw [hempty hlt, Nat.sub_eq_zero_of_le hlt]
          rfl
        · rw [generateShapes, if_neg hsome]
          exact shapesFromRank_zero hone hmax (by omega) hmem s
    · -- the blocks are the listings of the ranks, one by one
      rw [List.forall₂_map_right_iff, List.forall₂_same]
      exact fun ndim _ => lists_boxShapes maxDim ndim
  · refine faults_generateShapes (fun ndim hmem s => ?_) hfit s
    exact ⟨_, s, shapesOfRank_zero hone hmax hmem s, trivial⟩

/-- The shapes of up to two axes with sizes up to three: one, three and nine of them. -/
theorem exhaustive_shapes_pairs :
    1 ≤ 3 ∧ 3 + 1 < sizeBound ∧ RanksFit 2 3 0 0 ∧ ∃ shapes,
      generateShapes (.ofWords Recital.source) 2 3 0 0 ⟨[], 0, 0⟩
        = .ok (shapes, ⟨[], 0, 0⟩) ∧ shapes.length = 13 := by
  have hone : 1 ≤ 3 := by decide
  have hmax : 3 + 1 < sizeBound := by decide
  have hfit : RanksFit 2 3 0 0 := by decide
  obtain ⟨blocks, hrun, hblocks⟩ :=
    (exhaustive_shapes hone hmax (.ofWords Recital.source) 2 0 ⟨[], 0, 0⟩).1 hfit
  refine ⟨hone, hmax, hfit, blocks.flatten, hrun, ?_⟩
  match blocks, hblocks with
  | [scalar, lines, squares], .cons hscalar (.cons hlines (.cons hsquares .nil)) =>
    simp [hscalar.length_eq, hlines.length_eq, hsquares.length_eq]

/-- **There need not be a shape.** There is one shape of `2 ^ 60` axes of size one, but no memory
for its sizes. -/
theorem exhaustive_shapes_too_long :
    1 ≤ 1 ∧ 1 + 1 < sizeBound ∧ ¬∃ shapes s,
      generateShapes (.ofWords Recital.source) 1152921504606846976 1 0 1152921504606846976
        ⟨[], 0, 0⟩ = .ok (shapes, s) := by
  have hfault : generateShapes (.ofWords Recital.source) 1152921504606846976 1 0
      1152921504606846976 ⟨[], 0, 0⟩ = .error .capacity := rfl
  refine ⟨le_rfl, by decide, ?_⟩
  rintro ⟨shapes, s, h⟩
  rw [hfault] at h
  cases h

end Ranks

end Strided
