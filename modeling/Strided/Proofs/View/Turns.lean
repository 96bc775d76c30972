import Strided.Proofs.View.Walk

/-!
# Where a walk can overflow

A walk adds one stride at a time, so it stands on elements most of the time. There is one exception.
When an axis is through, the walk goes one past its end, and only then finds out and takes the way
back along the axis off again. These are the `turns` of a move, and if the elements themselves and
the ways are signed words (`Tame`), nothing else can overflow: `Odometer.decided_of_tame` says that
a move overflows if and only if one of its turns is at no signed word, and
`View.fault_offsets_cases` that a walk does if and only if an `Overrun` is.

An axis comes round once for every row of the axes before it, except for the last one: after the
last element there is no move. So the overruns are the places one past the end of an axis
(`Beyond`) where some axis before it has not come to its last index yet. If there is no such axis
at all, then the way back is never taken, and need not be a signed word either: what a walk asks for
is no more than a `Calm` layout.

An axis with a single index turns at every row, and a stride that no two elements are apart by is
added there all the same. With `Room` around the elements there is no such danger, whatever the
sizes (`View.fault_offsets`).
-/

namespace Strided

/-! ### Signed words -/

/-- **The number is a signed word.** -/
def SignedWord (z : Int) : Prop := -(signedBound : Int) ≤ z ∧ z < (signedBound : Int)

instance (z : Int) : Decidable (SignedWord z) := inferInstanceAs (Decidable (_ ∧ _))

theorem SignedWord.check_eq {z : Int} (h : SignedWord z) : checkSigned z = .ok z :=
  checkSigned_eq_ok_iff.2 ⟨h, rfl⟩

theorem checkSigned_of_not {z : Int} (h : ¬SignedWord z) : checkSigned z = .error .overflow :=
  if_neg h

theorem SignedWord.of_natAbs {z : Int} (h : z.natAbs < signedBound) : SignedWord z :=
  ⟨by omega, by omega⟩

/-- **A number of strides whose way is a signed word can be read as one.** The number itself
need not be one, but then the stride is zero. -/
theorem toSigned_mul_of_way {n : Nat} {step : Int} (h : n * step.natAbs < signedBound) :
    toSigned n * step = n * step := by
  -- the way is no shorter than the number of strides, unless it is none
  rcases Nat.eq_zero_or_pos step.natAbs with hzero | hpos
  · rw [Int.natAbs_eq_zero.1 hzero, Int.mul_zero, Int.mul_zero]
  · rw [toSigned_of_lt (lt_of_le_of_lt (Nat.le_mul_of_pos_right n hpos) h)]

/-! ### One past the end of an axis -/

/-- **One past the end of an axis**: the axes before it stand inside, those after it at their
start. This is where a walk finds out that an axis is through. -/
def Beyond : List Nat → List Nat → Prop
  | i :: index, dim :: dims => (i < dim ∧ Beyond index dims) ∨ (i = dim ∧ index = firstIndex dims)
  | _, _ => False

/-- **One past the end of an axis that has to come round**, because some axis before it has not
come to its last index yet. -/
def Overrun : List Nat → List Nat → Prop
  | i :: index, dim :: dims => (i + 1 < dim ∧ Beyond index dims) ∨ (i < dim ∧ Overrun index dims)
  | _, _ => False

/-- The places one past the end of an axis that a move from `index` comes by, in the order of the
move. -/
def turns : List Nat → List Nat → List (List Nat)
  | dim :: dims, i :: index =>
    (turns dims index).map (i :: ·)
      ++ if (successor dims index).1 ∧ ¬i + 1 < dim then [(i + 1) :: firstIndex dims] else []
  | _, _ => []

variable {dims index x : List Nat} {dim i : Nat}

theorem Overrun.beyond (h : Overrun x dims) : Beyond x dims := by
  induction dims generalizing x with
  | nil => cases x <;> exact h.elim
  | cons dim dims ih =>
    cases x with
    | nil => exact h.elim
    | cons i x =>
      rcases h with ⟨hi, hx⟩ | ⟨hi, hx⟩
      · exact .inl ⟨Nat.lt_of_succ_lt hi, hx⟩
      · exact .inl ⟨hi, ih hx⟩

/-- A turn of a later axis. -/
theorem cons_mem_turns (hx : x ∈ turns dims index) (dim i : Nat) :
    i :: x ∈ turns (dim :: dims) (i :: index) :=
  List.mem_append_left _ (List.mem_map_of_mem hx)

/-- The turns of a move that does not move the first axis. -/
theorem turns_of_stay (h : (successor dims index).1 = false) (dim i : Nat) :
    turns (dim :: dims) (i :: index) = (turns dims index).map (i :: ·) := by
  rw [turns, h, if_neg (by simp), List.append_nil]

/-- The turns of a move to the next index of the first axis. -/
theorem turns_of_move (hi : i + 1 < dim) (dims index : List Nat) :
    turns (dim :: dims) (i :: index) = (turns dims index).map (i :: ·) := by
  rw [turns, if_neg (by simp [hi]), List.append_nil]

/-- The turns of a move with which the first axis comes round. -/
theorem turns_of_round (h : (successor dims index).1 = true) (i : Nat) :
    turns ((i + 1) :: dims) (i :: index)
      = (turns dims index).map (i :: ·) ++ [(i + 1) :: firstIndex dims] := by
  rw [turns, h, if_pos (by simp)]

/-- A turn is one of a later axis, or that of the first one. -/
theorem mem_turns_cons (hx : x ∈ turns (dim :: dims) (i :: index)) :
    (∃ y ∈ turns dims index, x = i :: y) ∨
      ((successor dims index).1 = true ∧ ¬i + 1 < dim ∧ x = (i + 1) :: firstIndex dims) := by
  rcases List.mem_append.1 hx with hx | hx
  · obtain ⟨y, hy, rfl⟩ := List.mem_map.1 hx
    exact .inl ⟨y, hy, rfl⟩
  · split at hx
    · rename_i hround
      exact .inr ⟨hround.1, hround.2, List.mem_singleton.1 hx⟩
    · exact absurd hx List.not_mem_nil

/-- A turn is one past the end of an axis. -/
theorem beyond_of_mem_turns (hin : Within index dims) (hx : x ∈ turns dims index) :
    Beyond x dims := by
  induction dims generalizing index x with
  | nil => cases index <;> exact absurd hx List.not_mem_nil
  | cons dim dims ih =>
    cases index with
    | nil => exact hin.elim
    | cons i index =>
      rcases mem_turns_cons hx with ⟨y, hy, rfl⟩ | ⟨-, hi, rfl⟩
      · exact .inl ⟨hin.1, ih hin.2 hy⟩
      · -- the first axis has come to its last index
        have hlt := hin.1
        exact .inr ⟨by omega, rfl⟩

/-- There is a last multi-index. -/
theorem exists_round (hpos : ∀ dim ∈ dims, 0 < dim) :
    ∃ index, Within index dims ∧ (successor dims index).1 = true := by
  induction dims with
  | nil => exact ⟨[], trivial, rfl⟩
  | cons dim dims ih =>
    obtain ⟨last, hlast, hround⟩ := ih fun d hd => hpos d (List.mem_cons_of_mem _ hd)
    have hdim := hpos dim List.mem_cons_self
    refine ⟨(dim - 1) :: last, ⟨by omega, hlast⟩, ?_⟩
    rcases hs : successor dims last with ⟨carry, next⟩
    rw [hs] at hround
    obtain rfl : carry = true := hround
    -- all axes stand on their last index, and the first has no next one
    rw [successor_of_round dim (dim - 1) hs, if_neg (by omega)]

/-- Every place one past the end of an axis is a turn of some move. -/
theorem exists_turn (hpos : ∀ dim ∈ dims, 0 < dim) (hx : Beyond x dims) :
    ∃ index, Within index dims ∧ x ∈ turns dims index := by
  induction dims generalizing x with
  | nil => cases x <;> exact hx.elim
  | cons dim dims ih =>
    have hrest : ∀ d ∈ dims, 0 < d := fun d hd => hpos d (List.mem_cons_of_mem _ hd)
    cases x with
    | nil => exact hx.elim
    | cons i x =>
      rcases hx with ⟨hi, hx⟩ | ⟨rfl, rfl⟩
      · obtain ⟨index, hin, hturn⟩ := ih hrest hx
        exact ⟨i :: index, ⟨hi, hin⟩, cons_mem_turns hturn dim i⟩
      · -- the axis comes round from its last index
        obtain ⟨last, hlast, hround⟩ := exists_round hrest
        obtain ⟨m, rfl⟩ : ∃ m, i = m + 1 :=
          Nat.exists_eq_add_one.2 (hpos i List.mem_cons_self)
        refine ⟨m :: last, ⟨Nat.lt_succ_self m, hlast⟩, ?_⟩
        rw [turns_of_round hround]
        exact List.mem_append_right _ (List.mem_singleton_self _)

/-- **The overruns are the turns of the moves of a walk**: there is a move from every multi-index
but the last. -/
theorem overrun_iff (hpos : ∀ dim ∈ dims, 0 < dim) : Overrun x dims ↔
    ∃ index, Within index dims ∧ (successor dims index).1 = false ∧ x ∈ turns dims index := by
  induction dims generalizing x with
  | nil =>
    constructor
    · intro h
      cases x <;> exact h.elim
    · rintro ⟨index, -, -, hx⟩
      cases index <;> exact absurd hx List.not_mem_nil
  | cons dim dims ih =>
    have hrest : ∀ d ∈ dims, 0 < d := fun d hd => hpos d (List.mem_cons_of_mem _ hd)
    constructor
    · intro h
      cases x with
      | nil => exact h.elim
      | cons i x =>
        rcases h with ⟨hi, hx⟩ | ⟨hi, hx⟩
        · -- wherever the later axes stand, the first one has still to move
          obtain ⟨index, hin, hturn⟩ := exists_turn hrest hx
          refine ⟨i :: index, ⟨Nat.lt_of_succ_lt hi, hin⟩, ?_, cons_mem_turns hturn dim i⟩
          rcases hs : successor dims index with ⟨carry, next⟩
          cases carry with
          | false => rw [successor_of_stay dim i hs]
          | true => rw [successor_of_round dim i hs, if_pos hi]
        · -- a later axis comes round with a move that leaves the first where it is
          obtain ⟨index, hin, hmore, hturn⟩ := (ih hrest).1 hx
          refine ⟨i :: index, ⟨hi, hin⟩, ?_, cons_mem_turns hturn dim i⟩
          rcases hs : successor dims index with ⟨carry, next⟩
          rw [hs] at hmore
          obtain rfl : carry = false := hmore
          rw [successor_of_stay dim i hs]
    · rintro ⟨index, hin, hmore, hx⟩
      cases index with
      | nil => exact hin.elim
      | cons i index =>
        rcases hs : successor dims index with ⟨carry, next⟩
        cases carry with
        | false =>
          rw [turns_of_stay (congrArg Prod.fst hs)] at hx
          obtain ⟨y, hy, rfl⟩ := List.mem_map.1 hx
          exact .inr ⟨hin.1, (ih hrest).2 ⟨index, hin.2, congrArg Prod.fst hs, hy⟩⟩
        | true =>
          -- the later axes come round, so the first one has not come to its last index
          have hi : i + 1 < dim := by
            by_contra hi
            rw [successor_of_round dim i hs, if_neg hi] at hmore
            exact absurd hmore (by simp)
          rw [turns_of_move hi] at hx
          obtain ⟨y, hy, rfl⟩ := List.mem_map.1 hx
          exact .inl ⟨hi, beyond_of_mem_turns hin.2 hy⟩

/-! ### Moves -/

/-- **The elements are at signed words, and so are the ways back along the axes**, which are read
without loss. An axis may be longer than a signed word can tell, if its elements repeat. -/
structure Tame (dims : List Nat) (steps : List Int) (base : Int) : Prop where
  within_word : ∀ index, Within index dims → SignedWord (base + displacement index steps)
  way_eq : ∀ p ∈ dims.zip steps, p.2 * toSigned p.1 = p.2 * (p.1 : Int)
  way_word : ∀ p ∈ dims.zip steps, SignedWord (p.2 * (p.1 : Int))

/-- The axes after the first are as tame, wherever the first one stands. -/
theorem Tame.tail {step base : Int} {steps : List Int}
    (h : Tame (dim :: dims) (step :: steps) base) (hi : i < dim) :
    Tame dims steps (base + i * step) where
  within_word index hin := by
    have hp := h.within_word (i :: index) ⟨hi, hin⟩
    rwa [displacement_cons, ← Int.add_assoc] at hp
  way_eq p hp := h.way_eq p (List.mem_cons_of_mem _ hp)
  way_word p hp := h.way_word p (List.mem_cons_of_mem _ hp)

/-- The axes that come round in a walk, with their strides: those behind one with a second
index. -/
def turningAxes : List Nat → List Int → List (Nat × Int)
  | dim :: dims, _ :: steps => if dim ≤ 1 then turningAxes dims steps else dims.zip steps
  | _, _ => []

theorem turningAxes_subset (dims : List Nat) (steps : List Int) :
    turningAxes dims steps ⊆ dims.zip steps := by
  induction dims generalizing steps with
  | nil => exact List.nil_subset _
  | cons dim dims ih =>
    cases steps with
    | nil => exact List.nil_subset _
    | cons step steps =>
      rw [turningAxes]
      split
      · exact List.subset_cons_of_subset _ (ih steps)
      · exact List.subset_cons_self _ _

/-- **What a walk asks for**: the elements are at signed words, and so are the ways back along the
axes that come round in it. -/
structure Calm (dims : List Nat) (steps : List Int) (base : Int) : Prop where
  within_word : ∀ index, Within index dims → SignedWord (base + displacement index steps)
  way_eq : ∀ p ∈ turningAxes dims steps, p.2 * toSigned p.1 = p.2 * (p.1 : Int)
  way_word : ∀ p ∈ turningAxes dims steps, SignedWord (p.2 * (p.1 : Int))

/-- It is enough that these ways are short. -/
theorem calm_of_ways {steps : List Int} {base : Int}
    (hwords : ∀ index, Within index dims → SignedWord (base + displacement index steps))
    (hways : ∀ p ∈ turningAxes dims steps, p.1 * p.2.natAbs < signedBound) :
    Calm dims steps base where
  within_word := hwords
  way_eq p hp := by rw [Int.mul_comm, toSigned_mul_of_way (hways p hp), Int.mul_comm]
  way_word p hp := .of_natAbs <| by
    rw [Int.natAbs_mul, Int.natAbs_natCast, Nat.mul_comm]
    exact hways p hp

theorem Tame.calm {steps : List Int} {base : Int} (h : Tame dims steps base) :
    Calm dims steps base where
  within_word := h.within_word
  way_eq p hp := h.way_eq p (turningAxes_subset dims steps hp)
  way_word p hp := h.way_word p (turningAxes_subset dims steps hp)

namespace Calm

variable {step base : Int} {steps : List Int}

/-- Behind an axis with a single index, what is calm stays so. -/
theorem tail (h : Calm (1 :: dims) (step :: steps) base) : Calm dims steps base where
  within_word index hin := by
    have hp := h.within_word (0 :: index) ⟨Nat.zero_lt_one, hin⟩
    rwa [displacement_cons, Int.natCast_zero, Int.zero_mul, Int.zero_add] at hp
  way_eq p hp := h.way_eq p (by rwa [turningAxes, if_pos le_rfl])
  way_word p hp := h.way_word p (by rwa [turningAxes, if_pos le_rfl])

/-- Behind one with more, every axis comes round. -/
theorem tame_tail (h : Calm (dim :: dims) (step :: steps) base) (hdim : 1 < dim) (hi : i < dim) :
    Tame dims steps (base + i * step) where
  within_word index hin := by
    have hp := h.within_word (i :: index) ⟨hi, hin⟩
    rwa [displacement_cons, ← Int.add_assoc] at hp
  way_eq p hp := h.way_eq p (by rwa [turningAxes, if_neg (Nat.not_le.2 hdim)])
  way_word p hp := h.way_word p (by rwa [turningAxes, if_neg (Nat.not_le.2 hdim)])

end Calm

namespace Odometer

/-- A move that carries has come round to the first multi-index. -/
theorem eq_firstIndex_of_advance {index' : List Nat} {steps : List Int} {position position' : Int}
    (hlen : steps.length = dims.length) (hin : Within index dims)
    (h : advance dims steps index position = .ok (true, index', position')) :
    index' = firstIndex dims := by
  have hs := (within_successor hin).2
  rw [← (advance_eq_ok hlen hin h).1] at hs
  exact hs rfl

section Steps

variable {steps : List Int} {step position p : Int} {index' : List Nat}

/-- A later axis moves, and this one does not. -/
theorem advance_of_stay (dim i : Nat) (step : Int)
    (h : advance dims steps index position = .ok (false, index', p)) :
    advance (dim :: dims) (step :: steps) (i :: index) position = .ok (false, i :: index', p) := by
  rw [advance, List.tail_cons, h, Checked.ok_bind]
  rfl

/-- The later axes come round, and this one has a next index. -/
theorem advance_of_move (h : advance dims steps index position = .ok (true, index', p))
    (hi : i + 1 < dim) (hword : SignedWord (p + step)) :
    advance (dim :: dims) (step :: steps) (i :: index) position
      = .ok (false, (i + 1) :: index', p + step) := by
  rw [advance, List.tail_cons, h, Checked.ok_bind]
  simp only [Bool.not_true, Bool.false_eq_true, if_false, List.head?_cons]
  rw [hword.check_eq, Checked.ok_bind, if_pos hi]
  rfl

/-- They come round, and so does this one. -/
theorem advance_of_round (h : advance dims steps index position = .ok (true, index', p))
    (hi : ¬i + 1 < dim) (hword : SignedWord (p + step))
    (hway : SignedWord (step * toSigned (i + 1)))
    (hback : SignedWord (p + step - step * toSigned (i + 1))) :
    advance (dim :: dims) (step :: steps) (i :: index) position
      = .ok (true, 0 :: index', p + step - step * toSigned (i + 1)) := by
  rw [advance, List.tail_cons, h, Checked.ok_bind]
  simp only [Bool.not_true, Bool.false_eq_true, if_false, List.head?_cons]
  rw [hword.check_eq, Checked.ok_bind, if_neg hi, hway.check_eq, Checked.ok_bind, hback.check_eq]
  rfl

/-- There is no signed word where this one would have to go. -/
theorem advance_of_overrun (dim i : Nat)
    (h : advance dims steps index position = .ok (true, index', p))
    (hword : ¬SignedWord (p + step)) :
    advance (dim :: dims) (step :: steps) (i :: index) position = .error .overflow := by
  rw [advance, List.tail_cons, h, Checked.ok_bind]
  simp only [Bool.not_true, Bool.false_eq_true, if_false, List.head?_cons]
  rw [checkSigned_of_not hword, Checked.error_bind]

end Steps

/-- **The turns of a move decide over it**: it goes through if all of them are at signed words, and
ends in the exact position then, and else it overflows. -/
def Decided (dims : List Nat) (steps : List Int) (base : Int) (index : List Nat) : Prop :=
  ((∀ x ∈ turns dims index, SignedWord (base + displacement x steps)) ∧
    ∃ carry index', advance dims steps index (base + displacement index steps)
      = .ok (carry, index', base + displacement index' steps)) ∨
  ((∃ x ∈ turns dims index, ¬SignedWord (base + displacement x steps)) ∧
    advance dims steps index (base + displacement index steps) = .error .overflow)

/-- If the later axes come round, the first one moves by a step: to the next element, or one past
the end of the axis and back to its start. -/
theorem Decided.cons {step base : Int} {steps : List Int} (hlen : steps.length = dims.length)
    (hi : i < dim) (hin : Within index dims)
    (hword : ∀ j < dim, SignedWord (base + displacement (j :: firstIndex dims) (step :: steps)))
    (hway : (successor dims index).1 = true → ¬i + 1 < dim →
      step * toSigned dim = step * dim ∧ SignedWord (step * dim))
    (h : Decided dims steps (base + i * step) index) :
    Decided (dim :: dims) (step :: steps) base (i :: index) := by
  unfold Decided
  -- where the first axis stands, the turns of the later ones are at the same positions
  have hshift : ∀ y : List Nat, base + displacement (i :: y) (step :: steps)
      = base + i * step + displacement y steps := fun y => by
    rw [displacement_cons, ← Int.add_assoc]
  rw [hshift]
  rcases h with ⟨hwords, carry, next, hadv⟩ | ⟨⟨y, hy, hfar⟩, hadv⟩
  -- an overflow of the later axes is one of the move
  swap
  · refine .inr ⟨⟨i :: y, cons_mem_turns hy dim i, ?_⟩, ?_⟩
    · rwa [hshift]
    · rw [advance, List.tail_cons, hadv, Checked.error_bind]
  -- if the first axis does not turn, the turns are those of the later ones
  have hlater : ∀ x ∈ (turns dims index).map (i :: ·),
      SignedWord (base + displacement x (step :: steps)) := by
    intro x hx
    obtain ⟨y, hy, rfl⟩ := List.mem_map.1 hx
    rw [hshift]
    exact hwords y hy
  have hs := (advance_eq_ok hlen hin hadv).1
  cases carry with
  | false =>
    rw [turns_of_stay (congrArg Prod.fst hs.symm), advance_of_stay dim i step hadv]
    exact .inl ⟨hlater, false, i :: next, by rw [hshift]⟩
  | true =>
    obtain rfl := eq_firstIndex_of_advance hlen hin hadv
    -- with the later axes at their start the first one has moved by a step
    have hmoves : base + i * step + displacement (firstIndex dims) steps + step
        = base + displacement ((i + 1) :: firstIndex dims) (step :: steps) := by
      rw [displacement_cons]
      push_cast
      ring
    by_cases hmove : i + 1 < dim
    · have hnext := hword (i + 1) hmove
      rw [← hmoves] at hnext
      rw [turns_of_move hmove, advance_of_move hadv hmove hnext, hmoves]
      exact .inl ⟨hlater, false, (i + 1) :: firstIndex dims, rfl⟩
    · obtain ⟨hread, hback⟩ := hway (congrArg Prod.fst hs.symm) hmove
      obtain rfl : dim = i + 1 := by omega
      rw [turns_of_round (congrArg Prod.fst hs.symm)]
      by_cases hend : SignedWord
          (base + displacement ((i + 1) :: firstIndex dims) (step :: steps))
      -- one past the end there is no signed word, so the way back is never taken
      swap
      · refine .inr ⟨⟨_, List.mem_append_right _ (List.mem_singleton_self _), hend⟩, ?_⟩
        rw [← hmoves] at hend
        exact advance_of_overrun _ i hadv hend
      have hzero := hword 0 (Nat.succ_pos i)
      -- taking off the way leads back to the start of the axis
      have hstart : base + i * step + displacement (firstIndex dims) steps + step
          - step * toSigned (i + 1)
          = base + displacement (0 :: firstIndex dims) (step :: steps) := by
        rw [hread, displacement_cons]
        push_cast
        ring
      refine .inl ⟨fun x hx => ?_, true, 0 :: firstIndex dims, ?_⟩
      · rcases List.mem_append.1 hx with hx | hx
        · exact hlater x hx
        · rwa [List.mem_singleton.1 hx]
      · rw [← hmoves] at hend
        rw [← hread] at hback
        rw [← hstart] at hzero
        rw [advance_of_round hadv hmove hend hback hzero, hstart]

/-- **A move in a tame layout is decided by its turns.** -/
theorem decided_of_tame {steps : List Int} {base : Int} (hlen : steps.length = dims.length)
    (hin : Within index dims) (h : Tame dims steps base) : Decided dims steps base index := by
  induction dims generalizing index steps base with
  | nil =>
    cases index with
    | nil => exact .inl ⟨fun x hx => absurd hx List.not_mem_nil, true, [], rfl⟩
    | cons i index => exact hin.elim
  | cons dim dims ih =>
    cases index with
    | nil => exact hin.elim
    | cons i index =>
      obtain ⟨step, steps, rfl⟩ := List.exists_cons_of_length_eq_add_one hlen
      obtain ⟨hi, hin⟩ := hin
      have hfirst := within_firstIndex hin.pos
      -- every position that is asked for is that of an element
      exact (ih (Nat.succ.inj hlen) hin (h.tail hi)).cons (Nat.succ.inj hlen) hi hin
        (fun j hj => h.within_word (j :: firstIndex dims) ⟨hj, hfirst⟩)
        fun _ _ => ⟨h.way_eq (dim, step) List.mem_cons_self,
          h.way_word (dim, step) List.mem_cons_self⟩

/-- **In a calm layout every move of a walk is**, which is one that leads to a next element: the
first axis that can move does not have to come round. -/
theorem decided_of_calm {steps : List Int} {base : Int} (hlen : steps.length = dims.length)
    (hin : Within index dims) (h : Calm dims steps base)
    (hmore : (successor dims index).1 = false) : Decided dims steps base index := by
  induction dims generalizing index steps base with
  | nil =>
    cases index with
    | nil => exact absurd hmore (by simp [successor])
    | cons i index => exact hin.elim
  | cons dim dims ih =>
    cases index with
    | nil => exact hin.elim
    | cons i index =>
      obtain ⟨step, steps, rfl⟩ := List.exists_cons_of_length_eq_add_one hlen
      have hfirst := within_firstIndex hin.2.pos
      have hwords : ∀ j < dim,
          SignedWord (base + displacement (j :: firstIndex dims) (step :: steps)) :=
        fun j hj => h.within_word (j :: firstIndex dims) ⟨hj, hfirst⟩
      -- if the later axes come round, the first one has a next index
      have hstay : ¬i + 1 < dim → (successor dims index).1 = false := by
        intro hi
        rcases hs : successor dims index with ⟨carry, next⟩
        cases carry with
        | false => rfl
        | true =>
          rw [successor_of_round dim i hs, if_neg hi] at hmore
          exact absurd hmore (by simp)
      have hway : (successor dims index).1 = true → ¬i + 1 < dim →
          step * toSigned dim = step * dim ∧ SignedWord (step * dim) :=
        fun hround hi => absurd (hround.symm.trans (hstay hi)) (by simp)
      refine Decided.cons (Nat.succ.inj hlen) hin.1 hin.2 hwords hway ?_
      -- behind an axis with a second index everything is tame, and behind any other all is as
      -- before
      by_cases hdim : 1 < dim
      · exact decided_of_tame (Nat.succ.inj hlen) hin.2 (h.tame_tail hdim hin.1)
      · obtain ⟨rfl, rfl⟩ : dim = 1 ∧ i = 0 := by
          have hlt := hin.1
          omega
        rw [Int.natCast_zero, Int.zero_mul, Int.add_zero]
        exact ih (Nat.succ.inj hlen) hin.2 h.tail (hstay (by omega))

/-- From a multi-index on there is at least this one. -/
theorem indicesFrom_ne_nil (hin : Within index dims) : indicesFrom dims index ≠ [] := by
  rw [indicesFrom_eq hin]
  exact List.cons_ne_nil _ _

/-- **A walk from a multi-index on goes through if and only if the turns of its moves are at signed
words.** -/
theorem fault_drain_cases {v : View} {base : Int} {n : Nat}
    (hlen : v.strides.steps.length = v.shape.dims.length) (hin : Within index v.shape.dims)
    (h : Calm v.shape.dims v.strides.steps base)
    (hcount : (indicesFrom v.shape.dims index).length = n) :
    ((drain n ⟨v, index, n, base + displacement index v.strides.steps⟩).fault = none ∧
      ∀ j ∈ indicesFrom v.shape.dims index, (successor v.shape.dims j).1 = false →
        ∀ x ∈ turns v.shape.dims j, SignedWord (base + displacement x v.strides.steps)) ∨
    ((drain n ⟨v, index, n, base + displacement index v.strides.steps⟩).fault = some .overflow ∧
      ∃ j ∈ indicesFrom v.shape.dims index, (successor v.shape.dims j).1 = false ∧
        ∃ x ∈ turns v.shape.dims j, ¬SignedWord (base + displacement x v.strides.steps)) := by
  induction n generalizing index with
  | zero => exact absurd (List.eq_nil_of_length_eq_zero hcount) (indicesFrom_ne_nil hin)
  | succ n ih =>
    have hfrom := indicesFrom_eq hin
    rcases hs : successor v.shape.dims index with ⟨carry, next⟩
    rw [hs] at hfrom
    rw [hfrom, List.length_cons, Nat.succ_inj] at hcount
    rw [hfrom]
    cases carry with
    | true =>
      -- this is the last element, and it is yielded without a move
      obtain rfl : 0 = n := hcount
      refine .inl ⟨rfl, fun j hj hmore => ?_⟩
      obtain rfl := List.mem_singleton.1 hj
      rw [hs] at hmore
      exact absurd hmore (by simp)
    | false =>
      have hnext : Within next v.shape.dims := by
        have hwithin := (within_successor hin).1
        rwa [hs] at hwithin
      obtain ⟨m, rfl⟩ : ∃ m, n = m + 1 := Nat.exists_eq_add_one.2 <| by
        rw [← hcount]
        exact List.length_pos_iff.2 (indicesFrom_ne_nil hnext)
      -- the first move decides, and if it goes through the rest of the walk does
      rcases decided_of_calm hlen hin h (congrArg Prod.fst hs) with
        ⟨hwords, carry, index', hadv⟩ | ⟨⟨x, hx, hword⟩, hadv⟩
      · obtain ⟨rfl, rfl⟩ := Prod.mk.inj ((advance_eq_ok hlen hin hadv).1.trans hs)
        rw [drain, next_of_more, hadv]
        rcases ih hnext hcount with ⟨hfault, hrest⟩ | ⟨hfault, j, hj, hmore⟩
        · refine .inl ⟨hfault, fun j hj hmore => ?_⟩
          rcases List.mem_cons.1 hj with rfl | hj
          · exact hwords
          · exact hrest j hj hmore
        · exact .inr ⟨hfault, j, List.mem_cons_of_mem _ hj, hmore⟩
      · rw [drain, next_of_more, hadv]
        exact .inr ⟨rfl, index, List.mem_cons_self, congrArg Prod.fst hs, x, hx, hword⟩

end Odometer

namespace View

variable {v : View} {n : Nat}

/-- **A walk over a calm view overflows if and only if an overrun is at no signed word.** -/
theorem fault_offsets_cases (hlen : v.strides.steps.length = v.shape.dims.length)
    (hnumel : v.numel = .ok n) (hpos : ∀ dim ∈ v.shape.dims, 0 < dim)
    (h : Calm v.shape.dims v.strides.steps (toSigned v.offset)) :
    (v.offsets.fault = none ∧ ∀ x, Overrun x v.shape.dims →
      SignedWord (toSigned v.offset + displacement x v.strides.steps)) ∨
    (v.offsets.fault = some .overflow ∧ ∃ x, Overrun x v.shape.dims ∧
      ¬SignedWord (toSigned v.offset + displacement x v.strides.steps)) := by
  -- from the first multi-index on there are all of them
  have hall := indicesFrom_firstIndex hpos
  have hcount : (indicesFrom v.shape.dims (firstIndex v.shape.dims)).length = n := by
    rw [hall, length_indicesOf, Shape.eq_volume_of_numel hnumel]
  have hdrain := Odometer.fault_drain_cases hlen (within_firstIndex hpos) h hcount
  rw [displacement_firstIndex, Int.add_zero, hall] at hdrain
  rw [offsets_of_numel hnumel]
  rcases hdrain with ⟨hfault, hwords⟩ | ⟨hfault, j, hj, hmore, x, hx, hword⟩
  · refine .inl ⟨hfault, fun x hx => ?_⟩
    obtain ⟨j, hj, hmore, hturn⟩ := (overrun_iff hpos).1 hx
    exact hwords j (mem_indicesOf.2 hj) hmore x hturn
  · exact .inr ⟨hfault, x, (overrun_iff hpos).2 ⟨j, mem_indicesOf.1 hj, hmore, hx⟩, hword⟩

end View

/-! ### Room to walk -/

/-- **Room around the elements.** The positions of the elements and those one past the end of
an axis are signed words, and so is the way back along an axis. An axis may be longer than a
signed word can tell, if its elements repeat. -/
structure Room (dims : List Nat) (steps : List Int) (base : Int) : Prop where
  within_lt : ∀ index, Within index dims → (base + displacement index steps).natAbs < signedBound
  beyond_lt : ∀ index, Beyond index dims → (base + displacement index steps).natAbs < signedBound
  way_lt : ∀ p ∈ dims.zip steps, p.1 * p.2.natAbs < signedBound

theorem Room.tame {steps : List Int} {base : Int} (h : Room dims steps base) :
    Tame dims steps base where
  within_word index hin := .of_natAbs (h.within_lt index hin)
  way_eq p hp := by rw [Int.mul_comm, toSigned_mul_of_way (h.way_lt p hp), Int.mul_comm]
  way_word p hp := .of_natAbs <| by
    have hway := h.way_lt p hp
    rwa [Int.natAbs_mul, Int.natAbs_natCast, Nat.mul_comm]

/-- **A walk over a view with room comes to its end.** -/
theorem View.fault_offsets {v : View} {n : Nat}
    (hlen : v.strides.steps.length = v.shape.dims.length) (hnumel : v.numel = .ok n)
    (hroom : Room v.shape.dims v.strides.steps (toSigned v.offset)) :
    v.offsets.fault = none := by
  rcases Nat.eq_zero_or_pos n with rfl | hpos
  · rw [offsets_of_numel hnumel]
    rfl
  · rw [Shape.eq_volume_of_numel hnumel] at hpos
    have hdims := Shape.volume_pos_iff.1 hpos
    rcases fault_offsets_cases hlen hnumel hdims hroom.tame.calm with
      ⟨hfault, -⟩ | ⟨-, x, hx, hword⟩
    · exact hfault
    · exact absurd (.of_natAbs (hroom.beyond_lt x hx.beyond)) hword

end Strided
