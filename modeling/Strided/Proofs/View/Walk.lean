import Strided.View.Index
import Strided.Proofs.Shape
import Mathlib.Data.List.Forall2
import Mathlib.Tactic.Ring

/-!
# The walk over a view

`View.offsets` finds the positions of the elements by moving from one to the next, in words
of 64 bits; `View.positions` states them one by one, in exact arithmetic. As far as a walk gets it
yields the exact positions, in row-major order, each one read as an unsigned word
(`View.items_offsets_initial`), and if it comes to its end it has yielded them all
(`View.items_offsets`). When it does is the subject of `Strided.Proofs.View.Turns`.

The proof is an induction along the walk, and it needs to know where in the row-major order an
index stands. That order is made explicit by `indicesFrom`, the multi-indices from a given one
on, and by `successor`, the odometer without positions: `indicesFrom_eq` says that a
multi-index is followed by its successor. The invariant that carries the induction is that the
position of the odometer and the exact position of its index differ by a multiple of `2 ^ 64`.
Nothing is said there about the range of the sums, so the statement also covers offsets and sizes
that no signed word can hold.
-/

namespace Strided

/-! ### Multi-indices entry by entry -/

/-- A multi-index is below the sizes entry by entry, as the library relates two lists. -/
theorem within_iff_forall₂ {dims index : List Nat} :
    Within index dims ↔ List.Forall₂ (· < ·) index dims := by
  induction dims generalizing index with
  | nil => cases index <;> simp [Within]
  | cons dim dims ih =>
    cases index with
    -- the list is too short for its axes
    | nil => simp [Within]
    | cons i index => exact (and_congr_right fun _ => ih).trans List.forall₂_cons.symm

/-- An axis on which an index stands is not empty. -/
theorem Within.pos {dims index : List Nat} (h : Within index dims) :
    ∀ dim ∈ dims, 0 < dim := by
  induction within_iff_forall₂.1 h with
  | nil => exact List.forall_mem_nil _
  | cons hi hlt ih =>
    exact List.forall_mem_cons.2 ⟨Nat.zero_lt_of_lt hi, ih (within_iff_forall₂.2 hlt)⟩

/-! ### The order of multi-indices -/

/-- The multi-indices of the axes `dims` from `index` on, in row-major order. -/
def indicesFrom : List Nat → List Nat → List (List Nat)
  | dim :: dims, i :: index =>
    (indicesFrom dims index).map (i :: ·)
      ++ (List.range' (i + 1) (dim - (i + 1))).flatMap fun j => (indicesOf dims).map (j :: ·)
  | _, _ => [[]]

/-- **The next multi-index** in row-major order. The first component tells that all axes
have come round to index zero. -/
def successor : List Nat → List Nat → Bool × List Nat
  | dim :: dims, i :: index =>
    match successor dims index with
    | (false, index) => (false, i :: index)
    | (true, index) => if i + 1 < dim then (false, (i + 1) :: index) else (true, 0 :: index)
  | _, index => (true, index)

/-- An axis stays where it is as long as a later one moves. -/
theorem successor_of_stay {dims index next : List Nat} (dim i : Nat)
    (h : successor dims index = (false, next)) :
    successor (dim :: dims) (i :: index) = (false, i :: next) := by
  rw [successor, h]

/-- An axis moves when all later ones have come round, or comes round itself. -/
theorem successor_of_round {dims index next : List Nat} (dim i : Nat)
    (h : successor dims index = (true, next)) :
    successor (dim :: dims) (i :: index)
      = if i + 1 < dim then (false, (i + 1) :: next) else (true, 0 :: next) := by
  rw [successor, h]

/-- The first multi-index. -/
def firstIndex (dims : List Nat) : List Nat := dims.map fun _ => 0

@[simp] theorem firstIndex_cons (dim : Nat) (dims : List Nat) :
    firstIndex (dim :: dims) = 0 :: firstIndex dims := rfl

theorem within_firstIndex {dims : List Nat} (h : ∀ dim ∈ dims, 0 < dim) :
    Within (firstIndex dims) dims :=
  within_iff_forall₂.2 (List.forall₂_map_left_iff.2 (List.forall₂_same.2 h))

/-- The first element lies at the offset. -/
theorem displacement_firstIndex (dims : List Nat) (steps : List Int) :
    displacement (firstIndex dims) steps = 0 := by
  induction dims generalizing steps with
  | nil => rfl
  | cons dim dims ih =>
    cases steps with
    | nil => rfl
    | cons step steps =>
      rw [firstIndex_cons, displacement_cons, ih, Int.natCast_zero, Int.zero_mul, Int.zero_add]

/-- The successor of a multi-index is one, and the first one where the order comes round. -/
theorem within_successor {dims index : List Nat} (h : Within index dims) :
    Within (successor dims index).2 dims ∧
      ((successor dims index).1 = true → (successor dims index).2 = firstIndex dims) := by
  induction dims generalizing index with
  | nil =>
    cases index with
    | nil => exact ⟨trivial, fun _ => rfl⟩
    | cons i index => exact h.elim
  | cons dim dims ih =>
    cases index with
    | nil => exact h.elim
    | cons i index =>
      obtain ⟨hi, hlt⟩ := h
      obtain ⟨hnext, hfirst⟩ := ih hlt
      rcases hs : successor dims index with ⟨carry, next⟩
      rw [hs] at hnext hfirst
      cases carry with
      | false =>
        -- a later axis moves, this one stays
        rw [successor_of_stay dim i hs]
        exact ⟨⟨hi, hnext⟩, fun hc => absurd hc (by simp)⟩
      | true =>
        -- the later axes have come round, so this one moves or comes round too
        rw [successor_of_round dim i hs]
        by_cases hmove : i + 1 < dim
        · rw [if_pos hmove]
          exact ⟨⟨hmove, hnext⟩, fun hc => absurd hc (by simp)⟩
        · rw [if_neg hmove]
          refine ⟨⟨Nat.zero_lt_of_lt hi, hnext⟩, fun _ => ?_⟩
          rw [firstIndex_cons, ← hfirst rfl]

/-- From the first multi-index on there are all of them. -/
theorem indicesFrom_firstIndex {dims : List Nat} (h : ∀ dim ∈ dims, 0 < dim) :
    indicesFrom dims (firstIndex dims) = indicesOf dims := by
  induction dims with
  | nil => rfl
  | cons dim dims ih =>
    -- the rows behind the first one are listed as they are
    obtain ⟨n, rfl⟩ : ∃ n, dim = n + 1 := Nat.exists_eq_add_one.2 (h dim List.mem_cons_self)
    have hi := ih fun d hd => h d (List.mem_cons_of_mem _ hd)
    rw [firstIndex_cons, indicesFrom, hi, indicesOf, List.range_eq_range', List.range'_succ,
      List.flatMap_cons, Nat.zero_add, Nat.add_sub_cancel]

/-- **A multi-index is followed by its successor**, and the last one by nothing. -/
theorem indicesFrom_eq {dims index : List Nat} (h : Within index dims) :
    indicesFrom dims index
      = index :: if (successor dims index).1 then []
          else indicesFrom dims (successor dims index).2 := by
  induction dims generalizing index with
  | nil =>
    cases index with
    | nil => rfl
    | cons i index => exact h.elim
  | cons dim dims ih =>
    cases index with
    | nil => exact h.elim
    | cons i index =>
      have hrest := ih h.2
      rcases hs : successor dims index with ⟨carry, next⟩
      rw [hs] at hrest
      cases carry with
      | false =>
        -- a later axis moves, this one stays
        rw [successor_of_stay dim i hs, indicesFrom, hrest]
        rfl
      | true =>
        -- the later axes have come round, so this one moves
        have hfirst : next = firstIndex dims := by
          have hc := (within_successor h.2).2
          rw [hs] at hc
          exact hc rfl
        rw [successor_of_round dim i hs, indicesFrom, hrest]
        by_cases hmove : i + 1 < dim
        · rw [if_pos hmove]
          obtain ⟨n, hn⟩ : ∃ n, dim - (i + 1) = n + 1 :=
            Nat.exists_eq_add_one.2 (Nat.sub_pos_of_lt hmove)
          -- the rows that are left begin with a whole one
          have hthere : indicesFrom (dim :: dims) ((i + 1) :: next)
              = (indicesOf dims).map ((i + 1) :: ·)
                ++ (List.range' (i + 1 + 1) n).flatMap fun j => (indicesOf dims).map (j :: ·) := by
            rw [indicesFrom, hfirst, indicesFrom_firstIndex h.2.pos,
              show dim - (i + 1 + 1) = n by omega]
          rw [hn, List.range'_succ, List.flatMap_cons, ← hthere]
          rfl
        · rw [if_neg hmove]
          -- this was the last row
          have hn : dim - (i + 1) = 0 := by omega
          rw [hn]
          rfl

/-! ### One move -/

/-- Both readings of a word agree up to a multiple of `2 ^ 64`. -/
theorem dvd_toSigned_sub (n : Nat) : (sizeBound : Int) ∣ toSigned n - n :=
  Int.dvd_bmod_sub_self

/-- Positions that differ by a multiple of `2 ^ 64` are the same index. -/
theorem toSize_eq_of_dvd {z z' : Int} (h : (sizeBound : Int) ∣ z - z') : toSize z = toSize z' := by
  unfold toSize
  rw [Int.emod_eq_emod_iff_emod_sub_eq_zero.2 (Int.emod_eq_zero_of_dvd h)]

namespace Odometer

/-- **What a move does**, whatever the numbers: it goes to the successor of the multi-index,
and the position follows up to a multiple of `2 ^ 64`. -/
theorem advance_eq_ok {dims index : List Nat} {steps : List Int} {position position' : Int}
    {carry : Bool} {index' : List Nat} (hlen : steps.length = dims.length)
    (hin : Within index dims)
    (h : advance dims steps index position = .ok (carry, index', position')) :
    (carry, index') = successor dims index ∧
      (sizeBound : Int) ∣ (position' - displacement index' steps)
        - (position - displacement index steps) := by
  induction dims generalizing index steps carry index' position' with
  | nil =>
    cases index with
    | nil =>
      obtain ⟨rfl, rfl, rfl⟩ : true = carry ∧ [] = index' ∧ position = position' := by
        simpa [advance] using h
      exact ⟨rfl, by simp⟩
    | cons i index => exact hin.elim
  | cons dim dims ih =>
    cases index with
    | nil => exact hin.elim
    | cons i index =>
      obtain ⟨step, steps, rfl⟩ := List.exists_cons_of_length_eq_add_one hlen
      rw [advance, Checked.bind_eq_ok] at h
      obtain ⟨⟨c, next, p⟩, hnext, h⟩ := h
      -- the later axes move first, and keep the invariant
      obtain ⟨hs, hp⟩ := ih (Nat.succ.inj hlen) hin.2 hnext
      dsimp only [List.tail_cons] at hnext
      cases c with
      | false =>
        -- a later axis has moved
        obtain ⟨rfl, rfl, rfl⟩ : false = carry ∧ i :: next = index' ∧ p = position' := by
          simpa using h
        refine ⟨(successor_of_stay dim i hs.symm).symm, ?_⟩
        rw [displacement_cons, displacement_cons]
        convert hp using 1
        ring
      | true =>
        simp only [List.head?_cons, Bool.not_true, Bool.false_eq_true, if_false] at h
        rw [Checked.bind_eq_ok] at h
        obtain ⟨p₁, hp₁, h⟩ := h
        obtain ⟨-, rfl⟩ := checkSigned_eq_ok_iff.1 hp₁
        rw [successor_of_round dim i hs.symm]
        by_cases hmove : i + 1 < dim
        · -- this axis moves
          rw [if_pos hmove] at h ⊢
          obtain ⟨rfl, rfl, rfl⟩ :
              false = carry ∧ (i + 1) :: next = index' ∧ p + step = position' := by
            simpa using h
          refine ⟨rfl, ?_⟩
          rw [displacement_cons, displacement_cons]
          convert hp using 1
          push_cast
          ring
        · -- this axis comes round, and the way back along it is taken off
          rw [if_neg hmove] at h ⊢
          simp only [Checked.bind_eq_ok] at h
          obtain ⟨way, hway, p₂, hp₂, h⟩ := h
          obtain ⟨-, rfl⟩ := checkSigned_eq_ok_iff.1 hway
          obtain ⟨-, rfl⟩ := checkSigned_eq_ok_iff.1 hp₂
          obtain ⟨rfl, rfl, rfl⟩ : true = carry ∧ 0 :: next = index' ∧
              p + step - step * toSigned (i + 1) = position' := by
            simpa using h
          refine ⟨rfl, ?_⟩
          -- the length of the axis is read as a signed word, which may be off by whole words
          have hword : (sizeBound : Int) ∣ step * (toSigned (i + 1) - ((i + 1 : Nat) : Int)) :=
            (dvd_toSigned_sub (i + 1)).mul_left step
          rw [displacement_cons, displacement_cons]
          convert Int.dvd_sub hp hword using 1
          push_cast
          ring

/-! ### The whole walk -/

variable {v : View} {index : List Nat} {position : Int} {n : Nat}

/-- The last position is yielded without a move, so nothing can fault any more. -/
theorem next_of_last : next ⟨v, index, 1, position⟩
    = .ok (some (toSize position, ⟨v, index, 0, position⟩)) := rfl

/-- Every other position is yielded after the move to the one behind it. -/
theorem next_of_more : next ⟨v, index, n + 2, position⟩ = do
      let (_, index', position') ← advance v.shape.dims v.strides.steps index position
      return some (toSize position, ⟨v, index', n + 1, position'⟩) := rfl

variable {o o' : Odometer} {p : Nat}

/-- **Only a walk at its end yields nothing.** -/
theorem next_eq_none_iff : o.next = .ok none ↔ o.remaining = 0 := by
  obtain ⟨v, index, remaining, position⟩ := o
  match remaining with
  | 0 => exact ⟨fun _ => rfl, fun _ => rfl⟩
  | 1 => exact ⟨fun h => absurd h (by simp [next_of_last]), fun h => absurd h Nat.one_ne_zero⟩
  | remaining + 2 =>
    refine ⟨fun h => ?_, fun h => absurd h (Nat.succ_ne_zero _)⟩
    -- whatever the move comes to, it is made for a position that is yielded
    rw [next_of_more, Checked.bind_eq_ok] at h
    obtain ⟨⟨carry, index', position'⟩, -, h⟩ := h
    exact absurd h (by simp)

/-- **Every position that is yielded is one less to come.** -/
theorem remaining_of_next (h : o.next = .ok (some (p, o'))) : o.remaining = o'.remaining + 1 := by
  obtain ⟨v, index, remaining, position⟩ := o
  match remaining with
  | 0 => exact absurd h (by simp [next])
  | 1 =>
    obtain ⟨-, rfl⟩ : toSize position = p ∧ _ = o' := by simpa [next_of_last] using h
    rfl
  | remaining + 2 =>
    rw [next_of_more, Checked.bind_eq_ok] at h
    obtain ⟨⟨carry, index', position'⟩, -, h⟩ := h
    obtain ⟨-, rfl⟩ : toSize position = p ∧ _ = o' := by simpa using h
    rfl

/-- A walk that does not fault and has positions left goes on to the next one. -/
theorem exists_next (hrem : o.remaining = n + 1) (h : (o.drain (n + 1)).fault = none) :
    ∃ p o', o.next = .ok (some (p, o')) ∧ o'.remaining = n ∧
      o.drain (n + 1) = .cons p (o'.drain n) := by
  rcases hnext : o.next with f | _ | ⟨p, o'⟩
  · -- a fault would be the end of the walk
    rw [drain, hnext] at h
    exact absurd h (by simp [Offsets.stopped])
  · -- there is a position left, so the walk is not at its end
    exact absurd (next_eq_none_iff.1 hnext) (by omega)
  · exact ⟨p, o', rfl, Nat.succ.inj ((remaining_of_next hnext).symm.trans hrem),
      by rw [drain, hnext]⟩

/-- The walk from a multi-index on yields the positions from there on, as far as it gets. Its
position stands `base` away from what the multi-index adds. -/
theorem items_drain_initial {base : Int} (hlen : v.strides.steps.length = v.shape.dims.length)
    (hin : Within index v.shape.dims) (hcount : (indicesFrom v.shape.dims index).length = n)
    (hpos : (sizeBound : Int) ∣ position - (base + displacement index v.strides.steps)) :
    (drain n ⟨v, index, n, position⟩).items
      <+: (indicesFrom v.shape.dims index).map fun index =>
          toSize (base + displacement index v.strides.steps) := by
  induction n generalizing index position with
  | zero => exact List.nil_prefix
  | succ n ih =>
    rw [indicesFrom_eq hin, List.length_cons, Nat.succ_inj] at hcount
    rw [indicesFrom_eq hin, List.map_cons, ← toSize_eq_of_dvd hpos]
    cases n with
    | zero =>
      -- the last element is yielded without a move
      rw [List.eq_nil_of_length_eq_zero hcount, drain, next_of_last]
      exact List.prefix_rfl
    | succ n =>
      rw [drain, next_of_more]
      rcases hadv : advance v.shape.dims v.strides.steps index position with
        f | ⟨carry, index', position'⟩
      · -- a move that overflows loses the position it belongs to, and all later ones
        exact List.nil_prefix
      · obtain ⟨hs, hd⟩ := advance_eq_ok hlen hin hadv
        have hnext := (within_successor hin).1
        rw [← hs] at hcount hnext ⊢
        -- there are elements left, so the order has not come round
        cases carry with
        | true => exact absurd hcount (by simp)
        | false =>
          have hmove : (sizeBound : Int) ∣
              position' - (base + displacement index' v.strides.steps) := by
            convert Int.dvd_add hd hpos using 1
            ring
          exact List.cons_prefix_cons.2 ⟨rfl, ih hnext hcount hmove⟩

end Odometer

namespace View

/-- The positions are as many as the multi-indices. -/
@[simp] theorem length_positions (v : View) :
    v.positions.length = Shape.volume v.shape.dims := by
  unfold positions Shape.indices
  rw [List.length_map, length_indicesOf]

/-- A walk comes to its end only if the elements can be counted. -/
theorem numel_of_fault {v : View} (h : v.offsets.fault = none) :
    v.numel = .ok (Shape.volume v.shape.dims) := by
  unfold offsets odometer at h
  cases hn : v.numel with
  | error f =>
    rw [hn] at h
    exact absurd h (by simp [Offsets.stopped])
  | ok n => rw [Shape.eq_volume_of_numel hn]

/-- If the elements can be counted the walk starts at the offset, read as a signed word. -/
theorem offsets_of_numel {v : View} {n : Nat} (h : v.numel = .ok n) :
    v.offsets = Odometer.drain n ⟨v, firstIndex v.shape.dims, n, toSigned v.offset⟩ := by
  unfold offsets odometer
  rw [h]
  rfl

/-- A walk that comes to its end has yielded as many positions as it had left. -/
theorem length_items_drain {o : Odometer} {n : Nat} (hrem : o.remaining = n)
    (h : (o.drain n).fault = none) : (o.drain n).items.length = n := by
  induction n generalizing o with
  | zero => rfl
  | succ n ih =>
    obtain ⟨p, o', -, hrem', hdrain⟩ := Odometer.exists_next hrem h
    rw [hdrain] at h ⊢
    exact congrArg Nat.succ (ih hrem' h)

theorem length_items_offsets {v : View} (h : v.offsets.fault = none) :
    v.offsets.items.length = Shape.volume v.shape.dims := by
  have hnumel := numel_of_fault h
  rw [offsets_of_numel hnumel] at h ⊢
  exact length_items_drain rfl h

/-- **A walk yields the exact positions**, in row-major order, each one read as an unsigned
word, as far as it gets. -/
theorem items_offsets_initial {v : View}
    (hlen : v.strides.steps.length = v.shape.dims.length) :
    v.offsets.items <+: v.positions.map toSize := by
  rcases hnumel : v.numel with f | n
  · -- without a count of the elements there is no walk
    unfold offsets odometer
    rw [hnumel]
    exact List.nil_prefix
  rw [offsets_of_numel hnumel]
  obtain rfl := Shape.eq_volume_of_numel hnumel
  rcases Nat.eq_zero_or_pos (Shape.volume v.shape.dims) with hzero | hpos
  · -- there is no first multi-index to start from, but no position either
    rw [hzero]
    exact List.nil_prefix
  · have hdims := Shape.volume_pos_iff.1 hpos
    have hcount : (indicesFrom v.shape.dims (firstIndex v.shape.dims)).length
        = Shape.volume v.shape.dims := by
      rw [indicesFrom_firstIndex hdims, length_indicesOf]
    -- the offset as a signed word is off by whole words at most
    have hstart : (sizeBound : Int) ∣ toSigned v.offset
        - (v.offset + displacement (firstIndex v.shape.dims) v.strides.steps) := by
      rw [displacement_firstIndex, Int.add_zero]
      exact dvd_toSigned_sub v.offset
    have hwalk := Odometer.items_drain_initial hlen (within_firstIndex hdims) hcount hstart
    rw [indicesFrom_firstIndex hdims] at hwalk
    rw [positions, Shape.indices, List.map_map]
    exact hwalk

/-- **A walk that comes to its end has yielded all positions.** -/
theorem items_offsets {v : View} (hlen : v.strides.steps.length = v.shape.dims.length)
    (h : v.offsets.fault = none) : v.offsets.items = v.positions.map toSize := by
  refine (items_offsets_initial hlen).eq_of_length ?_
  rw [length_items_offsets h, List.length_map, length_positions]

end View

end Strided
