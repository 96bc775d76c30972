import Strided.Buffer
import Strided.Proofs.View.Turns
import Mathlib.Data.List.Nodup
import Mathlib.Data.List.Perm.Subperm

/-!
# Reading and writing through a view

A view can be used on a buffer when its elements lie in it and the walk over them comes to its
end: `View.Walks`. For such a view the machinery of walks, gathers and scatters comes down to
two statements about the cells of the elements, `View.places`, whatever the strides:

* `View.gather_eq_ok_iff` — reading gives the contents of the places, in row-major order;
* `View.scatter_eq` — writing gives a buffer with the items `Written` at the places.

Several elements may share a cell, and then the order of the writes matters. `LastAt` singles
out the element that is written last; the proofs about it are inductions along the list of
places, and they rest on `lastAt_cons`, which says what a further place in front changes:
nothing, unless its cell does not occur again.
-/

namespace Strided

/-! ### Views that fit a buffer -/

/-- No multi-index is listed twice. -/
theorem nodup_indicesOf (dims : List Nat) : (indicesOf dims).Nodup := by
  induction dims with
  | nil => exact List.nodup_singleton []
  | cons dim dims ih =>
    rw [indicesOf, List.nodup_flatMap]
    refine ⟨fun i _ => ih.map (List.cons_injective), ?_⟩
    -- multi-indices that begin with different indices are different
    apply List.nodup_range.imp
    intro _ _ hne index h₁ h₂
    obtain ⟨_, -, rfl⟩ := List.mem_map.1 h₁
    obtain ⟨_, -, heq⟩ := List.mem_map.1 h₂
    exact hne (List.cons.inj heq).1.symm

namespace View

variable {v : View} {size : Nat}

/-- **A view that can be used on a buffer** of `size` cells: every axis has a stride, the
elements lie in the buffer, and nothing overflows on the way over them. -/
structure Walks (v : View) (size : Nat) : Prop where
  rank_eq : v.strides.steps.length = v.shape.dims.length
  inBounds : v.InBounds size
  fault_eq : v.offsets.fault = none

theorem inBounds_iff : v.InBounds size ↔ ∀ index, Within index v.shape.dims →
    0 ≤ v.position index ∧ v.position index < (size : Int) := by
  unfold InBounds positions Shape.indices
  constructor
  · intro h index hin
    exact h _ (List.mem_map_of_mem (mem_indicesOf.2 hin))
  · intro h p hp
    obtain ⟨index, hindex, rfl⟩ := List.mem_map.1 hp
    exact h index (mem_indicesOf.1 hindex)

/-- The first element lies at the offset. -/
theorem InBounds.offset_lt (h : v.InBounds size) (hdims : ∀ dim ∈ v.shape.dims, 0 < dim) :
    v.offset < size := by
  have hp := inBounds_iff.1 h _ (within_firstIndex hdims)
  rw [position, displacement_firstIndex] at hp
  omega

theorem distinct_iff : v.Distinct ↔ ∀ i j, Within i v.shape.dims → Within j v.shape.dims →
    v.position i = v.position j → i = j := by
  unfold Distinct positions Shape.indices
  rw [List.nodup_map_iff_inj_on (nodup_indicesOf v.shape.dims)]
  constructor
  · intro h i j hi hj
    exact h i (mem_indicesOf.2 hi) j (mem_indicesOf.2 hj)
  · intro h i hi j hj
    exact h i j (mem_indicesOf.1 hi) (mem_indicesOf.1 hj)

/-- The cells of all elements in row-major order. -/
def places (v : View) : List Nat := v.positions.map Int.toNat

@[simp] theorem length_places (v : View) : v.places.length = Shape.volume v.shape.dims := by
  rw [places, List.length_map, length_positions]

theorem InBounds.place_lt (h : v.InBounds size) {p : Nat} (hp : p ∈ v.places) : p < size := by
  obtain ⟨z, hz, rfl⟩ := List.mem_map.1 hp
  have hb := h z hz
  omega

/-- In a buffer the exact positions are the cells, each one as a natural number. -/
theorem InBounds.map_places (h : v.InBounds size) :
    v.places.map (fun p : Nat => (p : Int)) = v.positions := by
  unfold places
  calc (v.positions.map Int.toNat).map (fun p : Nat => (p : Int))
      = v.positions.map ((fun p : Nat => (p : Int)) ∘ Int.toNat) := List.map_map
    _ = v.positions.map id := List.map_congr_left fun z hz => Int.toNat_of_nonneg (h z hz).1
    _ = v.positions := List.map_id _

/-- Elements that share no position share no cell. -/
theorem Distinct.nodup_places (h : v.Distinct) (hb : v.InBounds size) : v.places.Nodup := by
  refine List.Nodup.of_map (fun p : Nat => (p : Int)) ?_
  rw [hb.map_places]
  exact h

/-- A view without repetitions has no more elements than its buffer has cells. -/
theorem volume_le_of_distinct (hd : v.Distinct) (hb : v.InBounds size) :
    Shape.volume v.shape.dims ≤ size := by
  -- the places are different cells of the buffer
  have hsub : v.places ⊆ List.range size := fun p hp => List.mem_range.2 (hb.place_lt hp)
  have hle := (List.subperm_of_subset (hd.nodup_places hb) hsub).length_le
  rwa [length_places, List.length_range] at hle

/-- **The walk over a view that fits a buffer yields the cells of its elements.** -/
theorem Walks.offsets_eq (h : v.Walks size) (hsize : size ≤ sizeBound) :
    v.offsets = ⟨v.places, none⟩ := by
  have hitems : v.offsets.items = v.places := by
    rw [items_offsets h.rank_eq h.fault_eq, places]
    apply List.map_congr_left
    intro z hz
    -- positions in the buffer are sizes, so no reading of a word changes them
    have hb := h.inBounds z hz
    have hz := toSize_of_nonneg hb.1 (by omega)
    omega
  rw [← hitems, ← h.fault_eq]

end View

/-! ### Reading -/

variable {α : Type} {cells cells' : Array α} {ps : List Nat} {xs : List α} {p i : Nat} {x : α}

namespace Offsets

/-- A cell that is there can be read, and no other. -/
theorem readAt_eq_ok_iff : readAt cells p = .ok x ↔ cells[p]? = some x := by
  unfold readAt
  cases cells[p]? <;> simp

/-- Reading along a list of places gives what is there. -/
theorem mapM_readAt_eq_ok_iff :
    ps.mapM (readAt cells) = .ok xs ↔ ps.map (cells[·]?) = xs.map some := by
  induction ps generalizing xs with
  | nil =>
    rw [List.mapM_nil, List.map_nil, Checked.pure_eq, Except.ok.injEq, eq_comm, eq_comm (a := []),
      List.map_eq_nil_iff]
  | cons p ps ih =>
    simp only [List.mapM_cons, Checked.bind_eq_ok, readAt_eq_ok_iff, ih]
    constructor
    · rintro ⟨x, hx, xs, hxs, heq⟩
      obtain rfl := Except.ok.inj heq
      rw [List.map_cons, List.map_cons, hx, hxs]
    · intro heq
      rw [List.map_cons] at heq
      obtain ⟨x, xs, rfl, hx, hxs⟩ := List.map_eq_cons_iff.1 heq.symm
      exact ⟨x, hx.symm, xs, hxs.symm, rfl⟩

/-- Every place inside a buffer can be read. -/
theorem exists_mapM_readAt (h : ∀ p ∈ ps, p < cells.size) :
    ∃ xs, ps.mapM (readAt cells) = .ok xs := by
  induction ps with
  | nil => exact ⟨[], rfl⟩
  | cons p ps ih =>
    obtain ⟨xs, hxs⟩ := ih fun q hq => h q (List.mem_cons_of_mem _ hq)
    have hlt := h p List.mem_cons_self
    have hp : readAt cells p = .ok cells[p] := readAt_eq_ok_iff.2 (Array.getElem?_eq_getElem hlt)
    exact ⟨_ :: xs, by rw [List.mapM_cons, hp, Checked.ok_bind, hxs]; rfl⟩

end Offsets

namespace View

variable {v : View}

/-- **Reading a view gives the contents of its places**, in row-major order. -/
theorem gather_eq_ok_iff (h : v.Walks cells.size) (hsize : cells.size ≤ sizeBound) :
    v.gather cells = .ok xs ↔ v.places.map (cells[·]?) = xs.map some := by
  rw [gather_eq, h.offsets_eq hsize, ← Offsets.mapM_readAt_eq_ok_iff, Offsets.gather,
    Checked.bind_eq_ok]
  constructor
  · rintro ⟨items, hitems, heq⟩
    -- the walk has come to its end, so all that was read is returned
    obtain rfl := Except.ok.inj heq
    exact hitems
  · intro hitems
    exact ⟨xs, hitems, rfl⟩

/-- A view that fits a buffer can be read. -/
theorem exists_gather (h : v.Walks cells.size) (hsize : cells.size ≤ sizeBound) :
    ∃ xs, v.gather cells = .ok xs := by
  obtain ⟨xs, hxs⟩ := Offsets.exists_mapM_readAt fun p hp => h.inBounds.place_lt hp
  exact ⟨xs, (gather_eq_ok_iff h hsize).2 (Offsets.mapM_readAt_eq_ok_iff.1 hxs)⟩

/-- What can be read can be walked, whether the view fits the buffer or not. -/
theorem fault_of_gather (h : v.gather cells = .ok xs) : v.offsets.fault = none := by
  rw [gather_eq, Offsets.gather, Checked.bind_eq_ok] at h
  obtain ⟨items, -, h⟩ := h
  cases hfault : v.offsets.fault with
  | none => rfl
  | some f =>
    rw [hfault] at h
    exact absurd h (by simp)

/-- **As many elements are read as the view has**, whether the view fits the buffer or not. -/
theorem length_of_gather (h : v.gather cells = .ok xs) :
    xs.length = Shape.volume v.shape.dims := by
  have hfault := fault_of_gather h
  rw [gather_eq, Offsets.gather, Checked.bind_eq_ok, hfault] at h
  obtain ⟨items, hitems, h⟩ := h
  obtain rfl := Except.ok.inj h
  -- what was read is as much as the walk has yielded
  have hlen := congrArg List.length (Offsets.mapM_readAt_eq_ok_iff.1 hitems)
  rw [List.length_map, List.length_map, length_items_offsets hfault] at hlen
  exact hlen.symm

end View

/-! ### The last write to a cell -/

/-- **The last of several places in one cell**: place number `i` is cell `p`, and no later
one is. -/
def LastAt (ps : List Nat) (p i : Nat) : Prop := ps[i]? = some p ∧ ∀ j, i < j → ps[j]? ≠ some p

theorem LastAt.mem (h : LastAt ps p i) : p ∈ ps := List.mem_of_getElem? h.1

/-- A further place in front is the last one of its cell if the cell does not occur again, and
changes nothing for the others. -/
theorem lastAt_cons {q : Nat} : LastAt (q :: ps) p i ↔
    (i = 0 ∧ p = q ∧ p ∉ ps) ∨ ∃ k, i = k + 1 ∧ LastAt ps p k := by
  cases i with
  | zero =>
    constructor
    · rintro ⟨hq, hlater⟩
      refine .inl ⟨rfl, (Option.some.inj hq).symm, fun hp => ?_⟩
      obtain ⟨j, hj⟩ := List.getElem?_of_mem hp
      exact hlater (j + 1) (Nat.succ_pos j) hj
    · rintro (⟨-, rfl, hp⟩ | ⟨k, hk, -⟩)
      · refine ⟨rfl, fun j hj hjp => hp ?_⟩
        obtain ⟨k, rfl⟩ : ∃ k, j = k + 1 := Nat.exists_eq_add_one.2 hj
        exact List.mem_of_getElem? hjp
      · exact absurd hk (by simp)
  | succ k =>
    constructor
    · rintro ⟨hk, hlater⟩
      exact .inr ⟨k, rfl, hk, fun j hj => hlater (j + 1) (Nat.succ_lt_succ hj)⟩
    · rintro (⟨h, -⟩ | ⟨k', hk', hk, hlater⟩)
      · exact absurd h (by simp)
      · obtain rfl := Nat.succ.inj hk'
        refine ⟨hk, fun j hj => ?_⟩
        obtain ⟨j', rfl⟩ : ∃ j', j = j' + 1 := Nat.exists_eq_add_one.2 (Nat.zero_lt_of_lt hj)
        exact hlater j' (Nat.lt_of_succ_lt_succ hj)

/-- A cell that occurs at all has a last place. -/
theorem exists_lastAt (h : p ∈ ps) : ∃ i, LastAt ps p i := by
  induction ps with
  | nil => exact absurd h (by simp)
  | cons q ps ih =>
    -- the last place is among the later ones, unless the first is the only one
    by_cases hp : p ∈ ps
    · obtain ⟨i, hi⟩ := ih hp
      exact ⟨i + 1, lastAt_cons.2 (.inr ⟨i, rfl, hi⟩)⟩
    · obtain rfl : p = q := (List.mem_cons.1 h).resolve_right hp
      exact ⟨0, lastAt_cons.2 (.inl ⟨rfl, rfl, hp⟩)⟩

/-- Where all cells are different every place is the last one of its cell. -/
theorem lastAt_of_nodup (h : ps.Nodup) (hi : ps[i]? = some p) : LastAt ps p i := by
  refine ⟨hi, fun j hj hjp => ?_⟩
  obtain ⟨hlt, -⟩ := List.getElem?_eq_some_iff.1 hi
  -- the same cell in two places would be listed twice
  exact absurd ((List.getElem?_inj hlt h).1 (hi.trans hjp.symm)) (Nat.ne_of_lt hj)

/-! ### Writing -/

/-- **The items written at the places of a buffer**, one after the other: every cell holds the
last item that went to it, and cells that none went to hold what they held. -/
structure Written (ps : List Nat) (xs : List α) (cells cells' : Array α) : Prop where
  size_eq : cells'.size = cells.size
  last_eq : ∀ p i, LastAt ps p i → cells'[p]? = xs[i]?
  rest_eq : ∀ p, p ∉ ps → cells'[p]? = cells[p]?

/-- One write in front of the others. The others may write over it. -/
theorem Written.cons (hp : p < cells.size) (h : Written ps xs (cells.set p x hp) cells') :
    Written (p :: ps) (x :: xs) cells cells' where
  size_eq := by rw [h.size_eq, Array.size_set]
  last_eq q i hi := by
    rcases lastAt_cons.1 hi with ⟨rfl, rfl, hq⟩ | ⟨k, rfl, hk⟩
    · -- nothing else goes to this cell
      rw [h.rest_eq q hq, Array.getElem?_set_self]
      rfl
    · -- a later item goes to this cell
      rw [h.last_eq q k hk]
      rfl
  rest_eq q hq := by
    rw [List.mem_cons, not_or] at hq
    rw [h.rest_eq q hq.2, Array.getElem?_set_ne hp (Ne.symm hq.1)]

/-- Where all cells are different, every place holds its own item afterwards. -/
theorem Written.map_places (h : Written ps xs cells cells') (hps : ps.Nodup)
    (hlen : xs.length = ps.length) : ps.map (cells'[·]?) = xs.map some := by
  apply List.ext_getElem?
  intro i
  rw [List.getElem?_map, List.getElem?_map]
  cases hi : ps[i]? with
  | none =>
    -- there is no place left, and so no item either
    have hnone : xs[i]? = none := by
      rw [List.getElem?_eq_none_iff] at hi ⊢
      rwa [hlen]
    rw [hnone]
    rfl
  | some p =>
    have hi' : i < xs.length := by
      rw [hlen]
      exact (List.getElem?_eq_some_iff.1 hi).1
    rw [Option.map_some, h.last_eq p i (lastAt_of_nodup hps hi),
      List.getElem?_eq_getElem hi']
    rfl

/-- An element of a list that was read along places is the content of its place. -/
theorem getElem?_of_map_places (h : ps.map (cells[·]?) = xs.map some) {j : Nat}
    (hj : ps[j]? = some p) : xs[j]? = cells[p]? := by
  -- the lists are equal entry by entry
  have hget := congrArg (fun l : List (Option α) => l[j]?) h
  rw [List.getElem?_map, hj, List.getElem?_map, Option.map_some] at hget
  cases hx : xs[j]? with
  | none =>
    rw [hx] at hget
    exact absurd hget (by simp)
  | some x =>
    rw [hx, Option.map_some] at hget
    exact (Option.some.inj hget).symm

/-- **What a reader along the places `qs` sees of items written at `ps`**: the last item that
went to the cell, or what was there before. -/
def Overlaid (ps qs : List Nat) (items old new : List α) : Prop :=
  ∀ j p : Nat, qs[j]? = some p →
    (∀ i, LastAt ps p i → new[j]? = items[i]?) ∧ (p ∉ ps → new[j]? = old[j]?)

/-- A reader sees the buffer through its own places, so what it sees of a write is up to which of
them were written. -/
theorem Written.overlaid {qs : List Nat} {old new : List α} (h : Written ps xs cells cells')
    (hold : qs.map (cells[·]?) = old.map some) (hnew : qs.map (cells'[·]?) = new.map some) :
    Overlaid ps qs xs old new := by
  intro j p hj
  rw [getElem?_of_map_places hnew hj, getElem?_of_map_places hold hj]
  exact ⟨fun i hi => h.last_eq p i hi, fun hp => h.rest_eq p hp⟩

/-- What was written is determined by the items. -/
theorem Written.unique {cells₁ cells₂ : Array α} (h₁ : Written ps xs cells cells₁)
    (h₂ : Written ps xs cells cells₂) : cells₁ = cells₂ := by
  apply Array.ext_getElem?
  intro p
  -- a cell was either written last by one of the items, or not at all
  by_cases hp : p ∈ ps
  · obtain ⟨i, hi⟩ := exists_lastAt hp
    rw [h₁.last_eq p i hi, h₂.last_eq p i hi]
  · rw [h₁.rest_eq p hp, h₂.rest_eq p hp]

/-- **Writing inside a buffer goes through.** -/
theorem Offsets.writeAll_eq (hlen : xs.length = ps.length) (h : ∀ p ∈ ps, p < cells.size) :
    ∃ cells', writeAll (ps.zip xs) cells = (cells', none) ∧ Written ps xs cells cells' := by
  induction ps generalizing xs cells with
  | nil => exact ⟨cells, rfl, rfl, fun p i hi => absurd hi.mem (by simp), fun p _ => rfl⟩
  | cons p ps ih =>
    obtain ⟨x, xs, rfl⟩ := List.exists_cons_of_length_eq_add_one hlen
    have hp := h p List.mem_cons_self
    -- the first write changes a cell, but not how many there are
    have hrest : ∀ q ∈ ps, q < (cells.set p x hp).size := by
      intro q hq
      rw [Array.size_set]
      exact h q (List.mem_cons_of_mem _ hq)
    obtain ⟨cells', hw, hwritten⟩ := ih (Nat.succ.inj hlen) hrest
    refine ⟨cells', ?_, hwritten.cons hp⟩
    rw [List.zip_cons_cons, writeAll, dif_pos hp, hw]

/-- **Writing through a view that fits a buffer goes through**, and puts the items at its
places. -/
theorem View.scatter_eq {v : View} (h : v.Walks cells.size) (hsize : cells.size ≤ sizeBound)
    (hlen : xs.length = Shape.volume v.shape.dims) :
    ∃ cells', v.offsets.scatter xs cells = (cells', none) ∧
      Written v.places xs cells cells' := by
  have hplaces : ∀ p ∈ v.places, p < cells.size := fun p hp => h.inBounds.place_lt hp
  obtain ⟨cells', hw, hwritten⟩ := Offsets.writeAll_eq (hlen.trans (length_places v).symm) hplaces
  refine ⟨cells', ?_, hwritten⟩
  rw [h.offsets_eq hsize, Offsets.scatter, hw]

end Strided
