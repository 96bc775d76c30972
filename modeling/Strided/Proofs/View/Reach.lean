import Strided.Proofs.View.Gapless

/-!
# The walk in closed form

A walk goes from element to element by adding strides, and where an axis is through it first
steps past the end and then takes the whole axis off again. How far from the offset can it get
on the way? No further than the axes are long when they are laid end to end, whichever way each
of them runs. That number is the `reach` of a layout, and a layout whose offset and reach together
are a signed word has `Room` for every walk (`Room.of_reach`).

`View.offsets_rowMajor` is what follows for the walk as a whole: it comes to its end, and the
`i`-th position it yields is the offset and the displacement of the `i`-th multi-index. Which
multi-index is the `i`-th is said twice, by the list `Shape.indices` and by number: it is the one
that lies `i` elements from the first in a gapless layout (`getElem?_indicesOf`). That the walk
can be interrupted anywhere is `Odometer.take_of_drain`, an induction on how far it has got.
-/

namespace Strided

open Strides

/-! ### The reach of a layout -/

/-- **The length of all axes together**, laid end to end and counted in either direction. -/
def reach : List Nat → List Int → Nat
  | dim :: dims, step :: steps => dim * step.natAbs + reach dims steps
  | _, _ => 0

@[simp] theorem reach_nil (steps : List Int) : reach [] steps = 0 := rfl

@[simp] theorem reach_cons (dim : Nat) (dims : List Nat) (step : Int) (steps : List Int) :
    reach (dim :: dims) (step :: steps) = dim * step.natAbs + reach dims steps := rfl

section Reach

variable {dims index : List Nat} {steps : List Int} {base : Int}

/-- One axis is no longer than all of them. -/
theorem way_le_reach (dims : List Nat) (steps : List Int) :
    ∀ p ∈ dims.zip steps, p.1 * p.2.natAbs ≤ reach dims steps := by
  induction dims generalizing steps with
  | nil => simp
  | cons dim dims ih =>
    cases steps with
    | nil => simp
    | cons step steps =>
      intro p hp
      rw [List.zip_cons_cons] at hp
      rw [reach_cons]
      rcases List.mem_cons.1 hp with rfl | hp
      · exact Nat.le_add_right _ _
      · exact le_trans (ih steps p hp) (Nat.le_add_left _ _)

/-- Where no axis is left behind by more than its length, no element is further away than the
reach. -/
theorem natAbs_displacement_le_reach (steps : List Int) (h : List.Forall₂ (· ≤ ·) index dims) :
    (displacement index steps).natAbs ≤ reach dims steps := by
  induction h generalizing steps with
  | nil => exact Nat.zero_le _
  | @cons i dim index dims hi _ ih =>
    cases steps with
    | nil => exact Nat.zero_le _
    | cons step steps =>
      rw [displacement_cons, reach_cons]
      calc ((i : Int) * step + displacement index steps).natAbs
          ≤ ((i : Int) * step).natAbs + (displacement index steps).natAbs := Int.natAbs_add_le _ _
        _ = i * step.natAbs + (displacement index steps).natAbs := by
            rw [Int.natAbs_mul, Int.natAbs_natCast]
        _ ≤ dim * step.natAbs + reach dims steps :=
            Nat.add_le_add (Nat.mul_le_mul_right _ hi) (ih steps)

/-- An index does not leave an axis behind. -/
theorem Within.le (h : Within index dims) : List.Forall₂ (· ≤ ·) index dims :=
  (within_iff_forall₂.1 h).imp fun _ _ => Nat.le_of_lt

theorem firstIndex_le (dims : List Nat) : List.Forall₂ (· ≤ ·) (firstIndex dims) dims :=
  List.forall₂_map_left_iff.2 (List.forall₂_same.2 fun dim _ => Nat.zero_le dim)

/-- One past the end of an axis is its length. -/
theorem Beyond.le (h : Beyond index dims) : List.Forall₂ (· ≤ ·) index dims := by
  induction dims generalizing index with
  | nil => cases index <;> exact h.elim
  | cons dim dims ih =>
    cases index with
    | nil => exact h.elim
    | cons i index =>
      rcases h with ⟨hi, hlater⟩ | ⟨rfl, rfl⟩
      · exact .cons hi.le (ih hlater)
      · exact .cons le_rfl (firstIndex_le dims)

/-- **A layout has room if its reach is a signed word** from where it stands. -/
theorem Room.of_reach (h : base.natAbs + reach dims steps < signedBound) :
    Room dims steps base where
  within_lt index hin := by
    have hd := natAbs_displacement_le_reach steps hin.le
    have hsum := Int.natAbs_add_le base (displacement index steps)
    omega
  beyond_lt index hin := by
    have hd := natAbs_displacement_le_reach steps hin.le
    have hsum := Int.natAbs_add_le base (displacement index steps)
    omega
  way_lt p hp := by
    -- a whole axis is no longer than all of them
    have hway := way_le_reach dims steps p hp
    omega

end Reach

/-! ### Walking part of the way -/

namespace Odometer

variable {o : Odometer} {n : Nat}

/-- **A walk can be interrupted anywhere**: it has yielded the first positions and has the others
left. At its end it has none, and stays there. -/
theorem take_of_drain (hrem : o.remaining = n) (h : (o.drain n).fault = none) (t : Nat) :
    ∃ o', o.take t = .ok ((o.drain n).items.take t, o') ∧ o'.remaining = n - min t n ∧
      (n ≤ t → o'.next = .ok none) := by
  -- on the number of calls, for a walk with any number of positions left
  induction t generalizing o n with
  | zero =>
    refine ⟨o, rfl, by rw [hrem, Nat.zero_min, Nat.sub_zero], fun hn => ?_⟩
    exact next_eq_none_iff.2 (hrem.trans (Nat.le_zero.1 hn))
  | succ t ih =>
    cases n with
    | zero =>
      -- the walk is at its end, and a call leaves it there
      have hend := next_eq_none_iff.2 hrem
      refine ⟨o, ?_, by rw [hrem, Nat.min_zero], fun _ => hend⟩
      rw [take, hend]
      rfl
    | succ n =>
      -- the first call yields the first position, and the others are left to the rest
      obtain ⟨p, o₁, hnext, hrem₁, hdrain⟩ := exists_next hrem h
      have hrest : (o₁.drain n).fault = none := by
        rw [hdrain] at h
        exact h
      obtain ⟨o', htake, hrem', hlast⟩ := ih hrem₁ hrest
      refine ⟨o', ?_, ?_, fun hn => hlast (Nat.le_of_succ_le_succ hn)⟩
      · rw [take, hnext, Checked.ok_bind]
        dsimp only
        rw [htake, hdrain]
        rfl
      · rw [hrem']
        omega

end Odometer

/-! ### Row-major order by number -/

/-- **The multi-index number `i`** is the one that lies `i` elements from the first in a gapless
layout. -/
theorem getElem?_indicesOf {dims index : List Nat} {i : Nat} (hin : Within index dims)
    (hi : displacement index (denseSteps dims) = i) : (indicesOf dims)[i]? = some index := by
  obtain ⟨j, hj⟩ := List.getElem?_of_mem (mem_indicesOf.2 hin)
  -- the displacements are `0, 1, 2, …`, so the one that is `i` stands in place `i`
  have hnum : ((indicesOf dims).map (displacement · (denseSteps dims)))[j]?
      = ((List.range (Shape.volume dims)).map fun i : Nat => (i : Int))[j]? := by
    rw [map_displacement_denseSteps]
  rw [List.getElem?_map, hj, List.getElem?_map, Option.map_some, hi] at hnum
  obtain ⟨k, hk, hki⟩ := Option.map_eq_some_iff.1 hnum.symm
  -- a range holds its own indices
  have hjk : k = j := by
    obtain ⟨hlt, hget⟩ := List.getElem?_eq_some_iff.1 hk
    rw [List.getElem_range] at hget
    exact hget.symm
  rw [← Int.ofNat.inj hki, hjk, hj]

namespace View

variable {v : View} {n : Nat}

/-- The `i`-th position, computed in signed words and read as a size. -/
theorem map_toSize_positions (v : View) : v.positions.map toSize
    = v.shape.indices.map fun index =>
        toSize (toSigned v.offset + displacement index v.strides.steps) := by
  unfold positions
  rw [List.map_map]
  refine List.map_congr_left fun index _ => ?_
  -- both readings of the offset are the same word
  refine (toSize_eq_of_dvd ?_).symm
  rw [position, Int.add_sub_add_right]
  exact dvd_toSigned_sub v.offset

/-- A walk within the words comes to its end. -/
theorem fault_of_reach (hrank : v.strides.steps.length = v.shape.dims.length)
    (hnumel : v.numel = .ok n)
    (hreach : (toSigned v.offset).natAbs + reach v.shape.dims v.strides.steps < signedBound) :
    v.offsets.fault = none :=
  fault_offsets hrank hnumel (.of_reach hreach)

/-- **The walk is the row-major enumeration.** Of a view with a stride for every axis whose
elements can be counted, and whose offset and reach are together a signed word, the walk comes
to its end and yields as many positions as there are elements. The `i`-th is the offset and what
the `i`-th multi-index adds to it, read as a size. Interrupted after `t` calls, it has yielded
the first `t` of them and has the others left. -/
theorem offsets_rowMajor (hrank : v.strides.steps.length = v.shape.dims.length)
    (hnumel : v.numel = .ok n)
    (hreach : (toSigned v.offset).natAbs + reach v.shape.dims v.strides.steps < signedBound) :
    v.offsets = ⟨v.shape.indices.map fun index =>
        toSize (toSigned v.offset + displacement index v.strides.steps), none⟩ ∧
      v.offsets.items.length = n ∧
      (∀ (i : Nat) (index : List Nat), Within index v.shape.dims →
        displacement index (denseSteps v.shape.dims) = i →
        v.offsets.items[i]?
          = some (toSize (toSigned v.offset + displacement index v.strides.steps))) ∧
      ∃ o, v.odometer = .ok o ∧ ∀ t, ∃ o', o.take t = .ok (v.offsets.items.take t, o') ∧
        o'.remaining = n - min t n ∧ (n ≤ t → o'.next = .ok none) := by
  have hfault := fault_of_reach hrank hnumel hreach
  have hitems := (items_offsets hrank hfault).trans (map_toSize_positions v)
  refine ⟨?_, ?_, fun i index hin hi => ?_, ?_⟩
  · -- the walk is what it has yielded and how it has ended
    rw [← hitems, ← hfault]
  · rw [length_items_offsets hfault, Shape.eq_volume_of_numel hnumel]
  · rw [hitems, List.getElem?_map, Shape.indices, getElem?_indicesOf hin hi, Option.map_some]
  · refine ⟨⟨v, firstIndex v.shape.dims, n, toSigned v.offset⟩, ?_, fun t => ?_⟩
    · unfold odometer
      rw [hnumel]
      rfl
    · rw [offsets_of_numel hnumel] at hfault ⊢
      exact Odometer.take_of_drain rfl hfault t

/-- A matrix of two rows and three columns, the lower row first and every row backwards. -/
def turned : View := ⟨⟨[2, 3]⟩, ⟨[-3, -1]⟩, 5⟩

/-- The matrix turned upside down is walked from the last cell to the first. -/
theorem offsets_rowMajor_turned :
    turned.strides.steps.length = turned.shape.dims.length ∧ turned.numel = .ok 6 ∧
      (toSigned turned.offset).natAbs + reach turned.shape.dims turned.strides.steps
        < signedBound ∧
      turned.offsets = ⟨[5, 4, 3, 2, 1, 0], none⟩ := by
  have hnumel : turned.numel = .ok 6 := rfl
  have hreach : (toSigned turned.offset).natAbs
      + reach turned.shape.dims turned.strides.steps < signedBound := by decide
  exact ⟨rfl, hnumel, hreach, (offsets_rowMajor rfl hnumel hreach).1.trans (by decide +kernel)⟩

end View

end Strided
