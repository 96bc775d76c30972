import Strided.Proofs.View.Consecutive

/-!
# Places in row-major order

The `place` of a multi-index is the number of multi-indices before it. It is what the dense strides
compute (`displacement_denseSteps`), but as a natural number, and it can be taken apart at any axis:
the axes in front say in which block a multi-index lies, the others where in the block
(`place_append`). So a row, and a plane, is a run of as many places as it has elements.
-/

namespace Strided

open Shape Strides

/-- **The place of a multi-index** of the axes `dims` in row-major order. -/
def place : List Nat → List Nat → Nat
  | _ :: dims, i :: index => i * volume dims + place dims index
  | _, _ => 0

variable {dims later index rest : List Nat}

@[simp] theorem place_nil (index : List Nat) : place [] index = 0 := by cases index <;> rfl

@[simp] theorem place_cons (dim : Nat) (dims : List Nat) (i : Nat) (index : List Nat) :
    place (dim :: dims) (i :: index) = i * volume dims + place dims index := rfl

/-- Dense strides compute the place. -/
theorem displacement_denseSteps (dims index : List Nat) :
    displacement index (denseSteps dims) = place dims index := by
  induction dims generalizing index with
  | nil => cases index <;> rfl
  | cons dim dims ih =>
    cases index with
    | nil => rfl
    | cons i index =>
      rw [denseSteps_cons, displacement_cons, ih, place_cons]
      push_cast
      rfl

/-- Places are below the number of elements. -/
theorem place_lt (h : Within index dims) : place dims index < volume dims := by
  have hlt := (displacement_denseSteps_lt h).2
  rw [displacement_denseSteps] at hlt
  exact Int.ofNat_lt.1 hlt

/-- A single axis has as many elements as it is long. -/
theorem volume_singleton (dim : Nat) : volume [dim] = dim := by simp

theorem place_singleton (dim i : Nat) : place [dim] [i] = i := by simp

/-- A multi-index comes as late as it lies far from the first one in the dense layout. -/
theorem displacement_of_getElem?_indicesOf {dims index : List Nat} {j : Nat}
    (h : (indicesOf dims)[j]? = some index) : displacement index (denseSteps dims) = j := by
  have hmap := congrArg (·[j]?) (map_displacement_denseSteps dims)
  have hj : j < volume dims := by
    rw [← length_indicesOf]
    exact (List.getElem?_eq_some_iff.1 h).1
  rw [List.getElem?_map, h, List.getElem?_map, List.getElem?_range hj] at hmap
  exact Option.some.inj hmap

/-- Every number below the volume is the place of a multi-index. -/
theorem exists_place_eq {dims : List Nat} {k : Nat} (h : k < volume dims) :
    ∃ index, Within index dims ∧ place dims index = k := by
  -- the dense displacements are all numbers below the volume
  obtain ⟨index, hin, hk⟩ := (displacement_bijOn dims).surjOn
    (show (k : Int) ∈ Set.Ico (0 : Int) (volume dims) from ⟨by omega, by omega⟩)
  refine ⟨index, hin, ?_⟩
  dsimp only at hk
  rw [displacement_denseSteps] at hk
  exact Int.ofNat.inj hk

/-- **A block of the later axes for every multi-index of the first ones.** -/
theorem place_append (h : Within index dims) (later rest : List Nat) :
    place (dims ++ later) (index ++ rest) = place dims index * volume later + place later rest := by
  induction within_iff_forall₂.1 h with
  | nil => simp
  | @cons i dim index dims _ hlt ih =>
    rw [List.cons_append, List.cons_append, place_cons, place_cons,
      ih (within_iff_forall₂.2 hlt), volume_append]
    ring

/-- Multi-indices of the first axes and of the later ones make one of all. -/
theorem Within.append (h : Within index dims) (hrest : Within rest later) :
    Within (index ++ rest) (dims ++ later) :=
  within_iff_forall₂.2 (List.rel_append (within_iff_forall₂.1 h) (within_iff_forall₂.1 hrest))

theorem within_nil {index : List Nat} : Within index [] ↔ index = [] :=
  within_iff_forall₂.trans List.forall₂_nil_right_iff

/-- On a single axis a multi-index is an index. -/
theorem within_singleton {index : List Nat} {m : Nat} :
    Within index [m] ↔ ∃ i < m, index = [i] := by
  rw [within_iff_forall₂, List.forall₂_cons_right_iff]
  simp only [List.forall₂_nil_right_iff, exists_and_left, exists_eq_left]

/-! ### Lists in row-major order -/

/-- A list is known by its length and by its items. -/
theorem eq_map_range {α : Type} {n : Nat} {l : List α} {f : Nat → α} (hlen : l.length = n)
    (h : ∀ j < n, l[j]? = some (f j)) : l = (List.range n).map f := by
  refine List.ext_getElem? fun j => ?_
  by_cases hj : j < n
  · rw [h j hj, List.getElem?_map, List.getElem?_range hj, Option.map_some]
  · -- behind the end there is nothing on either side
    rw [List.getElem?_eq_none (by omega), List.getElem?_eq_none (by simpa using hj)]

/-- **The items are the values of `x`** at the multi-indices of the axes, in row-major order. -/
structure Spells {α : Type} (dims : List Nat) (x : List Nat → α) (items : List α) : Prop where
  length_eq : items.length = volume dims
  get_eq : ∀ index, Within index dims → items[place dims index]? = some (x index)

/-- What is done to every item is done to the values. -/
theorem Spells.map {α β : Type} {x : List Nat → α} {items : List α} (h : Spells dims x items)
    (f : α → β) : Spells dims (fun index => f (x index)) (items.map f) where
  length_eq := by rw [List.length_map, h.length_eq]
  get_eq := fun index hin => by rw [List.getElem?_map, h.get_eq index hin, Option.map_some]

/-- **The items are the values**, one multi-index after the other. -/
theorem Spells.eq_map {α : Type} {x : List Nat → α} {items : List α} (h : Spells dims x items) :
    items = (indicesOf dims).map x := by
  refine List.ext_getElem? fun j => ?_
  rw [List.getElem?_map]
  cases hj : (indicesOf dims)[j]? with
  | none =>
    rw [List.getElem?_eq_none_iff, length_indicesOf] at hj
    rw [List.getElem?_eq_none (h.length_eq.trans_le hj), Option.map_none]
  | some index =>
    have hplace : place dims index = j := Int.ofNat.inj <|
      (displacement_denseSteps dims index).symm.trans (displacement_of_getElem?_indicesOf hj)
    rw [← hplace, h.get_eq index (mem_indicesOf.1 (List.mem_of_getElem? hj)), Option.map_some]

/-- Items in the right number are the values of something. -/
theorem exists_spells {α : Type} [Inhabited α] {items : List α}
    (hlen : items.length = volume dims) : ∃ x, Spells dims x items := by
  -- the value of a multi-index is the item in its place
  refine ⟨fun index => items[place dims index]?.getD default, hlen, fun index hin => ?_⟩
  have hlt : place dims index < items.length := (place_lt hin).trans_eq hlen.symm
  rw [List.getElem?_eq_getElem hlt, Option.getD_some]

end Strided
