import Strided.View

/-!
# Positions by index

`Shape.indices` lists the multi-indices of a shape in row-major order, and `View.position`
is the position of an element in exact arithmetic: the offset, and for every axis its
index times its stride. Together they say in closed form where the elements of a view
are, without the walk of `Strided.View` and without the range of a word.

Two properties of a view are stated with them: that its elements lie in a buffer
(`View.InBounds`), and that no two of them share a cell (`View.Distinct`).
-/

namespace Strided

/-! ### Multi-indices -/

/-- The multi-indices of the axes `dims`, the last axis running fastest. -/
def indicesOf : List Nat → List (List Nat)
  | [] => [[]]
  | dim :: dims => (List.range dim).flatMap fun i => (indicesOf dims).map (i :: ·)

/-- **One index per axis, each one below its size.** -/
def Within : List Nat → List Nat → Prop
  | [], [] => True
  | i :: index, dim :: dims => i < dim ∧ Within index dims
  | _, _ => False

instance Within.decide : (index dims : List Nat) → Decidable (Within index dims)
  | [], [] => .isTrue trivial
  | _ :: index, _ :: dims => @instDecidableAnd _ _ _ (Within.decide index dims)
  | [], _ :: _ => .isFalse id
  | _ :: _, [] => .isFalse id

/-- **The multi-indices of a shape** in row-major order. -/
def Shape.indices (s : Shape) : List (List Nat) := indicesOf s.dims

theorem mem_indicesOf {dims index : List Nat} : index ∈ indicesOf dims ↔ Within index dims := by
  induction dims generalizing index with
  | nil => cases index <;> simp [indicesOf, Within]
  | cons dim dims ih =>
    cases index with
    | nil => simp [indicesOf, Within]
    | cons i index =>
      simp only [indicesOf, List.mem_flatMap, List.mem_range, List.mem_map, Within]
      constructor
      · rintro ⟨j, hj, rest, hrest, heq⟩
        obtain ⟨rfl, rfl⟩ := List.cons.inj heq
        exact ⟨hj, ih.1 hrest⟩
      · rintro ⟨hi, hindex⟩
        exact ⟨i, hi, index, ih.2 hindex, rfl⟩

/-- There are as many multi-indices as the sizes multiply to. -/
theorem length_indicesOf (dims : List Nat) : (indicesOf dims).length = Shape.volume dims := by
  induction dims with
  | nil => rfl
  | cons dim dims ih =>
    have h : ∀ (heads : List Nat) (tails : List (List Nat)),
        (heads.flatMap fun i => tails.map (i :: ·)).length = heads.length * tails.length := by
      intro heads tails
      induction heads with
      | nil => simp
      | cons i heads ih =>
        rw [List.flatMap_cons, List.length_append, List.length_map, ih, List.length_cons,
          Nat.succ_mul, Nat.add_comm]
    rw [indicesOf, h, List.length_range, ih]
    rfl

/-! ### Positions -/

/-- What a multi-index adds to the position of the first element. -/
def displacement : List Nat → List Int → Int
  | i :: index, step :: steps => i * step + displacement index steps
  | _, _ => 0

@[simp] theorem displacement_nil (steps : List Int) : displacement [] steps = 0 := rfl

@[simp] theorem displacement_cons (i : Nat) (index : List Nat) (step : Int) (steps : List Int) :
    displacement (i :: index) (step :: steps) = i * step + displacement index steps := rfl

namespace View

/-- **The position of an element**, in exact arithmetic. -/
def position (v : View) (index : List Nat) : Int :=
  v.offset + displacement index v.strides.steps

/-- The positions of all elements in row-major order. -/
def positions (v : View) : List Int := v.shape.indices.map v.position

/-- Every element lies in a buffer of `size` cells. -/
def InBounds (v : View) (size : Nat) : Prop := ∀ p ∈ v.positions, 0 ≤ p ∧ p < (size : Int)

instance (v : View) (size : Nat) : Decidable (v.InBounds size) :=
  inferInstanceAs (Decidable (∀ p ∈ v.positions, _))

/-- No two elements lie in the same cell. -/
def Distinct (v : View) : Prop := v.positions.Nodup

end View

end Strided
