import Strided.Fourier
import Strided.Proofs.View.Places
import Mathlib.Algebra.Order.Group.Nat

/-!
# The lines of a transform

A transform works on a flat list, cut into rows, and the rows into planes and columns. Here the
lines are found again by multi-index, with any number of axes in front: along the last axis
(`transform_last`) and, plane by plane, over the last two (`transform_lastTwo`).

Everything rests on two facts about lists. Portions of `n` items are found at the multiples of `n`,
before they are transformed and after (`getElem?_inPortions`), since a transform of lines keeps
their length. And columns are taken by `filterMap`, which leaves nothing out of rows of one length
(`getElem?_columns`).
-/

namespace Strided.Fourier

open Shape

/-- **No line changes its length.** -/
structure LineTransform.KeepsLength (F : LineTransform) : Prop where
  single : ∀ line, (F.single line).length = line.length
  double : ∀ line, (F.double line).length = line.length

variable {α : Type} {n m k i j count : Nat} {items : List α} {F : List α → List α}

/-! ### Lists of lists -/

/-- Items of lists of one length are found by the list and the place in it. -/
theorem getElem?_flatten_of_length {ls : List (List α)} (h : ∀ l ∈ ls, l.length = n) (hj : j < n)
    (k : Nat) : ls.flatten[k * n + j]? = ls[k]?.bind (·[j]?) := by
  induction ls generalizing k with
  | nil => rfl
  | cons l ls ih =>
    have hl := h l List.mem_cons_self
    rw [List.flatten_cons]
    cases k with
    | zero => rw [Nat.zero_mul, Nat.zero_add, List.getElem?_append_left (by omega)]; rfl
    | succ k =>
      -- behind the first list the place counts from its end on
      rw [List.getElem?_append_right (by rw [hl, Nat.succ_mul]; omega), hl,
        show (k + 1) * n + j - n = k * n + j by rw [Nat.succ_mul]; omega,
        ih fun l' hl' => h l' (List.mem_cons_of_mem _ hl')]
      rfl

theorem length_flatten_of_length {ls : List (List α)} (h : ∀ l ∈ ls, l.length = n) :
    ls.flatten.length = ls.length * n := by
  induction ls with
  | nil => rw [List.flatten_nil, List.length_nil, List.length_nil, Nat.zero_mul]
  | cons l ls ih =>
    rw [List.flatten_cons, List.length_append, h l List.mem_cons_self,
      ih fun l' hl' => h l' (List.mem_cons_of_mem _ hl'), List.length_cons, Nat.succ_mul,
      Nat.add_comm]

/-! ### Portions -/

@[simp] theorem length_portions (n count : Nat) (items : List α) :
    (portions n count items).length = count := by
  induction count generalizing items with
  | zero => rfl
  | succ count ih => rw [portions, List.length_cons, ih]

/-- **The `k`-th portion** begins behind `k` others. -/
theorem getElem?_portions (hk : k < count) (items : List α) :
    (portions n count items)[k]? = some ((items.drop (k * n)).take n) := by
  induction count generalizing items k with
  | zero => omega
  | succ count ih =>
    rw [portions]
    cases k with
    | zero => rw [Nat.zero_mul, List.drop_zero, List.getElem?_cons_zero]
    | succ k =>
      rw [List.getElem?_cons_succ, ih (Nat.lt_of_succ_lt_succ hk), List.drop_drop, Nat.succ_mul,
        Nat.add_comm]

/-- An item of a portion. -/
theorem getElem?_take_drop (hj : j < n) (start : Nat) :
    ((items.drop start).take n)[j]? = items[start + j]? := by
  rw [List.getElem?_take_of_lt hj, List.getElem?_drop]

theorem length_of_mem_portions (h : count * n ≤ items.length) :
    ∀ l ∈ portions n count items, l.length = n := by
  intro l hl
  obtain ⟨k, hk, rfl⟩ := List.getElem_of_mem hl
  rw [length_portions] at hk
  have hget := getElem?_portions (n := n) hk items
  rw [List.getElem?_eq_getElem (by rwa [length_portions])] at hget
  -- the end of the portion is still among the items
  have hend : (k + 1) * n ≤ count * n := Nat.mul_le_mul_right _ hk
  rw [Nat.succ_mul] at hend
  rw [Option.some.inj hget, List.length_take, List.length_drop]
  omega

section InPortions

variable {G : List α → List α}

/-- **What is done to portions is done to each of them where it lies**, if it keeps the length. -/
theorem getElem?_inPortions (hG : ∀ l, l.length = n → (G l).length = n) (hj : j < n)
    (hk : (k + 1) * n ≤ items.length) :
    ((portions n (items.length / n) items).map G).flatten[k * n + j]?
      = (G ((items.drop (k * n)).take n))[j]? := by
  -- the portion is complete, so it is one of those that are cut
  have hcount : k < items.length / n := (Nat.le_div_iff_mul_le (by omega)).2 hk
  have hlen : ∀ l ∈ (portions n (items.length / n) items).map G, l.length = n := by
    intro l hl
    obtain ⟨l', hl', rfl⟩ := List.mem_map.1 hl
    exact hG l' (length_of_mem_portions (Nat.div_mul_le_self _ _) l' hl')
  rw [getElem?_flatten_of_length hlen hj, List.getElem?_map, getElem?_portions hcount,
    Option.map_some, Option.bind_some]

/-- Portions that keep their lengths keep that of the whole, if it divides up evenly. -/
theorem length_inPortions (hG : ∀ l, l.length = n → (G l).length = n) (hn : n ∣ items.length) :
    ((portions n (items.length / n) items).map G).flatten.length = items.length := by
  have hlen : ∀ l ∈ (portions n (items.length / n) items).map G, l.length = n := by
    intro l hl
    obtain ⟨l', hl', rfl⟩ := List.mem_map.1 hl
    exact hG l' (length_of_mem_portions (Nat.div_mul_le_self _ _) l' hl')
  rw [length_flatten_of_length hlen, List.length_map, length_portions, Nat.div_mul_cancel hn]

end InPortions

/-! ### Columns -/

/-- Rows that are long enough all have an item in the column. -/
theorem getElem?_filterMap {rows : List (List α)} (h : ∀ row ∈ rows, j < row.length) (i : Nat) :
    (rows.filterMap (·[j]?))[i]? = rows[i]?.bind (·[j]?) := by
  induction rows generalizing i with
  | nil => rfl
  | cons row rows ih =>
    -- the first row has an item in the column, so it is counted
    obtain ⟨x, hrow⟩ : ∃ x, row[j]? = some x :=
      ⟨_, List.getElem?_eq_getElem (h row List.mem_cons_self)⟩
    rw [List.filterMap_cons, hrow]
    cases i with
    | zero => rw [List.getElem?_cons_zero, List.getElem?_cons_zero, Option.bind_some, hrow]
    | succ i =>
      rw [List.getElem?_cons_succ, List.getElem?_cons_succ]
      exact ih (fun r hr => h r (List.mem_cons_of_mem _ hr)) i

theorem length_filterMap {rows : List (List α)} (h : ∀ row ∈ rows, j < row.length) :
    (rows.filterMap (·[j]?)).length = rows.length := by
  induction rows with
  | nil => rfl
  | cons row rows ih =>
    obtain ⟨x, hrow⟩ : ∃ x, row[j]? = some x :=
      ⟨_, List.getElem?_eq_getElem (h row List.mem_cons_self)⟩
    rw [List.filterMap_cons, hrow, List.length_cons, List.length_cons,
      ih fun r hr => h r (List.mem_cons_of_mem _ hr)]

@[simp] theorem length_columns (n : Nat) (rows : List (List α)) : (columns n rows).length = n := by
  rw [columns, List.length_map, List.length_range]

theorem getElem?_columns (hj : j < n) (rows : List (List α)) :
    (columns n rows)[j]? = some (rows.filterMap (·[j]?)) := by
  rw [columns, List.getElem?_map, List.getElem?_range hj, Option.map_some]

/-- **Columns of rows of one length** are as long as there are rows. -/
theorem length_of_mem_columns {rows : List (List α)} (h : ∀ row ∈ rows, row.length = n) :
    ∀ c ∈ columns n rows, c.length = rows.length := by
  intro c hc
  obtain ⟨j, hj, rfl⟩ := List.mem_map.1 hc
  exact length_filterMap fun row hrow => (List.mem_range.1 hj).trans_eq (h row hrow).symm

/-- **Columns swap the two indices.** -/
theorem getElem?_getElem?_columns {rows : List (List α)} (h : ∀ row ∈ rows, row.length = n)
    (hj : j < n) (i : Nat) : (columns n rows)[j]?.bind (·[i]?) = rows[i]?.bind (·[j]?) := by
  rw [getElem?_columns hj, Option.bind_some,
    getElem?_filterMap fun row hrow => hj.trans_eq (h row hrow).symm]

section Planes

variable {plane : List α}

/-- The transformed columns of a plane, and how long they are. -/
theorem length_of_mem_map_columns (hF : ∀ l, (F l).length = l.length)
    (hlen : plane.length = m * n) :
    ∀ c ∈ (columns n (portions n m plane)).map F, c.length = m := by
  intro c hc
  obtain ⟨c', hc', rfl⟩ := List.mem_map.1 hc
  rw [hF, length_of_mem_columns (length_of_mem_portions hlen.ge) c' hc', length_portions]

/-- Turned back into rows, the transformed columns are as long as they were many. -/
theorem length_of_mem_planeRows (hF : ∀ l, (F l).length = l.length)
    (hlen : plane.length = m * n) :
    ∀ row ∈ columns m ((columns n (portions n m plane)).map F), row.length = n := by
  intro row hrow
  rw [length_of_mem_columns (length_of_mem_map_columns hF hlen) row hrow, List.length_map,
    length_columns]

theorem length_alongPlaneColumns (hF : ∀ l, (F l).length = l.length)
    (hlen : plane.length = m * n) : (alongPlaneColumns F m n plane).length = m * n := by
  rw [alongPlaneColumns, length_flatten_of_length (length_of_mem_planeRows hF hlen),
    length_columns]

/-- **A column of a plane undergoes the transform**, and the others do not matter to it. -/
theorem getElem?_alongPlaneColumns (hF : ∀ l, (F l).length = l.length)
    (hlen : plane.length = m * n) (hi : i < m) (hj : j < n) {f : Nat → α}
    (hf : ∀ i < m, plane[i * n + j]? = some (f i)) :
    (alongPlaneColumns F m n plane)[i * n + j]? = (F ((List.range m).map f))[i]? := by
  have hrows : ∀ row ∈ portions n m plane, row.length = n := length_of_mem_portions hlen.ge
  -- the column, as it is gathered
  have hcolumn : (portions n m plane).filterMap (·[j]?) = (List.range m).map f := by
    have hlong : ∀ row ∈ portions n m plane, j < row.length :=
      fun row hrow => hj.trans_eq (hrows row hrow).symm
    refine eq_map_range (by rw [length_filterMap hlong, length_portions]) fun i hi => ?_
    rw [getElem?_filterMap hlong, getElem?_portions hi, Option.bind_some, getElem?_take_drop hj,
      hf i hi]
  rw [alongPlaneColumns, getElem?_flatten_of_length (length_of_mem_planeRows hF hlen) hj,
    getElem?_getElem?_columns (length_of_mem_map_columns hF hlen) hi, List.getElem?_map,
    getElem?_columns hj, hcolumn, Option.map_some, Option.bind_some]

end Planes

/-! ### Lines by multi-index -/

section Transform

variable {shape : Shape} {lead dims : List Nat} {x y z : List Nat → α}

/-- **The rows of `y` are the rows of `x` under `F`**, one for every multi-index of the axes in
front. -/
def RowsUnder (F : List α → List α) (lead : List Nat) (n : Nat) (x y : List Nat → α) : Prop :=
  ∀ index, Within index lead → ((List.range n).map fun j => y (index ++ [j]))
    = F ((List.range n).map fun j => x (index ++ [j]))

/-- **The columns of `y` are the columns of `x` under `F`**, plane by plane. -/
def ColumnsUnder (F : List α → List α) (lead : List Nat) (m n : Nat) (x y : List Nat → α) : Prop :=
  ∀ index, Within index lead → ∀ j < n, ((List.range m).map fun i => y (index ++ [i, j]))
    = F ((List.range m).map fun i => x (index ++ [i, j]))

/-- The lines of `y` are the lines of `x` under `F`. Over two axes the rows `z` come first. -/
def LinesUnder (F : List α → List α) (dims : List Nat) (x y : List Nat → α) : Axes → Prop
  | .last => ∀ lead n, dims = lead ++ [n] → RowsUnder F lead n x y
  | .lastTwo => ∀ lead m n, dims = lead ++ [m, n] →
      ∃ z, RowsUnder F (lead ++ [m]) n x z ∧ ColumnsUnder F lead m n z y

theorem transform_last_eq (hdims : shape.dims = lead ++ [n]) :
    transform F .last shape items = alongRows F n items := by
  simp [transform, hdims]

/-- Over two axes the rows come first, and the columns are taken of what they give. -/
theorem transform_lastTwo_eq (hdims : shape.dims = lead ++ [m, n]) :
    transform F .lastTwo shape items = alongColumns F m n (transform F .last shape items) := by
  simp [transform, hdims]

/-- The number of items stays. -/
theorem length_transform_last (hF : ∀ l, (F l).length = l.length) (hdims : shape.dims = lead ++ [n])
    (hlen : items.length = volume shape.dims) :
    (transform F .last shape items).length = volume shape.dims := by
  rw [transform_last_eq hdims, ← hlen]
  refine length_inPortions (fun l hl => (hF l).trans hl) ⟨volume lead, ?_⟩
  rw [hlen, hdims, volume_append, volume_cons, volume_nil, Nat.mul_one, Nat.mul_comm]

theorem length_transform_lastTwo (hF : ∀ l, (F l).length = l.length)
    (hdims : shape.dims = lead ++ [m, n]) (hlen : items.length = volume shape.dims) :
    (transform F .lastTwo shape items).length = volume shape.dims := by
  have hrows := length_transform_last hF (hdims.trans (List.append_cons lead m [n])) hlen
  rw [transform_lastTwo_eq hdims, ← hrows]
  refine length_inPortions (fun l hl => length_alongPlaneColumns hF hl) ⟨volume lead, ?_⟩
  rw [hrows, hdims, volume_append, volume_cons, volume_cons, volume_nil, Nat.mul_one, Nat.mul_comm]

/-- **Along the last axis every row is transformed by itself.** -/
theorem transform_last (hF : ∀ l, (F l).length = l.length) (hdims : shape.dims = lead ++ [n])
    (hx : Spells shape.dims x items) (hy : Spells shape.dims y (transform F .last shape items)) :
    RowsUnder F lead n x y := by
  intro index h
  -- the rows lie at the multiples of `n`, in the order of the multi-indices in front
  have hplace : ∀ j, place shape.dims (index ++ [j]) = place lead index * n + j := fun j => by
    rw [hdims, place_append h, place_cons, place_nil, volume_cons, volume_nil, Nat.mul_one,
      Nat.mul_one, Nat.add_zero]
  have hin : ∀ j < n, Within (index ++ [j]) shape.dims := fun j hj => by
    rw [hdims]
    exact h.append ⟨hj, trivial⟩
  have hend : (place lead index + 1) * n ≤ items.length := by
    rw [hx.length_eq, hdims, volume_append, volume_cons, volume_nil, Nat.mul_one]
    exact Nat.mul_le_mul_right _ (place_lt h)
  have hrow : (items.drop (place lead index * n)).take n
      = (List.range n).map fun j => x (index ++ [j]) := by
    refine eq_map_range ?_ fun j hj => ?_
    · rw [List.length_take, List.length_drop]
      rw [Nat.succ_mul] at hend
      omega
    · rw [getElem?_take_drop hj, ← hplace, hx.get_eq _ (hin j hj)]
  refine (eq_map_range (by rw [hF, List.length_map, List.length_range]) fun j hj => ?_).symm
  rw [← hy.get_eq _ (hin j hj), hplace, transform_last_eq hdims, alongRows,
    getElem?_inPortions (fun l hl => (hF l).trans hl) hj hend, hrow]

/-- **Over the last two axes the columns are transformed after the rows**, plane by plane. -/
theorem transform_lastTwo (hF : ∀ l, (F l).length = l.length)
    (hdims : shape.dims = lead ++ [m, n]) (hz : Spells shape.dims z (transform F .last shape items))
    (hy : Spells shape.dims y (transform F .lastTwo shape items)) :
    ColumnsUnder F lead m n z y := by
  intro index h j hj
  have hplace : ∀ i,
      place shape.dims (index ++ [i, j]) = place lead index * (m * n) + (i * n + j) :=
    fun i => by
      rw [hdims, place_append h, place_cons, place_cons, place_nil, volume_cons, volume_cons,
        volume_nil, Nat.mul_one, Nat.mul_one, Nat.add_zero]
  have hin : ∀ i < m, Within (index ++ [i, j]) shape.dims := fun i hi => by
    rw [hdims]
    exact h.append ⟨hi, hj, trivial⟩
  -- inside a plane the items are numbered by row and column
  have hinside : ∀ i < m, i * n + j < m * n := fun i hi => by
    have hrow : (i + 1) * n ≤ m * n := Nat.mul_le_mul_right _ hi
    rw [Nat.succ_mul] at hrow
    omega
  have hend : (place lead index + 1) * (m * n) ≤ (transform F .last shape items).length := by
    rw [hz.length_eq, hdims, volume_append, volume_cons, volume_cons, volume_nil, Nat.mul_one]
    exact Nat.mul_le_mul_right _ (place_lt h)
  -- the plane, cut out of the transformed rows
  have hplane : (((transform F .last shape items).drop (place lead index * (m * n))).take
      (m * n)).length = m * n := by
    rw [List.length_take, List.length_drop]
    rw [Nat.succ_mul] at hend
    omega
  refine (eq_map_range (by rw [hF, List.length_map, List.length_range]) fun i hi => ?_).symm
  rw [← hy.get_eq _ (hin i hi), hplace, transform_lastTwo_eq hdims, alongColumns,
    getElem?_inPortions (fun l hl => length_alongPlaneColumns hF hl) (hinside i hi) hend,
    getElem?_alongPlaneColumns hF hplane hi hj fun i hi => ?_]
  rw [getElem?_take_drop (hinside i hi), ← hplace, hz.get_eq _ (hin i hi)]

/-- A transform keeps the number of items, whatever the shape is. -/
theorem length_transform (hF : ∀ l, (F l).length = l.length) (axes : Axes)
    (hlen : items.length = volume shape.dims) :
    (transform F axes shape items).length = volume shape.dims := by
  rcases List.eq_nil_or_concat shape.dims with hnone | ⟨lead, n, hdims⟩
  · -- without an axis the items are left as they are
    cases axes <;> simpa [transform, hnone] using hlen
  · rw [List.concat_eq_append] at hdims
    cases axes with
    | last => exact length_transform_last hF hdims hlen
    | lastTwo =>
      rcases List.eq_nil_or_concat lead with rfl | ⟨lead, m, rfl⟩
      · simpa [transform, hdims] using hlen
      · rw [List.concat_eq_append, List.append_assoc] at hdims
        exact length_transform_lastTwo hF hdims hlen

/-- **A transform of all items is a transform of lines.** -/
theorem linesUnder_transform [Inhabited α] (hF : ∀ l, (F l).length = l.length) (axes : Axes)
    (hx : Spells shape.dims x items) (hy : Spells shape.dims y (transform F axes shape items)) :
    LinesUnder F shape.dims x y axes := by
  cases axes with
  | last => exact fun lead n hdims => transform_last hF hdims hx hy
  | lastTwo =>
    intro lead m n hdims
    have hrows : shape.dims = (lead ++ [m]) ++ [n] := hdims.trans (List.append_cons lead m [n])
    obtain ⟨z, hz⟩ := exists_spells (length_transform_last hF hrows hx.length_eq)
    exact ⟨z, transform_last hF hrows hx hz, transform_lastTwo hF hdims hz hy⟩

/-- Of nothing there are no lines. -/
theorem transform_nil (F : List α → List α) (axes : Axes) (shape : Shape) :
    transform F axes shape [] = [] := by
  have hrows : ∀ n, alongRows F n [] = [] := fun n => by
    simp [alongRows, portions]
  have hcolumns : ∀ m n, alongColumns F m n [] = [] := fun m n => by
    simp [alongColumns, portions]
  unfold transform
  split
  · exact hrows _
  · rw [hrows, hcolumns]
  · rfl

end Transform

end Strided.Fourier
