import Strided.Proofs.NDArray.Access

/-!
# Writing through shared storage

What does a write through one array do to another one over the same storage? Their views need
have nothing in common, and either may repeat cells, within itself or against the other. The
answer is in terms of cells: an accepted write leaves `Written` cells behind, so an element of
the other array shows the last item that went to its cell, or what it showed before if none
did. `NDArray.assign_writes_through` states this for all views over a storage at once, together
with what the write leaves alone, and says that a refused write leaves everything alone.

The only thing that can go wrong with an array that can be walked is the memory. A view may
repeat its cells so often that a list of its elements, or of the items of a `fill`, would not
fit; reading and filling then end in a fault. A fill with items that take more bytes than the
array's own meets this before it meets the check of the element type
(`NDArray.wide_fill_not_refused`).
-/

namespace Strided.NDArray

/-- **The traces of a write** of `items` to the array `a`, whose buffer had `cells` before. -/
structure WroteThrough (w w' : World) (a : NDArray) (cells : Array a.dt.Elem)
    (items : List a.dt.Elem) : Prop where
  /-- The buffer keeps its element type and its size, and the cells are the written ones. -/
  written : ∃ cells', a.Backed w'.store cells' ∧ Written a.view.places items cells cells'
  /-- The other storages keep their buffers, and there are no new ones. -/
  others : ∀ id, id ≠ a.storage → w'.store.buffer? id = w.store.buffer? id
  calls_eq : w'.calls = w.calls
  /-- An array over the same storage shows the last item written to the cell of an element, or
  the old element. -/
  shown : ∀ b : NDArray, b.storage = a.storage → b.dt = a.dt → b.view.Walks cells.size →
    a.dt.bytes * Shape.volume b.shape.dims < signedBound →
    ∃ old new, b.toList w.store a.dt = .ok old ∧ b.toList w'.store a.dt = .ok new ∧
      Overlaid a.view.places b.view.places items old new
  /-- Without repetitions the array shows just what was written. -/
  readBack : a.view.Distinct → a.toList w'.store a.dt = .ok items

variable {w : World} {a : NDArray} {cells : Array a.dt.Elem}

/-- Reading another array over the same storage, before and after. -/
private theorem shown_of_written {s s' : Store} {cells' : Array a.dt.Elem}
    {items : List a.dt.Elem} {b : NDArray} (hbuf : a.Backed s cells) (hbuf' : a.Backed s' cells')
    (hsize : cells.size ≤ sizeBound) (hwritten : Written a.view.places items cells cells')
    (hstorage : b.storage = a.storage) (hdt : b.dt = a.dt) (hwalks : b.view.Walks cells.size)
    (hcap : a.dt.bytes * Shape.volume b.shape.dims < signedBound) :
    ∃ old new, b.toList s a.dt = .ok old ∧ b.toList s' a.dt = .ok new ∧
      Overlaid a.view.places b.view.places items old new := by
  obtain ⟨storage, view, dt, device⟩ := b
  obtain rfl : storage = a.storage := hstorage
  obtain rfl : dt = a.dt := hdt
  -- the cells behind the other array are the same before and the same after
  have hbuf₁ : (NDArray.mk a.storage view a.dt device).Backed s cells := hbuf
  have hbuf₂ : (NDArray.mk a.storage view a.dt device).Backed s' cells' := hbuf'
  have hwalks' : view.Walks cells'.size := by rw [hwritten.size_eq]; exact hwalks
  have hsize' : cells'.size ≤ sizeBound := by rw [hwritten.size_eq]; exact hsize
  obtain ⟨old, hold⟩ := exists_toList hbuf₁ hwalks hsize hcap
  obtain ⟨new, hnew⟩ := exists_toList hbuf₂ hwalks' hsize' hcap
  exact ⟨old, new, hold, hnew, hwritten.overlaid ((toList_eq_ok_iff hbuf₁ hwalks hsize).1 hold).2
    ((toList_eq_ok_iff hbuf₂ hwalks' hsize').1 hnew).2⟩

/-- **Writes go through to all arrays over the storage**, and refused writes go nowhere. An
array that can be walked takes any list of as many items as it has elements. With a wrong
number of items, or items of another type, it refuses and nothing changes; a fill with items of
another type does not change anything either, but may run out of memory first. -/
theorem assign_writes_through (hbuf : a.Backed w.store cells) (hfits : (Buffer.mk a.dt cells).Fits)
    (hwalks : a.view.Walks cells.size) :
    (∀ items : List a.dt.Elem, items.length = Shape.volume a.shape.dims →
      ∃ w', a.assign a.dt items w = (.ok (), w') ∧ WroteThrough w w' a cells items) ∧
    (∀ items : List a.dt.Elem, items.length ≠ Shape.volume a.shape.dims →
      a.assign a.dt items w
        = (.error (.rejected (.shapeMismatch a.shape ⟨[items.length]⟩)), w)) ∧
    (∀ (dt : DType) (items : List dt.Elem), dt ≠ a.dt →
      a.assign dt items w = (.error (.rejected (.dtypeMismatch a.dt dt)), w)) ∧
    (∀ (dt : DType) (x : dt.Elem), dt ≠ a.dt →
      a.fill dt x w = (.error (if dt.bytes * Shape.volume a.shape.dims < signedBound
        then .rejected (.dtypeMismatch a.dt dt) else .fault .capacity), w)) := by
  have hlt : cells.size < signedBound := hfits.size_lt
  have hsize : cells.size ≤ sizeBound := hfits.size_le
  have hnumel : a.numel = .ok (Shape.volume a.shape.dims) := View.numel_of_fault hwalks.fault_eq
  refine ⟨fun items hlen => ?_, fun items hlen => assign_of_ne_length hnumel hlen w,
    fun dt items hdt => assign_of_ne_dtype hdt items w, fun dt x hdt => ?_⟩
  · -- as many items as there are elements
    obtain ⟨cells', hassign, hwritten⟩ := assign_eq hbuf hwalks hsize hlen
    have hused : a.storage < w.store.nextId := by
      obtain ⟨hlt, -⟩ := Array.getElem?_eq_some_iff.1 hbuf
      exact hlt
    -- the write replaces the buffer by one of the same element type
    have hbuf' : a.Backed (w.store.replace a.storage ⟨a.dt, cells'⟩) cells' := by
      rw [Backed, Store.buffer?_replace, if_pos ⟨rfl, hused⟩]
    refine ⟨_, hassign, ⟨cells', hbuf', hwritten⟩, ?_, rfl, ?_, ?_⟩
    · intro id hid
      rw [Store.buffer?_replace, if_neg fun h => hid h.1.symm]
    · intro b hstorage hdt hb hcap
      exact shown_of_written hbuf hbuf' hsize hwritten hstorage hdt hb hcap
    · -- every element has a cell of its own, so every item is the last one of its cell
      intro hd
      have hwalks' : a.view.Walks cells'.size := by rw [hwritten.size_eq]; exact hwalks
      have hsize' : cells'.size ≤ sizeBound := by rw [hwritten.size_eq]; exact hsize
      have hvolume := View.volume_le_of_distinct hd hwalks.inBounds
      refine (toList_eq_ok_iff hbuf' hwalks' hsize').2 ⟨?_, ?_⟩
      · exact lt_of_le_of_lt (Nat.mul_le_mul_left _ hvolume) hfits
      · exact hwritten.map_places (hd.nodup_places hwalks.inBounds)
          (hlen.trans (View.length_places _).symm)
  · -- a fill lays out its items before the element type is looked at
    by_cases hcap : dt.bytes * Shape.volume a.shape.dims < signedBound
    · rw [if_pos hcap, fill_eq hnumel hcap, assign_of_ne_dtype hdt]
    · rw [if_neg hcap, fill_of_no_memory hnumel hcap]

/-! ### An array that overlaps itself -/

/-- Two overlapping pairs of neighbours among three numbers, `1 2` and `2 3`. -/
def pairs : NDArray := ⟨0, ⟨⟨[2, 2]⟩, ⟨[1, 1]⟩, 0⟩, .i32, .host⟩

/-- The items for both pairs. -/
def pairItems : List Int32 := [10, 20, 30, 40]

/-- The walk stays within the three numbers, though it meets the middle one twice. -/
theorem walks_pairs : pairs.view.Walks 3 where
  rank_eq := rfl
  inBounds := by decide
  fault_eq := by decide

/-- A write to both pairs: of the two items for the cell in the middle the second one stays. -/
theorem assign_writes_through_pairs :
    pairs.Backed (counting 3).store (countTo 3) ∧ (Buffer.mk pairs.dt (countTo 3)).Fits ∧
      pairs.view.Walks (countTo 3).size ∧
      ∃ w', pairs.assign pairs.dt pairItems (counting 3) = (.ok (), w') ∧
        WroteThrough (counting 3) w' pairs (countTo 3) pairItems := by
  have hbuf : pairs.Backed (counting 3).store (countTo 3) := rfl
  have hfits : (Buffer.mk pairs.dt (countTo 3)).Fits := by decide
  exact ⟨hbuf, hfits, walks_pairs, (assign_writes_through hbuf hfits walks_pairs).1 pairItems rfl⟩

/-! ### A fill that runs out of memory -/

private theorem displacement_zero (index : List Nat) : displacement index [0] = 0 := by
  cases index with
  | nil => rfl
  | cons i index => cases index <;> simp [displacement]

/-- However often the cell is repeated, it is one cell. -/
theorem walks_repeated (id : StorageId) (dt : DType) : (repeated id dt).view.Walks 1 where
  rank_eq := rfl
  inBounds := by
    rw [View.inBounds_iff]
    intro index _
    -- with a stride of zero all elements lie where the first one does
    have hzero : (repeated id dt).view.position index = 0 := by
      change ((0 : Nat) : Int) + displacement index [0] = 0
      rw [displacement_zero]
      rfl
    rw [hzero]
    decide
  fault_eq := by
    have hspan : Shape.span [1152921504606846976] < sizeBound := by decide
    have hway : ∀ p ∈ [1152921504606846976].zip [(0 : Int)], p.1 * p.2.natAbs < signedBound := by
      decide
    have hstay : ∀ index, (toSigned 0 + displacement index [0]).natAbs < signedBound := by
      intro index
      rw [displacement_zero]
      decide
    -- and the walk never leaves the first cell either
    exact View.fault_offsets rfl (Shape.numel_of_span hspan)
      ⟨fun index _ => hstay index, fun index _ => hstay index, hway⟩

/-- **A fill of another type need not be refused.** The array is backed and can be walked, but
its `2 ^ 60` elements do not fit the memory as complex numbers, so the fill does not come to
the check of the element type. -/
theorem wide_fill_not_refused :
    (repeated 0 .bool).Backed (alone .bool).store (lone .bool) ∧
      (Buffer.mk .bool (lone .bool)).Fits ∧
      (repeated 0 .bool).view.Walks (lone .bool).size ∧ DType.c128 ≠ (repeated 0 .bool).dt ∧
      ∀ e, (repeated 0 .bool).fill .c128 ⟨0, 0⟩ (alone .bool)
        ≠ (.error (.rejected e), alone .bool) := by
  have hfits : (Buffer.mk .bool (lone .bool)).Fits := by decide
  have hwalks := walks_repeated 0 .bool
  have hnumel : (repeated 0 .bool).numel = .ok 1152921504606846976 :=
    View.numel_of_fault hwalks.fault_eq
  refine ⟨rfl, hfits, hwalks, by decide, fun e he => ?_⟩
  rw [fill_of_no_memory hnumel (by decide)] at he
  exact absurd (congrArg Prod.fst he) (by simp)

end Strided.NDArray
