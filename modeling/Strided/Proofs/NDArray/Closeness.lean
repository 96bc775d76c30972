import Strided.Closeness
import Strided.Proofs.NDArray.Transforms
import Strided.Proofs.Session.Actions
import Mathlib.Data.Set.Card

/-!
# Closeness, element by element

Comparing two arrays goes through both of them in row-major order, whatever their layouts and
element types are, so that the elements of one multi-index meet (`NDArray.toComplex_eq_map`). Of all
that is noted down on the way only the number of failures decides, and it goes up by one where the
test fails and nowhere else (`Comparison.failures_foldl`): what distances that are no numbers do to
the mean and to the largest distance has no part in it.

Nothing is asked of the test, nor of the arithmetic that it is made of.
-/

namespace Strided

open Shape

variable {t : Tolerance}

/-! ### Counting failures -/

namespace Comparison

/-- A pair adds one to the failures if the test fails on it, and nothing if not. -/
theorem failures_update (c : Comparison) (pair : Complex Float × Complex Float) :
    (c.update t pair).failures = c.failures + if t.isClose pair.1 pair.2 then 0 else 1 := by
  show (if t.isClose pair.1 pair.2 then c.failures else c.failures + 1) = _
  split
  · rfl
  · rfl

/-- **The pairs that fail are counted one by one**, from any comparison on. -/
theorem failures_foldl (pairs : List (Complex Float × Complex Float)) (c : Comparison) :
    (pairs.foldl (update t) c).failures
      = c.failures + pairs.countP fun pair => !t.isClose pair.1 pair.2 := by
  induction pairs generalizing c with
  | nil => rfl
  | cons pair pairs ih =>
    rw [List.foldl_cons, ih, failures_update, List.countP_cons]
    cases t.isClose pair.1 pair.2 with
    | true => simp
    | false => simp; omega

/-- The report begins with the number of failures. -/
theorem message_eq (c : Comparison) :
    ∃ rest, c.message = sizeText c.failures ++ " samples not close - " ++ rest := by
  have htext : " samples not close - AVGE=" = " samples not close - " ++ "AVGE=" := rfl
  rw [message, htext]
  simp only [String.append_assoc]
  exact ⟨_, rfl⟩

/-- The failures of two sequences with an element for each multi-index. -/
theorem failures_of_map (dims : List Nat) (x y : List Nat → Complex Float) :
    (of t ((indicesOf dims).map x) ((indicesOf dims).map y)).failures
      = (indicesOf dims).countP fun index => !t.isClose (x index) (y index) := by
  -- the lists are taken pair by pair, which brings together the elements of one multi-index
  rw [of, failures_foldl, List.zip_map', List.countP_map]
  exact Nat.zero_add _

end Comparison

namespace NDArray

variable {s : Store} {a b : NDArray} {cells : Array a.dt.Elem} {cells' : Array b.dt.Elem}

/-! ### Widened elements -/

/-- **The element at a multi-index**, as a double precision complex number. -/
def widened (a : NDArray) (cells : Array a.dt.Elem) (index : List Nat) : Complex Float :=
  a.dt.widen (a.elementAt cells index)

/-- There is memory for the widened elements. -/
def RoomToWiden (a : NDArray) : Prop := DType.c128.bytes * volume a.shape.dims < signedBound

instance (a : NDArray) : Decidable a.RoomToWiden := inferInstanceAs (Decidable (_ < _))

/-- **The widened elements in row-major order** are read of any layout. -/
theorem toComplex_eq_map (hbuf : a.Backed s cells) (hfits : (Buffer.mk a.dt cells).Fits)
    (hwalks : a.view.Walks cells.size) (hroom : a.RoomToWiden) :
    a.toComplex s = .ok (a.shape.indices.map (a.widened cells)) := by
  -- no element is wider than a complex number, so the array itself can be read as well
  have hsmall : a.dt.bytes * volume a.shape.dims < signedBound :=
    lt_of_le_of_lt (Nat.mul_le_mul_right _ a.dt.bytes_le) hroom
  obtain ⟨xs, hxs⟩ := exists_toList hbuf hwalks hfits.size_le hsmall
  have hspells := (spells_of_toList hbuf hfits hwalks hxs).map a.dt.widen
  exact (map_of_toList .c128 a.dt.widen hxs hroom).trans (congrArg Except.ok hspells.eq_map)

/-- Without memory for the widened elements there is nothing to compare. -/
theorem toComplex_of_no_room (hbuf : a.Backed s cells) (hfits : (Buffer.mk a.dt cells).Fits)
    (hwalks : a.view.Walks cells.size) (hroom : ¬a.RoomToWiden) :
    a.toComplex s = .error (.fault .capacity) :=
  map_of_no_room .c128 a.dt.widen hbuf hwalks hfits.size_le hroom

/-! ### The comparison -/

/-- The multi-indices at which two arrays of one shape are not close. -/
def apart (t : Tolerance) (a b : NDArray) (cells : Array a.dt.Elem) (cells' : Array b.dt.Elem) :
    Set (List Nat) :=
  {index | Within index a.shape.dims ∧
    ¬t.isClose (a.widened cells index) (b.widened cells' index)}

/-- **The number of multi-indices at which two arrays are not close** is what a count along one of
them comes to. -/
theorem ncard_apart (t : Tolerance) (a b : NDArray) (cells : Array a.dt.Elem)
    (cells' : Array b.dt.Elem) : (apart t a b cells cells').ncard
      = a.shape.indices.countP fun index =>
          !t.isClose (a.widened cells index) (b.widened cells' index) := by
  -- the multi-indices that fail, as a list without repetitions
  let failing := a.shape.indices.filter fun index =>
    !t.isClose (a.widened cells index) (b.widened cells' index)
  have hset : apart t a b cells cells' = failing.toFinset := by
    ext index
    simp [apart, failing, Shape.indices, mem_indicesOf]
  rw [hset, Set.ncard_coe_finset, List.countP_eq_length_filter]
  exact List.toFinset_card_of_nodup ((nodup_indicesOf _).filter _)

/-- None are apart if and only if the test accepts all of them. -/
theorem ncard_apart_eq_zero_iff : (apart t a b cells cells').ncard = 0 ↔
    ∀ index, Within index a.shape.dims →
      t.isClose (a.widened cells index) (b.widened cells' index) := by
  rw [ncard_apart, List.countP_eq_zero]
  simp [Shape.indices, mem_indicesOf]

/-- Arrays of one shape are compared with each other's elements, if there is memory for that. -/
theorem allClose_eq_of_room (ha : a.Backed s cells) (hafits : (Buffer.mk a.dt cells).Fits)
    (hawalks : a.view.Walks cells.size) (hb : b.Backed s cells')
    (hbfits : (Buffer.mk b.dt cells').Fits) (hbwalks : b.view.Walks cells'.size)
    (hshape : a.shape = b.shape) (hroom : a.RoomToWiden) (t : Tolerance) :
    ∃ c : Comparison, c.failures = (apart t a b cells cells').ncard ∧
      a.allClose s b t = .ok (if c.failures = 0 then .ok () else .error (.samples c)) := by
  have hroom' : b.RoomToWiden := by
    unfold RoomToWiden
    rw [← hshape]
    exact hroom
  refine ⟨_, (Comparison.failures_of_map a.shape.dims _ _).trans (ncard_apart t a b _ _).symm, ?_⟩
  rw [allClose, if_pos hshape, toComplex_eq_map ha hafits hawalks hroom, Checked.ok_bind,
    toComplex_eq_map hb hbfits hbwalks hroom', Checked.ok_bind, ← hshape]
  rfl

/-- **Closeness is decided element by element.** Two arrays are given whose elements lie in buffers
of their element types, with views that can be walked. If their shapes differ they are not close,
and that is what is reported. If not, and if there is memory for the widened elements, they are
close if and only if the test accepts the elements of every multi-index; otherwise the report names
the number of multi-indices at which it does not. Without the memory nothing is reported. Whatever
comes of it, no array has changed. -/
theorem all_close_decides (ha : a.Backed s cells) (hafits : (Buffer.mk a.dt cells).Fits)
    (hawalks : a.view.Walks cells.size) (hb : b.Backed s cells')
    (hbfits : (Buffer.mk b.dt cells').Fits) (hbwalks : b.view.Walks cells'.size)
    (t : Tolerance) :
    (a.shape ≠ b.shape → a.allClose s b t = .ok (.error (.shapes a.shape b.shape))) ∧
    (a.shape = b.shape → a.RoomToWiden →
      (a.allClose s b t = .ok (.ok ()) ↔ ∀ index, Within index a.shape.dims →
        t.isClose (a.widened cells index) (b.widened cells' index)) ∧
      (a.allClose s b t ≠ .ok (.ok ()) → ∃ c rest,
        a.allClose s b t = .ok (.error (.samples c)) ∧
        c.failures = (apart t a b cells cells').ncard ∧
        c.message = sizeText (apart t a b cells cells').ncard ++ " samples not close - " ++ rest)) ∧
    (a.shape = b.shape → ¬a.RoomToWiden → a.allClose s b t = .error (.fault .capacity)) ∧
    ∀ (setting : Setting) (x y : Name) (session : Session),
      (Session.exec setting (.query (.allClose x y t)) session).2 = session := by
  refine ⟨fun h => if_neg h, fun hshape hroom => ?_, fun hshape hroom => ?_,
    fun setting x y session => ?_⟩
  · obtain ⟨c, hcount, hrun⟩ :=
      allClose_eq_of_room ha hafits hawalks hb hbfits hbwalks hshape hroom t
    refine ⟨?_, fun hne => ?_⟩
    · -- the verdict is a test of the count
      rw [← ncard_apart_eq_zero_iff, ← hcount, hrun]
      constructor
      · intro hok
        by_contra hsome
        rw [if_neg hsome] at hok
        cases hok
      · intro hzero
        rw [if_pos hzero]
    · have hsome : c.failures ≠ 0 := by
        intro hzero
        exact hne (by rw [hrun, if_pos hzero])
      obtain ⟨rest, hrest⟩ := c.message_eq
      rw [if_neg hsome] at hrun
      exact ⟨c, rest, hrun, hcount, hcount ▸ hrest⟩
  · rw [allClose, if_pos hshape, toComplex_of_no_room ha hafits hawalks hroom]
    rfl
  · -- a query leaves the session to what reads it
    rw [Session.exec_eq]
    rfl

/-- The exact tolerance. -/
def exactly : Tolerance := ⟨0, 0⟩

/-- Two numbers. -/
def ascending : NDArray := lineOver 0 2 .i32 .host

/-- Two wider ones that lie backwards in their buffer. -/
def turnedAround : NDArray := ⟨1, ⟨⟨[2]⟩, ⟨[-1]⟩, 1⟩, .i64, .host⟩

/-- The cells of the wider ones. -/
def wideCells : Array Int64 := #[2, 1]

/-- The store of both. -/
def narrowAndWide : Store := (World.holding [⟨.i32, countTo 2⟩, ⟨.i64, wideCells⟩]).store

/-- One meets one, and two meets two. -/
theorem all_close_decides_pairs :
    ascending.Backed narrowAndWide (countTo 2) ∧ (Buffer.mk ascending.dt (countTo 2)).Fits ∧
      ascending.view.Walks (countTo 2).size ∧ turnedAround.Backed narrowAndWide wideCells ∧
      (Buffer.mk turnedAround.dt wideCells).Fits ∧ turnedAround.view.Walks wideCells.size ∧
      (ascending.allClose narrowAndWide turnedAround exactly = .ok (.ok ()) ↔
        exactly.isClose (DType.widen .i32 1) (DType.widen .i64 1) ∧
        exactly.isClose (DType.widen .i32 2) (DType.widen .i64 2)) := by
  have ha : ascending.Backed narrowAndWide (countTo 2) := rfl
  have hafits : (Buffer.mk ascending.dt (countTo 2)).Fits := by decide
  have hawalks : ascending.view.Walks (countTo 2).size := ⟨rfl, by decide, by decide⟩
  have hb : turnedAround.Backed narrowAndWide wideCells := rfl
  have hbfits : (Buffer.mk turnedAround.dt wideCells).Fits := by decide
  have hbwalks : turnedAround.view.Walks wideCells.size := ⟨rfl, by decide, by decide⟩
  obtain ⟨hall, -⟩ :=
    (all_close_decides ha hafits hawalks hb hbfits hbwalks exactly).2.1 rfl (by decide)
  refine ⟨ha, hafits, hawalks, hb, hbfits, hbwalks, hall.trans ⟨fun h => ?_, fun h => ?_⟩⟩
  · exact ⟨h [0] (by decide), h [1] (by decide)⟩
  · -- there are two multi-indices
    intro index hin
    obtain ⟨i, hi, rfl⟩ := within_singleton.1 hin
    match i, hi with
    | 0, _ => exact h.1
    | 1, _ => exact h.2

/-- **There need not be a verdict.** The array can be walked, but its elements do not fit the
memory: it is neither close to itself, nor does a report say at how many multi-indices it is not. -/
theorem all_close_undecided :
    (repeated 0 .i64).Backed (alone .i64).store (lone .i64) ∧
      (Buffer.mk (repeated 0 .i64).dt (lone .i64)).Fits ∧
      (repeated 0 .i64).view.Walks (lone .i64).size ∧
      (∀ verdict,
        (repeated 0 .i64).allClose (alone .i64).store (repeated 0 .i64) exactly ≠ .ok verdict) ∧
      ¬(((repeated 0 .i64).allClose (alone .i64).store (repeated 0 .i64) exactly = .ok (.ok ()) ↔
          ∀ index, Within index (repeated 0 .i64).shape.dims →
            exactly.isClose ((repeated 0 .i64).widened (lone .i64) index)
              ((repeated 0 .i64).widened (lone .i64) index)) ∧
        ((repeated 0 .i64).allClose (alone .i64).store (repeated 0 .i64) exactly ≠ .ok (.ok ()) →
          ∃ c, (repeated 0 .i64).allClose (alone .i64).store (repeated 0 .i64) exactly
              = .ok (.error (.samples c)) ∧
            c.failures = (apart exactly (repeated 0 .i64) (repeated 0 .i64) (lone .i64)
              (lone .i64)).ncard)) := by
  have hbuf : (repeated 0 .i64).Backed (alone .i64).store (lone .i64) := rfl
  have hfits : (Buffer.mk (repeated 0 .i64).dt (lone .i64)).Fits := by decide
  have hwalks : (repeated 0 .i64).view.Walks (lone .i64).size := walks_repeated 0 .i64
  have hnone : ∀ verdict, (repeated 0 .i64).allClose (alone .i64).store (repeated 0 .i64) exactly
      ≠ .ok verdict := by
    intro verdict hverdict
    rw [allClose, if_pos rfl, toComplex_of_no_room hbuf hfits hwalks (by decide)] at hverdict
    cases hverdict
  refine ⟨hbuf, hfits, hwalks, hnone, ?_⟩
  -- without a verdict the array is not close, and then there should be a report
  rintro ⟨-, hreport⟩
  obtain ⟨c, hc, -⟩ := hreport (hnone (.ok ()))
  exact hnone _ hc

end NDArray

end Strided
