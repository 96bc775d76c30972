import Strided.Proofs.Run

/-!
# Runs that look the same

A world lists the calls that bridges have received together with the arrays that were passed.
A bridge notes less of a call: the name of the request and, for every array, its element type,
its shape and its device. So two runs that pass different arrays may still look the same from
outside. They are a `SameRun` if they end in the same answer, with the same storages, and the
bridges have noted the same calls.

The relation follows a computation link by link (`SameRun.bind`), and the only link at which the
two runs may part in what they list is a call (`SameRun.call`). A step that neither looks at the
calls nor makes one is `Action.Offline`: it goes the same way from worlds that look the same
(`Action.Offline.sameRun`). All operations that run on the host are made of such steps.
-/

namespace Strided

/-! ### Worlds -/

/-- **What a bridge notes of a call**: which bridge it is, the words of the request, and the
storages as they were then. -/
def Call.note (c : Call) : Handle × String × Store := (c.bridge, c.request.text, c.found)

/-- **Worlds that look the same**: equal storages, and calls that were noted in the same way. -/
structure World.Like (w w' : World) : Prop where
  store_eq : w'.store = w.store
  notes_eq : w'.calls.map Call.note = w.calls.map Call.note

namespace World.Like

variable {w w' w'' : World}

theorem refl (w : World) : w.Like w := ⟨rfl, rfl⟩

theorem trans (h : w.Like w') (h' : w'.Like w'') : w.Like w'' :=
  ⟨h'.store_eq.trans h.store_eq, h'.notes_eq.trans h.notes_eq⟩

/-- One more call on both sides, in the same words. -/
theorem record (h : w.Like w') (handle : Handle) {r r' : Request} (htext : r'.text = r.text)
    {s s' : Store} (hs : s' = s) :
    World.Like ⟨s, w.calls ++ [⟨handle, r, w.store⟩]⟩
      ⟨s', w'.calls ++ [⟨handle, r', w'.store⟩]⟩ := by
  -- the notes are made of the bridge, the words and the storages, and not of the arrays
  have hnote : (Call.mk handle r' w'.store).note = (Call.mk handle r w.store).note := by
    unfold Call.note
    dsimp only
    rw [htext, h.store_eq]
  refine ⟨hs, ?_⟩
  rw [List.map_append, List.map_append, h.notes_eq, List.map_singleton, List.map_singleton, hnote]

end World.Like

/-! ### Runs -/

/-- **Runs that look the same**: the answers are equal, and the worlds at the end look the
same. -/
structure SameRun {α : Type} (r r' : Answer α × World) : Prop where
  answer_eq : r'.1 = r.1
  like : r.2.Like r'.2

namespace SameRun

variable {α β : Type} {x x' : Action α} {f f' : α → Action β} {w w' : World}

theorem refl (r : Answer α × World) : SameRun r r := ⟨rfl, .refl _⟩

/-- Equal runs look the same. -/
theorem of_eq {r r' : Answer α × World} (h : r' = r) : SameRun r r' := by
  rw [h]
  exact .refl r

/-- What looks the same as a second run looks the same as a third if the second does. -/
theorem trans {r r' r'' : Answer α × World} (h : SameRun r r') (h' : SameRun r' r'') :
    SameRun r r'' :=
  ⟨h'.answer_eq.trans h.answer_eq, h.like.trans h'.like⟩

/-- **One step after another.** The rest of the computation may rely on what the first step has
done in the first run. -/
theorem bind (hx : SameRun (x w) (x' w'))
    (hf : ∀ a w₁ w₁', x w = (.ok a, w₁) → w₁.Like w₁' → SameRun (f a w₁) (f' a w₁')) :
    SameRun ((x >>= f) w) ((x' >>= f') w') := by
  -- both runs stop at the first step, or both go on with the same result
  rcases hw : x w with ⟨r, w₁⟩
  rcases hw' : x' w' with ⟨r', w₁'⟩
  rw [hw, hw'] at hx
  obtain rfl : r' = r := hx.answer_eq
  cases r' with
  | error e =>
    rw [Action.bind_of_error hw, Action.bind_of_error hw']
    exact ⟨rfl, hx.like⟩
  | ok a =>
    rw [Action.bind_of_ok hw, Action.bind_of_ok hw']
    exact hf a w₁ w₁' hw hx.like

theorem pure (a : α) (h : w.Like w') :
    SameRun ((Pure.pure a : Action α) w) ((Pure.pure a : Action α) w') := ⟨rfl, h⟩

/-- A step that only answers lists no call. -/
theorem answer (r : Answer α) (h : w.Like w') :
    SameRun ((liftM r : Action α) w) ((liftM r : Action α) w') := ⟨rfl, h⟩

/-- **A call**, if the bridge cannot tell the requests apart. -/
theorem call {bridges : Bridges} {h : Handle} {r r' : Request} (hw : w.Like w')
    (htext : r'.text = r.text)
    (hbridge : bridges h r' { w' with calls := w'.calls ++ [⟨h, r', w'.store⟩] }
      = bridges h r { w with calls := w.calls ++ [⟨h, r, w.store⟩] }) :
    SameRun (Action.call bridges h r w) (Action.call bridges h r' w') := by
  unfold Action.call
  dsimp only
  -- the bridges answer alike, and leave the same storages
  rw [hbridge]
  rcases bridges h r { w with calls := w.calls ++ [⟨h, r, w.store⟩] } with ⟨response, s⟩
  cases response with
  | done => exact ⟨rfl, hw.record h htext rfl⟩
  | error e => exact ⟨rfl, hw.record h htext rfl⟩
  | fault f => exact ⟨rfl, hw.record h htext rfl⟩

end SameRun

/-! ### Steps without calls -/

/-- **A step that does not look at the calls** and adds none. -/
def Action.Offline {α : Type} (x : Action α) : Prop :=
  ∀ w calls, x { w with calls := calls } = ((x w).1, { (x w).2 with calls := calls })

namespace Action.Offline

variable {α β : Type} {x y : Action α} {f : α → Action β}

/-- The calls are what they were. -/
theorem calls_eq (hx : x.Offline) (w : World) : (x w).2.calls = w.calls :=
  congrArg (fun r => r.2.calls) (hx w w.calls)

/-- **Worlds that look the same** are taken to worlds that look the same. -/
theorem sameRun (hx : x.Offline) {w w' : World} (h : w.Like w') : SameRun (x w) (x w') := by
  -- the worlds differ in nothing but the calls
  have hw' : w' = { w with calls := w'.calls } := by
    obtain ⟨s', calls'⟩ := w'
    obtain rfl : s' = w.store := h.store_eq
    rfl
  rw [hw', hx w w'.calls]
  refine ⟨rfl, rfl, ?_⟩
  dsimp only
  rw [hx.calls_eq w, h.notes_eq]

/-- A result adds no call to the list. -/
theorem pure (a : α) : (Pure.pure a : Action α).Offline := fun _ _ => rfl

theorem answer (r : Answer α) : (liftM r : Action α).Offline := fun _ _ => rfl

theorem checked (r : Checked α) : (liftM r : Action α).Offline := fun _ _ => rfl

theorem read (g : Store → Answer α) : (Action.read g).Offline := fun _ _ => rfl

theorem allocate (b : Buffer) : (Action.allocate b).Offline := fun _ _ => rfl

/-- A write looks at the storage it goes to, not at the calls. -/
theorem write (a : NDArray) (dt : DType) (items : List dt.Elem) :
    (Action.write a dt items).Offline := by
  intro w calls
  unfold Action.write
  dsimp only
  -- the three ways in which a write can end
  cases (w.store.buffer? a.storage).bind (·.cellsAs dt) with
  | none => rfl
  | some cells =>
    dsimp only
    cases (a.view.offsets.scatter items cells).2 <;> rfl

/-- A chain of such steps is such a step. -/
theorem bind (hx : x.Offline) (hf : ∀ a, (f a).Offline) : (x >>= f).Offline := by
  intro w calls
  have hcalls := hx w calls
  rcases hw : x w with ⟨e | a, w₁⟩
  · rw [hw] at hcalls
    rw [Action.bind_of_error hcalls, Action.bind_of_error hw]
  · rw [hw] at hcalls
    rw [Action.bind_of_ok hcalls, Action.bind_of_ok hw]
    exact hf a w₁ calls

/-- A step that goes one of two ways looks at no call if neither way does. -/
theorem ite {c : Prop} [Decidable c] (hx : x.Offline) (hy : y.Offline) :
    (if c then x else y).Offline := by
  by_cases hc : c
  · rw [if_pos hc]
    exact hx
  · rw [if_neg hc]
    exact hy

/-- A check that stops the computation. -/
theorem check {c : Prop} [Decidable c] {e : ArrayError} {g : PUnit → Action α}
    (hx : x.Offline) (hg : (g ⟨⟩).Offline) :
    (if c then x else (liftM (reject e : Answer PUnit) >>= g)).Offline :=
  ite hx (bind (answer _) fun _ => hg)

end Action.Offline

end Strided
