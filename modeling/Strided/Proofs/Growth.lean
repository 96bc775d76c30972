import Strided.Bridge.Reference
import Strided.Proofs.Run
import Mathlib.Order.Defs.Unbundled

/-!
# Stores only grow

Whatever a computation does, a buffer that is there stays there, with its element type and its
size; only its cells may change. So what is true of the place, the type and the size of a buffer
is true for ever, and an array that can be used once can always be used.

`Store.Extends` says this for two stores and `Action.Grows` for a step of a computation. Most
operations do better: they only add buffers, and leave the cells of those that are there as they
are. This is `Store.Agrees` for two stores and `Action.Adds` for a step.

Both are cases of `Action.Leads`, for a preorder of stores. A step leads from every store to a
related one if all steps it is made of do, so that the proofs for operations follow their text:
`Action.Leads.bind` for one step after another, `Action.Leads.check` for a check. The three steps
that touch a store are `adds_allocate`, `grows_write` and `grows_call`, the last one for
bridges that keep to the rule themselves.
-/

namespace Strided

/-! ### Stores -/

/-- The places in use come before the next one. -/
theorem Store.lt_nextId {s : Store} {id : StorageId} {b : Buffer} (h : s.buffer? id = some b) :
    id < s.nextId := (Array.getElem?_eq_some_iff.1 h).1

/-- **Every buffer is still there**, with its element type and its size. -/
def Store.Extends (s s' : Store) : Prop :=
  ∀ id b, s.buffer? id = some b → ∃ b', s'.buffer? id = some b' ∧ b'.dt = b.dt ∧ b'.size = b.size

namespace Store.Extends

variable {s s' s₁ s₂ : Store}

theorem refl (s : Store) : s.Extends s := fun _ b h => ⟨b, h, rfl, rfl⟩

theorem trans (h₁ : s.Extends s₁) (h₂ : s₁.Extends s₂) : s.Extends s₂ := by
  intro id b h
  -- the buffer is followed from store to store
  obtain ⟨b₁, hb₁, hdt₁, hsize₁⟩ := h₁ id b h
  obtain ⟨b₂, hb₂, hdt₂, hsize₂⟩ := h₂ id b₁ hb₁
  exact ⟨b₂, hb₂, hdt₂.trans hdt₁, hsize₂.trans hsize₁⟩

/-- There are no fewer buffers. -/
theorem nextId_le (h : s.Extends s') : s.nextId ≤ s'.nextId := by
  cases hn : s.nextId with
  | zero => exact Nat.zero_le _
  | succ n =>
    -- the last buffer is still there
    have hlt : n < s.buffers.size := by
      change n < s.nextId
      rw [hn]
      exact Nat.lt_succ_self n
    obtain ⟨b', hb', -⟩ := h n s.buffers[n] (Array.getElem?_eq_getElem hlt)
    exact Store.lt_nextId hb'

/-- A buffer may be replaced by one of the same type and size. -/
theorem replace {id : StorageId} {b b' : Buffer} (h : s.buffer? id = some b) (hdt : b'.dt = b.dt)
    (hsize : b'.size = b.size) : s.Extends (s.replace id b') := by
  intro id₁ b₁ h₁
  rw [Store.buffer?_replace]
  -- only the buffer that is replaced is another one
  by_cases hid : id = id₁ ∧ id < s.nextId
  · rw [if_pos hid]
    obtain rfl := hid.1
    obtain rfl : b = b₁ := Option.some.inj (h.symm.trans h₁)
    exact ⟨b', rfl, hdt, hsize⟩
  · rw [if_neg hid]
    exact ⟨b₁, h₁, rfl, rfl⟩

end Store.Extends

/-- **The buffers of one store are in the other, as they are.** -/
def Store.Agrees (s s' : Store) : Prop := ∀ id b, s.buffer? id = some b → s'.buffer? id = some b

namespace Store.Agrees

variable {s s₁ s₂ : Store}

theorem refl (s : Store) : s.Agrees s := fun _ _ h => h

theorem trans (h₁ : s.Agrees s₁) (h₂ : s₁.Agrees s₂) : s.Agrees s₂ :=
  fun id b h => h₂ id b (h₁ id b h)

/-- A new buffer takes no other one's place. -/
theorem push (s : Store) (b : Buffer) : s.Agrees (s.push b) := by
  intro id b' h
  have hlt : id < s.nextId := Store.lt_nextId h
  rw [Store.buffer?_push, if_neg (Nat.ne_of_lt hlt), h]

theorem toExtends (h : s.Agrees s₁) : s.Extends s₁ := fun id b hb => ⟨b, h id b hb, rfl, rfl⟩

end Store.Agrees

/-! ### Steps -/

/-- **A step that takes every store to a related one**, whether it ends in a result or not. The
relation is a preorder, so that steps in a row lead from the first store to the last. -/
def Action.Leads (R : Store → Store → Prop) {α : Type} (x : Action α) : Prop :=
  ∀ w r w', x w = (r, w') → R w.store w'.store

/-- **A step that keeps all buffers**, with their element types and sizes. -/
abbrev Action.Grows {α : Type} (x : Action α) : Prop := x.Leads Store.Extends

/-- **A step that changes no cell** of a buffer that is there. -/
abbrev Action.Adds {α : Type} (x : Action α) : Prop := x.Leads Store.Agrees

/-- A step that changes no cell keeps the buffers. -/
theorem Action.Adds.grows {α : Type} {x : Action α} (h : x.Adds) : x.Grows :=
  fun w r w' hx => (h w r w' hx).toExtends

/-- Bridges that keep all buffers. -/
def Bridges.Grow (bridges : Bridges) : Prop :=
  ∀ (h : Handle) (r : Request) (w : World), w.store.Extends (bridges h r w).2

instance : IsPreorder Store Store.Extends where
  refl := .refl
  trans _ _ _ := .trans

instance : IsPreorder Store Store.Agrees where
  refl := .refl
  trans _ _ _ := .trans

namespace Action.Leads

variable {R : Store → Store → Prop} [IsPreorder Store R] {α β : Type} {x y : Action α}
  {f : α → Action β}

/-- Nothing happens to the store in a step that leaves the world alone. -/
theorem of_eq (h : ∀ w, (x w).2 = w) : x.Leads R := by
  intro w r w' hx
  obtain rfl : w = w' := (h w).symm.trans (congrArg Prod.snd hx)
  exact refl_of R _

theorem pure (a : α) : (Pure.pure a : Action α).Leads R := of_eq fun _ => rfl

theorem answer (x : Answer α) : (liftM x : Action α).Leads R := of_eq fun _ => rfl

theorem checked (x : Checked α) : (liftM x : Action α).Leads R := of_eq fun _ => rfl

theorem read (g : Store → Answer α) : (Action.read g).Leads R := of_eq fun _ => rfl

/-- **One step after another** leads where both lead, also if the second is not reached. -/
theorem bind (hx : x.Leads R) (hf : ∀ a, (f a).Leads R) : (x >>= f).Leads R := by
  intro w r w' h
  rcases hw : x w with ⟨e | a, w₁⟩
  · -- the chain has stopped in the world of the first step
    rw [Action.bind_of_error hw] at h
    obtain rfl := (Prod.mk.inj h).2
    exact hx w _ w₁ hw
  · -- the second step begins where the first one has led
    rw [Action.bind_of_ok hw] at h
    exact trans_of R (hx w _ w₁ hw) (hf a w₁ r w' h)

omit [IsPreorder Store R] in
theorem ite {c : Prop} [Decidable c] (hx : x.Leads R) (hy : y.Leads R) :
    (if c then x else y).Leads R := by
  by_cases hc : c
  · rw [if_pos hc]
    exact hx
  · rw [if_neg hc]
    exact hy

/-- A check that stops the computation. -/
theorem check {c : Prop} [Decidable c] {e : ArrayError} {g : PUnit → Action α}
    (hx : x.Leads R) (hg : (g ⟨⟩).Leads R) :
    (if c then x else (liftM (reject e : Answer PUnit) >>= g)).Leads R :=
  ite hx (bind (answer _) fun _ => hg)

end Action.Leads

namespace Action

/-- A new buffer changes none of those that are there. -/
theorem adds_allocate (b : Buffer) : (allocate b).Adds := by
  intro w r w' h
  obtain rfl := (Prod.mk.inj h).2
  exact .push w.store b

/-- A write changes the cells of a buffer, and neither their type nor their number. -/
theorem grows_write (a : NDArray) (dt : DType) (items : List dt.Elem) :
    (write a dt items).Grows := by
  intro w r w' h
  unfold write at h
  cases hcells : (w.store.buffer? a.storage).bind (·.cellsAs dt) with
  | none =>
    rw [hcells] at h
    obtain rfl := (Prod.mk.inj h).2
    exact .refl _
  | some cells =>
    -- the buffer has elements of the type asked for
    obtain ⟨b, hb, hc⟩ := Option.bind_eq_some_iff.1 hcells
    have hdt : b.dt = dt := by
      by_cases hdt : b.dt = dt
      · exact hdt
      · rw [Buffer.cellsAs_eq_none_iff.2 hdt] at hc
        exact absurd hc (by simp)
    obtain ⟨bdt, bcells⟩ := b
    obtain rfl : bdt = dt := hdt
    obtain rfl : bcells = cells := Option.some.inj ((Buffer.cellsAs_mk bdt bcells).symm.trans hc)
    -- however far the write gets, as many cells are there as before
    have hext : w.store.Extends (w.store.replace a.storage
        ⟨bdt, (a.view.offsets.scatter items bcells).1⟩) :=
      .replace hb rfl (Offsets.size_scatter _ _ _)
    rw [hcells] at h
    dsimp only at h
    cases hfault : (a.view.offsets.scatter items bcells).2 with
    | none =>
      rw [hfault] at h
      obtain rfl := (Prod.mk.inj h).2
      exact hext
    | some f =>
      rw [hfault] at h
      obtain rfl := (Prod.mk.inj h).2
      exact hext

/-- What a call does to the store is up to the bridge. -/
theorem grows_call {bridges : Bridges} (hb : bridges.Grow) (h : Handle) (r : Request) :
    (call bridges h r).Grows := by
  intro w res w' hcall
  rw [call_eq] at hcall
  obtain rfl := (Prod.mk.inj hcall).2
  -- the bridge answers in a world in which only the list of calls has changed
  exact hb h r (listing h r w)

end Action

end Strided
