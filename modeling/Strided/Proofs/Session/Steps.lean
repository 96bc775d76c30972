import Strided.Session
import Strided.Proofs.Growth

/-!
# Opening sessions

A command of a session is a chain of steps, which look names up, run operations and keep arrays
under names. As for computations in `Strided.Proofs.Run`, the lemmas here read such a chain
backwards: it has ended in a result only if every link has (`run_bind_eq_ok`), and the links
are the few steps listed below it.

Most steps touch neither the names nor the buffers; they only let the store grow. This is
`Step.Keeps`, and it is closed under chains.
-/

namespace Strided.Session

variable {α β : Type} {s s' : Session}

/-! ### Chains -/

/-- A chain goes on from the session that its first link leaves. -/
theorem run_bind_of_ok {x : Step α} {f : α → Step β} {s₁ : Session} {a : α}
    (h : x.run s = (.ok a, s₁)) : (x >>= f).run s = (f a).run s₁ := by
  have hx : x s = (.ok a, s₁) := h
  change (match x s with
    | (r, s₁) => ExceptT.bindCont f r s₁) = _
  rw [hx]
  rfl

/-- A link that ends in a reply ends the chain, in the session that it leaves. -/
theorem run_bind_of_error {x : Step α} {f : α → Step β} {s₁ : Session} {r : Reply}
    (h : x.run s = (.error r, s₁)) : (x >>= f).run s = (.error r, s₁) := by
  have hx : x s = (.error r, s₁) := h
  change (match x s with
    | (r, s₁) => ExceptT.bindCont f r s₁) = _
  rw [hx]
  rfl

/-- **A chain has a result exactly when its first link and the rest have one.** -/
theorem run_bind_eq_ok {x : Step α} {f : α → Step β} {b : β} :
    (x >>= f).run s = (.ok b, s') ↔
      ∃ a s₁, x.run s = (.ok a, s₁) ∧ (f a).run s₁ = (.ok b, s') := by
  rcases h : x.run s with ⟨r | a, s₁⟩
  · -- a step that ends in a reply ends the chain
    rw [run_bind_of_error h]
    constructor
    · intro hf
      exact absurd (congrArg Prod.fst hf) (by simp)
    · rintro ⟨a, s₂, heq, -⟩
      exact absurd (congrArg Prod.fst heq) (by simp)
  · rw [run_bind_of_ok h]
    constructor
    · intro hf
      exact ⟨a, s₁, rfl, hf⟩
    · rintro ⟨a', s₂, heq, hf⟩
      obtain ⟨ha, rfl⟩ := Prod.mk.inj heq
      obtain rfl := Except.ok.inj ha
      exact hf

/-! ### Links -/

/-- A link that only hands on a result leaves the session as it is. -/
theorem run_pure_eq_ok {a b : α} : (pure a : Step α).run s = (.ok b, s') ↔ a = b ∧ s = s' := by
  change ((.ok a : Except Reply α), s) = (.ok b, s') ↔ _
  rw [Prod.mk.injEq, Except.ok.injEq]

/-- **A name is looked up.** If no array has it, that is the reply. -/
theorem run_find (name : Name) : (find name).run s = match s.arrays.lookup name with
    | some a => (.ok a, s)
    | none => (.error (.noArray name), s) := by
  unfold find
  -- the lookup is a match of its own, which the step unfolds to
  change (match s.arrays.lookup name with
    | some a => (pure a : Step NDArray)
    | none => throw (Reply.noArray name)) s = _
  cases s.arrays.lookup name <;> rfl

/-- A name has been found if and only if an array has it. -/
theorem run_find_eq_ok {name : Name} {a : NDArray} :
    (find name).run s = (.ok a, s') ↔ s.arrays.lookup name = some a ∧ s = s' := by
  rw [run_find]
  cases s.arrays.lookup name with
  | none =>
    constructor
    · intro h
      exact absurd (congrArg Prod.fst h) (by simp)
    · rintro ⟨h, -⟩
      exact absurd h (by simp)
  | some b =>
    constructor
    · intro h
      obtain ⟨hb, rfl⟩ := Prod.mk.inj h
      exact ⟨congrArg some (Except.ok.inj hb), rfl⟩
    · rintro ⟨h, rfl⟩
      rw [Option.some.inj h]

/-- **A computation runs in the world of the session**, and leaves the names alone. -/
theorem run_act {x : Action α} : (act x).run s
    = ((x s.world).1.mapError Reply.failure, { s with world := (x s.world).2 }) := by
  rw [act, run_bind_of_ok (show (get : Step Session).run s = (.ok s, s) from rfl)]
  rcases x s.world with ⟨e | a, w⟩ <;> rfl

/-- A computation has a result in a session if and only if it has one in its world. -/
theorem run_act_eq_ok {x : Action α} {a : α} : (act x).run s = (.ok a, s') ↔
    ∃ w, x s.world = (.ok a, w) ∧ { s with world := w } = s' := by
  rw [run_act]
  rcases x s.world with ⟨e | b, w⟩
  · -- a computation that fails has no result in either of them
    constructor
    · intro h
      exact absurd (congrArg Prod.fst h) (by rintro ⟨⟩)
    · rintro ⟨w', h, -⟩
      exact absurd (congrArg Prod.fst h) (by simp)
  · constructor
    · intro h
      obtain ⟨hb, rfl⟩ := Prod.mk.inj h
      obtain rfl := Except.ok.inj hb
      exact ⟨w, rfl, rfl⟩
    · rintro ⟨w', h, rfl⟩
      obtain ⟨hb, rfl⟩ := Prod.mk.inj h
      obtain rfl := Except.ok.inj hb
      rfl

/-- An array that is kept takes the place of the one that had its name. -/
theorem run_keep {a : NDArray} {name : Option Name} : (keep a name).run s = (.ok (), match name with
    | none => s
    | some name => { s with arrays := (name, a) :: s.arrays.filter (·.1 ≠ name) }) := by
  cases name <;> rfl

/-! ### Steps that keep names and buffers -/

/-- **A step that keeps the names and all buffers**, whether it ends in a result or not. -/
def Step.Keeps (x : Step α) : Prop :=
  ∀ s r s', x.run s = (r, s') → s'.arrays = s.arrays ∧ s.world.store.Extends s'.world.store

namespace Step.Keeps

variable {x : Step α} {f : α → Step β}

theorem pure (a : α) : Step.Keeps (Pure.pure a : Step α) := by
  intro s r s' h
  obtain rfl : s = s' := congrArg Prod.snd h
  exact ⟨rfl, .refl _⟩

/-- **A chain of such steps is such a step.** -/
theorem bind (hx : Step.Keeps x) (hf : ∀ a, Step.Keeps (f a)) : Step.Keeps (x >>= f) := by
  intro s r s' h
  rcases hw : x.run s with ⟨e | a, s₁⟩
  · -- the chain has ended with its first link
    rw [run_bind_of_error hw] at h
    obtain rfl := (Prod.mk.inj h).2
    exact hx s _ s₁ hw
  · rw [run_bind_of_ok hw] at h
    obtain ⟨hnames₁, hstore₁⟩ := hx s _ s₁ hw
    obtain ⟨hnames, hstore⟩ := hf a s₁ r s' h
    exact ⟨hnames.trans hnames₁, hstore₁.trans hstore⟩

/-- Looking a name up changes nothing, found or not. -/
theorem find (name : Name) : Step.Keeps (Session.find name) := by
  intro s r s' h
  rw [run_find] at h
  cases hname : s.arrays.lookup name with
  | none =>
    rw [hname] at h
    obtain rfl : s = s' := congrArg Prod.snd h
    exact ⟨rfl, .refl _⟩
  | some a =>
    rw [hname] at h
    obtain rfl : s = s' := congrArg Prod.snd h
    exact ⟨rfl, .refl _⟩

theorem find? (name : Option Name) : Step.Keeps (Session.find? name) := by
  cases name with
  | none => exact .pure none
  | some name => exact .bind (.find name) fun a => .pure (some a)

/-- A computation that lets the store grow keeps all buffers, and has no access to names. -/
theorem act {x : Action α} (hx : x.Grows) : Step.Keeps (Session.act x) := by
  intro s r s' h
  rw [run_act] at h
  obtain rfl := (Prod.mk.inj h).2
  exact ⟨rfl, hx s.world _ _ rfl⟩

theorem get : Step.Keeps (MonadState.get : Step Session) := by
  intro s r s' h
  obtain rfl : s = s' := congrArg Prod.snd h
  exact ⟨rfl, .refl _⟩

/-- Reading the store is a computation that does not even let it grow. -/
theorem inspect (f : Store → Answer α) : Step.Keeps (Session.inspect f) := .act (.read f)

end Step.Keeps

end Strided.Session
