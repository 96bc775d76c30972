import Strided.World

/-!
# Opening computations

Layout arithmetic is a chain of `Checked` results, an operation on arrays a chain of
`Action`s, and either kind of chain stops at its first failure. The lemmas of this file take
such a chain apart once and for all, so that later proofs follow an operation step by step
and never unfold a bind:

* `Checked.bind_eq_ok` and `Action.bind_eq_ok` read a result backwards: a chain has ended in
  a result only if every link has;
* `Action.bind_of_ok` and `Action.bind_of_error` run a chain forwards, one link at a time;
* `Action.liftM_checked` and `Action.liftM_answer` say what the links that only compute do to
  a world: nothing. Chains that begin with such a link, or with a check, have lemmas of their
  own in both directions;
* `Action.call_eq` says what a call to a bridge does to a world.
-/

namespace Strided

variable {α β ε : Type}

/-! ### Results without a world -/

/-- A chain has a result exactly when its first link and the rest have one. -/
theorem Checked.bind_eq_ok {x : Except ε α} {f : α → Except ε β} {b : β} :
    (x >>= f) = .ok b ↔ ∃ a, x = .ok a ∧ f a = .ok b := by
  cases x <;> simp [bind, Except.bind]

@[simp] theorem Checked.ok_bind (a : α) (f : α → Except ε β) :
    ((.ok a : Except ε α) >>= f) = f a := rfl

@[simp] theorem Checked.error_bind (e : ε) (f : α → Except ε β) :
    ((.error e : Except ε α) >>= f) = .error e := rfl

@[simp] theorem Checked.pure_eq (a : α) : (pure a : Except ε α) = .ok a := rfl

/-- Layout arithmetic inside an answer is lifted, whatever its result. -/
@[simp] theorem Answer.liftM_checked (x : Checked α) :
    (liftM x : Answer α) = x.lift := rfl

/-- Lifting hides no result and makes none up. -/
@[simp] theorem Checked.lift_eq_ok {x : Checked α} {a : α} : x.lift = .ok a ↔ x = .ok a := by
  cases x <;> simp [Checked.lift]

/-! ### Steps of a computation -/

namespace Action

/-- A step that only answers leaves the world alone. -/
@[simp] theorem liftM_answer (x : Answer α) (w : World) :
    (liftM x : Action α) w = (x, w) := rfl

/-- A step of layout arithmetic leaves the world alone. -/
@[simp] theorem liftM_checked (x : Checked α) (w : World) :
    (liftM x : Action α) w = (x.lift, w) := rfl

/-- An answer is the same in every world. -/
@[simp] theorem ofAnswer_apply (x : Answer α) (w : World) : ofAnswer x w = (x, w) := rfl

/-- Reading looks at the store and leaves the world alone. -/
@[simp] theorem read_apply (f : Store → Answer α) (w : World) :
    read f w = (f w.store, w) := rfl

/-- A chain goes on in the world its first link has left. -/
theorem bind_of_ok {x : Action α} {f : α → Action β} {w w₁ : World} {a : α}
    (h : x w = (.ok a, w₁)) : (x >>= f) w = f a w₁ := by
  change Action.bind x f w = f a w₁
  unfold Action.bind
  rw [h]

/-- A chain stops in the world its first link has failed in. -/
theorem bind_of_error {x : Action α} {f : α → Action β} {w w₁ : World} {e : Failure}
    (h : x w = (.error e, w₁)) : (x >>= f) w = (.error e, w₁) := by
  change Action.bind x f w = (.error e, w₁)
  unfold Action.bind
  rw [h]

/-- What a result is turned into does not show in the world. -/
theorem bind_pure_world (x : Action α) (f : α → β) (w : World) :
    ((x >>= fun a => (Pure.pure (f a) : Action β)) w).2 = (x w).2 := by
  rcases h : x w with ⟨e | a, w₁⟩
  · rw [bind_of_error h]
  · rw [bind_of_ok h]
    rfl

/-! #### Links that leave the world alone -/

/-- Behind a link that only answers the chain goes on in the world it began in. -/
theorem bind_answer_ok {x : Answer α} {a : α} (h : x = .ok a) (f : α → Action β) (w : World) :
    ((liftM x : Action α) >>= f) w = f a w := bind_of_ok (by rw [liftM_answer, h])

/-- A chain stops at a link that only answers in the world it began in. -/
theorem bind_answer_error {x : Answer α} {e : Failure} (h : x = .error e) (f : α → Action β)
    (w : World) : ((liftM x : Action α) >>= f) w = (.error e, w) :=
  bind_of_error (by rw [liftM_answer, h])

/-- Behind layout arithmetic the chain goes on in the world it began in. -/
theorem bind_checked_ok {x : Checked α} {a : α} (h : x = .ok a) (f : α → Action β) (w : World) :
    ((liftM x : Action α) >>= f) w = f a w :=
  bind_of_ok (by rw [liftM_checked, h, Checked.lift_ok])

theorem bind_checked_error {x : Checked α} {k : Fault} (h : x = .error k) (f : α → Action β)
    (w : World) : ((liftM x : Action α) >>= f) w = (.error (.fault k), w) :=
  bind_of_error (by rw [liftM_checked, h, Checked.lift_error])

theorem bind_read_ok {g : Store → Answer α} {a : α} {w : World} (h : g w.store = .ok a)
    (f : α → Action β) : (read g >>= f) w = f a w := bind_of_ok (by rw [read_apply, h])

theorem bind_read_error {g : Store → Answer α} {e : Failure} {w : World}
    (h : g w.store = .error e) (f : α → Action β) : (read g >>= f) w = (.error e, w) :=
  bind_of_error (by rw [read_apply, h])

/-- A run has one result and leaves one world behind. -/
theorem ok_unique {x : Action α} {w w₁ w₂ : World} {a b : α} (h : x w = (.ok a, w₁))
    (h' : x w = (.ok b, w₂)) : a = b ∧ w₁ = w₂ := by
  obtain ⟨heq, hw⟩ := Prod.mk.inj (h.symm.trans h')
  exact ⟨Except.ok.inj heq, hw⟩

/-- A run that has failed has no result. -/
theorem error_ne_ok {x : Action α} {w w₁ w₂ : World} {a : α} {e : Failure}
    (h : x w = (.error e, w₁)) : x w ≠ (.ok a, w₂) := fun h' =>
  absurd (congrArg Prod.fst (h.symm.trans h')) (by simp)

/-- **A chain has a result exactly when its first link and the rest have one**, the rest in
the world the first link has left. -/
theorem bind_eq_ok {x : Action α} {f : α → Action β} {w w' : World} {b : β} :
    (x >>= f) w = (.ok b, w') ↔ ∃ a w₁, x w = (.ok a, w₁) ∧ f a w₁ = (.ok b, w') := by
  -- the first link decides whether there is a rest to run
  rcases h : x w with ⟨r, w₁⟩
  cases r with
  | ok a =>
    rw [bind_of_ok h]
    constructor
    · intro hf
      exact ⟨a, w₁, rfl, hf⟩
    · rintro ⟨a', w₂, heq, hf⟩
      obtain ⟨rfl, rfl⟩ := Prod.mk.inj heq |>.imp Except.ok.inj id
      exact hf
  | error e =>
    rw [bind_of_error h]
    constructor
    · intro hf
      exact absurd (congrArg Prod.fst hf) (by simp)
    · rintro ⟨a', w₂, heq, -⟩
      exact absurd (congrArg Prod.fst heq) (by simp)

/-- The result of a chain that begins with an answer, read backwards. -/
theorem bind_answer_eq_ok {x : Answer α} {f : α → Action β} {w w' : World} {b : β} :
    ((liftM x : Action α) >>= f) w = (.ok b, w') ↔ ∃ a, x = .ok a ∧ f a w = (.ok b, w') := by
  cases x with
  | ok a =>
    rw [bind_answer_ok rfl]
    simp
  | error e =>
    rw [bind_answer_error rfl]
    simp

theorem bind_checked_eq_ok {x : Checked α} {f : α → Action β} {w w' : World} {b : β} :
    ((liftM x : Action α) >>= f) w = (.ok b, w') ↔ ∃ a, x = .ok a ∧ f a w = (.ok b, w') := by
  cases x with
  | ok a =>
    rw [bind_checked_ok rfl]
    simp
  | error k =>
    rw [bind_checked_error rfl]
    simp

/-- The result of a chain that begins with a reading, read backwards. -/
theorem bind_read_eq_ok {g : Store → Answer α} {f : α → Action β} {w w' : World} {b : β} :
    (read g >>= f) w = (.ok b, w') ↔ ∃ a, g w.store = .ok a ∧ f a w = (.ok b, w') := by
  rcases h : g w.store with e | a
  · rw [bind_read_error h]
    simp
  · rw [bind_read_ok h]
    simp

/-- A check has let the computation pass. -/
theorem check_eq_ok {c : Prop} [Decidable c] {e : ArrayError} {x : Action β}
    {g : PUnit → Action β} {w w' : World} {b : β} :
    (if c then x else (liftM (reject e : Answer PUnit) >>= g)) w = (.ok b, w') ↔
      c ∧ x w = (.ok b, w') := by
  by_cases hc : c
  · rw [if_pos hc]
    simp [hc]
  · -- a refused check answers, whatever stands behind it
    have hreject : ((liftM (reject e : Answer PUnit) : Action PUnit) >>= g) w
        = (.error (.rejected e), w) := bind_answer_error rfl g w
    rw [if_neg hc, hreject]
    simp [hc]

/-! #### Calls -/

/-- What a call ends in when the bridge answers so. -/
def ofResponse : Response → Answer Unit
  | .done => .ok ()
  | .error e => .error (.rejected (.bridge e))
  | .fault f => .error (.fault f)

/-- The world in which a bridge answers a call: the call is listed already. -/
def listing (h : Handle) (r : Request) (w : World) : World :=
  { w with calls := w.calls ++ [⟨h, r, w.store⟩] }

@[simp] theorem listing_store (h : Handle) (r : Request) (w : World) :
    (listing h r w).store = w.store := rfl

@[simp] theorem listing_calls (h : Handle) (r : Request) (w : World) :
    (listing h r w).calls = w.calls ++ [⟨h, r, w.store⟩] := rfl

/-- **A call** is listed, and then the answer and the store are those of the bridge. -/
theorem call_eq (bridges : Bridges) (h : Handle) (r : Request) (w : World) :
    call bridges h r w = (ofResponse (bridges h r (listing h r w)).1,
      { listing h r w with store := (bridges h r (listing h r w)).2 }) := by
  unfold call listing
  dsimp only
  -- one case for each way a bridge can answer
  split <;> rename_i heq <;> rw [heq] <;> rfl

/-! #### Chains with equal links -/

/-- Chains whose links are equal in the worlds they are reached in. -/
theorem bind_congr {x x' : Action α} {f f' : α → Action β} {w : World} (hx : x' w = x w)
    (hf : ∀ a w₁, x w = (.ok a, w₁) → f' a w₁ = f a w₁) : (x' >>= f') w = (x >>= f) w := by
  rcases h : x w with ⟨e | a, w₁⟩
  · rw [bind_of_error (hx.trans h), bind_of_error h]
  · rw [bind_of_ok (hx.trans h), bind_of_ok h, hf a w₁ h]

/-- Chains that begin with the same reading. -/
theorem bind_read_congr {g g' : Store → Answer α} {f f' : α → Action β} {w : World}
    (hg : g' w.store = g w.store) (hf : ∀ a, f' a w = f a w) :
    (read g' >>= f') w = (read g >>= f) w := by
  refine bind_congr (by rw [read_apply, read_apply, hg]) fun a w₁ h => ?_
  obtain rfl : w = w₁ := congrArg Prod.snd h
  exact hf a

/-- Chains that begin with the same check. -/
theorem check_congr {c : Prop} [Decidable c] {e : ArrayError} {x x' : Action β}
    {g g' : PUnit → Action β} {w : World} (hx : c → x' w = x w) :
    (if c then x' else (liftM (reject e : Answer PUnit) >>= g')) w
      = (if c then x else (liftM (reject e : Answer PUnit) >>= g)) w := by
  have hreject : ∀ g : PUnit → Action β, ((liftM (reject e : Answer PUnit) : Action PUnit) >>= g) w
      = (.error (.rejected e), w) := fun g => bind_answer_error rfl g w
  by_cases hc : c
  · rw [if_pos hc, if_pos hc, hx hc]
  · rw [if_neg hc, if_neg hc, hreject g', hreject g]

end Action

end Strided
