import Strided.Fixtures
import Mathlib.Data.List.Forall2

/-!
# What is sure whatever is drawn

A fixture depends on what its source draws, and of a source nothing is known but that it stays in
the range (`RangeSource.InRange`). So a statement about fixtures is one about every result a
drawing computation can end with, and that it ends with one: `Draw.Yields x P`. It is closed under
binding and under `mapM`, and a draw from a range that is not empty yields a number of the range
(`Draw.yields_between`), which is the one place where something is asked of the source.

A computation that needs more memory than there is ends in a fault whatever has been drawn up to
there, and `Draw.Faults` says so.
-/

namespace Strided

namespace Draw

variable {σ α β : Type} {P : α → Prop} {Q : β → Prop} {x : Draw σ α} {f : α → Draw σ β}

/-- **From every state of the source the computation ends with a result**, and the result is as
said. -/
def Yields (x : Draw σ α) (P : α → Prop) : Prop := ∀ s, ∃ a s', x s = .ok (a, s') ∧ P a

/-- **From every state of the source the computation ends in the fault.** -/
def Faults (x : Draw σ α) (k : Fault) : Prop := ∀ s, x s = .error k

/-! ### Chains -/

theorem bind_of_ok {s s' : σ} {a : α} (h : x s = .ok (a, s')) : (x >>= f) s = f a s' := by
  -- a bind passes the result and the state on as a pair
  change (x s >>= fun p => f p.1 p.2) = f a s'
  rw [h]
  rfl

theorem bind_of_error {s : σ} {k : Fault} (h : x s = .error k) :
    (x >>= f) s = .error k := by
  change (x s >>= fun p => f p.1 p.2) = .error k
  rw [h]
  rfl

theorem Yields.mono {P' : α → Prop} (h : x.Yields P) (hP : ∀ a, P a → P' a) : x.Yields P' := by
  intro s
  obtain ⟨a, s', hx, ha⟩ := h s
  exact ⟨a, s', hx, hP a ha⟩

theorem yields_pure {a : α} (h : P a) : (pure a : Draw σ α).Yields P := fun s => ⟨a, s, rfl, h⟩

/-- A step that only computes. -/
theorem yields_checked {c : Checked α} {a : α} (hc : c = .ok a) (h : P a) :
    (liftM c : Draw σ α).Yields P := by
  intro s
  rw [hc]
  exact ⟨a, s, rfl, h⟩

/-- A step that only computes may also be what stops the drawing. -/
theorem faults_checked {c : Checked α} {k : Fault} (hc : c = .error k) :
    (liftM c : Draw σ α).Faults k := by
  intro s
  rw [hc]
  rfl

/-- **A chain yields what its rest yields** after every result of its first link. -/
theorem Yields.bind (hx : x.Yields P) (hf : ∀ a, P a → (f a).Yields Q) : (x >>= f).Yields Q := by
  intro s
  obtain ⟨a, s', ha, hP⟩ := hx s
  obtain ⟨b, s'', hb, hQ⟩ := hf a hP s'
  exact ⟨b, s'', (bind_of_ok ha).trans hb, hQ⟩

/-- A chain whose rest faults after every result ends in the fault. -/
theorem Yields.bind_faults {k : Fault} (hx : x.Yields P) (hf : ∀ a, P a → (f a).Faults k) :
    (x >>= f).Faults k := by
  intro s
  obtain ⟨a, s', ha, hP⟩ := hx s
  exact (bind_of_ok ha).trans (hf a hP s')

theorem Faults.bind {k : Fault} (hx : x.Faults k) : (x >>= f).Faults k :=
  fun s => bind_of_error (hx s)

/-- Of a choice one branch is taken, and it is known which condition holds there. -/
theorem Yields.ite {c : Prop} [Decidable c] {y : Draw σ α} (hx : c → x.Yields P)
    (hy : ¬c → y.Yields P) : (if c then x else y).Yields P := by
  split
  · exact hx ‹_›
  · exact hy ‹_›

/-- **One result for every item**, each as said of its item. -/
theorem yields_mapM {R : α → β → Prop} {as : List α} (h : ∀ a ∈ as, (f a).Yields (R a)) :
    (as.mapM f).Yields (List.Forall₂ R as) := by
  induction as with
  | nil =>
    rw [List.mapM_nil]
    exact yields_pure .nil
  | cons a as ih =>
    -- whatever the first item draws, the later ones start from the state that it leaves
    rw [List.mapM_cons]
    refine (h a List.mem_cons_self).bind fun b hb => ?_
    refine (ih fun c hc => h c (List.mem_cons_of_mem _ hc)).bind fun bs hbs => ?_
    exact yields_pure (.cons hb hbs)

/-- As many results as items, where the item does not matter. -/
theorem yields_mapM_all (as : List α) (h : ∀ a ∈ as, (f a).Yields Q) :
    (as.mapM f).Yields fun bs => bs.length = as.length ∧ ∀ b ∈ bs, Q b := by
  refine (yields_mapM h).mono fun bs hbs => ⟨hbs.length_eq.symm, fun b hb => ?_⟩
  obtain ⟨i, hi, rfl⟩ := List.getElem_of_mem hb
  exact (List.forall₂_iff_get.1 hbs).2 i (hbs.length_eq ▸ hi) hi

/-! ### Draws -/

/-- **A draw from a range** that has something in it. -/
theorem yields_between {R : RangeSource σ} (hR : R.InRange) {lo hi : Nat} (hle : lo ≤ hi)
    (hhi : hi < sizeBound) : (drawBetween R lo hi).Yields fun n => lo ≤ n ∧ n ≤ hi := by
  intro s
  refine ⟨(R.between lo hi s).1, (R.between lo hi s).2, ?_, hR lo hi s hle hhi⟩
  -- the range is not empty, so the source is asked
  rw [drawBetween, if_pos hle]

end Draw

end Strided
