import Strided.Proofs.Fixtures.Views
import Strided.Proofs.Text

/-!
# What the texts of fixtures tell apart

Random parts of a shape are dropped if their text has been seen before. Nothing is lost by that,
since a text is the text of one subscription only: it is a list in brackets, and so are all parts of
the text of a fixture, which can therefore be read from the left. Behind the shape stands a bracket
if there is a subscription, and a blank if there is none.

So what is kept are the different ones among the subscriptions that are drawn, in the order in which
they first come up. The draws do not depend on what is kept, and that is how `drawViews_eq` says it:
first all draws are made, and then their repetitions are dropped.
-/

namespace Strided

/-! ### One text, one thing -/

/-- **A shape is read from the left** of any text that begins with its listing. -/
theorem Shape.listing_inj {s t : Shape} {rest rest' : List Char}
    (h : s.listing ++ rest = t.listing ++ rest') : s = t ∧ rest = rest' := by
  obtain ⟨hdims, hrest⟩ := spelling_digits.bracketed_inj (by decide) (by decide) h
  exact ⟨congrArg Shape.mk hdims, hrest⟩

/-- **So is a subscription**, from the left of what begins with its text. -/
theorem Subscription.chars_inj {s t : Subscription} {rest rest' : List Char}
    (h : s.chars ++ rest = t.chars ++ rest') : s = t ∧ rest = rest' := by
  obtain ⟨hslices, hrest⟩ := spelling_slice.bracketed_inj (by decide) (by decide) h
  exact ⟨congrArg Subscription.mk hslices, hrest⟩

/-- **Texts tell subscriptions apart.** -/
theorem Subscription.text_injective : Function.Injective Subscription.text := by
  intro s t h
  -- a text is followed by nothing
  have hchars : s.chars ++ [] = t.chars ++ [] := congrArg (· ++ []) (String.ofList_injective h)
  exact (chars_inj hchars).1

/-- The arrow and the shape behind it, where a fixture without a subscription goes on at once. -/
theorem ViewFixture.chars_eq (f : ViewFixture) :
    f.chars = f.shape.listing ++ (f.subscription.elim [] Subscription.chars
      ++ ' ' :: '-' :: '>' :: ' ' :: f.viewShape.listing) := by
  simp [ViewFixture.chars]

/-- **Texts tell fixtures apart**, by the shape, what comes behind it, and the shape of the view. -/
theorem ViewFixture.text_injective : Function.Injective ViewFixture.text := by
  rintro ⟨shape, sub, viewShape⟩ ⟨shape', sub', viewShape'⟩ h
  have hchars := String.ofList_injective h
  rw [ViewFixture.chars_eq, ViewFixture.chars_eq] at hchars
  obtain ⟨rfl, hlater⟩ := Shape.listing_inj hchars
  -- what is left of both texts begins with a bracket or with a blank
  have hsub : sub = sub' ∧ ' ' :: '-' :: '>' :: ' ' :: viewShape.listing
      = ' ' :: '-' :: '>' :: ' ' :: viewShape'.listing := by
    cases sub with
    | none =>
      cases sub' with
      | none => exact ⟨rfl, hlater⟩
      | some t => exact absurd (List.cons.inj hlater).1 (by decide)
    | some s =>
      cases sub' with
      | none => exact absurd (List.cons.inj hlater).1 (by decide)
      | some t =>
        obtain ⟨rfl, hrest⟩ := Subscription.chars_inj hlater
        exact ⟨rfl, hrest⟩
  obtain ⟨rfl, harrow⟩ := hsub
  have hlast : viewShape.listing ++ [] = viewShape'.listing ++ [] := by
    simpa using harrow
  rw [(Shape.listing_inj hlast).1]

/-! ### Repetitions -/

section Repetitions

variable {σ : Type} (R : RangeSource σ)

/-- The subscriptions that come up in `samples` draws. -/
def drawSubscriptions (shape : Shape) (samples : Nat) : Draw σ (List Subscription) :=
  (List.replicate samples shape).mapM fun shape => return (← randomSubscription R shape).1

/-- **The fixtures of one shape**: all of it, and a part of it for each of the different
subscriptions that come up. -/
def distinctViews (samples : Nat) (shape : Shape) : Draw σ (List ViewFixture) := do
  if (← shape.isDegenerate) then
    return [.whole shape]
  let subs ← drawSubscriptions R shape samples
  return .whole shape :: subs.eraseDups.map (.part shape)

theorem drawSubscriptions_succ (shape : Shape) (samples : Nat) :
    drawSubscriptions R shape (samples + 1) = do
      let (sub, _) ← randomSubscription R shape
      return sub :: (← drawSubscriptions R shape samples) := by
  simp [drawSubscriptions, List.replicate_succ]

/-- **Dropping what has been shown** comes to making all draws and dropping repetitions then. -/
theorem drawViews_eq (shape : Shape) (samples : Nat) (shown : List Subscription) :
    drawViews R shape samples (shown.map Subscription.text) = do
      let subs ← drawSubscriptions R shape samples
      return (subs.filter (· ∉ shown)).eraseDups.map (.part shape) := by
  induction samples generalizing shown with
  | zero => rfl
  | succ samples ih =>
    rw [drawViews, drawSubscriptions_succ, randomSubscription]
    simp only [bind_assoc, pure_bind]
    refine bind_congr fun slices => ?_
    let sub := Subscription.mk slices
    -- a text has been seen if and only if the subscription has
    have hseen : (shown.map Subscription.text).contains sub.text = decide (sub ∈ shown) := by
      simp [Subscription.text_injective.eq_iff]
    by_cases h : sub ∈ shown
    · rw [if_pos (by rw [hseen, decide_eq_true h]), ih shown]
      refine bind_congr fun subs => ?_
      rw [List.filter_cons_of_neg (by simpa using h)]
    · rw [if_neg (by rw [hseen, decide_eq_false h]; exact Bool.false_ne_true), ← List.map_cons,
        ih (sub :: shown), bind_assoc]
      refine bind_congr fun subs => ?_
      -- what equals the new subscription is dropped from the later ones, as it has now been seen
      have hrest : subs.filter (· ∉ sub :: shown)
          = (subs.filter (· ∉ shown)).filter fun t => !t == sub := by
        rw [List.filter_filter]
        refine List.filter_congr fun t _ => ?_
        simp [beq_eq_decide]
      rw [List.filter_cons_of_pos (by simpa using h), List.eraseDups_cons, ← hrest, pure_bind]
      rfl

/-- With nothing seen at the start the fixtures of a shape are the distinct ones. -/
theorem shapeViews_eq (samples : Nat) (shape : Shape) :
    shapeViews R samples shape = distinctViews R samples shape := by
  have hviews := drawViews_eq R shape samples []
  simp only [List.map_nil, List.not_mem_nil, not_false_eq_true, decide_true,
    List.filter_true] at hviews
  rw [shapeViews, distinctViews, hviews]
  refine bind_congr fun degenerate => ?_
  cases degenerate with
  | true => rfl
  | false =>
    simp only [bind_assoc, pure_bind]

end Repetitions

/-- **Texts tell subscriptions apart, and fixtures**, and so nothing is lost where repetitions are
dropped by their text: the parts of a shape are those given by the different subscriptions among
all that are drawn for it. -/
theorem texts_tell_apart :
    (∀ s t : Subscription, s.text = t.text ↔ s = t) ∧
    (∀ f g : ViewFixture, f.text = g.text ↔
      f.shape = g.shape ∧ f.subscription = g.subscription ∧ f.viewShape = g.viewShape) ∧
    ∀ (σ : Type) (R : RangeSource σ) (maxNdim maxDim minNdim samples : Nat),
      generateViews R maxNdim maxDim minNdim samples = do
        let shapes ← generateShapes R maxNdim maxDim samples minNdim
        return (← shapes.mapM (distinctViews R samples)).flatten := by
  refine ⟨fun s t => Subscription.text_injective.eq_iff, fun f g => ⟨fun h => ?_, ?_⟩, ?_⟩
  · rw [ViewFixture.text_injective h]
    exact ⟨rfl, rfl, rfl⟩
  · rintro ⟨hshape, hsub, hview⟩
    rw [ViewFixture.text, ViewFixture.chars, hshape, hsub, hview]
    rfl
  · intro σ R maxNdim maxDim minNdim samples
    have hshape : shapeViews R samples = distinctViews R samples := funext (shapeViews_eq R samples)
    rw [generateViews, hshape]

end Strided
