import Strided.Subscription
import Mathlib.Data.List.Basic

/-!
# Texts that can be taken apart

Numbers, slices, shapes and subscriptions are shown in texts without any escapes: decimal digits,
with colons between the numbers of a slice, and lists in brackets with commas between the items.
What makes such a text stand for one thing only is that every part of it ends where the first
character stands that the part cannot contain (`append_inj_of_runs`). So it is enough to say of a
way of writing things which characters it uses, that it writes something, and that it writes
different things differently (`Spelling`): the list in brackets can then be told from whatever
follows it (`Spelling.bracketed_inj`), and lists are so written themselves.
-/

namespace Strided

variable {α : Type}

/-! ### Runs of characters -/

/-- A run of characters of one kind ends where the first one of another kind stands. -/
theorem takeWhile_append_of_run {p : Char → Bool} {run rest : List Char} (hrun : ∀ c ∈ run, p c)
    (hrest : ∀ c ∈ rest.head?, ¬p c) : (run ++ rest).takeWhile p = run := by
  rw [List.takeWhile_append_of_pos hrun]
  cases rest with
  | nil => rw [List.takeWhile_nil, List.append_nil]
  | cons c rest => rw [List.takeWhile_cons_of_neg (hrest c rfl), List.append_nil]

/-- What begins with a character of another kind can stand behind a run. -/
theorem head?_of_cons {p : Char → Bool} {c : Char} (hc : ¬p c) (rest : List Char) :
    ∀ d ∈ (c :: rest).head?, ¬p d := by
  intro d hd
  obtain rfl : c = d := Option.some.inj hd
  exact hc

/-- **Two runs with something else behind each** are the same if the whole texts are. -/
theorem append_inj_of_runs {p : Char → Bool} {run run' rest rest' : List Char}
    (hrun : ∀ c ∈ run, p c) (hrun' : ∀ c ∈ run', p c) (hrest : ∀ c ∈ rest.head?, ¬p c)
    (hrest' : ∀ c ∈ rest'.head?, ¬p c) (h : run ++ rest = run' ++ rest') :
    run = run' ∧ rest = rest' := by
  have hsame : run = run' := by
    rw [← takeWhile_append_of_run hrun hrest, h, takeWhile_append_of_run hrun' hrest']
  subst hsame
  exact ⟨rfl, List.append_cancel_left h⟩

/-- **A way of writing things** in characters of one kind, every thing in its own way. -/
structure Spelling (p : Char → Bool) (f : α → List Char) : Prop where
  injective : Function.Injective f
  ne_nil : ∀ a, f a ≠ []
  mem : ∀ a, ∀ c ∈ f a, p c

/-! ### Lists in brackets -/

/-- The items in brackets, with commas between them. -/
def bracketed (f : α → List Char) (as : List α) : List Char :=
  '[' :: List.intercalate [',', ' '] (as.map f) ++ [']']

/-- The items behind the first one, each with its comma. -/
def furtherItems (f : α → List Char) (as : List α) : List Char :=
  as.flatMap fun a => ',' :: ' ' :: f a

/-- A list in brackets, with the items behind the first one as `furtherItems` has them. -/
theorem bracketed_cons (f : α → List Char) (a : α) (as : List α) :
    bracketed f (a :: as) = '[' :: (f a ++ (furtherItems f as ++ [']'])) := by
  -- the items from the first one on, by induction on those behind it
  have hlist : ∀ (as : List α) (b : α),
      List.intercalate [',', ' '] ((b :: as).map f) = f b ++ furtherItems f as := by
    intro as
    induction as with
    | nil =>
      intro b
      rw [List.map_singleton, List.intercalate_singleton, furtherItems, List.flatMap_nil,
        List.append_nil]
    | cons c as ih =>
      intro b
      rw [List.map_cons, List.map_cons, List.intercalate_cons_cons, ← List.map_cons, ih c]
      simp [furtherItems]
  rw [bracketed, hlist, List.cons_append, List.append_assoc]

namespace Spelling

variable {p : Char → Bool} {f : α → List Char} {as bs : List α} {rest rest' : List Char}

/-- The items behind the first one can be told from the bracket that closes the list and from what
follows it. -/
theorem furtherItems_inj (h : Spelling p f) (hcomma : ¬p ',') (hclose : ¬p ']')
    (heq : furtherItems f as ++ ']' :: rest = furtherItems f bs ++ ']' :: rest') :
    as = bs ∧ rest = rest' := by
  -- an item is followed by a comma or by the bracket
  have hnext : ∀ (as : List α) (rest : List Char),
      ∀ c ∈ (furtherItems f as ++ ']' :: rest).head?, ¬p c := by
    intro as rest c hc
    cases as with
    | nil => exact head?_of_cons hclose _ c hc
    | cons a as => exact head?_of_cons hcomma _ c hc
  induction as generalizing bs with
  | nil =>
    cases bs with
    | nil => exact ⟨rfl, (List.cons.inj heq).2⟩
    | cons b bs => exact absurd (List.cons.inj heq).1 (by decide)
  | cons a as ih =>
    -- a comma is not the bracket, so either both lists end here or none does
    cases bs with
    | nil => exact absurd (List.cons.inj heq).1 (by decide)
    | cons b bs =>
      have hitems : f a ++ (furtherItems f as ++ ']' :: rest)
          = f b ++ (furtherItems f bs ++ ']' :: rest') := by
        simpa [furtherItems] using heq
      obtain ⟨hitem, hlater⟩ := append_inj_of_runs (h.mem a) (h.mem b) (hnext as rest)
        (hnext bs rest') hitems
      obtain ⟨rfl, hrest⟩ := ih hlater
      exact ⟨by rw [h.injective hitem], hrest⟩

/-- **A list in brackets can be told from what follows it.** -/
theorem bracketed_inj (h : Spelling p f) (hcomma : ¬p ',') (hclose : ¬p ']')
    (heq : bracketed f as ++ rest = bracketed f bs ++ rest') : as = bs ∧ rest = rest' := by
  -- an item does not begin with the bracket that closes an empty list
  have hfirst : ∀ (b : α) (rest rest' : List Char), ']' :: rest ≠ f b ++ rest' := by
    intro b rest rest' heq
    rcases hb : f b with - | ⟨c, cs⟩
    · exact h.ne_nil b hb
    · rw [hb] at heq
      obtain ⟨rfl, -⟩ := List.cons.inj heq
      exact hclose (h.mem b _ (by rw [hb]; exact List.mem_cons_self))
  cases as with
  | nil =>
    cases bs with
    | nil => exact ⟨rfl, List.append_cancel_left heq⟩
    | cons b bs =>
      rw [bracketed_cons, List.cons_append, List.append_assoc] at heq
      exact absurd (List.cons.inj heq).2 (hfirst b rest _)
  | cons a as =>
    cases bs with
    | nil =>
      rw [bracketed_cons, List.cons_append, List.append_assoc] at heq
      exact absurd (List.cons.inj heq).2.symm (hfirst a rest' _)
    | cons b bs =>
      -- two items are two further items without the first comma
      rw [bracketed_cons, bracketed_cons] at heq
      have hitems : furtherItems f (a :: as) ++ ']' :: rest
          = furtherItems f (b :: bs) ++ ']' :: rest' := by
        simpa [furtherItems] using heq
      exact h.furtherItems_inj hcomma hclose hitems

end Spelling

/-! ### Numbers -/

/-- A number is written in digits, and the digits say which. -/
theorem spelling_digits : Spelling Char.isDigit digits where
  injective := by
    intro n m h
    calc n = Nat.ofDigitChars 10 (digits n) 0 := Nat.ofDigitChars_ten_toDigits.symm
      _ = Nat.ofDigitChars 10 (digits m) 0 := by rw [h]
      _ = m := Nat.ofDigitChars_ten_toDigits
  ne_nil _ := Nat.toDigits_ne_nil
  mem _ _ hc := Nat.isDigit_of_mem_toDigits (by decide) (by decide) hc

theorem digits_ne_cons {c : Char} (hc : ¬c.isDigit) (n : Nat) (cs : List Char) :
    digits n ≠ c :: cs := by
  intro h
  exact hc (spelling_digits.mem n c (by rw [h]; exact List.mem_cons_self))

/-- The characters of a distance. -/
def isSignedChar (c : Char) : Bool := c.isDigit || c == '-'

/-- A distance is written in digits, behind a minus sign if it is negative. -/
theorem spelling_signedDigits : Spelling isSignedChar signedDigits where
  injective := by
    -- a minus sign is no digit
    rintro (n | n) (m | m) h
    · rw [spelling_digits.injective h]
    · exact absurd h (digits_ne_cons (by decide) n _)
    · exact absurd h.symm (digits_ne_cons (by decide) m _)
    · -- behind the minus sign stands one more than what is stored
      rw [Nat.succ.inj (spelling_digits.injective (List.cons.inj h).2)]
  ne_nil z := by
    cases z with
    | ofNat n => exact spelling_digits.ne_nil n
    | negSucc n => exact List.cons_ne_nil _ _
  mem z c hc := by
    have hdigit : ∀ n, c ∈ digits n → isSignedChar c := by
      intro n hn
      simp [isSignedChar, spelling_digits.mem n c hn]
    cases z with
    | ofNat n => exact hdigit n hc
    | negSucc n =>
      rcases List.mem_cons.1 hc with rfl | hc
      · rfl
      · exact hdigit _ hc

/-! ### Slices and subscriptions -/

/-- The characters of a slice. -/
def isSliceChar (c : Char) : Bool := c.isDigit || c == ':'

/-- A slice is written as its start, its stop and its step, with colons between them. -/
theorem spelling_slice : Spelling isSliceChar Slice.chars where
  injective := by
    rintro ⟨start, step, stop⟩ ⟨start', step', stop'⟩ h
    have hcolon : ∀ (rest : List Char), ∀ c ∈ (':' :: rest).head?, ¬c.isDigit :=
      head?_of_cons (by decide)
    have hchars : digits start ++ ':' :: (digits stop ++ ':' :: digits step)
        = digits start' ++ ':' :: (digits stop' ++ ':' :: digits step') := by
      simpa [Slice.chars] using h
    -- the first number ends at the first colon, the second at the second
    obtain ⟨hstart, hlater⟩ := append_inj_of_runs (spelling_digits.mem _) (spelling_digits.mem _)
      (hcolon _) (hcolon _) hchars
    obtain ⟨hstop, hlast⟩ := append_inj_of_runs (spelling_digits.mem _) (spelling_digits.mem _)
      (hcolon _) (hcolon _) (List.cons.inj hlater).2
    rw [spelling_digits.injective hstart, spelling_digits.injective hstop,
      spelling_digits.injective (List.cons.inj hlast).2]
  ne_nil s := by simp [Slice.chars]
  mem s c hc := by
    have hdigit : ∀ n, c ∈ digits n → isSliceChar c := by
      intro n hn
      simp [isSliceChar, spelling_digits.mem n c hn]
    simp only [Slice.chars, List.mem_append, List.mem_cons] at hc
    rcases hc with (hc | rfl | hc) | rfl | hc
    · exact hdigit _ hc
    · rfl
    · exact hdigit _ hc
    · rfl
    · exact hdigit _ hc

end Strided
