import Strided.CommandLine
import Strided.Proofs.Text
import Strided.Proofs.View.WordDiagonals

/-!
# What the diagonal command prints

Sizes and distances stand in the arguments of a command as they are shown, and reading them gives
them back (`read_diagonalArgs`), so that there is a run for every matrix and every diagonal. What
such a run prints can be read as well: no two windows are shown by the same line
(`windowLine_injective`). So it makes sense to ask whether the window that is printed is right.

A run ends without a line where a result is no signed word. It can also come to a line without that
although a size or a distance has been read as another number. The window then has the right length,
but not the right places, unless it is one cell of the first row (`diagonal_command`).
-/

namespace Strided.CommandLine

open Diagonal

variable {rows cols : Nat} {k : Int}

/-! ### Numbers as arguments -/

theorem digitsValue?_digits (n : Nat) : digitsValue? (digits n) = some n := by
  have hdigits : (digits n).all Char.isDigit = true := List.all_eq_true.2 (spelling_digits.mem n)
  have hsome : (digits n).isEmpty = false := by simpa using spelling_digits.ne_nil n
  rw [digitsValue?, hdigits, hsome, if_neg (by decide), ← Nat.ofDigitChars_eq_foldl]
  exact congrArg some Nat.ofDigitChars_ten_toDigits

/-- **A size is read as it is shown.** It begins with a digit, so no sign is taken off. -/
theorem readSize?_sizeText {n : Nat} (h : n < sizeBound) : readSize? (sizeText n) = some n := by
  rw [readSize?, sizeText, String.toList_ofList]
  split
  · exact absurd ‹digits n = _› (digits_ne_cons (by decide) n _)
  · simp [digitsValue?_digits, h]

/-- **A distance is read as it is shown**, whatever its sign. -/
theorem readSigned?_signedText (h : SignedWord k) : readSigned? (signedText k) = some k := by
  rw [readSigned?, signedText, String.toList_ofList]
  cases k with
  | ofNat n =>
    rw [signedDigits]
    split
    · exact absurd ‹digits n = _› (digits_ne_cons (by decide) n _)
    · exact absurd ‹digits n = _› (digits_ne_cons (by decide) n _)
    · rw [digitsValue?_digits, Option.map_some, Option.bind_eq_bind, Option.bind_some]
      exact if_pos h
  | negSucc n =>
    have hneg : -((n + 1 : Nat) : Int) = Int.negSucc n := rfl
    -- behind a minus sign stand the digits of the magnitude
    have hvalue : (do return ((← digitsValue? (digits (n + 1)) : Nat) : Int))
        = some ((n + 1 : Nat) : Int) := by
      rw [digitsValue?_digits]
      rfl
    rw [signedDigits]
    split
    · rename_i cs hplus
      exact absurd (List.cons.inj hplus).1 (by decide)
    · rename_i cs hminus
      obtain ⟨-, rfl⟩ := List.cons.inj hminus
      rw [hvalue, Option.map_some, hneg, Option.bind_eq_bind, Option.bind_some]
      exact if_pos h
    · rename_i hplain
      exact absurd rfl (hplain _)

/-- A size does not look like an option. -/
theorem ArgForm.of_sizeText (n : Nat) : ArgForm.of (sizeText n) = .plain := by
  rw [ArgForm.of, sizeText, String.toList_ofList]
  split
  · exact absurd ‹digits n = _› (digits_ne_cons (by decide) n _)
  · exact absurd ‹digits n = _› (digits_ne_cons (by decide) n _)
  · exact absurd ‹digits n = _› (digits_ne_cons (by decide) n _)
  · rfl

/-! ### Options before their values -/

/-- An option, and its value in the argument after it. -/
theorem readValues_cons {specs : List OptionSpec} {given rest : List String} {arg value : String}
    {o : OptionSpec} (hoption : optionOf specs arg = .ok (o, none)) (htakes : o.takes value)
    (haccepts : o.accepts value) (hnew : o.long ∉ given) :
    readValues specs given (arg :: value :: rest) = do
      return (o.long, value) :: (← readValues specs (o.long :: given) rest) := by
  -- the value is accepted, and the option has not been given before
  have hadmit : o.admit given value = .ok (o.long, value) := by
    simp [haccepts, OptionSpec.admit, hnew]
  rw [readValues, hoption]
  simp [htakes, hadmit]

/-- The arguments that ask for a diagonal. -/
def diagonalArgs (rows cols : Nat) (k : Int) : List String :=
  ["diagonal", "--rows", sizeText rows, "--cols", sizeText cols, "--offset", signedText k]

/-- **Every diagonal of every matrix can be asked for.** -/
theorem read_diagonalArgs (hrows : rows < sizeBound) (hcols : cols < sizeBound)
    (hk : SignedWord k) : read (diagonalArgs rows cols k) = .ok (.diagonal rows cols k) := by
  have htakes : ∀ (long : String) (short : Char) (n : Nat),
      (OptionSpec.size long (some short)).takes (sizeText n) := by
    intro long short n
    rw [OptionSpec.takes, ArgForm.of_sizeText]
    rfl
  have haccepts : ∀ (long : String) (short : Char) (n : Nat), n < sizeBound →
      (OptionSpec.size long (some short)).accepts (sizeText n) := by
    intro long short n hn
    show (readSize? (sizeText n)).isSome
    rw [readSize?_sizeText hn]
    rfl
  have hsigned : (OptionSpec.signed "offset" (some 'k')).accepts (signedText k) := by
    show (readSigned? (signedText k)).isSome
    rw [readSigned?_signedText hk]
    rfl
  -- the three options are read one after the other, each with the text behind it
  have hvalues : readOptions diagonalOptions ["--rows", sizeText rows, "--cols", sizeText cols,
      "--offset", signedText k]
        = .ok [("rows", sizeText rows), ("cols", sizeText cols), ("offset", signedText k)] := by
    rw [readOptions, readValues_cons rfl (htakes "rows" 'r' rows) (haccepts "rows" 'r' rows hrows)
        (by decide),
      readValues_cons rfl (htakes "cols" 'c' cols) (haccepts "cols" 'c' cols hcols) (by decide),
      readValues_cons rfl rfl hsigned (by decide), readValues]
    rfl
  show readDiagonal _ = _
  rw [readDiagonal, hvalues, Checked.ok_bind]
  simp [valueOf, List.lookup_cons, readSize?_sizeText hrows, readSize?_sizeText hcols,
    readSigned?_signedText hk]

/-! ### The line of a window -/

/-- **A line shows one window only.** Its numbers end at a blank or with the line. -/
theorem windowLine_injective : Function.Injective windowLine := by
  intro v w h
  have hchars := congrArg String.toList h
  simp only [windowLine, signedText, sizeText, String.toList_append, String.toList_ofList,
    List.append_assoc] at hchars
  have hlen : ∀ rest, ∀ c ∈ (" len=".toList ++ rest).head?, ¬isSignedChar c :=
    fun rest => head?_of_cons (by decide) _
  have hstride : ∀ rest, ∀ c ∈ (" stride=".toList ++ rest).head?, ¬c.isDigit :=
    fun rest => head?_of_cons (by decide) _
  -- the start ends at a blank, and so does the length; the stride is the rest of the line
  obtain ⟨hstart, hlater⟩ := append_inj_of_runs (spelling_signedDigits.mem _)
    (spelling_signedDigits.mem _) (hlen _) (hlen _) (List.append_cancel_left hchars)
  obtain ⟨hlength, hlast⟩ := append_inj_of_runs (spelling_digits.mem _) (spelling_digits.mem _)
    (hstride _) (hstride _) (List.append_cancel_left hlater)
  have hsteps := List.append_cancel_right (List.append_cancel_left hlast)
  obtain ⟨start, length, stride⟩ := v
  obtain rfl : start = w.start := spelling_signedDigits.injective hstart
  obtain rfl : length = w.length := spelling_digits.injective hlength
  obtain rfl : stride = w.stride := spelling_signedDigits.injective hsteps
  rfl

/-! ### The command -/

/-- The window of the command is that of a row-major matrix. -/
theorem diagonalWindow_eq (rows cols : Nat) (k : Int) : diagonalWindow rows cols k
    = (Strides.rowMajor ⟨[rows, cols]⟩).lift >>= fun strides => window ⟨[rows, cols]⟩ strides k :=
  rfl

/-- What is represented is computed in signed words, and that window is printed. -/
theorem diagonalWindow_of_representable (hk : SignedWord k) (h : Representable rows cols k) :
    diagonalWindow rows cols k = .ok (wordWindow rows cols k) := by
  -- the strides of the matrix are signed words
  have hlayout : Strides.rowMajor ⟨[rows, cols]⟩ = .ok ⟨[toSigned cols, 1]⟩ := by
    rw [rowMajor_matrix, h.block.check_eq, Checked.ok_bind, Checked.pure_eq]
  rw [diagonalWindow_eq, hlayout, Checked.lift_ok, Checked.ok_bind, window_matrix hk h.stride,
    wordWindow]
  by_cases hzero : lengthOf rows cols k = 0
  · rw [if_pos hzero, if_pos hzero, hzero]
    rfl
  · rw [if_neg hzero, if_neg hzero, (h.start hzero).check_eq]
    rfl

/-- What is not represented overflows. Nothing is refused. -/
theorem diagonalWindow_of_not_representable (hk : SignedWord k)
    (h : ¬Representable rows cols k) :
    diagonalWindow rows cols k = .error (.fault .overflow) := by
  rw [diagonalWindow_eq, rowMajor_matrix]
  by_cases hblock : SignedWord (toSigned cols * toSigned rows)
  swap
  · rw [checkSigned_of_not hblock, Checked.error_bind, Checked.lift_error, Checked.error_bind]
  rw [hblock.check_eq, Checked.ok_bind, Checked.pure_eq, Checked.lift_ok, Checked.ok_bind]
  by_cases hstride : SignedWord (toSigned cols + 1)
  swap
  · exact window_of_not_stride hstride
  · rw [window_matrix hk hstride]
    -- what is left is the way to the first cell
    have hstart : ¬(lengthOf rows cols k ≠ 0 → SignedWord (wordStart cols k)) :=
      fun hstart => h ⟨hblock, hstride, hstart⟩
    obtain ⟨hlen, hword⟩ := Classical.not_imp.1 hstart
    rw [if_neg hlen, checkSigned_of_not hword]
    rfl

/-- The command comes to its window, however its arguments were put. -/
theorem run_diagonal {args : List String} (hread : read args = .ok (.diagonal rows cols k))
    (entropy : UInt64) : run entropy args = windowOutcome (diagonalWindow rows cols k) := by
  simp only [run, hread, Command.run]

theorem run_of_representable {args : List String}
    (hread : read args = .ok (.diagonal rows cols k)) (hk : SignedWord k)
    (h : Representable rows cols k) (entropy : UInt64) :
    run entropy args = succeed (windowLine (wordWindow rows cols k)) := by
  rw [run_diagonal hread, diagonalWindow_of_representable hk h, windowOutcome]

theorem run_of_not_representable {args : List String}
    (hread : read args = .ok (.diagonal rows cols k)) (hk : SignedWord k)
    (h : ¬Representable rows cols k) (entropy : UInt64) : run entropy args = abort := by
  rw [run_diagonal hread, diagonalWindow_of_not_representable hk h, windowOutcome]

/-- **What the diagonal command prints**, of any matrix and any diagonal that arguments can name. It
aborts if a result on the way is no signed word, and prints a window if not. A window that is
printed is as long as the diagonal, but its places are those of the cells only if there are none, or
one of the first row, or if the columns are fewer than `2 ^ 63` and `k` is not `-2 ^ 63`. As long as
the cells of the matrix and its columns with one more are fewer, the right window is printed. -/
theorem diagonal_command (hrows : rows < sizeBound) (hcols : cols < sizeBound)
    (hk : SignedWord k) :
    read (diagonalArgs rows cols k) = .ok (.diagonal rows cols k) ∧
    ∀ (args : List String) (entropy : UInt64), read args = .ok (.diagonal rows cols k) →
      (¬Representable rows cols k → run entropy args = abort) ∧
      (Representable rows cols k → ∃ w, run entropy args = succeed (windowLine w)) ∧
      (∀ w, run entropy args = succeed (windowLine w) →
        w.length = (cells rows cols k).length ∧
        (w.Locates rows cols k ↔ (cells rows cols k).length = 0 ∨
          (0 ≤ k ∧ (cells rows cols k).length = 1) ∨
          (cols < signedBound ∧ k ≠ -signedBound))) ∧
      (rows * cols < signedBound → cols + 1 < signedBound →
        ∃ w, run entropy args = succeed (windowLine w) ∧ w.Locates rows cols k) := by
  refine ⟨read_diagonalArgs hrows hcols hk, fun args entropy hread => ?_⟩
  refine ⟨fun h => run_of_not_representable hread hk h entropy,
    fun h => ⟨_, run_of_representable hread hk h entropy⟩, fun w hw => ?_, fun hblock hcol => ?_⟩
  · by_cases h : Representable rows cols k
    · -- no other window is shown by the same line
      rw [run_of_representable hread hk h] at hw
      obtain rfl := windowLine_injective (congrArg Outcome.stdout hw)
      rw [length_cells]
      exact ⟨rfl, locates_wordWindow_iff hk h⟩
    · -- a run that aborts has printed nothing
      rw [run_of_not_representable hread hk h] at hw
      exact absurd (congrArg Outcome.exit hw) (show (101 : Nat) ≠ 0 by decide)
  · have h := representable_of_small hblock hcol k
    exact ⟨_, run_of_representable hread hk h entropy, locates_of_small hblock hcol hk⟩

/-- The diagonal above the main one, of two rows of three cells each. -/
theorem diagonal_command_above :
    2 < sizeBound ∧ 3 < sizeBound ∧ SignedWord 1 ∧
      ∃ w, run 0 ["diagonal", "--rows", "2", "--cols", "3", "--offset", "1"]
        = succeed (windowLine w) ∧ w.Locates 2 3 1 := by
  have hrows : 2 < sizeBound := by decide
  have hcols : 3 < sizeBound := by decide
  have hk : SignedWord 1 := by decide
  obtain ⟨hread, hrun⟩ := diagonal_command hrows hcols hk
  exact ⟨hrows, hcols, hk, (hrun _ 0 hread).2.2.2 (by decide) (by decide)⟩

/-- **The main diagonal of two rows of `2 ^ 64 - 1` cells** is said to be one cell twice. -/
theorem wide_diagonal_misplaced :
    2 < sizeBound ∧ 18446744073709551615 < sizeBound ∧ SignedWord 0 ∧
      run 0 ["diagonal", "-r", "2", "-c", "18446744073709551615"]
        = succeed "start=0 len=2 stride=0\n" ∧
      ¬(run 0 ["diagonal", "-r", "2", "-c", "18446744073709551615"] = abort ∨
        ∃ w, run 0 ["diagonal", "-r", "2", "-c", "18446744073709551615"]
          = succeed (windowLine w) ∧ w.Locates 2 18446744073709551615 0) := by
  have hrun : run 0 ["diagonal", "-r", "2", "-c", "18446744073709551615"]
      = succeed (windowLine ⟨0, 2, 0⟩) := by decide +kernel
  refine ⟨by decide, by decide, by decide, hrun, ?_⟩
  rw [hrun]
  rintro (h | ⟨w, hw, hlocates⟩)
  · exact absurd (congrArg Outcome.exit h) (by decide)
  · obtain rfl := windowLine_injective (congrArg Outcome.stdout hw)
    -- the second cell lies a row and a column from the first one
    have hcell : (cells 2 18446744073709551615 0)[1]? = some (1, 1) := by
      rw [cells_eq]
      decide
    exact absurd (hlocates.place_eq 1 1 1 hcell) (by decide)

end Strided.CommandLine
