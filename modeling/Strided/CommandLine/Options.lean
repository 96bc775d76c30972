import Strided.Checked

/-!
# Options with values

The arguments of a command are options, each with one value: `--name value`,
`--name=value`, `-n value`, `-nvalue` or `-n=value`. No option may be given twice, nothing
may stand beside options, and a value in an argument of its own must not look like an
option, unless the option is known to take such values.

Arguments are judged from the first to the last, each with its value: what is wrong before
a request for help is refused, what follows one is not looked at.
-/

namespace Strided.CommandLine

/-! ### Numbers -/

/-- The value of decimal digits, of which there is at least one. -/
def digitsValue? (cs : List Char) : Option Nat :=
  if cs.isEmpty || !cs.all Char.isDigit then none
  else some (cs.foldl (fun n c => 10 * n + (c.toNat - '0'.toNat)) 0)

/-- A size, perhaps behind a plus sign. -/
def readSize? (s : String) : Option Nat := do
  let n ← match s.toList with
    | '+' :: cs => digitsValue? cs
    | cs => digitsValue? cs
  if n < sizeBound then some n else none

/-- A distance, perhaps behind a sign. -/
def readSigned? (s : String) : Option Int := do
  let z ← match s.toList with
    | '+' :: cs => (digitsValue? cs).map Int.ofNat
    | '-' :: cs => (digitsValue? cs).map fun n => -(n : Int)
    | cs => (digitsValue? cs).map Int.ofNat
  if -(signedBound : Int) ≤ z ∧ z < (signedBound : Int) then some z else none

/-! ### Options -/

/-- **An option**: its long name, perhaps a letter, whether the argument after it is its
value even behind a hyphen, and which texts are values. -/
structure OptionSpec where
  long : String
  short : Option Char
  hyphenValues : Bool
  accepts : String → Bool

/-- An option whose values are sizes. -/
def OptionSpec.size (long : String) (short : Option Char) : OptionSpec :=
  ⟨long, short, false, fun text => (readSize? text).isSome⟩

/-- An option whose values are distances. -/
def OptionSpec.signed (long : String) (short : Option Char) : OptionSpec :=
  ⟨long, short, true, fun text => (readSigned? text).isSome⟩

/-- **Why arguments are not taken as a command.** -/
inductive Refusal where
  /-- The arguments ask for help. -/
  | help
  /-- The arguments ask for the version. -/
  | version
  /-- The arguments make no sense. -/
  | usage
  deriving DecidableEq

/-- What an argument is by its first characters. -/
inductive ArgForm where
  /-- `--` alone. -/
  | separator
  /-- `--name` or `--name=value`. -/
  | long (name : String) (value : Option String)
  /-- `-c` with what follows the letter. -/
  | short (letter : Char) (rest : List Char)
  /-- Anything else. -/
  | plain

/-- What follows a long option's name. -/
def afterEquals : List Char → Option String
  | '=' :: value => some (String.ofList value)
  | _ => none

/-- The form of an argument. -/
def ArgForm.of (arg : String) : ArgForm :=
  match arg.toList with
  | ['-', '-'] => separator
  | '-' :: '-' :: cs =>
    long (String.ofList (cs.takeWhile (· ≠ '='))) (afterEquals (cs.dropWhile (· ≠ '=')))
  | '-' :: c :: cs => short c cs
  | _ => plain

/-- Whether an argument by itself can be the value of the option before it. -/
def OptionSpec.takes (o : OptionSpec) (arg : String) : Bool :=
  o.hyphenValues || match ArgForm.of arg with
    | .plain => true
    | _ => false

/-- The value behind an option letter in the same argument. -/
def attachedValue? : List Char → Option String
  | [] => none
  | '=' :: value => some (String.ofList value)
  | value => some (String.ofList value)

/-- The option that an argument names, with its value if that is in the same argument. -/
def optionOf (specs : List OptionSpec) (arg : String) :
    Except Refusal (OptionSpec × Option String) :=
  match ArgForm.of arg with
  | .long name value =>
    match specs.find? (·.long == name) with
    | some o => .ok (o, value)
    | none => .error (if name == "help" && value.isNone then .help else .usage)
  | .short c rest =>
    match specs.find? (·.short == some c) with
    | some o => .ok (o, attachedValue? rest)
    | none => .error (if c == 'h' then .help else .usage)
  | .separator => .error .usage
  | .plain => .error .usage

/-- A value for an option, by the option's long name. The options in `given` have theirs. -/
def OptionSpec.admit (o : OptionSpec) (given : List String) (value : String) :
    Except Refusal (String × String) :=
  if given.contains o.long || !o.accepts value then .error .usage else .ok (o.long, value)

/-- The values of the options that `given` does not name, by long names and in order. -/
def readValues (specs : List OptionSpec) :
    List String → List String → Except Refusal (List (String × String))
  | _, [] => .ok []
  | _, ["--"] => .ok []
  | given, [arg] => do
    match ← optionOf specs arg with
    | (o, some value) => return [← o.admit given value]
    | (_, none) => throw .usage
  | given, arg :: next :: rest => do
    match ← optionOf specs arg with
    | (o, some value) =>
      let entry ← o.admit given value
      return entry :: (← readValues specs (o.long :: given) (next :: rest))
    | (o, none) =>
      unless o.takes next do throw .usage
      let entry ← o.admit given next
      return entry :: (← readValues specs (o.long :: given) rest)

/-- **The values of options**, none of which is given twice. -/
def readOptions (specs : List OptionSpec) (args : List String) :
    Except Refusal (List (String × String)) := readValues specs [] args

/-- The value of an option that has one, or else its default, which some options lack. -/
def valueOf {α : Type} (values : List (String × String)) (name : String)
    (read? : String → Option α) (default : Option α) : Except Refusal α :=
  match values.lookup name with
  | none =>
    match default with
    | some a => .ok a
    | none => .error .usage
  | some text =>
    match read? text with
    | some a => .ok a
    | none => .error .usage

end Strided.CommandLine
