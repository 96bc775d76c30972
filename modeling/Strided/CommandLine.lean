import Strided.CommandLine.Options
import Strided.Diagonal.Window
import Strided.Fixtures
import Strided.Random.ChaCha

/-!
# The command line

Two commands show the library at work: `views` prints random view fixtures, and
`diagonal` the window of a diagonal in a row-major matrix. `CommandLine.run` maps
arguments to an exit code and what is printed; only the seed for a run that names none
comes from outside.
-/

namespace Strided.CommandLine

/-- What to generate fixtures for. -/
structure ViewsRequest where
  maxNdim : Nat
  maxDim : Nat
  minNdim : Nat
  samples : Nat
  seed : Option UInt64

/-- **A command.** -/
inductive Command where
  | views (request : ViewsRequest)
  | diagonal (rows cols : Nat) (k : Int)

/-- **What a run leaves.** -/
structure Outcome where
  exit : Nat
  stdout : String
  stderr : String
  deriving DecidableEq

/-! ### Reading arguments -/

/-- The options of `views`. -/
def viewsOptions : List OptionSpec :=
  [.size "max-ndim" none, .size "max-dim" none, .size "min-ndim" none,
    .size "samples" (some 's'), .size "seed" none]

/-- The options of `diagonal`. -/
def diagonalOptions : List OptionSpec :=
  [.size "rows" (some 'r'), .size "cols" (some 'c'), .signed "offset" (some 'k')]

/-- The arguments of `views`. -/
def readViews (args : List String) : Except Refusal Command := do
  let values ← readOptions viewsOptions args
  let size (name : String) (default : Nat) := valueOf values name readSize? (some default)
  let seed ← valueOf values "seed" (fun s => (readSize? s).map some) (some none)
  return .views ⟨← size "max-ndim" 3, ← size "max-dim" 10, ← size "min-ndim" 1,
    ← size "samples" 3, seed.map UInt64.ofNat⟩

/-- The arguments of `diagonal`. -/
def readDiagonal (args : List String) : Except Refusal Command := do
  let values ← readOptions diagonalOptions args
  let rows ← valueOf values "rows" readSize? none
  let cols ← valueOf values "cols" readSize? none
  return .diagonal rows cols (← valueOf values "offset" readSigned? (some 0))

/-- What an argument in place of a command asks for. -/
def topLevel (arg : String) : Refusal :=
  match ArgForm.of arg with
  | .long "version" none => .version
  | .long "help" none => .help
  | .short 'V' _ => .version
  | .short 'h' _ => .help
  | _ => .usage

/-- What `help` answers: it explains the whole program or one of the words it begins with. -/
def explain : List String → Refusal
  | [] => .help
  | [topic] => if ["views", "diagonal", "help"].contains topic then .help else .usage
  | _ => .usage

/-- **The command that arguments name.** -/
def read : List String → Except Refusal Command
  | [] => .error .usage
  | "help" :: topics => .error (explain topics)
  | "views" :: args => readViews args
  | "diagonal" :: args => readDiagonal args
  | arg :: _ => .error (topLevel arg)

/-! ### Running commands -/

/-- A run that prints its answer. -/
def succeed (stdout : String) : Outcome := ⟨0, stdout, ""⟩

/-- A run that ends with a message. -/
def complain (message : String) : Outcome := ⟨1, "", "Error: " ++ message ++ "\n"⟩

/-- A run that a fault has ended. -/
def abort : Outcome := ⟨101, "", ""⟩

/-- The window of the `k`-th diagonal of a row-major matrix. -/
def diagonalWindow (rows cols : Nat) (k : Int) : Answer Diagonal.Window := do
  let shape : Shape := ⟨[rows, cols]⟩
  Diagonal.window shape (← Strides.rowMajor shape) k

/-- The line that shows a window. -/
def windowLine (w : Diagonal.Window) : String :=
  "start=" ++ signedText w.start ++ " len=" ++ sizeText w.length ++ " stride="
    ++ signedText w.stride ++ "\n"

/-- What is left of locating a diagonal. -/
def windowOutcome : Answer Diagonal.Window → Outcome
  | .ok w => succeed (windowLine w)
  | .error (.rejected e) => complain e.message
  | .error (.fault _) => abort

/-- The lines of the fixtures of a seed. -/
def viewLines (r : ViewsRequest) (seed : UInt64) : Checked String := do
  let (fixtures, _) ← generateViews (RangeSource.ofWords ChaCha.source) r.maxNdim r.maxDim
    r.minNdim r.samples (ChaCha.stream seed)
  return String.join (fixtures.map fun f => f.text ++ "\n")

/-- **The outcome of a command.** `entropy` is the seed of a command that has none. -/
def Command.run (entropy : UInt64) : Command → Outcome
  | views r =>
    if r.maxNdim < r.minNdim then
      complain ("--min-ndim " ++ sizeText r.minNdim ++ " exceeds --max-ndim "
        ++ sizeText r.maxNdim)
    else
      match viewLines r (r.seed.getD entropy) with
      | .ok lines => succeed lines
      | .error _ => abort
  | diagonal rows cols k => windowOutcome (diagonalWindow rows cols k)

/-- The line that shows the version. -/
def versionLine : String := "numshim 0.1.0\n"

/-- The lines that show how to call the program. -/
def usageLines : String :=
  "Strided view and diagonal inspection\n\n"
    ++ "Usage: numshim views [--max-ndim N] [--max-dim N] [--min-ndim N] [-s N] [--seed N]\n"
    ++ "       numshim diagonal -r ROWS -c COLS [-k OFFSET]\n"

/-- **The outcome of a run** with given arguments. -/
def run (entropy : UInt64) (args : List String) : Outcome :=
  match read args with
  | .ok command => command.run entropy
  | .error .version => succeed versionLine
  | .error .help => succeed usageLines
  | .error .usage => ⟨2, "", usageLines⟩

end Strided.CommandLine
