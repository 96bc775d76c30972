import Strided.Product
import Strided.Fourier
import Strided.NDArray.Diagonal
import Strided.Elementwise
import Strided.Closeness

/-!
# Sessions

A session is a run of operations on named arrays. A `Command` says which operation to do
on which names and under which name to keep what it makes; `Session.exec` does it and
gives a `Reply`. A failing command leaves its reply and whatever it had written, and the
session goes on.

What a command makes is kept before its reply is composed: an array whose elements cannot
be read is there all the same.
-/

namespace Strided

/-- The name of an array in a session. -/
abbrev Name := String

/-- The operations that make an array of given elements out of nothing. -/
inductive Filling where
  | zeros
  | ones
  | empty
  deriving DecidableEq

/-- The operation of that name. -/
def Filling.make : Filling → Shape → DType → Device → Action NDArray
  | zeros => NDArray.zeros
  | ones => NDArray.ones
  | empty => NDArray.empty

/-! ### Commands -/

/-- **An operation that gives an array.** -/
inductive Operation where
  | ofArray (data : Buffer) (shape : Shape) (device : Device)
  | filled (filling : Filling) (shape : Shape) (dt : DType) (device : Device)
  | filledLike (filling : Filling) (a : Name) (dt : Option DType) (device : Option Device)
  /-- Any view of the storage of an array, in bounds or not. -/
  | withView (view : View) (a : Name)
  | withDevice (a : Name) (device : Device)
  | clone (a : Name)
  | deepClone (a : Name)
  | flatten (a : Name)
  | reshape (a : Name) (shape : Shape)
  | subview (a : Name) (subscription : Subscription)
  | diagonal (a : Name) (k : Int)
  | diagflat (a : Name) (k : Int)
  | diag (a : Name) (k : Int)
  /-- Out to a dense block and back to a host array, perhaps with the axes reversed. -/
  | throughDense (a : Name) (dt : Option DType) (transposed : Bool)
  | dot (a b : Name)
  | matmul (a b : Name)
  | fft (a : Name)
  | fft2 (a : Name)
  | mapUnary (f : Elementwise.UnaryFunction) (a : Name) (out : Option Name)
  | mapBinary (f : Elementwise.BinaryFunction) (a b : Name) (out : Option Name)

/-- **An operation that gives two arrays.** -/
inductive PairOperation where
  | lu (a : Name)
  | modf (a : Name) (out₁ out₂ : Option Name)

/-- **An operation that writes to an array.** -/
inductive Update where
  | assign (a : Name) (data : Buffer)
  | fill (a : Name) (dt : DType) (x : dt.Elem)
  | copyFrom (a src : Name)

/-- **A question.** -/
inductive Query where
  | read (a : Name) (dt : Option DType)
  | complex (a : Name)
  | info (a : Name)
  | sharesStorage (a b : Name)
  | sameDevice (a b : Name)
  | bridgeName (a : Name)
  | select (devices : List Device)
  | calls (bridge : Handle)
  | allClose (a b : Name) (tolerance : Tolerance)

/-- **A line of a session.** -/
inductive Command where
  | make (operation : Operation) (under : Option Name)
  | makePair (operation : PairOperation) (under₁ under₂ : Option Name)
  | update (update : Update)
  | query (query : Query)

/-! ### Replies -/

/-- How an array is laid out. -/
structure LayoutReport where
  array : NDArray
  contiguous : Bool

/-- An array with its elements, in logical row-major order. -/
structure ArrayReport where
  layout : LayoutReport
  elements : Buffer

/-- All that an array shows of itself. -/
structure InfoReport where
  layout : LayoutReport
  numel : Checked Nat

/-- **What a command answers.** -/
inductive Reply where
  | array (report : ArrayReport)
  | layout (report : LayoutReport)
  /-- An array that went to a receiver, and whether it shares storage with it. -/
  | delivered (report : ArrayReport) (sharesOut : Bool)
  | arrays (first second : ArrayReport)
  | elements (elements : Buffer)
  | complexes (elements : List (Complex Float))
  | info (report : InfoReport)
  | truth (value : Bool)
  | text (value : String)
  | selected (bridge : Option Handle)
  | calls (texts : List String)
  /-- A name that no array has. -/
  | noArray (name : Name)
  | failure (cause : Failure)
  | notClose (cause : NotClose)

/-! ### Running -/

/-- **A session so far**: the world, and the arrays by name. -/
structure Session where
  world : World
  arrays : List (Name × NDArray)

/-- What a session depends on: the bridges, and the transform of lines. -/
structure Setting where
  bridges : Bridges
  lines : Fourier.LineTransform

namespace Session

/-- Before the first command. -/
def start : Session := ⟨default, []⟩

instance : Inhabited Session := ⟨start⟩

/-- A part of a command: it ends in a result or in the reply of the command. -/
abbrev Step (α : Type) := ExceptT Reply (StateM Session) α

/-- The array of a name. -/
def find (name : Name) : Step NDArray := do
  match (← get).arrays.lookup name with
  | some a => return a
  | none => throw (.noArray name)

/-- The array of a name that may be missing from a command. -/
def find? : Option Name → Step (Option NDArray)
  | none => return none
  | some name => return some (← find name)

/-- Keeps an array under a name, in place of the one that had it. -/
def keep (a : NDArray) : Option Name → Step Unit
  | none => return
  | some name => modify fun s =>
    { s with arrays := (name, a) :: s.arrays.filter (·.1 ≠ name) }

/-- A step of the computation. -/
def act {α : Type} (x : Action α) : Step α := do
  let s ← get
  let (r, w) := x s.world
  set { s with world := w }
  match r with
  | .ok a => return a
  | .error e => throw (.failure e)

/-- Something that is read from the storages. -/
def inspect {α : Type} (f : Store → Answer α) : Step α := act (Action.read f)

/-! #### Reports -/

/-- How an array is laid out. -/
def reportLayout (a : NDArray) : Answer LayoutReport := return ⟨a, ← a.isContiguous⟩

/-- An array with its elements. -/
def reportArray (s : Store) (a : NDArray) : Answer ArrayReport := do
  return ⟨← reportLayout a, ⟨a.dt, (← a.toList s a.dt).toArray⟩⟩

/-! #### The four kinds of commands -/

/-- **The array an operation gives**, and the receiver it went to, if it had one. -/
def operate (c : Setting) : Operation → Step (NDArray × Option NDArray)
  | .ofArray data shape device => return (← act (NDArray.ofArray data shape device), none)
  | .filled filling shape dt device => return (← act (filling.make shape dt device), none)
  | .filledLike filling a dt device => do
    let a ← find a
    return (← act (NDArray.like filling.make a dt device), none)
  | .withView view a => return ((← find a).withView view, none)
  | .withDevice a device => return ((← find a).withDevice device, none)
  | .clone a => return (← find a, none)
  | .deepClone a => do return (← act (← find a).deepClone, none)
  | .flatten a => do return (← act (← find a).flatten, none)
  | .reshape a shape => do
    let a ← find a
    return (← act (a.reshape shape), none)
  | .subview a subscription => do
    let a ← find a
    return (← act (a.subview subscription), none)
  | .diagonal a k => do
    let a ← find a
    return (← act (a.diagonal k), none)
  | .diagflat a k => do
    let a ← find a
    return (← act (a.diagflat k), none)
  | .diag a k => do
    let a ← find a
    return (← act (a.diag k), none)
  | .throughDense a dt transposed => do
    let a ← find a
    let dt := dt.getD a.dt
    let d ← inspect fun s => a.toDense s dt
    let d ← if transposed then act d.transpose else pure d
    return (← act (NDArray.ofDense dt d), none)
  | .dot a b => do
    let a ← find a
    let b ← find b
    return (← act (a.dot c.bridges b), none)
  | .matmul a b => do
    let a ← find a
    let b ← find b
    return (← act (a.matmul c.bridges b), none)
  | .fft a => do
    let a ← find a
    return (← act (a.fft c.bridges c.lines), none)
  | .fft2 a => do
    let a ← find a
    return (← act (a.fft2 c.bridges c.lines), none)
  | .mapUnary f a out => do
    let a ← find a
    let out ← find? out
    return (← act (a.mapUnary f out), out)
  | .mapBinary f a b out => do
    let a ← find a
    let b ← find b
    let out ← find? out
    return (← act (a.mapBinary f b out), out)

/-- **The two arrays an operation gives.** -/
def operatePair (c : Setting) : PairOperation → Step (NDArray × NDArray)
  | .lu a => do
    let a ← find a
    act (a.lu c.bridges)
  | .modf a out₁ out₂ => do
    let a ← find a
    let out₁ ← find? out₁
    let out₂ ← find? out₂
    act (a.modf out₁ out₂)

/-- **Writes**, and gives the array that was written to. -/
def runUpdate : Update → Step NDArray
  | .assign a data => do
    let a ← find a
    act (a.assign data.dt data.cells.toList)
    return a
  | .fill a dt x => do
    let a ← find a
    act (a.fill dt x)
    return a
  | .copyFrom a src => do
    let a ← find a
    let src ← find src
    act (a.copyFrom src)
    return a

/-- **The answer to a question.** -/
def answer : Query → Step Reply
  | .read a dt => do
    let a ← find a
    let dt := dt.getD a.dt
    return .elements ⟨dt, (← inspect fun s => a.toList s dt).toArray⟩
  | .complex a => do
    let a ← find a
    return .complexes (← inspect a.toComplex)
  | .info a => do
    let a ← find a
    return .info ⟨← act (reportLayout a), a.numel⟩
  | .sharesStorage a b => return .truth ((← find a).sharesStorage (← find b))
  | .sameDevice a b => return .truth ((← find a).device = (← find b).device)
  | .bridgeName a => do
    let a ← find a
    return .text (← act a.requireBridge).name
  | .select devices => return .selected (Device.selectAccelerated devices)
  | .calls bridge => do
    let calls := (← get).world.calls.filter (·.bridge = bridge)
    return .calls (calls.map (·.request.text))
  | .allClose a b tolerance => do
    let a ← find a
    let b ← find b
    match ← inspect fun s => a.allClose s b tolerance with
    | .ok () => return .truth true
    | .error e => return .notClose e

/-- The reply of a command. -/
def reply (c : Setting) : Command → Step Reply
  | .make operation under => do
    let (a, out) ← operate c operation
    keep a under
    match operation, out with
    | .withView .., _ => return .layout (← act (reportLayout a))
    | _, none => return .array (← inspect fun s => reportArray s a)
    | _, some out => return .delivered (← inspect fun s => reportArray s a) (a.sharesStorage out)
  | .makePair operation under₁ under₂ => do
    let (a, b) ← operatePair c operation
    keep a under₁
    keep b under₂
    let first ← inspect fun s => reportArray s a
    return .arrays first (← inspect fun s => reportArray s b)
  | .update u => do
    let a ← runUpdate u
    return .array (← inspect fun s => reportArray s a)
  | .query q => answer q

/-- **One command.** -/
def exec (c : Setting) (command : Command) (s : Session) : Reply × Session :=
  match (reply c command).run s with
  | (.ok r, s) => (r, s)
  | (.error r, s) => (r, s)

/-- **The commands of a session**, one after the other. -/
def run (c : Setting) : List Command → Session → List Reply × Session
  | [], s => ([], s)
  | command :: commands, s =>
    let (r, s) := exec c command s
    let (rs, s) := run c commands s
    (r :: rs, s)

end Session

end Strided
