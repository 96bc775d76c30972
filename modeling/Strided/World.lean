import Strided.NDArray

/-!
# Steps of a computation

Operations that make a buffer, write elements or call a bridge are an `Action`: they map
one `World` to the next and end in a result or a `Failure`. A failure does not undo what
was done before it.

A world holds the storages and the calls that bridges have received. A bridge is a black
box behind a fixed set of requests (`Request`); it can write to storages but takes no part
in the rest of the world.
-/

namespace Strided

/-- **What a bridge can be asked for.** The arrays it is to fill are made by the caller;
`dst`, `factors` and `pivots` are such arrays. -/
inductive Request where
  /-- Takes note of an operand of a computation to come. -/
  | handleArray (array : NDArray)
  /-- Writes the product of the matrices `lhs` and `rhs` to `dst`. -/
  | matmul (lhs rhs dst : NDArray)
  /-- Factorizes `factors` in place and writes the row permutation to `pivots`. -/
  | lu (factors pivots : NDArray)
  /-- Writes the transform of `src` along its last axis to `dst`. -/
  | fft (src dst : NDArray)
  /-- Writes the transform of `src` over both axes to `dst`. -/
  | fft2 (src dst : NDArray)
  deriving DecidableEq

namespace Request

/-- The name of the request. -/
def name : Request → String
  | handleArray .. => "handle_array"
  | matmul .. => "matmul"
  | lu .. => "lu"
  | fft .. => "fft"
  | fft2 .. => "fft2"

/-- The arrays that are passed. -/
def arrays : Request → List NDArray
  | handleArray a => [a]
  | matmul lhs rhs dst => [lhs, rhs, dst]
  | lu factors pivots => [factors, pivots]
  | fft src dst => [src, dst]
  | fft2 src dst => [src, dst]

/-- The passed arrays that are there to be filled. -/
def destinations : Request → List NDArray
  | handleArray _ => []
  | matmul _ _ dst => [dst]
  | lu factors pivots => [factors, pivots]
  | fft _ dst => [dst]
  | fft2 _ dst => [dst]

/-- The name of the request and, for every array, its element type, shape and device. -/
def text (r : Request) : String :=
  r.arrays.foldl
    (fun t a => t ++ " " ++ a.dt.name ++ a.shape.compact ++ "@" ++ a.device.text) r.name

end Request

/-- **A call a bridge has received**, with the storages as they were then. -/
structure Call where
  bridge : Handle
  request : Request
  found : Store

/-- **The state of a computation.** Calls are listed from the first on. -/
structure World where
  store : Store
  calls : List Call

instance : Inhabited World := ⟨⟨.empty, []⟩⟩

/-- How a bridge answers. -/
inductive Response where
  | done
  | error (cause : BridgeError)
  | fault (kind : Fault)
  deriving DecidableEq

/-- **The behaviour of a bridge.** It sees the world with the call it is to answer already
listed, and leaves other storages. -/
abbrev Bridge := Request → World → Response × Store

/-- The behaviour of all bridges. -/
abbrev Bridges := Handle → Bridge

/-- **A step of a computation.** -/
def Action (α : Type) := World → Answer α × World

namespace Action

variable {α β : Type}

/-- The step that only gives a result. -/
def pure (a : α) : Action α := fun w => (.ok a, w)

/-- One step after another, if the first one gives a result. -/
def bind (x : Action α) (f : α → Action β) : Action β := fun w =>
  match x w with
  | (.ok a, w) => f a w
  | (.error e, w) => (.error e, w)

instance : Monad Action where
  pure := Action.pure
  bind := Action.bind

theorem bind_assoc {γ : Type} (x : Action α) (f : α → Action β) (g : β → Action γ) :
    bind (bind x f) g = bind x fun a => bind (f a) g := by
  funext w
  unfold bind
  rcases x w with ⟨r, w'⟩
  cases r <;> rfl

theorem bind_pure (x : Action α) : bind x pure = x := by
  funext w
  unfold bind
  rcases x w with ⟨r, w'⟩
  cases r <;> rfl

instance : LawfulMonad Action where
  map_const := rfl
  id_map x := bind_pure x
  seqLeft_eq x y := by
    funext w
    change bind x (fun a => bind y fun _ => pure a) w
      = bind (bind x fun a => pure (Function.const _ a)) (fun f => bind y fun b => pure (f b)) w
    rw [bind_assoc]
    rfl
  seqRight_eq x y := by
    funext w
    change bind x (fun _ => y) w
      = bind (bind x fun a => pure (Function.const _ id a)) (fun f => bind y fun b => pure (f b)) w
    rw [bind_assoc]
    change bind x (fun _ => y) w = bind x (fun _ => bind y pure) w
    rw [bind_pure]
  pure_seq f x := rfl
  bind_pure_comp f x := rfl
  bind_map f x := rfl
  pure_bind a f := rfl
  bind_assoc x f g := bind_assoc x f g

/-- An answer that changes nothing. -/
def ofAnswer (x : Answer α) : Action α := fun w => (x, w)

instance : MonadLift (Except Failure) Action := ⟨Action.ofAnswer⟩

/-- What can be read from the storages. -/
def read (f : Store → Answer α) : Action α := fun w => (f w.store, w)

/-- **A new storage.** -/
def allocate (b : Buffer) : Action StorageId := fun w =>
  (.ok w.store.nextId, { w with store := w.store.push b })

/-- **Writes along the view of an array.** Items beyond the end of the view are ignored.
Nothing is written if the storage holds elements of another type. -/
def write (a : NDArray) (dt : DType) (items : List dt.Elem) : Action Unit := fun w =>
  match (w.store.buffer? a.storage).bind (·.cellsAs dt) with
  | none => (.error (.fault .strayStorage), w)
  | some cells =>
    let (cells, fault) := a.view.offsets.scatter items cells
    let w := { w with store := w.store.replace a.storage ⟨dt, cells⟩ }
    match fault with
    | none => (.ok (), w)
    | some f => (.error (.fault f), w)

/-- **A call to a bridge.** It is listed before it is answered, whatever the answer. -/
def call (bridges : Bridges) (h : Handle) (r : Request) : Action Unit := fun w =>
  let w := { w with calls := w.calls ++ [⟨h, r, w.store⟩] }
  match bridges h r w with
  | (.done, s) => (.ok (), { w with store := s })
  | (.error e, s) => (.error (.rejected (.bridge e)), { w with store := s })
  | (.fault f, s) => (.error (.fault f), { w with store := s })

end Action

end Strided
