import Strided.Proofs.NDArray.Calls
import Strided.Proofs.Session.Provenance

/-!
# What a session asks of bridges

`Strided.Proofs.NDArray.Calls` says what single operations ask of bridges. Here it is said of
sessions: as long as no operation ends in a fault, the calls that bridges have received are those
of the commands, one after the other (`Transcript`), and a command makes the calls of its
operation and no others. `call_discipline` states this for every session over any bridges, whatever
they answer and whatever they do to the store.

Two things are carried along a run. The list of calls only grows at its end, by the calls of each
command (`calls_of_exec`). And the storages of named arrays hold elements of the type of the
array (`AllBacked`), so that what is factorized is a copy. This second one needs bridges that keep
the types and sizes of buffers. Anything that has nothing but arrays at hand does; the rest does
not depend on it.
-/

namespace Strided

open NDArray Session

/-! ### The calls of a command -/

/-- **The operation that is asked for**, on the arrays of its names, if it may go to a bridge. -/
def Operation.heavy? (s : Session) : Operation → Option Heavy
  | .dot a b => do return .dot (← s.arrays.lookup a) (← s.arrays.lookup b)
  | .matmul a b => do return .matmul (← s.arrays.lookup a) (← s.arrays.lookup b)
  | .fft a => do return .fft (← s.arrays.lookup a)
  | .fft2 a => do return .fft2 (← s.arrays.lookup a)
  | _ => none

/-- Of the operations that give two arrays only the factorization may go to a bridge. -/
def PairOperation.heavy? (s : Session) : PairOperation → Option Heavy
  | .lu a => do return .lu (← s.arrays.lookup a)
  | .modf .. => none

/-- The operation of a command. Writes and questions go to no bridge. -/
def Command.heavy? (s : Session) : Command → Option Heavy
  | .make op _ => op.heavy? s
  | .makePair op _ _ => op.heavy? s
  | .update _ => none
  | .query _ => none

/-- **The calls of a command** are those of its operation. -/
def Command.Calls (c : Setting) (s : Session) (command : Command) (added : List Call) : Prop :=
  match command.heavy? s with
  | some heavy => heavy.Calls c.bridges s.world added
  | none => added = []

/-- Whether a step has ended in a fault. -/
def Session.endsInFault {α : Type} : Except Reply α → Bool
  | .error (.failure (.fault _)) => true
  | _ => false

/-- **Whether the operation of a command ends in a fault.** Writes and questions call no bridge, so
it does not matter how they end. -/
def Command.faults (c : Setting) (s : Session) : Command → Bool
  | .make op _ => endsInFault ((operate c op).run s).1
  | .makePair op _ _ => endsInFault ((operatePair c op).run s).1
  | .update _ => false
  | .query _ => false

namespace Session

variable {c : Setting} {s : Session} {w : World} {a : NDArray}

/-! ### Runs -/

/-- **No operation of a run ends in a fault.** -/
def NoFault (c : Setting) : List Command → Session → Prop
  | [], _ => True
  | command :: commands, s => command.faults c s = false ∧ NoFault c commands (exec c command s).2

instance decidableNoFault (c : Setting) :
    (commands : List Command) → (s : Session) → Decidable (NoFault c commands s)
  | [], _ => inferInstanceAs (Decidable True)
  | command :: commands, s =>
    have := decidableNoFault c commands (exec c command s).2
    inferInstanceAs (Decidable (command.faults c s = false ∧ _))

/-- **The calls of a run**, command by command. -/
inductive Transcript (c : Setting) : List Command → Session → List (List Call) → Prop
  | nil {s : Session} : Transcript c [] s []
  | cons {s : Session} {command : Command} {commands : List Command} {added : List Call}
    {rest : List (List Call)}
    (hlisted : (exec c command s).2.world.calls = s.world.calls ++ added)
    (hcalls : command.Calls c s added) (hrest : Transcript c commands (exec c command s).2 rest) :
    Transcript c (command :: commands) s (added :: rest)

/-! ### Named arrays are backed -/

/-- **The storages of all named arrays** hold elements of the right type. -/
def AllBacked (s : Session) : Prop :=
  ∀ n a, s.arrays.lookup n = some a → ∃ cells, a.Backed s.world.store cells

theorem backed_of_buffer {store : Store} {b : Buffer} (hb : store.buffer? a.storage = some b)
    (hdt : b.dt = a.dt) : ∃ cells, a.Backed store cells := by
  obtain ⟨dt, cells⟩ := b
  subst hdt
  exact ⟨cells, hb⟩

/-- A view of a backed array is backed in every store that has grown from its own. -/
theorem backed_of_extends {store : Store} {p : NDArray} {cells : Array p.dt.Elem}
    (hp : p.Backed store cells) {store' : Store} (hs : store.Extends store')
    (hstorage : a.storage = p.storage) (hdt : a.dt = p.dt) : ∃ cells, a.Backed store' cells := by
  obtain ⟨b, hb, hbdt, -⟩ := hs _ _ hp
  exact backed_of_buffer (hstorage ▸ hb) (hbdt.trans hdt.symm)

theorem AllBacked.mono (h : s.AllBacked) (hw : s.world.store.Extends w.store) :
    ({ s with world := w } : Session).AllBacked := by
  intro n a ha
  obtain ⟨cells, hcells⟩ := h n a ha
  exact backed_of_extends hcells hw rfl rfl

theorem AllBacked.kept (h : s.AllBacked) (ha : ∃ cells, a.Backed s.world.store cells)
    (under : Option Name) : (s.kept a under).AllBacked := by
  intro n x hx
  rw [lookup_kept] at hx
  rw [kept_world]
  -- the name asked for is that of the new array, or one that had been there
  by_cases hn : under = some n
  · rw [if_pos hn] at hx
    rwa [← Option.some.inj hx]
  · rw [if_neg hn] at hx
    exact h n x hx

/-- What is born is backed, by its parent's buffer or by a new one. -/
theorem AllBacked.of_born (h : s.AllBacked) {store : Store} (hs : s.world.store.Extends store)
    {parent : Option Name} (ha : Born s store parent a) : ∃ cells, a.Backed store cells := by
  cases parent with
  | none =>
    obtain ⟨b, hb, hdt, -⟩ := Fresh.backed ha
    exact backed_of_buffer hb hdt
  | some n =>
    obtain ⟨p, hp, hstorage, hdt⟩ := ha
    obtain ⟨cells, hcells⟩ := h n p hp
    exact backed_of_extends hcells hs hstorage hdt

/-- **A command leaves named arrays backed**, if bridges keep all buffers. -/
theorem AllBacked.exec (h : s.AllBacked) (hb : c.bridges.Grow) (command : Command) :
    (Session.exec c command s).2.AllBacked := by
  have hstore := extends_of_exec hb (s := s) command
  generalize hs' : (Session.exec c command s).2 = s' at hstore ⊢
  have houtcome := outcome_exec c s command
  rw [hs'] at houtcome
  -- the arrays that are kept are born of named ones or of nothing
  cases houtcome with
  | none hgives => exact h.mono hstore
  | one hgives hready hx =>
    rw [kept_world] at hstore
    exact (h.mono hstore).kept (h.of_born hstore (born_of_operation hb hready hx)) _
  | two hgives hready hx =>
    rw [kept_world, kept_world] at hstore
    obtain ⟨hfirst, hsecond, -⟩ := born_of_pair hb hready hx
    refine ((h.mono hstore).kept (h.of_born hstore hfirst) _).kept ?_ _
    rw [kept_world]
    exact h.of_born hstore hsecond

/-! ### Commands that call no bridge -/

/-- The way through a block makes no call. -/
theorem offline_throughDense (a : NDArray) (dt : DType) (transposed : Bool) :
    (a.throughDense dt transposed).Offline := by
  refine .bind (.read _) fun d => ?_
  cases transposed with
  | false => exact offline_ofDense _ _
  | true => exact .bind (.checked _) fun _ => offline_ofDense _ _

/-- Nor does making an array of one number. -/
theorem offline_make (filling : Filling) (shape : Shape) (dt : DType) (d : Device) :
    (filling.make shape dt d).Offline := by
  cases filling with
  | zeros => exact offline_zeros _ _ _
  | ones => exact offline_ones _ _ _
  | empty => exact offline_zeros _ _ _

/-- **An operation that goes to no bridge makes no call.** -/
theorem offline_of_operation {op : Operation} {x : Action NDArray} {out : Option NDArray}
    (hlight : op.heavy? s = none) (hready : op.action c s = .ok (x, out)) : x.Offline := by
  cases op with
  | ofArray data shape device =>
    obtain ⟨rfl, -⟩ := Prod.mk.inj (Except.ok.inj hready)
    exact offline_ofArray _ _ _
  | filled filling shape dt device =>
    obtain ⟨rfl, -⟩ := Prod.mk.inj (Except.ok.inj hready)
    exact offline_make _ _ _ _
  | filledLike filling n dt device =>
    obtain ⟨p, -, rfl, -⟩ := array_ready_eq_ok.1 hready
    exact offline_make _ _ _ _
  | withView _ n | withDevice n _ | clone n =>
    obtain ⟨p, -, rfl, -⟩ := array_ready_eq_ok.1 hready
    exact .pure _
  | deepClone n =>
    obtain ⟨p, -, rfl, -⟩ := array_ready_eq_ok.1 hready
    exact offline_deepClone p
  | flatten n =>
    obtain ⟨p, -, rfl, -⟩ := array_ready_eq_ok.1 hready
    exact offline_flatten p
  | reshape n _ | subview n _ | diagonal n _ =>
    obtain ⟨p, -, rfl, -⟩ := array_ready_eq_ok.1 hready
    exact .answer _
  | diagflat n k =>
    obtain ⟨p, -, rfl, -⟩ := array_ready_eq_ok.1 hready
    exact offline_diagflat p k
  | diag n k =>
    obtain ⟨p, -, rfl, -⟩ := array_ready_eq_ok.1 hready
    exact offline_diag p k
  | throughDense n dt transposed =>
    obtain ⟨p, -, hready⟩ := array_bind_eq_ok.1 hready
    obtain ⟨rfl, -⟩ := Prod.mk.inj (Except.ok.inj hready)
    exact offline_throughDense p _ _
  | dot n m | matmul n m =>
    obtain ⟨p, hp, hready⟩ := array_bind_eq_ok.1 hready
    obtain ⟨q, hq, -, -⟩ := array_ready_eq_ok.1 hready
    -- these do go to a bridge
    exact absurd hlight (by simp [Operation.heavy?, hp, hq])
  | fft n | fft2 n =>
    obtain ⟨p, hp, -, -⟩ := array_ready_eq_ok.1 hready
    exact absurd hlight (by simp [Operation.heavy?, hp])
  | mapUnary f n out' =>
    obtain ⟨p, -, hready⟩ := array_bind_eq_ok.1 hready
    obtain ⟨o, -, hready⟩ := Checked.bind_eq_ok.1 hready
    obtain ⟨rfl, -⟩ := Prod.mk.inj (Except.ok.inj hready)
    exact offline_mapUnary f p o
  | mapBinary f n m out' =>
    obtain ⟨p, -, hready⟩ := array_bind_eq_ok.1 hready
    obtain ⟨q, -, hready⟩ := array_bind_eq_ok.1 hready
    obtain ⟨o, -, hready⟩ := Checked.bind_eq_ok.1 hready
    obtain ⟨rfl, -⟩ := Prod.mk.inj (Except.ok.inj hready)
    exact offline_mapBinary f p q o

/-- **A command without such an operation calls no bridge.** -/
theorem offline_of_command {command : Command} {x : Action (List (NDArray × Option Name))}
    (hlight : command.heavy? s = none) (hready : command.action c s = .ok x) : x.Offline := by
  cases command with
  | make op under =>
    obtain ⟨⟨y, out⟩, hop, hready⟩ := Checked.bind_eq_ok.1 hready
    obtain rfl := Except.ok.inj hready
    exact .bind (offline_of_operation hlight hop) fun _ => .pure _
  | makePair op under₁ under₂ =>
    obtain ⟨y, hop, hready⟩ := Checked.bind_eq_ok.1 hready
    obtain rfl := Except.ok.inj hready
    refine .bind ?_ fun _ => .pure _
    cases op with
    | lu n =>
      obtain ⟨p, hp, -⟩ := array_bind_eq_ok.1 hop
      exact absurd hlight (by simp [Command.heavy?, PairOperation.heavy?, hp])
    | modf n out₁ out₂ =>
      obtain ⟨p, -, hop⟩ := array_bind_eq_ok.1 hop
      obtain ⟨o₁, -, hop⟩ := Checked.bind_eq_ok.1 hop
      obtain ⟨o₂, -, hop⟩ := Checked.bind_eq_ok.1 hop
      obtain rfl := Except.ok.inj hop
      exact offline_modf p o₁ o₂
  | update u =>
    obtain ⟨y, hu, hready⟩ := Checked.bind_eq_ok.1 hready
    obtain rfl := Except.ok.inj hready
    refine .bind ?_ fun _ => .pure _
    cases u with
    | assign n data =>
      obtain ⟨p, -, hu⟩ := array_bind_eq_ok.1 hu
      obtain rfl := Except.ok.inj hu
      exact offline_assign p _ _
    | fill n dt e =>
      obtain ⟨p, -, hu⟩ := array_bind_eq_ok.1 hu
      obtain rfl := Except.ok.inj hu
      exact offline_fill p _ _
    | copyFrom n src =>
      obtain ⟨p, -, hu⟩ := array_bind_eq_ok.1 hu
      obtain ⟨q, -, hu⟩ := array_bind_eq_ok.1 hu
      obtain rfl := Except.ok.inj hu
      exact offline_copyFrom p q
  | query q =>
    obtain rfl := Except.ok.inj hready
    exact .pure _

/-- So the list of calls is not changed by such a command. -/
theorem calls_of_exec_light {command : Command} (hlight : command.heavy? s = none) :
    (exec c command s).2.world.calls = s.world.calls := by
  rw [exec_eq]
  -- a name that is missing leaves the world as it was
  cases hready : command.action c s with
  | error n => rfl
  | ok x =>
    dsimp only
    rw [leave_world, (offline_of_command hlight hready).calls_eq]

/-! ### Commands that may call one -/

/-- The world after an operation is that after its computation. -/
theorem exec_make_world {op : Operation} {x : Action NDArray} {out : Option NDArray}
    (hready : op.action c s = .ok (x, out)) (under : Option Name) :
    (exec c (.make op under) s).2.world = (x s.world).2 := by
  rw [exec_eq, Command.action, hready]
  exact (leave_world _ _).trans (Action.bind_pure_world x _ s.world)

theorem exec_makePair_world {op : PairOperation} {x : Action (NDArray × NDArray)}
    (hready : op.action c s = .ok x) (under₁ under₂ : Option Name) :
    (exec c (.makePair op under₁ under₂) s).2.world = (x s.world).2 := by
  rw [exec_eq, Command.action, hready]
  exact (leave_world _ _).trans (Action.bind_pure_world x _ s.world)

/-- An operation without a fault is a computation without one. -/
theorem ne_fault_of_make {op : Operation} {under : Option Name} {x : Action NDArray}
    {out : Option NDArray} (hready : op.action c s = .ok (x, out))
    (hfault : (Command.make op under).faults c s = false) :
    ∀ k w', x s.world ≠ (.error (.fault k), w') := by
  intro k w' hx
  rw [Command.faults, run_operate, hready] at hfault
  dsimp only at hfault
  rw [run_act_pure_of_error hx] at hfault
  exact absurd hfault (by simp [endsInFault])

theorem ne_fault_of_makePair {op : PairOperation} {under₁ under₂ : Option Name}
    {x : Action (NDArray × NDArray)} (hready : op.action c s = .ok x)
    (hfault : (Command.makePair op under₁ under₂).faults c s = false) :
    ∀ k w', x s.world ≠ (.error (.fault k), w') := by
  intro k w' hx
  rw [Command.faults, run_operatePair, hready] at hfault
  dsimp only at hfault
  rw [run_act, hx] at hfault
  exact absurd (show true = false from hfault) Bool.noConfusion

/-- The operation of an array that is looked up. -/
theorem exists_of_heavy_one {f : NDArray → Heavy} {name : Name} {heavy : Heavy}
    (h : (do return f (← s.arrays.lookup name) : Option Heavy) = some heavy) :
    ∃ p, s.array name = .ok p ∧ f p = heavy := by
  obtain ⟨p, hp, h⟩ := Option.bind_eq_some_iff.1 h
  exact ⟨p, array_eq_ok.2 hp, Option.some.inj h⟩

/-- The operation of two arrays that are looked up. -/
theorem exists_of_heavy_two {f : NDArray → NDArray → Heavy} {name₁ name₂ : Name} {heavy : Heavy}
    (h : (do return f (← s.arrays.lookup name₁) (← s.arrays.lookup name₂) : Option Heavy)
      = some heavy) : ∃ p q, s.array name₁ = .ok p ∧ s.array name₂ = .ok q ∧ f p q = heavy := by
  obtain ⟨p, hp, h⟩ := Option.bind_eq_some_iff.1 h
  obtain ⟨q, hq, h⟩ := Option.bind_eq_some_iff.1 h
  exact ⟨p, q, array_eq_ok.2 hp, array_eq_ok.2 hq, Option.some.inj h⟩

/-- **The calls of an operation** that may go to a bridge are added to the list. -/
theorem calls_of_make {op : Operation} {under : Option Name} {heavy : Heavy}
    (hheavy : op.heavy? s = some heavy) (hfault : (Command.make op under).faults c s = false) :
    ∃ added, (exec c (.make op under) s).2.world.calls = s.world.calls ++ added ∧
      heavy.Calls c.bridges s.world added := by
  cases op with
  | dot n m =>
    -- the operands are looked up here as they are for the operation itself
    obtain ⟨p, q, hp, hq, rfl⟩ := exists_of_heavy_two hheavy
    have hready : (Operation.dot n m).action c s = .ok (p.dot c.bridges q, none) := by
      rw [Operation.action, hp, Checked.ok_bind, hq]
      rfl
    rw [exec_make_world hready]
    -- the calls come before anything that may fault, so nothing is asked of the end
    exact calls_of_dot c.bridges p q s.world
  | matmul n m =>
    obtain ⟨p, q, hp, hq, rfl⟩ := exists_of_heavy_two hheavy
    have hready : (Operation.matmul n m).action c s = .ok (p.matmul c.bridges q, none) := by
      rw [Operation.action, hp, Checked.ok_bind, hq]
      rfl
    rw [exec_make_world hready]
    exact calls_of_matmul (ne_fault_of_make hready hfault)
  | fft n =>
    obtain ⟨p, hp, rfl⟩ := exists_of_heavy_one hheavy
    have hready : (Operation.fft n).action c s = .ok (p.fft c.bridges c.lines, none) := by
      rw [Operation.action, hp]
      rfl
    rw [exec_make_world hready]
    exact calls_of_fft (ne_fault_of_make hready hfault)
  | fft2 n =>
    obtain ⟨p, hp, rfl⟩ := exists_of_heavy_one hheavy
    have hready : (Operation.fft2 n).action c s = .ok (p.fft2 c.bridges c.lines, none) := by
      rw [Operation.action, hp]
      rfl
    rw [exec_make_world hready]
    exact calls_of_fft2 (ne_fault_of_make hready hfault)
  | _ => exact absurd hheavy (by simp [Operation.heavy?])

/-- **So are those of a factorization**, which needs to know that its array is backed. -/
theorem calls_of_makePair (hbacked : c.bridges.Grow → s.AllBacked) {op : PairOperation}
    {under₁ under₂ : Option Name} {heavy : Heavy} (hheavy : op.heavy? s = some heavy)
    (hfault : (Command.makePair op under₁ under₂).faults c s = false) :
    ∃ added, (exec c (.makePair op under₁ under₂) s).2.world.calls = s.world.calls ++ added ∧
      heavy.Calls c.bridges s.world added := by
  cases op with
  | lu n =>
    obtain ⟨p, hp, rfl⟩ := exists_of_heavy_one hheavy
    have hready : (PairOperation.lu n).action c s = .ok (p.lu c.bridges) := by
      rw [PairOperation.action, hp]
      rfl
    rw [exec_makePair_world hready]
    -- what is factorized is a copy, and that is made of a backed array
    exact calls_of_lu (fun hg => hbacked hg n p (array_eq_ok.1 hp))
      (ne_fault_of_makePair hready hfault)
  | modf n out₁ out₂ => exact absurd hheavy (by simp [PairOperation.heavy?])

/-- **A command adds its calls to the list**, and no others. -/
theorem calls_of_exec (hbacked : c.bridges.Grow → s.AllBacked) (command : Command)
    (hfault : command.faults c s = false) :
    ∃ added, (exec c command s).2.world.calls = s.world.calls ++ added ∧
      command.Calls c s added := by
  unfold Command.Calls
  cases hheavy : command.heavy? s with
  | none => exact ⟨[], (calls_of_exec_light hheavy).trans (List.append_nil _).symm, rfl⟩
  | some heavy =>
    cases command with
    | make op under => exact calls_of_make hheavy hfault
    | makePair op under₁ under₂ => exact calls_of_makePair hbacked hheavy hfault
    | update u => exact absurd hheavy (by simp [Command.heavy?])
    | query q => exact absurd hheavy (by simp [Command.heavy?])

/-! ### Runs -/

/-- **The calls of a command go to one bridge.** -/
theorem flagged_of_calls {command : Command} {added : List Call} (h : command.Calls c s added) :
    ∃ handle, ∀ call ∈ added, call.Flagged handle := by
  unfold Command.Calls at h
  cases hheavy : command.heavy? s with
  | none =>
    rw [hheavy] at h
    obtain rfl : added = [] := h
    -- no call was made, and any bridge will do
    exact ⟨⟨0, ""⟩, fun call hcall => absurd hcall List.not_mem_nil⟩
  | some heavy =>
    rw [hheavy] at h
    exact Heavy.Calls.flagged h

/-- **The calls of a run are those of its commands.** -/
theorem exists_transcript {commands : List Command} (hbacked : c.bridges.Grow → s.AllBacked)
    (hfault : NoFault c commands s) : ∃ calls, Transcript c commands s calls ∧
      (run c commands s).2.world.calls = s.world.calls ++ calls.flatten := by
  induction commands generalizing s with
  | nil => exact ⟨[], .nil, (List.append_nil _).symm⟩
  | cons command commands ih =>
    obtain ⟨hfirst, hlater⟩ := hfault
    obtain ⟨added, hlisted, hcalls⟩ := calls_of_exec hbacked command hfirst
    -- the rest of the run starts from the session that the command leaves, whose arrays are backed
    -- again
    obtain ⟨rest, hrest, hrun⟩ := ih (fun hg => (hbacked hg).exec hg command) hlater
    refine ⟨added :: rest, .cons hlisted hcalls hrest, ?_⟩
    calc (run c (command :: commands) s).2.world.calls
        = (run c commands (exec c command s).2).2.world.calls := rfl
      _ = (s.world.calls ++ added) ++ rest.flatten := by rw [hrun, hlisted]
      _ = s.world.calls ++ (added :: rest).flatten := by
        rw [List.flatten_cons, List.append_assoc]

/-- In a transcript the calls of each command go to one bridge. -/
theorem Transcript.flagged {commands : List Command} {calls : List (List Call)}
    (h : Transcript c commands s calls) :
    ∀ added ∈ calls, ∃ handle, ∀ call ∈ added, call.Flagged handle := by
  induction h with
  | nil => exact fun added hadded => absurd hadded List.not_mem_nil
  | cons hlisted hcalls hrest ih =>
    intro added hadded
    rcases List.mem_cons.1 hadded with rfl | hadded
    · exact flagged_of_calls hcalls
    · exact ih added hadded

/-- **The discipline of calls.** Over any bridges, and in every session in which no operation ends
in a fault, the calls that bridges have received are those of the commands, one after the other.
No command calls two bridges, and every array that is ever passed is flagged for the bridge that
it is passed to. -/
theorem call_discipline (c : Setting) (commands : List Command)
    (hfault : NoFault c commands start) :
    ∃ calls, Transcript c commands start calls ∧
      (run c commands start).2.world.calls = calls.flatten ∧
      (∀ added ∈ calls, ∀ call₁ ∈ added, ∀ call₂ ∈ added, call₁.bridge = call₂.bridge) ∧
      ∀ call ∈ (run c commands start).2.world.calls, ∀ a ∈ call.request.arrays,
        a.device = .accelerated call.bridge := by
  -- at the start there is no array to be backed
  have hbacked : c.bridges.Grow → start.AllBacked := fun _ n a ha => absurd ha (by simp [start])
  obtain ⟨calls, htranscript, hrun⟩ := exists_transcript hbacked hfault
  have hcalls : (run c commands start).2.world.calls = calls.flatten := hrun
  refine ⟨calls, htranscript, hcalls, ?_, fun call hcall => ?_⟩
  · intro added hadded call₁ h₁ call₂ h₂
    obtain ⟨handle, hflagged⟩ := htranscript.flagged added hadded
    exact (hflagged call₁ h₁).1.trans (hflagged call₂ h₂).1.symm
  · rw [hcalls] at hcall
    obtain ⟨added, hadded, hin⟩ := List.mem_flatten.1 hcall
    obtain ⟨handle, hflagged⟩ := htranscript.flagged added hadded
    obtain ⟨hbridge, harrays⟩ := hflagged call hin
    rw [hbridge]
    exact harrays

/-- A bridge. -/
def firstBridge : Handle := ⟨0, "first"⟩

/-- A bridge that takes no note of operands. -/
def secondBridge : Handle := ⟨1, "second"⟩

/-- Bridges that multiply, but for what the second one does not do. -/
def reluctantSetting : Setting :=
  ⟨fun h => Bridge.reference h.name fun r =>
    if h = secondBridge ∧ r.name = "handle_array" then some .unsupported else none, ⟨id, id⟩⟩

/-- A matrix is flagged for both bridges, and multiplied by itself on either of them. -/
def productCommands : List Command :=
  [.make (.ofArray ⟨.i32, countTo 4⟩ ⟨[2, 2]⟩ (.accelerated firstBridge)) (some "a"),
    .make (.withDevice "a" (.accelerated secondBridge)) (some "b"), .make (.dot "a" "b") none,
    .make (.matmul "b" "a") none, .make (.dot "b" "a") none]

/-- The first bridge hears of both operands, and the second one multiplies them. It gives up the
last product when it hears of the first operand, and that is no fault. -/
theorem call_discipline_products :
    NoFault reluctantSetting productCommands start ∧
      (run reluctantSetting productCommands start).2.world.calls.map
        (fun call => (call.bridge, call.request.name))
          = [(firstBridge, "handle_array"), (firstBridge, "handle_array"), (secondBridge, "matmul"),
            (secondBridge, "handle_array")] ∧
      ∃ calls, Transcript reluctantSetting productCommands start calls ∧
        (run reluctantSetting productCommands start).2.world.calls = calls.flatten ∧
        (∀ added ∈ calls, ∀ call₁ ∈ added, ∀ call₂ ∈ added, call₁.bridge = call₂.bridge) ∧
        ∀ call ∈ (run reluctantSetting productCommands start).2.world.calls,
          ∀ a ∈ call.request.arrays, a.device = .accelerated call.bridge :=
  ⟨by decide +kernel, by decide +kernel,
    call_discipline reluctantSetting productCommands (by decide +kernel)⟩

end Session

end Strided
