import Strided.Proofs.Session.Steps

/-!
# What a command does

A command looks up names, runs one computation in the world, keeps what that gives under names,
and composes a reply. The reply only reads. This file takes the other three apart, so that
statements about runs of commands need not open a session again.

* `Command.action` is the computation of a command, once its names have been looked up. What it
  gives are the arrays to be kept, each with the name it is kept under.
* `Session.exec_eq` says that this is all a command does: a name that no array has leaves the
  session as it is, a computation that fails leaves its world, and one that does not fail leaves
  its world and its arrays. `Session.outcome_exec` tells from what it has left whether it has made
  any.
-/

namespace Strided

/-- Out to a dense block and back to a host array, perhaps with the axes reversed. -/
def NDArray.throughDense (a : NDArray) (dt : DType) (transposed : Bool) : Action NDArray := do
  let d ← Action.read fun s => a.toDense s dt
  let d ← if transposed then (liftM d.transpose : Action (Dense dt.Elem)) else pure d
  NDArray.ofDense dt d

namespace Session

/-- **The array of a name**, or the name, if no array has it. -/
def array (s : Session) (name : Name) : Except Name NDArray :=
  match s.arrays.lookup name with
  | some a => .ok a
  | none => .error name

/-- The array of a name that may be missing. -/
def array? (s : Session) : Option Name → Except Name (Option NDArray)
  | none => .ok none
  | some name => do return some (← s.array name)

/-- The lookup by names and that of the session find the same arrays. -/
theorem array_eq_ok {s : Session} {name : Name} {a : NDArray} :
    s.array name = .ok a ↔ s.arrays.lookup name = some a := by
  unfold array
  cases s.arrays.lookup name <;> simp

/-- An array that is there is that of its name. -/
theorem array?_eq_ok {s : Session} {name : Option Name} {out : Option NDArray} :
    s.array? name = .ok out ↔ (name = none ∧ out = none) ∨
      ∃ n a, name = some n ∧ out = some a ∧ s.arrays.lookup n = some a := by
  cases name with
  | none =>
    unfold array?
    simp [eq_comm]
  | some n =>
    unfold array?
    rw [Checked.bind_eq_ok]
    constructor
    · rintro ⟨a, ha, hout⟩
      exact .inr ⟨n, a, rfl, (Except.ok.inj hout).symm, array_eq_ok.1 ha⟩
    · -- the name is given, so the first case is none
      rintro (⟨h, -⟩ | ⟨n', a, hn, rfl, ha⟩)
      · exact absurd h (by simp)
      · obtain rfl := Option.some.inj hn
        exact ⟨a, array_eq_ok.2 ha, rfl⟩

/-- **An array is kept under a name**, in place of the one that had it. -/
def kept (s : Session) (a : NDArray) : Option Name → Session
  | none => s
  | some name => { s with arrays := (name, a) :: s.arrays.filter (·.1 ≠ name) }

/-- Arrays are kept one after the other. -/
def keptAll (s : Session) (arrays : List (NDArray × Option Name)) : Session :=
  arrays.foldl (fun s p => s.kept p.1 p.2) s

end Session

open Session

/-! ### The computation of a command -/

/-- **The computation of an operation**, and the receiver of its result. -/
def Operation.action (c : Setting) (s : Session) :
    Operation → Except Name (Action NDArray × Option NDArray)
  | .ofArray data shape device => .ok (NDArray.ofArray data shape device, none)
  | .filled filling shape dt device => .ok (filling.make shape dt device, none)
  | .filledLike filling a dt device => do
    return (NDArray.like filling.make (← s.array a) dt device, none)
  | .withView view a => do return (pure ((← s.array a).withView view), none)
  | .withDevice a device => do return (pure ((← s.array a).withDevice device), none)
  | .clone a => do return (pure (← s.array a), none)
  | .deepClone a => do return ((← s.array a).deepClone, none)
  | .flatten a => do return ((← s.array a).flatten, none)
  | .reshape a shape => do return (liftM ((← s.array a).reshape shape), none)
  | .subview a subscription => do return (liftM ((← s.array a).subview subscription), none)
  | .diagonal a k => do return (liftM ((← s.array a).diagonal k), none)
  | .diagflat a k => do return ((← s.array a).diagflat k, none)
  | .diag a k => do return ((← s.array a).diag k, none)
  | .throughDense a dt transposed => do
    let a ← s.array a
    return (a.throughDense (dt.getD a.dt) transposed, none)
  | .dot a b => do return ((← s.array a).dot c.bridges (← s.array b), none)
  | .matmul a b => do return ((← s.array a).matmul c.bridges (← s.array b), none)
  | .fft a => do return ((← s.array a).fft c.bridges c.lines, none)
  | .fft2 a => do return ((← s.array a).fft2 c.bridges c.lines, none)
  | .mapUnary f a out => do
    let a ← s.array a
    let out ← s.array? out
    return (a.mapUnary f out, out)
  | .mapBinary f a b out => do
    let a ← s.array a
    let b ← s.array b
    let out ← s.array? out
    return (a.mapBinary f b out, out)

/-- The computation of an operation that gives two arrays. -/
def PairOperation.action (c : Setting) (s : Session) :
    PairOperation → Except Name (Action (NDArray × NDArray))
  | .lu a => do return (← s.array a).lu c.bridges
  | .modf a out₁ out₂ => do
    let a ← s.array a
    let out₁ ← s.array? out₁
    let out₂ ← s.array? out₂
    return a.modf out₁ out₂

/-- The computation of a write. -/
def Update.action (s : Session) : Update → Except Name (Action Unit)
  | .assign a data => do return (← s.array a).assign data.dt data.cells.toList
  | .fill a dt x => do return (← s.array a).fill dt x
  | .copyFrom a src => do return (← s.array a).copyFrom (← s.array src)

/-- **The computation of a command**, which gives the arrays to be kept. -/
def Command.action (c : Setting) (s : Session) :
    Command → Except Name (Action (List (NDArray × Option Name)))
  | .make op under => do
    let x ← op.action c s
    return do return [(← x.1, under)]
  | .makePair op under₁ under₂ => do
    let x ← op.action c s
    return do
      let (a, b) ← x
      return [(a, under₁), (b, under₂)]
  | .update u => do
    let x ← u.action s
    return do
      x
      return []
  | .query _ => return return []

/-- Whether a command gives the arrays it is to make. -/
def Command.gives (c : Setting) (s : Session) : Command → Bool
  | .make op _ => ((operate c op).run s).1.isOk
  | .makePair op _ _ => ((operatePair c op).run s).1.isOk
  | .update _ => false
  | .query _ => false

namespace Session

/-! ### Chains that end in a computation -/

variable {α β : Type} {c : Setting} {s : Session}

/-- **A chain that begins with a name** goes on with its array, or ends for want of one. -/
theorem run_find_bind (name : Name) (f : NDArray → Step α) (s : Session) :
    (find name >>= f).run s = match s.array name with
      | .ok a => (f a).run s
      | .error n => (.error (.noArray n), s) := by
  unfold array
  -- the step and `array` look in the same list
  cases h : s.arrays.lookup name with
  | none => exact run_bind_of_error (by rw [run_find, h])
  | some a => exact run_bind_of_ok (by rw [run_find, h])

/-- A name that may be missing does not end the chain if it is. -/
theorem run_find?_bind (name : Option Name) (f : Option NDArray → Step α) (s : Session) :
    (find? name >>= f).run s = match s.array? name with
      | .ok out => (f out).run s
      | .error n => (.error (.noArray n), s) := by
  cases name with
  | none => rfl
  | some name =>
    rw [find?, array?, bind_assoc, run_find_bind]
    cases s.array name <;> rfl

/-- Chains whose first links are one, and whose rests do the same. -/
theorem run_bind_congr {x : Step α} {f g : α → Step β}
    (h : ∀ a s₁, (f a).run s₁ = (g a).run s₁) : (x >>= f).run s = (x >>= g).run s := by
  rcases hx : x.run s with ⟨r | a, s₁⟩
  · rw [run_bind_of_error hx, run_bind_of_error hx]
  · rw [run_bind_of_ok hx, run_bind_of_ok hx, h]

/-- Two computations one after the other are one. -/
theorem run_act_bind {γ : Type} (x : Action α) (f : α → Action β) (g : β → Step γ) (s : Session) :
    (act (x >>= f) >>= g).run s = (act x >>= fun a => act (f a) >>= g).run s := by
  rcases hx : x s.world with ⟨e | a, w⟩
  · -- the first computation fails, so both chains stop in its world
    have hchain : (x >>= f) s.world = (.error e, w) := Action.bind_of_error hx
    have hact : (act x).run s = (.error (.failure e), { s with world := w }) := by
      rw [run_act, hx]
      rfl
    have hacts : (act (x >>= f)).run s = (.error (.failure e), { s with world := w }) := by
      rw [run_act, hchain]
      rfl
    rw [run_bind_of_error hact, run_bind_of_error hacts]
  · have hchain : (x >>= f) s.world = f a w := Action.bind_of_ok hx
    have hacts : (act (x >>= f)).run s = (act (f a)).run { s with world := w } := by
      rw [run_act, run_act, hchain]
    rw [run_bind_of_ok (run_act_eq_ok.2 ⟨w, hx, rfl⟩)]
    -- the rest goes on from the same result in the same session
    rcases hf : (act (f a)).run { s with world := w } with ⟨r | b, s₁⟩
    · rw [run_bind_of_error (hacts.trans hf), run_bind_of_error hf]
    · rw [run_bind_of_ok (hacts.trans hf), run_bind_of_ok hf]

/-- A computation that succeeds, its result put into another form. -/
theorem run_act_pure_of_ok {x : Action α} {a : α} {w : World} {f : α → β}
    (h : x s.world = (.ok a, w)) :
    (act x >>= fun a => (pure (f a) : Step β)).run s = (.ok (f a), { s with world := w }) :=
  run_bind_of_ok (run_act_eq_ok.2 ⟨w, h, rfl⟩)

/-- A failure is handed on as it is. -/
theorem run_act_pure_of_error {x : Action α} {e : Failure} {w : World} {f : α → β}
    (h : x s.world = (.error e, w)) :
    (act x >>= fun a => (pure (f a) : Step β)).run s
      = (.error (.failure e), { s with world := w }) := by
  refine run_bind_of_error ?_
  rw [run_act, h]
  rfl

/-- In either case the session has the world that the computation has left. -/
theorem run_act_pure_session (x : Action α) (f : α → β) (s : Session) :
    ((act x >>= fun a => (pure (f a) : Step β)).run s).2 = { s with world := (x s.world).2 } := by
  rcases h : x s.world with ⟨e | a, w⟩
  · rw [run_act_pure_of_error h]
  · rw [run_act_pure_of_ok h]

/-- An operation runs its computation, and hands on its receiver. -/
theorem run_operate (c : Setting) (op : Operation) (s : Session) :
    (operate c op).run s = match op.action c s with
      | .ok (x, out) => (act x >>= fun a => pure (a, out)).run s
      | .error name => (.error (.noArray name), s) := by
  -- every operation looks up one name or two, and then perhaps that of a receiver
  cases op with
  | ofArray data shape device => rfl
  | filled filling shape dt device => rfl
  | throughDense a dt transposed =>
    rw [operate, Operation.action, run_find_bind]
    cases s.array a with
    | error n => rfl
    | ok a =>
      refine Eq.trans ?_ (run_act_bind (Action.read _) _ _ s).symm
      refine run_bind_congr fun d s₁ => ?_
      cases transposed with
      | false => rfl
      | true => exact (run_act_bind (liftM d.transpose) _ _ s₁).symm
  | dot a b | matmul a b =>
    rw [operate, Operation.action, run_find_bind]
    cases s.array a with
    | error n => rfl
    | ok x =>
      dsimp only
      rw [run_find_bind]
      cases s.array b <;> rfl
  | mapUnary f a out =>
    rw [operate, Operation.action, run_find_bind]
    cases s.array a with
    | error n => rfl
    | ok x =>
      dsimp only
      rw [run_find?_bind]
      cases s.array? out <;> rfl
  | mapBinary f a b out =>
    rw [operate, Operation.action, run_find_bind]
    cases s.array a with
    | error n => rfl
    | ok x =>
      dsimp only
      rw [run_find_bind]
      cases s.array b with
      | error n => rfl
      | ok y =>
        dsimp only
        rw [run_find?_bind]
        cases s.array? out <;> rfl
  | _ =>
    rw [operate, Operation.action, run_find_bind]
    cases s.array _ <;> rfl

/-- So does an operation that gives two arrays. -/
theorem run_operatePair (c : Setting) (op : PairOperation) (s : Session) :
    (operatePair c op).run s = match op.action c s with
      | .ok x => (act x).run s
      | .error name => (.error (.noArray name), s) := by
  cases op with
  | lu a =>
    rw [operatePair, PairOperation.action, run_find_bind]
    cases s.array a <;> rfl
  | modf a out₁ out₂ =>
    rw [operatePair, PairOperation.action, run_find_bind]
    cases s.array a with
    | error n => rfl
    | ok x =>
      dsimp only
      -- the names are looked up in turn, and the first one missing ends both sides
      rw [run_find?_bind]
      cases s.array? out₁ with
      | error n => rfl
      | ok o₁ =>
        dsimp only
        rw [run_find?_bind]
        cases s.array? out₂ <;> rfl

/-- And so does a write, which hands on the array it was made to. -/
theorem run_runUpdate (u : Update) (s : Session) :
    (∃ a, (runUpdate u).run s = match u.action s with
      | .ok x => (act x >>= fun _ => pure a).run s
      | .error name => (.error (.noArray name), s)) := by
  cases u with
  | assign a data | fill a dt y =>
    rw [runUpdate, Update.action, run_find_bind]
    cases s.array a with
    | error n => exact ⟨default, rfl⟩
    | ok x => exact ⟨x, rfl⟩
  | copyFrom a src =>
    rw [runUpdate, Update.action, run_find_bind]
    cases s.array a with
    | error n => exact ⟨default, rfl⟩
    | ok x =>
      refine ⟨x, ?_⟩
      dsimp only
      rw [run_find_bind]
      cases s.array src <;> rfl

/-! ### Steps that only read -/

/-- **A step that leaves the session as it is.** -/
def Step.Idle (x : Step α) : Prop := ∀ s, (x.run s).2 = s

namespace Step.Idle

variable {x : Step α} {f : α → Step β}

theorem pure (a : α) : Step.Idle (Pure.pure a : Step α) := fun _ => rfl

/-- **A chain of steps that only read only reads.** -/
theorem bind (hx : Step.Idle x) (hf : ∀ a, Step.Idle (f a)) : Step.Idle (x >>= f) := by
  intro s
  have hs := hx s
  rcases h : x.run s with ⟨r | a, s₁⟩
  · rw [run_bind_of_error h]
    rwa [h] at hs
  · rw [h] at hs
    rw [run_bind_of_ok h, hf a s₁]
    exact hs

theorem find (name : Name) : Step.Idle (Session.find name) := by
  intro s
  rw [run_find]
  cases s.arrays.lookup name <;> rfl

theorem inspect (f : Store → Answer α) : Step.Idle (Session.inspect f) := by
  intro s
  rw [Session.inspect, run_act]
  rfl

theorem answer (x : Answer α) : Step.Idle (Session.act (liftM x : Action α)) := by
  intro s
  rw [run_act]
  rfl

end Step.Idle

/-- **A question leaves the session as it is**, whatever is asked. -/
theorem idle_answer (q : Query) : Step.Idle (answer q) := by
  cases q with
  | read a dt => exact .bind (.find a) fun _ => .bind (.inspect _) fun _ => .pure _
  | complex a => exact .bind (.find a) fun _ => .bind (.inspect _) fun _ => .pure _
  | info a => exact .bind (.find a) fun _ => .bind (.answer _) fun _ => .pure _
  | sharesStorage a b | sameDevice a b =>
    exact .bind (.find a) fun _ => .bind (.find b) fun _ => .pure _
  | bridgeName a => exact .bind (.find a) fun _ => .bind (.answer _) fun _ => .pure _
  | select devices => exact .pure _
  | calls bridge => exact fun _ => rfl
  | allClose a b tolerance =>
    refine .bind (.find a) fun _ => .bind (.find b) fun _ => .bind (.inspect _) fun r => ?_
    cases r with
    | ok u => exact .pure _
    | error e => exact .pure _

/-! ### Commands -/

/-- What a chain does to the session if its last part only reads. -/
theorem run_bind_of_idle {x : Step α} {f : α → Step β} (hf : ∀ a, Step.Idle (f a)) (s : Session) :
    ((x >>= f).run s).2 = (x.run s).2 := by
  rcases h : x.run s with ⟨r | a, s₁⟩
  · rw [run_bind_of_error h]
  · rw [run_bind_of_ok h]
    exact hf a s₁

/-- Keeping an array never fails. -/
theorem run_keep_eq (a : NDArray) (name : Option Name) (s : Session) :
    (keep a name).run s = (.ok (), s.kept a name) := by
  cases name <;> rfl

/-- Composing the reply to an operation only reads. -/
theorem idle_reply_make (a : NDArray) (out : Option NDArray) (op : Operation) :
    Step.Idle (match op, out with
      | .withView .., _ => (act (reportLayout a) >>= fun r => pure (Reply.layout r) : Step Reply)
      | _, none => (inspect fun s => reportArray s a) >>= fun r => pure (Reply.array r)
      | _, some out => (inspect fun s => reportArray s a) >>= fun r =>
          pure (Reply.delivered r (a.sharesStorage out))) := by
  split
  · exact .bind (.answer _) fun _ => .pure _
  · exact .bind (.inspect _) fun _ => .pure _
  · exact .bind (.inspect _) fun _ => .pure _

/-- **What a command leaves** when its computation ends so. -/
def leave (s : Session) : Answer (List (NDArray × Option Name)) × World → Session
  | (.ok arrays, w) => keptAll { s with world := w } arrays
  | (.error _, w) => { s with world := w }

@[simp] theorem kept_world (s : Session) (a : NDArray) (under : Option Name) :
    (s.kept a under).world = s.world := by
  cases under <;> rfl

@[simp] theorem keptAll_world (s : Session) (arrays : List (NDArray × Option Name)) :
    (s.keptAll arrays).world = s.world := by
  induction arrays generalizing s with
  | nil => rfl
  | cons p arrays ih => exact (ih (s.kept p.1 p.2)).trans (kept_world s p.1 p.2)

@[simp] theorem leave_world (s : Session) (r : Answer (List (NDArray × Option Name)) × World) :
    (s.leave r).world = r.2 := by
  obtain ⟨e | arrays, w⟩ := r
  · rfl
  · exact keptAll_world _ arrays

/-- **All that a command does to a session.** -/
theorem exec_eq (c : Setting) (command : Command) (s : Session) :
    (exec c command s).2 = match command.action c s with
      | .ok x => s.leave (x s.world)
      | .error _ => s := by
  -- the reply is taken off a run, and its session is that of the run
  have hexec : (exec c command s).2 = ((reply c command).run s).2 := by
    unfold exec
    rcases (reply c command).run s with ⟨r | r, s'⟩ <;> rfl
  rw [hexec]
  cases command with
  | make op under =>
    have hrun := run_operate c op s
    rw [reply, Command.action]
    cases hready : op.action c s with
    | error n =>
      rw [hready] at hrun
      rw [run_bind_of_error hrun]
      rfl
    | ok ready =>
      obtain ⟨x, out⟩ := ready
      rw [hready] at hrun
      dsimp only at hrun
      rcases hx : x s.world with ⟨e | a, w⟩
      · rw [run_act_pure_of_error hx] at hrun
        rw [run_bind_of_error hrun]
        exact (congrArg s.leave (Action.bind_of_error hx)).symm
      · rw [run_act_pure_of_ok hx] at hrun
        rw [run_bind_of_ok hrun, run_bind_of_ok (run_keep_eq a under _)]
        -- the array has been kept, and the reply reads the session with it
        refine (idle_reply_make a out op _).trans ?_
        refine Eq.trans ?_ (congrArg s.leave (Action.bind_of_ok hx)).symm
        rfl
  | makePair op under₁ under₂ =>
    have hrun := run_operatePair c op s
    rw [reply, Command.action]
    cases hready : op.action c s with
    | error n =>
      rw [hready] at hrun
      rw [run_bind_of_error hrun]
      rfl
    | ok x =>
      rw [hready] at hrun
      dsimp only at hrun
      rcases hx : x s.world with ⟨e | ⟨a, b⟩, w⟩
      · rw [run_act, hx] at hrun
        rw [run_bind_of_error hrun]
        exact (congrArg s.leave (Action.bind_of_error hx)).symm
      · rw [run_act, hx] at hrun
        rw [run_bind_of_ok hrun]
        dsimp only
        rw [run_bind_of_ok (run_keep_eq a under₁ _), run_bind_of_ok (run_keep_eq b under₂ _)]
        -- two arrays are kept, one after the other, before both are read for the reply
        have hidle : Step.Idle ((inspect fun s => reportArray s a) >>= fun first =>
            (inspect fun s => reportArray s b) >>= fun second =>
              pure (Reply.arrays first second)) :=
          .bind (.inspect _) fun _ => .bind (.inspect _) fun _ => .pure _
        refine (hidle _).trans ?_
        refine Eq.trans ?_ (congrArg s.leave (Action.bind_of_ok hx)).symm
        rfl
  | update u =>
    obtain ⟨a, hrun⟩ := run_runUpdate u s
    rw [reply, Command.action]
    -- the reply to a write reads the array that was written
    refine (run_bind_of_idle (fun a => .bind (.inspect _) fun _ => .pure _) s).trans ?_
    rw [hrun]
    cases u.action s with
    | error n => rfl
    | ok x =>
      dsimp only
      rcases hx : x s.world with ⟨e | u, w⟩
      · rw [run_act_pure_of_error hx]
        exact (congrArg s.leave (Action.bind_of_error hx)).symm
      · rw [run_act_pure_of_ok hx]
        refine Eq.trans ?_ (congrArg s.leave (Action.bind_of_ok hx)).symm
        rfl
  | query q => exact idle_answer q s

/-- **What can become of a command**: it makes no array, whatever happens to the world, or it
makes one and keeps it, or it makes two. -/
inductive Outcome (c : Setting) (s : Session) : Command → Session → Prop
  | none {command : Command} {w : World} (hgives : command.gives c s = false) :
    Outcome c s command { s with world := w }
  | one {op : Operation} {under : Option Name} {x : Action NDArray} {out : Option NDArray}
    {a : NDArray} {w : World} (hgives : (Command.make op under).gives c s = true)
    (hready : op.action c s = .ok (x, out)) (hx : x s.world = (.ok a, w)) :
    Outcome c s (.make op under) (({ s with world := w } : Session).kept a under)
  | two {op : PairOperation} {under₁ under₂ : Option Name} {x : Action (NDArray × NDArray)}
    {a b : NDArray} {w : World} (hgives : (Command.makePair op under₁ under₂).gives c s = true)
    (hready : op.action c s = .ok x) (hx : x s.world = (.ok (a, b), w)) :
    Outcome c s (.makePair op under₁ under₂)
      ((({ s with world := w } : Session).kept a under₁).kept b under₂)

theorem Outcome.of_eq {command : Command} {s₁ s₂ : Session} (h : Outcome c s command s₁)
    (heq : s₂ = s₁) : Outcome c s command s₂ := heq ▸ h

/-- **Every command has one of these outcomes.** -/
theorem outcome_exec (c : Setting) (s : Session) (command : Command) :
    Outcome c s command (exec c command s).2 := by
  rw [exec_eq]
  cases command with
  | make op under =>
    have hrun := run_operate c op s
    rw [Command.action]
    cases hready : op.action c s with
    | error n =>
      rw [hready] at hrun
      exact .none (by rw [Command.gives, hrun]; rfl)
    | ok ready =>
      obtain ⟨x, out⟩ := ready
      rw [hready] at hrun
      dsimp only at hrun
      rcases hx : x s.world with ⟨e | a, w⟩
      · rw [run_act_pure_of_error hx] at hrun
        -- a failed computation has changed the world all the same
        exact .of_eq (.none (by rw [Command.gives, hrun]; rfl))
          (congrArg s.leave (Action.bind_of_error hx))
      · rw [run_act_pure_of_ok hx] at hrun
        exact .of_eq (.one (by rw [Command.gives, hrun]; rfl) hready hx)
          (congrArg s.leave (Action.bind_of_ok hx))
  | makePair op under₁ under₂ =>
    have hrun := run_operatePair c op s
    rw [Command.action]
    cases hready : op.action c s with
    | error n =>
      rw [hready] at hrun
      exact .none (by rw [Command.gives, hrun]; rfl)
    | ok x =>
      rw [hready] at hrun
      dsimp only at hrun
      rw [run_act] at hrun
      rcases hx : x s.world with ⟨e | ⟨a, b⟩, w⟩
      · rw [hx] at hrun
        exact .of_eq (.none (by rw [Command.gives, hrun]; rfl))
          (congrArg s.leave (Action.bind_of_error hx))
      · rw [hx] at hrun
        exact .of_eq (.two (by rw [Command.gives, hrun]; rfl) hready hx)
          (congrArg s.leave (Action.bind_of_ok hx))
  | update u =>
    rw [Command.action]
    cases u.action s with
    | error n => exact .none rfl
    | ok x =>
      rcases hx : x s.world with ⟨e | u', w⟩
      · exact .of_eq (.none rfl) (congrArg s.leave (Action.bind_of_error hx))
      · exact .of_eq (.none rfl) (congrArg s.leave (Action.bind_of_ok hx))
  | query q => exact .none rfl

/-! ### The names afterwards -/

/-- **The name an array is kept under** is its own, and all other names stay as they are. -/
theorem lookup_kept (s : Session) (a : NDArray) (under : Option Name) (name : Name) :
    (s.kept a under).arrays.lookup name
      = if under = some name then some a else s.arrays.lookup name := by
  cases under with
  | none =>
    rw [if_neg (by simp)]
    rfl
  | some n =>
    change ((n, a) :: s.arrays.filter (·.1 ≠ n)).lookup name = _
    rw [List.lookup_cons]
    by_cases hn : n = name
    · subst hn
      rw [if_pos rfl, beq_self_eq_true]
    · have hne : (name == n) = false := beq_eq_false_iff_ne.2 (Ne.symm hn)
      rw [if_neg fun h => hn (Option.some.inj h), hne]
      dsimp only
      -- what has been taken out had the other name
      induction s.arrays with
      | nil => rfl
      | cons p arrays ih =>
        obtain ⟨m, x⟩ := p
        by_cases hm : m = n
        · rw [List.filter_cons_of_neg (by simpa using hm), ih, hm, List.lookup_cons, hne]
        · rw [List.filter_cons_of_pos (by simpa using hm), List.lookup_cons, List.lookup_cons, ih]

end Session

end Strided
