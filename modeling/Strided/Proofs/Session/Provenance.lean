import Strided.Proofs.NDArray.Frame
import Strided.Proofs.Session.Actions
import Strided.Proofs.Session.Sound

/-!
# Where the arrays of a session come from

An operation either derives its result from an array that has a name, or makes a new one. Which of
the two it does can be read off the operation: `Operation.parent?` names the array the result is
derived from. Only `NDArray.diag` has to look at the array, since it takes the diagonal of a
matrix and lays a vector out.

* `Session.born_of_operation` — a derived result lies in the storage of its parent and has its
  element type, any other is `Fresh`; `Session.born_of_pair` says it of the two results of a
  factorization or a split, two new ones of which share no storage.
* `Session.spares_of_command` — a command changes no cell outside the arrays it is told to write
  to, its `Command.destinations`, provided that the bridges are confined.
-/

namespace Strided

open Session NDArray

/-! ### Parents -/

/-- **The array that the result of an operation is derived from**, unless it is a new one. -/
def Operation.parent? (s : Session) : Operation → Option Name
  | .ofArray .. | .filled .. | .filledLike .. | .deepClone _ | .flatten _ | .diagflat .. => none
  | .throughDense .. | .dot .. | .matmul .. | .fft _ | .fft2 _ => none
  | .withView _ a | .withDevice a _ | .clone a | .reshape a _ | .subview a _ | .diagonal a _ =>
    some a
  | .diag a _ =>
    match s.arrays.lookup a with
    | some x => if x.rank = 2 then some a else none
    | none => none
  | .mapUnary _ _ out => out
  | .mapBinary _ _ _ out => out

/-- The arrays that the two results are derived from. -/
def PairOperation.parents : PairOperation → Option Name × Option Name
  | .lu _ => (none, none)
  | .modf _ out₁ out₂ => (out₁, out₂)

/-- **The arrays that a command writes to.** -/
def Command.destinations : Command → List Name
  | .make (.mapUnary _ _ out) _ => out.toList
  | .make (.mapBinary _ _ _ out) _ => out.toList
  | .make .. => []
  | .makePair (.lu _) .. => []
  | .makePair (.modf _ out₁ out₂) .. => out₁.toList ++ out₂.toList
  | .update (.assign a _) => [a]
  | .update (.fill a _ _) => [a]
  | .update (.copyFrom a _) => [a]
  | .query _ => []

namespace Session

variable {c : Setting} {s : Session} {w : World} {a b : NDArray}

/-- **Where an array comes from**, given the name of its parent if it has one: it lies in the
parent's storage, or else in one that was not there before. -/
def Born (s : Session) (store : Store) (parent : Option Name) (a : NDArray) : Prop :=
  match parent with
  | none => Fresh s.world.store store a
  | some name => ∃ p, s.arrays.lookup name = some p ∧ a.storage = p.storage ∧ a.dt = p.dt

/-- A chain that begins by looking a name up. -/
theorem array_bind_eq_ok {α : Type} {name : Name} {f : NDArray → Except Name α} {x : α} :
    (s.array name >>= f) = .ok x ↔ ∃ a, s.arrays.lookup name = some a ∧ f a = .ok x := by
  rw [Checked.bind_eq_ok]
  exact exists_congr fun a => and_congr_left fun _ => array_eq_ok

/-- A result for a receiver comes from the receiver. -/
theorem born_of_delivered {name : Option Name} {out : Option NDArray} {store : Store}
    (hname : s.array? name = .ok out) (h : Delivered s.world.store store out a) :
    Born s store name a := by
  rcases array?_eq_ok.1 hname with ⟨rfl, rfl⟩ | ⟨n, o, rfl, rfl, ho⟩
  · exact h
  · obtain rfl : a = o := h
    exact ⟨a, ho, rfl, rfl⟩

/-- An operation on one array is ready when the array is there. -/
theorem array_ready_eq_ok {name : Name} {f : NDArray → Action NDArray} {x : Action NDArray}
    {out : Option NDArray} :
    (s.array name >>= fun a => (pure (f a, none) : Except Name (Action NDArray × Option NDArray)))
        = .ok (x, out) ↔ ∃ a, s.arrays.lookup name = some a ∧ f a = x ∧ none = out := by
  rw [array_bind_eq_ok]
  refine exists_congr fun a => and_congr_right fun _ => ?_
  rw [Checked.pure_eq, Except.ok.injEq, Prod.mk.injEq]

/-- What comes back from a dense block is new. -/
theorem fresh_of_throughDense {dt : DType} {transposed : Bool} {w' : World}
    (h : a.throughDense dt transposed w = (.ok b, w')) : Fresh w.store w'.store b := by
  unfold throughDense at h
  rw [Action.bind_read_eq_ok] at h
  obtain ⟨d, hd, h⟩ := h
  -- a block that has been read has all its elements, so it can be laid out
  have hfull := full_of_toDense hd
  cases transposed with
  | false => exact fresh_of_ofDense hfull h
  | true =>
    obtain ⟨t, ht, h⟩ := Action.bind_checked_eq_ok.1 h
    exact fresh_of_ofDense (Dense.full_of_transpose hfull ht) h

/-- **The result of an operation comes from its parent**, or is new. -/
theorem born_of_operation (hb : c.bridges.Grow) {op : Operation} {x : Action NDArray}
    {out : Option NDArray} (hready : op.action c s = .ok (x, out))
    (hx : x s.world = (.ok a, w)) : Born s w.store (op.parent? s) a := by
  cases op with
  | ofArray data shape device =>
    obtain ⟨rfl, -⟩ := Prod.mk.inj (Except.ok.inj hready)
    exact fresh_of_ofArray hx
  | filled filling shape dt device =>
    obtain ⟨rfl, -⟩ := Prod.mk.inj (Except.ok.inj hready)
    exact fresh_of_make hx
  | filledLike filling n dt device =>
    obtain ⟨p, hp, rfl, -⟩ := array_ready_eq_ok.1 hready
    exact fresh_of_make hx
  | withView _ n | withDevice n _ | clone n =>
    obtain ⟨p, hp, rfl, -⟩ := array_ready_eq_ok.1 hready
    obtain rfl := Except.ok.inj (Prod.mk.inj hx).1
    exact ⟨p, hp, rfl, rfl⟩
  | deepClone n =>
    obtain ⟨p, hp, rfl, -⟩ := array_ready_eq_ok.1 hready
    exact fresh_of_deepClone hx
  | flatten n =>
    obtain ⟨p, hp, rfl, -⟩ := array_ready_eq_ok.1 hready
    exact fresh_of_flatten hx
  | reshape n shape =>
    obtain ⟨p, hp, rfl, -⟩ := array_ready_eq_ok.1 hready
    -- views of the named array lie in its storage
    obtain ⟨strides, rfl⟩ := exists_of_reshape (Prod.mk.inj hx).1
    exact ⟨p, hp, rfl, rfl⟩
  | subview n sub =>
    obtain ⟨p, hp, rfl, -⟩ := array_ready_eq_ok.1 hready
    obtain ⟨v, rfl⟩ := exists_of_subview (Prod.mk.inj hx).1
    exact ⟨p, hp, rfl, rfl⟩
  | diagonal n k =>
    obtain ⟨p, hp, rfl, -⟩ := array_ready_eq_ok.1 hready
    obtain ⟨v, rfl⟩ := exists_of_diagonal (Prod.mk.inj hx).1
    exact ⟨p, hp, rfl, rfl⟩
  | diagflat n k =>
    obtain ⟨p, hp, rfl, -⟩ := array_ready_eq_ok.1 hready
    exact fresh_of_diagflat hx
  | diag n k =>
    obtain ⟨p, hp, rfl, -⟩ := array_ready_eq_ok.1 hready
    rw [Operation.parent?, hp]
    dsimp only
    -- the rank tells a vector from a matrix
    rcases diag_cases p k with ⟨hrank, hdiag⟩ | ⟨hrank, hdiag⟩ | ⟨-, -, hdiag⟩
    · rw [if_neg (by rw [hrank]; decide)]
      rw [hdiag] at hx
      exact fresh_of_diagflat hx
    · rw [if_pos hrank]
      rw [hdiag] at hx
      obtain ⟨v, rfl⟩ := exists_of_diagonal (Prod.mk.inj hx).1
      exact ⟨p, hp, rfl, rfl⟩
    · rw [hdiag] at hx
      exact absurd (congrArg Prod.fst hx) (by simp [reject])
  | throughDense n dt transposed =>
    obtain ⟨p, hp, hready⟩ := array_bind_eq_ok.1 hready
    obtain ⟨rfl, -⟩ := Prod.mk.inj (Except.ok.inj hready)
    exact fresh_of_throughDense hx
  | dot n m =>
    obtain ⟨p, hp, hready⟩ := array_bind_eq_ok.1 hready
    obtain ⟨q, hq, rfl, -⟩ := array_ready_eq_ok.1 hready
    exact fresh_of_dot hb hx
  | matmul n m =>
    obtain ⟨p, hp, hready⟩ := array_bind_eq_ok.1 hready
    obtain ⟨q, hq, rfl, -⟩ := array_ready_eq_ok.1 hready
    exact fresh_of_matmul hb hx
  | fft n =>
    obtain ⟨p, hp, rfl, -⟩ := array_ready_eq_ok.1 hready
    exact fresh_of_fft hb hx
  | fft2 n =>
    obtain ⟨p, hp, rfl, -⟩ := array_ready_eq_ok.1 hready
    exact fresh_of_fft2 hb hx
  | mapUnary f n out' =>
    obtain ⟨p, hp, hready⟩ := array_bind_eq_ok.1 hready
    obtain ⟨o, ho, hready⟩ := Checked.bind_eq_ok.1 hready
    obtain ⟨rfl, -⟩ := Prod.mk.inj (Except.ok.inj hready)
    exact born_of_delivered ho (delivered_of_mapUnary hx)
  | mapBinary f n m out' =>
    obtain ⟨p, hp, hready⟩ := array_bind_eq_ok.1 hready
    obtain ⟨q, hq, hready⟩ := array_bind_eq_ok.1 hready
    obtain ⟨o, ho, hready⟩ := Checked.bind_eq_ok.1 hready
    obtain ⟨rfl, -⟩ := Prod.mk.inj (Except.ok.inj hready)
    exact born_of_delivered ho (delivered_of_mapBinary hx)

/-- **Both results of an operation come from their parents**, or are new and apart. -/
theorem born_of_pair (hb : c.bridges.Grow) {op : PairOperation} {x : Action (NDArray × NDArray)}
    (hready : op.action c s = .ok x) (hx : x s.world = (.ok (a, b), w)) :
    Born s w.store op.parents.1 a ∧ Born s w.store op.parents.2 b ∧
      (op.parents = (none, none) → a.storage ≠ b.storage) := by
  cases op with
  | lu n =>
    obtain ⟨p, hp, hready⟩ := array_bind_eq_ok.1 hready
    obtain rfl := Except.ok.inj hready
    obtain ⟨hfactors, hpivots, hne⟩ := fresh_of_lu hb hx
    exact ⟨hfactors, hpivots, fun _ => hne⟩
  | modf n out₁ out₂ =>
    obtain ⟨p, hp, hready⟩ := array_bind_eq_ok.1 hready
    obtain ⟨o₁, ho₁, hready⟩ := Checked.bind_eq_ok.1 hready
    obtain ⟨o₂, ho₂, hready⟩ := Checked.bind_eq_ok.1 hready
    obtain rfl := Except.ok.inj hready
    obtain ⟨hfraction, hfloor, hne⟩ := delivered_of_modf hx
    refine ⟨born_of_delivered ho₁ hfraction, born_of_delivered ho₂ hfloor, fun hnone => ?_⟩
    -- no receivers are named, so there are none
    obtain ⟨rfl, rfl⟩ := Prod.mk.inj hnone
    exact hne (Except.ok.inj ho₁).symm (Except.ok.inj ho₂).symm

/-! ### What a command leaves alone -/

theorem adds_throughDense (a : NDArray) (dt : DType) (transposed : Bool) :
    (a.throughDense dt transposed).Adds := by
  refine .bind (.read _) fun d => ?_
  cases transposed with
  | false => exact adds_ofDense _ _
  | true => exact .bind (.checked _) fun _ => adds_ofDense _ _

/-- A receiver that is no concern of `P`. -/
theorem not_of_array? {P : StorageId → Prop} {name : Option Name} {out : Option NDArray}
    (hdst : ∀ n ∈ name.toList, ∀ p, s.arrays.lookup n = some p → ¬P p.storage)
    (hname : s.array? name = .ok out) : ∀ o, out = some o → ¬P o.storage := by
  rintro o rfl
  rcases array?_eq_ok.1 hname with ⟨-, hout⟩ | ⟨n, o', rfl, hout, ho⟩
  · exact absurd hout (by simp)
  · obtain rfl := Option.some.inj hout
    exact hdst n (by simp) o ho

/-- **An operation changes no cell outside its receiver.** -/
theorem spares_of_operation (hb : c.bridges.Confined) {P : StorageId → Prop} {op : Operation}
    {under : Option Name} {x : Action NDArray} {out : Option NDArray}
    (hdst : ∀ n ∈ (Command.make op under).destinations, ∀ p, s.arrays.lookup n = some p →
      ¬P p.storage)
    (hready : op.action c s = .ok (x, out)) : x.Spares P := by
  cases op with
  | ofArray data shape device =>
    obtain ⟨rfl, -⟩ := Prod.mk.inj (Except.ok.inj hready)
    exact (adds_ofArray _ _ _).spares P
  | filled filling shape dt device =>
    obtain ⟨rfl, -⟩ := Prod.mk.inj (Except.ok.inj hready)
    exact (adds_make filling _ _ _).spares P
  | filledLike filling n dt device =>
    obtain ⟨p, -, rfl, -⟩ := array_ready_eq_ok.1 hready
    exact (adds_make filling _ _ _).spares P
  | withView _ n | withDevice n _ | clone n =>
    obtain ⟨p, -, rfl, -⟩ := array_ready_eq_ok.1 hready
    exact .pure _
  | deepClone n =>
    obtain ⟨p, -, rfl, -⟩ := array_ready_eq_ok.1 hready
    exact (adds_deepClone p).spares P
  | flatten n =>
    obtain ⟨p, -, rfl, -⟩ := array_ready_eq_ok.1 hready
    exact (adds_flatten p).spares P
  | reshape n _ | subview n _ | diagonal n _ =>
    obtain ⟨p, -, rfl, -⟩ := array_ready_eq_ok.1 hready
    exact .answer _
  | diagflat n k =>
    obtain ⟨p, -, rfl, -⟩ := array_ready_eq_ok.1 hready
    exact (adds_diagflat p k).spares P
  | diag n k =>
    obtain ⟨p, -, rfl, -⟩ := array_ready_eq_ok.1 hready
    exact (adds_diag p k).spares P
  | throughDense n dt transposed =>
    obtain ⟨p, -, hready⟩ := array_bind_eq_ok.1 hready
    obtain ⟨rfl, -⟩ := Prod.mk.inj (Except.ok.inj hready)
    exact (adds_throughDense p _ _).spares P
  | dot n m =>
    obtain ⟨p, -, hready⟩ := array_bind_eq_ok.1 hready
    obtain ⟨q, -, rfl, -⟩ := array_ready_eq_ok.1 hready
    -- a bridge that is confined has written to the new array only
    exact (adds_dot hb p q).spares P
  | matmul n m =>
    obtain ⟨p, -, hready⟩ := array_bind_eq_ok.1 hready
    obtain ⟨q, -, rfl, -⟩ := array_ready_eq_ok.1 hready
    exact (adds_matmul hb p q).spares P
  | fft n =>
    obtain ⟨p, -, rfl, -⟩ := array_ready_eq_ok.1 hready
    exact (adds_fft hb c.lines p).spares P
  | fft2 n =>
    obtain ⟨p, -, rfl, -⟩ := array_ready_eq_ok.1 hready
    exact (adds_fft2 hb c.lines p).spares P
  | mapUnary f n out' =>
    obtain ⟨p, -, hready⟩ := array_bind_eq_ok.1 hready
    obtain ⟨o, ho, hready⟩ := Checked.bind_eq_ok.1 hready
    obtain ⟨rfl, -⟩ := Prod.mk.inj (Except.ok.inj hready)
    exact spares_mapUnary (not_of_array? hdst ho) f p
  | mapBinary f n m out' =>
    obtain ⟨p, -, hready⟩ := array_bind_eq_ok.1 hready
    obtain ⟨q, -, hready⟩ := array_bind_eq_ok.1 hready
    obtain ⟨o, ho, hready⟩ := Checked.bind_eq_ok.1 hready
    obtain ⟨rfl, -⟩ := Prod.mk.inj (Except.ok.inj hready)
    exact spares_mapBinary (not_of_array? hdst ho) f p q

/-- **A command changes no cell outside the arrays it is told to write to.** -/
theorem spares_of_command (hb : c.bridges.Confined) {P : StorageId → Prop} {command : Command}
    {x : Action (List (NDArray × Option Name))}
    (hdst : ∀ n ∈ command.destinations, ∀ p, s.arrays.lookup n = some p → ¬P p.storage)
    (hready : command.action c s = .ok x) : x.Spares P := by
  cases command with
  | make op under =>
    obtain ⟨⟨y, out⟩, hop, hready⟩ := Checked.bind_eq_ok.1 hready
    obtain rfl := Except.ok.inj hready
    exact .bind (spares_of_operation hb hdst hop) fun _ => .pure _
  | makePair op under₁ under₂ =>
    obtain ⟨y, hop, hready⟩ := Checked.bind_eq_ok.1 hready
    obtain rfl := Except.ok.inj hready
    refine .bind ?_ fun _ => .pure _
    cases op with
    | lu n =>
      obtain ⟨p, -, hop⟩ := array_bind_eq_ok.1 hop
      obtain rfl := Except.ok.inj hop
      exact (adds_lu hb p).spares P
    | modf n out₁ out₂ =>
      obtain ⟨p, -, hop⟩ := array_bind_eq_ok.1 hop
      obtain ⟨o₁, ho₁, hop⟩ := Checked.bind_eq_ok.1 hop
      obtain ⟨o₂, ho₂, hop⟩ := Checked.bind_eq_ok.1 hop
      obtain rfl := Except.ok.inj hop
      -- the receivers of both parts are destinations
      exact spares_modf
        (not_of_array? (fun n hn => hdst n (List.mem_append_left _ hn)) ho₁)
        (not_of_array? (fun n hn => hdst n (List.mem_append_right _ hn)) ho₂) p
  | update u =>
    obtain ⟨y, hu, hready⟩ := Checked.bind_eq_ok.1 hready
    obtain rfl := Except.ok.inj hready
    refine .bind ?_ fun _ => .pure _
    cases u with
    | assign n data =>
      obtain ⟨p, hp, hu⟩ := array_bind_eq_ok.1 hu
      obtain rfl := Except.ok.inj hu
      exact spares_assign (hdst n List.mem_cons_self p hp) _ _
    | fill n dt e =>
      obtain ⟨p, hp, hu⟩ := array_bind_eq_ok.1 hu
      obtain rfl := Except.ok.inj hu
      exact spares_fill (hdst n List.mem_cons_self p hp) _ _
    | copyFrom n src =>
      obtain ⟨p, hp, hu⟩ := array_bind_eq_ok.1 hu
      obtain ⟨q, -, hu⟩ := array_bind_eq_ok.1 hu
      obtain rfl := Except.ok.inj hu
      exact spares_copyFrom (hdst n List.mem_cons_self p hp) q
  | query q =>
    obtain rfl := Except.ok.inj hready
    exact .pure _

/-- **A command keeps all buffers**, if the bridges do. -/
theorem extends_of_command (hb : c.bridges.Grow) {command : Command}
    {x : Action (List (NDArray × Option Name))} (hready : command.action c s = .ok x) :
    s.world.store.Extends (x s.world).2.store := by
  cases command with
  | make op under =>
    obtain ⟨⟨y, out⟩, hop, hready⟩ := Checked.bind_eq_ok.1 hready
    obtain rfl := Except.ok.inj hready
    -- what holds of the step holds of its computation, since the two leave one world
    have hkeeps := (keeps_operate hb op s _ ((operate c op).run s).2 rfl).2
    rw [run_operate, hop] at hkeeps
    dsimp only at hkeeps
    rw [run_act_pure_session] at hkeeps
    rw [Action.bind_pure_world]
    exact hkeeps
  | makePair op under₁ under₂ =>
    obtain ⟨y, hop, hready⟩ := Checked.bind_eq_ok.1 hready
    obtain rfl := Except.ok.inj hready
    have hkeeps := (keeps_operatePair hb op s _ ((operatePair c op).run s).2 rfl).2
    rw [run_operatePair, hop] at hkeeps
    dsimp only at hkeeps
    rw [run_act] at hkeeps
    rw [Action.bind_pure_world]
    exact hkeeps
  | update u =>
    obtain ⟨y, hu, hready⟩ := Checked.bind_eq_ok.1 hready
    obtain rfl := Except.ok.inj hready
    obtain ⟨a, hrun⟩ := run_runUpdate u s
    have hkeeps := (keeps_runUpdate u s _ ((runUpdate u).run s).2 rfl).2
    rw [hrun, hu] at hkeeps
    dsimp only at hkeeps
    rw [run_act_pure_session] at hkeeps
    rw [Action.bind_pure_world]
    exact hkeeps
  | query q =>
    obtain rfl := Except.ok.inj hready
    exact .refl _

/-- Whatever becomes of a command, all buffers are there afterwards. -/
theorem extends_of_exec (hb : c.bridges.Grow) (command : Command) :
    s.world.store.Extends (exec c command s).2.world.store := by
  rw [exec_eq]
  cases hready : command.action c s with
  | error n => exact .refl _
  | ok x =>
    dsimp only
    rw [leave_world]
    exact extends_of_command hb hready

/-- Whatever becomes of a command, it has written to its destinations at most. -/
theorem agreesOn_of_exec (hb : c.bridges.Confined) {P : StorageId → Prop} {command : Command}
    (hdst : ∀ n ∈ command.destinations, ∀ p, s.arrays.lookup n = some p → ¬P p.storage) :
    s.world.store.AgreesOn P (exec c command s).2.world.store := by
  rw [exec_eq]
  cases hready : command.action c s with
  | error n => exact refl_of _ _
  | ok x =>
    dsimp only
    rw [leave_world]
    exact spares_of_command hb hdst hready s.world _ _ rfl

end Session

end Strided
