import Strided.Proofs.NDArray.Results
import Strided.Proofs.Session.Steps

/-!
# Every array of a session is sound

The commands of a session nest the operations in any order: subviews of diagonals of subviews,
reshapes of whatever is contiguous, functions into output arrays that overlap their arguments.
The invariant that survives all of it is that every named array is `NDArray.Sound`.

* `Session.origin_of_operate` — what an operation gives is a new array, a named one, or a view
  that is taken of a named one;
* `Session.Everywhere.exec` — a property that lasts while the store grows is kept by a command if
  the arrays that the command makes have it;
* `Session.sound_exec` — one command keeps the invariant. For an operation that makes an array
  this is where the bounds of `View.Modest` begin or go on; for all other commands it is the
  growth of the store;
* `Session.sound_run` — so does every run, by induction on the commands.

What is asked of a command is `Operation.Moderate`: the free choice of a view is not open to it,
no slice steps further than its axis is long, and what is newly laid out has a span of at most
`sizeLimit`. The last condition is about results, so that a command that is refused, or that
ends in a fault for want of memory, need not meet it.
-/

namespace Strided

open Shape Session NDArray

/-! ### Moderate commands -/

/-- **An operation within bounds**, in the session it is done in. -/
structure Operation.Moderate (c : Setting) (s : Session) (op : Operation) : Prop where
  not_withView : ∀ view name, op ≠ .withView view name
  steps_le : ∀ name sub a, op = .subview name sub → s.arrays.lookup name = some a →
    sub.StepsWithin a.shape
  span_le : ∀ a out s', (operate c op).run s = (.ok (a, out), s') →
    (s.world.store.nextId ≤ a.storage ∨ ∃ name shape, op = .reshape name shape) →
    span a.shape.dims ≤ sizeLimit

/-- An operation that gives two arrays, within bounds. -/
def PairOperation.Moderate (c : Setting) (s : Session) (op : PairOperation) : Prop :=
  ∀ a b s', (operatePair c op).run s = (.ok (a, b), s') →
    (s.world.store.nextId ≤ a.storage → span a.shape.dims ≤ sizeLimit) ∧
    (s.world.store.nextId ≤ b.storage → span b.shape.dims ≤ sizeLimit)

/-- **A command within bounds.** -/
def Command.Moderate (c : Setting) (s : Session) : Command → Prop
  | .make op _ => op.Moderate c s
  | .makePair op _ _ => op.Moderate c s
  | .update _ => True
  | .query _ => True

namespace Session

/-- **Commands within bounds**, each one in the session the ones before it have left. -/
def Moderate (c : Setting) : List Command → Session → Prop
  | [], _ => True
  | command :: commands, s => command.Moderate c s ∧ Moderate c commands (exec c command s).2

/-- **The invariant**: every named array is sound. -/
def Sound (s : Session) : Prop := ∀ p ∈ s.arrays, p.2.Sound s.world.store

variable {c : Setting} {s s' : Session}

/-! ### Properties of all named arrays -/

/-- **Every named array has the property**, in the store as it is now. -/
def Everywhere (P : Store → NDArray → Prop) (s : Session) : Prop :=
  ∀ p ∈ s.arrays, P s.world.store p.2

/-- **The property lasts**: what has it in a store has it in a store that has grown. -/
def Lasting (P : Store → NDArray → Prop) : Prop :=
  ∀ store store' a, P store a → store.Extends store' → P store' a

theorem lasting_sound : Lasting NDArray.Sound := fun _ _ _ h hs => h.mono hs

section Everywhere

variable {P : Store → NDArray → Prop}

/-- **What lasts is kept** by whatever keeps the names and lets the store grow. -/
theorem Everywhere.mono (hP : Lasting P) (h : s.Everywhere P) (hnames : s'.arrays = s.arrays)
    (hstore : s.world.store.Extends s'.world.store) : s'.Everywhere P := by
  intro p hp
  rw [hnames] at hp
  exact hP _ _ p.2 (h p hp) hstore

theorem Everywhere.lookup {name : Name} {a : NDArray} (h : s.Everywhere P)
    (ha : s.arrays.lookup name = some a) : P s.world.store a := by
  obtain ⟨l₁, l₂, heq, -⟩ := List.lookup_eq_some_iff.1 ha
  exact h (name, a) (by rw [heq]; simp)

/-- The array of a name has the property, whether it is kept under one or not. -/
theorem Everywhere.keep {a : NDArray} (hs : s.Everywhere P) (ha : P s.world.store a)
    (name : Option Name) : ((Session.keep a name).run s).2.Everywhere P := by
  rw [run_keep]
  cases name with
  | none => exact hs
  | some name =>
    intro p hp
    -- the name is taken from the array that had it
    rcases List.mem_cons.1 hp with rfl | hp
    · exact ha
    · exact hs p (List.mem_filter.1 hp).1

/-- **A step that keeps names and buffers keeps what lasts.** -/
theorem Everywhere.of_keeps {α : Type} {x : Step α} (hP : Lasting P) (hx : Step.Keeps x)
    (hs : s.Everywhere P) : (x.run s).2.Everywhere P := by
  obtain ⟨hnames, hstore⟩ := hx s _ _ rfl
  exact hs.mono hP hnames hstore

/-- A chain that keeps an array and goes on. -/
theorem Everywhere.keep_bind {α : Type} {a : NDArray} {name : Option Name} {f : Unit → Step α}
    (hs : s.Everywhere P) (ha : P s.world.store a)
    (hf : ∀ s₁, s₁.Everywhere P → s₁.world = s.world → ((f ()).run s₁).2.Everywhere P) :
    ((Session.keep a name >>= f).run s).2.Everywhere P := by
  rw [run_bind_of_ok run_keep]
  have hkept := hs.keep ha name
  rw [run_keep] at hkept
  apply hf _ hkept
  cases name <;> rfl

end Everywhere

/-! ### Steps that make no array -/

/-- An array of one number is made in a buffer of its own, and so it is a new one. -/
theorem adds_make (filling : Filling) (shape : Shape) (dt : DType) (d : Device) :
    (filling.make shape dt d).Adds := by
  cases filling with
  | zeros => exact adds_zeros shape dt d
  | ones => exact adds_ones shape dt d
  | empty => exact adds_zeros shape dt d

theorem fresh_of_make {filling : Filling} {shape : Shape} {dt : DType} {d : Device} {a : NDArray}
    {w w' : World} (h : filling.make shape dt d w = (.ok a, w')) : Fresh w.store w'.store a := by
  cases filling with
  | zeros => exact fresh_of_zeros h
  | ones => exact fresh_of_ones h
  | empty => exact fresh_of_zeros h

/-- **Every operation keeps the names and the buffers**, link by link. -/
theorem keeps_operate (hb : c.bridges.Grow) (op : Operation) : Step.Keeps (operate c op) := by
  cases op with
  | ofArray data shape device => exact .bind (.act (adds_ofArray _ _ _).grows) fun _ => .pure _
  | filled filling shape dt device =>
    exact .bind (.act (adds_make filling _ _ _).grows) fun _ => .pure _
  | filledLike filling a dt device =>
    exact .bind (.find a) fun _ => .bind (.act (adds_make filling _ _ _).grows) fun _ => .pure _
  | withView view a => exact .bind (.find a) fun _ => .pure _
  | withDevice a device => exact .bind (.find a) fun _ => .pure _
  | clone a => exact .bind (.find a) fun _ => .pure _
  | deepClone a =>
    exact .bind (.find a) fun _ => .bind (.act (adds_deepClone _).grows) fun _ => .pure _
  | flatten a => exact .bind (.find a) fun _ => .bind (.act (adds_flatten _).grows) fun _ => .pure _
  | reshape a shape => exact .bind (.find a) fun _ => .bind (.act (.answer _)) fun _ => .pure _
  | subview a sub => exact .bind (.find a) fun _ => .bind (.act (.answer _)) fun _ => .pure _
  | diagonal a k => exact .bind (.find a) fun _ => .bind (.act (.answer _)) fun _ => .pure _
  | diagflat a k =>
    exact .bind (.find a) fun _ => .bind (.act (grows_diagflat _ _)) fun _ => .pure _
  | diag a k => exact .bind (.find a) fun _ => .bind (.act (grows_diag _ _)) fun _ => .pure _
  | throughDense a dt transposed =>
    refine .bind (.find a) fun _ => .bind (.inspect _) fun d => ?_
    cases transposed with
    | false =>
      exact .bind (.pure d) fun _ => .bind (.act (adds_ofDense _ _).grows) fun _ => .pure _
    | true =>
      exact .bind (.act (.checked _)) fun _ =>
        .bind (.act (adds_ofDense _ _).grows) fun _ => .pure _
  | dot a b =>
    exact .bind (.find a) fun _ => .bind (.find b) fun _ =>
      .bind (.act (grows_dot hb _ _)) fun _ => .pure _
  | matmul a b =>
    exact .bind (.find a) fun _ => .bind (.find b) fun _ =>
      .bind (.act (grows_matmul hb _ _)) fun _ => .pure _
  | fft a => exact .bind (.find a) fun _ => .bind (.act (grows_fft hb _ _)) fun _ => .pure _
  | fft2 a => exact .bind (.find a) fun _ => .bind (.act (grows_fft2 hb _ _)) fun _ => .pure _
  | mapUnary f a out =>
    exact .bind (.find a) fun _ => .bind (.find? out) fun _ =>
      .bind (.act (grows_mapUnary _ _ _)) fun _ => .pure _
  | mapBinary f a b out =>
    exact .bind (.find a) fun _ => .bind (.find b) fun _ => .bind (.find? out) fun _ =>
      .bind (.act (grows_mapBinary _ _ _ _)) fun _ => .pure _

/-- **So do the operations that give two arrays.** -/
theorem keeps_operatePair (hb : c.bridges.Grow) (op : PairOperation) :
    Step.Keeps (operatePair c op) := by
  cases op with
  | lu a => exact .bind (.find a) fun _ => .act (grows_lu hb _)
  | modf a out₁ out₂ =>
    exact .bind (.find a) fun _ => .bind (.find? out₁) fun _ => .bind (.find? out₂) fun _ =>
      .act (grows_modf _ _ _)

/-- **So does every write**: it changes cells and neither types nor sizes. -/
theorem keeps_runUpdate (u : Update) : Step.Keeps (runUpdate u) := by
  cases u with
  | assign a data =>
    exact .bind (.find a) fun _ => .bind (.act (grows_assign _ _ _)) fun _ => .pure _
  | fill a dt x => exact .bind (.find a) fun _ => .bind (.act (grows_fill _ _ _)) fun _ => .pure _
  | copyFrom a src =>
    exact .bind (.find a) fun _ => .bind (.find src) fun _ =>
      .bind (.act (grows_copyFrom _ _)) fun _ => .pure _

/-- **So does every question.** -/
theorem keeps_answer (q : Query) : Step.Keeps (answer q) := by
  cases q with
  | read a dt => exact .bind (.find a) fun _ => .bind (.inspect _) fun _ => .pure _
  | complex a => exact .bind (.find a) fun _ => .bind (.inspect _) fun _ => .pure _
  | info a => exact .bind (.find a) fun _ => .bind (.act (.answer _)) fun _ => .pure _
  | sharesStorage a b => exact .bind (.find a) fun _ => .bind (.find b) fun _ => .pure _
  | sameDevice a b => exact .bind (.find a) fun _ => .bind (.find b) fun _ => .pure _
  | bridgeName a => exact .bind (.find a) fun _ => .bind (.act (.answer _)) fun _ => .pure _
  | select devices => exact .pure _
  | calls bridge => exact .bind .get fun _ => .pure _
  | allClose a b tolerance =>
    refine .bind (.find a) fun _ => .bind (.find b) fun _ => .bind (.inspect _) fun r => ?_
    cases r with
    | ok u => exact .pure _
    | error e => exact .pure _

/-! ### The array an operation gives -/

/-- An operation that runs one computation has the result of the computation. -/
theorem run_result_eq_ok {x : Action NDArray} {a : NDArray} {out out' : Option NDArray} :
    (act x >>= fun r => (pure (r, out') : Step (NDArray × Option NDArray))).run s
        = (.ok (a, out), s') ↔
      out' = out ∧ ∃ w, x s.world = (.ok a, w) ∧ { s with world := w } = s' := by
  rw [run_bind_eq_ok]
  constructor
  · rintro ⟨r, s₁, hr, h⟩
    obtain ⟨w, hw, rfl⟩ := run_act_eq_ok.1 hr
    obtain ⟨heq, rfl⟩ := run_pure_eq_ok.1 h
    obtain ⟨rfl, rfl⟩ := Prod.mk.inj heq
    exact ⟨rfl, w, hw, rfl⟩
  · rintro ⟨rfl, w, hw, rfl⟩
    exact ⟨a, _, run_act_eq_ok.2 ⟨w, hw, rfl⟩, run_pure_eq_ok.2 ⟨rfl, rfl⟩⟩

/-- A chain that begins by looking a name up. -/
theorem run_find_bind_eq_ok {α : Type} {name : Name} {f : NDArray → Step α} {b : α} :
    (find name >>= f).run s = (.ok b, s') ↔
      ∃ a, s.arrays.lookup name = some a ∧ (f a).run s = (.ok b, s') := by
  rw [run_bind_eq_ok]
  constructor
  · rintro ⟨a, s₁, hfound, h⟩
    obtain ⟨ha, rfl⟩ := run_find_eq_ok.1 hfound
    exact ⟨a, ha, h⟩
  · rintro ⟨a, ha, h⟩
    exact ⟨a, s, run_find_eq_ok.2 ⟨ha, rfl⟩, h⟩

/-- A chain that begins with a name that may be missing. If it is not, an array has it. -/
theorem run_find?_bind_eq_ok {α : Type} {name : Option Name} {f : Option NDArray → Step α} {b : α} :
    (find? name >>= f).run s = (.ok b, s') ↔
      ∃ out, (∀ a, out = some a → ∃ n, s.arrays.lookup n = some a) ∧
        (find? name).run s = (.ok out, s) ∧ (f out).run s = (.ok b, s') := by
  cases name with
  | none =>
    rw [run_bind_eq_ok]
    constructor
    · rintro ⟨out, s₁, hout, h⟩
      obtain ⟨rfl, rfl⟩ := run_pure_eq_ok.1 hout
      exact ⟨none, by simp, rfl, h⟩
    · rintro ⟨out, -, hout, h⟩
      exact ⟨out, s, hout, h⟩
  | some n =>
    rw [run_bind_eq_ok]
    constructor
    · rintro ⟨out, s₁, hout, h⟩
      -- the name is known, so it has been looked up
      have hfound := hout
      unfold find? at hfound
      obtain ⟨a, ha, hfound⟩ := run_find_bind_eq_ok.1 hfound
      obtain ⟨rfl, rfl⟩ := run_pure_eq_ok.1 hfound
      refine ⟨some a, fun a' ha' => ⟨n, ?_⟩, hout, h⟩
      rw [ha, ha']
    · rintro ⟨out, -, hout, h⟩
      exact ⟨out, s, hout, h⟩

/-- **Where the array that an operation gives comes from.** It is a new one, a named one, or a
view that is taken of a named one. The views are told apart because each kind has conditions
of its own. -/
inductive Origin (s s' : Session) (a : NDArray) : Operation → Prop where
  | fresh {op : Operation} (h : Fresh s.world.store s'.world.store a) : Origin s s' a op
  | named {op : Operation} {name : Name} (h : s.arrays.lookup name = some a) : Origin s s' a op
  | moved {op : Operation} {name : Name} {x : NDArray} (device : Device)
      (hx : s.arrays.lookup name = some x) (h : x.withDevice device = a) : Origin s s' a op
  | diagonal {op : Operation} {name : Name} {x : NDArray} {k : Int}
      (hx : s.arrays.lookup name = some x) (h : x.diagonal k = .ok a) : Origin s s' a op
  | subview {name : Name} {sub : Subscription} {x : NDArray}
      (hx : s.arrays.lookup name = some x) (h : x.subview sub = .ok a) :
      Origin s s' a (.subview name sub)
  | reshape {name : Name} {shape : Shape} {x : NDArray}
      (hx : s.arrays.lookup name = some x) (h : x.reshape shape = .ok a) :
      Origin s s' a (.reshape name shape)
  | withView (view : View) (name : Name) : Origin s s' a (.withView view name)

/-- A result that goes to a receiver, if there is one. -/
theorem Origin.of_delivered {op : Operation} {a : NDArray} {out : Option NDArray}
    (hout : ∀ b, out = some b → ∃ name, s.arrays.lookup name = some b)
    (h : Delivered s.world.store s'.world.store out a) : Origin s s' a op := by
  cases out with
  | none => exact .fresh h
  | some o =>
    obtain rfl : a = o := h
    obtain ⟨name, hname⟩ := hout a rfl
    exact .named hname

/-- **Every operation gives an array of one of these origins.** -/
theorem origin_of_operate {op : Operation} {a : NDArray} {out : Option NDArray}
    (hb : c.bridges.Grow) (h : (operate c op).run s = (.ok (a, out), s')) :
    Origin s s' a op := by
  cases op with
  | ofArray data shape device =>
    obtain ⟨-, w, hw, rfl⟩ := run_result_eq_ok.1 h
    exact .fresh (fresh_of_ofArray hw)
  | filled filling shape dt device =>
    obtain ⟨-, w, hw, rfl⟩ := run_result_eq_ok.1 h
    exact .fresh (fresh_of_make hw)
  | filledLike filling name dt device =>
    obtain ⟨x, hx, h⟩ := run_find_bind_eq_ok.1 h
    obtain ⟨-, w, hw, rfl⟩ := run_result_eq_ok.1 h
    exact .fresh (fresh_of_make hw)
  | withView view name => exact .withView view name
  | withDevice name device =>
    obtain ⟨x, hx, h⟩ := run_find_bind_eq_ok.1 h
    obtain ⟨heq, rfl⟩ := run_pure_eq_ok.1 h
    exact .moved device hx (Prod.mk.inj heq).1
  | clone name =>
    obtain ⟨x, hx, h⟩ := run_find_bind_eq_ok.1 h
    obtain ⟨heq, rfl⟩ := run_pure_eq_ok.1 h
    obtain ⟨rfl, -⟩ := Prod.mk.inj heq
    exact .named hx
  | deepClone name =>
    obtain ⟨x, hx, h⟩ := run_find_bind_eq_ok.1 h
    obtain ⟨-, w, hw, rfl⟩ := run_result_eq_ok.1 h
    exact .fresh (fresh_of_deepClone hw)
  | flatten name =>
    obtain ⟨x, hx, h⟩ := run_find_bind_eq_ok.1 h
    obtain ⟨-, w, hw, rfl⟩ := run_result_eq_ok.1 h
    exact .fresh (fresh_of_flatten hw)
  | reshape name shape =>
    obtain ⟨x, hx, h⟩ := run_find_bind_eq_ok.1 h
    obtain ⟨-, w, hw, rfl⟩ := run_result_eq_ok.1 h
    exact .reshape hx (Prod.mk.inj hw).1
  | subview name sub =>
    obtain ⟨x, hx, h⟩ := run_find_bind_eq_ok.1 h
    obtain ⟨-, w, hw, rfl⟩ := run_result_eq_ok.1 h
    exact .subview hx (Prod.mk.inj hw).1
  | diagonal name k =>
    obtain ⟨x, hx, h⟩ := run_find_bind_eq_ok.1 h
    obtain ⟨-, w, hw, rfl⟩ := run_result_eq_ok.1 h
    exact .diagonal hx (Prod.mk.inj hw).1
  | diagflat name k =>
    obtain ⟨x, hx, h⟩ := run_find_bind_eq_ok.1 h
    obtain ⟨-, w, hw, rfl⟩ := run_result_eq_ok.1 h
    exact .fresh (fresh_of_diagflat hw)
  | diag name k =>
    obtain ⟨x, hx, h⟩ := run_find_bind_eq_ok.1 h
    obtain ⟨-, w, hw, rfl⟩ := run_result_eq_ok.1 h
    -- a vector is laid out on a new diagonal, of a matrix the diagonal is taken
    rcases fresh_or_diagonal_of_diag hw with hfresh | hdiagonal
    · exact .fresh hfresh
    · exact .diagonal hx hdiagonal
  | throughDense name dt transposed =>
    obtain ⟨x, hx, h⟩ := run_find_bind_eq_ok.1 h
    obtain ⟨d, s₁, hread, h⟩ := run_bind_eq_ok.1 h
    obtain ⟨w₁, hw₁, rfl⟩ := run_act_eq_ok.1 hread
    obtain ⟨hd, rfl⟩ := Prod.mk.inj hw₁
    -- what is read into a block has all its elements, also when its axes are turned round
    have hfull := full_of_toDense hd
    cases transposed with
    | false =>
      obtain ⟨d', s₂, hpure, h⟩ := run_bind_eq_ok.1 h
      obtain ⟨rfl, rfl⟩ := run_pure_eq_ok.1 hpure
      obtain ⟨-, w, hw, rfl⟩ := run_result_eq_ok.1 h
      exact .fresh (fresh_of_ofDense hfull hw)
    | true =>
      obtain ⟨t, s₂, hturn, h⟩ := run_bind_eq_ok.1 h
      obtain ⟨w₂, hw₂, rfl⟩ := run_act_eq_ok.1 hturn
      obtain ⟨ht, rfl⟩ := Prod.mk.inj hw₂
      obtain ⟨-, w, hw, rfl⟩ := run_result_eq_ok.1 h
      have hturned := Dense.full_of_transpose hfull (Checked.lift_eq_ok.1 ht)
      exact .fresh (fresh_of_ofDense hturned hw)
  | dot name₁ name₂ =>
    obtain ⟨x, hx, h⟩ := run_find_bind_eq_ok.1 h
    obtain ⟨y, hy, h⟩ := run_find_bind_eq_ok.1 h
    obtain ⟨-, w, hw, rfl⟩ := run_result_eq_ok.1 h
    exact .fresh (fresh_of_dot hb hw)
  | matmul name₁ name₂ =>
    obtain ⟨x, hx, h⟩ := run_find_bind_eq_ok.1 h
    obtain ⟨y, hy, h⟩ := run_find_bind_eq_ok.1 h
    obtain ⟨-, w, hw, rfl⟩ := run_result_eq_ok.1 h
    exact .fresh (fresh_of_matmul hb hw)
  | fft name =>
    obtain ⟨x, hx, h⟩ := run_find_bind_eq_ok.1 h
    obtain ⟨-, w, hw, rfl⟩ := run_result_eq_ok.1 h
    exact .fresh (fresh_of_fft hb hw)
  | fft2 name =>
    obtain ⟨x, hx, h⟩ := run_find_bind_eq_ok.1 h
    obtain ⟨-, w, hw, rfl⟩ := run_result_eq_ok.1 h
    exact .fresh (fresh_of_fft2 hb hw)
  | mapUnary f name name' =>
    obtain ⟨x, hx, h⟩ := run_find_bind_eq_ok.1 h
    obtain ⟨o, ho, -, h⟩ := run_find?_bind_eq_ok.1 h
    obtain ⟨rfl, w, hw, rfl⟩ := run_result_eq_ok.1 h
    exact .of_delivered ho (delivered_of_mapUnary hw)
  | mapBinary f name₁ name₂ name' =>
    obtain ⟨x, hx, h⟩ := run_find_bind_eq_ok.1 h
    obtain ⟨y, hy, h⟩ := run_find_bind_eq_ok.1 h
    obtain ⟨o, ho, -, h⟩ := run_find?_bind_eq_ok.1 h
    obtain ⟨rfl, w, hw, rfl⟩ := run_result_eq_ok.1 h
    exact .of_delivered ho (delivered_of_mapBinary hw)

/-- **What an operation within bounds gives is sound.** -/
theorem sound_of_operate {op : Operation} {a : NDArray} {out : Option NDArray}
    (hb : c.bridges.Grow) (hs : s.Sound) (hm : op.Moderate c s)
    (h : (operate c op).run s = (.ok (a, out), s')) : a.Sound s'.world.store := by
  have hstore := (keeps_operate hb op s _ s' h).2
  -- a named array is sound before, and stays so
  have hnamed : ∀ {name x}, s.arrays.lookup name = some x → x.Sound s'.world.store :=
    fun hname => (Everywhere.lookup hs hname).mono hstore
  cases origin_of_operate hb h with
  | fresh hfresh => exact hfresh.sound (hm.span_le a out s' h (.inl hfresh.new))
  | named hname => exact hnamed hname
  | moved device hx heq =>
    rw [← heq]
    exact (hnamed hx).withDevice device
  | diagonal hx hk => exact (hnamed hx).diagonal hk
  | @subview name sub x hx hsub =>
    exact (hnamed hx).subview (hm.steps_le name sub x rfl hx) hsub
  | @reshape name shape x hx hreshape =>
    exact (hnamed hx).reshape (hm.span_le a out s' h (.inr ⟨name, shape, rfl⟩)) hreshape
  | withView view name => exact absurd rfl (hm.not_withView view name)

/-- **A result that has been delivered** has a property that lasts if the output arrays have it, and
new arrays do. -/
theorem Everywhere.delivered {P : Store → NDArray → Prop} {a : NDArray} {out : Option NDArray}
    (hP : Lasting P) (hs : s.Everywhere P) (hstore : s.world.store.Extends s'.world.store)
    (hout : ∀ o, out = some o → ∃ name, s.arrays.lookup name = some o)
    (hnew : Fresh s.world.store s'.world.store a → P s'.world.store a)
    (h : Delivered s.world.store s'.world.store out a) : P s'.world.store a := by
  cases out with
  | none => exact hnew h
  | some o =>
    -- the result is the receiver itself, which has the property and keeps it
    obtain ⟨name, hname⟩ := hout o rfl
    obtain rfl : a = o := h
    exact hP _ _ _ (hs.lookup hname) hstore

/-- **An operation that gives two arrays delivers both**, to named arrays or to new ones. -/
theorem delivered_of_operatePair {op : PairOperation} {a b : NDArray} (hb : c.bridges.Grow)
    (h : (operatePair c op).run s = (.ok (a, b), s')) :
    ∃ out₁ out₂ : Option NDArray,
      (∀ o, out₁ = some o → ∃ name, s.arrays.lookup name = some o) ∧
      (∀ o, out₂ = some o → ∃ name, s.arrays.lookup name = some o) ∧
      Delivered s.world.store s'.world.store out₁ a ∧
      Delivered s.world.store s'.world.store out₂ b := by
  cases op with
  | lu name =>
    obtain ⟨x, hx, h⟩ := run_find_bind_eq_ok.1 h
    obtain ⟨w, hw, rfl⟩ := run_act_eq_ok.1 h
    -- a factorization has no receivers
    obtain ⟨hfactors, hpivots, -⟩ := fresh_of_lu hb hw
    exact ⟨none, none, by simp, by simp, hfactors, hpivots⟩
  | modf name name₁ name₂ =>
    obtain ⟨x, hx, h⟩ := run_find_bind_eq_ok.1 h
    obtain ⟨out₁, hout₁, -, h⟩ := run_find?_bind_eq_ok.1 h
    obtain ⟨out₂, hout₂, -, h⟩ := run_find?_bind_eq_ok.1 h
    obtain ⟨w, hw, rfl⟩ := run_act_eq_ok.1 h
    obtain ⟨hfraction, hfloor, -⟩ := delivered_of_modf hw
    exact ⟨out₁, out₂, hout₁, hout₂, hfraction, hfloor⟩

/-- **What an operation within bounds gives is sound**, for the operations that give two. -/
theorem sound_of_operatePair {op : PairOperation} {a b : NDArray} (hb : c.bridges.Grow)
    (hs : s.Sound) (hm : op.Moderate c s) (h : (operatePair c op).run s = (.ok (a, b), s')) :
    a.Sound s'.world.store ∧ b.Sound s'.world.store := by
  obtain ⟨hspan₁, hspan₂⟩ := hm a b s' h
  have hstore := (keeps_operatePair hb op s _ s' h).2
  obtain ⟨out₁, out₂, hout₁, hout₂, ha, hb'⟩ := delivered_of_operatePair hb h
  exact ⟨Everywhere.delivered lasting_sound hs hstore hout₁ (fun hf => hf.sound (hspan₁ hf.new)) ha,
    Everywhere.delivered lasting_sound hs hstore hout₂ (fun hf => hf.sound (hspan₂ hf.new)) hb'⟩

/-! ### Commands -/

/-- Composing a reply changes no name and no buffer. -/
theorem keeps_report (a : NDArray) : Step.Keeps (inspect fun s => reportArray s a) := .inspect _

/-- The reply to an operation shows the layout, or the array, or the receiver. -/
theorem keeps_reply_make (a : NDArray) (out : Option NDArray) (op : Operation) :
    Step.Keeps (match op, out with
      | .withView .., _ => (act (reportLayout a) >>= fun r => pure (Reply.layout r) : Step Reply)
      | _, none => (inspect fun s => reportArray s a) >>= fun r => pure (Reply.array r)
      | _, some out => (inspect fun s => reportArray s a) >>= fun r =>
          pure (Reply.delivered r (a.sharesStorage out))) := by
  split
  · exact .bind (.act (.answer _)) fun _ => .pure _
  · exact .bind (keeps_report a) fun _ => .pure _
  · exact .bind (keeps_report a) fun _ => .pure _

/-- **What a command keeps of a property that lasts**: all of it, as long as the arrays that the
command makes have the property. -/
theorem Everywhere.exec {P : Store → NDArray → Prop} {command : Command} (hP : Lasting P)
    (hb : c.bridges.Grow) (hs : s.Everywhere P)
    (hmake : ∀ op under a out s', command = .make op under →
      (operate c op).run s = (.ok (a, out), s') → P s'.world.store a)
    (hpair : ∀ op under₁ under₂ a b s', command = .makePair op under₁ under₂ →
      (operatePair c op).run s = (.ok (a, b), s') → P s'.world.store a ∧ P s'.world.store b) :
    (Session.exec c command s).2.Everywhere P := by
  -- the session after a command is that of its reply
  have hexec : (Session.exec c command s).2 = ((reply c command).run s).2 := by
    unfold Session.exec
    rcases (reply c command).run s with ⟨r | r, s'⟩ <;> rfl
  rw [hexec]
  unfold reply
  cases command with
  | make op under =>
    -- the operation fails, and the names are what they were, or its result may be kept
    rcases hop : (operate c op).run s with ⟨r | ⟨a, out⟩, s₁⟩
    · obtain ⟨hnames, hstore⟩ := keeps_operate hb op s _ s₁ hop
      rw [run_bind_of_error hop]
      exact hs.mono hP hnames hstore
    · obtain ⟨hnames, hstore⟩ := keeps_operate hb op s _ s₁ hop
      rw [run_bind_of_ok hop]
      apply (hs.mono hP hnames hstore).keep_bind (hmake op under a out s₁ rfl hop)
      intro s₂ hs₂ _
      exact hs₂.of_keeps hP (keeps_reply_make a out op)
  | makePair op under₁ under₂ =>
    rcases hop : (operatePair c op).run s with ⟨r | ⟨a, b⟩, s₁⟩
    · obtain ⟨hnames, hstore⟩ := keeps_operatePair hb op s _ s₁ hop
      rw [run_bind_of_error hop]
      exact hs.mono hP hnames hstore
    · obtain ⟨hnames, hstore⟩ := keeps_operatePair hb op s _ s₁ hop
      -- the second array is kept after the first, in the same world
      obtain ⟨ha, hb'⟩ := hpair op under₁ under₂ a b s₁ rfl hop
      rw [run_bind_of_ok hop]
      apply (hs.mono hP hnames hstore).keep_bind ha
      intro s₂ hs₂ hw₂
      apply hs₂.keep_bind (by rw [hw₂]; exact hb')
      intro s₃ hs₃ _
      exact hs₃.of_keeps hP
        (.bind (keeps_report a) fun _ => .bind (keeps_report b) fun _ => .pure _)
  | update u =>
    exact hs.of_keeps hP
      (.bind (keeps_runUpdate u) fun a => .bind (keeps_report a) fun _ => .pure _)
  | query q => exact hs.of_keeps hP (keeps_answer q)

/-- **A command within bounds keeps every array sound.** -/
theorem sound_exec {command : Command} (hb : c.bridges.Grow) (hs : s.Sound)
    (hm : command.Moderate c s) : (exec c command s).2.Sound := by
  refine Everywhere.exec (P := NDArray.Sound) lasting_sound hb hs ?_ ?_
  · rintro op under a out s' rfl h
    exact sound_of_operate hb hs hm h
  · rintro op under₁ under₂ a b s' rfl h
    exact sound_of_operatePair hb hs hm h

/-- **A run of commands within bounds keeps every array sound.** -/
theorem sound_run {commands : List Command} (hb : c.bridges.Grow) (hs : s.Sound)
    (hm : Moderate c commands s) : (run c commands s).2.Sound := by
  induction commands generalizing s with
  | nil => exact hs
  | cons command commands ih =>
    -- the bounds on the rest are stated for the session the first command has left
    exact ih (sound_exec hb hs hm.1) hm.2

/-! ### Every reachable array -/

/-- **What holds of an array at any time**: its buffer has its element type, every axis has a
stride, and the elements lie in the buffer, no two of them in the same cell. -/
structure WellPlaced (s : Store) (a : NDArray) : Prop where
  backed : ∃ cells : Array a.dt.Elem, a.Backed s cells ∧ a.view.InBounds cells.size
  rank_eq : a.strides.steps.length = a.shape.dims.length
  distinct : a.view.Distinct

theorem wellPlaced_of_sound {store : Store} {a : NDArray} (h : a.Sound store) :
    WellPlaced store a := by
  obtain ⟨cells, hbuf, -, hview⟩ := h.exists_cells
  exact ⟨⟨cells, hbuf, hview.inBounds⟩, hview.rank_eq, hview.distinct⟩

theorem sound_start : start.Sound := by
  intro p hp
  exact absurd hp List.not_mem_nil

/-- **In every session within bounds, whatever its bridges do to the cells, all arrays are well
placed**; they can be read, written and copied, and views of them can be taken, and none of
this ends in a fault. Of the bridges nothing is asked but that they keep the buffers there are. -/
theorem run_safe (hb : c.bridges.Grow) (commands : List Command)
    (h : Moderate c commands start) :
    let s := (run c commands start).2
    ∀ p ∈ s.arrays, WellPlaced s.world.store p.2 ∧ Dependable s.world p.2 ∧
      ∀ q ∈ s.arrays, q.2.shape = p.2.shape → q.2.dt = p.2.dt →
        ∃ w, p.2.copyFrom q.2 s.world = (.ok (), w) := by
  have hsound := sound_run hb sound_start h
  intro s p hp
  have ha := hsound p hp
  refine ⟨wellPlaced_of_sound ha, ha.dependable, fun q hq hshape hdt => ?_⟩
  exact ha.exists_copyFrom (hsound q hq) hshape hdt

/-! #### A session -/

/-- Bridges that refuse nothing, and transforms that leave a line as it is. -/
def plainSetting : Setting := ⟨fun h => Bridge.reference h.name fun _ => none, ⟨id, id⟩⟩

/-- A matrix of six numbers. -/
def matrix : NDArray := inRows 2 3

/-- Every second column. -/
def everySecond : Subscription := ⟨[⟨0, 1, 2⟩, ⟨0, 2, 3⟩]⟩

/-- The outer columns of the matrix. -/
def outerColumns : NDArray := ⟨0, ⟨⟨[2, 2]⟩, ⟨[3, 2]⟩, 0⟩, .i32, .host⟩

/-- A matrix is made, the outer columns are taken and filled. -/
def columnCommands : List Command :=
  [.make (.ofArray ⟨.i32, countTo 6⟩ ⟨[2, 3]⟩ .host) (some "m"),
    .make (.subview "m" everySecond) (some "v"), .update (.fill "v" .i32 7)]

/-- The session in which the matrix has been made. -/
def withMatrix : Session := ⟨counting 6, [("m", matrix)]⟩

private theorem lookup_matrix {a : NDArray} (h : withMatrix.arrays.lookup "m" = some a) :
    a = matrix := by
  have hm : withMatrix.arrays.lookup "m" = some matrix := by
    simp [withMatrix]
  exact Option.some.inj (h.symm.trans hm)

/-- The commands are within bounds. -/
theorem moderate_columnCommands : Moderate plainSetting columnCommands start := by
  have hmake : (operate plainSetting (.ofArray ⟨.i32, countTo 6⟩ ⟨[2, 3]⟩ .host)).run start
      = (.ok (matrix, none), ⟨withMatrix.world, []⟩) := rfl
  refine ⟨⟨fun view name h => absurd h (by simp), fun name sub a h => absurd h (by simp), ?_⟩, ?_⟩
  · intro a out s' h _
    obtain ⟨hr, -⟩ := Prod.mk.inj (hmake.symm.trans h)
    obtain ⟨rfl, -⟩ := Prod.mk.inj (Except.ok.inj hr)
    decide
  · -- the matrix is there under its name when it is sliced
    change Moderate plainSetting _ withMatrix
    refine ⟨⟨fun view name h => absurd h (by simp), ?_, ?_⟩, trivial, trivial⟩
    · intro name sub a h ha
      obtain ⟨rfl, rfl⟩ := Operation.subview.inj h
      obtain rfl := lookup_matrix ha
      decide
    · intro a out s' h hnew
      -- the result is a view of the matrix, the shape of which is known
      obtain ⟨x, hx, h⟩ := run_find_bind_eq_ok.1 h
      obtain ⟨-, w, hw, rfl⟩ := run_result_eq_ok.1 h
      have hr : x.subview everySecond = .ok a := (Prod.mk.inj hw).1
      have hsub : matrix.subview everySecond = .ok outerColumns := by decide +kernel
      rw [lookup_matrix hx, hsub] at hr
      rw [← Except.ok.inj hr]
      decide

/-- The bridges of these sessions keep all buffers. -/
theorem grow_plainSetting : plainSetting.bridges.Grow := Bridge.grow_reference fun _ _ => none

/-- In this session all arrays are well placed and can be depended on. -/
theorem run_safe_columns : plainSetting.bridges.Grow ∧
    Moderate plainSetting columnCommands start ∧
    let s := (run plainSetting columnCommands start).2
    ∀ p ∈ s.arrays, WellPlaced s.world.store p.2 ∧ Dependable s.world p.2 ∧
      ∀ q ∈ s.arrays, q.2.shape = p.2.shape → q.2.dt = p.2.dt →
        ∃ w, p.2.copyFrom q.2 s.world = (.ok (), w) :=
  ⟨grow_plainSetting, moderate_columnCommands,
    run_safe grow_plainSetting columnCommands moderate_columnCommands⟩

end Session

end Strided
