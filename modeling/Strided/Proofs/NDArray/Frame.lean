import Strided.Proofs.NDArray.Results

/-!
# What a computation leaves alone

A write reaches one storage, that of the array it goes through, and a bridge is trusted with the
arrays it is handed to fill and with nothing else (`Bridges.Confined`). This file turns both into
statements about whole operations, for an operation that fails as much as for one that succeeds.

* `Action.Spares P` is a step that changes no cell of the storages in `P`. Operations that write
  to arrays the caller names spare every storage but those (`spares_assign`, `spares_modf`, …).
* Products, factorizations and transforms write to arrays they have made themselves, and they
  change nothing at all that was there before: `heavy_operations_keep_cells`. Two things carry
  this. What was there has a smaller `StorageId` than what has been made since, so a write to the
  new arrays spares it (`Store.Agrees.spared`). And every destination handed to a bridge is new
  (`agrees_of_call`), also the factors of `NDArray.lu`, which the bridge overwrites in place:
  they are a copy.

Nothing is assumed of the bridges beyond confinement. `Bridge.scribbling` is the worst there is:
it writes whatever it likes along any views of its destinations, and answers what it likes
(`Bridge.confined_scribbling`).
-/

namespace Strided

/-! ### Storages that are left alone -/

/-- **The buffers at some places of one store are in the other, as they are.** -/
def Store.AgreesOn (P : StorageId → Prop) (s s' : Store) : Prop :=
  ∀ id b, P id → s.buffer? id = some b → s'.buffer? id = some b

instance (P : StorageId → Prop) : IsPreorder Store (Store.AgreesOn P) where
  refl _ _ _ _ hb := hb
  trans _ _ _ h₁ h₂ id b hP hb := h₂ id b hP (h₁ id b hP hb)

theorem Store.Agrees.agreesOn {s s' : Store} (h : s.Agrees s') (P : StorageId → Prop) :
    s.AgreesOn P s' := fun id b _ hb => h id b hb

/-- **An earlier store stays as it is** when nothing happens at the places it uses. -/
theorem Store.Agrees.spared {before s s' : Store} (h : before.Agrees s)
    (hs : s.AgreesOn (· < before.nextId) s') : before.Agrees s' :=
  fun id b hb => hs id b (Store.lt_nextId hb) (h id b hb)

/-- Another buffer at one place is no change at the others. -/
theorem Store.agreesOn_replace {P : StorageId → Prop} {id : StorageId} (hP : ¬P id) (s : Store)
    (b : Buffer) : s.AgreesOn P (s.replace id b) := by
  intro id' b' hP' hb'
  rw [Store.buffer?_replace, if_neg]
  · exact hb'
  · rintro ⟨rfl, -⟩
    exact hP hP'

/-- **A step that changes no cell of some storages.** -/
abbrev Action.Spares (P : StorageId → Prop) {α : Type} (x : Action α) : Prop :=
  x.Leads (Store.AgreesOn P)

theorem Action.Adds.spares {α : Type} {x : Action α} (h : x.Adds) (P : StorageId → Prop) :
    x.Spares P := fun w r w' hx => (h w r w' hx).agreesOn P

/-- The storages that a request does not hand over to be filled. -/
def Request.Outside (r : Request) (id : StorageId) : Prop :=
  ∀ dst ∈ r.destinations, id ≠ dst.storage

theorem Request.not_outside {r : Request} {dst : NDArray} (h : dst ∈ r.destinations) :
    ¬r.Outside dst.storage := fun hout => hout dst h rfl

/-- **Bridges that only write to the arrays they are handed to fill.** The answer is up to them,
and so is what they put into those arrays. -/
def Bridges.Confined (bridges : Bridges) : Prop :=
  ∀ (h : Handle) (r : Request) (w : World), w.store.AgreesOn r.Outside (bridges h r w).2

namespace Action

/-- An earlier store stays as it is in two steps if it does in each. What the second step can
rely on is more than `Action.Leads.bind` tells it: where the first one has begun. -/
theorem agrees_bind {α β : Type} {before : Store} {x : Action α} {f : α → Action β} {w : World}
    (hx : before.Agrees (x w).2.store)
    (hf : ∀ a w₁, x w = (.ok a, w₁) → before.Agrees w₁.store → before.Agrees (f a w₁).2.store) :
    before.Agrees ((x >>= f) w).2.store := by
  rcases h : x w with ⟨e | a, w₁⟩
  · -- the second step is not reached
    rw [bind_of_error h]
    rwa [h] at hx
  · rw [bind_of_ok h]
    rw [h] at hx
    exact hf a w₁ h hx

variable {P : StorageId → Prop}

/-- **A write reaches one storage.** -/
theorem spares_write {a : NDArray} (ha : ¬P a.storage) (dt : DType) (items : List dt.Elem) :
    (write a dt items).Spares P := by
  intro w r w' h
  unfold write at h
  cases hcells : (w.store.buffer? a.storage).bind (·.cellsAs dt) with
  | none =>
    rw [hcells] at h
    obtain rfl := (Prod.mk.inj h).2
    exact refl_of _ _
  | some cells =>
    -- the storage is replaced whether the walk ends in a fault or not
    have hspared := Store.agreesOn_replace ha w.store ⟨dt, (a.view.offsets.scatter items cells).1⟩
    rw [hcells] at h
    dsimp only at h
    split at h
    · obtain rfl := (Prod.mk.inj h).2
      exact hspared
    · obtain rfl := (Prod.mk.inj h).2
      exact hspared

variable {bridges : Bridges} {h : Handle} {r : Request}

/-- A call spares the storages that are not handed over to be filled. -/
theorem spares_call (hb : bridges.Confined) (hr : ∀ dst ∈ r.destinations, ¬P dst.storage) :
    (call bridges h r).Spares P := by
  intro w res w' hcall id b hP hid
  rw [call_eq] at hcall
  obtain rfl := (Prod.mk.inj hcall).2
  -- the bridge may only write to what it is handed, and that is not spared
  refine hb h r _ id b (fun dst hdst => ?_) hid
  rintro rfl
  exact hr dst hdst hP

/-- A call that hands nothing over to be filled changes nothing. -/
theorem adds_call (hb : bridges.Confined) (hr : r.destinations = []) : (call bridges h r).Adds := by
  intro w res w' hcall id b hid
  have hspared : (call bridges h r).Spares (fun _ => True) :=
    spares_call hb (by rw [hr]; exact List.forall_mem_nil _)
  exact hspared w res w' hcall id b trivial hid

/-- **A call whose destinations are new changes nothing that was there.** -/
theorem agrees_of_call (hb : bridges.Confined) {before : Store} {w w' : World} {res : Answer Unit}
    (hbefore : before.Agrees w.store) (hr : ∀ dst ∈ r.destinations, before.nextId ≤ dst.storage)
    (hcall : call bridges h r w = (res, w')) : before.Agrees w'.store :=
  hbefore.spared
    (spares_call hb (P := (· < before.nextId)) (fun dst hdst => Nat.not_lt.2 (hr dst hdst))
      w res w' hcall)

end Action

namespace NDArray

/-! ### Writing to arrays that are there -/

section Writing

open Elementwise

variable {P : StorageId → Prop} {a : NDArray}

/-- A write spares the storages it does not go to. -/
theorem spares_assign (ha : ¬P a.storage) (dt : DType) (items : List dt.Elem) :
    (a.assign dt items).Spares P :=
  .bind (.answer _) fun _ => .bind (.checked _) fun _ =>
    .check (.bind (.read _) fun _ => Action.spares_write ha _ _)
      (.bind (.read _) fun _ => Action.spares_write ha _ _)

theorem spares_fill (ha : ¬P a.storage) (dt : DType) (x : dt.Elem) : (a.fill dt x).Spares P :=
  .bind (.checked _) fun _ => .bind (.checked _) fun _ => spares_assign ha _ _

theorem spares_copyFrom (ha : ¬P a.storage) (src : NDArray) : (a.copyFrom src).Spares P := by
  have hcopy : (Action.read (fun s => (src.gather s).lift) >>= fun b =>
      Action.write a b.dt b.cells.toList).Spares P :=
    .bind (.read _) fun b => Action.spares_write ha b.dt b.cells.toList
  exact .check (.check hcopy hcopy) (.check hcopy hcopy)

variable {out out₁ out₂ : Option NDArray}

/-- A result is written to the output array, if there is one, and nowhere else. -/
theorem spares_deliver (hout : ∀ o, out = some o → ¬P o.storage) (r : NDArray) :
    (deliver r out).Spares P := by
  cases out with
  | none => exact .pure _
  | some o => exact .bind (spares_copyFrom (hout o rfl) r) fun _ => .pure _

/-- **A function of one argument** writes to its output array. -/
theorem spares_mapUnary (hout : ∀ o, out = some o → ¬P o.storage) (f : UnaryFunction)
    (a : NDArray) : (a.mapUnary f out).Spares P := by
  unfold mapUnary
  cases f.kernel? a.dt with
  | none => exact .answer _
  | some k => exact .bind ((adds_mapElements a k).spares P) fun r => spares_deliver hout r

/-- **A function of two arguments** writes to its output array. -/
theorem spares_mapBinary (hout : ∀ o, out = some o → ¬P o.storage) (f : BinaryFunction)
    (a b : NDArray) : (a.mapBinary f b out).Spares P := by
  unfold mapBinary
  cases f.kernel? a.dt with
  | none => exact .answer _
  | some k => exact .bind ((adds_zipElements a b k).spares P) fun r => spares_deliver hout r

/-- **Taking numbers apart** writes to the two output arrays. -/
theorem spares_modf (hout₁ : ∀ o, out₁ = some o → ¬P o.storage)
    (hout₂ : ∀ o, out₂ = some o → ¬P o.storage) (a : NDArray) :
    (a.modf out₁ out₂).Spares P := by
  unfold modf
  cases reals? a.dt with
  | none => exact .answer _
  | some R =>
    exact .bind ((adds_mapElements a _).spares P) fun r₁ =>
      .bind ((adds_mapElements a _).spares P) fun r₂ =>
        .bind (spares_deliver hout₁ r₁) fun _ => .bind (spares_deliver hout₂ r₂) fun _ => .pure _

end Writing

/-! ### Writing to arrays that have just been made -/

/-- **The matrix around a diagonal** is made before it is written to. -/
theorem adds_diagflat (v : NDArray) (k : Int) : (v.diagflat k).Adds := by
  have hfill : ∀ (size : Nat) (v : NDArray), (zeros ⟨[size, size]⟩ v.dt v.device >>= fun m =>
      (liftM (m.diagonal k) : Action NDArray) >>= fun diagonal =>
        diagonal.copyFrom v >>= fun _ => pure m).Adds := by
    rintro size v w r w' h
    obtain rfl := congrArg Prod.snd h
    refine Action.agrees_bind (adds_zeros _ _ _ w _ _ rfl) fun m w₁ hm hmade => ?_
    refine Action.agrees_bind hmade fun diagonal w₂ hd hmade => ?_
    have hdiagonal : m.diagonal k = .ok diagonal := congrArg Prod.fst hd
    -- the diagonal is a view of the new matrix
    have hnew : ¬diagonal.storage < w.store.nextId := by
      obtain ⟨v, rfl⟩ := exists_of_diagonal hdiagonal
      exact Nat.not_lt.2 (fresh_of_zeros hm).new
    have hcopy : (diagonal.copyFrom v >>= fun _ => (pure m : Action NDArray)).Spares
        (· < w.store.nextId) := .bind (spares_copyFrom hnew v) fun _ => .pure _
    exact hmade.spared (hcopy w₂ _ _ rfl)
  exact .bind (adds_flatten v) fun v => .bind (.checked _) fun n =>
    .check (hfill _ v) (hfill _ v)

/-- The diagonal form makes a matrix, or it takes a view. -/
theorem adds_diag (v : NDArray) (k : Int) : (v.diag k).Adds := by
  rcases diag_cases v k with ⟨-, h⟩ | ⟨-, h⟩ | ⟨-, -, h⟩
  · rw [h]
    exact adds_diagflat v k
  · rw [h]
    exact .answer _
  · rw [h]
    exact .answer _

variable {bridges : Bridges} {lhs rhs : NDArray}

/-- A new array that a confined bridge is asked to fill is all it can write to. -/
theorem adds_asked (hb : bridges.Confined) (handle : Handle) (shape : Shape) (dt : DType)
    (d : Device) {request : NDArray → Request}
    (hrequest : ∀ dst, (request dst).destinations = [dst]) :
    (do
      let dst ← empty shape dt d
      Action.call bridges handle (request dst)
      return dst : Action NDArray).Adds := by
  intro w r w' h
  obtain rfl := congrArg Prod.snd h
  refine Action.agrees_bind (adds_zeros _ _ _ w _ _ rfl) fun dst w₁ hdst hmade => ?_
  -- what the bridge is handed was not there before
  have hnew : ∀ d ∈ (request dst).destinations, w.store.nextId ≤ d.storage := by
    rw [hrequest]
    exact List.forall_mem_singleton.2 (fresh_of_zeros hdst).new
  exact Action.agrees_bind (Action.agrees_of_call hb hmade hnew rfl) fun _ _ _ hfilled => hfilled

/-- Announcing an operand hands nothing over to be filled. -/
theorem adds_announce (hb : bridges.Confined) (h : Handle) (lhs rhs : NDArray) :
    (announce bridges h lhs rhs).Adds :=
  .bind (Action.adds_call hb rfl) fun _ => Action.adds_call hb rfl

/-- **A dot product changes nothing that was there.** -/
theorem adds_dot (hb : bridges.Confined) (lhs rhs : NDArray) : (lhs.dot bridges rhs).Adds := by
  refine .bind (.answer _) fun _ => ?_
  cases selectBridge lhs rhs with
  | none => exact adds_dotHost lhs rhs
  | some h =>
    exact .bind (adds_announce hb h lhs rhs) fun _ =>
      .bind (adds_dotHost lhs rhs) fun _ => .pure _

/-- **Nor does a product of matrices**: a bridge writes it to an array made for it. -/
theorem adds_matmul (hb : bridges.Confined) (lhs rhs : NDArray) :
    (lhs.matmul bridges rhs).Adds := by
  refine .bind (.answer _) fun _ => .bind (.answer _) fun sizes => ?_
  obtain ⟨m, p, n⟩ := sizes
  dsimp only
  cases selectBridge lhs rhs with
  | none => exact adds_matmulHost lhs rhs m p n
  | some h => exact adds_asked hb h _ _ _ fun _ => rfl

/-- **A factorization overwrites a copy.** Both arrays the bridge is handed have been made for
it. -/
theorem adds_lu (hb : bridges.Confined) (a : NDArray) : (a.lu bridges).Adds := by
  refine .check ?_ ?_
  -- what follows the check is the same for either of its outcomes
  all_goals
    refine .bind (.answer _) fun n => ?_
    cases a.bridge? with
    | none => exact .answer _
    | some h =>
      intro w r w' hrun
      obtain rfl := congrArg Prod.snd hrun
      refine Action.agrees_bind (adds_deepClone a w _ _ rfl) fun factors w₁ hf hcopied => ?_
      refine Action.agrees_bind (hcopied.trans (adds_zeros _ _ _ w₁ _ _ rfl))
        fun pivots w₂ hp hmade => ?_
      -- the copy comes first and the pivots after it, and both after all that was there
      have hnew : ∀ d ∈ (Request.lu factors pivots).destinations, w.store.nextId ≤ d.storage :=
        List.forall_mem_cons.2 ⟨(fresh_of_deepClone hf).new, List.forall_mem_singleton.2
          ((fresh_of_zeros hp).since hcopied.toExtends).new⟩
      exact Action.agrees_bind (Action.agrees_of_call hb hmade hnew rfl)
        fun _ _ _ hfilled => hfilled

section Transforms

open Strided.Fourier

/-- **Nor does a transform of lines.** -/
theorem adds_fft (hb : bridges.Confined) (F : LineTransform) (a : NDArray) :
    (a.fft bridges F).Adds := by
  rcases fft_cases bridges F a with hrefused | ⟨h, -, hbridge⟩ | hhost
  · rw [hrefused]
    exact .answer _
  · rw [hbridge]
    exact adds_asked hb h _ _ _ fun _ => rfl
  · rw [hhost]
    exact adds_transformHost F _ a

/-- **Nor does a transform of planes.** -/
theorem adds_fft2 (hb : bridges.Confined) (F : LineTransform) (a : NDArray) :
    (a.fft2 bridges F).Adds := by
  rcases fft2_cases bridges F a with ⟨h, -, hbridge⟩ | hhost
  · rw [hbridge]
    exact adds_asked hb h _ _ _ fun _ => rfl
  · rw [hhost]
    exact adds_transformHost F _ a

/-- **Operands survive heavy operations.** In every world, for all arrays, whatever they share
and whether they can be read or not, and for every behaviour of bridges that write only to what
they are handed to fill: a product, a factorization or a transform leaves every buffer that was
there as it was, whether it gives a result or fails. -/
theorem heavy_operations_keep_cells (hb : bridges.Confined) (F : LineTransform) (a b : NDArray)
    (w : World) :
    w.store.Agrees (a.dot bridges b w).2.store ∧ w.store.Agrees (a.matmul bridges b w).2.store ∧
      w.store.Agrees (a.lu bridges w).2.store ∧ w.store.Agrees (a.fft bridges F w).2.store ∧
        w.store.Agrees (a.fft2 bridges F w).2.store :=
  ⟨adds_dot hb a b w _ _ rfl, adds_matmul hb a b w _ _ rfl, adds_lu hb a w _ _ rfl,
    adds_fft hb F a w _ _ rfl, adds_fft2 hb F a w _ _ rfl⟩

end Transforms

end NDArray

/-! ### Bridges that are confined -/

/-- **A write of a bridge**: any items, along any view of an array it has been handed to fill. -/
structure Scribble (r : Request) where
  dst : NDArray
  handed : dst ∈ r.destinations
  view : View
  items : List dst.dt.Elem

namespace Bridge

/-- **The bridge that answers and writes as it likes**, but writes only to its destinations. -/
def scribbling (writes : (r : Request) → World → List (Scribble r))
    (answer : Request → World → Response) : Bridge := fun r w =>
  (answer r w, ((writes r w).foldl
    (fun w s => (Action.write (s.dst.withView s.view) s.dst.dt s.items w).2) w).store)

/-- **Such a bridge is confined**, however many writes it makes and however they end. -/
theorem confined_scribbling (writes : Handle → (r : Request) → World → List (Scribble r))
    (answer : Handle → Request → World → Response) :
    Bridges.Confined fun h => scribbling (writes h) (answer h) := by
  intro h r w
  change w.store.AgreesOn _ ((writes h r w).foldl _ w).store
  generalize writes h r w = scribbles
  induction scribbles generalizing w with
  | nil => exact refl_of _ _
  | cons s scribbles ih =>
    -- a view of a destination has its storage
    have hhanded : ¬r.Outside (s.dst.withView s.view).storage := fun hout => hout s.dst s.handed rfl
    exact trans_of _ (Action.spares_write hhanded s.dst.dt s.items w _ _ rfl) (ih _)

theorem confined_idle : idle.Confined := fun _ _ _ => refl_of _ _

/-- **The reference bridge is confined**, whatever it refuses: it computes what it writes in
arrays of its own. -/
theorem confined_reference (refusals : Handle → Request → Option Refusal) :
    Bridges.Confined fun h => reference h.name (refusals h) := by
  intro h r w
  dsimp only
  unfold reference
  cases refusals h r with
  | some refusal => cases refusal <;> exact refl_of _ _
  | none =>
    -- whatever is copied to a destination stays inside the request
    have hcopy : ∀ dst src : NDArray, dst ∈ r.destinations → (dst.copyFrom src).Spares r.Outside :=
      fun dst src hdst => NDArray.spares_copyFrom (Request.not_outside hdst) src
    cases r with
    | handleArray a => exact refl_of _ _
    | matmul lhs rhs dst =>
      have hproduct := NDArray.adds_matmul confined_idle (lhs.withDevice .host)
        (rhs.withDevice .host)
      exact leads_byAction (.bind (hproduct.spares _) fun product =>
        hcopy dst product List.mem_cons_self) w
    | lu factors pivots =>
      have hfactors := Request.not_outside (r := .lu factors pivots) List.mem_cons_self
      have hpivots := Request.not_outside (r := .lu factors pivots)
        (List.mem_cons_of_mem _ List.mem_cons_self)
      exact leads_byAction (.bind (NDArray.spares_fill hfactors _ _) fun _ =>
        .bind (.checked _) fun _ => NDArray.spares_assign hpivots _ _) w
    | fft src dst => exact leads_byAction (hcopy dst src List.mem_cons_self) w
    | fft2 src dst => exact leads_byAction (hcopy dst src List.mem_cons_self) w

/-- Bridges that write ones over the first four places of each destination and then fail. -/
def spoiling : Bridges := fun _ => scribbling
  (fun r _ => r.destinations.attach.map fun dst =>
    ⟨dst.1, dst.2, dst.1.view, List.replicate 4 dst.1.dt.one⟩)
  fun _ _ => .error (.failed "spoiled")

end Bridge

namespace NDArray

/-- The numbers of a matrix. -/
def fourNumbers : Array DType.f64.Elem := #[2.5, 0.5, 1.5, 3.5]

/-- One buffer, with the numbers of a matrix. -/
def oneMatrix : World := .holding [⟨.f64, fourNumbers⟩]

/-- The matrix by rows, on an accelerator. -/
def byRows : NDArray := ⟨0, ⟨⟨[2, 2]⟩, ⟨[2, 1]⟩, 0⟩, .f64, .accelerated ⟨0, "a"⟩⟩

/-- Its transpose, a view of the same storage. -/
def transposed : NDArray := byRows.withView ⟨⟨[2, 2]⟩, ⟨[1, 2]⟩, 0⟩

/-- The matrix survives operations on it and its transpose, although the bridge spoils the copy
it is to factorize. -/
theorem heavy_operations_keep_cells_spoiling :
    Bridge.spoiling.Confined ∧
      (byRows.lu Bridge.spoiling oneMatrix).2.store.buffer? 1 = some ⟨.f64, #[1, 1, 1, 1]⟩ ∧
      oneMatrix.store.Agrees (byRows.dot Bridge.spoiling transposed oneMatrix).2.store ∧
      oneMatrix.store.Agrees (byRows.matmul Bridge.spoiling transposed oneMatrix).2.store ∧
      oneMatrix.store.Agrees (byRows.lu Bridge.spoiling oneMatrix).2.store ∧
      oneMatrix.store.Agrees (byRows.fft Bridge.spoiling ⟨id, id⟩ oneMatrix).2.store ∧
      oneMatrix.store.Agrees (byRows.fft2 Bridge.spoiling ⟨id, id⟩ oneMatrix).2.store :=
  ⟨Bridge.confined_scribbling _ _, rfl,
    heavy_operations_keep_cells (Bridge.confined_scribbling _ _) ⟨id, id⟩ byRows transposed
      oneMatrix⟩

end NDArray

end Strided
