import Strided.Proofs.NDArray.Accelerated

/-!
# What operations ask of bridges

Products, factorizations and transforms are the operations that can go to a bridge. `Heavy` lists
them with their operands. `Heavy.bridge?` says from the operands alone whether an operation goes to
a bridge, and to which; `Heavy.CallsTo` says what it then asks of it, in which order, and what the
arrays look like that the bridge is to fill. All other calls are ruled out: an operation that goes
to no bridge makes none (`Heavy.Calls`).

One lemma for each operation shows that this is what the world lists afterwards (`calls_of_dot`,
`calls_of_matmul`, `calls_of_lu`, `calls_of_fft`, `calls_of_fft2`), whatever bridges answer. Only
faults have to be excluded, and only for operations that make arrays before they call: there may
be no memory for them. Anything else cannot go wrong there (`Action.Sure`).

A bridge sees the store as it was when it was called, and so do these statements: each call comes
with the store it has found. For a second announcement this is the store that the first one has
left.
-/

namespace Strided

open NDArray Shape

/-! ### What is asked -/

/-- **A new array over the whole of a buffer**: its storage is none that an earlier store has, and
it is laid out row-major from the start. -/
structure Made (before found : Store) (shape : Shape) (d : Device) (b : Buffer) (a : NDArray) :
    Prop where
  new : before.nextId ≤ a.storage
  shape_eq : a.shape = shape
  view_eq : View.contiguous shape = .ok a.view
  dt_eq : a.dt = b.dt
  device_eq : a.device = d
  buffer_eq : found.buffer? a.storage = some b

/-- **A new array of zeros.** -/
def Blank (before found : Store) (shape : Shape) (dt : DType) (d : Device) (a : NDArray) : Prop :=
  Made before found shape d ⟨dt, Array.replicate (volume shape.dims) dt.zero⟩ a

/-- **One call that hands a new array of zeros over to be filled.** Nothing else has happened to
the store. -/
def Asks (before : Store) (h : Handle) (shape : Shape) (dt : DType) (d : Device)
    (request : NDArray → Request) (added : List Call) : Prop :=
  ∃ dst found, before.Agrees found ∧ Blank before found shape dt d dst ∧
    added = [⟨h, request dst, found⟩]

/-- **An operation that may go to a bridge**, with its operands. -/
inductive Heavy where
  | dot (lhs rhs : NDArray)
  | matmul (lhs rhs : NDArray)
  | lu (a : NDArray)
  | fft (a : NDArray)
  | fft2 (a : NDArray)

namespace Heavy

/-- **The bridge an operation goes to**, if it goes to one. A product goes to that of its first
accelerated operand. -/
def bridge? : Heavy → Option Handle
  | dot lhs rhs => if lhs.dt = rhs.dt then lhs.bridge?.or rhs.bridge? else none
  | matmul lhs rhs =>
    if matmulMismatch? lhs rhs = none then lhs.bridge?.or rhs.bridge? else none
  | lu a =>
    if a.dt.isFloat ∧ a.rank = 2 ∧ a.shape.dims[0]? = a.shape.dims[1]? then a.bridge? else none
  | fft a => if a.dt.isComplex ∧ (a.rank = 1 ∨ a.rank = 2) then a.bridge? else none
  | fft2 a => if a.dt.isComplex ∧ a.rank = 2 then a.bridge? else none

/-- **Both operands are announced**, the second one only if the bridge has taken note of the
first. -/
def announcement (bridges : Bridges) (w : World) (h : Handle) (lhs rhs : NDArray) : List Call :=
  let first : Call := ⟨h, .handleArray (lhs.withDevice (.accelerated h)), w.store⟩
  match bridges h first.request { w with calls := w.calls ++ [first] } with
  | (.done, s) => [first, ⟨h, .handleArray (rhs.withDevice (.accelerated h)), s⟩]
  | _ => [first]

/-- **The calls of an operation to its bridge.** The factors that `NDArray.lu` hands over are what
is gathered from the matrix, in a buffer of their own. These are its elements, unless a bridge has
put another type of elements into its storage. -/
def CallsTo (bridges : Bridges) (w : World) (h : Handle) : Heavy → List Call → Prop
  | dot lhs rhs, added => added = announcement bridges w h lhs rhs
  | matmul lhs rhs, added => ∃ m p n, lhs.shape.dims = [m, p] ∧ rhs.shape.dims = [p, n] ∧
    Asks w.store h ⟨[m, n]⟩ lhs.dt (.accelerated h)
      (.matmul (lhs.withDevice (.accelerated h)) (rhs.withDevice (.accelerated h))) added
  | lu a, added => ∃ n b factors pivots found, a.shape.dims = [n, n] ∧ w.store.Agrees found ∧
    a.gather w.store = .ok b ∧
    (bridges.Grow → ∃ items, a.toList w.store a.dt = .ok items ∧ b = ⟨a.dt, items.toArray⟩) ∧
    Made w.store found a.shape a.device b factors ∧
    Blank w.store found ⟨[n]⟩ .i32 a.device pivots ∧ factors.storage ≠ pivots.storage ∧
    added = [⟨h, .lu factors pivots, found⟩]
  | fft a, added => Asks w.store h a.shape a.dt a.device (.fft a) added
  | fft2 a, added => Asks w.store h a.shape a.dt a.device (.fft2 a) added

/-- **The calls of an operation.** -/
def Calls (bridges : Bridges) (w : World) (heavy : Heavy) (added : List Call) : Prop :=
  match heavy.bridge? with
  | some h => heavy.CallsTo bridges w h added
  | none => added = []

variable {bridges : Bridges} {w w' : World} {heavy : Heavy}

/-- An operation that goes to no bridge has to list no call. -/
theorem exists_calls_of_none (h : heavy.bridge? = none) (hcalls : w'.calls = w.calls) :
    ∃ added, w'.calls = w.calls ++ added ∧ heavy.Calls bridges w added := by
  unfold Calls
  rw [h]
  exact ⟨[], hcalls.trans (List.append_nil _).symm, rfl⟩

/-- One that goes to a bridge has to list the calls for that bridge. -/
theorem exists_calls_of_some {handle : Handle} (h : heavy.bridge? = some handle)
    (hcalls : ∃ added, w'.calls = w.calls ++ added ∧ heavy.CallsTo bridges w handle added) :
    ∃ added, w'.calls = w.calls ++ added ∧ heavy.Calls bridges w added := by
  unfold Calls
  rw [h]
  exact hcalls

end Heavy

/-! ### Arrays that are made to be passed -/

namespace Made

variable {before found : Store} {shape : Shape} {d : Device} {b : Buffer} {a : NDArray}

/-- The array stays as it was made while its buffer does. -/
theorem mono (h : Made before found shape d b a) {found' : Store} (hs : found.Agrees found') :
    Made before found' shape d b a :=
  ⟨h.new, h.shape_eq, h.view_eq, h.dt_eq, h.device_eq, hs _ _ h.buffer_eq⟩

theorem since (h : Made before found shape d b a) {earlier : Store}
    (hs : earlier.nextId ≤ before.nextId) : Made earlier found shape d b a :=
  ⟨hs.trans h.new, h.shape_eq, h.view_eq, h.dt_eq, h.device_eq, h.buffer_eq⟩

end Made

variable {bridges : Bridges} {h : Handle} {w w' : World} {a b lhs rhs : NDArray} {shape : Shape}
  {dt : DType} {d : Device}

theorem made_of_ofBuffer {buffer : Buffer} (hrun : ofBuffer buffer shape d w = (.ok a, w')) :
    Made w.store w'.store shape d buffer a := by
  obtain ⟨-, v, hv, rfl, rfl⟩ := ofBuffer_eq_ok.1 hrun
  refine ⟨le_rfl, View.shape_of_contiguous hv, hv, rfl, rfl, ?_⟩
  change (w.store.push buffer).buffer? w.store.nextId = some buffer
  rw [Store.buffer?_push, if_pos rfl]

/-- A new array for a result holds zeros. -/
theorem blank_of_empty (hrun : empty shape dt d w = (.ok a, w')) :
    Blank w.store w'.store shape dt d a := by
  obtain ⟨n, hn, -, v, hv, ha, hw⟩ := zeros_eq_ok.1 hrun
  obtain rfl := eq_volume_of_numel hn
  exact made_of_ofBuffer (ofBuffer_eq_ok.2 ⟨⟨_, hn⟩, v, hv, ha, hw⟩)

/-- A copy is a new array of what has been gathered. -/
theorem made_of_deepClone (hrun : a.deepClone w = (.ok b, w')) :
    ∃ buffer, a.gather w.store = .ok buffer ∧ Made w.store w'.store a.shape a.device buffer b := by
  unfold deepClone at hrun
  rw [Action.bind_read_eq_ok] at hrun
  obtain ⟨buffer, hbuffer, hrun⟩ := hrun
  exact ⟨buffer, Checked.lift_eq_ok.1 hbuffer, made_of_ofBuffer hrun⟩

/-! ### Steps that refuse nothing -/

namespace Action

variable {α β : Type}

/-- **A step that refuses nothing.** It ends in a result, unless it ends in a fault. -/
def Sure (x : Action α) : Prop := ∀ w e w', x w ≠ (.error (.rejected e), w')

namespace Sure

variable {x : Action α} {f : α → Action β}

theorem exists_ok (hx : x.Sure) (hfault : ∀ k w', x w ≠ (.error (.fault k), w')) :
    ∃ a w', x w = (.ok a, w') := by
  rcases h : x w with ⟨(e | k) | a, w'⟩
  · -- a refusal is ruled out by the step, a fault by the run
    exact absurd h (hx w e w')
  · exact absurd h (hfault k w')
  · exact ⟨a, w', rfl⟩

theorem pure (a : α) : (Pure.pure a : Action α).Sure := by
  intro w e w' h
  have hr : (.ok a : Answer α) = .error (.rejected e) := congrArg Prod.fst h
  exact absurd hr (by simp)

theorem checked (r : Checked α) : (liftM r : Action α).Sure := by
  intro w e w' h
  rw [liftM_checked] at h
  cases r with
  | error k => exact absurd (congrArg Prod.fst h) (by simp)
  | ok a => exact absurd (congrArg Prod.fst h) (by simp)

theorem read (g : Store → Checked α) : (Action.read fun s => (g s).lift).Sure :=
  fun w => Sure.checked (g w.store) w

theorem allocate (b : Buffer) : (Action.allocate b).Sure := fun _ _ _ h =>
  absurd (congrArg Prod.fst h) (by simp [Action.allocate])

/-- A chain refuses nothing if none of its links does. -/
theorem bind (hx : x.Sure) (hf : ∀ a, (f a).Sure) : (x >>= f).Sure := by
  intro w e w' h
  -- a refusal would come from the first link or from the second
  rcases hw : x w with ⟨e₁ | a, w₁⟩
  · rw [bind_of_error hw] at h
    obtain ⟨he, -⟩ := Prod.mk.inj h
    obtain rfl := Except.error.inj he
    exact hx w e w₁ hw
  · rw [bind_of_ok hw] at h
    exact hf a w₁ e w' h

end Sure

/-- A chain without a fault has none in its first link. -/
theorem no_fault_of_bind {x : Action α} {f : α → Action β}
    (h : ∀ k w', (x >>= f) w ≠ (.error (.fault k), w')) :
    ∀ k w', x w ≠ (.error (.fault k), w') := fun k w' hx => h k w' (bind_of_error hx)

/-! ### The calls that chains list -/

/-- A call is listed with the store it has found, whatever is answered. -/
theorem calls_of_call (bridges : Bridges) (h : Handle) (r : Request) (w : World) :
    (call bridges h r w).2.calls = w.calls ++ [⟨h, r, w.store⟩] := by
  rw [call_eq]
  rfl

/-- What is done without a bridge lists nothing. -/
theorem calls_of_bind {x : Action α} {f : α → Action β} (hf : ∀ a, (f a).Offline) (w : World) :
    ((x >>= f) w).2.calls = (x w).2.calls := by
  rcases h : x w with ⟨e | a, w₁⟩
  · rw [bind_of_error h]
  · rw [bind_of_ok h, (hf a).calls_eq]

end Action

open Strided.Action

theorem sure_ofBuffer (b : Buffer) (shape : Shape) (d : Device) : (ofBuffer b shape d).Sure :=
  .bind (.checked _) fun _ => .bind (.checked _) fun _ => .bind (.allocate b) fun _ => .pure _

theorem sure_empty (shape : Shape) (dt : DType) (d : Device) : (empty shape dt d).Sure :=
  .bind (.checked _) fun _ => .bind (.checked _) fun _ => sure_ofBuffer _ _ _

theorem sure_deepClone (a : NDArray) : a.deepClone.Sure :=
  .bind (.read _) fun _ => sure_ofBuffer _ _ _

/-- **A bridge is asked once**, if there is memory for what it is to fill. -/
theorem calls_of_asked {request : NDArray → Request}
    (hfault : ∀ k w', (do
      let dst ← empty shape dt d
      Action.call bridges h (request dst)
      return dst : Action NDArray) w ≠ (.error (.fault k), w')) :
    ∃ added, ((do
      let dst ← empty shape dt d
      Action.call bridges h (request dst)
      return dst : Action NDArray) w).2.calls = w.calls ++ added ∧
        Asks w.store h shape dt d request added := by
  obtain ⟨dst, w₁, hdst⟩ := (sure_empty shape dt d).exists_ok (no_fault_of_bind hfault)
  refine ⟨_, ?_, dst, w₁.store, adds_zeros _ _ _ w _ w₁ hdst, blank_of_empty hdst, rfl⟩
  -- making the array lists nothing
  have hcalls : w₁.calls = w.calls := by
    have hoffline := (offline_zeros shape dt d).calls_eq w
    rwa [show zeros shape dt d w = (.ok dst, w₁) from hdst] at hoffline
  rw [bind_of_ok hdst, bind_pure_world, calls_of_call, hcalls]

/-! ### Products -/

/-- The bridge of the first operand comes before that of the second. -/
theorem selectBridge_eq (lhs rhs : NDArray) :
    selectBridge lhs rhs = lhs.bridge?.or rhs.bridge? := by
  obtain ⟨_, _, _, d₁⟩ := lhs
  obtain ⟨_, _, _, d₂⟩ := rhs
  cases d₁ <;> cases d₂ <;> rfl

/-- **The announcement of two operands** is listed as the model of it says. -/
theorem calls_of_announce (bridges : Bridges) (h : Handle) (lhs rhs : NDArray) (w : World) :
    (announce bridges h lhs rhs w).2.calls
      = w.calls ++ Heavy.announcement bridges w h lhs rhs := by
  -- the answer to the first announcement decides whether there is a second
  have hfirst := call_eq bridges h (.handleArray (lhs.withDevice (.accelerated h))) w
  unfold announce Heavy.announcement
  dsimp only
  change _ = w.calls ++ match bridges h _ (listing h _ w) with
    | (.done, s) => _
    | _ => _
  rcases hanswer : bridges h (.handleArray (lhs.withDevice (.accelerated h)))
    (listing h (.handleArray (lhs.withDevice (.accelerated h))) w) with ⟨_ | e | k, s⟩
  · -- the bridge has taken note of the first operand
    rw [hanswer] at hfirst
    rw [bind_of_ok hfirst, calls_of_call, listing_calls, List.append_assoc]
    rfl
  · rw [hanswer] at hfirst
    rw [bind_of_error hfirst]
    rfl
  · rw [hanswer] at hfirst
    rw [bind_of_error hfirst]
    rfl

/-- **The calls of an inner product.** -/
theorem calls_of_dot (bridges : Bridges) (lhs rhs : NDArray) (w : World) :
    ∃ added, (lhs.dot bridges rhs w).2.calls = w.calls ++ added ∧
      (Heavy.dot lhs rhs).Calls bridges w added := by
  by_cases hdt : lhs.dt = rhs.dt
  · have hbridge : (Heavy.dot lhs rhs).bridge? = selectBridge lhs rhs :=
      (if_pos hdt).trans (selectBridge_eq lhs rhs).symm
    have hsame : checkSameDType lhs rhs = .ok () := if_pos hdt
    unfold dot
    rw [bind_answer_ok hsame]
    cases hselect : selectBridge lhs rhs with
    | none =>
      exact Heavy.exists_calls_of_none (hbridge.trans hselect)
        ((offline_dotHost lhs rhs).calls_eq w)
    | some h =>
      refine Heavy.exists_calls_of_some (hbridge.trans hselect) ⟨_, ?_, rfl⟩
      -- the product itself is made on the host
      refine (calls_of_bind (fun _ => ?_) w).trans (calls_of_announce bridges h lhs rhs w)
      exact .bind (offline_dotHost lhs rhs) fun _ => .pure _
  · -- operands of two types are refused before a bridge is looked for
    have hrefused : lhs.dot bridges rhs w
        = (.error (.rejected (.dtypeMismatch lhs.dt rhs.dt)), w) :=
      bind_answer_error (if_neg hdt) _ w
    rw [hrefused]
    exact Heavy.exists_calls_of_none (if_neg hdt) rfl

/-- Sizes that are accepted are those of two matrices that fit each other. -/
theorem dims_of_matmulSizes {m p n : Nat} (h : matmulSizes lhs rhs = .ok (m, p, n)) :
    lhs.shape.dims = [m, p] ∧ rhs.shape.dims = [p, n] := by
  unfold matmulSizes at h
  split at h
  · rename_i m' p' q n' hl hr
    by_cases hpq : p' = q
    · rw [if_pos hpq] at h
      obtain ⟨rfl, hpn⟩ := Prod.mk.inj (Except.ok.inj h)
      obtain ⟨rfl, rfl⟩ := Prod.mk.inj hpn
      exact ⟨hl, hpq ▸ hr⟩
    · rw [if_neg hpq] at h
      exact absurd h (by simp [reject])
  · exact absurd h (by simp [reject])
  · exact absurd h (by simp [reject])

/-- **The calls of a matrix product.** -/
theorem calls_of_matmul
    (hfault : ∀ k w', lhs.matmul bridges rhs w ≠ (.error (.fault k), w')) :
    ∃ added, (lhs.matmul bridges rhs w).2.calls = w.calls ++ added ∧
      (Heavy.matmul lhs rhs).Calls bridges w added := by
  cases hmismatch : matmulMismatch? lhs rhs with
  | some e =>
    rw [matmul_of_matmulMismatch? lhs rhs hmismatch]
    exact Heavy.exists_calls_of_none (if_neg (by rw [hmismatch]; simp)) rfl
  | none =>
    have hbridge : (Heavy.matmul lhs rhs).bridge? = selectBridge lhs rhs :=
      (if_pos hmismatch).trans (selectBridge_eq lhs rhs).symm
    -- without a mismatch both checks have passed
    obtain ⟨hdt, m, p, n, hsizes⟩ := sizes_of_matmulMismatch? hmismatch
    have hsame : checkSameDType lhs rhs = .ok () := if_pos hdt
    unfold matmul at hfault ⊢
    rw [bind_answer_ok hsame, bind_answer_ok hsizes] at hfault ⊢
    dsimp only at hfault ⊢
    cases hselect : selectBridge lhs rhs with
    | none =>
      exact Heavy.exists_calls_of_none (hbridge.trans hselect)
        ((offline_matmulHost lhs rhs m p n).calls_eq w)
    | some h =>
      rw [hselect] at hfault
      obtain ⟨added, hadded, hasks⟩ := calls_of_asked hfault
      obtain ⟨hl, hr⟩ := dims_of_matmulSizes hsizes
      exact Heavy.exists_calls_of_some (hbridge.trans hselect)
        ⟨added, hadded, m, p, n, hl, hr, hasks⟩

/-! ### Factorizations -/

/-- **The square matrices.** -/
theorem squareSize_eq_ok {n : Nat} : a.squareSize = .ok n ↔ a.shape.dims = [n, n] := by
  unfold squareSize
  constructor
  · intro h
    split at h
    · rename_i m n' hdims
      by_cases hmn : m = n'
      · rw [if_pos hmn] at h
        obtain rfl := Except.ok.inj h
        rw [hdims, hmn]
      · rw [if_neg hmn] at h
        exact absurd h (by simp [reject])
    · exact absurd h (by simp [reject])
  · intro h
    rw [h]
    exact if_pos rfl

/-- All others are refused. -/
theorem squareSize_of_not (h : ¬(a.rank = 2 ∧ a.shape.dims[0]? = a.shape.dims[1]?)) :
    a.squareSize = .error (.rejected (.notSquare a.shape)) := by
  unfold squareSize
  split
  · rename_i m n hdims
    refine if_neg fun hmn => h ⟨congrArg List.length hdims, ?_⟩
    rw [hdims, hmn]
    rfl
  · rfl

/-- What is gathered are the elements, if they have the type of the array. -/
theorem items_of_gather {s : Store} {cells : Array a.dt.Elem} {buffer : Buffer}
    (hbacked : a.Backed s cells) (hgather : a.gather s = .ok buffer) :
    ∃ items, a.toList s a.dt = .ok items ∧ buffer = ⟨a.dt, items.toArray⟩ := by
  -- gathering and reading are one computation
  rw [hbacked.gather_eq] at hgather
  cases hread : a.readOwn cells with
  | error k =>
    rw [hread] at hgather
    exact absurd hgather (by simp [Except.map])
  | ok items =>
    rw [hread] at hgather
    exact ⟨items, by rw [hbacked.toList_eq, hread]; rfl, (Except.ok.inj hgather).symm⟩

/-- **A matrix is factorized by its bridge** in a copy. -/
theorem calls_of_lu_square {n : Nat} (hbacked : bridges.Grow → ∃ cells, a.Backed w.store cells)
    (hfloat : a.dt.isFloat = true) (hdims : a.shape.dims = [n, n])
    (hbridge : a.bridge? = some h)
    (hfault : ∀ k w', a.lu bridges w ≠ (.error (.fault k), w')) :
    ∃ added, (a.lu bridges w).2.calls = w.calls ++ added ∧
      (Heavy.lu a).CallsTo bridges w h added := by
  -- behind the checks the operation is a copy, a new array and a call
  have hlu : a.lu bridges w = (a.deepClone >>= fun factors => empty ⟨[n]⟩ .i32 a.device >>=
      fun pivots => Action.call bridges h (.lu factors pivots) >>= fun _ =>
        (Pure.pure (factors, pivots) : Action (NDArray × NDArray))) w := by
    unfold lu
    dsimp only
    rw [if_pos hfloat, bind_answer_ok (squareSize_eq_ok.2 hdims), hbridge]
  rw [hlu] at hfault ⊢
  obtain ⟨factors, w₁, hcopy⟩ := (sure_deepClone a).exists_ok (no_fault_of_bind hfault)
  rw [bind_of_ok hcopy] at hfault ⊢
  obtain ⟨pivots, w₂, hblank⟩ := (sure_empty _ _ _).exists_ok (no_fault_of_bind hfault)
  rw [bind_of_ok hblank, bind_pure_world, calls_of_call]
  -- both arrays are made offline, one after the other
  have hcalls : w₂.calls = w.calls := by
    have h₁ := (offline_deepClone a).calls_eq w
    have h₂ := (offline_zeros ⟨[n]⟩ .i32 a.device).calls_eq w₁
    rw [hcopy] at h₁
    rw [show zeros ⟨[n]⟩ .i32 a.device w₁ = (.ok pivots, w₂) from hblank] at h₂
    exact h₂.trans h₁
  obtain ⟨b, hb, hfactors⟩ := made_of_deepClone hcopy
  have hpivots := blank_of_empty hblank
  have hadds := adds_deepClone a w _ w₁ hcopy
  have hadds' := adds_zeros _ _ _ w₁ _ w₂ hblank
  rw [hcalls]
  refine ⟨_, rfl, n, b, factors, pivots, w₂.store, hdims, trans_of Store.Agrees hadds hadds', hb,
    fun hg => ?_, hfactors.mono hadds', hpivots.since hadds.toExtends.nextId_le, ?_, rfl⟩
  · obtain ⟨cells, hcells⟩ := hbacked hg
    exact items_of_gather hcells hb
  · exact Nat.ne_of_lt (Nat.lt_of_lt_of_le (Store.lt_nextId hfactors.buffer_eq) hpivots.new)

/-- **The calls of a factorization.** -/
theorem calls_of_lu (hbacked : bridges.Grow → ∃ cells, a.Backed w.store cells)
    (hfault : ∀ k w', a.lu bridges w ≠ (.error (.fault k), w')) :
    ∃ added, (a.lu bridges w).2.calls = w.calls ++ added ∧
      (Heavy.lu a).Calls bridges w added := by
  by_cases hready : a.dt.isFloat ∧ a.rank = 2 ∧ a.shape.dims[0]? = a.shape.dims[1]?
  · have hbridge : (Heavy.lu a).bridge? = a.bridge? := if_pos hready
    -- the conditions say that there is a square matrix of floats
    obtain ⟨hfloat, hrank, hsquare⟩ := hready
    obtain ⟨m, n, hdims⟩ := List.length_eq_two.1 hrank
    rw [hdims] at hsquare
    obtain rfl : m = n := Option.some.inj hsquare
    cases hhandle : a.bridge? with
    | none =>
      refine Heavy.exists_calls_of_none (hbridge.trans hhandle) ?_
      unfold lu
      dsimp only
      rw [if_pos hfloat, bind_answer_ok (squareSize_eq_ok.2 hdims), hhandle]
      rfl
    | some h =>
      exact Heavy.exists_calls_of_some (hbridge.trans hhandle)
        (calls_of_lu_square hbacked hfloat hdims hhandle hfault)
  · refine Heavy.exists_calls_of_none (if_neg hready) ?_
    unfold lu
    dsimp only
    -- the type is looked at first, and then the size
    by_cases hfloat : a.dt.isFloat
    · rw [if_pos hfloat, bind_answer_error (squareSize_of_not fun hs => hready ⟨hfloat, hs⟩)]
    · rw [if_neg hfloat]
      rfl

/-! ### Transforms -/

section Transforms

open Strided.Fourier

variable {F : LineTransform}

/-- A vector or a matrix is transformed by its bridge, if that transforms it at all. -/
theorem fft_bridge?_eq (a : NDArray) :
    (Heavy.fft a).bridge? = if a.rank = 1 ∨ a.rank = 2 then a.complexBridge? else none := by
  unfold Heavy.bridge? complexBridge?
  by_cases hcomplex : a.dt.isComplex <;> simp [hcomplex]

/-- Only a matrix is transformed as a plane by its bridge. -/
theorem fft2_bridge?_eq (a : NDArray) :
    (Heavy.fft2 a).bridge? = if a.rank = 2 then a.complexBridge? else none := by
  unfold Heavy.bridge? complexBridge?
  by_cases hcomplex : a.dt.isComplex <;> simp [hcomplex]

/-- A vector or a matrix on the device of a bridge goes to that bridge. -/
theorem fft_of_bridge (bridges : Bridges) (F : LineTransform)
    (hb : (Heavy.fft a).bridge? = some h) :
    a.fft bridges F = transformBridge bridges h a .fft := by
  rw [fft_bridge?_eq, Option.ite_none_right_eq_some] at hb
  obtain ⟨hrank, hbridge⟩ := hb
  unfold fft
  rw [hbridge]
  rcases hrank with hrank | hrank
  · rw [hrank]
    rfl
  · rw [hrank]
    rfl

/-- Without a bridge for it a transform is left to the host, which refuses the same ranks. -/
theorem fft_of_host (bridges : Bridges) (F : LineTransform) (hb : (Heavy.fft a).bridge? = none) :
    a.fft bridges F = transformHost F .last a := by
  rw [fft_bridge?_eq] at hb
  unfold fft
  split
  · rename_i hrank
    funext w
    unfold transformHost
    -- a scalar has no last axis, on the host as elsewhere
    rw [hrank, if_neg (by decide)]
    exact (Action.bind_answer_error rfl _ w).symm
  · rename_i hrank hbridge
    rw [if_pos (.inl hrank), hbridge] at hb
    exact absurd hb (by simp)
  · rename_i hrank hbridge
    rw [if_pos (.inr hrank), hbridge] at hb
    exact absurd hb (by simp)
  · rfl

theorem offline_fft (bridges : Bridges) (F : LineTransform) (hb : (Heavy.fft a).bridge? = none) :
    (a.fft bridges F).Offline := by
  rw [fft_of_host bridges F hb]
  exact offline_transformHost F .last a

/-- **The calls of a transform along the last axis.** -/
theorem calls_of_fft (hfault : ∀ k w', a.fft bridges F w ≠ (.error (.fault k), w')) :
    ∃ added, (a.fft bridges F w).2.calls = w.calls ++ added ∧
      (Heavy.fft a).Calls bridges w added := by
  cases hb : (Heavy.fft a).bridge? with
  | none => exact Heavy.exists_calls_of_none hb ((offline_fft bridges F hb).calls_eq w)
  | some h =>
    rw [fft_of_bridge bridges F hb] at hfault ⊢
    exact Heavy.exists_calls_of_some hb (calls_of_asked hfault)

/-- A matrix on the device of a bridge goes to that bridge. -/
theorem fft2_of_bridge (bridges : Bridges) (F : LineTransform)
    (hb : (Heavy.fft2 a).bridge? = some h) :
    a.fft2 bridges F = transformBridge bridges h a .fft2 := by
  rw [fft2_bridge?_eq, Option.ite_none_right_eq_some] at hb
  obtain ⟨hrank, hbridge⟩ := hb
  unfold fft2
  rw [hrank, hbridge]
  rfl

theorem fft2_of_host (bridges : Bridges) (F : LineTransform)
    (hb : (Heavy.fft2 a).bridge? = none) : a.fft2 bridges F = transformHost F .lastTwo a := by
  rw [fft2_bridge?_eq] at hb
  unfold fft2
  split
  · rename_i hrank hbridge
    rw [if_pos hrank, hbridge] at hb
    exact absurd hb (by simp)
  · rfl

theorem offline_fft2 (bridges : Bridges) (F : LineTransform)
    (hb : (Heavy.fft2 a).bridge? = none) : (a.fft2 bridges F).Offline := by
  rw [fft2_of_host bridges F hb]
  exact offline_transformHost F .lastTwo a

/-- **The calls of a transform over the last two axes.** -/
theorem calls_of_fft2 (hfault : ∀ k w', a.fft2 bridges F w ≠ (.error (.fault k), w')) :
    ∃ added, (a.fft2 bridges F w).2.calls = w.calls ++ added ∧
      (Heavy.fft2 a).Calls bridges w added := by
  cases hb : (Heavy.fft2 a).bridge? with
  | none => exact Heavy.exists_calls_of_none hb ((offline_fft2 bridges F hb).calls_eq w)
  | some h =>
    rw [fft2_of_bridge bridges F hb] at hfault ⊢
    exact Heavy.exists_calls_of_some hb (calls_of_asked hfault)

end Transforms

/-! ### What all calls have in common -/

/-- An array that has a bridge is on its device. -/
theorem device_of_bridge? (hb : a.bridge? = some h) : a.device = .accelerated h := by
  obtain ⟨_, _, _, d⟩ := a
  cases d with
  | host => exact absurd hb (by simp [NDArray.bridge?, Device.bridge?])
  | accelerated h' => exact congrArg Device.accelerated (Option.some.inj hb)

/-- **A call to a bridge** all of whose arrays are flagged for it. -/
def Call.Flagged (h : Handle) (call : Call) : Prop :=
  call.bridge = h ∧ ∀ a ∈ call.request.arrays, a.device = .accelerated h

/-- What a bridge is asked is flagged for it, if the source is. -/
theorem Asks.flagged {before : Store} {request : NDArray → Request} {added : List Call}
    (hasks : Asks before h shape dt d request added)
    (hrequest : ∀ dst, dst.device = d → ∀ a ∈ (request dst).arrays, a.device = .accelerated h) :
    ∀ call ∈ added, call.Flagged h := by
  obtain ⟨dst, found, -, hblank, rfl⟩ := hasks
  intro call hcall
  obtain rfl := List.mem_singleton.1 hcall
  exact ⟨rfl, hrequest dst hblank.device_eq⟩

/-- A source and a destination on its device are flagged alike. -/
theorem device_of_mem_pair {src dst x : NDArray} (hsrc : src.device = d) (hdst : dst.device = d)
    (hx : x ∈ [src, dst]) : x.device = d := by
  rcases List.mem_cons.1 hx with rfl | hx
  · exact hsrc
  · rwa [List.mem_singleton.1 hx]

/-- Operands are announced with the flag of the bridge, wherever they are. -/
theorem flagged_announcement (bridges : Bridges) (w : World) (h : Handle) (lhs rhs : NDArray) :
    ∀ call ∈ Heavy.announcement bridges w h lhs rhs, call.Flagged h := by
  -- either call passes one operand
  have hone : ∀ (a : NDArray) (found : Store),
      Call.Flagged h ⟨h, .handleArray (a.withDevice (.accelerated h)), found⟩ := fun a found =>
    ⟨rfl, fun x hx => by rw [List.mem_singleton.1 hx]; rfl⟩
  intro call hcall
  unfold Heavy.announcement at hcall
  dsimp only at hcall
  split at hcall
  · rcases List.mem_cons.1 hcall with rfl | hcall
    · exact hone lhs _
    · rw [List.mem_singleton.1 hcall]
      exact hone rhs _
  · rw [List.mem_singleton.1 hcall]
    exact hone lhs _

/-- **Every call to the bridge of an operation** passes arrays that are flagged for it. -/
theorem Heavy.CallsTo.flagged {heavy : Heavy} {added : List Call} (hb : heavy.bridge? = some h)
    (hcalls : heavy.CallsTo bridges w h added) : ∀ call ∈ added, call.Flagged h := by
  cases heavy with
  | dot lhs rhs =>
    obtain rfl := hcalls
    exact flagged_announcement bridges w h lhs rhs
  | matmul lhs rhs =>
    obtain ⟨m, p, n, -, -, hasks⟩ := hcalls
    refine hasks.flagged fun dst hdst a ha => ?_
    simp only [Request.arrays, List.mem_cons, List.not_mem_nil, or_false] at ha
    -- both operands are passed with the flag, and the destination was made on the device
    rcases ha with rfl | rfl | rfl
    · rfl
    · rfl
    · exact hdst
  | lu a =>
    obtain ⟨-, hbridge⟩ := Option.ite_none_right_eq_some.1 hb
    have hdevice := device_of_bridge? hbridge
    obtain ⟨n, b, factors, pivots, found, -, -, -, -, hfactors, hpivots, -, rfl⟩ := hcalls
    intro call hcall
    obtain rfl := List.mem_singleton.1 hcall
    exact ⟨rfl, fun x => device_of_mem_pair (hfactors.device_eq.trans hdevice)
      (hpivots.device_eq.trans hdevice)⟩
  | fft a =>
    obtain ⟨-, hbridge⟩ := Option.ite_none_right_eq_some.1 hb
    have hdevice := device_of_bridge? hbridge
    exact Asks.flagged hcalls fun dst hdst x => device_of_mem_pair hdevice (hdst.trans hdevice)
  | fft2 a =>
    obtain ⟨-, hbridge⟩ := Option.ite_none_right_eq_some.1 hb
    have hdevice := device_of_bridge? hbridge
    exact Asks.flagged hcalls fun dst hdst x => device_of_mem_pair hdevice (hdst.trans hdevice)

/-- **The calls of an operation go to one bridge.** -/
theorem Heavy.Calls.flagged {heavy : Heavy} {added : List Call}
    (hcalls : heavy.Calls bridges w added) : ∃ handle, ∀ call ∈ added, call.Flagged handle := by
  unfold Heavy.Calls at hcalls
  cases hb : heavy.bridge? with
  | none =>
    rw [hb] at hcalls
    obtain rfl : added = [] := hcalls
    -- without a call any bridge will do
    exact ⟨⟨0, ""⟩, fun call hcall => absurd hcall List.not_mem_nil⟩
  | some h =>
    rw [hb] at hcalls
    exact ⟨h, Heavy.CallsTo.flagged hb hcalls⟩

end Strided
