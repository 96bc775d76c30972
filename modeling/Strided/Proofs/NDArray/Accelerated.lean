import Strided.Proofs.NDArray.Offline
import Strided.Proofs.NDArray.Results

/-!
# Products on accelerators agree with products on the host

`NDArray.matmul` and `NDArray.dot` have two ways to a product: the host multiplies operands that
are flagged for it, and if an operand is accelerated its bridge is involved. With bridges that
multiply as the host does (`Bridges.Multiply`) the ways cannot be told apart, but for the device
of the result: `NDArray.accelerated_agrees_with_host`.

For `dot` this is short, since the bridge only takes note of the operands. For `matmul` the two
ways have hardly a step in common. The bridge is handed an array that has been made for it, works
in a store with one buffer more, multiplies into an array of its own and copies that one over.
`NDArray.HasProduct` is what both have to find: the block of the product and a layout for it.
Either way gives a result exactly when there is one (`matmulHost_eq_ok`, `matmulBridge_eq_ok`),
and leaves the block in the buffer of the result.

What carries this over from one store to the other is that the operands are `NDArray.Stored`: a
store that only adds buffers then reads the same (`toDense_of_agrees`).
-/

namespace Strided

/-- **Bridges that multiply as the host does**: operands to come are noted, and the product of the
host-flagged operands is copied to the destination. -/
structure Bridges.Multiply (bridges : Bridges) : Prop where
  handleArray_eq : ∀ h a w, bridges h (.handleArray a) w = (.done, w.store)
  matmul_eq : ∀ h lhs rhs dst w,
    bridges h (.matmul lhs rhs dst) w = Bridge.byAction (Bridge.multiply lhs rhs dst) w

/-- So does the reference bridge, as long as it refuses nothing. -/
theorem Bridge.multiply_reference :
    Bridges.Multiply fun h => Bridge.reference h.name fun _ => none :=
  ⟨fun _ _ _ => rfl, fun _ _ _ _ _ => rfl⟩

theorem Bridge.byAction_of_ok {x : Action Unit} {w w' : World} (h : x w = (.ok (), w')) :
    byAction x w = (.done, w'.store) := by
  unfold byAction
  rw [h]

/-- A computation that answers for a bridge has had a result. -/
theorem Bridge.exists_of_byAction {x : Action Unit} {w : World} {u : Unit}
    (h : Action.ofResponse (byAction x w).1 = .ok u) : ∃ w', x w = (.ok (), w') := by
  unfold byAction at h
  rcases hx : x w with ⟨(e | f) | v, w'⟩
  · rw [hx] at h
    exact absurd h (by simp [Action.ofResponse])
  · rw [hx] at h
    exact absurd h (by simp [Action.ofResponse])
  · exact ⟨w', rfl⟩

namespace NDArray

variable {s s' : Store} {lhs rhs : NDArray} {m p n : Nat} {w w' : World} {r : NDArray}

/-- **The storage of the array is in the store.** -/
def Stored (s : Store) (a : NDArray) : Prop := ∃ b, s.buffer? a.storage = some b

theorem toDense_of_agrees {a : NDArray} (ha : a.Stored s) (hs : s.Agrees s') (dt : DType) :
    a.toDense s' dt = a.toDense s dt := by
  obtain ⟨b, hb⟩ := ha
  unfold toDense
  rw [toList_congr ((hs _ _ hb).trans hb.symm)]

/-! ### The product to be found -/

/-- The product of the elements of two matrices. -/
def matmulElements (s : Store) (lhs rhs : NDArray) (dt : DType) (N : Numeric dt.Elem)
    (m p n : Nat) : Answer (Dense dt.Elem) := do
  let a ← lhs.toDense s dt
  let b ← rhs.toDense s dt
  Dense.matmul N m p n a b

/-- They are a block of the right shape, which fits the memory. -/
theorem full_of_matmulElements {dt : DType} {N : Numeric dt.Elem} {c : Dense dt.Elem}
    (h : matmulElements s lhs rhs dt N m p n = .ok c) : c.shape = ⟨[m, n]⟩ ∧ c.Full := by
  unfold matmulElements at h
  rw [Checked.bind_eq_ok] at h
  obtain ⟨a, -, h⟩ := h
  rw [Checked.bind_eq_ok] at h
  obtain ⟨b, -, h⟩ := h
  have hc := Checked.lift_eq_ok.1 h
  exact ⟨Dense.shape_of_matmul hc, Dense.full_of_matmul hc⟩

/-- **The product of two matrices**, a block of elements and a row-major layout for it. -/
structure HasProduct (s : Store) (lhs rhs : NDArray) (m p n : Nat) (c : Dense lhs.dt.Elem)
    (v : View) : Prop where
  elements_eq : ∃ N, lhs.dt.numeric? = some N ∧ matmulElements s lhs rhs lhs.dt N m p n = .ok c
  numel_eq : Shape.numel ⟨[m, n]⟩ = .ok c.items.size
  view_eq : View.contiguous ⟨[m, n]⟩ = .ok v

namespace HasProduct

variable {c : Dense lhs.dt.Elem} {v : View}

/-- A store that only has more buffers gives the same product. -/
theorem of_agrees (hlhs : lhs.Stored s) (hrhs : rhs.Stored s) (hs : s.Agrees s') :
    HasProduct s' lhs rhs m p n c v ↔ HasProduct s lhs rhs m p n c v := by
  have heq : ∀ N, matmulElements s' lhs rhs lhs.dt N m p n
      = matmulElements s lhs rhs lhs.dt N m p n := by
    intro N
    unfold matmulElements
    rw [toDense_of_agrees hlhs hs, toDense_of_agrees hrhs hs]
  constructor
  · rintro ⟨⟨N, hN, hc⟩, hnumel, hview⟩
    exact ⟨⟨N, hN, (heq N).symm.trans hc⟩, hnumel, hview⟩
  · rintro ⟨⟨N, hN, hc⟩, hnumel, hview⟩
    exact ⟨⟨N, hN, (heq N).trans hc⟩, hnumel, hview⟩

/-- The block has the shape of the product, and an element at each of its indices. -/
theorem full (h : HasProduct s lhs rhs m p n c v) : c.shape = ⟨[m, n]⟩ ∧ c.Full := by
  obtain ⟨N, -, hc⟩ := h.elements_eq
  exact full_of_matmulElements hc

/-- A new buffer of its elements makes a whole array. -/
theorem whole (h : HasProduct s lhs rhs m p n c v) (s₁ : Store) (d : Device) :
    Whole (s₁.push ⟨lhs.dt, c.items⟩) ⟨s₁.nextId, v, lhs.dt, d⟩ c.items :=
  .new h.numel_eq h.view_eq h.full.2.fits s₁ d

end HasProduct

/-! ### The two ways to it -/

/-- **The host makes an array of the product**, if there is one. -/
theorem matmulHost_eq_ok : matmulHost lhs rhs m p n w = (.ok r, w') ↔
    ∃ c v, HasProduct w.store lhs rhs m p n c v ∧ r = ⟨w.store.nextId, v, lhs.dt, .host⟩ ∧
      w' = { w with store := w.store.push ⟨lhs.dt, c.items⟩ } := by
  -- the host reads the product off the store, and makes an array of what it has read
  have hrun : ∀ N, lhs.dt.numeric? = some N → matmulHost lhs rhs m p n
      = (Action.read fun s => matmulElements s lhs rhs lhs.dt N m p n) >>= ofDense lhs.dt := by
    intro N hN
    unfold matmulHost
    rw [hN]
    rfl
  constructor
  · intro h
    cases hN : lhs.dt.numeric? with
    | none =>
      unfold matmulHost at h
      rw [hN] at h
      exact absurd (congrArg Prod.fst h) (by simp [reject])
    | some N =>
      rw [hrun N hN, Action.bind_read_eq_ok] at h
      obtain ⟨c, hc, h⟩ := h
      obtain ⟨hshape, hfull⟩ := full_of_matmulElements hc
      obtain ⟨⟨k, hk⟩, v, hv, hr, hw⟩ := ofBuffer_eq_ok.1 h
      -- the layout is that of the block, which has all its elements
      have hcount : k = c.items.size := (Shape.eq_volume_of_numel hk).trans hfull.size_eq.symm
      rw [hcount, hshape] at hk
      rw [hshape] at hv
      exact ⟨c, v, ⟨⟨N, hN, hc⟩, hk, hv⟩, hr, hw⟩
  · rintro ⟨c, v, hp, rfl, rfl⟩
    obtain ⟨N, hN, hc⟩ := hp.elements_eq
    rw [hrun N hN, Action.bind_read_eq_ok]
    refine ⟨c, hc, ofBuffer_eq_ok.2 ?_⟩
    rw [hp.full.1]
    exact ⟨⟨_, hp.numel_eq⟩, v, hp.view_eq, rfl, rfl⟩

/-- The host does not look at the flags of its operands. -/
theorem matmulHost_withDevice (lhs rhs : NDArray) (d₁ d₂ : Device) (m p n : Nat) :
    matmulHost (lhs.withDevice d₁) (rhs.withDevice d₂) m p n = matmulHost lhs rhs m p n := by
  unfold matmulHost
  dsimp only [withDevice]
  cases lhs.dt.numeric? <;> rfl

theorem dotHost_withDevice (lhs rhs : NDArray) (d₁ d₂ : Device) :
    dotHost (lhs.withDevice d₁) (rhs.withDevice d₂) = dotHost lhs rhs := by
  unfold dotHost
  dsimp only [withDevice]
  cases lhs.dt.numeric? <;> rfl

/-- Operands flagged for the host are multiplied there, whatever the bridges do. -/
theorem matmul_of_host (bridges : Bridges) (hdt : lhs.dt = rhs.dt)
    (hsizes : matmulSizes lhs rhs = .ok (m, p, n)) (w : World) :
    (lhs.withDevice .host).matmul bridges (rhs.withDevice .host) w
      = matmulHost lhs rhs m p n w := by
  have hsame : checkSameDType (lhs.withDevice .host) (rhs.withDevice .host) = .ok () := if_pos hdt
  have hsizes' : matmulSizes (lhs.withDevice .host) (rhs.withDevice .host) = .ok (m, p, n) := hsizes
  have hselect : selectBridge (lhs.withDevice .host) (rhs.withDevice .host) = none := rfl
  unfold matmul
  rw [Action.bind_answer_ok hsame, Action.bind_answer_ok hsizes']
  dsimp only
  rw [hselect]
  dsimp only
  rw [matmulHost_withDevice]

section Bridges

variable {bridges : Bridges} {h : Handle} {c : Dense lhs.dt.Elem} {v : View} {storage : StorageId}
  {d : Device} {cells : Array lhs.dt.Elem}

/-- **A bridge that multiplies fills its destination** with the product, which it has made in a
buffer of its own. -/
theorem multiply_eq (hdt : lhs.dt = rhs.dt)
    (hsizes : matmulSizes lhs rhs = .ok (m, p, n)) (hp : HasProduct w.store lhs rhs m p n c v)
    (hdst : Whole w.store ⟨storage, v, lhs.dt, d⟩ cells) :
    Bridge.multiply lhs rhs ⟨storage, v, lhs.dt, d⟩ w = (.ok (), { w with
      store := (w.store.push ⟨lhs.dt, c.items⟩).replace storage ⟨lhs.dt, c.items⟩ }) := by
  -- the bridge goes to the host with operands flagged for it
  have hhost : (lhs.withDevice .host).matmul Bridge.idle (rhs.withDevice .host) w
      = (.ok ⟨w.store.nextId, v, lhs.dt, .host⟩,
        { w with store := w.store.push ⟨lhs.dt, c.items⟩ }) := by
    rw [matmul_of_host _ hdt hsizes]
    exact matmulHost_eq_ok.2 ⟨c, v, hp, rfl, rfl⟩
  have hproduct := hp.whole w.store .host
  -- the destination is not the buffer of the product, so it has kept its cells
  have hdst' : Whole (w.store.push ⟨lhs.dt, c.items⟩) ⟨storage, v, lhs.dt, d⟩ cells :=
    hdst.mono (.push _ _)
  have hlen : c.items.toList.length = cells.size :=
    Except.ok.inj (hproduct.numel_eq.symm.trans hdst.numel_eq)
  have hcopy : copyFrom ⟨storage, v, lhs.dt, d⟩ ⟨w.store.nextId, v, lhs.dt, .host⟩
      { w with store := w.store.push ⟨lhs.dt, c.items⟩ } = Action.write _ _ _ _ :=
    copyFrom_of_gather rfl rfl hproduct.gather_eq
  exact (Action.bind_of_ok hhost).trans (hcopy.trans (hdst'.write_eq hlen))

/-- The call succeeds. -/
theorem call_matmul_of_product (hb : bridges.Multiply) (h : Handle) (d₁ d₂ : Device)
    (hdt : lhs.dt = rhs.dt) (hsizes : matmulSizes lhs rhs = .ok (m, p, n))
    (hp : HasProduct w.store lhs rhs m p n c v)
    (hdst : Whole w.store ⟨storage, v, lhs.dt, d⟩ cells) :
    ∃ w', Action.call bridges h
        (.matmul (lhs.withDevice d₁) (rhs.withDevice d₂) ⟨storage, v, lhs.dt, d⟩) w = (.ok (), w') ∧
      Whole w'.store ⟨storage, v, lhs.dt, d⟩ c.items := by
  have hdevices : Bridge.multiply (lhs.withDevice d₁) (rhs.withDevice d₂)
      ⟨storage, v, lhs.dt, d⟩ = Bridge.multiply lhs rhs ⟨storage, v, lhs.dt, d⟩ := rfl
  have hanswer := fun r => Bridge.byAction_of_ok
    (multiply_eq (w := Action.listing h r w) hdt hsizes hp hdst)
  rw [Action.call_eq, hb.matmul_eq, hdevices, hanswer]
  refine ⟨_, rfl, ?_⟩
  -- the product replaces as many cells
  have hsize : c.items.size = cells.size :=
    Except.ok.inj ((hp.whole w.store d).numel_eq.symm.trans hdst.numel_eq)
  exact (hdst.mono (.push _ _)).replace hsize

/-- **A bridge makes an array of the product**, if there is one. -/
theorem matmulBridge_of_product (hb : bridges.Multiply) (h : Handle) (hlhs : lhs.Stored w.store)
    (hrhs : rhs.Stored w.store) (hdt : lhs.dt = rhs.dt)
    (hsizes : matmulSizes lhs rhs = .ok (m, p, n)) (hp : HasProduct w.store lhs rhs m p n c v) :
    ∃ w', matmulBridge bridges h lhs rhs m n w
        = (.ok ⟨w.store.nextId, v, lhs.dt, .accelerated h⟩, w') ∧
      Whole w'.store ⟨w.store.nextId, v, lhs.dt, .accelerated h⟩ c.items := by
  -- the destination is an array of zeros with the layout of the product
  have hempty : empty ⟨[m, n]⟩ lhs.dt (.accelerated h) w
      = (.ok ⟨w.store.nextId, v, lhs.dt, .accelerated h⟩, { w with
          store := w.store.push ⟨lhs.dt, Array.replicate c.items.size lhs.dt.zero⟩ }) :=
    zeros_eq_ok.2 ⟨_, hp.numel_eq, hp.full.2.fits, v, hp.view_eq, rfl, rfl⟩
  have hsize : (Array.replicate c.items.size lhs.dt.zero).size = c.items.size :=
    Array.size_replicate
  have hblank := Whole.new (hp.numel_eq.trans (congrArg Except.ok hsize.symm)) hp.view_eq
    (hp.full.2.fits.congr rfl hsize) w.store (.accelerated h)
  -- the bridge finds the product in the larger store as well
  have hp' := (HasProduct.of_agrees hlhs hrhs (.push w.store
    ⟨lhs.dt, Array.replicate c.items.size lhs.dt.zero⟩)).2 hp
  obtain ⟨w', hcall, hfilled⟩ := call_matmul_of_product (w := { w with
      store := w.store.push ⟨lhs.dt, Array.replicate c.items.size lhs.dt.zero⟩ })
    hb h (.accelerated h) (.accelerated h) hdt hsizes hp' hblank
  exact ⟨w', (Action.bind_of_ok hempty).trans (Action.bind_of_ok hcall), hfilled⟩

/-- **A bridge that has made an array** has found the product. -/
theorem product_of_matmulBridge (hb : bridges.Multiply) (hlhs : lhs.Stored w.store)
    (hrhs : rhs.Stored w.store) (hdt : lhs.dt = rhs.dt)
    (hsizes : matmulSizes lhs rhs = .ok (m, p, n))
    (hrun : matmulBridge bridges h lhs rhs m n w = (.ok r, w')) :
    ∃ c v, HasProduct w.store lhs rhs m p n c v := by
  unfold matmulBridge at hrun
  rw [Action.bind_eq_ok] at hrun
  obtain ⟨dst, w₁, hempty, hrun⟩ := hrun
  rw [Action.bind_eq_ok] at hrun
  obtain ⟨u, w₂, hcall, -⟩ := hrun
  rw [Action.call_eq, hb.matmul_eq] at hcall
  -- a bridge that answers has multiplied, and that is done on the host
  obtain ⟨w₃, hmultiply⟩ := Bridge.exists_of_byAction (Prod.mk.inj hcall).1
  unfold Bridge.multiply at hmultiply
  rw [Action.bind_eq_ok] at hmultiply
  obtain ⟨product, w₄, hproduct, -⟩ := hmultiply
  have hhost := matmul_of_host Bridge.idle hdt hsizes
  have hflags : ∀ (a : NDArray) (d d' : Device),
      (a.withDevice d).withDevice d' = a.withDevice d' := fun _ _ _ => rfl
  rw [hflags, hflags, hhost, matmulHost_eq_ok] at hproduct
  obtain ⟨c, v, hp, -⟩ := hproduct
  exact ⟨c, v, (HasProduct.of_agrees hlhs hrhs (adds_zeros _ _ _ w _ w₁ hempty)).1 hp⟩

end Bridges

/-! ### Agreement -/

/-- **Two runs that give the same product**: one has a result if the other one has, and the
results have the same shape and the same elements, of type `dt`. The first one is on the device
`d`. -/
structure SameProduct (dt : DType) (d : Device) (x y : Answer NDArray × World) : Prop where
  ok_iff : (∃ r, x.1 = .ok r) ↔ ∃ r, y.1 = .ok r
  device_eq : ∀ r, x.1 = .ok r → r.device = d
  results_eq : ∀ r r', x.1 = .ok r → y.1 = .ok r' → r.shape = r'.shape ∧ r.dt = dt ∧ r'.dt = dt ∧
    ∃ items, r.toList x.2.store dt = .ok items ∧ r'.toList y.2.store dt = .ok items

/-- Runs that fail give the same product, none. -/
theorem SameProduct.of_error {dt : DType} {d : Device} {x y : Answer NDArray × World}
    {e e' : Failure} (hx : x.1 = .error e) (hy : y.1 = .error e') : SameProduct dt d x y where
  ok_iff := by
    rw [hx, hy]
    simp
  device_eq r h := by
    rw [hx] at h
    exact absurd h (by simp)
  results_eq r r' h := by
    rw [hx] at h
    exact absurd h (by simp)

/-- **Why two matrices have no product**: they have different element types, one of them is no
matrix, or they do not fit each other. Of several reasons the first one counts. -/
def matmulMismatch? (lhs rhs : NDArray) : Option ArrayError :=
  if lhs.dt ≠ rhs.dt then some (.dtypeMismatch lhs.dt rhs.dt)
  else if lhs.rank ≠ 2 then some (.rankMismatch 2 lhs.rank)
  else if rhs.rank ≠ 2 then some (.rankMismatch 2 rhs.rank)
  else if lhs.shape.dims[1]? ≠ rhs.shape.dims[0]? then some (.shapeMismatch lhs.shape rhs.shape)
  else none

/-- Matrices that fit each other pass the checks. -/
theorem sizes_of_matmulMismatch? (h : matmulMismatch? lhs rhs = none) :
    lhs.dt = rhs.dt ∧ ∃ m p n, matmulSizes lhs rhs = .ok (m, p, n) := by
  obtain ⟨_, ⟨⟨l⟩, _, _⟩, dt, _⟩ := lhs
  obtain ⟨_, ⟨⟨r⟩, _, _⟩, dt', _⟩ := rhs
  unfold matmulMismatch? at h
  split_ifs at h with hdt hl hr hinner
  rw [not_not] at hdt hl hr hinner
  -- two matrices with one inner length
  obtain ⟨m, p, rfl⟩ := List.length_eq_two.1 hl
  obtain ⟨q, n, rfl⟩ := List.length_eq_two.1 hr
  obtain rfl : p = q := Option.some.inj hinner
  exact ⟨hdt, m, p, n, if_pos rfl⟩

/-- The left operand is looked at first. -/
private theorem matmulSizes_of_left (h : lhs.rank ≠ 2) (rhs : NDArray) :
    matmulSizes lhs rhs = reject (.rankMismatch 2 lhs.rank) := by
  unfold matmulSizes
  split
  · rename_i heq _
    exact absurd (congrArg List.length heq) h
  · rename_i heq _
    exact absurd (congrArg List.length heq) h
  · rfl

/-- The right operand is looked at if the left one is a matrix. -/
private theorem matmulSizes_of_right (hl : lhs.rank = 2) (h : rhs.rank ≠ 2) :
    matmulSizes lhs rhs = reject (.rankMismatch 2 rhs.rank) := by
  obtain ⟨m, p, hdims⟩ := List.length_eq_two.1 hl
  unfold matmulSizes
  rw [hdims]
  split
  · rename_i heq
    exact absurd (congrArg List.length heq) h
  · rfl
  · rename_i hne _
    exact absurd rfl (hne m p)

/-- **All others are refused**, on every device, before anything else happens. -/
theorem matmul_of_matmulMismatch? (lhs rhs : NDArray) {e : ArrayError}
    (h : matmulMismatch? lhs rhs = some e) (bridges : Bridges) (w : World) :
    lhs.matmul bridges rhs w = (.error (.rejected e), w) := by
  -- the element types are checked first, and after that only the sizes can refuse
  have hsizes : lhs.dt = rhs.dt → matmulSizes lhs rhs = reject e →
      lhs.matmul bridges rhs w = (.error (.rejected e), w) := by
    intro hdt hsizes
    have hsame : checkSameDType lhs rhs = .ok () := if_pos hdt
    unfold matmul
    rw [Action.bind_answer_ok hsame]
    exact Action.bind_answer_error hsizes _ w
  unfold matmulMismatch? at h
  split_ifs at h with hdt hl hr hinner
  · obtain rfl := Option.some.inj h
    exact Action.bind_answer_error (if_neg hdt) _ w
  · obtain rfl := Option.some.inj h
    exact hsizes (not_not.1 hdt) (matmulSizes_of_left hl rhs)
  · obtain rfl := Option.some.inj h
    exact hsizes (not_not.1 hdt) (matmulSizes_of_right (not_not.1 hl) hr)
  · obtain rfl := Option.some.inj h
    refine hsizes (not_not.1 hdt) ?_
    obtain ⟨m, p, hdims⟩ := List.length_eq_two.1 (not_not.1 hl)
    obtain ⟨q, n, hdims'⟩ := List.length_eq_two.1 (not_not.1 hr)
    unfold matmulSizes
    rw [hdims, hdims'] at hinner ⊢
    exact if_neg fun hpq => hinner (congrArg some hpq)

section Agreement

variable {bridges : Bridges} {h : Handle}

/-- **Matrix products agree.** -/
theorem sameProduct_matmul (hb : bridges.Multiply) (hlhs : lhs.Stored w.store)
    (hrhs : rhs.Stored w.store) (hselect : selectBridge lhs rhs = some h) :
    SameProduct lhs.dt (.accelerated h) (lhs.matmul bridges rhs w)
      ((lhs.withDevice .host).matmul bridges (rhs.withDevice .host) w) := by
  cases hmismatch : matmulMismatch? lhs rhs with
  | some e =>
    -- a mismatch is refused before the devices are looked at
    have hrefused := fun d d' => matmul_of_matmulMismatch? (lhs.withDevice d) (rhs.withDevice d')
      hmismatch bridges w
    exact .of_error (congrArg Prod.fst (hrefused lhs.device rhs.device))
      (congrArg Prod.fst (hrefused .host .host))
  | none =>
    obtain ⟨hdt, m, p, n, hsizes⟩ := sizes_of_matmulMismatch? hmismatch
    have hbridge : lhs.matmul bridges rhs w = matmulBridge bridges h lhs rhs m n w := by
      have hsame : checkSameDType lhs rhs = .ok () := if_pos hdt
      unfold matmul
      rw [Action.bind_answer_ok hsame, Action.bind_answer_ok hsizes, hselect]
    rw [hbridge, matmul_of_host bridges hdt hsizes]
    -- whatever product either way finds, the other one finds it too
    have hproduct : ∀ r, (matmulBridge bridges h lhs rhs m n w).1 = .ok r →
        ∃ c v, HasProduct w.store lhs rhs m p n c v := fun r hr =>
      product_of_matmulBridge hb hlhs hrhs hdt hsizes (Prod.ext hr rfl)
    refine ⟨⟨?_, ?_⟩, ?_, ?_⟩
    · rintro ⟨r, hr⟩
      obtain ⟨c, v, hp⟩ := hproduct r hr
      exact ⟨_, congrArg Prod.fst (matmulHost_eq_ok.2 ⟨c, v, hp, rfl, rfl⟩)⟩
    · rintro ⟨r, hr⟩
      obtain ⟨c, v, hp, -⟩ := matmulHost_eq_ok.1 (Prod.ext hr rfl)
      obtain ⟨w', hrun, -⟩ := matmulBridge_of_product hb h hlhs hrhs hdt hsizes hp
      exact ⟨_, congrArg Prod.fst hrun⟩
    · intro r hr
      obtain ⟨c, v, hp⟩ := hproduct r hr
      obtain ⟨w', hrun, -⟩ := matmulBridge_of_product hb h hlhs hrhs hdt hsizes hp
      rw [hrun] at hr
      rw [← Except.ok.inj hr]
    · intro r r' hr hr'
      -- the host's product is the one that the bridge has found
      obtain ⟨c, v, hp, rfl, hw'⟩ := matmulHost_eq_ok.1 (Prod.ext hr' rfl)
      obtain ⟨w', hrun, hfilled⟩ := matmulBridge_of_product hb h hlhs hrhs hdt hsizes hp
      rw [hrun] at hr ⊢
      obtain rfl := Except.ok.inj hr
      refine ⟨rfl, rfl, rfl, c.items.toList, hfilled.toList_eq, ?_⟩
      exact (congrArg (fun w : World => toList w.store _ _) hw').trans
        (hp.whole w.store .host).toList_eq

/-- A bridge that only notes operands leaves all but the list of calls as it is. -/
theorem announce_eq (hb : bridges.Multiply) (h : Handle) (lhs rhs : NDArray) (w : World) :
    ∃ calls, announce bridges h lhs rhs w = (.ok (), { w with calls := calls }) := by
  have hnote : ∀ a w, Action.call bridges h (.handleArray a) w
      = (.ok (), Action.listing h (.handleArray a) w) := by
    intro a w
    rw [Action.call_eq, hb.handleArray_eq]
    rfl
  exact ⟨_, (Action.bind_of_ok (hnote _ w)).trans (hnote _ _)⟩

/-- Operands flagged for the host are multiplied there. -/
theorem dot_of_host (bridges : Bridges) (hdt : lhs.dt = rhs.dt) (w : World) :
    (lhs.withDevice .host).dot bridges (rhs.withDevice .host) w = dotHost lhs rhs w := by
  have hsame : checkSameDType (lhs.withDevice .host) (rhs.withDevice .host) = .ok () := if_pos hdt
  have hselect : selectBridge (lhs.withDevice .host) (rhs.withDevice .host) = none := rfl
  unfold dot
  rw [Action.bind_answer_ok hsame, hselect]
  dsimp only
  rw [dotHost_withDevice]

/-- **Inner products agree** in all they answer, refusals included, but for the device. -/
theorem dot_eq (hb : bridges.Multiply) (hselect : selectBridge lhs rhs = some h) (w : World) :
    (lhs.dot bridges rhs w).1 = ((lhs.withDevice .host).dot bridges (rhs.withDevice .host) w).1.map
        (·.withDevice (.accelerated h)) ∧
      (lhs.dot bridges rhs w).2.store
        = ((lhs.withDevice .host).dot bridges (rhs.withDevice .host) w).2.store := by
  by_cases hdt : lhs.dt = rhs.dt
  · have hsame : checkSameDType lhs rhs = .ok () := if_pos hdt
    obtain ⟨calls, hannounce⟩ := announce_eq hb h lhs rhs w
    have hrun : lhs.dot bridges rhs w = (dotHost lhs rhs >>= fun r =>
        (pure (r.withDevice (.accelerated h)) : Action NDArray)) { w with calls := calls } := by
      unfold dot
      rw [Action.bind_answer_ok hsame, hselect]
      exact Action.bind_of_ok hannounce
    -- the host goes the same way whatever is listed
    have hhost := offline_dotHost lhs rhs w calls
    rw [hrun, dot_of_host bridges hdt]
    rcases hr : dotHost lhs rhs w with ⟨e | r, w'⟩
    · rw [hr] at hhost
      rw [Action.bind_of_error hhost]
      exact ⟨rfl, rfl⟩
    · rw [hr] at hhost
      rw [Action.bind_of_ok hhost]
      exact ⟨rfl, rfl⟩
  · -- different element types are refused on every device
    have hrefused : ∀ d d', (lhs.withDevice d).dot bridges (rhs.withDevice d') w
        = (.error (.rejected (.dtypeMismatch lhs.dt rhs.dt)), w) := fun d d' =>
      Action.bind_answer_error (if_neg hdt) _ w
    have hrefused' : lhs.dot bridges rhs w
        = (.error (.rejected (.dtypeMismatch lhs.dt rhs.dt)), w) := hrefused lhs.device rhs.device
    rw [hrefused, hrefused']
    exact ⟨rfl, rfl⟩

/-- A product on the host can be read. -/
theorem exists_toList_of_dotHost (hrun : dotHost lhs rhs w = (.ok r, w')) :
    r.dt = lhs.dt ∧ ∃ items, r.toList w'.store lhs.dt = .ok items := by
  unfold dotHost at hrun
  cases hN : lhs.dt.numeric? with
  | none =>
    rw [hN] at hrun
    exact absurd (congrArg Prod.fst hrun) (by simp [reject])
  | some N =>
    rw [hN] at hrun
    dsimp only at hrun
    rw [Action.bind_read_eq_ok] at hrun
    obtain ⟨d, hd, hrun⟩ := hrun
    -- a block with all its elements is laid out in a new buffer, and shown from there
    have hfull := full_of_dotElements hd
    obtain ⟨⟨k, hk⟩, v, hv, rfl, rfl⟩ := ofBuffer_eq_ok.1 hrun
    obtain rfl : k = d.items.size := (Shape.eq_volume_of_numel hk).trans hfull.size_eq.symm
    exact ⟨rfl, _, (Whole.new hk hv hfull.fits w.store .host).toList_eq⟩

/-- **Inner products agree**, in the sense of two runs that are compared. -/
theorem sameProduct_dot (hb : bridges.Multiply) (hselect : selectBridge lhs rhs = some h) :
    SameProduct lhs.dt (.accelerated h) (lhs.dot bridges rhs w)
      ((lhs.withDevice .host).dot bridges (rhs.withDevice .host) w) := by
  obtain ⟨hanswer, hstore⟩ := dot_eq hb hselect w
  by_cases hdt : lhs.dt = rhs.dt
  · rw [dot_of_host bridges hdt] at hanswer hstore ⊢
    rcases hr : dotHost lhs rhs w with ⟨e | r, w'⟩
    · rw [hr] at hanswer
      exact .of_error hanswer rfl
    · rw [hr] at hanswer hstore
      obtain ⟨hrdt, items, hitems⟩ := exists_toList_of_dotHost hr
      -- the answers differ by the device, which no list shows
      have hok : (lhs.dot bridges rhs w).1 = .ok (r.withDevice (.accelerated h)) := hanswer
      refine ⟨⟨fun _ => ⟨r, rfl⟩, fun _ => ⟨_, hok⟩⟩, ?_, ?_⟩
      · intro r₁ hr₁
        rw [← Except.ok.inj (hok.symm.trans hr₁)]
        rfl
      · intro r₁ r₂ hr₁ hr₂
        obtain rfl := Except.ok.inj (hok.symm.trans hr₁)
        obtain rfl := Except.ok.inj hr₂
        refine ⟨rfl, hrdt, hrdt, items, ?_, hitems⟩
        rw [hstore]
        exact hitems
  · have hrefused : (lhs.withDevice .host).dot bridges (rhs.withDevice .host) w
        = (.error (.rejected (.dtypeMismatch lhs.dt rhs.dt)), w) :=
      Action.bind_answer_error (if_neg hdt) _ w
    rw [hrefused] at hanswer ⊢
    exact .of_error hanswer rfl

/-- An accelerated operand has a bridge, and the first such operand decides. -/
theorem exists_selectBridge (hacc : lhs.device.isAccelerated ∨ rhs.device.isAccelerated) :
    ∃ h, selectBridge lhs rhs = some h ∧
      (if lhs.device.isAccelerated then lhs.device else rhs.device) = .accelerated h := by
  unfold selectBridge
  rcases hl : lhs.device with _ | h
  · rcases hr : rhs.device with _ | h
    · rw [hl, hr] at hacc
      -- one of the two is accelerated
      exact absurd hacc (by decide)
    · exact ⟨h, rfl, rfl⟩
  · exact ⟨h, rfl, rfl⟩

/-- **Products on accelerators agree with products on the host.** For any two arrays of which one
is accelerated, of whatever shapes, layouts and element types, on one bridge or on two: `matmul`
and `dot` have a result exactly when they have one for the host-flagged operands, the result is on
the device of the first accelerated operand, and its shape, element type and elements are those of
the host's result. Matrices that do not fit each other are refused with the same error, and what
`dot` answers is the same in every case. -/
theorem accelerated_agrees_with_host (hb : bridges.Multiply) (lhs rhs : NDArray) (w : World)
    (hlhs : lhs.Stored w.store) (hrhs : rhs.Stored w.store)
    (hacc : lhs.device.isAccelerated ∨ rhs.device.isAccelerated) :
    let device := if lhs.device.isAccelerated then lhs.device else rhs.device
    let hostMatmul := (lhs.withDevice .host).matmul bridges (rhs.withDevice .host) w
    let hostDot := (lhs.withDevice .host).dot bridges (rhs.withDevice .host) w
    SameProduct lhs.dt device (lhs.matmul bridges rhs w) hostMatmul ∧
      SameProduct lhs.dt device (lhs.dot bridges rhs w) hostDot ∧
      (∀ e, matmulMismatch? lhs rhs = some e →
        (lhs.matmul bridges rhs w).1 = .error (.rejected e) ∧
          hostMatmul.1 = .error (.rejected e)) ∧
      (lhs.dot bridges rhs w).1 = hostDot.1.map (·.withDevice device) := by
  obtain ⟨h, hselect, hdevice⟩ := exists_selectBridge hacc
  rw [hdevice]
  refine ⟨sameProduct_matmul hb hlhs hrhs hselect, sameProduct_dot hb hselect, ?_,
    (dot_eq hb hselect w).1⟩
  intro e he
  have hrefused := fun d d' => matmul_of_matmulMismatch? (lhs.withDevice d) (rhs.withDevice d')
    he bridges w
  exact ⟨congrArg Prod.fst (hrefused lhs.device rhs.device),
    congrArg Prod.fst (hrefused .host .host)⟩

end Agreement

/-- The transpose of the matrix `1 2 3` over `4 5 6`. -/
def upright : NDArray := ⟨0, ⟨⟨[3, 2]⟩, ⟨[1, 3]⟩, 0⟩, .i32, .host⟩

/-- The transpose on an accelerator. -/
def tall : NDArray := upright.withDevice (.accelerated ⟨0, "a"⟩)

/-- The accelerator of the second operand finds the product of the host. -/
theorem accelerated_agrees_with_host_transpose :
    let bridges : Bridges := fun h => Bridge.reference h.name fun _ => none
    let host := ((inRows 2 3).withDevice .host).matmul bridges (tall.withDevice .host) (counting 6)
    bridges.Multiply ∧ (inRows 2 3).Stored (counting 6).store ∧ tall.Stored (counting 6).store ∧
      tall.device.isAccelerated ∧
      host.1.bind (fun r => r.toList host.2.store .i32) = .ok [14, 32, 32, 77] ∧
      SameProduct .i32 tall.device ((inRows 2 3).matmul bridges tall (counting 6)) host :=
  ⟨Bridge.multiply_reference, ⟨_, rfl⟩, ⟨_, rfl⟩, rfl, rfl,
    (accelerated_agrees_with_host Bridge.multiply_reference (inRows 2 3) tall (counting 6)
      ⟨_, rfl⟩ ⟨_, rfl⟩ (.inr rfl)).1⟩

end NDArray

end Strided
