import Strided.Proofs.Dense
import Strided.Proofs.NDArray.Accelerated
import Strided.Proofs.NDArray.RowMajor

/-!
# Products of integers on the host

The products of integer arrays are the products of mathematics: every entry is the exact sum of the
products of a row and a column, whatever the layouts of the operands are and whatever way of summing
is taken, if the magnitudes of these products add up to a number of the element type. Vectors are
no special case: an array on the left has its axes `lead` and an inner one, an array on the right an
inner one and its axes `trail`, and the product has the axes `lead` and `trail`, of which there are
none on the side of a vector.

What is assumed of the operands is in `NDArray.Operand`. `NDArray.MultipliesIntegers` says what a
product of two such operands comes to: an array, or nothing if there is no memory for the elements
of the operands or of the product. An inner axis of no elements makes that possible with operands
that have no elements at all.
-/

namespace Strided

open Shape Strides

/-! ### Integer types -/

namespace DType

/-- The types of integers. -/
def IsInteger (dt : DType) : Prop := dt = .i32 ∨ dt = .i64 ∨ dt = .u32

instance (dt : DType) : Decidable dt.IsInteger := inferInstanceAs (Decidable (_ ∨ _))

/-- **The integer** that an element is, if it is one. -/
def toInt : (dt : DType) → dt.Elem → Int
  | .i32, x => Int32.toInt x
  | .i64, x => Int64.toInt x
  | .u32, x => UInt32.toNat x
  | _, _ => 0

/-- **The largest integer** of a type. -/
def largest : DType → Nat
  | .i32 => 2147483647
  | .i64 => 9223372036854775807
  | .u32 => 4294967295
  | _ => 0

/-- The arithmetic of integers is exact up to the largest one. -/
theorem exists_exact {dt : DType} (h : dt.IsInteger) :
    ∃ N, dt.numeric? = some N ∧ N.Exact dt.toInt dt.largest := by
  rcases h with rfl | rfl | rfl
  · exact ⟨_, rfl, Numeric.exact_int32⟩
  · exact ⟨_, rfl, Numeric.exact_int64⟩
  · exact ⟨_, rfl, Numeric.exact_uint32⟩

end DType

namespace NDArray

variable {s : Store} {lhs rhs a : NDArray} {cells : Array lhs.dt.Elem} {cells' : Array rhs.dt.Elem}
  {w : World} {m p q n : Nat} {lead trail : List Nat}

/-! ### Operands -/

/-- **An operand on the host** that can be walked and made a block. -/
structure Operand (s : Store) (a : NDArray) (cells : Array a.dt.Elem) : Prop where
  backed : a.Backed s cells
  fits : (Buffer.mk a.dt cells).Fits
  walks : a.view.Walks cells.size
  dense : a.shape.Dense
  device_eq : a.device = .host

/-- There is memory for the elements of the array, each repetition counted. -/
def RoomToRead (a : NDArray) : Prop := a.dt.bytes * volume a.shape.dims < signedBound

instance (a : NDArray) : Decidable a.RoomToRead := inferInstanceAs (Decidable (_ < _))

/-- **There is memory** for the elements of both operands and of their product. -/
structure RoomToMultiply (lhs rhs : NDArray) (product : List Nat) : Prop where
  left : lhs.RoomToRead
  right : rhs.RoomToRead
  product : lhs.dt.bytes * volume product < signedBound

theorem shape_of_toDense {dt : DType} {b : Dense dt.Elem} (h : a.toDense s dt = .ok b) :
    b.shape = a.shape := by
  unfold toDense at h
  rw [Checked.bind_eq_ok] at h
  obtain ⟨items, -, h⟩ := h
  split at h
  · rw [← Except.ok.inj h]
  · exact absurd h (by simp [reject])

namespace Operand

variable {cells : Array a.dt.Elem}

/-- **An operand is read into a block** that spells its elements, if there is memory for them. -/
theorem toDense_of_room (h : Operand s a cells) (hroom : a.RoomToRead) :
    ∃ b : Dense a.dt.Elem, a.toDense s a.dt = .ok b ∧ b.shape = a.shape ∧
      Spells a.shape.dims (a.elementAt cells) b.items.toList := by
  obtain ⟨xs, hxs⟩ := exists_toList h.backed h.walks h.fits.size_le hroom
  refine ⟨⟨a.shape, xs.toArray⟩, ?_, rfl, spells_of_toList h.backed h.fits h.walks hxs⟩
  unfold toDense
  rw [hxs, Checked.ok_bind, if_pos h.dense]
  rfl

theorem toDense_of_no_room (h : Operand s a cells) (hroom : ¬a.RoomToRead) :
    a.toDense s a.dt = .error (.fault .capacity) := by
  unfold toDense
  rw [toList_of_no_room h.backed (View.numel_of_fault h.walks.fault_eq) hroom]
  rfl

theorem span_lt (h : Operand s a cells) : span a.shape.dims < signedBound := by
  rw [span_eq_volume_filter]
  exact h.dense

theorem withDevice_eq (h : Operand s a cells) : a.withDevice .host = a := by
  rw [← h.device_eq]
  rfl

end Operand

/-! ### Blocks of products -/

/-- **The integer at a multi-index.** -/
def integerAt (a : NDArray) (cells : Array a.dt.Elem) (index : List Nat) : Int :=
  a.dt.toInt (a.elementAt cells index)

/-- **No sum of magnitudes leaves the element type.** -/
def SumsFit (lhs rhs : NDArray) (cells : Array lhs.dt.Elem) (cells' : Array rhs.dt.Elem)
    (lead : List Nat) (p : Nat) (trail : List Nat) : Prop :=
  Dense.Fit lead trail (Dense.terms (lhs.integerAt cells) (rhs.integerAt cells') p) lhs.dt.largest

/-- **What a product of integers comes to**, if its result is to have the axes `lead` and
`trail`. -/
structure MultipliesIntegers (run : Action NDArray) (lhs rhs : NDArray) (cells : Array lhs.dt.Elem)
    (cells' : Array rhs.dt.Elem) (w : World) (lead : List Nat) (p : Nat) (trail : List Nat) :
    Prop where
  /-- Without the memory there is none. -/
  exhausted : ¬RoomToMultiply lhs rhs (lead ++ trail) → run w = (.error (.fault .capacity), w)
  /-- Otherwise it is exact. -/
  exact : RoomToMultiply lhs rhs (lead ++ trail) → SumsFit lhs rhs cells cells' lead p trail →
    ∃ c w' items y, run w = (.ok c, w') ∧ c.shape = ⟨lead ++ trail⟩ ∧ c.dt = lhs.dt ∧
      c.device = .host ∧ View.contiguous c.shape = .ok c.view ∧
      c.toList w'.store lhs.dt = .ok items ∧ Spells (lead ++ trail) y items ∧
      ∀ i j, Within i lead → Within j trail →
        lhs.dt.toInt (y (i ++ j)) =
          (Dense.terms (lhs.integerAt cells) (rhs.integerAt cells') p i j).sum

/-- No axis or one. -/
theorem eq_nil_or_singleton {dims : List Nat} (h : dims.length ≤ 1) :
    dims = [] ∨ ∃ dim, dims = [dim] := by
  match dims with
  | [] => exact .inl rfl
  | [dim] => exact .inr ⟨dim, rfl⟩
  | _ :: _ :: dims => simp at h

/-- The axes of a product span a signed word, if its elements are as many. -/
theorem span_product (hlead : lead.length ≤ 1) (htrail : trail.length ≤ 1)
    (hl : span (lead ++ [p]) < signedBound) (hr : span (p :: trail) < signedBound)
    (hvolume : volume (lead ++ trail) < signedBound) : span (lead ++ trail) < signedBound := by
  -- either operand has the axes of the product on its side, and an inner one
  replace hl : span lead < signedBound := by
    rw [span_append] at hl
    exact lt_of_le_of_lt (Nat.le_mul_of_pos_right _ (span_pos [p])) hl
  replace hr : span trail < signedBound := lt_of_le_of_lt (span_tail_le p trail) hr
  obtain rfl | ⟨m, rfl⟩ := eq_nil_or_singleton hlead
  · exact hr
  obtain rfl | ⟨n, rfl⟩ := eq_nil_or_singleton htrail
  · exact hl
  simp only [List.singleton_append, span_cons, span_nil, volume_cons, volume_nil, Nat.mul_one]
    at hl hr hvolume ⊢
  -- an empty axis leaves the span to the other one
  rcases Nat.eq_zero_or_pos m with rfl | hm
  · rwa [Nat.zero_max, Nat.one_mul]
  rcases Nat.eq_zero_or_pos n with rfl | hn
  · rwa [Nat.zero_max, Nat.mul_one]
  · rwa [Nat.max_eq_left hm, Nat.max_eq_left hn]

section Elements

variable {N : Numeric lhs.dt.Elem}

/-- **The block of the product**, of vectors and matrices on either side. -/
theorem dotElements_of_room (hN : N.Exact lhs.dt.toInt lhs.dt.largest) (hdt : rhs.dt = lhs.dt)
    (hl : Operand s lhs cells) (hr : Operand s rhs cells')
    (hlhs : lhs.shape.dims = lead ++ [p]) (hrhs : rhs.shape.dims = p :: trail)
    (hlead : lead.length ≤ 1) (htrail : trail.length ≤ 1)
    (hroom : RoomToMultiply lhs rhs (lead ++ trail))
    (hfit : SumsFit lhs rhs cells cells' lead p trail) :
    ∃ d, dotElements s lhs rhs lhs.dt N = .ok d ∧
      d.HasSums lhs.dt.toInt lead trail
        (Dense.terms (lhs.integerAt cells) (rhs.integerAt cells') p) := by
  -- the operands have one element type, and the blocks are of that type
  obtain ⟨storage, view, dt, device⟩ := rhs
  dsimp only at hdt
  subst hdt
  obtain ⟨a, ha, hashape, hx⟩ := hl.toDense_of_room hroom.left
  obtain ⟨b, hb, hbshape, hy⟩ := hr.toDense_of_room hroom.right
  dsimp only at hb
  rw [hlhs] at hx
  rw [hrhs] at hy
  unfold dotElements
  rw [ha, Checked.ok_bind, hb, Checked.ok_bind, hashape, hbshape, hlhs, hrhs]
  -- the axes decide which product it is
  obtain rfl | ⟨m, rfl⟩ := eq_nil_or_singleton hlead
  · obtain rfl | ⟨n, rfl⟩ := eq_nil_or_singleton htrail
    · obtain ⟨d, hd, hsums⟩ := Dense.exists_vecDot hN hx hy hfit
      exact ⟨d, by dsimp only [List.nil_append]; rw [if_pos rfl, hd]; rfl, hsums⟩
    · obtain ⟨d, hd, hsums⟩ := Dense.exists_vecMul hN hx hy hroom.product hfit
      exact ⟨d, by dsimp only [List.nil_append]; rw [if_pos rfl, hd]; rfl, hsums⟩
  · obtain rfl | ⟨n, rfl⟩ := eq_nil_or_singleton htrail
    · obtain ⟨d, hd, hsums⟩ := Dense.exists_mulVec hN hx hy hroom.product hfit
      exact ⟨d, by dsimp only [List.singleton_append]; rw [if_pos rfl, hd]; rfl, hsums⟩
    · obtain ⟨d, hd, hsums⟩ := Dense.exists_matmul hN hx hy hroom.product hfit
      exact ⟨d, by dsimp only [List.singleton_append]; rw [if_pos rfl, hd]; rfl, hsums⟩

/-- Operands that can be read give blocks of their shapes. -/
theorem exists_blocks (hdt : rhs.dt = lhs.dt) (hl : Operand s lhs cells)
    (hr : Operand s rhs cells') (hread : lhs.RoomToRead ∧ rhs.RoomToRead) :
    ∃ a b : Dense lhs.dt.Elem, lhs.toDense s lhs.dt = .ok a ∧ rhs.toDense s lhs.dt = .ok b ∧
      a.shape = lhs.shape ∧ b.shape = rhs.shape := by
  obtain ⟨a, ha, hashape, -⟩ := hl.toDense_of_room hread.1
  have hright : ∃ b, rhs.toDense s rhs.dt = .ok b := by
    obtain ⟨b, hb, -⟩ := hr.toDense_of_room hread.2
    exact ⟨b, hb⟩
  -- the right operand is read with the type of the left one
  rw [hdt] at hright
  obtain ⟨b, hb⟩ := hright
  exact ⟨a, b, ha, hb, hashape, shape_of_toDense hb⟩

/-- **Operands that cannot be read** are not multiplied, whatever their shapes are. -/
theorem reads_of_no_room {α : Type} (hdt : rhs.dt = lhs.dt) (hl : Operand s lhs cells)
    (hr : Operand s rhs cells') (hroom : ¬(lhs.RoomToRead ∧ rhs.RoomToRead))
    (f : Dense lhs.dt.Elem → Dense lhs.dt.Elem → Answer α) :
    (do
      let a ← lhs.toDense s lhs.dt
      let b ← rhs.toDense s lhs.dt
      f a b) = .error (.fault .capacity) := by
  by_cases hleft : lhs.RoomToRead
  · -- the left operand can be read, so it is the right one that cannot
    have hright : ¬rhs.RoomToRead := fun h => hroom ⟨hleft, h⟩
    obtain ⟨a, ha, -⟩ := hl.toDense_of_room hleft
    have hread : rhs.toDense s lhs.dt = .error (.fault .capacity) :=
      hdt ▸ hr.toDense_of_no_room hright
    rw [ha, Checked.ok_bind, hread]
    rfl
  · rw [hl.toDense_of_no_room hleft]
    rfl

/-- Without the memory for it there is no product either. -/
theorem dotElements_of_no_room (hdt : rhs.dt = lhs.dt) (hl : Operand s lhs cells)
    (hr : Operand s rhs cells') (hlhs : lhs.shape.dims = lead ++ [p])
    (hrhs : rhs.shape.dims = p :: trail) (hlead : lead.length ≤ 1) (htrail : trail.length ≤ 1)
    (hvolume : volume (lead ++ trail) < signedBound)
    (hroom : ¬RoomToMultiply lhs rhs (lead ++ trail)) :
    dotElements s lhs rhs lhs.dt N = .error (.fault .capacity) := by
  by_cases hread : lhs.RoomToRead ∧ rhs.RoomToRead
  · -- both operands can be read, so what is missing is room for the product
    have hproduct : ¬lhs.dt.bytes * volume (lead ++ trail) < signedBound :=
      fun h => hroom ⟨hread.1, hread.2, h⟩
    have hsize : volume (lead ++ trail) < sizeBound := hvolume.trans signedBound_lt_sizeBound
    obtain ⟨a, b, ha, hb, hashape, hbshape⟩ := exists_blocks hdt hl hr hread
    unfold dotElements
    rw [ha, Checked.ok_bind, hb, Checked.ok_bind, hashape, hbshape, hlhs, hrhs]
    rw [volume_append] at hproduct hsize
    obtain rfl | ⟨m, rfl⟩ := eq_nil_or_singleton hlead
    · obtain rfl | ⟨n, rfl⟩ := eq_nil_or_singleton htrail
      · -- a single element has at most sixteen bytes
        have hbytes := lhs.dt.bytes_le
        rw [volume_nil, Nat.mul_one] at hproduct
        unfold signedBound at hproduct
        omega
      · rw [volume_nil, volume_singleton] at hproduct hsize
        dsimp only [List.nil_append]
        rw [if_pos rfl, Dense.vecMul, Dense.tabulate_of_no_room hsize hproduct]
        rfl
    · obtain rfl | ⟨n, rfl⟩ := eq_nil_or_singleton htrail
      · rw [volume_nil, volume_singleton] at hproduct hsize
        dsimp only [List.singleton_append]
        rw [if_pos rfl, Dense.mulVec, Dense.tabulate_of_no_room hsize hproduct]
        rfl
      · rw [volume_singleton, volume_singleton] at hproduct hsize
        dsimp only [List.singleton_append]
        rw [if_pos rfl, Dense.matmul, Dense.tabulate_of_no_room hsize hproduct]
        rfl
  · exact reads_of_no_room hdt hl hr hread _

/-- **Two matrices have one product**, whichever way they are multiplied. -/
theorem dotElements_eq_matmulElements {dt : DType} {N : Numeric dt.Elem}
    (hlhs : lhs.shape.dims = [m, p]) (hrhs : rhs.shape.dims = [p, n]) :
    dotElements s lhs rhs dt N = matmulElements s lhs rhs dt N m p n := by
  unfold dotElements matmulElements
  cases ha : lhs.toDense s dt with
  | error e => rfl
  | ok a =>
    cases hb : rhs.toDense s dt with
    | error e => rfl
    | ok b =>
      rw [Checked.ok_bind, Checked.ok_bind, Checked.ok_bind, Checked.ok_bind,
        shape_of_toDense ha, shape_of_toDense hb, hlhs, hrhs]
      exact if_pos rfl

end Elements

/-! ### Products of arrays -/

/-- **A product is exact if its block is**, and stops if that does. -/
theorem multiplies_of_elements {run : Action NDArray}
    {elements : Store → Answer (Dense lhs.dt.Elem)}
    (hrun : run w = (Action.read elements >>= ofDense lhs.dt) w)
    (hspan : span (lead ++ trail) < signedBound)
    (hno : ¬RoomToMultiply lhs rhs (lead ++ trail) →
      elements w.store = .error (.fault .capacity))
    (hroom : RoomToMultiply lhs rhs (lead ++ trail) → SumsFit lhs rhs cells cells' lead p trail →
      ∃ d, elements w.store = .ok d ∧
        d.HasSums lhs.dt.toInt lead trail
          (Dense.terms (lhs.integerAt cells) (rhs.integerAt cells') p)) :
    MultipliesIntegers run lhs rhs cells cells' w lead p trail where
  exhausted := fun h => by rw [hrun, Action.bind_read_error (hno h)]
  exact := fun h hfit => by
    obtain ⟨d, hd, hsums⟩ := hroom h hfit
    have hlen : d.items.toList.length = volume (lead ++ trail) := hsums.size_eq
    obtain ⟨y, hy⟩ := exists_spells hlen
    -- the block has as many elements as the product, and is laid out in a buffer of its own
    have hnumel : Shape.numel ⟨lead ++ trail⟩ = .ok d.items.size := by
      rw [hsums.size_eq]
      exact numel_of_span (hspan.trans signedBound_lt_sizeBound)
    have hview := View.contiguous_of_rowMajor (rowMajor_of_span (s := ⟨lead ++ trail⟩) hspan)
    have hfits : (Buffer.mk lhs.dt d.items).Fits := by
      unfold Buffer.Fits Buffer.size
      dsimp only
      rw [hsums.size_eq]
      exact h.product
    have hwhole := Whole.new hnumel hview hfits w.store .host
    refine ⟨⟨w.store.nextId, ⟨⟨lead ++ trail⟩, ⟨denseSteps (lead ++ trail)⟩, 0⟩, lhs.dt, .host⟩,
      { w with store := w.store.push ⟨lhs.dt, d.items⟩ }, d.items.toList, y, ?_, rfl, rfl, rfl,
      hview, hwhole.toList_eq, hy, fun i j hi hj => ?_⟩
    · rw [hrun, Action.bind_read_ok hd]
      unfold ofDense
      rw [hsums.shape_eq]
      exact ofBuffer_eq_ok.2 ⟨⟨_, hnumel⟩, _, hview, rfl, rfl⟩
    · -- an entry of the block is the element of the array at the same index
      obtain ⟨z, hz, hvalue⟩ := hsums.entry_eq i j hi hj
      have hget := hy.get_eq _ (hi.append hj)
      rw [Array.getElem?_toList, hz] at hget
      rw [← Option.some.inj hget, hvalue]

section Runs

variable (bridges : Bridges) (hdt : rhs.dt = lhs.dt) (hl : Operand w.store lhs cells)
  (hr : Operand w.store rhs cells')

include hdt hl hr

/-- The host multiplies operands that are its own, in one of two ways. -/
theorem dot_eq_read {N : Numeric lhs.dt.Elem} (hN : lhs.dt.numeric? = some N) :
    lhs.dot bridges rhs w
      = (Action.read (fun s => dotElements s lhs rhs lhs.dt N) >>= ofDense lhs.dt) w := by
  have hhost := dot_of_host bridges hdt.symm w
  rw [hl.withDevice_eq, hr.withDevice_eq] at hhost
  rw [hhost]
  unfold dotHost
  rw [hN]

/-- For matrices the other way comes to the same block. -/
theorem matmul_eq_read {N : Numeric lhs.dt.Elem} (hN : lhs.dt.numeric? = some N)
    (hlhs : lhs.shape.dims = [m, p]) (hrhs : rhs.shape.dims = [p, n]) :
    lhs.matmul bridges rhs w
      = (Action.read (fun s => dotElements s lhs rhs lhs.dt N) >>= ofDense lhs.dt) w := by
  -- the inner lengths agree
  have hsizes : matmulSizes lhs rhs = .ok (m, p, n) := by
    unfold matmulSizes
    rw [hlhs, hrhs]
    exact if_pos rfl
  have hhost := matmul_of_host bridges hdt.symm hsizes w
  rw [hl.withDevice_eq, hr.withDevice_eq] at hhost
  rw [hhost, funext fun s => dotElements_eq_matmulElements (s := s) hlhs hrhs]
  unfold matmulHost
  rw [hN]
  rfl

/-- **Whatever reads the block of the product multiplies integers.** -/
theorem multiplies_of_read {run : Action NDArray} (hint : lhs.dt.IsInteger)
    (hrun : ∀ N, lhs.dt.numeric? = some N → run w
      = (Action.read (fun s => dotElements s lhs rhs lhs.dt N) >>= ofDense lhs.dt) w)
    (hlhs : lhs.shape.dims = lead ++ [p]) (hrhs : rhs.shape.dims = p :: trail)
    (hlead : lead.length ≤ 1) (htrail : trail.length ≤ 1)
    (hvolume : volume (lead ++ trail) < signedBound) :
    MultipliesIntegers run lhs rhs cells cells' w lead p trail := by
  obtain ⟨N, hN, hexact⟩ := DType.exists_exact hint
  have hspan : span (lead ++ trail) < signedBound :=
    span_product hlead htrail (hlhs ▸ hl.span_lt) (hrhs ▸ hr.span_lt) hvolume
  exact multiplies_of_elements (hrun N hN) hspan
    (dotElements_of_no_room hdt hl hr hlhs hrhs hlead htrail hvolume)
    (dotElements_of_room hexact hdt hl hr hlhs hrhs hlead htrail)

/-! ### Refusals -/

theorem dot_of_no_room (hint : lhs.dt.IsInteger) (hroom : ¬(lhs.RoomToRead ∧ rhs.RoomToRead)) :
    lhs.dot bridges rhs w = (.error (.fault .capacity), w) := by
  obtain ⟨N, hN, -⟩ := DType.exists_exact hint
  rw [dot_eq_read bridges hdt hl hr hN]
  exact Action.bind_read_error (reads_of_no_room hdt hl hr hroom _) _

/-- **Inner lengths that differ** are refused, with both shapes, once the operands have been
read. -/
theorem dot_of_mismatch (hint : lhs.dt.IsInteger) (hread : lhs.RoomToRead ∧ rhs.RoomToRead)
    (hlhs : lhs.shape.dims = lead ++ [p]) (hrhs : rhs.shape.dims = q :: trail)
    (hlead : lead.length ≤ 1) (htrail : trail.length ≤ 1) (hpq : p ≠ q) :
    lhs.dot bridges rhs w = (.error (.rejected (.shapeMismatch lhs.shape rhs.shape)), w) := by
  obtain ⟨N, hN, -⟩ := DType.exists_exact hint
  rw [dot_eq_read bridges hdt hl hr hN]
  refine Action.bind_read_error ?_ _
  obtain ⟨a, b, ha, hb, hashape, hbshape⟩ := exists_blocks hdt hl hr hread
  unfold dotElements
  rw [ha, Checked.ok_bind, hb, Checked.ok_bind, hashape, hbshape, hlhs, hrhs]
  obtain rfl | ⟨m, rfl⟩ := eq_nil_or_singleton hlead
  · obtain rfl | ⟨n, rfl⟩ := eq_nil_or_singleton htrail <;> exact if_neg hpq
  · obtain rfl | ⟨n, rfl⟩ := eq_nil_or_singleton htrail <;> exact if_neg hpq

/-- **Operands that are no vectors or matrices** are refused by their ranks. -/
theorem dot_of_ranks (hint : lhs.dt.IsInteger) (hread : lhs.RoomToRead ∧ rhs.RoomToRead)
    (hranks : ¬(lhs.rank ∈ [1, 2] ∧ rhs.rank ∈ [1, 2])) :
    lhs.dot bridges rhs w = (.error (.rejected (.unsupportedDot lhs.rank rhs.rank)), w) := by
  obtain ⟨N, hN, -⟩ := DType.exists_exact hint
  rw [dot_eq_read bridges hdt hl hr hN]
  refine Action.bind_read_error ?_ _
  obtain ⟨a, b, ha, hb, hashape, hbshape⟩ := exists_blocks hdt hl hr hread
  have hrank : ∀ {x : NDArray} {dims : List Nat}, x.shape.dims = dims → dims.length ∈ [1, 2] →
      x.rank ∈ [1, 2] := fun h hlen => by
    rw [← h] at hlen
    exact hlen
  unfold dotElements
  rw [ha, Checked.ok_bind, hb, Checked.ok_bind, hashape, hbshape]
  -- the four products have ranks that are not these
  split
  · rename_i h h'
    exact absurd ⟨hrank h (by simp), hrank h' (by simp)⟩ hranks
  · rename_i h h'
    exact absurd ⟨hrank h (by simp), hrank h' (by simp)⟩ hranks
  · rename_i h h'
    exact absurd ⟨hrank h (by simp), hrank h' (by simp)⟩ hranks
  · rename_i h h'
    exact absurd ⟨hrank h (by simp), hrank h' (by simp)⟩ hranks
  · rfl

end Runs

/-- **What becomes of operands that do not fit each other**, or have no product. `dot` reads them
before it looks at their shapes, `matmul` does not. -/
structure RefusesProducts (bridges : Bridges) (lhs rhs : NDArray) (w : World) : Prop where
  dot_unread : ¬(lhs.RoomToRead ∧ rhs.RoomToRead) →
    lhs.dot bridges rhs w = (.error (.fault .capacity), w)
  dot_inner : lhs.RoomToRead ∧ rhs.RoomToRead → ∀ lead p q trail, lhs.shape.dims = lead ++ [p] →
    rhs.shape.dims = q :: trail → lead.length ≤ 1 → trail.length ≤ 1 → p ≠ q →
    lhs.dot bridges rhs w = (.error (.rejected (.shapeMismatch lhs.shape rhs.shape)), w)
  dot_ranks : lhs.RoomToRead ∧ rhs.RoomToRead → ¬(lhs.rank ∈ [1, 2] ∧ rhs.rank ∈ [1, 2]) →
    lhs.dot bridges rhs w = (.error (.rejected (.unsupportedDot lhs.rank rhs.rank)), w)
  matmul_inner : ∀ m p q n, lhs.shape.dims = [m, p] → rhs.shape.dims = [q, n] → p ≠ q →
    lhs.matmul bridges rhs w = (.error (.rejected (.shapeMismatch lhs.shape rhs.shape)), w)
  matmul_left : lhs.rank ≠ 2 →
    lhs.matmul bridges rhs w = (.error (.rejected (.rankMismatch 2 lhs.rank)), w)
  matmul_right : lhs.rank = 2 → rhs.rank ≠ 2 →
    lhs.matmul bridges rhs w = (.error (.rejected (.rankMismatch 2 rhs.rank)), w)

/-- Operands on the host are refused for the first thing that is wrong with them. -/
theorem refusesProducts (bridges : Bridges) (hint : lhs.dt.IsInteger) (hdt : rhs.dt = lhs.dt)
    (hl : Operand w.store lhs cells) (hr : Operand w.store rhs cells') :
    RefusesProducts bridges lhs rhs w where
  dot_unread := dot_of_no_room bridges hdt hl hr hint
  dot_inner := fun hread _ _ _ _ => dot_of_mismatch bridges hdt hl hr hint hread
  dot_ranks := dot_of_ranks bridges hdt hl hr hint
  matmul_inner := fun m p q n hlhs hrhs hpq => by
    -- the checks of `matmul` come before anything is read
    refine matmul_of_matmulMismatch? lhs rhs ?_ bridges w
    have hleft : lhs.rank = 2 := congrArg List.length hlhs
    have hright : rhs.rank = 2 := congrArg List.length hrhs
    simp [matmulMismatch?, hdt, hleft, hright, hlhs, hrhs, hpq]
  matmul_left := fun h => by
    refine matmul_of_matmulMismatch? lhs rhs ?_ bridges w
    simp [matmulMismatch?, hdt, h]
  matmul_right := fun hleft h => by
    refine matmul_of_matmulMismatch? lhs rhs ?_ bridges w
    simp [matmulMismatch?, hdt, hleft, h]

/-- **Products of integers are exact.** For any two operands on the host of one integer type, in
whatever layouts, with as many elements in the product as there are signed words at most: `matmul`
of two matrices and `dot` of vectors and matrices whose inner axes agree give the sums of products,
if there is memory for the elements and the magnitudes of the products add up to a number of the
type, and the result is a fresh row-major array on the host. All other operands are refused. -/
theorem integer_products_exact (bridges : Bridges) (hint : lhs.dt.IsInteger)
    (hdt : rhs.dt = lhs.dt) (hl : Operand w.store lhs cells) (hr : Operand w.store rhs cells') :
    (∀ m p n, lhs.shape.dims = [m, p] → rhs.shape.dims = [p, n] → volume [m, n] < signedBound →
      MultipliesIntegers (lhs.matmul bridges rhs) lhs rhs cells cells' w [m] p [n]) ∧
    (∀ lead p trail, lhs.shape.dims = lead ++ [p] → rhs.shape.dims = p :: trail →
      lead.length ≤ 1 → trail.length ≤ 1 → volume (lead ++ trail) < signedBound →
      MultipliesIntegers (lhs.dot bridges rhs) lhs rhs cells cells' w lead p trail) ∧
    RefusesProducts bridges lhs rhs w := by
  refine ⟨fun m p n hlhs hrhs hvolume => ?_,
    fun lead p trail hlhs hrhs hlead htrail hvolume => ?_, refusesProducts bridges hint hdt hl hr⟩
  · exact multiplies_of_read hdt hl hr hint
      (fun N hN => matmul_eq_read bridges hdt hl hr hN hlhs hrhs) hlhs hrhs (by simp) (by simp)
      hvolume
  · exact multiplies_of_read hdt hl hr hint (fun N hN => dot_eq_read bridges hdt hl hr hN)
      hlhs hrhs hlead htrail hvolume

/-- The matrix times its transpose. -/
theorem integer_products_exact_transpose :
    DType.i32.IsInteger ∧ Operand (counting 6).store (inRows 2 3) (countTo 6) ∧
      Operand (counting 6).store upright (countTo 6) ∧ RoomToMultiply (inRows 2 3) upright [2, 2] ∧
      SumsFit (inRows 2 3) upright (countTo 6) (countTo 6) [2] 3 [2] ∧
      ∃ c w' items y, (inRows 2 3).matmul Bridge.idle upright (counting 6) = (.ok c, w') ∧
        c.toList w'.store .i32 = .ok items ∧ Spells [2, 2] y items ∧
        Int32.toInt (y [0, 0]) = 14 ∧ Int32.toInt (y [0, 1]) = 32 ∧
        Int32.toInt (y [1, 1]) = 77 := by
  have hl : Operand (counting 6).store (inRows 2 3) (countTo 6) :=
    ⟨rfl, by decide, ⟨rfl, by decide, by decide⟩, by decide, rfl⟩
  have hr : Operand (counting 6).store upright (countTo 6) :=
    ⟨rfl, by decide, ⟨rfl, by decide, by decide⟩, by decide, rfl⟩
  have hroom : RoomToMultiply (inRows 2 3) upright [2, 2] := ⟨by decide, by decide, by decide⟩
  have hfit : SumsFit (inRows 2 3) upright (countTo 6) (countTo 6) [2] 3 [2] := by
    -- four sums of three products each
    have hsmall : ∀ k < 2, ∀ l < 2,
        magnitude (Dense.terms ((inRows 2 3).integerAt (countTo 6)) (upright.integerAt (countTo 6))
          3 [k] [l]) ≤ 2147483647 := by decide
    intro i j hi hj
    obtain ⟨k, hk, rfl⟩ := within_singleton.1 hi
    obtain ⟨l, hl, rfl⟩ := within_singleton.1 hj
    exact hsmall k hk l hl
  have hdt : upright.dt = (inRows 2 3).dt := rfl
  obtain ⟨hmatmul, -, -⟩ := integer_products_exact Bridge.idle (.inl rfl) hdt hl hr
  obtain ⟨c, w', items, y, hrun, -, -, -, -, hread, hy, hentries⟩ :=
    (hmatmul 2 3 2 rfl rfl (by decide)).exact hroom hfit
  exact ⟨.inl rfl, hl, hr, hroom, hfit, c, w', items, y, hrun, hread, hy,
    (hentries [0] [0] (by decide) (by decide)).trans (by decide),
    (hentries [0] [1] (by decide) (by decide)).trans (by decide),
    (hentries [1] [1] (by decide) (by decide)).trans (by decide)⟩

/-- Very many rows of no elements. -/
def emptyRows : NDArray := inRows 2147483648 0

/-- As many columns of no elements. -/
def emptyColumns : NDArray := inRows 0 2147483648

/-- **There need not be a product**, although the product of all rows and columns has `2 ^ 62`
elements, no more than there are signed words, and every one of them is a sum of no products. -/
theorem integer_products_exhausted :
    Operand (counting 0).store emptyRows (countTo 0) ∧
      Operand (counting 0).store emptyColumns (countTo 0) ∧
      emptyRows.shape.dims = [2147483648, 0] ∧ emptyColumns.shape.dims = [0, 2147483648] ∧
      volume [2147483648, 2147483648] < signedBound ∧
      SumsFit emptyRows emptyColumns (countTo 0) (countTo 0) [2147483648] 0 [2147483648] ∧
      ∀ c w', emptyRows.matmul Bridge.idle emptyColumns (counting 0) ≠ (.ok c, w') := by
  have hrows : View.contiguous ⟨[2147483648, 0]⟩ = .ok emptyRows.view := rfl
  have hcolumns : View.contiguous ⟨[0, 2147483648]⟩ = .ok emptyColumns.view := rfl
  have hl : Operand (counting 0).store emptyRows (countTo 0) :=
    ⟨rfl, by decide, (View.walks_of_contiguous (n := 0) hrows rfl (by decide)).1, by decide, rfl⟩
  have hr : Operand (counting 0).store emptyColumns (countTo 0) :=
    ⟨rfl, by decide, (View.walks_of_contiguous (n := 0) hcolumns rfl (by decide)).1, by decide, rfl⟩
  have hfit : SumsFit emptyRows emptyColumns (countTo 0) (countTo 0) [2147483648] 0 [2147483648] :=
    fun _ _ _ _ => Nat.zero_le _
  -- the operands need no memory, but the entries of the product do
  have hroom : ¬RoomToMultiply emptyRows emptyColumns [2147483648, 2147483648] :=
    fun h => absurd h.product (by decide)
  refine ⟨hl, hr, rfl, rfl, by decide, hfit, fun c w' hrun => ?_⟩
  have hdt : emptyColumns.dt = emptyRows.dt := rfl
  have hmultiplies : MultipliesIntegers (emptyRows.matmul Bridge.idle emptyColumns) emptyRows
      emptyColumns (countTo 0) (countTo 0) (counting 0) [2147483648] 0 [2147483648] :=
    multiplies_of_read hdt hl hr (.inl rfl)
      (fun N hN => matmul_eq_read Bridge.idle hdt hl hr hN rfl rfl) rfl rfl (by simp) (by simp)
      (by decide)
  rw [hmultiplies.exhausted hroom] at hrun
  exact absurd (congrArg Prod.fst hrun) (by simp)

end NDArray

end Strided
