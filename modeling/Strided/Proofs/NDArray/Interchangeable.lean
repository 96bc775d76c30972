import Strided.Proofs.NDArray.Frame
import Strided.Proofs.NDArray.Indistinct
import Strided.Proofs.NDArray.Offline

/-!
# Arrays that may take each other's place

How an array lies in its buffer is nobody's business but its own: a slice, a transposed copy and
a row-major array of the same elements are as good as each other wherever one of them is asked
for. This file proves it for all operations at once (`NDArray.alike_interchangeable`). What two
alike arrays are given to decides in which sense the outcomes agree (`NDArray.Interchangeable`).

* Operations on the host have equal outcomes, the storages included. This has been done in
  `Strided.Proofs.NDArray.Indistinct`.
* A view of either array is a view of another buffer. The two views are alike again.
* A bridge is passed the arrays themselves, so what is listed of the calls differs. With bridges
  that go by what they can read (`Bridges.Impartial`) and only write to what they are handed to
  fill the runs still look the same (`SameRun`): like requests are answered alike, and the host
  goes on in storages that are equal.

The reference bridges are of this kind (`Bridge.impartial_references`), since they do with their
operands what the host does. For that the operations of the host have to go the same way in worlds
that differ in the listed calls, which is what `Action.Offline` is for.
-/

namespace Strided

namespace NDArray

variable {w w' : World} {s : Store} {a a' b b' : NDArray}

/-! ### Runs with bridges -/

namespace Indistinct

variable (hw : w.Like w')
include hw

/-- Worlds that look the same have equal storages, so nothing is easier to tell apart in one of
them. -/
theorem of_like (h : Indistinct w.store a a') : Indistinct w'.store a a' := h.of_store hw.store_eq

/-- **Copies of either array** look the same: the items that are written are equal. -/
theorem sameRun_copyFrom (h : Indistinct w.store a a') (dst : NDArray) :
    SameRun (dst.copyFrom a w) (dst.copyFrom a' w') :=
  ((offline_copyFrom dst a).sameRun hw).trans (.of_eq ((of_like hw h).copyFrom_eq dst))

/-- **Inner products on the host** look the same. -/
theorem sameRun_dotHost (ha : Indistinct w.store a a') (hb : Indistinct w.store b b') :
    SameRun (dotHost a b w) (dotHost a' b' w') :=
  ((offline_dotHost a b).sameRun hw).trans (.of_eq ((of_like hw ha).dotHost_eq (of_like hw hb)))

/-- **Matrix products on the host** look the same. -/
theorem sameRun_matmulHost (ha : Indistinct w.store a a') (hb : Indistinct w.store b b')
    (m p n : Nat) : SameRun (matmulHost a b m p n w) (matmulHost a' b' m p n w') :=
  ((offline_matmulHost a b m p n).sameRun hw).trans
    (.of_eq ((of_like hw ha).matmulHost_eq (of_like hw hb) m p n))

end Indistinct

/-- The operands are of the same element types, and refused alike. -/
theorem checkSameDType_eq (ha : Indistinct s a a') (hb : Indistinct s b b') :
    checkSameDType a' b' = checkSameDType a b := by
  unfold checkSameDType
  rw [ha.dt_eq, hb.dt_eq]

theorem matmulSizes_eq (ha : Indistinct s a a') (hb : Indistinct s b b') :
    matmulSizes a' b' = matmulSizes a b := by
  unfold matmulSizes
  rw [ha.shape_eq, hb.shape_eq]

theorem selectBridge_eq (ha : Indistinct s a a') (hb : Indistinct s b b') :
    selectBridge a' b' = selectBridge a b := by
  unfold selectBridge
  rw [ha.device_eq, hb.device_eq]

/-- Without a bridge a matrix product runs on the host. -/
theorem sameRun_matmul_of_host {bridges bridges' : Bridges} (hw : w.Like w')
    (ha : Indistinct w.store a a') (hb : Indistinct w.store b b')
    (hhost : selectBridge a b = none) :
    SameRun (a.matmul bridges b w) (a'.matmul bridges' b' w') := by
  unfold matmul
  rw [checkSameDType_eq ha hb, matmulSizes_eq ha hb, selectBridge_eq ha hb, hhost]
  apply (SameRun.answer _ hw).bind
  intro _ w₁ w₁' h₁ hw₁
  obtain rfl : w = w₁ := congrArg Prod.snd h₁
  apply (SameRun.answer _ hw₁).bind
  intro sizes w₂ w₂' h₂ hw₂
  obtain rfl : w = w₂ := congrArg Prod.snd h₂
  obtain ⟨m, p, n⟩ := sizes
  exact ha.sameRun_matmulHost hw₂ hb m p n

end NDArray

/-! ### Requests that look the same -/

/-- **Requests that look the same**: of one kind, with the same arrays to fill, and operands that
no reader can tell apart. -/
inductive Bridge.LikeRequests (s : Store) : Request → Request → Prop where
  | handleArray {a a' : NDArray} (h : NDArray.Indistinct s a a') :
      LikeRequests s (.handleArray a) (.handleArray a')
  | matmul {a a' b b' : NDArray} (ha : NDArray.Indistinct s a a')
      (hb : NDArray.Indistinct s b b') (dst : NDArray) :
      LikeRequests s (.matmul a b dst) (.matmul a' b' dst)
  | lu (factors pivots : NDArray) : LikeRequests s (.lu factors pivots) (.lu factors pivots)
  | fft {a a' : NDArray} (h : NDArray.Indistinct s a a') (dst : NDArray) :
      LikeRequests s (.fft a dst) (.fft a' dst)
  | fft2 {a a' : NDArray} (h : NDArray.Indistinct s a a') (dst : NDArray) :
      LikeRequests s (.fft2 a dst) (.fft2 a' dst)

/-- **Bridges that go by what they can read.** In worlds that look the same they answer requests
that look the same alike, and leave the same storages. -/
def Bridges.Impartial (bridges : Bridges) : Prop :=
  ∀ (h : Handle) (r r' : Request) (w w' : World), Bridge.LikeRequests w.store r r' → w.Like w' →
    bridges h r' w' = bridges h r w

namespace Bridge.LikeRequests

variable {w w' : World} {s : Store} {r r' : Request}

/-- They have one name. -/
theorem name_eq (h : LikeRequests s r r') : r'.name = r.name := by cases h <;> rfl

/-- They are noted in the same words. -/
theorem text_eq (h : LikeRequests s r r') : r'.text = r.text := by
  unfold Request.text
  rw [h.name_eq]
  -- of an operand the words give the element type, the shape and the device
  cases h with
  | handleArray h =>
    simp only [Request.arrays, List.foldl_cons, List.foldl_nil, h.dt_eq, h.shape_eq, h.device_eq]
  | matmul ha hb dst =>
    simp only [Request.arrays, List.foldl_cons, List.foldl_nil, ha.dt_eq, ha.shape_eq,
      ha.device_eq, hb.dt_eq, hb.shape_eq, hb.device_eq]
  | lu factors pivots => rfl
  | fft h dst =>
    simp only [Request.arrays, List.foldl_cons, List.foldl_nil, h.dt_eq, h.shape_eq, h.device_eq]
  | fft2 h dst =>
    simp only [Request.arrays, List.foldl_cons, List.foldl_nil, h.dt_eq, h.shape_eq, h.device_eq]

/-- **Calls with like requests** look the same. -/
theorem sameRun_call {bridges : Bridges} (hb : bridges.Impartial) (handle : Handle)
    (h : LikeRequests w.store r r') (hw : w.Like w') :
    SameRun (Action.call bridges handle r w) (Action.call bridges handle r' w') :=
  -- the bridge sees the call it is to answer in the list, in the same words on both sides
  .call hw h.text_eq (hb handle r r' _ _ h (hw.record handle h.text_eq hw.store_eq))

end Bridge.LikeRequests

/-! ### Reference bridges -/

namespace Bridge

open NDArray

variable {w w' : World} {s : Store}

/-- **Reference bridges**, which may refuse requests by their names. -/
def references (refusals : Handle → String → Option Refusal) : Bridges :=
  fun h => reference h.name fun r => refusals h r.name

/-- Computations that look the same give a bridge the same answer and the same storages. -/
theorem byAction_eq {x x' : Action Unit} (h : SameRun (x w) (x' w')) :
    byAction x' w' = byAction x w := by
  unfold byAction
  -- a bridge passes on the answer and the storages, and not the calls
  rcases hx : x w with ⟨r, w₁⟩
  rcases hx' : x' w' with ⟨r', w₁'⟩
  rw [hx, hx'] at h
  obtain rfl : r' = r := h.answer_eq
  have hstore : w₁'.store = w₁.store := h.like.store_eq
  rcases r' with (e | f) | u
  · dsimp only
    rw [hstore]
  · dsimp only
    rw [hstore]
  · dsimp only
    rw [hstore]

/-- The product of a reference bridge is one of the host, copied. -/
theorem sameRun_multiply {a a' b b' : NDArray} (hw : w.Like w') (ha : Indistinct w.store a a')
    (hb : Indistinct w.store b b') (dst : NDArray) :
    SameRun (multiply a b dst w) (multiply a' b' dst w') := by
  refine (sameRun_matmul_of_host hw (ha.withDevice .host) (hb.withDevice .host) rfl).bind ?_
  intro product w₁ w₁' _ hw₁
  exact (offline_copyFrom dst product).sameRun hw₁

/-- What stands in for a factorization makes no call. -/
theorem offline_pseudoFactorize (factors pivots : NDArray) :
    (pseudoFactorize factors pivots).Offline :=
  .bind (offline_fill _ _ _) fun _ => .bind (.checked _) fun _ => offline_assign _ _ _

/-- **A reference bridge goes by what it can read**, whatever it refuses by name. -/
theorem impartial_references (refusals : Handle → String → Option Refusal) :
    (references refusals).Impartial := by
  intro handle r r' w w' h hw
  unfold references reference
  dsimp only
  rw [h.name_eq, hw.store_eq]
  rcases refusals handle r.name with _ | (_ | _)
  · -- nothing is refused, so the work is done
    cases h with
    | handleArray h => rfl
    | matmul ha hb dst => exact byAction_eq (sameRun_multiply hw ha hb dst)
    | lu factors pivots => exact byAction_eq ((offline_pseudoFactorize factors pivots).sameRun hw)
    | fft h dst => exact byAction_eq (h.sameRun_copyFrom hw dst)
    | fft2 h dst => exact byAction_eq (h.sameRun_copyFrom hw dst)
  · rfl
  · rfl

/-- And it only writes to what it is handed to fill. -/
theorem confined_references (refusals : Handle → String → Option Refusal) :
    (references refusals).Confined := confined_reference fun h r => refusals h r.name

end Bridge

/-! ### Operations that may call bridges -/

namespace NDArray

open Bridge Strided.Fourier

variable {w w' : World} {s : Store} {a a' b b' : NDArray} {bridges : Bridges}

/-- **A bridge that is asked to fill a new array** by like requests. -/
theorem sameRun_asked (hb : bridges.Impartial) (hw : w.Like w') (handle : Handle) (shape : Shape)
    (dt : DType) (d : Device) {request request' : NDArray → Request}
    (hrequest : ∀ s, w.store.Agrees s → ∀ dst, LikeRequests s (request dst) (request' dst)) :
    SameRun
      ((do
        let dst ← empty shape dt d
        Action.call bridges handle (request dst)
        return dst : Action NDArray) w)
      ((do
        let dst ← empty shape dt d
        Action.call bridges handle (request' dst)
        return dst : Action NDArray) w') := by
  apply ((offline_zeros shape dt d).sameRun hw).bind
  intro dst w₁ w₁' h₁ hw₁
  -- the operands can still be read when the new array is there
  have hs : w.store.Agrees w₁.store := adds_zeros _ _ _ w _ w₁ h₁
  refine (LikeRequests.sameRun_call hb handle (hrequest _ hs dst) hw₁).bind ?_
  intro _ _ _ _ hw₂
  exact .pure dst hw₂

section Products

variable (hb : bridges.Impartial) (hc : bridges.Confined) (hw : w.Like w')
  (ha : Indistinct w.store a a') (hb' : Indistinct w.store b b')
include hb hc hw ha hb'

/-- **A note of both operands.** -/
theorem sameRun_announce (handle : Handle) :
    SameRun (announce bridges handle a b w) (announce bridges handle a' b' w') := by
  refine (LikeRequests.sameRun_call hb handle (.handleArray (ha.withDevice _)) hw).bind ?_
  intro _ w₁ w₁' h₁ hw₁
  -- the first note has changed no cell, so the second operands still look the same
  have hs : w.store.Agrees w₁.store := Action.adds_call hc rfl w _ w₁ h₁
  exact LikeRequests.sameRun_call hb handle (.handleArray ((hb'.mono hs).withDevice _)) hw₁

/-- **Products** of operands that no reader can tell apart. -/
theorem sameRun_dot : SameRun (a.dot bridges b w) (a'.dot bridges b' w') := by
  unfold dot
  rw [checkSameDType_eq ha hb', selectBridge_eq ha hb']
  apply (SameRun.answer _ hw).bind
  intro _ w₁ w₁' h₁ hw₁
  obtain rfl : w = w₁ := congrArg Prod.snd h₁
  cases selectBridge a b with
  | none => exact ha.sameRun_dotHost hw₁ hb'
  | some handle =>
    apply (sameRun_announce hb hc hw₁ ha hb' handle).bind
    intro _ w₂ w₂' h₂ hw₂
    -- the notes have not changed what can be read
    have hs : w.store.Agrees w₂.store := adds_announce hc handle a b w _ w₂ h₂
    refine ((ha.mono hs).sameRun_dotHost hw₂ (hb'.mono hs)).bind ?_
    intro product _ _ _ hw₃
    exact .pure _ hw₃

omit hc

/-- **A matrix product by a bridge**, which is handed a new array to fill. -/
theorem sameRun_matmulBridge (handle : Handle) (m n : Nat) :
    SameRun (matmulBridge bridges handle a b m n w)
      (matmulBridge bridges handle a' b' m n w') := by
  unfold matmulBridge
  rw [ha.dt_eq]
  exact sameRun_asked hb hw handle _ _ _ fun s hs dst =>
    .matmul ((ha.mono hs).withDevice _) ((hb'.mono hs).withDevice _) dst

/-- **Matrix products** of operands that no reader can tell apart. -/
theorem sameRun_matmul : SameRun (a.matmul bridges b w) (a'.matmul bridges b' w') := by
  cases hselect : selectBridge a b with
  | none => exact sameRun_matmul_of_host hw ha hb' hselect
  | some handle =>
    unfold matmul
    rw [checkSameDType_eq ha hb', matmulSizes_eq ha hb', selectBridge_eq ha hb', hselect]
    -- the checks change nothing, so the bridge is called in the worlds of the beginning
    apply (SameRun.answer _ hw).bind
    intro _ w₁ w₁' h₁ hw₁
    obtain rfl : w = w₁ := congrArg Prod.snd h₁
    apply (SameRun.answer _ hw₁).bind
    intro sizes w₂ w₂' h₂ hw₂
    obtain rfl : w = w₂ := congrArg Prod.snd h₂
    obtain ⟨m, p, n⟩ := sizes
    exact sameRun_matmulBridge hb hw₂ ha hb' handle m n

end Products

/-! #### Transforms -/

section Transforms

variable (hb : bridges.Impartial)

/-- Both arrays go to the same bridge, or both stay on the host. -/
theorem complexBridge?_eq (h : Indistinct s a a') : a'.complexBridge? = a.complexBridge? := by
  unfold complexBridge?
  rw [h.dt_eq, h.bridge?_eq]

include hb

/-- **A transform by a bridge**, which is handed a new array to fill. -/
theorem sameRun_transformBridge (hw : w.Like w') (h : Indistinct w.store a a') (handle : Handle)
    {request : NDArray → NDArray → Request}
    (hrequest : ∀ s dst, Indistinct s a a' → LikeRequests s (request a dst) (request a' dst)) :
    SameRun (transformBridge bridges handle a request w)
      (transformBridge bridges handle a' request w') := by
  unfold transformBridge
  rw [h.shape_eq, h.dt_eq, h.device_eq]
  exact sameRun_asked hb hw handle _ _ _ fun s hs dst => hrequest s dst (h.mono hs)

/-- **Transforms along the last axis** of arrays that no reader can tell apart. -/
theorem sameRun_fft (h : Indistinct w.store a a') (F : LineTransform) :
    SameRun (a.fft bridges F w) (a'.fft bridges F w) := by
  have hhost := SameRun.of_eq (h.transformHost_eq F .last)
  unfold fft
  rw [h.rank_eq, complexBridge?_eq h]
  -- vectors and matrices may go to a bridge, all else stays on the host
  rcases a.rank with _ | _ | _ | r
  · exact .refl _
  · cases a.complexBridge? with
    | none => exact hhost
    | some handle => exact sameRun_transformBridge hb (.refl w) h handle fun _ dst h => .fft h dst
  · cases a.complexBridge? with
    | none => exact hhost
    | some handle => exact sameRun_transformBridge hb (.refl w) h handle fun _ dst h => .fft h dst
  · cases a.complexBridge? <;> exact hhost

/-- **Transforms over both axes**, for which only matrices may go to a bridge. -/
theorem sameRun_fft2 (h : Indistinct w.store a a') (F : LineTransform) :
    SameRun (a.fft2 bridges F w) (a'.fft2 bridges F w) := by
  have hhost := SameRun.of_eq (h.transformHost_eq F .lastTwo)
  unfold fft2
  rw [h.rank_eq, complexBridge?_eq h]
  rcases a.rank with _ | _ | _ | r
  · cases a.complexBridge? <;> exact hhost
  · cases a.complexBridge? <;> exact hhost
  · cases a.complexBridge? with
    | none => exact hhost
    | some handle => exact sameRun_transformBridge hb (.refl w) h handle fun _ dst h => .fft2 h dst
  · cases a.complexBridge? <;> exact hhost

end Transforms

/-! ### All operations -/

/-- **Arrays that may take each other's place** in a world. Operations on them have equal
outcomes, give views that are alike, or call bridges and look the same. -/
structure Interchangeable (bridges : Bridges) (w : World) (a a' : NDArray) : Prop where
  /-- The elements, as they are, widened, and as a block. -/
  toList : ∀ dt, a'.toList w.store dt = a.toList w.store dt
  toComplex : a'.toComplex w.store = a.toComplex w.store
  toDense : ∀ dt, a'.toDense w.store dt = a.toDense w.store dt
  /-- Views of a part. -/
  subview : ∀ sub, SameView w.store (a.subview sub) (a'.subview sub)
  diagonal : ∀ k, SameView w.store (a.diagonal k) (a'.diagonal k)
  /-- Copies, and matrices around the elements. -/
  deepClone : a'.deepClone w = a.deepClone w
  flatten : a'.flatten w = a.flatten w
  diagflat : ∀ k, a'.diagflat k w = a.diagflat k w
  /-- A diagonal form is a matrix or a view, and a view changes nothing. -/
  diag : ∀ k, a'.diag k w = a.diag k w ∨
    (a.diag k w).2 = w ∧ (a'.diag k w).2 = w ∧ SameView w.store (a.diag k w).1 (a'.diag k w).1
  /-- The source of a copy. -/
  copyFrom : ∀ dst : NDArray, dst.copyFrom a' w = dst.copyFrom a w
  /-- Functions of the elements, with output arrays or without. -/
  mapUnary : ∀ f out, a'.mapUnary f out w = a.mapUnary f out w
  mapBinary : ∀ f (b : NDArray) out, a'.mapBinary f b out w = a.mapBinary f b out w ∧
    b.mapBinary f a' out w = b.mapBinary f a out w
  modf : ∀ out₁ out₂, a'.modf out₁ out₂ w = a.modf out₁ out₂ w
  allClose : ∀ (b : NDArray) t, a'.allClose w.store b t = a.allClose w.store b t ∧
    b.allClose w.store a' t = b.allClose w.store a t
  /-- A factorization is one of a copy, with any bridges. -/
  lu : ∀ bridges, a'.lu bridges w = a.lu bridges w
  /-- Products, on the host or with bridges, as the left operand and as the right one. -/
  dot : ∀ b : NDArray, SameRun (a.dot bridges b w) (a'.dot bridges b w) ∧
    SameRun (b.dot bridges a w) (b.dot bridges a' w)
  matmul : ∀ b : NDArray, SameRun (a.matmul bridges b w) (a'.matmul bridges b w) ∧
    SameRun (b.matmul bridges a w) (b.matmul bridges a' w)
  /-- Transforms, whatever happens to a line. -/
  fft : ∀ F, SameRun (a.fft bridges F w) (a'.fft bridges F w)
  fft2 : ∀ F, SameRun (a.fft2 bridges F w) (a'.fft2 bridges F w)

/-- Alike arrays have the same matrix around them, or alike diagonals. -/
private theorem diag_of_alike (h : Alike w.store a a') (hi : Indistinct w.store a a') (k : Int) :
    a'.diag k w = a.diag k w ∨
      (a.diag k w).2 = w ∧ (a'.diag k w).2 = w ∧
        SameView w.store (a.diag k w).1 (a'.diag k w).1 := by
  have hrank := hi.rank_eq
  -- both arrays have the same rank, which decides what the diagonal form is
  rcases diag_cases a k with ⟨h₁, ha⟩ | ⟨h₂, ha⟩ | ⟨hne₁, hne₂, ha⟩
  · rcases diag_cases a' k with ⟨-, ha'⟩ | ⟨h₂', -⟩ | ⟨hne₁', -, -⟩
    · left
      rw [ha, ha']
      exact hi.diagflat_eq k
    · omega
    · omega
  · rcases diag_cases a' k with ⟨h₁', -⟩ | ⟨-, ha'⟩ | ⟨-, hne₂', -⟩
    · omega
    · right
      rw [ha, ha']
      exact ⟨rfl, rfl, h.diagonal k⟩
    · omega
  · rcases diag_cases a' k with ⟨h₁', -⟩ | ⟨h₂', -⟩ | ⟨-, -, ha'⟩
    · omega
    · omega
    · left
      rw [ha, ha', hrank]

/-- **The layout of an array does not show.** Arrays of one shape, element type and device with
the same elements may take each other's place in every operation, whatever their strides, their
offsets and their buffers are, if the walks over both come to their end. This holds with all
bridges that go by what they can read and write to nothing but what they are handed to fill. -/
theorem alike_interchangeable (h : Alike w.store a a') (hf : a.view.offsets.fault = none)
    (hf' : a'.view.offsets.fault = none) (hb : bridges.Impartial) (hc : bridges.Confined) :
    Interchangeable bridges w a a' := by
  have hi := h.indistinct hf hf'
  have hw : w.Like w := .refl w
  -- in an operation with two operands only one of them takes the place of another array
  have hrefl : ∀ b, Indistinct w.store b b := Indistinct.refl w.store
  exact {
    toList := hi.toList_eq _ (.refl _)
    toComplex := hi.toComplex_eq
    toDense := hi.toDense_eq
    subview := h.subview
    diagonal := h.diagonal
    deepClone := hi.deepClone_eq
    flatten := hi.flatten_eq
    diagflat := hi.diagflat_eq
    diag := diag_of_alike h hi
    copyFrom := hi.copyFrom_eq
    mapUnary := hi.mapUnary_eq
    mapBinary := fun f b out => ⟨hi.mapBinary_eq (hrefl b) f out, (hrefl b).mapBinary_eq hi f out⟩
    modf := hi.modf_eq
    allClose := fun b t => ⟨hi.allClose_eq (hrefl b) t, (hrefl b).allClose_eq hi t⟩
    lu := hi.lu_eq
    dot := fun b => ⟨sameRun_dot hb hc hw hi (hrefl b), sameRun_dot hb hc hw (hrefl b) hi⟩
    matmul := fun b => ⟨sameRun_matmul hb hw hi (hrefl b), sameRun_matmul hb hw (hrefl b) hi⟩
    fft := sameRun_fft hb hi
    fft2 := sameRun_fft2 hb hi }

/-! ### A matrix in two layouts -/

/-- The numbers from one to four, with others before and between them. -/
def scattered : Array DType.i32.Elem := #[0, 1, 3, 0, 2, 4]

/-- The four numbers in order, and scattered. -/
def twoRows : World := .holding [⟨.i32, countTo 4⟩, ⟨.i32, scattered⟩]

/-- The matrix `1 2` over `3 4` by columns, with a gap between them. -/
def byColumns : NDArray := ⟨1, ⟨⟨[2, 2]⟩, ⟨[1, 3]⟩, 1⟩, .i32, .host⟩

theorem alike_byColumns : Alike twoRows.store (inRows 2 2) byColumns := by
  have hlies : (inRows 2 2).Lies twoRows.store (countTo 4) :=
    ⟨rfl, by decide, rfl, by decide, by decide⟩
  have hlies' : byColumns.Lies twoRows.store scattered :=
    ⟨rfl, by decide, rfl, by decide, by decide⟩
  have hcontents : byColumns.view.contents scattered = (inRows 2 2).view.contents (countTo 4) := rfl
  exact ⟨rfl, rfl, rfl, countTo 4, scattered, hlies, hlies', hcontents⟩

/-- With reference bridges that refuse nothing the two layouts may take each other's place. -/
theorem alike_interchangeable_byColumns :
    Alike twoRows.store (inRows 2 2) byColumns ∧ (inRows 2 2).view.offsets.fault = none ∧
      byColumns.view.offsets.fault = none ∧ (references fun _ _ => none).Impartial ∧
      (references fun _ _ => none).Confined ∧
      Interchangeable (references fun _ _ => none) twoRows (inRows 2 2) byColumns :=
  ⟨alike_byColumns, by decide, by decide, impartial_references _, confined_references _,
    alike_interchangeable alike_byColumns (by decide) (by decide) (impartial_references _)
      (confined_references _)⟩

end NDArray

end Strided
