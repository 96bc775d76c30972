import Strided.Bridge.Reference
import Strided.Elementwise
import Strided.Fourier
import Strided.Product
import Strided.Proofs.NDArray.Fresh

/-!
# The arrays that computations give

Products, transforms and functions of elements compute somewhere else than in a store, and put
what they get into a new array. As for the operations of `Strided.Proofs.NDArray.Fresh`, two
things are stated about each: it keeps all buffers, provided that the bridges do
(`Bridges.Grow`), and its result is fresh.

A bridge that computes is asked to fill an array that has been made for it, and what it puts
there does not matter (`fresh_of_asked`). The reference bridge keeps all buffers, since it is
made of operations of the host itself (`Bridge.grow_reference`).

Only where there is an output array the result is not new: it is `Delivered`, and then it is the
output array itself.
-/

namespace Strided

open Shape

/-! ### Blocks -/

namespace Dense

variable {dt : DType}

/-- **A block of the right size**, which fits the memory. -/
structure Full (d : Dense dt.Elem) : Prop where
  size_eq : d.items.size = volume d.shape.dims
  fits : (Buffer.mk dt d.items).Fits

/-- A transpose has the elements of the block, in another order. -/
theorem full_of_transpose {d t : Dense dt.Elem} (hd : d.Full) (h : d.transpose = .ok t) :
    t.Full := by
  unfold transpose at h
  rw [Checked.bind_eq_ok] at h
  obtain ⟨strides, -, h⟩ := h
  dsimp only at h
  rw [Checked.bind_eq_ok] at h
  obtain ⟨xs, hxs, h⟩ := h
  obtain rfl := Except.ok.inj h
  -- the transpose is gathered through a view with the axes in reverse order
  have hlen : xs.length = volume d.shape.dims.reverse := View.length_of_gather hxs
  refine ⟨hlen, ?_⟩
  have hfits := hd.fits
  unfold Buffer.Fits Buffer.size at hfits ⊢
  rw [hd.size_eq] at hfits
  dsimp only at hfits ⊢
  rwa [List.size_toArray, hlen, volume_reverse]

theorem length_of_mapM {α β : Type} {f : α → Checked β} {xs : List α} {ys : List β}
    (h : xs.mapM f = .ok ys) : ys.length = xs.length := by
  induction xs generalizing ys with
  | nil =>
    obtain rfl : [] = ys := Except.ok.inj h
    rfl
  | cons x xs ih =>
    rw [List.mapM_cons, Checked.bind_eq_ok] at h
    obtain ⟨y, -, h⟩ := h
    rw [Checked.bind_eq_ok] at h
    obtain ⟨ys', hys, h⟩ := h
    obtain rfl := Except.ok.inj h
    rw [List.length_cons, List.length_cons, ih hys]

/-- **A table** has as many entries as rows and columns, and the memory for them has been
checked. -/
theorem full_of_tabulate {m n : Nat} {shape : Shape} {entry : Nat → Nat → Checked dt.Elem}
    {d : Dense dt.Elem} (hshape : m * n = volume shape.dims)
    (h : tabulate dt m n shape entry = .ok d) : d.Full := by
  unfold tabulate at h
  rw [Checked.bind_eq_ok] at h
  obtain ⟨size, hsize, h⟩ := h
  rw [Checked.bind_eq_ok] at h
  obtain ⟨u, hcap, h⟩ := h
  rw [Checked.bind_eq_ok] at h
  obtain ⟨items, hitems, h⟩ := h
  obtain rfl := Except.ok.inj h
  obtain ⟨-, rfl⟩ := checkSize_eq_ok_iff.1 hsize
  -- one entry for every row and column
  have hlen : items.length = m * n := (length_of_mapM hitems).trans List.length_range
  refine ⟨hlen.trans hshape, ?_⟩
  unfold Buffer.Fits Buffer.size
  dsimp only
  rw [List.size_toArray, hlen]
  exact DType.checkCapacity_eq_ok_iff.1 hcap

variable {N : Numeric dt.Elem} {m p n : Nat} {a b d : Dense dt.Elem}

/-- A product of matrices is a matrix of the right size. -/
theorem full_of_matmul (h : matmul N m p n a b = .ok d) : d.Full :=
  full_of_tabulate (show m * n = m * (n * 1) by rw [Nat.mul_one]) h

/-- It has the rows of the one and the columns of the other. -/
theorem shape_of_matmul (h : matmul N m p n a b = .ok d) : d.shape = ⟨[m, n]⟩ := by
  unfold matmul tabulate at h
  rw [Checked.bind_eq_ok] at h
  obtain ⟨size, -, h⟩ := h
  rw [Checked.bind_eq_ok] at h
  obtain ⟨u, -, h⟩ := h
  rw [Checked.bind_eq_ok] at h
  obtain ⟨items, -, h⟩ := h
  rw [← Except.ok.inj h]

/-- A row times a matrix is a row of the right size. -/
theorem full_of_vecMul (h : vecMul N p n a b = .ok d) : d.Full :=
  full_of_tabulate (show 1 * n = n * 1 from Nat.mul_comm 1 n) h

/-- A matrix times a column is a column of the right size. -/
theorem full_of_mulVec (h : mulVec N m p a b = .ok d) : d.Full :=
  full_of_tabulate (show m * 1 = m * 1 from rfl) h

/-- A row times a column is a single element. -/
theorem full_of_vecDot (h : vecDot N a b = .ok d) : d.Full := by
  unfold vecDot at h
  rw [Checked.bind_eq_ok] at h
  obtain ⟨x, -, h⟩ := h
  obtain rfl := Except.ok.inj h
  refine ⟨rfl, ?_⟩
  -- a single element has at most sixteen bytes
  have hbytes := dt.bytes_le
  show dt.bytes * 1 < signedBound
  unfold signedBound
  omega

end Dense

namespace NDArray

variable {s : Store} {a : NDArray} {w w' : World}

theorem full_of_toDense {dt : DType} {d : Dense dt.Elem} (h : a.toDense s dt = .ok d) :
    d.Full := by
  unfold toDense at h
  rw [Checked.bind_eq_ok] at h
  obtain ⟨items, hitems, h⟩ := h
  obtain ⟨-, -, hlen, hfits⟩ := of_toList hitems
  by_cases hdense : a.shape.Dense
  · rw [if_pos hdense] at h
    obtain rfl := Except.ok.inj h
    exact ⟨hlen, hfits⟩
  · rw [if_neg hdense] at h
    exact absurd h (by simp [reject])

/-- A block goes into a new buffer, and the others stay as they are. -/
theorem adds_ofDense (dt : DType) (d : Dense dt.Elem) : (ofDense dt d).Adds := adds_ofBuffer _ _ _

/-- **A block that has been put into a store** is a fresh array. -/
theorem fresh_of_ofDense {dt : DType} {d : Dense dt.Elem} (hd : d.Full)
    (h : ofDense dt d w = (.ok a, w')) : Fresh w.store w'.store a :=
  fresh_of_ofBuffer h hd.fits hd.size_eq

/-! ### Arrays that bridges fill -/

variable {bridges : Bridges}

/-- A new array that a bridge is asked to fill. -/
theorem grows_asked (hb : bridges.Grow) (handle : Handle) (shape : Shape) (dt : DType)
    (d : Device) (request : NDArray → Request) :
    (do
      let dst ← empty shape dt d
      Action.call bridges handle (request dst)
      return dst : Action NDArray).Grows :=
  .bind (adds_zeros _ _ _).grows fun _ => .bind (Action.grows_call hb _ _) fun _ => .pure _

/-- **An array that a bridge has filled** is fresh, whatever the bridge has put into it. -/
theorem fresh_of_asked {handle : Handle} {shape : Shape} {dt : DType} {d : Device}
    {request : NDArray → Request} (hb : bridges.Grow)
    (h : (do
      let dst ← empty shape dt d
      Action.call bridges handle (request dst)
      return dst : Action NDArray) w = (.ok a, w')) : Fresh w.store w'.store a := by
  rw [Action.bind_eq_ok] at h
  obtain ⟨dst, w₁, hdst, h⟩ := h
  rw [Action.bind_eq_ok] at h
  obtain ⟨u, w₂, hcall, h⟩ := h
  obtain ⟨heq, rfl⟩ := Prod.mk.inj h
  obtain rfl := Except.ok.inj heq
  -- the bridge has written, but the buffer is still there
  exact (fresh_of_zeros hdst).mono (Action.grows_call hb _ _ w₁ _ w₂ hcall)

/-! ### Products -/

variable {lhs rhs : NDArray}

/-- Whatever the ranks are, what they are multiplied to is a block of the right size. -/
theorem full_of_dotElements {dt : DType} {N : Numeric dt.Elem} {d : Dense dt.Elem}
    (h : dotElements s lhs rhs dt N = .ok d) : d.Full := by
  unfold dotElements at h
  rw [Checked.bind_eq_ok] at h
  obtain ⟨a, -, h⟩ := h
  rw [Checked.bind_eq_ok] at h
  obtain ⟨b, -, h⟩ := h
  -- the ranks choose the kind of product, and their sizes have to agree
  split at h
  · split at h
    · exact Dense.full_of_vecDot (Checked.lift_eq_ok.1 h)
    · exact absurd h (by simp [reject])
  · split at h
    · exact Dense.full_of_vecMul (Checked.lift_eq_ok.1 h)
    · exact absurd h (by simp [reject])
  · split at h
    · exact Dense.full_of_mulVec (Checked.lift_eq_ok.1 h)
    · exact absurd h (by simp [reject])
  · split at h
    · exact Dense.full_of_matmul (Checked.lift_eq_ok.1 h)
    · exact absurd h (by simp [reject])
  · exact absurd h (by simp [reject])

/-- The host puts a product into a buffer of its own. -/
theorem adds_dotHost (lhs rhs : NDArray) : (dotHost lhs rhs).Adds := by
  unfold dotHost
  cases lhs.dt.numeric? with
  | none => exact .answer _
  | some N => exact .bind (.read _) fun _ => adds_ofDense _ _

theorem fresh_of_dotHost (h : dotHost lhs rhs w = (.ok a, w')) : Fresh w.store w'.store a := by
  unfold dotHost at h
  cases hN : lhs.dt.numeric? with
  -- an element type without arithmetic is refused
  | none =>
    rw [hN] at h
    exact absurd (congrArg Prod.fst h) (by simp [reject])
  | some N =>
    rw [hN] at h
    dsimp only at h
    rw [Action.bind_read_eq_ok] at h
    obtain ⟨d, hd, h⟩ := h
    exact fresh_of_ofDense (full_of_dotElements hd) h

/-- Both operands are shown to the bridge, which may do what it likes, but keeps the buffers. -/
theorem grows_announce (hb : bridges.Grow) (h : Handle) (lhs rhs : NDArray) :
    (announce bridges h lhs rhs).Grows :=
  .bind (Action.grows_call hb _ _) fun _ => Action.grows_call hb _ _

/-- **A dot product keeps all buffers**, wherever it is done. -/
theorem grows_dot (hb : bridges.Grow) (lhs rhs : NDArray) : (lhs.dot bridges rhs).Grows := by
  refine .bind (.answer _) fun _ => ?_
  cases selectBridge lhs rhs with
  | none => exact (adds_dotHost lhs rhs).grows
  | some h =>
    exact .bind (grows_announce hb h lhs rhs) fun _ =>
      .bind (adds_dotHost lhs rhs).grows fun _ => .pure _

/-- **A dot product is fresh.** It is computed on the host, also when a bridge has been told of
it. -/
theorem fresh_of_dot (hb : bridges.Grow) (h : lhs.dot bridges rhs w = (.ok a, w')) :
    Fresh w.store w'.store a := by
  unfold dot at h
  rw [Action.bind_answer_eq_ok] at h
  obtain ⟨u, -, h⟩ := h
  cases hselect : selectBridge lhs rhs with
  | none =>
    rw [hselect] at h
    exact fresh_of_dotHost h
  | some handle =>
    rw [hselect] at h
    dsimp only at h
    rw [Action.bind_eq_ok] at h
    obtain ⟨u, w₁, hannounce, h⟩ := h
    rw [Action.bind_eq_ok] at h
    obtain ⟨r, w₂, hr, h⟩ := h
    obtain ⟨heq, rfl⟩ := Prod.mk.inj h
    obtain rfl := Except.ok.inj heq
    -- the announcement may have made buffers, but it has not taken any away
    exact ((fresh_of_dotHost hr).withDevice _).since
      (grows_announce hb handle lhs rhs w _ w₁ hannounce)

theorem adds_matmulHost (lhs rhs : NDArray) (m p n : Nat) : (matmulHost lhs rhs m p n).Adds := by
  unfold matmulHost
  cases lhs.dt.numeric? with
  | none => exact .answer _
  | some N => exact .bind (.read _) fun _ => adds_ofDense _ _

theorem fresh_of_matmulHost {m p n : Nat} (h : matmulHost lhs rhs m p n w = (.ok a, w')) :
    Fresh w.store w'.store a := by
  unfold matmulHost at h
  cases hN : lhs.dt.numeric? with
  | none =>
    rw [hN] at h
    exact absurd (congrArg Prod.fst h) (by simp [reject])
  | some N =>
    rw [hN] at h
    dsimp only at h
    rw [Action.bind_read_eq_ok] at h
    obtain ⟨c, hc, h⟩ := h
    rw [Checked.bind_eq_ok] at hc
    obtain ⟨x, -, hc⟩ := hc
    rw [Checked.bind_eq_ok] at hc
    obtain ⟨y, -, hc⟩ := hc
    exact fresh_of_ofDense (Dense.full_of_matmul (Checked.lift_eq_ok.1 hc)) h

/-- **A product of matrices keeps all buffers**, wherever it is done. -/
theorem grows_matmul (hb : bridges.Grow) (lhs rhs : NDArray) : (lhs.matmul bridges rhs).Grows := by
  refine .bind (.answer _) fun _ => .bind (.answer _) fun sizes => ?_
  obtain ⟨m, p, n⟩ := sizes
  dsimp only
  cases selectBridge lhs rhs with
  | none => exact (adds_matmulHost lhs rhs m p n).grows
  | some h => exact grows_asked hb h _ _ _ _

/-- **A product of matrices is fresh**, done by a bridge or by the host. -/
theorem fresh_of_matmul (hb : bridges.Grow) (h : lhs.matmul bridges rhs w = (.ok a, w')) :
    Fresh w.store w'.store a := by
  unfold matmul at h
  -- the devices, and then the sizes, have been accepted
  rw [Action.bind_answer_eq_ok] at h
  obtain ⟨u, -, h⟩ := h
  rw [Action.bind_answer_eq_ok] at h
  obtain ⟨⟨m, p, n⟩, -, h⟩ := h
  dsimp only at h
  cases hselect : selectBridge lhs rhs with
  | none =>
    rw [hselect] at h
    exact fresh_of_matmulHost h
  | some handle =>
    rw [hselect] at h
    exact fresh_of_asked hb h

/-- **A factorization keeps all buffers**: the bridge is given two arrays made for it. -/
theorem grows_lu (hb : bridges.Grow) (a : NDArray) : (a.lu bridges).Grows := by
  refine .check ?_ ?_
  -- what follows the check is the same for either of its outcomes
  all_goals
    refine .bind (.answer _) fun n => ?_
    cases a.bridge? with
    | none => exact .answer _
    | some h =>
      exact .bind (adds_deepClone a).grows fun _ => .bind (adds_zeros _ _ _).grows fun _ =>
        .bind (Action.grows_call hb _ _) fun _ => .pure _

/-- **A factorization makes two arrays**, with a storage for each. -/
theorem fresh_of_lu (hb : bridges.Grow) {b : NDArray} (h : a.lu bridges w = (.ok (a', b), w')) :
    Fresh w.store w'.store a' ∧ Fresh w.store w'.store b ∧ a'.storage ≠ b.storage := by
  unfold lu at h
  dsimp only at h
  rw [Action.check_eq_ok, Action.bind_answer_eq_ok] at h
  obtain ⟨-, n, -, h⟩ := h
  cases hbridge : a.bridge? with
  | none =>
    rw [hbridge] at h
    exact absurd (congrArg Prod.fst h) (by simp [reject])
  | some handle =>
    rw [hbridge] at h
    dsimp only at h
    rw [Action.bind_eq_ok] at h
    obtain ⟨factors, w₁, hfactors, h⟩ := h
    rw [Action.bind_eq_ok] at h
    obtain ⟨pivots, w₂, hpivots, h⟩ := h
    rw [Action.bind_eq_ok] at h
    obtain ⟨u, w₃, hcall, h⟩ := h
    obtain ⟨heq, rfl⟩ := Prod.mk.inj h
    obtain ⟨rfl, rfl⟩ := Prod.mk.inj (Except.ok.inj heq)
    -- the factors are there before the pivots, and both before the call
    have hlast := Action.grows_call hb _ _ w₂ _ w₃ hcall
    have hmiddle := (adds_zeros _ _ _ w₁ _ w₂ hpivots).toExtends
    have hcopy := fresh_of_deepClone hfactors
    have hnext := fresh_of_zeros hpivots
    exact ⟨(hcopy.mono hmiddle).mono hlast,
      (hnext.mono hlast).since (adds_deepClone a w _ w₁ hfactors).toExtends,
      Nat.ne_of_lt (Nat.lt_of_lt_of_le hcopy.lt_nextId hnext.new)⟩

/-! ### Transforms -/

section Transforms

open Strided.Fourier

variable {F : LineTransform} {axes : Axes}

/-- The host puts a transform into a buffer of its own. -/
theorem adds_transformHost (F : LineTransform) (axes : Axes) (a : NDArray) :
    (transformHost F axes a).Adds := by
  have hbody : (if a.dt = .c64 then
      Action.read (fun s => a.toList s .c64) >>= fun items =>
        ofArray ⟨.c64, (transform F.single axes a.shape items).toArray⟩ a.shape a.device
    else
      Action.read (fun s => a.toComplex s) >>= fun items =>
        ofArray ⟨.c128, (transform F.double axes a.shape items).toArray⟩ a.shape
          a.device).Adds :=
    .ite (.bind (.read _) fun _ => adds_ofArray _ _ _)
      (.bind (.read _) fun _ => adds_ofArray _ _ _)
  exact .check hbody hbody

theorem fresh_of_transformHost {src : NDArray} (h : transformHost F axes src w = (.ok a, w')) :
    Fresh w.store w'.store a := by
  unfold transformHost at h
  dsimp only at h
  rw [Action.check_eq_ok] at h
  obtain ⟨-, h⟩ := h
  -- the transform is done in the precision of the elements, or else in double precision
  by_cases hdt : src.dt = .c64
  · rw [if_pos hdt, Action.bind_read_eq_ok] at h
    obtain ⟨items, -, h⟩ := h
    exact fresh_of_ofArray h
  · rw [if_neg hdt, Action.bind_read_eq_ok] at h
    obtain ⟨items, -, h⟩ := h
    exact fresh_of_ofArray h

/-- A transform along the last axis is refused, done by a bridge, or done on the host. -/
theorem fft_cases (bridges : Bridges) (F : LineTransform) (a : NDArray) :
    (a.fft bridges F = liftM (reject (.rankMismatch 1 0) : Answer NDArray)) ∨
      (∃ h, a.complexBridge? = some h ∧ a.fft bridges F = transformBridge bridges h a .fft) ∨
      a.fft bridges F = transformHost F .last a := by
  unfold fft
  split
  · exact .inl rfl
  · exact .inr (.inl ⟨_, by assumption, rfl⟩)
  · exact .inr (.inl ⟨_, by assumption, rfl⟩)
  · exact .inr (.inr rfl)

/-- One of planes is done by a bridge or on the host. -/
theorem fft2_cases (bridges : Bridges) (F : LineTransform) (a : NDArray) :
    (∃ h, a.complexBridge? = some h ∧ a.fft2 bridges F = transformBridge bridges h a .fft2) ∨
      a.fft2 bridges F = transformHost F .lastTwo a := by
  unfold fft2
  -- the array is on the device of a bridge, or it is not
  split
  · exact .inl ⟨_, by assumption, rfl⟩
  · exact .inr rfl

/-- **A transform of lines keeps all buffers.** -/
theorem grows_fft (hb : bridges.Grow) (F : LineTransform) (a : NDArray) :
    (a.fft bridges F).Grows := by
  rcases fft_cases bridges F a with hrefused | ⟨h, -, hbridge⟩ | hhost
  · rw [hrefused]
    exact .answer _
  · rw [hbridge]
    exact grows_asked hb h _ _ _ _
  · rw [hhost]
    exact (adds_transformHost F _ a).grows

/-- **A transform of lines is fresh.** -/
theorem fresh_of_fft {src : NDArray} (hb : bridges.Grow)
    (h : src.fft bridges F w = (.ok a, w')) : Fresh w.store w'.store a := by
  rcases fft_cases bridges F src with hrefused | ⟨handle, -, hbridge⟩ | hhost
  · rw [hrefused] at h
    exact absurd (congrArg Prod.fst h) (by simp [reject])
  · rw [hbridge] at h
    exact fresh_of_asked hb h
  · rw [hhost] at h
    exact fresh_of_transformHost h

/-- **A transform of planes keeps all buffers.** -/
theorem grows_fft2 (hb : bridges.Grow) (F : LineTransform) (a : NDArray) :
    (a.fft2 bridges F).Grows := by
  rcases fft2_cases bridges F a with ⟨h, -, hbridge⟩ | hhost
  · rw [hbridge]
    exact grows_asked hb h _ _ _ _
  · rw [hhost]
    exact (adds_transformHost F _ a).grows

/-- **A transform of planes is fresh.** -/
theorem fresh_of_fft2 {src : NDArray} (hb : bridges.Grow)
    (h : src.fft2 bridges F w = (.ok a, w')) : Fresh w.store w'.store a := by
  rcases fft2_cases bridges F src with ⟨handle, -, hbridge⟩ | hhost
  · rw [hbridge] at h
    exact fresh_of_asked hb h
  · rw [hhost] at h
    exact fresh_of_transformHost h

end Transforms

/-! ### Functions of elements -/

section Elementwise

open Elementwise

variable {out : Option NDArray} {r : NDArray}

/-- To hand a result on changes cells of the output array at most. -/
theorem grows_deliver (r : NDArray) (out : Option NDArray) : (deliver r out).Grows := by
  cases out with
  | none => exact .pure _
  | some out => exact .bind (grows_copyFrom out r) fun _ => .pure _

/-- **What is delivered** is the result itself, or the output array if there is one. -/
theorem deliver_eq_ok (h : deliver r out w = (.ok a, w')) :
    (out = none ∧ a = r ∧ w' = w) ∨ out = some a := by
  cases out with
  | none =>
    obtain ⟨heq, rfl⟩ := Prod.mk.inj h
    exact .inl ⟨rfl, (Except.ok.inj heq).symm, rfl⟩
  | some out =>
    unfold deliver at h
    rw [Action.bind_eq_ok] at h
    obtain ⟨u, w₁, -, h⟩ := h
    exact .inr (congrArg some (Except.ok.inj (Prod.mk.inj h).1))

/-- **Where a delivered result lies**: in the output array, if there is one, and else in an array
that is new. -/
def Delivered (before s : Store) (out : Option NDArray) (a : NDArray) : Prop :=
  match out with
  | none => Fresh before s a
  | some o => a = o

theorem Delivered.mono {before : Store} (h : Delivered before s out a) {s' : Store}
    (hs : s.Extends s') : Delivered before s' out a := by
  cases out with
  | none => exact Fresh.mono h hs
  | some o => exact h

/-- A new result is delivered. -/
theorem delivered_of_deliver {before : Store} (hr : Fresh before w.store r)
    (h : deliver r out w = (.ok a, w')) : Delivered before w'.store out a := by
  -- without an output array the result is what was made
  rcases deliver_eq_ok h with ⟨rfl, rfl, rfl⟩ | rfl
  · exact hr
  · rfl

/-- The results of a function go into a buffer of their own. -/
theorem adds_mapElements (a : NDArray) {dt : DType} (k : Kernel dt) : (a.mapElements k).Adds :=
  .bind (.read _) fun _ => adds_ofArray _ _ _

theorem fresh_of_mapElements {src : NDArray} {dt : DType} {k : Kernel dt}
    (h : src.mapElements k w = (.ok a, w')) : Fresh w.store w'.store a := by
  unfold mapElements at h
  rw [Action.bind_read_eq_ok] at h
  obtain ⟨items, -, h⟩ := h
  exact fresh_of_ofArray h

theorem adds_zipElements (a b : NDArray) {dt : DType} (f : dt.Elem → dt.Elem → dt.Elem) :
    (a.zipElements b f).Adds := by
  have hbody : (Action.read (fun s => a.toList s dt) >>= fun xs =>
      Action.read (fun s => b.toList s dt) >>= fun ys =>
        ofArray ⟨dt, (List.zipWith f xs ys).toArray⟩ a.shape a.device).Adds :=
    .bind (.read _) fun _ => .bind (.read _) fun _ => adds_ofArray _ _ _
  exact .check (.check hbody hbody) (.check hbody hbody)

theorem fresh_of_zipElements {x y : NDArray} {dt : DType} {f : dt.Elem → dt.Elem → dt.Elem}
    (h : x.zipElements y f w = (.ok a, w')) : Fresh w.store w'.store a := by
  unfold zipElements at h
  dsimp only at h
  rw [Action.check_eq_ok, Action.check_eq_ok, Action.bind_read_eq_ok] at h
  obtain ⟨-, -, xs, -, h⟩ := h
  rw [Action.bind_read_eq_ok] at h
  obtain ⟨ys, -, h⟩ := h
  exact fresh_of_ofArray h

/-- **A function of one argument keeps all buffers.** -/
theorem grows_mapUnary (f : UnaryFunction) (a : NDArray) (out : Option NDArray) :
    (a.mapUnary f out).Grows := by
  unfold mapUnary
  cases f.kernel? a.dt with
  | none => exact .answer _
  | some k => exact .bind (adds_mapElements a k).grows fun r => grows_deliver r out

/-- **Its result is delivered.** -/
theorem delivered_of_mapUnary {f : UnaryFunction} {src : NDArray}
    (h : src.mapUnary f out w = (.ok a, w')) : Delivered w.store w'.store out a := by
  unfold mapUnary at h
  cases hk : f.kernel? src.dt with
  | none =>
    -- a function that the element type does not have is refused
    rw [hk] at h
    exact absurd (congrArg Prod.fst h) (by simp [reject])
  | some k =>
    rw [hk] at h
    dsimp only at h
    rw [Action.bind_eq_ok] at h
    obtain ⟨r, w₁, hr, h⟩ := h
    exact delivered_of_deliver (fresh_of_mapElements hr) h

/-- **A function of two arguments keeps all buffers.** -/
theorem grows_mapBinary (f : BinaryFunction) (a b : NDArray) (out : Option NDArray) :
    (a.mapBinary f b out).Grows := by
  unfold mapBinary
  cases f.kernel? a.dt with
  | none => exact .answer _
  | some k => exact .bind (adds_zipElements a b k).grows fun r => grows_deliver r out

/-- **Its result is delivered too.** -/
theorem delivered_of_mapBinary {f : BinaryFunction} {x y : NDArray}
    (h : x.mapBinary f y out w = (.ok a, w')) : Delivered w.store w'.store out a := by
  unfold mapBinary at h
  cases hk : f.kernel? x.dt with
  | none =>
    rw [hk] at h
    exact absurd (congrArg Prod.fst h) (by simp [reject])
  | some k =>
    rw [hk] at h
    dsimp only at h
    rw [Action.bind_eq_ok] at h
    obtain ⟨r, w₁, hr, h⟩ := h
    exact delivered_of_deliver (fresh_of_zipElements hr) h

/-- **Taking numbers apart keeps all buffers**, those of both outputs included. -/
theorem grows_modf (a : NDArray) (out₁ out₂ : Option NDArray) : (a.modf out₁ out₂).Grows := by
  unfold modf
  cases reals? a.dt with
  | none => exact .answer _
  | some R =>
    exact .bind (adds_mapElements a _).grows fun r₁ => .bind (adds_mapElements a _).grows fun r₂ =>
      .bind (grows_deliver r₁ out₁) fun _ => .bind (grows_deliver r₂ out₂) fun _ => .pure _

/-- **Both results are delivered**, and two new ones do not share a storage. -/
theorem delivered_of_modf {src b : NDArray} {out₁ out₂ : Option NDArray}
    (h : src.modf out₁ out₂ w = (.ok (a, b), w')) :
    Delivered w.store w'.store out₁ a ∧ Delivered w.store w'.store out₂ b ∧
      (out₁ = none → out₂ = none → a.storage ≠ b.storage) := by
  unfold modf at h
  cases hR : reals? src.dt with
  | none =>
    rw [hR] at h
    exact absurd (congrArg Prod.fst h) (by simp [reject])
  | some R =>
    rw [hR] at h
    dsimp only at h
    rw [Action.bind_eq_ok] at h
    obtain ⟨r₁, w₁, hr₁, h⟩ := h
    rw [Action.bind_eq_ok] at h
    obtain ⟨r₂, w₂, hr₂, h⟩ := h
    rw [Action.bind_eq_ok] at h
    obtain ⟨x, w₃, hx, h⟩ := h
    rw [Action.bind_eq_ok] at h
    obtain ⟨y, w₄, hy, h⟩ := h
    obtain ⟨heq, rfl⟩ := Prod.mk.inj h
    obtain ⟨rfl, rfl⟩ := Prod.mk.inj (Except.ok.inj heq)
    -- the first result is there when the second one is made, and both when they are delivered
    have hstart := (adds_mapElements src _ w _ w₁ hr₁).toExtends
    have hmade := (adds_mapElements src _ w₁ _ w₂ hr₂).toExtends
    have hfirst := grows_deliver r₁ out₁ w₂ _ w₃ hx
    have hsecond := grows_deliver r₂ out₂ w₃ _ w₄ hy
    have hfraction := (fresh_of_mapElements hr₁).mono hmade
    have hfloor := fresh_of_mapElements hr₂
    refine ⟨(delivered_of_deliver hfraction hx).mono hsecond,
      delivered_of_deliver ((hfloor.since hstart).mono hfirst) hy, ?_⟩
    rintro rfl rfl
    rcases deliver_eq_ok hx with ⟨-, rfl, -⟩ | hout
    · rcases deliver_eq_ok hy with ⟨-, rfl, -⟩ | hout
      · exact Nat.ne_of_lt (Nat.lt_of_lt_of_le (fresh_of_mapElements hr₁).lt_nextId hfloor.new)
      · exact absurd hout (by simp)
    · exact absurd hout (by simp)

end Elementwise

end NDArray

/-! ### The reference bridge -/

namespace Bridge

theorem grow_idle : idle.Grow := fun _ _ w => .refl w.store

/-- An answer by way of a computation does to the store what the computation does. -/
theorem leads_byAction {R : Store → Store → Prop} {x : Action Unit} (hx : x.Leads R) (w : World) :
    R w.store (byAction x w).2 := by
  unfold byAction
  -- three ways to end, and the store is that of the computation in each
  rcases hw : x w with ⟨(e | f) | u, w'⟩
  · exact hx w _ w' hw
  · exact hx w _ w' hw
  · exact hx w _ w' hw

/-- The reference bridge multiplies on the host and copies the product. -/
theorem grows_multiply (lhs rhs dst : NDArray) : (multiply lhs rhs dst).Grows :=
  .bind (NDArray.grows_matmul grow_idle _ _) fun _ => NDArray.grows_copyFrom _ _

/-- For a factorization it fills one array and numbers the rows in the other. -/
theorem grows_pseudoFactorize (factors pivots : NDArray) : (pseudoFactorize factors pivots).Grows :=
  .bind (NDArray.grows_fill _ _ _) fun _ => .bind (.checked _) fun _ => NDArray.grows_assign _ _ _

/-- **The reference bridge keeps all buffers**, whatever it refuses. -/
theorem grow_reference (refusals : Handle → Request → Option Refusal) :
    Bridges.Grow fun h => reference h.name (refusals h) := by
  intro h r w
  dsimp only
  unfold reference
  cases refusals h r with
  | some refusal => cases refusal <;> exact .refl _
  | none =>
    -- a request that is not refused is done by operations of the host
    cases r with
    | handleArray a => exact .refl _
    | matmul lhs rhs dst => exact leads_byAction (grows_multiply lhs rhs dst) w
    | lu factors pivots => exact leads_byAction (grows_pseudoFactorize factors pivots) w
    | fft src dst => exact leads_byAction (NDArray.grows_copyFrom dst src) w
    | fft2 src dst => exact leads_byAction (NDArray.grows_copyFrom dst src) w

end Bridge

end Strided
