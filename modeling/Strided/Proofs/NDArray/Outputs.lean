import Strided.Proofs.NDArray.AllOrNothing
import Strided.Proofs.NDArray.Copies

/-!
# Outputs receive what would have been returned

A function with an output array is the function without one, followed by a copy
(`NDArray.mapUnary_eq`, `NDArray.mapBinary_eq`, `NDArray.modf_eq`). Its result is finished, and
lies in a buffer of its own, when the output is written to, and so the output may overlap the
arguments in any way, or be one of them: it shows afterwards what the function makes of the
elements that were there before. `NDArray.FillsOutput` says this for one output and
`NDArray.FillsOutputs` for the two of a split, which must not overlap each other; the main result,
`NDArray.outputs_receive`, says it for all functions of elements.

The proof is the same for every function (`NDArray.fillsOutput_of_eq`). It needs to know of a
function that it only adds buffers and that its result can be read.
-/

namespace Strided

namespace NDArray

open Elementwise

variable {s : Store} {x y r o o₁ o₂ : NDArray} {w w' : World}

/-! ### What a function shows -/

/-- A new array of given elements shows them. -/
theorem shown_of_ofArray {dt : DType} {cells : Array dt.Elem} {shape : Shape} {d : Device}
    (h : ofArray ⟨dt, cells⟩ shape d w = (.ok r, w')) :
    r.shape = shape ∧ r.toList w'.store dt = .ok cells.toList := by
  unfold ofArray at h
  rw [Action.bind_checked_eq_ok] at h
  obtain ⟨n, hn, h⟩ := h
  dsimp only at h
  rw [Action.check_eq_ok, Action.bind_checked_eq_ok] at h
  obtain ⟨hsize, u, hcap, h⟩ := h
  obtain ⟨-, v, hv, rfl, rfl⟩ := ofBuffer_eq_ok.1 h
  have hnumel : shape.numel = .ok cells.size := hn.trans (congrArg Except.ok hsize.symm)
  -- the array is row-major over the whole of its buffer
  exact ⟨View.shape_of_contiguous hv,
    (Whole.new hnumel hv (DType.checkCapacity_eq_ok_iff.1 hcap) w.store d).toList_eq⟩

/-- **The images of the elements** that `x` shows in one store, shown by `r` in another. -/
def IsMap (f : UnaryFunction) (x : NDArray) (s : Store) (r : NDArray) (s' : Store) : Prop :=
  r.shape = x.shape ∧ ∃ (k : Kernel x.dt) (xs : List x.dt.Elem), f.kernel? x.dt = some k ∧
    x.toList s x.dt = .ok xs ∧ r.toList s' k.result = .ok (xs.map k.apply)

/-- **The images of the pairs of elements** that `x` and `y` show in one store, shown by `r` in
another. -/
def IsZip (f : BinaryFunction) (x y : NDArray) (s : Store) (r : NDArray) (s' : Store) : Prop :=
  r.shape = x.shape ∧ ∃ (g : x.dt.Elem → x.dt.Elem → x.dt.Elem) (xs ys : List x.dt.Elem),
    f.kernel? x.dt = some g ∧ x.toList s x.dt = .ok xs ∧ y.toList s x.dt = .ok ys ∧
    r.toList s' x.dt = .ok (List.zipWith g xs ys)

/-- **The fractions and the floors of the elements** that `x` shows in one store, shown by two
arrays in another. -/
def IsSplit (x : NDArray) (s : Store) (r₁ r₂ : NDArray) (s' : Store) : Prop :=
  r₁.shape = x.shape ∧ r₂.shape = x.shape ∧ ∃ (R : Reals x.dt.Elem) (xs : List x.dt.Elem),
    reals? x.dt = some R ∧ x.toList s x.dt = .ok xs ∧
    r₁.toList s' x.dt = .ok (xs.map R.fraction) ∧ r₂.toList s' x.dt = .ok (xs.map R.floor)

/-- A new array of images shows them. -/
theorem shown_of_mapElements {dt : DType} {k : Kernel dt}
    (h : x.mapElements k w = (.ok r, w')) :
    r.shape = x.shape ∧ ∃ xs, x.toList w.store dt = .ok xs ∧
      r.toList w'.store k.result = .ok (xs.map k.apply) := by
  unfold mapElements at h
  rw [Action.bind_read_eq_ok] at h
  obtain ⟨xs, hxs, h⟩ := h
  obtain ⟨hshape, hread⟩ := shown_of_ofArray h
  exact ⟨hshape, xs, hxs, hread⟩

theorem shown_of_zipElements {dt : DType} {g : dt.Elem → dt.Elem → dt.Elem}
    (h : x.zipElements y g w = (.ok r, w')) :
    r.shape = x.shape ∧ ∃ xs ys, x.toList w.store dt = .ok xs ∧ y.toList w.store dt = .ok ys ∧
      r.toList w'.store dt = .ok (List.zipWith g xs ys) := by
  unfold zipElements at h
  dsimp only at h
  rw [Action.check_eq_ok, Action.check_eq_ok, Action.bind_read_eq_ok] at h
  obtain ⟨-, -, xs, hxs, h⟩ := h
  rw [Action.bind_read_eq_ok] at h
  obtain ⟨ys, hys, h⟩ := h
  obtain ⟨hshape, hread⟩ := shown_of_ofArray h
  exact ⟨hshape, xs, ys, hxs, hys, hread⟩

/-- **A function of one argument** returns the images of its elements. -/
theorem isMap_of_mapUnary {f : UnaryFunction} (h : x.mapUnary f none w = (.ok r, w')) :
    IsMap f x w.store r w'.store := by
  unfold mapUnary at h
  cases hk : f.kernel? x.dt with
  | none =>
    rw [hk] at h
    exact absurd (congrArg Prod.fst h) (by simp [reject])
  | some k =>
    rw [hk] at h
    dsimp only at h
    rw [Action.bind_eq_ok] at h
    obtain ⟨r', w₁, hr, h⟩ := h
    -- without an output the result is what has been made
    obtain ⟨heq, rfl⟩ := Prod.mk.inj h
    obtain rfl := Except.ok.inj heq
    obtain ⟨hshape, xs, hxs, hread⟩ := shown_of_mapElements hr
    exact ⟨hshape, k, xs, hk, hxs, hread⟩

/-- **A function of two arguments** returns the images of the pairs. -/
theorem isZip_of_mapBinary {f : BinaryFunction} (h : x.mapBinary f y none w = (.ok r, w')) :
    IsZip f x y w.store r w'.store := by
  unfold mapBinary at h
  cases hk : f.kernel? x.dt with
  | none =>
    rw [hk] at h
    exact absurd (congrArg Prod.fst h) (by simp [reject])
  | some g =>
    rw [hk] at h
    dsimp only at h
    rw [Action.bind_eq_ok] at h
    obtain ⟨r', w₁, hr, h⟩ := h
    obtain ⟨heq, rfl⟩ := Prod.mk.inj h
    obtain rfl := Except.ok.inj heq
    obtain ⟨hshape, xs, ys, hxs, hys, hread⟩ := shown_of_zipElements hr
    exact ⟨hshape, g, xs, ys, hk, hxs, hys, hread⟩

/-! ### A function and then a copy -/

/-- **A function of one argument with an output** is the one without, and then a delivery. -/
theorem mapUnary_eq (f : UnaryFunction) (x : NDArray) (out : Option NDArray) (w : World) :
    x.mapUnary f out w = (x.mapUnary f none >>= fun r => deliver r out) w := by
  unfold mapUnary
  cases f.kernel? x.dt with
  | none => rfl
  | some k =>
    dsimp only
    rcases hr : x.mapElements k w with ⟨e | r, w₁⟩
    · rw [Action.bind_of_error hr, Action.bind_of_error (Action.bind_of_error hr)]
    · -- the result is the same one, and it has been made before the output is looked at
      have hplain : (x.mapElements k >>= fun r => deliver r none) w = (.ok r, w₁) :=
        Action.bind_of_ok hr
      rw [Action.bind_of_ok hr, Action.bind_of_ok hplain]

/-- **A function of two arguments with an output** is the one without, and then a delivery. -/
theorem mapBinary_eq (f : BinaryFunction) (x y : NDArray) (out : Option NDArray) (w : World) :
    x.mapBinary f y out w = (x.mapBinary f y none >>= fun r => deliver r out) w := by
  unfold mapBinary
  cases f.kernel? x.dt with
  | none => rfl
  | some g =>
    dsimp only
    rcases hr : x.zipElements y g w with ⟨e | r, w₁⟩
    · rw [Action.bind_of_error hr, Action.bind_of_error (Action.bind_of_error hr)]
    · have hplain : (x.zipElements y g >>= fun r => deliver r none) w = (.ok r, w₁) :=
        Action.bind_of_ok hr
      rw [Action.bind_of_ok hr, Action.bind_of_ok hplain]

/-- Without an output nothing is written but the result. -/
theorem adds_mapUnary (f : UnaryFunction) (x : NDArray) : (x.mapUnary f none).Adds := by
  unfold mapUnary
  cases f.kernel? x.dt with
  | none => exact .answer _
  | some k => exact .bind (adds_mapElements x k) fun _ => .pure _

theorem adds_mapBinary (f : BinaryFunction) (x y : NDArray) : (x.mapBinary f y none).Adds := by
  unfold mapBinary
  cases f.kernel? x.dt with
  | none => exact .answer _
  | some g => exact .bind (adds_zipElements x y g) fun _ => .pure _

/-! ### One output -/

/-- **An output is filled** with what a function would have returned without it. The function has
a result with the output exactly when it has one without it that the output takes. Then the output
is returned, it shows what the other result shows, and the cells it does not cover are as they
were. If there is no result no cell has changed. -/
structure FillsOutput (run : Option NDArray → Action NDArray) (o : NDArray) (w : World) :
    Prop where
  ok_iff : (∃ b w', run (some o) w = (.ok b, w')) ↔ ∃ r w₁, run none w = (.ok r, w₁) ∧ o.Takes r
  received : ∀ {r w₁ b w'}, run none w = (.ok r, w₁) → run (some o) w = (.ok b, w') →
    b = o ∧ (∃ items, r.toList w₁.store o.dt = .ok items ∧ o.toList w'.store o.dt = .ok items) ∧
      w.store.ChangedOnly o.Covers w'.store
  failed : ∀ {e w'}, run (some o) w = (.error e, w') → w.store.Agrees w'.store

/-- **A result that can be read is delivered** to an output that takes it, wherever that lies. -/
theorem exists_deliver {dt : DType} {items : List dt.Elem} (ho : o.Writable w.store)
    (hd : o.view.Distinct) (ht : o.Takes r) (hread : r.toList w.store dt = .ok items) :
    ∃ w', deliver r (some o) w = (.ok o, w') ∧ o.toList w'.store dt = .ok items ∧
      w.store.ChangedOnly o.Covers w'.store := by
  obtain ⟨cells, hbuf, hfits, hwalks⟩ := ho
  -- the copy gathers the result before it writes, so the two may overlap
  obtain ⟨w', hcopy, -, hshown, hrest⟩ := exists_copyFrom hbuf hfits hwalks ht.1 ht.2 hread
  refine ⟨w', ?_, hshown hd, hrest⟩
  unfold deliver
  exact Action.bind_of_ok hcopy

/-- **An output is left as it was** by a run that fails where no result could be delivered. -/
theorem FillsOutput.of_failure {run : Option NDArray → Action NDArray} {e : Failure}
    (hfail : run (some o) w = (.error e, w')) (hs : w.store.Agrees w'.store)
    (hnone : ∀ r w₁, run none w = (.ok r, w₁) → ¬o.Takes r) : FillsOutput run o w where
  ok_iff := by
    refine iff_of_false ?_ ?_
    · rintro ⟨b, w₁, h⟩
      exact Action.error_ne_ok hfail h
    · rintro ⟨r, w₁, h, ht⟩
      exact hnone r w₁ h ht
  received _ h := absurd h (Action.error_ne_ok hfail)
  failed h := by
    obtain rfl := congrArg Prod.snd (hfail.symm.trans h)
    exact hs

/-- A function that only adds buffers, and is followed by a delivery, fills the output. -/
theorem fillsOutput_of_eq {run : Option NDArray → Action NDArray}
    (hrun : run (some o) w = (run none >>= fun r => deliver r (some o)) w)
    (hadds : (run none).Adds)
    (hread : ∀ r w₁, run none w = (.ok r, w₁) → ∃ items, r.toList w₁.store r.dt = .ok items)
    (ho : o.Writable w.store) (hd : o.view.Distinct) : FillsOutput run o w := by
  rcases hplain : run none w with ⟨e | r, w₁⟩
  · -- there is nothing to deliver
    rw [Action.bind_of_error hplain] at hrun
    exact .of_failure hrun (hadds w _ w₁ hplain) fun r w₂ h => absurd h (Action.error_ne_ok hplain)
  have hs : w.store.Agrees w₁.store := hadds w _ w₁ hplain
  rw [Action.bind_of_ok hplain] at hrun
  by_cases ht : o.Takes r
  · obtain ⟨items, hitems⟩ : ∃ items, r.toList w₁.store o.dt = .ok items := by
      rw [← ht.2]
      exact hread r w₁ hplain
    obtain ⟨w₂, hdeliver, hshown, hrest⟩ := exists_deliver (ho.mono hs.toExtends) hd ht hitems
    rw [hdeliver] at hrun
    refine ⟨iff_of_true ⟨o, w₂, hrun⟩ ⟨r, w₁, hplain, ht⟩, fun hr hb => ?_,
      fun h => absurd hrun (Action.error_ne_ok h)⟩
    -- both runs have one outcome each, the ones that have just been found
    obtain ⟨rfl, rfl⟩ := Action.ok_unique hplain hr
    obtain ⟨rfl, rfl⟩ := Action.ok_unique hrun hb
    exact ⟨rfl, ⟨items, hitems, hshown⟩, hs.trans_changedOnly hrest⟩
  · -- a refused delivery comes after the last change
    obtain ⟨e, hrefused⟩ := deliver_of_not_takes ht w₁
    rw [hrefused] at hrun
    refine .of_failure hrun hs fun r' w₂ h => ?_
    obtain ⟨rfl, -⟩ := Action.ok_unique hplain h
    exact ht

/-- What has been read has the element type it was read with. -/
theorem exists_toList_self {dt : DType} {items : List dt.Elem} (h : r.toList s dt = .ok items) :
    ∃ items, r.toList s r.dt = .ok items := by
  obtain rfl := (of_toList h).1
  exact ⟨items, h⟩

/-- **Functions of one argument fill their output.** -/
theorem fillsOutput_mapUnary (f : UnaryFunction) (x : NDArray) (ho : o.Writable w.store)
    (hd : o.view.Distinct) : FillsOutput (x.mapUnary f) o w := by
  refine fillsOutput_of_eq (mapUnary_eq f x (some o) w) (adds_mapUnary f x) (fun r w₁ h => ?_) ho hd
  obtain ⟨-, k, xs, -, -, hread⟩ := isMap_of_mapUnary h
  exact exists_toList_self hread

/-- **Functions of two arguments fill their output.** -/
theorem fillsOutput_mapBinary (f : BinaryFunction) (x y : NDArray) (ho : o.Writable w.store)
    (hd : o.view.Distinct) : FillsOutput (x.mapBinary f y) o w := by
  refine fillsOutput_of_eq (mapBinary_eq f x y (some o) w) (adds_mapBinary f x y)
    (fun r w₁ h => ?_) ho hd
  obtain ⟨-, g, xs, ys, -, -, -, hread⟩ := isZip_of_mapBinary h
  exact exists_toList_self hread

/-! ### Two outputs -/

/-- **Two outputs are filled** with the fractions and the floors that a split would have returned
without them. -/
structure FillsOutputs (x o₁ o₂ : NDArray) (w : World) : Prop where
  ok_iff : (∃ b w', x.modf (some o₁) (some o₂) w = (.ok b, w')) ↔
    ∃ r w₁, x.modf none none w = (.ok r, w₁)
  received : ∀ {r₁ r₂ w₁ b w'}, x.modf none none w = (.ok (r₁, r₂), w₁) →
    x.modf (some o₁) (some o₂) w = (.ok b, w') →
    b = (o₁, o₂) ∧
      (∃ items, r₁.toList w₁.store x.dt = .ok items ∧ o₁.toList w'.store x.dt = .ok items) ∧
      (∃ items, r₂.toList w₁.store x.dt = .ok items ∧ o₂.toList w'.store x.dt = .ok items) ∧
      w.store.ChangedOnly (fun id p => o₁.Covers id p ∨ o₂.Covers id p) w'.store
  failed : ∀ {e w'}, x.modf (some o₁) (some o₂) w = (.error e, w') → w.store.Agrees w'.store

/-- **A split with outputs** is the one without, and then two deliveries. -/
theorem modf_eq (x : NDArray) (out₁ out₂ : Option NDArray) (w : World) :
    x.modf out₁ out₂ w = (x.modf none none >>= fun r => deliver r.1 out₁ >>= fun a =>
      deliver r.2 out₂ >>= fun b => pure (a, b)) w := by
  cases hR : reals? x.dt with
  | none =>
    unfold modf
    rw [hR]
    rfl
  | some R =>
    rcases h₁ : x.mapElements (⟨x.dt, R.fraction⟩ : Kernel x.dt) w with ⟨e | r₁, w₁⟩
    · -- the fractions cannot be made, with outputs or without
      have hstop : ∀ out₁ out₂, x.modf out₁ out₂ w = (.error e, w₁) := by
        intro out₁ out₂
        unfold modf
        rw [hR]
        exact Action.bind_of_error h₁
      rw [hstop, Action.bind_of_error (hstop none none)]
    rcases h₂ : x.mapElements (⟨x.dt, R.floor⟩ : Kernel x.dt) w₁ with ⟨e | r₂, w₂⟩
    · -- the fractions are there, but the floors cannot be made
      have hstop : ∀ out₁ out₂, x.modf out₁ out₂ w = (.error e, w₂) := by
        intro out₁ out₂
        unfold modf
        rw [hR]
        exact (Action.bind_of_ok h₁).trans (Action.bind_of_error h₂)
      rw [hstop, Action.bind_of_error (hstop none none)]
    · -- both parts have been made, and are delivered in the same order
      have hgo : ∀ out₁ out₂, x.modf out₁ out₂ w = (deliver r₁ out₁ >>= fun a =>
          deliver r₂ out₂ >>= fun b => pure (a, b)) w₂ := by
        intro out₁ out₂
        unfold modf
        rw [hR]
        exact (Action.bind_of_ok h₁).trans (Action.bind_of_ok h₂)
      rw [hgo, Action.bind_of_ok (hgo none none)]

theorem adds_modf (x : NDArray) : (x.modf none none).Adds := by
  unfold modf
  cases reals? x.dt with
  | none => exact .answer _
  | some R =>
    exact .bind (adds_mapElements x _) fun _ => .bind (adds_mapElements x _) fun _ =>
      .bind (.pure _) fun _ => .bind (.pure _) fun _ => .pure _

/-- Without outputs both parts are new arrays, made one after the other. -/
theorem isSplit_of_modf {r₁ r₂ : NDArray} (h : x.modf none none w = (.ok (r₁, r₂), w')) :
    IsSplit x w.store r₁ r₂ w'.store ∧ w.store.nextId ≤ r₂.storage := by
  unfold modf at h
  cases hR : reals? x.dt with
  | none =>
    rw [hR] at h
    exact absurd (congrArg Prod.fst h) (by simp [reject])
  | some R =>
    rw [hR] at h
    dsimp only at h
    rw [Action.bind_eq_ok] at h
    obtain ⟨a, w₁, ha, h⟩ := h
    rw [Action.bind_eq_ok] at h
    obtain ⟨b, w₂, hb, h⟩ := h
    obtain ⟨heq, rfl⟩ := Prod.mk.inj h
    obtain ⟨rfl, rfl⟩ := Prod.mk.inj (Except.ok.inj heq)
    have hs₁ : w.store.Agrees w₁.store := adds_mapElements x _ w _ w₁ ha
    have hs₂ : w₁.store.Agrees w₂.store := adds_mapElements x _ w₁ _ w₂ hb
    obtain ⟨hshape₁, xs, hxs, hfraction⟩ := shown_of_mapElements ha
    obtain ⟨hshape₂, xs', hxs', hfloor⟩ := shown_of_mapElements hb
    -- the argument shows the same elements twice
    obtain rfl := Except.ok.inj ((toList_of_agrees hxs hs₁).symm.trans hxs')
    exact ⟨⟨hshape₁, hshape₂, R, xs, hR, hxs, toList_of_agrees hfraction hs₂, hfloor⟩,
      le_trans hs₁.toExtends.nextId_le (fresh_of_mapElements hb).new⟩

/-- **Two results that can be read are delivered** to two outputs that do not overlap each other,
if the second result is not written to with the first. -/
theorem exists_deliveries {r₁ r₂ : NDArray} {dt : DType} {items₁ items₂ : List dt.Elem}
    (ho₁ : o₁.Writable w.store) (hd₁ : o₁.view.Distinct) (ho₂ : o₂.Writable w.store)
    (hd₂ : o₂.view.Distinct) (hapart : ∀ id p, o₁.Covers id p → ¬o₂.Covers id p)
    (ht₁ : o₁.Takes r₁) (ht₂ : o₂.Takes r₂) (hne : r₂.storage ≠ o₁.storage)
    (hread₁ : r₁.toList w.store dt = .ok items₁) (hread₂ : r₂.toList w.store dt = .ok items₂) :
    ∃ w', (deliver r₁ (some o₁) >>= fun a => deliver r₂ (some o₂) >>= fun b => pure (a, b)) w
        = (.ok (o₁, o₂), w') ∧
      o₁.toList w'.store dt = .ok items₁ ∧ o₂.toList w'.store dt = .ok items₂ ∧
      w.store.ChangedOnly (fun id p => o₁.Covers id p ∨ o₂.Covers id p) w'.store := by
  obtain ⟨w₁, hfirst, hshown₁, hrest₁⟩ := exists_deliver ho₁ hd₁ ht₁ hread₁
  have hext := hrest₁.toExtends
  -- the second result is still there
  have hkept : r₂.toList w₁.store dt = .ok items₂ := by
    obtain ⟨cells, hbuf⟩ := exists_backed_of_toList hread₂
    rw [toList_congr ((hrest₁.buffer?_eq hbuf fun p hp => hne hp.1).trans hbuf.symm)]
    exact hread₂
  obtain ⟨w₂, hsecond, hshown₂, hrest₂⟩ := exists_deliver (ho₂.mono hext) hd₂ ht₂ hkept
  refine ⟨w₂, ?_, ?_, hshown₂, ?_⟩
  · rw [Action.bind_of_ok hfirst, Action.bind_of_ok hsecond]
    rfl
  · -- the first output is not touched by the second delivery
    obtain ⟨cells, hbuf, hfits, hwalks⟩ := ho₁.mono hext
    exact toList_of_changedOnly hrest₂ hbuf hfits hwalks (fun p hp => hapart _ p ⟨rfl, hp⟩) hshown₁
  · exact (hrest₁.mono fun _ _ => .inl).trans (hrest₂.mono fun _ _ => .inr)

/-- **Outputs that do not overlap each other are filled.** They may overlap the argument. -/
theorem fillsOutputs_modf (ho₁ : o₁.Writable w.store) (hd₁ : o₁.view.Distinct)
    (ho₂ : o₂.Writable w.store) (hd₂ : o₂.view.Distinct)
    (hapart : ∀ id p, o₁.Covers id p → ¬o₂.Covers id p) (ht₁ : o₁.Takes x) (ht₂ : o₂.Takes x) :
    FillsOutputs x o₁ o₂ w := by
  have hrun := modf_eq x (some o₁) (some o₂) w
  rcases hplain : x.modf none none w with ⟨e | ⟨r₁, r₂⟩, w₁⟩
  · -- there is nothing to deliver
    rw [Action.bind_of_error hplain] at hrun
    refine ⟨iff_of_false ?_ ?_, fun h => absurd h (Action.error_ne_ok hplain), fun h => ?_⟩
    · rintro ⟨b, w', h⟩
      exact Action.error_ne_ok hrun h
    · rintro ⟨r, w₂, h⟩
      exact Action.error_ne_ok hplain h
    · obtain rfl := congrArg Prod.snd (hrun.symm.trans h)
      exact adds_modf x w _ w₁ hplain
  have hs : w.store.Agrees w₁.store := adds_modf x w _ w₁ hplain
  obtain ⟨⟨hshape₁, hshape₂, R, xs, -, -, hread₁, hread₂⟩, hnew⟩ := isSplit_of_modf hplain
  have htakes₁ : o₁.Takes r₁ := ⟨hshape₁.trans ht₁.1, (of_toList hread₁).1.symm.trans ht₁.2⟩
  have htakes₂ : o₂.Takes r₂ := ⟨hshape₂.trans ht₂.1, (of_toList hread₂).1.symm.trans ht₂.2⟩
  -- the outputs were there before the results
  have hne : r₂.storage ≠ o₁.storage := by
    obtain ⟨cells, hbuf, -⟩ := ho₁
    exact Nat.ne_of_gt (Nat.lt_of_lt_of_le (Store.lt_nextId hbuf) hnew)
  obtain ⟨w₂, hboth, hshown₁, hshown₂, hrest⟩ :=
    exists_deliveries (ho₁.mono hs.toExtends) hd₁ (ho₂.mono hs.toExtends) hd₂ hapart htakes₁
      htakes₂ hne hread₁ hread₂
  rw [Action.bind_of_ok hplain, hboth] at hrun
  refine ⟨iff_of_true ⟨_, w₂, hrun⟩ ⟨_, w₁, hplain⟩, fun hr hb => ?_,
    fun h => absurd hrun (Action.error_ne_ok h)⟩
  obtain ⟨heq, rfl⟩ := Action.ok_unique hplain hr
  obtain ⟨rfl, rfl⟩ := Prod.mk.inj heq
  obtain ⟨rfl, rfl⟩ := Action.ok_unique hrun hb
  exact ⟨rfl, ⟨_, hread₁, hshown₁⟩, ⟨_, hread₂, hshown₂⟩, hs.trans_changedOnly hrest⟩

/-! ### All functions -/

/-- **Outputs receive what would have been returned.** An output that can be written and repeats
no cell is filled by every function of elements with what the function makes of the elements that
were there before, whatever the arguments are and wherever the output lies among them. So are two
outputs of a split that do not overlap each other. -/
theorem outputs_receive (ho : o.Writable w.store) (hd : o.view.Distinct) :
    (∀ f x, FillsOutput (x.mapUnary f) o w ∧
      ∀ r w₁, x.mapUnary f none w = (.ok r, w₁) → IsMap f x w.store r w₁.store) ∧
    (∀ f x y, FillsOutput (x.mapBinary f y) o w ∧
      ∀ r w₁, x.mapBinary f y none w = (.ok r, w₁) → IsZip f x y w.store r w₁.store) ∧
    ∀ x o₂, o₂.Writable w.store → o₂.view.Distinct →
      (∀ id p, o.Covers id p → ¬o₂.Covers id p) → o.Takes x → o₂.Takes x →
      FillsOutputs x o o₂ w ∧
        ∀ r₁ r₂ w₁, x.modf none none w = (.ok (r₁, r₂), w₁) →
          IsSplit x w.store r₁ r₂ w₁.store := by
  refine ⟨fun f x => ⟨fillsOutput_mapUnary f x ho hd, fun r w₁ => isMap_of_mapUnary⟩,
    fun f x y => ⟨fillsOutput_mapBinary f x y ho hd, fun r w₁ => isZip_of_mapBinary⟩,
    fun x o₂ ho₂ hd₂ hapart ht ht₂ => ⟨fillsOutputs_modf ho hd ho₂ hd₂ hapart ht ht₂, ?_⟩⟩
  exact fun r₁ r₂ w₁ h => (isSplit_of_modf h).1

/-! ### Functions in place -/

/-- Zero and one, the one first. -/
def oneZero : NDArray := ⟨1, ⟨⟨[2]⟩, ⟨[-1]⟩, 1⟩, .f64, .host⟩

/-- A row receives the signs of its own elements in the opposite order, and a row that is split
receives its own fractions. -/
theorem outputs_receive_rows :
    (row 1 2).Writable threeBuffers.store ∧ (row 1 2).view.Distinct ∧
      (row 0 2).Writable threeBuffers.store ∧ (row 0 2).view.Distinct ∧
      (∀ id p, (row 1 2).Covers id p → ¬(row 0 2).Covers id p) ∧
      (∃ w', oneZero.mapUnary .sign (some (row 1 2)) threeBuffers = (.ok (row 1 2), w') ∧
        (row 1 2).toList w'.store .f64 = .ok ([1, 0].map double.sign)) ∧
      ∃ w', (row 1 2).modf (some (row 1 2)) (some (row 0 2)) threeBuffers
          = (.ok (row 1 2, row 0 2), w') ∧
        (row 1 2).toList w'.store .f64 = .ok ([0, 1].map double.fraction) ∧
        (row 0 2).toList w'.store .f64 = .ok ([0, 1].map double.floor) := by
  have hd : ∀ id, (row id 2).view.Distinct := by
    intro id
    change ([0, 1] : List Int).Nodup
    decide
  have hwrite : (row 0 2).Writable threeBuffers.store := by
    have hbuf : threeBuffers.store.buffer? 0 = some ⟨.f64, twoHalves⟩ := rfl
    exact writable_row hbuf (by decide)
  have hapart : ∀ id p, (row 1 2).Covers id p → ¬(row 0 2).Covers id p := by
    rintro id p ⟨hid, -⟩ ⟨hid', -⟩
    -- they lie in two storages
    exact absurd (hid.symm.trans hid') (by decide)
  obtain ⟨hunary, -, hsplit⟩ := outputs_receive writable_zeroOne (hd 1)
  have hread : oneZero.toList threeBuffers.store .f64 = .ok [1, 0] := rfl
  have hread' : (row 1 2).toList threeBuffers.store .f64 = .ok [0, 1] := rfl
  refine ⟨writable_zeroOne, hd 1, hwrite, hd 0, hapart, ?_, ?_⟩
  · obtain ⟨hfills, hshows⟩ := hunary .sign oneZero
    -- what the function returns without the output, and then what the output shows
    obtain ⟨r, w₁, hr, ht⟩ : ∃ r w₁, oneZero.mapUnary .sign none threeBuffers = (.ok r, w₁) ∧
        (row 1 2).Takes r := ⟨_, _, rfl, by decide⟩
    obtain ⟨b, w', hb⟩ := hfills.ok_iff.2 ⟨r, w₁, hr, ht⟩
    obtain ⟨rfl, ⟨items, hitems, hshown⟩, -⟩ := hfills.received hr hb
    obtain ⟨-, k, xs, hk, hxs, himages⟩ := hshows r w₁ hr
    obtain rfl : ⟨.f64, double.sign⟩ = k := Option.some.inj hk
    obtain rfl := Except.ok.inj (hread.symm.trans hxs)
    obtain rfl := Except.ok.inj (himages.symm.trans hitems)
    exact ⟨w', hb, hshown⟩
  · obtain ⟨hfills, hshows⟩ := hsplit (row 1 2) (row 0 2) hwrite (hd 0) hapart ⟨rfl, rfl⟩ ⟨rfl, rfl⟩
    obtain ⟨r₁, r₂, w₁, hr⟩ : ∃ r₁ r₂ w₁,
        (row 1 2).modf none none threeBuffers = (.ok (r₁, r₂), w₁) := ⟨_, _, _, rfl⟩
    obtain ⟨b, w', hb⟩ := hfills.ok_iff.2 ⟨_, w₁, hr⟩
    obtain ⟨rfl, ⟨items₁, hitems₁, hshown₁⟩, ⟨items₂, hitems₂, hshown₂⟩, -⟩ :=
      hfills.received hr hb
    obtain ⟨-, -, R, xs, hR, hxs, hfraction, hfloor⟩ := hshows r₁ r₂ w₁ hr
    obtain rfl : double = R := Option.some.inj hR
    obtain rfl := Except.ok.inj (hread'.symm.trans hxs)
    obtain rfl := Except.ok.inj (hfraction.symm.trans hitems₁)
    obtain rfl := Except.ok.inj (hfloor.symm.trans hitems₂)
    exact ⟨w', hb, hshown₁, hshown₂⟩

end NDArray

end Strided
