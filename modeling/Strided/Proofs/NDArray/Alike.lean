import Strided.Proofs.Growth
import Strided.Proofs.NDArray.Access
import Strided.Proofs.View.Parts

/-!
# Arrays with the same elements

Two arrays over different buffers, with different strides and offsets, may have the same shape
and the same elements: they are `NDArray.Alike`. The definition is in exact arithmetic, where
every element has a position; a walk over either array may still overflow.

Taking a view of both gives arrays that are alike again, as long as the layout arithmetic does
not overflow: `Alike.subview` and `Alike.diagonal`. The reason is in `Strided.Proofs.View.Parts`:
which multi-indices a part consists of depends on the shape alone, and so does a refusal.

An operation that reads elements cannot see more of an array than `NDArray.Indistinct` arrays
have in common. Alike arrays are indistinct if both can be walked (`Alike.indistinct`).
-/

namespace Strided

/-! ### Contents -/

namespace View

variable {α : Type} {v v' part part' : View} {cells cells' : Array α} {f : List Nat → List Nat}

/-- **The elements of a view of some cells**, in exact arithmetic. Outside the cells there is
none. -/
def contents (v : View) (cells : Array α) : List (Option α) := v.places.map (cells[·]?)

theorem contents_eq (v : View) (cells : Array α) :
    v.contents cells = v.shape.indices.map fun index => cells[(v.position index).toNat]? := by
  unfold contents places positions
  rw [List.map_map, List.map_map]
  rfl

/-- Views of one shape have the same contents if they have the same element everywhere. -/
theorem contents_eq_iff (hshape : v'.shape = v.shape) : v'.contents cells' = v.contents cells ↔
    ∀ index, Within index v.shape.dims →
      cells'[(v'.position index).toNat]? = cells[(v.position index).toNat]? := by
  rw [contents_eq, contents_eq, hshape]
  constructor
  · intro h index hin
    exact List.map_inj_left.1 h index (mem_indicesOf.2 hin)
  · intro h
    exact List.map_congr_left fun index hindex => h index (mem_indicesOf.1 hindex)

/-- **The same part of views with the same contents** has the same contents. -/
theorem PartOf.contents_eq (h : PartOf part v f) (h' : PartOf part' v' f)
    (hshape : part'.shape = part.shape) (hv : v'.shape = v.shape)
    (hc : v'.contents cells' = v.contents cells) : part'.contents cells' = part.contents cells := by
  rw [contents_eq_iff hv] at hc
  rw [contents_eq_iff hshape]
  intro index hin
  have hin' : Within index part'.shape.dims := by rw [hshape]; exact hin
  -- an element of either part is the element of the whole at one and the same multi-index
  rw [h.position_eq index hin, h'.position_eq index hin']
  exact hc (f index) (h.within index hin)

end View

namespace NDArray

/-! ### Alike arrays -/

/-- What one array of a pair has to be: backed by a buffer of a type, with a stride for every
axis and all elements in the buffer. -/
structure Lies (s : Store) (a : NDArray) {dt : DType} (cells : Array dt.Elem) : Prop where
  buffer_eq : s.buffer? a.storage = some ⟨dt, cells⟩
  fits : (Buffer.mk dt cells).Fits
  rank_eq : a.view.strides.steps.length = a.view.shape.dims.length
  inBounds : a.view.InBounds cells.size
  offset_lt : a.view.offset < sizeBound

/-- **Arrays of the same elements**, wherever and however they are laid out. -/
structure Alike (s : Store) (a a' : NDArray) : Prop where
  shape_eq : a'.shape = a.shape
  dt_eq : a'.dt = a.dt
  device_eq : a'.device = a.device
  cells : ∃ cells cells' : Array a.dt.Elem, a.Lies s cells ∧ a'.Lies s cells' ∧
    a'.view.contents cells' = a.view.contents cells

variable {s s' : Store} {a a' : NDArray}

theorem Lies.size_le {dt : DType} {cells : Array dt.Elem} (h : a.Lies s cells) :
    cells.size ≤ signedBound := h.fits.size_lt.le

/-- A part of an array that lies in a buffer lies there too. -/
theorem Lies.withView {dt : DType} {cells : Array dt.Elem} {part : View} {f : List Nat → List Nat}
    (h : a.Lies s cells) (hpart : part.PartOf a.view f) (hoffset : part.offset < sizeBound) :
    (a.withView part).Lies s cells :=
  ⟨h.buffer_eq, h.fits, hpart.rank_eq, hpart.inBounds h.inBounds, hoffset⟩

/-- The same part of alike arrays. -/
theorem Alike.withView {part part' : View} {f : List Nat → List Nat} (h : Alike s a a')
    (hpart : part.PartOf a.view f) (hpart' : part'.PartOf a'.view f)
    (hshape : part'.shape = part.shape) (hoffset : part.offset < sizeBound)
    (hoffset' : part'.offset < sizeBound) : Alike s (a.withView part) (a'.withView part') := by
  obtain ⟨cells, cells', hlies, hlies', hcontents⟩ := h.cells
  exact ⟨hshape, h.dt_eq, h.device_eq, cells, cells', hlies.withView hpart hoffset,
    hlies'.withView hpart' hoffset', hpart.contents_eq hpart' hshape h.shape_eq hcontents⟩

/-! ### What reading can tell -/

/-- **Arrays that no reader can tell apart**, now or when there are more buffers. -/
structure Indistinct (s : Store) (a a' : NDArray) : Prop where
  shape_eq : a'.shape = a.shape
  dt_eq : a'.dt = a.dt
  device_eq : a'.device = a.device
  toList_eq : ∀ s', s.Agrees s' → ∀ dt, a'.toList s' dt = a.toList s' dt
  gather_eq : ∀ s', s.Agrees s' → a'.gather s' = a.gather s'

theorem Indistinct.refl (s : Store) (a : NDArray) : Indistinct s a a :=
  ⟨rfl, rfl, rfl, fun _ _ _ => rfl, fun _ _ => rfl⟩

theorem Indistinct.mono (h : Indistinct s a a') (hs : s.Agrees s') : Indistinct s' a a' :=
  ⟨h.shape_eq, h.dt_eq, h.device_eq, fun s₁ h₁ => h.toList_eq s₁ (hs.trans h₁),
    fun s₁ h₁ => h.gather_eq s₁ (hs.trans h₁)⟩

/-- The device is the same on both sides, or set on both sides. -/
theorem Indistinct.withDevice (h : Indistinct s a a') (d : Device) :
    Indistinct s (a.withDevice d) (a'.withDevice d) :=
  ⟨h.shape_eq, h.dt_eq, rfl, h.toList_eq, h.gather_eq⟩

/-- Cells that read the same through two views. -/
private theorem readOwn_eq (storage storage' : StorageId) {v v' : View} {dt : DType} (d : Device)
    {cells cells' : Array dt.Elem} (hshape : v'.shape = v.shape) (hv : v.Walks cells.size)
    (hv' : v'.Walks cells'.size) (hsize : cells.size ≤ sizeBound) (hsize' : cells'.size ≤ sizeBound)
    (hcontents : v'.contents cells' = v.contents cells) :
    (NDArray.mk storage' v' dt d).readOwn cells' = (NDArray.mk storage v dt d).readOwn cells := by
  obtain ⟨xs, hxs⟩ := View.exists_gather hv hsize
  have hxs' : v'.gather cells' = .ok xs :=
    (View.gather_eq_ok_iff hv' hsize').2
      (hcontents.trans ((View.gather_eq_ok_iff hv hsize).1 hxs))
  have hnumel : (NDArray.mk storage' v' dt d).numel = (NDArray.mk storage v dt d).numel :=
    congrArg Shape.numel hshape
  unfold readOwn
  rw [hnumel]
  dsimp only
  rw [hxs, hxs']

/-- **No reader can tell alike arrays apart**, if the walks over both come to their end. -/
theorem Alike.indistinct (h : Alike s a a') (hf : a.view.offsets.fault = none)
    (hf' : a'.view.offsets.fault = none) : Indistinct s a a' := by
  obtain ⟨hshape, hdt, hdevice, cells, cells', hlies, hlies', hcontents⟩ := h
  obtain ⟨storage, v, dt, d⟩ := a
  obtain ⟨storage', v', dt', d'⟩ := a'
  obtain rfl : dt' = dt := hdt
  obtain rfl : d' = d := hdevice
  have hsize : cells.size ≤ sizeBound := le_trans hlies.size_le signedBound_lt_sizeBound.le
  have hsize' : cells'.size ≤ sizeBound := le_trans hlies'.size_le signedBound_lt_sizeBound.le
  -- the same contents are read from either buffer
  have hread := readOwn_eq storage storage' d' hshape
    ⟨hlies.rank_eq, hlies.inBounds, hf⟩ ⟨hlies'.rank_eq, hlies'.inBounds, hf'⟩ hsize hsize'
    hcontents
  -- in any store with the same buffers the arrays are backed by the same cells
  have hback : ∀ s₁, s.Agrees s₁ → (NDArray.mk storage v dt' d').Backed s₁ cells ∧
      (NDArray.mk storage' v' dt' d').Backed s₁ cells' := fun s₁ hs =>
    ⟨hs _ _ hlies.buffer_eq, hs _ _ hlies'.buffer_eq⟩
  refine ⟨hshape, rfl, rfl, fun s₁ hs dt₁ => ?_, fun s₁ hs => ?_⟩
  · obtain ⟨hb, hb'⟩ := hback s₁ hs
    by_cases hdt : dt₁ = dt'
    · obtain rfl := hdt
      have hleft := hb.toList_eq
      have hright := hb'.toList_eq
      dsimp only at hleft hright
      rw [hleft, hright, hread]
    · rw [toList_of_ne_dtype hdt, toList_of_ne_dtype hdt]
  · obtain ⟨hb, hb'⟩ := hback s₁ hs
    rw [hb.gather_eq, hb'.gather_eq, hread]

/-- **Alike means that both read the same**, for arrays whose elements fit the memory. -/
theorem alike_iff_toList_eq {cells cells' : Array a.dt.Elem} (hshape : a'.shape = a.shape)
    (hdt : a'.dt = a.dt) (hdevice : a'.device = a.device) (hlies : a.Lies s cells)
    (hlies' : a'.Lies s cells') (hf : a.view.offsets.fault = none)
    (hf' : a'.view.offsets.fault = none)
    (hcap : a.dt.bytes * Shape.volume a.shape.dims < signedBound) :
    Alike s a a' ↔ a'.toList s a.dt = a.toList s a.dt := by
  constructor
  · intro h
    exact (h.indistinct hf hf').toList_eq s (.refl s) a.dt
  · intro h
    obtain ⟨storage, v, dt, d⟩ := a
    obtain ⟨storage', v', dt', d'⟩ := a'
    obtain rfl : dt' = dt := hdt
    have hsize : cells.size ≤ sizeBound := le_trans hlies.size_le signedBound_lt_sizeBound.le
    have hsize' : cells'.size ≤ sizeBound := le_trans hlies'.size_le signedBound_lt_sizeBound.le
    have hwalks : v.Walks cells.size := ⟨hlies.rank_eq, hlies.inBounds, hf⟩
    have hwalks' : v'.Walks cells'.size := ⟨hlies'.rank_eq, hlies'.inBounds, hf'⟩
    have hback : (NDArray.mk storage v dt' d).Backed s cells := hlies.buffer_eq
    have hback' : (NDArray.mk storage' v' dt' d').Backed s cells' := hlies'.buffer_eq
    -- what is read is the contents, on either side
    obtain ⟨xs, hxs⟩ := exists_toList hback hwalks hsize hcap
    have hcontents := ((toList_eq_ok_iff hback hwalks hsize).1 hxs).2
    have hcontents' := ((toList_eq_ok_iff hback' hwalks' hsize').1 (h.trans hxs)).2
    exact ⟨hshape, rfl, hdevice, cells, cells', hlies, hlies', hcontents'.trans hcontents.symm⟩

/-! ### Views of alike arrays -/

/-- **How the views taken of two alike arrays compare.** If the arithmetic overflows for
neither, they are refused for the same reason or alike, and then they show the same elements if
both can be walked. -/
inductive SameView (s : Store) : Answer NDArray → Answer NDArray → Prop where
  | overflowLeft (r : Answer NDArray) : SameView s (.error (.fault .overflow)) r
  | overflowRight (r : Answer NDArray) : SameView s r (.error (.fault .overflow))
  | refused (e : ArrayError) : SameView s (.error (.rejected e)) (.error (.rejected e))
  | alike {b b' : NDArray} (h : Alike s b b')
      (shown : b.view.offsets.fault = none → b'.view.offsets.fault = none →
        ∀ dt, b'.toList s dt = b.toList s dt) : SameView s (.ok b) (.ok b')

/-- Views that are alike show the same elements if they can be walked. -/
theorem SameView.of_alike {b b' : NDArray} (h : Alike s b b') : SameView s (.ok b) (.ok b') :=
  .alike h fun hf hf' dt => (h.indistinct hf hf').toList_eq s (.refl s) dt

/-- **Subviews of alike arrays are alike**, or refused alike. -/
theorem Alike.subview (h : Alike s a a') (sub : Subscription) :
    SameView s (a.subview sub) (a'.subview sub) := by
  obtain ⟨cells, cells', hlies, hlies', -⟩ := h.cells
  have hshape : a'.view.shape = a.view.shape := h.shape_eq
  unfold NDArray.subview
  rcases View.subview_cases hlies.rank_eq hlies.inBounds hlies.size_le sub with
    hf | ⟨e, he, hrefused⟩ | ⟨part, hpart, hnone, hps, hp⟩
  · rw [hf]
    exact .overflowLeft _
  · -- what is refused of the one shape is refused of the other
    rcases View.subview_cases hlies'.rank_eq hlies'.inBounds hlies'.size_le sub with
      hf | ⟨e', he', hrefused'⟩ | ⟨part', -, hnone', -⟩
    · rw [hf]
      exact .overflowRight _
    · rw [hshape, hrefused] at hrefused'
      obtain rfl := Option.some.inj hrefused'
      rw [he, he']
      exact .refused _
    · rw [hshape, hrefused] at hnone'
      exact absurd hnone' (by simp)
  · rcases View.subview_cases hlies'.rank_eq hlies'.inBounds hlies'.size_le sub with
      hf | ⟨e', -, hrefused'⟩ | ⟨part', hpart', -, hps', hp'⟩
    · rw [hf]
      exact .overflowRight _
    · rw [hshape, hnone] at hrefused'
      exact absurd hrefused' (by simp)
    · rw [hpart, hpart']
      exact .of_alike (h.withView hp hp' (hps'.trans hps.symm) (View.offset_lt_of_subview hpart)
        (View.offset_lt_of_subview hpart'))

/-- **Diagonals of alike arrays are alike**, or refused alike. -/
theorem Alike.diagonal (h : Alike s a a') (k : Int) :
    SameView s (a.diagonal k) (a'.diagonal k) := by
  obtain ⟨cells, cells', hlies, hlies', -⟩ := h.cells
  have hdims : a'.view.shape.dims = a.view.shape.dims := congrArg Shape.dims h.shape_eq
  rcases diagonal_cases hlies.rank_eq hlies.inBounds hlies.size_le hlies.offset_lt k with
    ⟨hrank, he⟩ | ⟨rows, cols, down, right, hrc, -, hcases⟩
  · rcases diagonal_cases hlies'.rank_eq hlies'.inBounds hlies'.size_le hlies'.offset_lt k with
      ⟨-, he'⟩ | ⟨rows', cols', down', right', hrc', -, -⟩
    · rw [he, he', hdims]
      exact .refused _
    · -- one of them would have two axes and the other not
      rw [← hdims, hrc'] at hrank
      exact absurd rfl hrank
  rcases diagonal_cases hlies'.rank_eq hlies'.inBounds hlies'.size_le hlies'.offset_lt k with
    ⟨hrank', -⟩ | ⟨rows', cols', down', right', hrc', -, hcases'⟩
  · rw [hdims, hrc] at hrank'
    exact absurd rfl hrank'
  -- both are matrices of one size
  obtain ⟨rfl, rfl⟩ : rows' = rows ∧ cols' = cols := by
    rw [hdims, hrc] at hrc'
    simpa [eq_comm] using hrc'
  rcases hcases with hf | ⟨part, hpart, hps, -, -, hp⟩
  · rw [hf]
    exact .overflowLeft _
  rcases hcases' with hf | ⟨part', hpart', hps', -, -, hp'⟩
  · rw [hf]
    exact .overflowRight _
  -- the same multi-indices of arrays with the same elements
  rw [hpart, hpart']
  exact .of_alike (h.withView hp hp' (hps'.trans hps.symm) (offset_lt_of_diagonal hpart)
    (offset_lt_of_diagonal hpart'))

end NDArray

end Strided
