import Strided.Proofs.Fixtures.Numbers
import Strided.Proofs.Fixtures.Shapes
import Strided.Proofs.Fixtures.Slices

/-!
# Generated fixtures

What is generated comes in blocks, one for every shape: the whole of the shape, and then random
parts of it (`ViewFixture.IsBlock`). A shape of at most one element has no parts. Any other has only
axes that something can be drawn for, since an axis of size zero leaves no element at all, and so
the draws cannot fail (`yields_shapeViews`). The first part is never dropped, because no text has
been seen before it; of the others those are that say something new.

If the largest of the generated shapes can be counted by a signed word they can all be laid out, and
every fixture is what it says. Two things can end in a fault all the same, and both are a matter of
memory: the sizes of a shape of `2 ^ 60` axes, and the numbers of a shape of `2 ^ 60` elements.
-/

namespace Strided

open Shape

/-! ### Blocks of fixtures -/

namespace ViewFixture

/-- The fixture that means a part of a shape. -/
def part (shape : Shape) (sub : Subscription) : ViewFixture := ⟨shape, some sub, sub.shape⟩

/-- **The fixtures of one shape**: all of it, and different parts of it if it has more than one
element, one of them at least if any are asked for. -/
def IsBlock (samples : Nat) (shape : Shape) (block : List ViewFixture) : Prop :=
  ∃ subs : List Subscription, block = whole shape :: subs.map (part shape) ∧
    (volume shape.dims ≤ 1 → subs = []) ∧
    (1 < volume shape.dims → min 1 samples ≤ subs.length ∧ subs.length ≤ samples ∧ subs.Nodup)

/-- The whole of a shape is what it says. -/
theorem sound_whole (shape : Shape) : (whole shape).Sound := rfl

/-- A part by slices inside the axes is sound. -/
theorem sound_part {shape : Shape} {sub : Subscription}
    (h : List.Forall₂ Slice.Inner sub.slices shape.dims) : (part shape sub).Sound :=
  ⟨(Subscription.fits_of_inner h).1, (Subscription.fits_of_inner h).2, rfl⟩

end ViewFixture

section Blocks

variable {σ : Type} {R : RangeSource σ} {shape : Shape} {samples : Nat}

/-- **Random parts**: of every draw the subscription, unless its text was seen before. -/
theorem yields_drawViews (hR : R.InRange) (hdims : ∀ dim ∈ shape.dims, 1 ≤ dim ∧ dim < sizeBound)
    (seen : List String) : (drawViews R shape samples seen).Yields fun views =>
      ∃ subs : List Subscription, views = subs.map (.part shape) ∧ subs.length ≤ samples ∧
        (seen = [] → min 1 samples ≤ subs.length) ∧ subs.Nodup ∧
        ∀ sub ∈ subs, sub.text ∉ seen ∧ List.Forall₂ Slice.Inner sub.slices shape.dims := by
  induction samples generalizing seen with
  | zero =>
    exact Draw.yields_pure ⟨[], rfl, le_rfl, fun _ => Nat.min_le_right _ _, List.nodup_nil,
      fun _ h => absurd h List.not_mem_nil⟩
  | succ samples ih =>
    refine (yields_randomSubscription hR hdims).bind fun (sub, viewShape) ⟨hinner, hshape⟩ => ?_
    obtain rfl : viewShape = sub.shape := hshape
    refine Draw.Yields.ite (fun hseen => ?_) fun hnew => ?_
    · -- dropped, but then something has been seen
      refine (ih seen).mono fun views ⟨subs, heq, hle, _, hnodup, hsubs⟩ =>
        ⟨subs, heq, hle.trans (Nat.le_succ _), fun hnone => ?_, hnodup, hsubs⟩
      -- a text that has been seen is among those seen, of which there are none
      rw [hnone] at hseen
      exact absurd hseen (by simp)
    · refine (ih (sub.text :: seen)).bind fun views ⟨subs, heq, hle, _, hnodup, hsubs⟩ =>
        Draw.yields_pure ⟨sub :: subs, ?_, Nat.succ_le_succ hle, fun _ => ?_, ?_, ?_⟩
      · rw [heq]
        rfl
      · rw [List.length_cons]
        omega
      · -- what follows has another text
        refine List.nodup_cons.2 ⟨fun hmem => ?_, hnodup⟩
        exact (hsubs sub hmem).1 List.mem_cons_self
      · intro t ht
        rcases List.mem_cons.1 ht with rfl | ht
        · exact ⟨by simpa using hnew, hinner⟩
        · exact ⟨fun h => (hsubs t ht).1 (List.mem_cons_of_mem _ h), (hsubs t ht).2⟩

/-- **The fixtures of a shape can always be generated**, and each of them is sound. -/
theorem yields_shapeViews (hR : R.InRange) (hspan : span shape.dims < signedBound)
    (samples : Nat) :
    (shapeViews R samples shape).Yields fun block =>
      ViewFixture.IsBlock samples shape block ∧ ∀ f ∈ block, f.shape = shape ∧ f.Sound := by
  have hnumel : shape.numel = .ok (volume shape.dims) :=
    numel_of_span (hspan.trans signedBound_lt_sizeBound)
  have hdegenerate : shape.isDegenerate = .ok (decide (volume shape.dims ≤ 1)) := by
    rw [Shape.isDegenerate, hnumel]
    rfl
  refine (Draw.yields_checked (P := (· = decide (volume shape.dims ≤ 1))) hdegenerate rfl).bind ?_
  rintro _ rfl
  refine Draw.Yields.ite (fun hfew => ?_) fun hmany => ?_
  · -- a shape of at most one element is left whole
    have hle : volume shape.dims ≤ 1 := of_decide_eq_true hfew
    refine Draw.yields_pure ⟨⟨[], rfl, fun _ => rfl, fun h => absurd hle (Nat.not_le.2 h)⟩, ?_⟩
    intro f hf
    obtain rfl := List.mem_singleton.1 hf
    exact ⟨rfl, ViewFixture.sound_whole shape⟩
  · -- with two elements no axis is empty, which is what random slices ask for
    have hlt : ¬volume shape.dims ≤ 1 := fun hle => hmany (decide_eq_true hle)
    have hdims : ∀ dim ∈ shape.dims, 1 ≤ dim ∧ dim < sizeBound := fun dim hdim =>
      ⟨volume_pos_iff.1 (by omega) dim hdim,
        lt_of_le_of_lt (le_span hdim) (hspan.trans signedBound_lt_sizeBound)⟩
    refine (yields_drawViews hR hdims []).bind fun views ⟨subs, heq, hle, hone, hnodup, hsubs⟩ =>
      Draw.yields_pure ⟨⟨subs, by rw [heq], fun h => absurd h hlt,
        fun _ => ⟨hone rfl, hle, hnodup⟩⟩, fun f hf => ?_⟩
    rcases List.mem_cons.1 hf with rfl | hf
    · exact ⟨rfl, ViewFixture.sound_whole shape⟩
    · rw [heq] at hf
      obtain ⟨sub, hsub, rfl⟩ := List.mem_map.1 hf
      exact ⟨rfl, ViewFixture.sound_part (hsubs sub hsub).2⟩

end Blocks

/-! ### All fixtures -/

/-- **Generated fixtures are well formed**, whatever the source draws. If the largest shape that is
asked for can be counted by a signed word and there is memory for the sizes of every shape, there is
a block of fixtures for every generated shape, in the same order, and every fixture for whose
numbers there is memory shows what it describes. Without memory nothing is generated, or the fixture
makes no array. -/
theorem generated_views_well_formed {σ : Type} {R : RangeSource σ} (hR : R.InRange)
    (maxNdim maxDim minNdim samples : Nat) (hbox : max maxDim 1 ^ maxNdim < signedBound)
    (hdim : maxDim + 1 < sizeBound) (s : σ) :
    (RanksFit maxNdim maxDim samples minNdim → ∃ shapes s₁ blocks s₂,
      generateShapes R maxNdim maxDim samples minNdim s = .ok (shapes, s₁) ∧
      generateViews R maxNdim maxDim minNdim samples s = .ok (blocks.flatten, s₂) ∧
      List.Forall₂ (ViewFixture.IsBlock samples) shapes blocks ∧
      ∀ f ∈ blocks.flatten, ∀ device w,
        (8 * volume f.shape.dims < signedBound → f.Shows device w) ∧
        (¬8 * volume f.shape.dims < signedBound →
          f.materialize device w = (.error (.fault .capacity), w))) ∧
    (¬RanksFit maxNdim maxDim samples minNdim →
      generateShapes R maxNdim maxDim samples minNdim s = .error .capacity ∧
      generateViews R maxNdim maxDim minNdim samples s = .error .capacity) := by
  constructor
  · intro hfit
    obtain ⟨shapes, s₁, hshapes, hboxes⟩ := yields_generateShapes hR hdim hfit s
    -- no shape is larger than the box, so all of them can be laid out
    have hspan : ∀ shape ∈ shapes, span shape.dims < signedBound := fun shape hshape =>
      (hboxes shape hshape).span_lt (Nat.le_max_right _ _) hbox
    obtain ⟨blocks, s₂, hblocks, hall⟩ := Draw.yields_mapM
      (fun shape hshape => yields_shapeViews hR (hspan shape hshape) samples) s₁
    refine ⟨shapes, s₁, blocks, s₂, hshapes, ?_, hall.imp fun _ _ h => h.1, ?_⟩
    · rw [generateViews, Draw.bind_of_ok hshapes, Draw.bind_of_ok hblocks]
      rfl
    · intro f hf device w
      obtain ⟨block, hblock, hmem⟩ := List.mem_flatten.1 hf
      obtain ⟨i, hi, rfl⟩ := List.getElem_of_mem hblock
      -- the block belongs to a shape, and the fixture is one of that shape
      have hi' : i < shapes.length := hall.length_eq ▸ hi
      obtain ⟨hshape, hsound⟩ := ((List.forall₂_iff_get.1 hall).2 i hi' hi).2 f hmem
      have hsmall : span f.shape.dims < signedBound := by
        rw [hshape]
        exact hspan _ (List.getElem_mem hi')
      exact ⟨fun hcap => ViewFixture.shows_of_sound hsound hsmall hcap device w,
        fun hcap => ViewFixture.materialize_of_no_memory hsmall hcap device w⟩
  · intro hfit
    -- every rank with memory yields shapes, so it is the one without that stops
    have hranks : ∀ n, 8 * n < signedBound →
        (shapesOfRank R maxDim samples n).Yields fun _ => True := fun _ hmem =>
      (yields_shapesOfRank hR hdim hmem samples).mono fun _ _ => trivial
    have hfault := faults_generateShapes hranks hfit
    exact ⟨hfault s, Draw.Faults.bind hfault s⟩

/-- Shapes of at most two axes of up to three, with two samples of each. -/
theorem generated_views_well_formed_small :
    RangeSource.InRange (.ofWords Recital.source) ∧ max 3 1 ^ 2 < signedBound ∧
      3 + 1 < sizeBound ∧ ∃ shapes s₁ blocks s₂,
        generateShapes (.ofWords Recital.source) 2 3 2 0 ⟨[], 0, 0⟩ = .ok (shapes, s₁) ∧
        generateViews (.ofWords Recital.source) 2 3 0 2 ⟨[], 0, 0⟩ = .ok (blocks.flatten, s₂) ∧
        List.Forall₂ (ViewFixture.IsBlock 2) shapes blocks := by
  have hR : RangeSource.InRange (.ofWords Recital.source) := RangeSource.inRange_ofWords _
  have hbox : max 3 1 ^ 2 < signedBound := by decide
  have hdim : 3 + 1 < sizeBound := by decide
  have hfit : RanksFit 2 3 2 0 := by decide
  obtain ⟨shapes, s₁, blocks, s₂, hshapes, hviews, hblocks, -⟩ :=
    (generated_views_well_formed hR 2 3 0 2 hbox hdim ⟨[], 0, 0⟩).1 hfit
  exact ⟨hR, hbox, hdim, shapes, s₁, blocks, s₂, hshapes, hviews, hblocks⟩

/-- The source that always takes the lowest number. -/
def lowest : RangeSource Unit := ⟨fun lo _ s => (lo, s)⟩

theorem lowest_inRange : lowest.InRange := fun _ _ _ hle _ => ⟨le_rfl, hle⟩

/-- **What can be counted need not fit the memory.** There is no buffer for the numbers of an axis
of `2 ^ 60`, nor is there memory for the sizes of `2 ^ 60` axes of one. -/
theorem generated_views_too_large :
    lowest.InRange ∧
      (max 1152921504606846976 1 ^ 1 < signedBound ∧ 1152921504606846976 + 1 < sizeBound ∧
        ∃ fixtures s', generateViews lowest 1 1152921504606846976 1 1 () = .ok (fixtures, s') ∧
          ∃ f ∈ fixtures, ∀ w, f.materialize .host w = (.error (.fault .capacity), w)) ∧
      max 1 1 ^ 1152921504606846976 < signedBound ∧ 1 + 1 < sizeBound ∧
        generateViews lowest 1152921504606846976 1 1152921504606846976 0 () = .error .capacity := by
  have hlong : span [1152921504606846976] < signedBound := by decide
  have hnone : ¬8 * volume [1152921504606846976] < signedBound := by decide
  refine ⟨lowest_inRange, ⟨by decide, by decide,
    [.whole ⟨[1]⟩, .whole ⟨[1152921504606846976]⟩, .part ⟨[1152921504606846976]⟩ ⟨[⟨0, 1, 1⟩]⟩,
      .whole ⟨[1]⟩], (), rfl, .whole ⟨[1152921504606846976]⟩, by simp, fun w => ?_⟩, ?_, by decide,
    rfl⟩
  · exact ViewFixture.materialize_of_no_memory (f := .whole _) hlong hnone .host w
  · rw [Nat.max_self, Nat.one_pow]
    decide

end Strided
