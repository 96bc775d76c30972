import Strided.Proofs.Session.Provenance

/-!
# Families of arrays

An array that is derived from another one by taking a view, by flagging it for another device, or
by being the receiver of a result, belongs to the family of that other array. Any other array
founds a family of its own. Families are read off the commands of a run that succeed, and off
nothing that is in the store: `Families.run` counts them and says to which of them each name
belongs.

The store agrees with this account. Each family has a storage of its own (`Rooted`, an invariant
of runs whose bridges keep all buffers), hence two arrays share storage exactly when they belong
to one family. And a run that writes to no array of a family leaves the elements of all arrays of
the family as they are, provided that bridges only write to what they are handed to fill.
`sharing_is_kinship` says both for every session over such bridges. The reference bridges are of
this kind, whatever they refuse (`Bridge.grow_reference`, `Bridge.confined_reference`).

A family goes on when the name of its last array has been given away, and its number is not used
again. So the invariant does not speak of the names alone: it keeps the list of all storages that
families have been founded in, which only grows at its end.
-/

namespace Strided

/-- **The families so far**: how many have been founded, and to which of them the arrays of the
names belong. -/
structure Families where
  count : Nat
  ofName : Name → Option Nat

namespace Families

/-- Before the first array. -/
def start : Families := ⟨0, fun _ => none⟩

/-- **The family of a result**, given the name of its parent: that of the parent, or a new one. -/
def join (F : Families) : Option Name → Option Nat × Families
  | some parent => (F.ofName parent, F)
  | none => (some F.count, { F with count := F.count + 1 })

/-- A name is given to an array of a family. -/
def name (F : Families) (family : Option Nat) : Option Name → Families
  | none => F
  | some n => { F with ofName := Function.update F.ofName n family }

@[simp] theorem name_count (F : Families) (family : Option Nat) (under : Option Name) :
    (F.name family under).count = F.count := by
  cases under <;> rfl

/-- The name belongs to the family from then on, and all others to theirs. -/
theorem name_ofName (F : Families) (family : Option Nat) (under : Option Name) (n : Name) :
    (F.name family under).ofName n = if under = some n then family else F.ofName n := by
  cases under with
  | none => rfl
  | some m =>
    by_cases h : m = n
    · subst h
      rw [if_pos rfl]
      exact Function.update_self m family F.ofName
    · rw [if_neg fun he => h (Option.some.inj he)]
      exact Function.update_of_ne (Ne.symm h) family F.ofName

/-- The families after a command that has given its arrays. -/
def after (F : Families) (s : Session) : Command → Families
  | .make op under =>
    let (family, F) := F.join (op.parent? s)
    F.name family under
  | .makePair op under₁ under₂ =>
    let (family₁, F) := F.join op.parents.1
    let (family₂, F) := F.join op.parents.2
    (F.name family₁ under₁).name family₂ under₂
  | .update _ => F
  | .query _ => F

/-- **The families after a command.** One that fails makes no arrays. -/
def next (c : Setting) (F : Families) (s : Session) (command : Command) : Families :=
  if command.gives c s then F.after s command else F

/-- **The families after a run.** -/
def run (c : Setting) : List Command → Session → Families → Families
  | [], _, F => F
  | command :: commands, s, F =>
    run c commands (Session.exec c command s).2 (F.next c s command)

/-- **A run that writes to no array of a family.** -/
def Spares (c : Setting) (family : Nat) : List Command → Session → Families → Prop
  | [], _, _ => True
  | command :: commands, s, F =>
    (∀ n ∈ command.destinations, F.ofName n ≠ some family) ∧
      Spares c family commands (Session.exec c command s).2 (F.next c s command)

end Families

namespace Session

open Families NDArray

variable {c : Setting} {s : Session} {F : Families} {roots : List StorageId} {a b : NDArray}

/-! ### Every family has a storage of its own -/

/-- **The storages of the families**, one for each in the order of the families, no two the same.
A named array lies in the storage of its family. -/
structure Rooted (roots : List StorageId) (F : Families) (s : Session) : Prop where
  length_eq : roots.length = F.count
  nodup : roots.Nodup
  lt_nextId : ∀ id ∈ roots, id < s.world.store.nextId
  exists_root : ∀ n a, s.arrays.lookup n = some a →
    ∃ family, F.ofName n = some family ∧ roots[family]? = some a.storage

/-- No storage stands for two families. -/
theorem Rooted.family_inj (h : Rooted roots F s) {f g : Nat} {id : StorageId}
    (hf : roots[f]? = some id) (hg : roots[g]? = some id) : f = g := by
  obtain ⟨hlt, -⟩ := List.getElem?_eq_some_iff.1 hf
  exact (List.getElem?_inj hlt h.nodup).1 (hf.trans hg.symm)

/-- Storages are added at the end. -/
theorem root_mono {roots' : List StorageId} (h : roots <+: roots') {family : Nat}
    {id : StorageId} (hid : roots[family]? = some id) : roots'[family]? = some id := by
  obtain ⟨hlt, hget⟩ := List.getElem?_eq_some_iff.1 hid
  rw [List.prefix_iff_getElem?.1 h family hlt, hget]

/-- Only the world has changed, and the store has grown. -/
theorem Rooted.mono (h : Rooted roots F s) {w : World} (hw : s.world.store.Extends w.store) :
    Rooted roots F { s with world := w } where
  length_eq := h.length_eq
  nodup := h.nodup
  lt_nextId id hid := Nat.lt_of_lt_of_le (h.lt_nextId id hid) hw.nextId_le
  exists_root := h.exists_root

/-- **A result joins its family.** If it founds one, its storage is none of those that families
have been founded in. -/
theorem Rooted.join (h : Rooted roots F s) {parent : Option Name}
    (hnew : parent = none → a.storage ∉ roots ∧ a.storage < s.world.store.nextId)
    (hderived : ∀ n, parent = some n → ∃ p, s.arrays.lookup n = some p ∧ a.storage = p.storage) :
    ∃ roots', roots <+: roots' ∧ Rooted roots' (F.join parent).2 s ∧
      (∀ id ∈ roots', id ∈ roots ∨ parent = none ∧ id = a.storage) ∧
      ∃ family, (F.join parent).1 = some family ∧ roots'[family]? = some a.storage := by
  cases parent with
  | some n =>
    -- a derived array lies where its parent does, and no family is founded
    obtain ⟨p, hp, hstorage⟩ := hderived n rfl
    obtain ⟨family, hfamily, hroot⟩ := h.exists_root n p hp
    exact ⟨roots, List.prefix_rfl, h, fun id hid => .inl hid, family, hfamily,
      hroot.trans (congrArg some hstorage.symm)⟩
  | none =>
    -- a new family is counted last, and its storage goes to the end of the list
    obtain ⟨hfresh, hlt⟩ := hnew rfl
    have hprefix : roots <+: roots ++ [a.storage] := List.prefix_append _ _
    have hmem : ∀ id ∈ roots ++ [a.storage], id ∈ roots ∨ id = a.storage := by simp
    refine ⟨roots ++ [a.storage], hprefix, ⟨?_, ?_, ?_, ?_⟩, ?_, F.count, rfl, ?_⟩
    · rw [List.length_append, h.length_eq]
      rfl
    · rw [← List.concat_eq_append]
      exact h.nodup.concat hfresh
    · intro id hid
      rcases hmem id hid with hid | rfl
      · exact h.lt_nextId id hid
      · exact hlt
    · intro n p hp
      obtain ⟨family, hfamily, hroot⟩ := h.exists_root n p hp
      exact ⟨family, hfamily, root_mono hprefix hroot⟩
    · exact fun id hid => (hmem id hid).imp_right fun hlast => ⟨rfl, hlast⟩
    · rw [← h.length_eq, List.getElem?_concat_length]

/-- An array of a family is kept under a name. -/
theorem Rooted.kept (h : Rooted roots F s) {family : Nat} (ha : roots[family]? = some a.storage)
    (under : Option Name) : Rooted roots (F.name (some family) under) (s.kept a under) where
  length_eq := h.length_eq.trans (name_count F _ under).symm
  nodup := h.nodup
  lt_nextId := by
    rw [kept_world]
    exact h.lt_nextId
  exists_root n p hp := by
    rw [lookup_kept] at hp
    rw [name_ofName]
    by_cases hn : under = some n
    · rw [if_pos hn] at hp ⊢
      obtain rfl := Option.some.inj hp
      exact ⟨family, rfl, ha⟩
    · rw [if_neg hn] at hp ⊢
      exact h.exists_root n p hp

/-- What is born of a parent lies in its storage. -/
theorem Born.exists_parent {store : Store} {parent : Option Name} {n : Name}
    (h : Born s store parent a) (hparent : parent = some n) :
    ∃ p, s.arrays.lookup n = some p ∧ a.storage = p.storage := by
  subst hparent
  obtain ⟨p, hp, hstorage, -⟩ := h
  exact ⟨p, hp, hstorage⟩

/-- What is born of no parent lies in no storage of a family. -/
theorem Rooted.not_mem_of_born (h : Rooted roots F s) {store : Store} {parent : Option Name}
    (ha : Born s store parent a) (hparent : parent = none) :
    a.storage ∉ roots ∧ a.storage < store.nextId := by
  subst hparent
  have hfresh : Fresh s.world.store store a := ha
  exact ⟨fun hmem => absurd (h.lt_nextId _ hmem) (Nat.not_lt.2 hfresh.new), hfresh.lt_nextId⟩

/-- **One array is made**, and kept. -/
theorem Rooted.make (h : Rooted roots F s) {w : World} (hw : s.world.store.Extends w.store)
    {parent : Option Name} (ha : Born s w.store parent a) (under : Option Name) :
    ∃ roots', roots <+: roots' ∧ Rooted roots' ((F.join parent).2.name (F.join parent).1 under)
      (({ s with world := w } : Session).kept a under) := by
  obtain ⟨roots', hprefix, hrooted, -, family, hfamily, hroot⟩ := (h.mono hw).join
    (h.not_mem_of_born ha) fun n => ha.exists_parent
  rw [hfamily]
  exact ⟨roots', hprefix, hrooted.kept hroot under⟩

/-- **Two arrays are made**, and kept. If both are new, they are apart. -/
theorem Rooted.makePair (h : Rooted roots F s) {w : World} (hw : s.world.store.Extends w.store)
    {parent₁ parent₂ : Option Name} (ha : Born s w.store parent₁ a) (hb : Born s w.store parent₂ b)
    (hapart : parent₁ = none → parent₂ = none → a.storage ≠ b.storage)
    (under₁ under₂ : Option Name) :
    ∃ roots', roots <+: roots' ∧
      Rooted roots'
        ((((F.join parent₁).2.join parent₂).2.name (F.join parent₁).1 under₁).name
          ((F.join parent₁).2.join parent₂).1 under₂)
        ((({ s with world := w } : Session).kept a under₁).kept b under₂) := by
  obtain ⟨roots₁, hprefix₁, hrooted₁, hmem, family₁, hfamily₁, hroot₁⟩ := (h.mono hw).join
    (h.not_mem_of_born ha) fun n => ha.exists_parent
  -- only the first array can have founded a family in between
  have hapart₁ : parent₂ = none → b.storage ∉ roots₁ ∧ b.storage < w.store.nextId := by
    intro hnone
    obtain ⟨hnot, hlt⟩ := h.not_mem_of_born hb hnone
    refine ⟨fun hin => ?_, hlt⟩
    rcases hmem _ hin with hold | ⟨hnone₁, hfirst⟩
    · exact hnot hold
    · exact hapart hnone₁ hnone hfirst.symm
  obtain ⟨roots₂, hprefix₂, hrooted₂, -, family₂, hfamily₂, hroot₂⟩ := hrooted₁.join
    hapart₁ fun n => hb.exists_parent
  rw [hfamily₁, hfamily₂]
  refine ⟨roots₂, hprefix₁.trans hprefix₂, ?_⟩
  exact (hrooted₂.kept (root_mono hprefix₂ hroot₁) under₁).kept hroot₂ under₂

/-! ### One command, and a run -/

/-- **A command keeps every family in a storage of its own.** -/
theorem Rooted.exec (hb : c.bridges.Grow) (h : Rooted roots F s) (command : Command) :
    ∃ roots', roots <+: roots' ∧
      Rooted roots' (F.next c s command) (Session.exec c command s).2 := by
  have hstore := extends_of_exec hb (s := s) command
  generalize hs' : (Session.exec c command s).2 = s' at hstore ⊢
  have houtcome := outcome_exec c s command
  rw [hs'] at houtcome
  -- the outcome says how many arrays have been made, and each of them is born of its parent
  cases houtcome with
  | none hgives =>
    rw [Families.next, hgives]
    exact ⟨roots, List.prefix_rfl, h.mono hstore⟩
  | one hgives hready hx =>
    rw [kept_world] at hstore
    rw [Families.next, if_pos hgives]
    exact h.make hstore (born_of_operation hb hready hx) _
  | two hgives hready hx =>
    rw [kept_world, kept_world] at hstore
    rw [Families.next, if_pos hgives]
    obtain ⟨ha, hb', hapart⟩ := born_of_pair hb hready hx
    exact h.makePair hstore ha hb' (fun h₁ h₂ => hapart (Prod.ext h₁ h₂)) _ _

/-- **A run keeps every family in a storage of its own.** -/
theorem Rooted.run (hb : c.bridges.Grow) (h : Rooted roots F s) (commands : List Command) :
    ∃ roots', roots <+: roots' ∧
      Rooted roots' (Families.run c commands s F) (Session.run c commands s).2 := by
  induction commands generalizing roots F s with
  | nil => exact ⟨roots, List.prefix_rfl, h⟩
  | cons command commands ih =>
    obtain ⟨roots₁, hprefix₁, h₁⟩ := h.exec hb command
    obtain ⟨roots₂, hprefix₂, h₂⟩ := ih h₁
    exact ⟨roots₂, hprefix₁.trans hprefix₂, h₂⟩

theorem rooted_start : Rooted [] Families.start start where
  length_eq := rfl
  nodup := List.nodup_nil
  lt_nextId _ h := absurd h List.not_mem_nil
  exists_root _ _ h := absurd h (by simp [start])

/-! ### What families say about arrays -/

/-- **Arrays share storage exactly when they are of one family.** -/
theorem Rooted.sharesStorage_iff (h : Rooted roots F s) {x y : Name}
    (hx : s.arrays.lookup x = some a) (hy : s.arrays.lookup y = some b) :
    a.sharesStorage b = true ↔ F.ofName x = F.ofName y := by
  -- both families are known by their storages, and each storage stands for one family
  obtain ⟨f, hf, hroot₁⟩ := h.exists_root x a hx
  obtain ⟨g, hg, hroot₂⟩ := h.exists_root y b hy
  rw [sharesStorage, beq_iff_eq, hf, hg, Option.some.injEq]
  constructor
  · intro hstorage
    exact h.family_inj hroot₁ (hroot₂.trans (congrArg some hstorage.symm))
  · rintro rfl
    exact Option.some.inj (hroot₁.symm.trans hroot₂)

/-- **A run that spares a family leaves its storage as it is.** -/
theorem Rooted.agreesOn_of_run (hg : c.bridges.Grow) (hb : c.bridges.Confined)
    (h : Rooted roots F s) {family : Nat} {id : StorageId} (hid : roots[family]? = some id)
    {commands : List Command} (hspares : Families.Spares c family commands s F) :
    s.world.store.AgreesOn (· = id) (Session.run c commands s).2.world.store := by
  induction commands generalizing roots F s with
  | nil => exact refl_of _ _
  | cons command commands ih =>
    obtain ⟨hdst, hrest⟩ := hspares
    have hstep : s.world.store.AgreesOn (· = id) (Session.exec c command s).2.world.store := by
      refine agreesOn_of_exec hb fun n hn p hp hstorage => hdst n hn ?_
      -- a destination in that storage would be of the family
      obtain ⟨g, hgn, hroot⟩ := h.exists_root n p hp
      rw [hgn, h.family_inj hid (hroot.trans (congrArg some hstorage))]
    -- the number of the family means the same storage after the command
    obtain ⟨roots₁, hprefix, h₁⟩ := h.exec hg command
    exact trans_of (Store.AgreesOn (· = id)) hstep (ih h₁ (root_mono hprefix hid) hrest)

/-- **No later run that spares a family is seen from it.** -/
theorem Rooted.toList_eq_of_run (hg : c.bridges.Grow) (hb : c.bridges.Confined)
    (h : Rooted roots F s) {x : Name} {family : Nat} (hx : s.arrays.lookup x = some a)
    (hfamily : F.ofName x = some family) {commands : List Command}
    (hspares : Families.Spares c family commands s F) (dt : DType) :
    a.toList (Session.run c commands s).2.world.store dt = a.toList s.world.store dt := by
  obtain ⟨f, hf, hroot⟩ := h.exists_root x a hx
  obtain rfl : f = family := Option.some.inj (hf.symm.trans hfamily)
  have hlt := h.lt_nextId a.storage (List.mem_of_getElem? hroot)
  obtain ⟨b, hbuf⟩ : ∃ b, s.world.store.buffer? a.storage = some b :=
    ⟨_, Array.getElem?_eq_getElem hlt⟩
  refine toList_congr ?_ dt
  rw [hbuf]
  exact h.agreesOn_of_run hg hb hroot hspares a.storage b rfl hbuf

/-- **Sharing is kinship, and strangers do not interfere.** In every session whose bridges keep
all buffers and write to nothing but what they are handed to fill, each named array is of a
family; two share storage exactly when they are of the same one; and no run that writes to no
array of a family changes what can be read from any array of it. -/
theorem sharing_is_kinship (hgrow : c.bridges.Grow) (hconfined : c.bridges.Confined)
    (commands : List Command) :
    let s := (run c commands start).2
    let F := Families.run c commands start .start
    (∀ x a, s.arrays.lookup x = some a → ∃ family, F.ofName x = some family) ∧
      (∀ x a y b, s.arrays.lookup x = some a → s.arrays.lookup y = some b →
        (a.sharesStorage b = true ↔ F.ofName x = F.ofName y)) ∧
      ∀ family later, Families.Spares c family later s F →
        ∀ x a, s.arrays.lookup x = some a → F.ofName x = some family →
          ∀ dt, a.toList (run c later s).2.world.store dt = a.toList s.world.store dt := by
  intro s F
  obtain ⟨roots, -, h⟩ := rooted_start.run hgrow commands
  refine ⟨fun x a hx => ?_, fun x a y b hx hy => h.sharesStorage_iff hx hy, ?_⟩
  · obtain ⟨family, hfamily, -⟩ := h.exists_root x a hx
    exact ⟨family, hfamily⟩
  · intro family later hspares x a hx hfamily dt
    exact h.toList_eq_of_run hgrow hconfined hx hfamily hspares dt

/-- The outer columns of a matrix are taken, and copied. -/
def copiedColumns : List Command :=
  [.make (.ofArray ⟨.i32, countTo 6⟩ ⟨[2, 3]⟩ .host) (some "m"),
    .make (.subview "m" everySecond) (some "v"), .make (.deepClone "v") (some "w")]

/-- The columns are of the family of the matrix, and the copy is not: what is written to it does
not show in the matrix. -/
theorem sharing_is_kinship_columns :
    let s := (run plainSetting copiedColumns start).2
    let F := Families.run plainSetting copiedColumns start .start
    plainSetting.bridges.Grow ∧ plainSetting.bridges.Confined ∧
      (s.arrays.lookup "m" = some matrix ∧ s.arrays.lookup "v" = some outerColumns) ∧
      (F.ofName "m" = some 0 ∧ F.ofName "v" = some 0 ∧ F.ofName "w" = some 1) ∧
      matrix.sharesStorage outerColumns = true ∧
      Families.Spares plainSetting 0 [.update (.fill "w" .i32 7)] s F ∧
      ∀ dt, matrix.toList (run plainSetting [.update (.fill "w" .i32 7)] s).2.world.store dt
        = matrix.toList s.world.store dt := by
  intro s F
  have hconfined : plainSetting.bridges.Confined := Bridge.confined_reference fun _ _ => none
  obtain ⟨-, hshares, hspared⟩ := sharing_is_kinship grow_plainSetting hconfined copiedColumns
  have hm : s.arrays.lookup "m" = some matrix := by rfl
  have hv : s.arrays.lookup "v" = some outerColumns := by rfl
  have hfm : F.ofName "m" = some 0 := by rfl
  have hfv : F.ofName "v" = some 0 := by rfl
  have hfw : F.ofName "w" = some 1 := by rfl
  -- the only write goes to the copy
  have hspares : Families.Spares plainSetting 0 [.update (.fill "w" .i32 7)] s F := by
    refine ⟨fun n hn => ?_, trivial⟩
    rw [List.mem_singleton.1 hn, hfw]
    decide
  exact ⟨grow_plainSetting, hconfined, ⟨hm, hv⟩, ⟨hfm, hfv, hfw⟩,
    (hshares _ _ _ _ hm hv).2 (hfm.trans hfv.symm), hspares,
    hspared 0 _ hspares "m" matrix hm hfm⟩

end Session

end Strided
