import Strided.Proofs.NDArray.Placed
import Strided.Proofs.Session.Sound

/-!
# Slices in a session

In every session all named arrays are placed on their buffers, whatever the commands ask for, as
long as no view is made up (`Session.placed_run`). In contrast to `Session.sound_run` there are no
bounds on steps and spans here, and so less is known: the walk over a placed array may overflow.

`Session.run_slices` says when it does after a slice that fits, for buffers of a moderate size. A
slice that fits is not refused, but its step can be too long, for a stride of the subview or for the
walk over it. The walk goes one step behind the last element of an axis before it comes round, also
on an axis with a single index, where nothing has bounded the step
(`Session.wideColumn_overflows`).
-/

namespace Strided

open Session NDArray

/-- **A command that makes up no view**: all views are had by slicing, cutting and reshaping. -/
def Command.Public : Command → Prop
  | .make (.withView ..) _ => False
  | _ => True

namespace Session

variable {c : Setting} {s s' : Session} {commands : List Command}

/-! ### Placed arrays -/

theorem lasting_placed : Lasting NDArray.Placed := fun _ _ _ h hs => Held.mono h hs

/-- **What an operation gives is placed**, if it makes up no view. -/
theorem placed_of_operate {op : Operation} {under : Option Name} {a : NDArray}
    {out : Option NDArray} (hb : c.bridges.Grow) (hs : s.Everywhere NDArray.Placed)
    (hpublic : (Command.make op under).Public) (h : (operate c op).run s = (.ok (a, out), s')) :
    a.Placed s'.world.store := by
  have hstore := (keeps_operate hb op s _ s' h).2
  -- a named array is placed before, and stays so
  have hnamed : ∀ {name x}, s.arrays.lookup name = some x → x.Placed s'.world.store :=
    fun hname => lasting_placed _ _ _ (hs.lookup hname) hstore
  cases origin_of_operate hb h with
  | fresh hfresh => exact hfresh.placed
  | named hname => exact hnamed hname
  | moved device hx heq =>
    rw [← heq]
    exact (hnamed hx).withDevice device
  | diagonal hx hk => exact (hnamed hx).diagonal hk
  | subview hx hsub => exact (hnamed hx).subview hsub
  | reshape hx hreshape => exact (hnamed hx).reshape hreshape
  | withView view name => exact hpublic.elim

/-- **A command that makes up no view keeps every array placed.** -/
theorem placed_exec {command : Command} (hb : c.bridges.Grow) (hs : s.Everywhere NDArray.Placed)
    (hpublic : command.Public) : (exec c command s).2.Everywhere NDArray.Placed := by
  refine hs.exec lasting_placed hb ?_ ?_
  · rintro op under a out s' rfl h
    exact placed_of_operate hb hs hpublic h
  · rintro op under₁ under₂ a b s' rfl h
    have hstore := (keeps_operatePair hb op s _ s' h).2
    obtain ⟨out₁, out₂, hout₁, hout₂, ha, hb'⟩ := delivered_of_operatePair hb h
    exact ⟨hs.delivered lasting_placed hstore hout₁ Fresh.placed ha,
      hs.delivered lasting_placed hstore hout₂ Fresh.placed hb'⟩

/-- **So does every run of them.** -/
theorem placed_run (hb : c.bridges.Grow) (hs : s.Everywhere NDArray.Placed)
    (hpublic : ∀ command ∈ commands, command.Public) :
    (run c commands s).2.Everywhere NDArray.Placed := by
  induction commands generalizing s with
  | nil => exact hs
  | cons command commands ih =>
    exact ih (placed_exec hb hs (hpublic command List.mem_cons_self))
      fun later hlater => hpublic later (List.mem_cons_of_mem _ hlater)

theorem placed_start : start.Everywhere NDArray.Placed := by
  intro p hp
  exact absurd hp List.not_mem_nil

/-! ### Slices -/

/-- **Slices of the arrays of a session.** Every array that can be had without making up views has a
buffer of its element type, and if this has no more than `sizeLimit` cells, a slice that fits the
array is never refused. It ends in an overflow if and only if a stride of the subview is no signed
word. Otherwise it gives a subview, and reading, writing and copying that all succeed if the places
one past the end of an axis are at signed words, and all end in an overflow if they are not. Strides
that leave room for the buffer in a signed word are always good enough. -/
theorem run_slices (hb : c.bridges.Grow) (hpublic : ∀ command ∈ commands, command.Public) :
    let s := (run c commands start).2
    ∀ p ∈ s.arrays, ∃ cells : Array p.2.dt.Elem, p.2.Backed s.world.store cells ∧
      (cells.size ≤ sizeLimit → ∀ sub : Subscription, sub.Fits p.2.shape →
        (((¬∀ z ∈ sub.stretch p.2.strides.steps, SignedWord z) ∧
            p.2.subview sub = .error (.fault .overflow)) ∨
          ((∀ z ∈ sub.stretch p.2.strides.steps, SignedWord z) ∧
            ∃ part, p.2.subview sub = .ok part ∧ part.shape = sub.shape ∧
              part.strides = ⟨sub.stretch p.2.strides.steps⟩ ∧
              ((part.view.Clear ∧ Usable s.world part) ∨
                (¬part.view.Clear ∧ Overflows s.world part)))) ∧
        ((∀ z ∈ sub.stretch p.2.strides.steps, z.natAbs + cells.size ≤ signedBound) →
          ∃ part, p.2.subview sub = .ok part ∧ Usable s.world part)) := by
  intro s p hp
  have hplaced : p.2.Placed s.world.store := placed_run hb placed_start hpublic p hp
  obtain ⟨cells, hbuf, hfits, hview⟩ := Held.exists_cells hplaced
  refine ⟨cells, hbuf, fun hsize sub hsub => ?_⟩
  -- so there are at least twice as many signed words as cells
  have hhalf : 2 * cells.size ≤ signedBound := by
    unfold sizeLimit at hsize
    unfold signedBound
    omega
  refine ⟨?_, usable_of_room hbuf hfits hview hhalf hsub⟩
  rcases subview_cases hbuf hfits hview hhalf hsub with
    hoverflow | ⟨hwords, part, hpart, hshape, hstrides, -, huse⟩
  · exact .inl hoverflow
  · exact .inr ⟨hwords, part, hpart, hshape, hstrides, huse⟩

/-- The matrix of the six numbers is made, and nothing else. -/
def matrixCommands : List Command :=
  [.make (.ofArray ⟨.i32, countTo 6⟩ ⟨[2, 3]⟩ .host) (some "m")]

/-- Every second column of the matrix can be read, written and copied. -/
theorem run_slices_matrix : (∀ command ∈ matrixCommands, command.Public) ∧
    plainSetting.bridges.Grow ∧ (run plainSetting matrixCommands start).2 = withMatrix ∧
    everySecond.Fits matrix.shape ∧
    ∃ part, matrix.subview everySecond = .ok part ∧ Usable withMatrix.world part := by
  have hpublic : ∀ command ∈ matrixCommands, command.Public := by
    intro command hcommand
    obtain rfl := List.mem_singleton.1 hcommand
    trivial
  have hrun : (run plainSetting matrixCommands start).2 = withMatrix := rfl
  have hfits : everySecond.Fits matrix.shape := by decide
  refine ⟨hpublic, grow_plainSetting, hrun, hfits, ?_⟩
  obtain ⟨cells, hbuf, hslices⟩ :=
    run_slices grow_plainSetting hpublic ("m", matrix) List.mem_cons_self
  -- the buffer is the one that the matrix has been made of
  have hcells : (⟨.i32, cells⟩ : Buffer) = ⟨.i32, countTo 6⟩ := Option.some.inj hbuf.symm
  obtain ⟨-, hcells⟩ := Buffer.mk.inj hcells
  obtain rfl := eq_of_heq hcells
  exact (hslices (by decide) everySecond hfits).2 (by decide)

/-- A step of `2 ^ 62` rows is too long for a stride. -/
example : matrix.subview ⟨[⟨0, 4611686018427387904, 2⟩, ⟨0, 1, 3⟩]⟩
    = .error (.fault .overflow) := by
  decide +kernel

/-- Four numbers. -/
def fourNumbers : Array Int64 := #[1, 2, 3, 4]

/-- A matrix is made of them. -/
def squareCommands : List Command :=
  [.make (.ofArray ⟨.i64, fourNumbers⟩ ⟨[2, 2]⟩ .host) (some "m")]

/-- The last column alone, in the longest step there is. -/
def wideColumn : Subscription := ⟨[⟨0, 1, 2⟩, ⟨1, 9223372036854775807, 2⟩]⟩

/-- The column fits and there is a subview of it. The walk over the subview goes a step behind its
first element, and there are no signed words so far out. -/
theorem wideColumn_overflows :
    let s := (run plainSetting squareCommands start).2
    (∀ command ∈ squareCommands, command.Public) ∧ ∃ a, s.arrays.lookup "m" = some a ∧
      s.world.store.buffer? a.storage = some ⟨.i64, fourNumbers⟩ ∧ wideColumn.Fits a.shape ∧
      ∃ part, a.subview wideColumn = .ok part ∧ part.numel = .ok 2 ∧
        part.toList s.world.store .i64 = .error (.fault .overflow) ∧
        part.deepClone s.world = (.error (.fault .overflow), s.world) := by
  intro s
  have hpublic : ∀ command ∈ squareCommands, command.Public := by
    intro command hcommand
    obtain rfl := List.mem_singleton.1 hcommand
    trivial
  -- the step of the last slice is the stride of the column
  have hsub : (⟨0, ⟨⟨[2, 2]⟩, ⟨[2, 1]⟩, 0⟩, .i64, .host⟩ : NDArray).subview wideColumn
      = .ok ⟨0, ⟨⟨[2, 1]⟩, ⟨[2, 9223372036854775807]⟩, 1⟩, .i64, .host⟩ := by decide +kernel
  exact ⟨hpublic, _, rfl, rfl, by decide, _, hsub, rfl, rfl, rfl⟩

end Session

end Strided
