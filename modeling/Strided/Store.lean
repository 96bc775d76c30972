import Strided.Buffer

/-!
# Storages

Arrays that are views of one another share a buffer, and a write through one of them
shows in all. Sharing is made explicit: the buffers live in a `Store`, and an array names
its buffer by a `StorageId`. A store only grows at its end and its buffers keep their
place, so that two arrays share storage exactly when they name the same place.
-/

namespace Strided

/-- The place of a buffer in a store. -/
abbrev StorageId := Nat

/-- **All buffers**, in the order in which they were made. -/
structure Store where
  buffers : Array Buffer

namespace Store

/-- No buffers. -/
def empty : Store := ⟨#[]⟩

instance : Inhabited Store := ⟨empty⟩

/-- The buffer at a place. -/
def buffer? (s : Store) (id : StorageId) : Option Buffer := s.buffers[id]?

/-- The place of the next buffer. -/
def nextId (s : Store) : StorageId := s.buffers.size

/-- **A new buffer**, at the end. -/
def push (s : Store) (b : Buffer) : Store := ⟨s.buffers.push b⟩

/-- Another buffer at a place that is in use. -/
def replace (s : Store) (id : StorageId) (b : Buffer) : Store := ⟨s.buffers.setIfInBounds id b⟩

/-! ### What a place holds after a change -/

@[simp] theorem buffer?_empty (id : StorageId) : empty.buffer? id = none := rfl

theorem buffer?_push (s : Store) (b : Buffer) (id : StorageId) :
    (s.push b).buffer? id = if id = s.nextId then some b else s.buffer? id := by
  simp only [push, buffer?, nextId, Array.getElem?_push]
  rfl

theorem buffer?_replace (s : Store) (id : StorageId) (b : Buffer) (id' : StorageId) :
    (s.replace id b).buffer? id' =
      if id = id' ∧ id < s.nextId then some b else s.buffer? id' := by
  simp only [replace, buffer?, nextId, Array.getElem?_setIfInBounds]
  split
  · rename_i h
    subst h
    split
    · simp [*]
    · rename_i h
      simp [h]
  · rename_i h
    simp [h]

@[simp] theorem nextId_push (s : Store) (b : Buffer) : (s.push b).nextId = s.nextId + 1 := by
  simp [nextId, push]

@[simp] theorem nextId_replace (s : Store) (id : StorageId) (b : Buffer) :
    (s.replace id b).nextId = s.nextId := by
  simp [nextId, replace]

end Store

end Strided
