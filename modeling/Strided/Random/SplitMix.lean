import Strided.Random.Range

/-!
# Recited words

A source for tests: it recites a list of words and goes on with a SplitMix sequence, in
which a counter advances by a fixed odd amount and every state is scrambled to a word. It
counts the words that were drawn.
-/

namespace Strided

/-- The words still to be recited, the counter, and the number of words drawn. -/
structure Recital where
  words : List UInt64
  counter : UInt64
  drawn : Nat

namespace Recital

/-- The word of a counter. -/
def scramble (counter : UInt64) : UInt64 :=
  let z := (counter ^^^ (counter >>> 30)) * 0xBF58476D1CE4E5B9
  let z := (z ^^^ (z >>> 27)) * 0x94D049BB133111EB
  z ^^^ (z >>> 31)

/-- The next word. -/
def next (r : Recital) : UInt64 × Recital :=
  match r.words with
  | v :: words => (v, ⟨words, r.counter, r.drawn + 1⟩)
  | [] =>
    let counter := r.counter + 0x9E3779B97F4A7C15
    (scramble counter, ⟨[], counter, r.drawn + 1⟩)

/-- **The recital as a source of words.** -/
def source : WordSource Recital := ⟨next⟩

end Recital

end Strided
