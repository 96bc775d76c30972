import Strided.Random.Range

/-!
# The ChaCha stream

The seeded source of the command line: a ChaCha stream of twelve rounds, whose key is
expanded from a 64-bit seed by a permuted congruential generator. Block `i` of the stream
has the counter `i` in its words 12 and 13 and zeros in words 14 and 15; a 64-bit word is
two consecutive outputs, the first one low.
-/

namespace Strided.ChaCha

/-- Rotation to the left. -/
def rotate (x : UInt32) (n : UInt32) : UInt32 := (x <<< n) ||| (x >>> (32 - n))

/-- The quarter round of four words. -/
def quarter (a b c d : UInt32) : UInt32 × UInt32 × UInt32 × UInt32 :=
  let a := a + b
  let d := rotate (d ^^^ a) 16
  let c := c + d
  let b := rotate (b ^^^ c) 12
  let a := a + b
  let d := rotate (d ^^^ a) 8
  let c := c + d
  let b := rotate (b ^^^ c) 7
  (a, b, c, d)

/-- **The sixteen words of a block.** -/
abbrev State := Vector UInt32 16

/-- The quarter round on the words at four places. -/
def quarterAt (s : State) (i j k l : Fin 16) : State :=
  let (a, b, c, d) := quarter s[i] s[j] s[k] s[l]
  (((s.set i a).set j b).set k c).set l d

/-- A round on the columns and one on the diagonals. -/
def doubleRound (s : State) : State :=
  let s := quarterAt s 0 4 8 12
  let s := quarterAt s 1 5 9 13
  let s := quarterAt s 2 6 10 14
  let s := quarterAt s 3 7 11 15
  let s := quarterAt s 0 5 10 15
  let s := quarterAt s 1 6 11 12
  let s := quarterAt s 2 7 8 13
  quarterAt s 3 4 9 14

/-- The key. -/
abbrev Key := Vector UInt32 8

/-- The words that a block starts from. -/
def initial (key : Key) (counter : UInt64) : State :=
  #v[0x61707865, 0x3320646e, 0x79622d32, 0x6b206574,
    key[0], key[1], key[2], key[3], key[4], key[5], key[6], key[7],
    counter.toUInt32, (counter >>> 32).toUInt32, 0, 0]

/-- **A block of the stream**, after twelve rounds. -/
def block (key : Key) (counter : UInt64) : State :=
  let start := initial key counter
  -- two rounds at a time
  let mixed := (List.range 6).foldl (fun s _ => doubleRound s) start
  start.zipWith (· + ·) mixed

/-! ### Seeding -/

/-- One step of the congruential generator. -/
def advance (state : UInt64) : UInt64 := state * 6364136223846793005 + 11634580027462260723

/-- The output of a state: some of its middle bits, rotated to the right by its top bits. -/
def permute (state : UInt64) : UInt32 :=
  let x := (((state >>> 18) ^^^ state) >>> 27).toUInt32
  let n := (state >>> 59).toUInt32
  if n = 0 then x else (x >>> n) ||| (x <<< (32 - n))

/-- The states that follow a seed. -/
def states (seed : UInt64) : Nat → UInt64
  | 0 => advance seed
  | n + 1 => advance (states seed n)

/-- **The key of a seed.** -/
def key (seed : UInt64) : Key := Vector.ofFn fun i => permute (states seed i)

/-! ### The source of words -/

/-- A place in a stream: the outputs of earlier blocks not yet taken, and the next block. -/
structure Stream where
  key : Key
  counter : UInt64
  pending : List UInt32

/-- The stream of a seed. -/
def stream (seed : UInt64) : Stream := ⟨key seed, 0, []⟩

/-- A 64-bit word of two outputs. -/
def joinWords (low high : UInt32) : UInt64 := low.toUInt64 ||| (high.toUInt64 <<< 32)

/-- The next word. A block has an even number of outputs, so words do not span two. -/
def Stream.next (s : Stream) : UInt64 × Stream :=
  match s.pending with
  | low :: high :: rest => (joinWords low high, { s with pending := rest })
  | _ =>
    let b := block s.key s.counter
    -- the first two outputs of a new block, and the others for later
    (joinWords b[0] b[1], ⟨s.key, s.counter + 1, b.toList.drop 2⟩)

/-- **The stream as a source of words.** -/
def source : WordSource Stream := ⟨Stream.next⟩

end Strided.ChaCha
