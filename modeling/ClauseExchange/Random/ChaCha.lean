/-!
# The ChaCha stream with eight rounds

A stream of 32-bit words that is determined by a key. Block `n` of the stream is the ChaCha
permutation of a state made of constants, the key and the number `n`, added to that state. The
state is kept in rows of four words: a round works on the four columns at once, and on the
diagonals after the rows have been turned.

`WordSource` is what the rest of the library needs of a stream.
-/

namespace ClauseExchange

/-- A stream of 32-bit words with states in `ρ`. -/
class WordSource (ρ : Type) where
  /-- The next word, and the state after it. -/
  next : ρ → UInt32 × ρ

namespace ChaCha

/-- A row of the state. -/
structure Row where
  a : UInt32
  b : UInt32
  c : UInt32
  d : UInt32
  deriving DecidableEq, Repr, Inhabited

namespace Row

/-- The sum of two rows, word by word. -/
def add (x y : Row) : Row := ⟨x.a + y.a, x.b + y.b, x.c + y.c, x.d + y.d⟩

/-- A word turned to the left by `n` bits. -/
def turnWord (n x : UInt32) : UInt32 := x <<< n ||| x >>> (32 - n)

/-- The difference of two rows by bits, with every word turned to the left by `n` bits. -/
def mix (n : UInt32) (x y : Row) : Row :=
  ⟨turnWord n (x.a ^^^ y.a), turnWord n (x.b ^^^ y.b), turnWord n (x.c ^^^ y.c),
    turnWord n (x.d ^^^ y.d)⟩

/-- The row with its first word moved to the end. -/
def turn (x : Row) : Row := ⟨x.b, x.c, x.d, x.a⟩

/-- The words in order. -/
def toList (x : Row) : List UInt32 := [x.a, x.b, x.c, x.d]

end Row

/-- The state of the permutation. -/
structure State where
  constants : Row
  keyLow : Row
  keyHigh : Row
  position : Row
  deriving DecidableEq, Repr, Inhabited

namespace State

/-- A round on the four columns. -/
def columns (s : State) : State :=
  let a := s.constants.add s.keyLow
  let d := s.position.mix 16 a
  let c := s.keyHigh.add d
  let b := s.keyLow.mix 12 c
  let a := a.add b
  let d := d.mix 8 a
  let c := c.add d
  let b := b.mix 7 c
  ⟨a, b, c, d⟩

/-- A round on the columns and one on the diagonals. -/
def doubleRound (s : State) : State :=
  let s := s.columns
  let s := columns ⟨s.constants, s.keyLow.turn, s.keyHigh.turn.turn, s.position.turn.turn.turn⟩
  ⟨s.constants, s.keyLow.turn.turn.turn, s.keyHigh.turn.turn, s.position.turn⟩

/-- The sum of two states, word by word. -/
def add (s t : State) : State :=
  ⟨s.constants.add t.constants, s.keyLow.add t.keyLow, s.keyHigh.add t.keyHigh,
    s.position.add t.position⟩

/-- The block that belongs to a state. -/
def block (s : State) : List UInt32 :=
  let t := (s.doubleRound.doubleRound.doubleRound.doubleRound).add s
  t.constants.toList ++ t.keyLow.toList ++ t.keyHigh.toList ++ t.position.toList

end State

/-- A place in a stream. -/
structure Stream where
  /-- The first half of the key. -/
  keyLow : Row
  /-- The second half of the key. -/
  keyHigh : Row
  /-- The number of the next block. -/
  counter : UInt64 := 0
  /-- The words of the present block that are left. -/
  words : List UInt32 := []
  deriving DecidableEq, Repr, Inhabited

namespace Stream

/-- The constants of every state. -/
def constants : Row := ⟨0x61707865, 0x3320646e, 0x79622d32, 0x6b206574⟩

/-- The words of the next block. -/
def nextBlock (s : Stream) : List UInt32 :=
  State.block
    ⟨constants, s.keyLow, s.keyHigh, ⟨s.counter.toUInt32, (s.counter >>> 32).toUInt32, 0, 0⟩⟩

/-- The next word of the stream. -/
def next (s : Stream) : UInt32 × Stream :=
  match s.words with
  | word :: words => (word, { s with words })
  | [] =>
    match s.nextBlock with
    | [] => (0, s)
    | word :: words => (word, { s with words, counter := s.counter + 1 })

instance : WordSource Stream := ⟨next⟩

/-- One word of the key and the next state of the generator that makes keys from seeds. -/
def keyWord (seed : UInt64) : UInt32 × UInt64 :=
  let state := seed * 6364136223846793005 + 11634580027462260723
  let mixed := (((state >>> 18) ^^^ state) >>> 27).toUInt32
  let turned := (state >>> 59).toUInt32
  (mixed >>> turned ||| mixed <<< ((32 - turned) &&& 31), state)

/-- Four words of the key and the next state of the generator. -/
def keyRow (seed : UInt64) : Row × UInt64 :=
  let (a, seed) := keyWord seed
  let (b, seed) := keyWord seed
  let (c, seed) := keyWord seed
  let (d, seed) := keyWord seed
  (⟨a, b, c, d⟩, seed)

/-- The stream for a seed. -/
def ofSeed (seed : UInt64) : Stream :=
  let (keyLow, seed) := keyRow seed
  let (keyHigh, _) := keyRow seed
  { keyLow, keyHigh }

end Stream

end ChaCha

end ClauseExchange
