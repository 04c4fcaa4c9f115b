/-!
# The ChaCha8 stream

A stream of 32-bit words made from a 256-bit seed, a 64-bit block counter and a 64-bit stream
number. A block is a four by four matrix of words that goes through four double rounds and is then
added to itself. A `Generator` holds the words of the current block that were not drawn yet.
-/

namespace Lockstep.Random

/-- Four words, a row of the matrix. -/
structure Row where
  a : UInt32
  b : UInt32
  c : UInt32
  d : UInt32

namespace Row

def add (x y : Row) : Row := ⟨x.a + y.a, x.b + y.b, x.c + y.c, x.d + y.d⟩

def xor (x y : Row) : Row := ⟨x.a ^^^ y.a, x.b ^^^ y.b, x.c ^^^ y.c, x.d ^^^ y.d⟩

/-- The word with its bits rotated to the left. -/
def rotateWord (w : UInt32) (n : UInt32) : UInt32 := (w <<< n) ||| (w >>> (32 - n))

/-- Every word rotated by the same count of bits. -/
def rotate (x : Row) (n : UInt32) : Row :=
  ⟨rotateWord x.a n, rotateWord x.b n, rotateWord x.c n, rotateWord x.d n⟩

/-- The words moved one place to the left, the first one to the end. -/
def shift (x : Row) : Row := ⟨x.b, x.c, x.d, x.a⟩

def toList (x : Row) : List UInt32 := [x.a, x.b, x.c, x.d]

end Row

/-- The matrix of a block. -/
structure Block where
  first : Row
  second : Row
  third : Row
  fourth : Row

namespace Block

def add (x y : Block) : Block :=
  ⟨x.first.add y.first, x.second.add y.second, x.third.add y.third, x.fourth.add y.fourth⟩

/-- A quarter round on every column. -/
def columnRound (x : Block) : Block :=
  let a := x.first.add x.second
  let d := (x.fourth.xor a).rotate 16
  let c := x.third.add d
  let b := (x.second.xor c).rotate 12
  let a := a.add b
  let d := (d.xor a).rotate 8
  let c := c.add d
  let b := (b.xor c).rotate 7
  ⟨a, b, c, d⟩

/-- The diagonals turned into columns. -/
def turn (x : Block) : Block :=
  ⟨x.first, x.second.shift, x.third.shift.shift, x.fourth.shift.shift.shift⟩

/-- The columns turned back into diagonals. -/
def turnBack (x : Block) : Block :=
  ⟨x.first, x.second.shift.shift.shift, x.third.shift.shift, x.fourth.shift⟩

/-- A round on the columns and one on the diagonals. -/
def doubleRound (x : Block) : Block := x.columnRound.turn.columnRound.turnBack

/-- The words of the block after eight rounds. -/
def scramble (x : Block) : List UInt32 :=
  let y := x.doubleRound.doubleRound.doubleRound.doubleRound.add x
  y.first.toList ++ y.second.toList ++ y.third.toList ++ y.fourth.toList

end Block

/-- The seed of a stream: eight words. -/
structure Seed where
  low : Row
  high : Row

/-- The low half of a 64-bit word. -/
def lowWord (x : UInt64) : UInt32 := x.toUInt32

/-- The high half of a 64-bit word. -/
def highWord (x : UInt64) : UInt32 := (x >>> 32).toUInt32

/-- One step of the sequence that fills a seed, with the word that it yields. -/
def seedStep (x : UInt64) : UInt64 × UInt32 :=
  let x := x * 6364136223846793005 + 11634580027462260723
  let mixed := lowWord (((x >>> 18) ^^^ x) >>> 27)
  let turns := lowWord (x >>> 59)
  (x, if turns = 0 then mixed else Row.rotateWord mixed (32 - turns))

/-- Four steps of the sequence that fills a seed. -/
def seedRow (x : UInt64) : UInt64 × Row :=
  let (x, a) := seedStep x
  let (x, b) := seedStep x
  let (x, c) := seedStep x
  let (x, d) := seedStep x
  (x, ⟨a, b, c, d⟩)

/-- The seed made from a 64-bit word. -/
def Seed.ofWord (x : UInt64) : Seed :=
  let (x, low) := seedRow x
  ⟨low, (seedRow x).2⟩

/-- The words of a stream that are still to come. -/
structure Generator where
  seed : Seed
  stream : UInt64
  /-- the number of the next block -/
  counter : UInt64
  /-- what is left of the block before it -/
  pending : List UInt32

namespace Generator

/-- The start of a stream. -/
def new (seed : UInt64) (stream : UInt64) : Generator := ⟨Seed.ofWord seed, stream, 0, []⟩

/-- The words of the next block. -/
def block (g : Generator) : List UInt32 :=
  Block.scramble {
    first := ⟨0x61707865, 0x3320646e, 0x79622d32, 0x6b206574⟩
    second := g.seed.low
    third := g.seed.high
    fourth := ⟨lowWord g.counter, highWord g.counter, lowWord g.stream, highWord g.stream⟩ }

/-- The next 32-bit word. -/
def nextWord (g : Generator) : UInt32 × Generator :=
  match g.pending with
  | w :: rest => (w, { g with pending := rest })
  | [] => (g.block.headD 0, { g with counter := g.counter + 1, pending := g.block.tail })

/-- The next 64-bit word: two words, the low half first. -/
def next (g : Generator) : UInt64 × Generator :=
  let (low, g) := g.nextWord
  let (high, g) := g.nextWord
  (high.toUInt64 <<< 32 ||| low.toUInt64, g)

/-- The next number in `[0, 1)`, a multiple of `2 ^ -53`. -/
def nextUnit (g : Generator) : Float × Generator :=
  let (x, g) := g.next
  ((x >>> 11).toFloat * Float.ofScientific 11102230246251565404236316680908203125 true 53, g)

/-- The next `count` draws of one kind, in order. -/
def draws {α : Type} (draw : Generator → α × Generator) :
    Nat → Generator → List α × Generator
  | 0, g => ([], g)
  | count + 1, g =>
    let (x, g) := draw g
    let (xs, g) := draws draw count g
    (x :: xs, g)

end Generator

end Lockstep.Random
