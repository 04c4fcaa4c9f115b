import Lockstep.Random.ChaCha
import Lockstep.Tensor.Basic

/-!
# Random keys

Every random draw comes from a stream that a 64-bit key and a stream number determine. `fold`
derives a key from another one and a datum. A key is kept in a state as a tensor of its two 32-bit
halves, which doubles hold exactly.
-/

namespace Lockstep.Random

/-- A source of independent random streams. -/
structure Key where
  word : UInt64
deriving DecidableEq

namespace Key

/-- A bijection on 64-bit words that spreads every bit. -/
def mix (z : UInt64) : UInt64 :=
  let z := z + 0x9E3779B97F4A7C15
  let z := (z ^^^ (z >>> 30)) * 0xBF58476D1CE4E5B9
  let z := (z ^^^ (z >>> 27)) * 0x94D049BB133111EB
  z ^^^ (z >>> 31)

/-- The key of a seed. -/
def ofSeed (seed : UInt64) : Key := ⟨mix seed⟩

/-- An independent key derived from this one and a datum. -/
def fold (k : Key) (datum : UInt64) : Key :=
  ⟨mix (k.word ^^^ mix (datum + 0x9E3779B97F4A7C15))⟩

/-- The random stream with a number. -/
def generator (k : Key) (stream : UInt64) : Generator := Generator.new k.word stream

/-- The two halves of the key, the high one first. -/
def toTensor (k : Key) : Tensor :=
  .vector [(k.word >>> 32).toFloat, (k.word &&& 0xFFFFFFFF).toFloat]

/-- A number that is an integer below `2 ^ 32`, as a word. -/
def half (x : Float) : Outcome UInt64 :=
  if x.toUInt64 < 0x100000000 && x.toUInt64.toFloat == x then .ok x.toUInt64
  else .error (.validation (.keyHalf x))

/-- The key whose halves a tensor holds. -/
def ofTensor (t : Tensor) : Outcome Key :=
  match t.shape, t.data with
  | [2], [high, low] => do
    let high ← half high
    let low ← half low
    return ⟨high <<< 32 ||| low⟩
  | _, _ => shapeMismatch "rng key" [2] t.shape

end Key

/-- The stream from which initial states are drawn. -/
def initialStream : UInt64 := 0

end Lockstep.Random
