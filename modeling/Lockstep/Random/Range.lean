import Lockstep.Error
import Lockstep.Random.ChaCha

/-!
# Draws from ranges

Uniform draws of numbers and of integers between two bounds, both included, and of one item of a
list. A range without members, or without a finite length, has no draws.
-/

namespace Lockstep.Random

/-- The greatest number that `Generator.nextFraction` gives: the last double below 2, less 1. -/
def greatestFraction : Float := Float.ofBits 0x3FFFFFFFFFFFFFFF - 1

/-- The greatest scale, at most the one with the given bits, with which no fraction leads beyond the
upper bound. -/
def fitScale (low high : Float) : (bits : Nat) → Float
  | 0 => 0
  | bits + 1 =>
    let scale := Float.ofBits (.ofNat (bits + 1))
    if high < scale * greatestFraction + low then fitScale low high bits else scale

namespace Generator

/-- The next number in `[0, 1)`, a multiple of `2 ^ -52`. -/
def nextFraction (g : Generator) : Float × Generator :=
  let (x, g) := g.next
  (Float.ofBits ((x >>> 12) ||| 0x3FF0000000000000) - 1, g)

/-- A number between two bounds. The length of the range must be finite. -/
def between (low high : Float) (g : Generator) : Except Abort (Float × Generator) :=
  if low ≤ high then
    let scale := (high - low) / greatestFraction
    if scale.isFinite then
      let (u, g) := g.nextFraction
      .ok (u * fitScale low high scale.toBits.toNat + low, g)
    else .error .unboundedRange
  else .error .emptyRange

/-- The high word of a product with a word is below the other factor. -/
theorem highWord_lt (word : UInt64) (last : Nat) :
    word.toNat * (last + 1) / UInt64.size < last + 1 :=
  Nat.div_lt_of_lt_mul (Nat.mul_lt_mul_of_pos_right word.toNat_lt last.succ_pos)

/-- The high word of a count times the next word; the count is one more than the greatest answer.
The word is passed over, and the rest of the stream is left, if the low word of the product is above
the limit, so that every answer comes from equally many words. -/
def tryWord (last limit : Nat) (g : Generator) : Generator ⊕ Fin (last + 1) × Generator :=
  let (word, g) := g.next
  if word.toNat * (last + 1) % UInt64.size ≤ limit then
    .inr (⟨word.toNat * (last + 1) / UInt64.size, highWord_lt word last⟩, g)
  else .inl g

/-- A natural number up to a greatest one, which is itself below `2 ^ 64 - 1`. The search goes on
until a word is not passed over. -/
def upTo (last : Nat) (g : Generator) : Fin (last + 1) × Generator :=
  have : Nonempty (Fin (last + 1) × Generator) := ⟨.last last, g⟩
  let limit := (last + 1) * Nat.pow 2 (63 - (last + 1).log2) - 1
  Id.run (repeatM (fun g => pure (tryWord last limit g)) g)

/-- An integer between two bounds. -/
def betweenIntegers (low high : Int64) (g : Generator) : Except Abort (Int64 × Generator) :=
  if low ≤ high then
    let steps := (high.toInt - low.toInt).toNat
    if steps + 1 = UInt64.size then
      let (word, g) := g.next
      .ok (word.toInt64, g)
    else
      let (n, g) := g.upTo steps
      .ok (.ofInt (low.toInt + n.val), g)
  else .error .emptyRange

/-- An item of a list. -/
def item {α : Type} (xs : List α) (g : Generator) : Except Abort (α × Generator) :=
  match xs with
  | [] => .error .emptyChoice
  | x :: rest =>
    let (i, g) := g.upTo rest.length
    .ok ((x :: rest)[i], g)

end Generator

end Lockstep.Random
