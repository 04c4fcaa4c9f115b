import Lockstep.Json.Basic

/-!
# Readers of typed data

A reader turns a JSON value into data of a type, or refuses it. It is given how many arrays and
objects it may still enter; a text starts with `maxDepth` of them. Parts of a value that no reader
asks for are not looked at.
-/

namespace Lockstep.Json.Read

/-- Reads data from a value, entering at most the given count of nested arrays and objects. -/
abbrev Reader (α : Type) := (depth : Nat) → Json → Option α

/-- How many nested arrays and objects a text may have. -/
def maxDepth : Nat := 127

/-- The parts of a number literal: its sign, all its digits, the power of ten that they count and
whether it is written without point and exponent. -/
structure Literal where
  negative : Bool
  coefficient : Nat
  exponent : Int
  integral : Bool

/-- The value of decimal digits. -/
def digitsValue (ds : List Char) : Nat :=
  ds.foldl (fun n c => n * 10 + (c.toNat - '0'.toNat)) 0

/-- The value of an exponent with an optional sign. -/
def exponentValue : List Char → Int
  | '-' :: ds => -(digitsValue ds : Int)
  | '+' :: ds => digitsValue ds
  | ds => digitsValue ds

/-- The parts of a literal. -/
def Literal.ofString (s : String) : Literal :=
  let (negative, cs) := match s.toList with
    | '-' :: r => (true, r)
    | r => (false, r)
  let (whole, cs) := cs.span Char.isDigit
  let (fraction, cs) := match cs with
    | '.' :: r => r.span Char.isDigit
    | r => ([], r)
  { negative
    coefficient := digitsValue (whole ++ fraction)
    exponent := exponentValue (cs.drop 1) - fraction.length
    integral := fraction = [] && cs = [] }

/-- The double nearest to a literal, if it is finite. -/
def Literal.toFloat? (l : Literal) : Option Float :=
  let size := (Nat.toDigits 10 l.coefficient).length + l.exponent
  let x : Float :=
    if l.coefficient = 0 || size < -400 then 0
    else if 400 < size then 1 / 0
    else .ofScientific l.coefficient (l.exponent < 0) l.exponent.natAbs
  if x.isFinite then some (if l.negative then -x else x) else none

/-- The integer that a literal writes without point and exponent. A zero with a minus sign is not
an integer. -/
def Literal.toInt? (l : Literal) : Option Int :=
  if !l.integral || (l.negative && l.coefficient = 0) then none
  else some (if l.negative then -l.coefficient else l.coefficient)

/-- A number. -/
def float : Reader Float
  | _, .number s => (Literal.ofString s).toFloat?
  | _, _ => none

/-- An integer between two bounds, both included. -/
def int (low high : Int) : Reader Int
  | _, .number s => do
    let i ← (Literal.ofString s).toInt?
    if low ≤ i ∧ i ≤ high then some i else none
  | _, _ => none

/-- A natural number of at most 64 bits. -/
def nat : Reader Nat := fun d j => (int 0 (Int.pow 2 64 - 1) d j).map Int.toNat

/-- A word of 64 bits, as a natural number. -/
def word : Reader UInt64 := fun d j => (nat d j).map UInt64.ofNat

/-- An integer of 64 bits. -/
def int64 : Reader Int := int (-Int.pow 2 63) (Int.pow 2 63 - 1)

/-- A text. -/
def string : Reader String
  | _, .string s => s
  | _, _ => none

/-- A truth value. -/
def boolean : Reader Bool
  | _, .bool b => some b
  | _, _ => none

/-- Null, or what another reader takes. -/
def optional {α : Type} (r : Reader α) : Reader (Option α)
  | _, .null => some none
  | d, j => (r d j).map some

/-- The items of an array. -/
def list {α : Type} (r : Reader α) : Reader (List α)
  | d + 1, .array items => items.mapM (r d)
  | _, _ => none

/-- The members of an object, in order. -/
def entries {α : Type} (r : Reader α) : Reader (List (String × α))
  | d + 1, .object members => members.mapM fun m => do return (← m.1, ← r d m.2)
  | _, _ => none

/-- The values of the named fields, in order, `none` for an absent one. An object may hold other
members too but none of the fields twice; an array holds exactly the fields. -/
def fields (names : List String) : Reader (List (Option Json))
  | _ + 1, .object members => do
    let members ← members.mapM fun m => do return (← m.1, m.2)
    names.mapM fun name => match members.filter (·.1 = name) with
      | [] => some none
      | [m] => some (some m.2)
      | _ => none
  | _ + 1, .array items => if items.length = names.length then some (items.map some) else none
  | _, _ => none

/-- A field that must be there. -/
def required {α : Type} (r : Reader α) (depth : Nat) (field : Option Json) : Option α :=
  field.bind (r (depth - 1))

/-- A field that may be absent or null. -/
def absentable {α : Type} (r : Reader α) (depth : Nat) (field : Option Json) : Option (Option α) :=
  match field with
  | none => some none
  | some j => optional r (depth - 1) j

/-- The tag of a value with a single tag, and what stands under the tag; a tag without anything is
also written as a string. -/
def tagged : Reader (String × Option Json)
  | _, .string s => s.map (·, none)
  | _ + 1, .object [(tag, j)] => tag.map (·, some j)
  | _, _ => none

/-- A tag that carries nothing. -/
def bareTag {α : Type} (tags : List (String × α)) : Reader α := fun d j => do
  let (tag, payload) ← tagged d j
  let value ← tags.lookup tag
  match payload with
  | none | some .null => some value
  | some _ => none

/-- The payload of a tag that carries something. -/
def payload {α : Type} (r : Reader α) (depth : Nat) (field : Option Json) : Option α :=
  required r depth field

end Lockstep.Json.Read
