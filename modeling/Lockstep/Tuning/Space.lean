import Lockstep.Random.Range
import Lockstep.State.Checkpoint

/-!
# Search spaces

A search space lists the parameters to tune, each under its leaf with the range of its values. A
setting gives a value to each of them.
-/

namespace Lockstep

open Json.Read (Reader)

/-- The value of a parameter in a setting. -/
inductive ParameterValue where
  | integer (n : Int64)
  | number (x : Float)
deriving DecidableEq

namespace ParameterValue

/-- The value as a number, an integer rounded to the nearest double. -/
def toFloat : ParameterValue → Float
  | .integer n =>
    let magnitude := (UInt64.ofNat n.toInt.natAbs).toFloat
    if n < 0 then -magnitude else magnitude
  | .number x => x

def text : ParameterValue → String
  | .integer n => toString n.toInt
  | .number x => Decimal.plain.write x

/-- Reads a value: an integer of 64 bits, or else any number. -/
def reader : Reader ParameterValue := fun depth j =>
  match Json.Read.int64 depth j with
  | some n => some (.integer (.ofInt n))
  | none => (Json.Read.float depth j).map .number

end ParameterValue

/-- A value for every tuned parameter, by leaf. -/
abbrev Setting := Table ParameterValue

/-- The values that a parameter may take. -/
inductive ParameterRange where
  /-- numbers between two bounds -/
  | numbers (low high : Float)
  /-- integers between two bounds -/
  | integers (low high : Int64)
  /-- numbers between two bounds, evenly spread on a logarithmic scale -/
  | logarithmic (low high : Float)
  /-- some numbers -/
  | choice (values : List Float)

namespace ParameterRange

/-- There are values in the range, and a logarithmic one is above zero. -/
def isValid : ParameterRange → Bool
  | .numbers low high => low ≤ high
  | .integers low high => low ≤ high
  | .logarithmic low high => 0 < low && low ≤ high
  | .choice values => !values.isEmpty

/-- The range as it is shown in messages. -/
def describe : ParameterRange → String
  | .numbers low high =>
    bounds "FloatRange" (Decimal.pointed.write low) (Decimal.pointed.write high)
  | .integers low high => bounds "IntRange" (toString low.toInt) (toString high.toInt)
  | .logarithmic low high =>
    bounds "LogUniform" (Decimal.pointed.write low) (Decimal.pointed.write high)
  | .choice values =>
    "Choice \x7b values: " ++ Text.listing (values.map Decimal.pointed.write) ++ " \x7d"
where
  bounds (name low high : String) : String :=
    name ++ " \x7b low: " ++ low ++ ", high: " ++ high ++ " \x7d"

/-- How many values the range has, if it is not continuous. Ranges of `2 ^ 63` integers and more are
not counted. -/
def count? : ParameterRange → Option Nat
  | .integers low high =>
    let n := high.toInt - low.toInt + 1
    if 0 ≤ n ∧ n < Int.pow 2 63 then some n.toNat else none
  | .choice values => some values.length
  | .numbers .. | .logarithmic .. => none

/-- Reads two bounds. -/
def boundsReader {α : Type} (bound : Reader α) : Reader (α × α) := fun depth j => do
  match ← Json.Read.fields ["low", "high"] depth j with
  | [low, high] =>
    return (← Json.Read.required bound depth low, ← Json.Read.required bound depth high)
  | _ => none

/-- Reads the values of a choice. -/
def choiceReader : Reader (List Float) := fun depth j => do
  match ← Json.Read.fields ["values"] depth j with
  | [values] => Json.Read.required (Json.Read.list Json.Read.float) depth values
  | _ => none

/-- Reads a range. -/
def reader : Reader ParameterRange := fun depth j => do
  match ← Json.Read.tagged depth j with
  | ("FloatRange", payload) => do
    let (low, high) ← Json.Read.payload (boundsReader Json.Read.float) depth payload
    return .numbers low high
  | ("IntRange", payload) => do
    let (low, high) ← Json.Read.payload (boundsReader Json.Read.int64) depth payload
    return .integers (.ofInt low) (.ofInt high)
  | ("LogUniform", payload) => do
    let (low, high) ← Json.Read.payload (boundsReader Json.Read.float) depth payload
    return .logarithmic low high
  | ("Choice", payload) => return .choice (← Json.Read.payload choiceReader depth payload)
  | _ => none

end ParameterRange

/-- The parameters to tune, by leaf and in order, with their ranges. -/
abbrev SearchSpace := List (String × ParameterRange)

namespace SearchSpace

/-- The leaves of the parameters, in order. -/
def paths (s : SearchSpace) : List String := s.map Prod.fst

/-- There are parameters, and all their ranges are valid. -/
def validate (s : SearchSpace) : Outcome Unit :=
  if s.isEmpty then .error (.validation .emptySpace)
  else match s.find? fun p => !p.2.isValid with
    | some (path, range) => .error (.validation (.range path range.describe))
    | none => .ok ()

/-- The product of counts, if none of its partial products takes more than 64 bits. -/
def product? (total : Nat) : List (String × ParameterRange) → Option Nat
  | [] => some total
  | (_, range) :: rest => do
    let count ← range.count?
    if total * count < UInt64.size then product? (total * count) rest else none

/-- How many settings there are, if the space is not continuous. -/
def gridSize (s : SearchSpace) : Option Nat := product? 1 s

/-- Reads one parameter. -/
def parameterReader : Reader (String × ParameterRange) := fun depth j => do
  match ← Json.Read.fields ["path", "kind"] depth j with
  | [path, kind] =>
    return (← Json.Read.required Json.Read.string depth path,
      ← Json.Read.required ParameterRange.reader depth kind)
  | _ => none

/-- Reads a search space. -/
def reader : Reader SearchSpace := fun depth j => do
  match ← Json.Read.fields ["parameters"] depth j with
  | [parameters] => Json.Read.required (Json.Read.list parameterReader) depth parameters
  | _ => none

end SearchSpace

end Lockstep
