import Lockstep.Component.Candidates
import Lockstep.Component.Traced
import Lockstep.Component.Schema
import Lockstep.Component.Tree
import Lockstep.Tuning.Trial

/-!
# Values from requests

How values stand in requests that reach the library as JSON. A number that JSON has no form for is a
text (`NaN`, `inf`, `-inf`), an integer may also be a text of its digits, and a tensor may be a bare
number or a list of numbers. `member` leaves out members that are null.
-/

namespace Lockstep.Exchange

/-- The outcome of decoding: a value, or what was expected instead. -/
abbrev Decode := Except String

/-! ## Members -/

/-- A member of an object that is not null. -/
def member (j : Json) (key : String) : Option Json :=
  match j with
  | .object members => match members.lookup (some key) with
    | some .null => none
    | other => other
  | _ => none

/-- A member that must be there. -/
def need (j : Json) (key : String) : Decode Json :=
  match member j key with
  | some v => .ok v
  | none => .error s!"missing {key}"

section

variable {α β : Type}

/-- A decoded member, if it is there. -/
def maybe (f : Json → Decode α) (j : Json) (key : String) : Decode (Option α) :=
  match member j key with
  | some v => do return some (← f v)
  | none => .ok none

/-- A decoded member that must be there. -/
def field (f : Json → Decode α) (j : Json) (key : String) : Decode α := do
  f (← need j key)

/-- A decoded member, or else a default. -/
def fieldOr (f : Json → Decode α) (default : α) (j : Json) (key : String) : Decode α := do
  return (← maybe f j key).getD default

end

/-! ## Basic values -/

def asText : Json → Decode String
  | .string (some s) => .ok s
  | _ => .error "text expected"

def asBool : Json → Decode Bool
  | .bool b => .ok b
  | _ => .error "boolean expected"

def asList : Json → Decode (List Json)
  | .array items => .ok items
  | _ => .error "array expected"

/-- The members of an object, in order. -/
def asEntries : Json → Decode (List (String × Json))
  | .object members => members.mapM fun m => match m.1 with
    | some key => .ok (key, m.2)
    | none => .error "key expected"
  | _ => .error "object expected"

/-- An integer: a number without a fraction, or a text of digits. -/
def asInt : Json → Decode Int
  | .number s => match (Json.Read.Literal.ofString s).toInt? with
    | some i => .ok i
    | none => match (Json.Read.Literal.ofString s).toFloat? with
      | some x => .ok (if x < 0 then -(-x).toUInt64.toNat else x.toUInt64.toNat)
      | none => .error "integer expected"
  | .string (some s) => match s.toInt? with
    | some i => .ok i
    | none => .error "integer expected"
  | _ => .error "integer expected"

def asInt64 (j : Json) : Decode Int64 := do return .ofInt (← asInt j)

def asNat (j : Json) : Decode Nat := do return (← asInt j).toNat

def asWord (j : Json) : Decode UInt64 := do return .ofNat (← asNat j)

/-- A number, or the text of one that is not finite. -/
def asFloat : Json → Decode Float
  | .number s => match (Json.Read.Literal.ofString s).toFloat? with
    | some x => .ok x
    | none => .error "number expected"
  | .string (some "NaN") => .ok (0 / 0)
  | .string (some "inf") => .ok (1 / 0)
  | .string (some "-inf") => .ok (-1 / 0)
  | _ => .error "number expected"

section

variable {α β : Type}

def listOf (f : Json → Decode α) (j : Json) : Decode (List α) := do
  (← asList j).mapM f

/-- An object as a table. -/
def tableOf (f : Json → Decode α) (j : Json) : Decode (Table α) := do
  return .ofList (← (← asEntries j).mapM fun e => do return (e.1, ← f e.2))

/-- An array of two items. -/
def pairOf (f : Json → Decode α) (g : Json → Decode β) (j : Json) : Decode (α × β) := do
  match ← asList j with
  | [a, b] => return (← f a, ← g b)
  | _ => .error "pair expected"

end

/-! ## Domain values -/

/-- A tensor: a number, a list of numbers, or a shape with data. -/
def asTensor : Json → Decode Tensor
  | .array items => do return .vector (← items.mapM asFloat)
  | .object members => do
    let j := Json.object members
    let shape ← field (listOf asNat) j "shape"
    let data ← field (listOf asFloat) j "data"
    match Tensor.ofData shape data with
    | .ok t => return t
    | .error _ => .error "data do not fill shape"
  | j => do return .scalar (← asFloat j)

/-- A device by its name. -/
def asDevice (j : Json) : Decode Device := do
  let kinds := [("cpu", DeviceKind.cpu), ("gpu", DeviceKind.gpu), ("tpu", DeviceKind.tpu)]
  match (← asText j).splitOn ":" with
  | [kind, ordinal] => match kinds.lookup kind, ordinal.toNat? with
    | some kind, some ordinal => return ⟨kind, ordinal⟩
    | _, _ => .error "device expected"
  | _ => .error "device expected"

def asMesh (j : Json) : Decode Mesh := do return ⟨← listOf asDevice j⟩

/-- A hook by its name. -/
def asHook (j : Json) : Decode Hook := do
  let s ← asText j
  match Hook.all.find? fun h => h.name = s with
  | some h => return h
  | none => .error "hook expected"

def asCandidates (j : Json) : Decode Candidates :=
  match member j "dense" with
  | some t => do return .dense (← asTensor t)
  | none => do return .named (← field (tableOf asTensor) j "named")

def asSpec (j : Json) : Decode InputSpec :=
  match j with
  | .string (some "any") => .ok .any
  | .object [(some "dense", .null)] => .ok (.dense none)
  | _ => match member j "dense" with
    | some width => do return .dense (some (← asNat width))
    | none => do return .named (← field (tableOf (listOf asNat)) j "named")

def asAttribute (j : Json) : Decode Attribute := do
  let name ← field asText j "name"
  match ← field asText j "role" with
  | "constant" => return .constant name (← field asTensor j "value")
  | "parameter" => return .parameter name (← field asTensor j "value")
  | "mutable" => return .mutable name
  | "population" => return .population name
  | _ => .error "role expected"

/-- A local state of tensors. -/
def asLocal (j : Json) : Decode LocalState := tableOf (fun t => Value.tensor <$> asTensor t) j

/-! ## Search spaces and settings -/

def asValue (j : Json) : Decode ParameterValue := do
  match ← maybe asInt64 j "int" with
  | some n => return .integer n
  | none => return .number (← field asFloat j "float")

def asSetting (j : Json) : Decode Setting := tableOf asValue j

def asRange (j : Json) : Decode (String × ParameterRange) := do
  let path ← field asText j "path"
  match ← maybe (pairOf asFloat asFloat) j "float", ← maybe (pairOf asInt64 asInt64) j "int",
      ← maybe (pairOf asFloat asFloat) j "log" with
  | some (low, high), _, _ => return (path, .numbers low high)
  | none, some (low, high), _ => return (path, .integers low high)
  | none, none, some (low, high) => return (path, .logarithmic low high)
  | none, none, none => return (path, .choice (← field (listOf asFloat) j "choice"))

def asSpace (j : Json) : Decode SearchSpace := listOf asRange j

def asDirection (j : Json) : Decode Direction := do
  match ← asText j with
  | "Maximize" => return .maximize
  | "Minimize" => return .minimize
  | _ => .error "direction expected"

def asTuner (j : Json) : Decode TunerConfig := do
  return {
    name := ← field asText j "name"
    space := ← field asSpace j "space"
    strategy := if (← field asText j "strategy") = "grid" then .grid else .random
    maxTrials := ← fieldOr asNat 100 j "max_trials"
    direction := ← fieldOr asDirection default j "direction"
    gridSteps := ← fieldOr asNat 5 j "grid_steps"
    seed := ← fieldOr asWord 0 j "seed" }

/-- The result of a trial. -/
def asResult (id : TrialId) (j : Json) : Decode TrialResult := do
  return ⟨id, ← field asFloat j "objective", ← fieldOr (tableOf asFloat) [] j "metrics",
    ← fieldOr asSetting [] j "parameters"⟩

end Lockstep.Exchange
