import Lockstep.State.Basic
import Lockstep.Json.Parser
import Lockstep.Json.Basic
import Lockstep.Json.Reader

/-!
# Checkpoints

The JSON form of tensors, placements and states. `State.toText` writes a snapshot and
`State.ofText` reads one. A number that is not finite is written as null, and null is no number.
-/

namespace Lockstep

open Json.Read (Reader)

namespace DeviceKind

def tag : DeviceKind → String
  | .cpu => "Cpu"
  | .gpu => "Gpu"
  | .tpu => "Tpu"

def reader : Reader DeviceKind := Json.Read.bareTag [("Cpu", .cpu), ("Gpu", .gpu), ("Tpu", .tpu)]

end DeviceKind

namespace Device

def toJson (d : Device) : Json :=
  .record [("kind", .text d.kind.tag), ("ordinal", .ofNat d.ordinal)]

def reader : Reader Device := fun depth j => do
  match ← Json.Read.fields ["kind", "ordinal"] depth j with
  | [kind, ordinal] =>
    return ⟨← Json.Read.required DeviceKind.reader depth kind,
      ← Json.Read.required Json.Read.nat depth ordinal⟩
  | _ => none

end Device

namespace Directive

def toJson : Directive → Json
  | .replicated => .text "Replicated"
  | .split axis devices =>
    .record [("Split", .record [("axis", .ofNat axis.toNat),
      ("devices", .array (devices.map Device.toJson))])]

def splitReader : Reader Directive := fun depth j => do
  match ← Json.Read.fields ["axis", "devices"] depth j with
  | [axis, devices] =>
    return .split (← Json.Read.required Json.Read.word depth axis)
      (← Json.Read.required (Json.Read.list Device.reader) depth devices)
  | _ => none

def reader : Reader Directive := fun depth j => do
  match ← Json.Read.tagged depth j with
  | ("Split", payload) => Json.Read.payload splitReader depth payload
  | _ => Json.Read.bareTag [("Replicated", .replicated)] depth j

end Directive

namespace Tensor

def toJson (t : Tensor) : Json :=
  .record [("v", .ofNat 1), ("dim", .array (t.shape.map Json.ofNat)),
    ("data", .array (t.data.map Json.ofFloat))]

/-- The tensor with a version, a shape and data; the version must be 1. -/
def ofParts (depth : Nat) (version dim data : Option Json) : Option Tensor := do
  let version ← Json.Read.required (Json.Read.int 0 255) depth version
  let dim ← Json.Read.required (Json.Read.list Json.Read.nat) depth dim
  let data ← Json.Read.required (Json.Read.list Json.Read.float) depth data
  if version = 1 then (ofData dim data).toOption else none

/-- The last member under a key. -/
def lastMember (members : List (Option String × Json)) (key : String) : Option Json :=
  (members.reverse.lookup (some key))

/-- Reads a tensor: an object with just the three members, of which the last under a key counts, or
an array with the three parts. -/
def reader : Reader Tensor
  | depth + 1, .object members =>
    if members.all fun m => m.1 = some "v" || m.1 = some "dim" || m.1 = some "data" then
      members.forM (fun m => do
        match m.1 with
        | some "v" => discard (Json.Read.int 1 1 depth m.2)
        | some "dim" => discard (Json.Read.list Json.Read.nat depth m.2)
        | _ => discard (Json.Read.list Json.Read.float depth m.2)) *>
      ofParts (depth + 1) (lastMember members "v") (lastMember members "dim")
        (lastMember members "data")
    else none
  | depth + 1, .array [version, dim, data] =>
    ofParts (depth + 1) (some version) (some dim) (some data)
  | _, _ => none

end Tensor

mutual

def Value.toJson : Value → Json
  | .tensor t => .record [("Tensor", t.toJson)]
  | .state s => .record [("State", s.toJson)]

def State.toJson : State → Json
  | ⟨nodes, dims, placement⟩ =>
    .record [("nodes", .object (nodesToJson nodes)),
      ("batch_dims", .array (dims.map Json.ofNat)),
      ("placement", .record (placement.map fun e => (e.1, e.2.toJson)))]

def nodesToJson : List (String × List (String × Value)) → List (Option String × Json)
  | [] => []
  | (path, l) :: rest =>
    (some path, .record [("values", .object (localToJson l))]) :: nodesToJson rest

def localToJson : List (String × Value) → List (Option String × Json)
  | [] => []
  | (name, v) :: rest => (some name, v.toJson) :: localToJson rest

end

/-- Reads the local state of a node with a reader of values. -/
def localReader (value : Reader Value) : Reader LocalState := fun depth j => do
  match ← Json.Read.fields ["values"] depth j with
  | [values] => return .ofList (← Json.Read.required (Json.Read.entries value) depth values)
  | _ => none

/-- Reads a state with a reader of values. -/
def stateReader (value : Reader Value) : Reader State := fun depth j => do
  match ← Json.Read.fields ["nodes", "batch_dims", "placement"] depth j with
  | [nodes, dims, placement] =>
    return {
      nodes := Table.ofList
        (← Json.Read.required (Json.Read.entries (localReader value)) depth nodes)
      batchDims := ← Json.Read.required (Json.Read.list Json.Read.nat) depth dims
      placement := Table.ofList
        (← Json.Read.required (Json.Read.entries Directive.reader) depth placement) }
  | _ => none

/-- Reads values with at most the given count of states inside each other. -/
def Value.reader : (nesting : Nat) → Reader Value
  | 0, _, _ => none
  | nesting + 1, depth, j => do
    match ← Json.Read.tagged depth j with
    | ("Tensor", payload) => return .tensor (← Json.Read.payload Tensor.reader depth payload)
    | ("State", payload) =>
      return .state (← Json.Read.payload (stateReader (Value.reader nesting)) depth payload)
    | _ => none

/-- Reads a state. Every nested state enters several objects, so `maxDepth` of them are never
reached. -/
def State.reader : Reader State := stateReader (Value.reader (Json.Read.maxDepth + 1))

/-- Reads the data that a text holds. -/
def Json.readText {α : Type} (r : Reader α) (text : String) : Outcome α :=
  match (Json.parse text).bind (r Json.Read.maxDepth) with
  | some x => .ok x
  | none => .error .serialization

/-- The text of a state. -/
def State.toText (s : State) : String := s.toJson.render

/-- The state that a text holds. -/
def State.ofText (text : String) : Outcome State := Json.readText State.reader text

namespace PlacementSpec

def toJson (s : PlacementSpec) : Json :=
  .record [("mesh", .record [("devices", .array (s.mesh.devices.map Device.toJson))]),
    ("split_axes", .record (s.splitAxes.map fun e => (e.1, .ofNat e.2.toNat)))]

end PlacementSpec

/-- Reads a mesh. -/
def Mesh.reader : Reader Mesh := fun depth j => do
  match ← Json.Read.fields ["devices"] depth j with
  | [devices] => return ⟨← Json.Read.required (Json.Read.list Device.reader) depth devices⟩
  | _ => none

/-- Reads a placement request. -/
def PlacementSpec.reader : Reader PlacementSpec := fun depth j => do
  match ← Json.Read.fields ["mesh", "split_axes"] depth j with
  | [mesh, axes] =>
    return ⟨← Json.Read.required Mesh.reader depth mesh,
      .ofList (← Json.Read.required (Json.Read.entries Json.Read.word) depth axes)⟩
  | _ => none

end Lockstep
