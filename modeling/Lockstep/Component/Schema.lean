import Lockstep.State.Checkpoint

/-!
# Schemas

Every component declares its attributes. Parameters and mutable attributes are kept in the state;
constants stay in the component. `Schema.checkLocal` accepts a local state exactly when it holds the
stateful attributes and nothing else.
-/

namespace Lockstep

/-- How an attribute takes part in iteration. -/
inductive Role where
  /-- fixed at construction and never in a state -/
  | constant
  /-- tunable and kept in the state -/
  | parameter
  /-- iteration state -/
  | mutable
deriving DecidableEq

namespace Role

/-- Values of the role are kept in states. -/
def isStateful (r : Role) : Bool := r ≠ .constant

def name : Role → String
  | .constant => "Constant"
  | .parameter => "Parameter"
  | .mutable => "Mutable"

end Role

/-- The declaration of an attribute. -/
structure Attribute where
  name : String
  role : Role
  /-- the default of a parameter, the value of a constant -/
  default : Option Tensor
  /-- the axis along which the value has one entry for each member of the population -/
  populationAxis : Option UInt64

namespace Attribute

def constant (name : String) (value : Tensor) : Attribute := ⟨name, .constant, some value, none⟩

def parameter (name : String) (default : Tensor) : Attribute :=
  ⟨name, .parameter, some default, none⟩

def mutable (name : String) : Attribute := ⟨name, .mutable, none, none⟩

/-- A mutable attribute whose leading axis is that of the population. -/
def population (name : String) : Attribute := ⟨name, .mutable, none, some 0⟩

/-- The declared shape, that of the default. -/
def shape (a : Attribute) : Option (List Nat) := a.default.map Tensor.shape

end Attribute

/-- The attributes of a component, in order. -/
abbrev Schema := List Attribute

namespace Schema

/-- The declaration of an attribute. -/
def get? (s : Schema) (name : String) : Option Attribute := s.find? fun a => a.name = name

/-- The attributes that are kept in states. -/
def stateful (s : Schema) : List Attribute := s.filter fun a => a.role.isStateful

/-- The tunable attributes. -/
def parameters (s : Schema) : List Attribute := s.filter fun a => a.role = .parameter

/-- Names are fit to stand in paths and differ from those before them. -/
def validateFrom (seen : List String) : List Attribute → Outcome Unit
  | [] => .ok ()
  | a :: rest =>
    if !Path.isName a.name then .error (.structural (.invalidName a.name .attribute))
    else if a.name ∈ seen then .error (.structural (.duplicateAttribute a.name))
    else validateFrom (a.name :: seen) rest

/-- The names are fit to stand in paths and all different. -/
def validate (s : Schema) : Outcome Unit := validateFrom [] s

/-- The names of the stateful attributes, ascending and each once. -/
def statefulNames (s : Schema) : List String :=
  (Table.ofList (s.stateful.map fun a => (a.name, ()))).keys

/-- The local state holds exactly the stateful attributes. -/
def checkLocal (s : Schema) (path : String) (l : LocalState) : Outcome Unit :=
  let expected := s.statefulNames
  let actual := Table.keys l
  if expected = actual then .ok ()
  else .error (.structural (.schemaMismatch path (expected.filter (· ∉ actual))
    (actual.filter (· ∉ expected))))

end Schema

open Json.Read (Reader)

def Role.reader : Reader Role :=
  Json.Read.bareTag [("Constant", .constant), ("Parameter", .parameter), ("Mutable", .mutable)]

def Attribute.reader : Reader Attribute := fun depth j => do
  match ← Json.Read.fields ["name", "role", "default", "population_axis"] depth j with
  | [name, role, default, axis] =>
    return {
      name := ← Json.Read.required Json.Read.string depth name
      role := ← Json.Read.required Role.reader depth role
      default := ← Json.Read.absentable Tensor.reader depth default
      populationAxis := ← Json.Read.absentable Json.Read.word depth axis }
  | _ => none

/-- Reads a schema. -/
def Schema.reader : Reader Schema := fun depth j => do
  match ← Json.Read.fields ["attributes"] depth j with
  | [attributes] => Json.Read.required (Json.Read.list Attribute.reader) depth attributes
  | _ => none

end Lockstep
