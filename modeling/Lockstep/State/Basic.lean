import Lockstep.Placement
import Lockstep.Tensor.Basic
import Lockstep.Text.Names

/-!
# State snapshots

A state maps the paths of nodes to their local states, which map attributes to values. A value is a
tensor or a whole state of its own. `batchDims` lists the leading axes that stacking put in front of
every tensor, outermost first, and `placement` says where the leaves live.

States are values: `update` and `withLeaf` give a new state in which all other nodes are the same.
`shard` gives every tensor leaf its directive; only the placement changes, and only when there is
more than one device.
-/

namespace Lockstep

mutual

/-- The value of an attribute. -/
inductive Value where
  | tensor (t : Tensor)
  /-- a snapshot that belongs to the node, such as that of a wrapped workflow -/
  | state (s : State)

/-- A snapshot of all nodes. -/
structure State where
  nodes : List (String × List (String × Value)) := []
  batchDims : List Nat := []
  placement : List (String × Directive) := []

end

/-- The attribute values of one node. -/
abbrev LocalState := Table Value

instance : Inhabited State := ⟨{}⟩

mutual

/-- The values hold equal numbers in equal shapes; what is not a number equals nothing. -/
def Value.agrees : Value → Value → Bool
  | .tensor t, .tensor u => t.agrees u
  | .state s, .state s' => s.agrees s'
  | _, _ => false

/-- The states have the same nodes, attributes, batch axes and placement, and their values
agree. -/
def State.agrees : State → State → Bool
  | ⟨nodes, dims, placement⟩, other =>
    nodesAgree nodes other.nodes && dims = other.batchDims && placement = other.placement

/-- The nodes have the same paths and agreeing local states. -/
def nodesAgree : List (String × List (String × Value)) → List (String × List (String × Value)) →
    Bool
  | [], [] => true
  | (p, l) :: rest, (p', l') :: rest' => p = p' && localAgrees l l' && nodesAgree rest rest'
  | _, _ => false

/-- The local states have the same attributes and agreeing values. -/
def localAgrees : List (String × Value) → List (String × Value) → Bool
  | [], [] => true
  | (n, v) :: rest, (n', v') :: rest' => n = n' && v.agrees v' && localAgrees rest rest'
  | _, _ => false

end

namespace LocalState

/-- The value of an attribute, which must be there. -/
def value (l : LocalState) (name : String) : Outcome Value :=
  match Table.get? name l with
  | some v => .ok v
  | none => .error (.structural (.missingAttribute name))

/-- A tensor attribute. -/
def tensor (l : LocalState) (name : String) : Outcome Tensor := do
  match ← l.value name with
  | .tensor t => return t
  | .state _ => .error (.structural (.valueKind name .tensor))

/-- An attribute that holds a state. -/
def nested (l : LocalState) (name : String) : Outcome State := do
  match ← l.value name with
  | .state s => return s
  | .tensor _ => .error (.structural (.valueKind name .nestedState))

/-- The number that a tensor attribute holds. -/
def number (l : LocalState) (name : String) : Outcome Float := do
  (← l.tensor name).scalarValue

/-- A tensor put under an attribute. -/
def setTensor (l : LocalState) (name : String) (t : Tensor) : LocalState :=
  Table.insert name (.tensor t) l

/-- A number put under an attribute. -/
def setNumber (l : LocalState) (name : String) (x : Float) : LocalState :=
  l.setTensor name (.scalar x)

end LocalState

namespace State

/-- A state without nodes. -/
def empty : State := {}

/-- The state with a node put in. -/
def withNode (s : State) (path : String) (local' : LocalState) : State :=
  { s with nodes := Table.insert path local' s.nodes }

/-- The failure to find a node. -/
def notFound {α : Type} (path : String) : Outcome α :=
  .error (.structural (.pathNotFound (Path.display path)))

/-- The local state of a node. -/
def resolve (s : State) (path : String) : Outcome LocalState :=
  match Table.get? path s.nodes with
  | some l => .ok l
  | none => notFound path

/-- A node is in the state. -/
def contains (s : State) (path : String) : Bool := Table.contains s.nodes path

/-- The state with another local state at a node that is in it. -/
def update (s : State) (path : String) (l : LocalState) : Outcome State :=
  if s.contains path then .ok (s.withNode path l) else notFound path

/-- The paths of the nodes, ascending. -/
def paths (s : State) : List String := Table.keys s.nodes

/-- The length of the outermost batch axis. -/
def batchSize (s : State) : Option Nat := s.batchDims.head?

/-- There is a batch axis. -/
def isBatched (s : State) : Bool := !s.batchDims.isEmpty

/-- The tensor at a leaf. -/
def leaf (s : State) (qualified : String) : Outcome Tensor := do
  let (path, name) := Path.split qualified
  let l ← s.resolve path
  match Table.get? name l with
  | some (.tensor t) => .ok t
  | some (.state _) => .error (.structural (.valueKind qualified .tensor))
  | none => .error (.structural (.attributeNotFound (Path.display path) name))

/-- The state with another tensor at a leaf that is in it. -/
def withLeaf (s : State) (qualified : String) (t : Tensor) : Outcome State := do
  let _ ← s.leaf qualified
  let (path, name) := Path.split qualified
  s.update path ((← s.resolve path).setTensor name t)

/-- The tensor leaves of a node. -/
def leavesAt (path : String) (l : LocalState) : List (String × Tensor) :=
  l.filterMap fun (name, v) => match v with
    | .tensor t => some (Path.qualify path name, t)
    | .state _ => none

/-- The tensor leaves at this level, by node and attribute. -/
def leaves (s : State) : List (String × Tensor) :=
  s.nodes.flatMap fun (path, l) => leavesAt path l

/-- A leaf is split over devices. -/
def isSharded (s : State) : Bool := s.placement.any fun e => e.2.isSplit

/-! ## Placing a state -/

/-- The directive of a leaf, with a check that its slices exist. -/
def placeLeaf (spec : PlacementSpec) (batchRank : Nat) (qualified : String) (t : Tensor) :
    Outcome Directive := do
  match ← spec.directiveFor qualified batchRank with
  | .replicated => return .replicated
  | .split axis devices =>
    match t.shape[axis.toNat]? with
    | none => .error (.structural (.invalidPlacement qualified (.axisOutOfRange axis.toNat t.rank)))
    | some length => do
      let _ ← Directive.slices qualified length (.split axis devices)
      return .split axis devices

/-- The directives of the given leaves put into a placement. -/
def placeLeaves (spec : PlacementSpec) (batchRank : Nat) :
    List (String × Tensor) → Table Directive → Outcome (Table Directive)
  | [], placement => .ok placement
  | (qualified, t) :: rest, placement => do
    let directive ← placeLeaf spec batchRank qualified t
    placeLeaves spec batchRank rest (placement.insert qualified directive)

/-- The state with the placement that a spec asks for. Every listed leaf must be in the state. -/
def shard (s : State) (spec : PlacementSpec) : Outcome State :=
  if spec.isTrivial then .ok s
  else do
    spec.splitAxes.forM fun e => do
      let _ ← s.leaf e.1
    let placement ← placeLeaves spec s.batchDims.length s.leaves []
    return { s with placement }

end State

end Lockstep
