import Lockstep.Pieces
import Lockstep.State.Basic

/-!
# Stacking states

`State.stack` combines states with the same nodes, attributes, shapes, batch axes and placement
along a new outermost batch axis, values that are states included. `State.unstack` takes such a
batch apart again.

A state with batch axes `[a, b]` consists of `a * b` unbatched lanes in row-major order. `flatten`
splits it into them and `unflatten` builds it up again.
-/

namespace Lockstep

namespace State

/-- The states from number `index` on have the batch axes, paths and placement of the first one. -/
def checkStackable (dims : List Nat) (paths : List String) (placement : List (String × Directive)) :
    Nat → List State → Outcome Unit
  | _, [] => .ok ()
  | index, s :: rest =>
    if s.batchDims ≠ dims then
      .error (.structural (.stackMismatch (.batchDims index s.batchDims dims)))
    else if s.paths ≠ paths then
      .error (.structural (.stackMismatch (.paths index s.paths paths)))
    else if s.placement ≠ placement then
      .error (.structural (.stackMismatch (.placement index)))
    else checkStackable dims paths placement (index + 1) rest

/-- The values of one attribute in other local states. -/
def column (qualified name : String) (others : List LocalState) : Outcome (List Value) :=
  others.mapM fun l => match Table.get? name l with
    | some v => .ok v
    | none => .error (.structural (.stackMismatch (.missingAttribute qualified)))

/-- The tensors in a column under a tensor of the given shape. -/
def tensorColumn (qualified : String) (shape : List Nat) (values : List Value) :
    Outcome (List Tensor) :=
  values.mapM fun v => match v with
    | .tensor t => if t.shape = shape then .ok t else shapeMismatch qualified shape t.shape
    | .state _ => .error (.structural (.stackMismatch (.tensorMeetsState qualified)))

/-- The states in a column under a state. -/
def stateColumn (qualified : String) (values : List Value) : Outcome (List State) :=
  values.mapM fun v => match v with
    | .state s => .ok s
    | .tensor _ => .error (.structural (.stackMismatch (.stateMeetsTensor qualified)))

mutual

/-- A value stacked on the values of the same attribute in the other states. -/
def stackValue (qualified : String) : Value → List Value → Outcome Value
  | .tensor head, others => do
    let tensors ← tensorColumn qualified head.shape others
    return .tensor (← Tensor.stackNamed qualified (head :: tensors))
  | .state head, others => do
    let states ← stateColumn qualified others
    return .state (← stackOnto head states)

/-- A state stacked on other states. -/
def stackOnto : State → List State → Outcome State
  | ⟨nodes, dims, placement⟩, others => do
    checkStackable dims (Table.keys nodes) placement 1 others
    let nodes ← stackNodes nodes others
    return ⟨nodes, (others.length + 1) :: dims, ← placementOutward placement⟩

/-- The nodes of a state stacked on those of other states with the same paths. -/
def stackNodes : List (String × List (String × Value)) → List State →
    Outcome (List (String × List (String × Value)))
  | [], _ => .ok []
  | (path, l) :: rest, others => do
    let locals := others.map fun s => (Table.get? path s.nodes).getD []
    let stacked ← stackLocal path l locals
    if locals.any fun other => other.length ≠ l.length then
      .error (.structural (.stackMismatch (.attributeNames (Path.display path))))
    else
      let more ← stackNodes rest others
      return (path, stacked) :: more

/-- The attributes of a node stacked on those of the same node in other states. -/
def stackLocal (path : String) : List (String × Value) → List LocalState →
    Outcome (List (String × Value))
  | [], _ => .ok []
  | (name, v) :: rest, others => do
    let values ← column (Path.qualify path name) name others
    let stacked ← stackValue (Path.qualify path name) v values
    let more ← stackLocal path rest others
    return (name, stacked) :: more

end

/-- The states along a new outermost batch axis. -/
def stack : List State → Outcome State
  | [] => .error (.structural .emptyStack)
  | first :: rest => stackOnto first rest

mutual

/-- The parts of a value along the outermost batch axis. -/
def unstackValue : Value → Outcome (List Value)
  | .tensor t => do return (← t.unstack).map Value.tensor
  | .state s => do return (← s.unstack).map Value.state

/-- The states along the outermost batch axis, which must exist. -/
def unstack : State → Outcome (List State)
  | ⟨_, [], _⟩ => .error (.structural .notBatched)
  | ⟨nodes, count :: dims, placement⟩ => do
    let lanes ← unstackNodes count nodes
    return lanes.map fun nodes => ⟨nodes, dims, Table.mapValues Directive.inward placement⟩

/-- The nodes of every part. -/
def unstackNodes (count : Nat) : List (String × List (String × Value)) →
    Outcome (List (List (String × List (String × Value))))
  | [] => .ok (List.replicate count [])
  | (path, l) :: rest => do
    let lanes ← unstackLocal count path l
    let more ← unstackNodes count rest
    return List.zipWith (fun l nodes => (path, l) :: nodes) lanes more

/-- The local state of a node in every part. -/
def unstackLocal (count : Nat) (path : String) : List (String × Value) →
    Outcome (List (List (String × Value)))
  | [] => .ok (List.replicate count [])
  | (name, v) :: rest => do
    let parts ← unstackValue v
    if parts.length ≠ count then
      shapeMismatch ("batch axis of " ++ Path.qualify path name) [count] [parts.length]
    else
      let more ← unstackLocal count path rest
      return List.zipWith (fun v l => (name, v) :: l) parts more

end

/-! ## Lanes -/

/-- Every state split along its outermost batch axis, as often as told. -/
def unstackTimes : Nat → List State → Outcome (List State)
  | 0, lanes => .ok lanes
  | n + 1, lanes => do unstackTimes n (← lanes.mapM unstack).flatten

/-- The unbatched lanes of a state. -/
def flatten (s : State) : Outcome (List State) := unstackTimes s.batchDims.length [s]

/-- There are as many lanes as the axes hold, and at least one. -/
def checkLanes (dims : List Nat) (lanes : List State) : Outcome Unit := do
  let expected ← wordVolume dims
  if lanes = [] then .error (.structural .emptyStack)
  else if lanes.length ≠ expected.toNat then
    .error (.structural (.stackMismatch (.laneCount lanes.length dims)))
  else .ok ()

/-- Lanes stacked to a state with the given batch axes. -/
def unflatten : (dims : List Nat) → List State → Outcome State
  | [], lanes => do
    checkLanes [] lanes
    return lanes.headD .empty
  | count :: inner, lanes => do
    checkLanes (count :: inner) lanes
    let groups := allPieces (← wordVolume inner).toNat lanes
    stack (← groups.mapM (unflatten inner))

end State

end Lockstep
