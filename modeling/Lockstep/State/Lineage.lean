import Lockstep.Control
import Lockstep.State.Checkpoint
import Lockstep.State.Basic

/-!
# Which nodes snapshots share

Snapshots that come from one another share the nodes that were not rebuilt. A `Lineage` gives every
node of a state the number of the build that it comes from, and a `Tracked` state carries its
lineage along: changing a node rebuilds just that node, placing a state rebuilds none, and stacking,
unstacking and reading rebuild all. Two snapshots share a node when its builds are the same.
-/

namespace Lockstep

/-- The builds of the nodes of a state and of the states inside them. -/
structure Lineage where
  nodes : List (String × (Nat × List (String × Lineage)))

/-- A state with the builds of its nodes. -/
structure Tracked where
  state : State
  lineage : Lineage

/-- Computations that number builds. -/
abbrev Building := StateM Nat

/-- The number of a new build. -/
def newBuild : Building Nat := modifyGet fun n => (n, n + 1)

mutual

/-- New builds for the states in a local state. -/
def rebuiltNested : List (String × Value) → Building (List (String × Lineage))
  | [] => return []
  | (_, .tensor _) :: rest => rebuiltNested rest
  | (name, .state s) :: rest => do
    let lineage ← rebuilt s
    return (name, lineage) :: (← rebuiltNested rest)

/-- New builds for nodes. -/
def rebuiltNodes : List (String × List (String × Value)) →
    Building (List (String × (Nat × List (String × Lineage))))
  | [] => return []
  | (path, l) :: rest => do
    let build ← newBuild
    let nested ← rebuiltNested l
    return (path, (build, nested)) :: (← rebuiltNodes rest)

/-- New builds for all nodes of a state. -/
def rebuilt : State → Building Lineage
  | ⟨nodes, _, _⟩ => return ⟨← rebuiltNodes nodes⟩

end

namespace Tracked

/-- A state whose nodes were all built just now. -/
def fresh (s : State) : Building Tracked := return ⟨s, ← rebuilt s⟩

/-- A state without nodes. -/
def empty : Tracked := ⟨.empty, ⟨[]⟩⟩

/-- The state with a node put in, and the lineages of the states inside that node. -/
def withNode (t : Tracked) (path : String) (l : LocalState) (nested : List (String × Lineage)) :
    Building Tracked := do
  let build ← newBuild
  return ⟨t.state.withNode path l, ⟨Table.insert path (build, nested) t.lineage.nodes⟩⟩

/-- The lineages of the states inside a node. -/
def nestedLineages (t : Tracked) (path : String) : List (String × Lineage) :=
  match Table.get? path t.lineage.nodes with
  | some node => node.2
  | none => []

/-- The state with another local state at a node that is in it. -/
def update (t : Tracked) (path : String) (l : LocalState) (nested : List (String × Lineage)) :
    ExceptT Error Building Tracked := do
  let s ← t.state.update path l
  let build ← newBuild
  return ⟨s, ⟨Table.insert path (build, nested) t.lineage.nodes⟩⟩

/-- The state with another tensor at a leaf that is in it. -/
def withLeaf (t : Tracked) (qualified : String) (value : Tensor) :
    ExceptT Error Building Tracked := do
  let s ← t.state.withLeaf qualified value
  let build ← newBuild
  let path := (Path.split qualified).1
  return ⟨s, ⟨Table.insert path (build, t.nestedLineages path) t.lineage.nodes⟩⟩

/-- The state that an attribute of a node holds. -/
def nested (t : Tracked) (path name : String) : Outcome Tracked := do
  let s ← (← t.state.resolve path).nested name
  return ⟨s, ((t.nestedLineages path).lookup name).getD ⟨[]⟩⟩

/-- The state with a placement. -/
def shard (t : Tracked) (spec : PlacementSpec) : Outcome Tracked := do
  return { t with state := ← t.state.shard spec }

/-- States along a new batch axis. -/
def stack (ts : List Tracked) : ExceptT Error Building Tracked := do
  fresh (← State.stack (ts.map Tracked.state))

/-- The parts along the outermost batch axis. -/
def unstack (t : Tracked) : ExceptT Error Building (List Tracked) := do
  (← t.state.unstack).mapM fun s => (fresh s : Building Tracked)

/-- The lanes; an unbatched state is its own lane. -/
def flatten (t : Tracked) : ExceptT Error Building (List Tracked) :=
  if t.state.isBatched then do (← t.state.flatten).mapM fun s => (fresh s : Building Tracked)
  else return [t]

/-- Lanes stacked to the given batch axes; without axes, the lane itself. -/
def unflatten (dims : List Nat) (ts : List Tracked) : ExceptT Error Building Tracked :=
  match dims, ts with
  | [], [t] => return t
  | _, _ => do fresh (← State.unflatten dims (ts.map Tracked.state))

/-- Lane by lane from one of two states. -/
def select (mask : List Bool) (onTrue onFalse : Tracked) : ExceptT Error Building Tracked := do
  let s ← State.select mask onTrue.state onFalse.state
  if onTrue.state.isBatched then fresh s
  else return if mask.headD false then onTrue else onFalse

/-- The snapshots hold the same build of a node. -/
def sharesNode (t u : Tracked) (path : String) : Bool :=
  match Table.get? path t.lineage.nodes, Table.get? path u.lineage.nodes with
  | some a, some b => a.1 = b.1
  | _, _ => false

end Tracked

end Lockstep
