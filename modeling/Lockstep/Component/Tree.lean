import Lockstep.Component.Schema
import Lockstep.Random.Key

/-!
# Component trees

A component has a schema, initial values and named children. `Tree.build` walks a component in
pre-order, numbers the nodes from 0 and gives each its path; the root has the empty path.
`Tree.initialState` draws the first state: parameters start at their defaults unless the component
sets them, and every node draws from a stream of its own number.
-/

namespace Lockstep

open Lockstep.Random

/-- The place of a component in its tree. -/
structure NodeContext where
  id : Nat
  path : String
deriving DecidableEq

namespace NodeContext

/-- The place of the root. -/
def root : NodeContext := ⟨0, ""⟩

/-- The leaf of one of the node's attributes, and the path of one of its children. -/
def qualify (c : NodeContext) (name : String) : String := Path.qualify c.path name

def displayPath (c : NodeContext) : String := Path.display c.path

end NodeContext

/-- Something that can live in a tree. -/
structure Component where
  schema : Schema
  /-- the initial values of mutable attributes, and those of parameters that differ from the
  default -/
  init : NodeContext → Generator → Outcome LocalState
  children : List (String × Component)

/-- A node of a tree. -/
structure TreeNode where
  context : NodeContext
  name : String
  parent : Option Nat
  children : List Nat
  schema : Schema

/-- The nodes of a tree in pre-order. -/
abbrev Tree := List TreeNode

namespace Component

mutual

/-- The component and all below it, in pre-order. -/
def preorder : Component → List Component
  | ⟨schema, init, children⟩ => ⟨schema, init, children⟩ :: preorderList children

/-- The children and all below them, in pre-order. -/
def preorderList : List (String × Component) → List Component
  | [] => []
  | (_, c) :: rest => c.preorder ++ preorderList rest

end

mutual

/-- The nodes of a component and all below it, numbered from `id` on. -/
def nodes (name path : String) (parent : Option Nat) (id : Nat) :
    Component → Outcome (List TreeNode)
  | ⟨schema, _, children⟩ => do
    schema.validate
    let (ids, below) ← childNodes path id (id + 1) [] children
    return ⟨⟨id, path⟩, name, parent, ids, schema⟩ :: below

/-- The numbers of children, and the nodes of the children and all below them, numbered from `next`
on. Names are fit to stand in paths and differ from those in `seen`. -/
def childNodes (path : String) (parent next : Nat) (seen : List String) :
    List (String × Component) → Outcome (List Nat × List TreeNode)
  | [] => .ok ([], [])
  | (name, c) :: rest =>
    if !Path.isName name then .error (.structural (.invalidName name .child))
    else if name ∈ seen then .error (.structural (.duplicateChild (Path.display path) name))
    else do
      let first ← c.nodes name (Path.qualify path name) (some parent) next
      let (ids, more) ← childNodes path parent (next + first.length) (name :: seen) rest
      return (next :: ids, first ++ more)

end

end Component

namespace Tree

/-- The tree of a component. -/
def build (root : Component) : Outcome Tree := root.nodes "" "" none 0

/-- The node at a path. -/
def find (t : Tree) (path : String) : Outcome TreeNode :=
  match t.find? fun n => n.context.path = path with
  | some n => .ok n
  | none => .error (.structural (.pathNotFound (Path.display path)))

/-- The place of the node at a path. -/
def context (t : Tree) (path : String) : Outcome NodeContext := do return (← t.find path).context

/-- The paths of all nodes, in order. -/
def paths (t : Tree) : List String := t.map fun n => n.context.path

/-- Every parameter under its leaf, in the order of nodes. -/
def parameters (t : Tree) : List (String × Attribute) :=
  t.flatMap fun n => n.schema.parameters.map fun a => (n.context.qualify a.name, a)

/-- Every leaf with a population axis, in the order of nodes. -/
def populationLeaves (t : Tree) : List (String × UInt64) :=
  t.flatMap fun n => n.schema.stateful.filterMap fun a =>
    a.populationAxis.map fun axis => (n.context.qualify a.name, axis)

/-- The defaults of the parameters. -/
def parameterDefaults (s : Schema) : LocalState :=
  Table.ofList (s.parameters.filterMap fun a => a.default.map fun t => (a.name, .tensor t))

/-- The initial local state of a node. -/
def initialLocal (key : Key) (n : TreeNode) (c : Component) : Outcome LocalState := do
  let own ← c.init n.context ((key.fold (.ofNat n.context.id)).generator initialStream)
  let l := Table.union (parameterDefaults n.schema) own
  n.schema.checkLocal n.context.displayPath l
  return l

/-- Initial local states put into a state, node by node. -/
def fill (key : Key) : List (TreeNode × Component) → State → Outcome State
  | [], s => .ok s
  | (n, c) :: rest, s => do
    let l ← initialLocal key n c
    fill key rest (s.withNode n.context.path l)

/-- The first state of the component from which the tree was built. -/
def initialState (t : Tree) (root : Component) (key : Key) : Outcome State :=
  let components := root.preorder
  if components.length ≠ t.length then
    .error (.internal (.nodeCount t.length components.length))
  else fill key (t.zip components) .empty

end Tree

end Lockstep
