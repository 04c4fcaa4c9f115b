import Lockstep.Component.Roles
import Lockstep.State.Basic
import Lockstep.State.Checkpoint
import Lockstep.Text.Forms

/-!
# Workflows

A workflow joins one algorithm, one problem and any number of monitors into one tree, with an
optional transform between asking and evaluating. Its root keeps the count of completed steps and
the random key.
-/

namespace Lockstep

open Lockstep.Random

/-- The settings of a workflow. -/
structure WorkflowConfig where
  name : String := "workflow"
  seed : UInt64 := 0
  /-- whether lanes may be worked on at the same time, which changes no result -/
  parallelLanes : Bool := true
  devices : Option Mesh := none

namespace WorkflowConfig

/-- The name is not blank and the mesh, if there is one, has devices. -/
def validate (c : WorkflowConfig) : Outcome Unit :=
  if Text.isBlank c.name then .error (.config .blankName)
  else match c.devices with
    | some ⟨[]⟩ => .error (.config (.emptyMesh c.name))
    | _ => .ok ()

/-- Reads a configuration without checking it. -/
def reader : Json.Read.Reader WorkflowConfig := fun depth j => do
  match ← Json.Read.fields ["name", "seed", "parallel_lanes", "devices"] depth j with
  | [name, seed, parallelLanes, devices] =>
    return {
      name := ← Json.Read.required Json.Read.string depth name
      seed := ← Json.Read.required Json.Read.word depth seed
      parallelLanes := ← Json.Read.required Json.Read.boolean depth parallelLanes
      devices := ← Json.Read.absentable Mesh.reader depth devices }
  | _ => none

/-- The valid configuration that a text holds. -/
def ofText (text : String) : Outcome WorkflowConfig := do
  let c ← Json.readText reader text
  c.validate
  return c

end WorkflowConfig

/-- A monitor with its name and its place in the tree. -/
structure MonitorSlot where
  name : String
  node : NodeContext
  monitor : Monitor

/-- A configured workflow. -/
structure Workflow where
  config : WorkflowConfig
  algorithm : Algorithm
  problem : Problem
  monitors : List MonitorSlot
  transform : Option SolutionTransform
  tree : Tree
  algorithmNode : NodeContext
  problemNode : NodeContext
  placement : Option PlacementSpec
  /-- whether a first state was made -/
  ready : Bool

namespace Workflow

/-- The root attribute that counts completed steps. -/
def generationAttribute : String := "generation"

/-- The root attribute that holds the random key. -/
def keyAttribute : String := "key"

/-- The component of a workflow: the algorithm, the problem and the monitors below a root. -/
def componentOf (seed : UInt64) (algorithm : Algorithm) (problem : Problem)
    (monitors : List (String × Monitor)) : Component where
  schema := [.mutable generationAttribute, .mutable keyAttribute]
  init _ _ := .ok ((LocalState.setNumber [] generationAttribute 0).setTensor keyAttribute
    (Key.ofSeed seed).toTensor)
  children := ("algorithm", algorithm.component) :: ("problem", problem.component) ::
    monitors.map fun m => (m.1, m.2.component)

/-- The workflow as a component of its own. -/
def component (w : Workflow) : Component :=
  componentOf w.config.seed w.algorithm w.problem (w.monitors.map fun s => (s.name, s.monitor))

/-- Names for the monitors that have none: `monitor`, `monitor_1`, `monitor_2` and so on. -/
def nameMonitors : (unnamed : Nat) → List (Option String × Monitor) → List (String × Monitor)
  | _, [] => []
  | unnamed, (some name, m) :: rest => (name, m) :: nameMonitors unnamed rest
  | unnamed, (none, m) :: rest =>
    (if unnamed = 0 then "monitor" else s!"monitor_{unnamed}", m) :: nameMonitors (unnamed + 1) rest

/-- Named monitors with their places in a tree. -/
def placeMonitors (tree : Tree) (monitors : List (String × Monitor)) : Outcome (List MonitorSlot) :=
  monitors.mapM fun m => do return ⟨m.1, ← tree.context m.1, m.2⟩

/-- The placement that splits everything along its population axis. -/
def populationPlacement (tree : Tree) (mesh : Mesh) : PlacementSpec :=
  ⟨mesh, .ofList tree.populationLeaves⟩

/-- The workflow with its states spread over a mesh from now on. -/
def enableDevices (w : Workflow) (mesh : Mesh) : Outcome Workflow :=
  if mesh.devices = [] then .error (.config (.placement w.config.name))
  else .ok { w with
    config := { w.config with devices := some mesh }
    placement := some (populationPlacement w.tree mesh) }

/-- Joins components to a workflow that is not ready yet. -/
def build (algorithm : Algorithm) (problem : Problem) (monitors : List (Option String × Monitor))
    (transform : Option SolutionTransform) (config : WorkflowConfig) : Outcome Workflow := do
  config.validate
  let monitors := nameMonitors 0 monitors
  let tree ← Tree.build (componentOf config.seed algorithm problem monitors)
  let slots ← placeMonitors tree monitors
  let w : Workflow := {
    config, algorithm, problem, transform, tree
    monitors := slots
    algorithmNode := ← tree.context "algorithm"
    problemNode := ← tree.context "problem"
    placement := none
    ready := false }
  match config.devices with
  | some mesh => w.enableDevices mesh
  | none => return w

/-- The names of the monitors, in order. -/
def monitorNames (w : Workflow) : List String := w.monitors.map MonitorSlot.name

/-- The first monitor with a metric. -/
def metricMonitor (w : Workflow) : Option String :=
  (w.monitors.find? fun s => s.monitor.providesMetric).map MonitorSlot.name

/-- Every tunable parameter under its leaf. -/
def parameters (w : Workflow) : List (String × Attribute) := w.tree.parameters

/-- The state with the workflow's placement. -/
def place (w : Workflow) (s : State) : Outcome State :=
  match w.placement with
  | some spec => s.shard spec
  | none => .ok s

end Workflow

end Lockstep
