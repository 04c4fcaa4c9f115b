import Lockstep.Tuning.Codec
import Lockstep.Workflow.Run

/-!
# A workflow as a batched problem

A tuning problem runs copies of a workflow in lockstep, one instance for every setting of its
parameters: it writes the parameters into a stack of states, steps the stack and answers with the
metric of a monitor for each instance. It starts every time from the first state, or goes on from
where it ended.
-/

namespace Lockstep

/-- How a workflow is run for an evaluation. -/
structure TuningConfig where
  /-- the count of steps -/
  iterations : Nat := 10
  /-- how many settings are evaluated at a time -/
  instances : Nat := 1
  /-- whether every evaluation starts from the first state -/
  restart : Bool := true
  /-- the monitor whose metric counts, by default the first one that has one -/
  metricMonitor : Option String := none

namespace TuningConfig

/-- There are steps and instances. -/
def validate (c : TuningConfig) : Outcome Unit :=
  if c.iterations = 0 then .error (.hpo (.invalidConfig .iterations))
  else if c.instances = 0 then .error (.hpo (.invalidConfig .instances))
  else .ok ()

/-- Reads a configuration without checking it. -/
def reader : Json.Read.Reader TuningConfig := fun depth j => do
  match ← Json.Read.fields
      ["iterations", "num_instances", "copy_init_state", "metric_monitor"] depth j with
  | [iterations, instances, restart, metricMonitor] =>
    return {
      iterations := ← Json.Read.required Json.Read.nat depth iterations
      instances := ← Json.Read.required Json.Read.nat depth instances
      restart := ← Json.Read.required Json.Read.boolean depth restart
      metricMonitor := ← Json.Read.absentable Json.Read.string depth metricMonitor }
  | _ => none

/-- The valid configuration that a text holds. -/
def ofText (text : String) : Outcome TuningConfig := do
  let c ← Json.readText reader text
  c.validate
  return c

end TuningConfig

/-- A workflow whose parameters are tuned. -/
structure TuningProblem where
  workflow : Workflow
  config : TuningConfig
  metricMonitor : String
  /-- the shapes of the parameters of one instance -/
  shapes : Table (List Nat)
  /-- the defaults of the parameters, once for each instance -/
  defaults : ParameterBatch
  /-- the first state of all instances -/
  pristine : State
  /-- the state from which an evaluation goes on -/
  instances : State

namespace TuningProblem

/-- The attribute that holds the state of the instances. -/
def instancesAttribute : String := "instances"

/-- The monitor whose metric counts. -/
def chooseMonitor (w : Workflow) (c : TuningConfig) : Outcome String :=
  match c.metricMonitor with
  | some name =>
    if name ∈ w.monitorNames then .ok name else .error (.workflow (.missingMonitor name))
  | none => match w.metricMonitor with
    | some name => .ok name
    | none => .error (.hpo (.invalidConfig (.noMetric w.config.name)))

/-- The default of a parameter, which must be there, and the default once for each instance. -/
def defaultOf (instances : Nat) (p : String × Attribute) : Outcome (String × Tensor × Tensor) :=
  match p.2.default with
  | some t => do return (p.1, t, ← t.repeatLeading instances)
  | none => .error (.validation (.noDefault p.1))

/-- Wraps a workflow that is ready, with an unbatched state of it. -/
def new (w : Workflow) (first : State) (c : TuningConfig) : Outcome TuningProblem := do
  c.validate
  if !w.ready then .error (.hpo .workflowNotReady)
  if first.isBatched then .error (.hpo (.invalidConfig .batchedState))
  let metricMonitor ← chooseMonitor w c
  let parameters := Table.ofList (← w.parameters.mapM (defaultOf c.instances))
  let pristine ← w.place (← State.stack (List.replicate c.instances first))
  return {
    workflow := w
    config := c
    metricMonitor
    shapes := parameters.mapValues fun ts => ts.1.shape
    defaults := parameters.mapValues Prod.snd
    pristine
    instances := pristine }

/-- The codec for the parameters of the workflow. -/
def codec (p : TuningProblem) : Outcome ParameterCodec := ParameterCodec.new p.shapes

/-- The problem with its instances in the first state. -/
def reset (p : TuningProblem) : TuningProblem := { p with instances := p.pristine }

/-- A value fits a parameter: it has the parameter's shape once for each instance. -/
def checkParameter (p : TuningProblem) (path : String) (t : Tensor) : Outcome Unit :=
  match Table.get? path p.shapes with
  | none => .error (.hpo (.unknownParameter path))
  | some shape => match t.shape with
    | [] => .error (.hpo (.instanceCount path p.config.instances 0))
    | n :: inner =>
      if n ≠ p.config.instances then .error (.hpo (.instanceCount path p.config.instances n))
      else if inner ≠ shape then .error (.hpo (.parameterShape path shape inner))
      else .ok ()

/-- Every value of a batch fits its parameter. -/
def check (p : TuningProblem) (batch : ParameterBatch) : Outcome Unit :=
  batch.forM fun (path, t) => p.checkParameter path t

/-- The parameters of a batch written into a state. -/
def overwrite (s : State) : ParameterBatch → Outcome State
  | [] => .ok s
  | (path, t) :: rest => do overwrite (← s.withLeaf path t) rest

/-- The metric of every instance, and the state after the steps from a given one. -/
def runFrom (p : TuningProblem) (start : State) (batch : ParameterBatch) :
    Traced (Tensor × State) := do
  p.check batch
  let s ← overwrite start batch
  let s ← p.workflow.run p.config.iterations s
  let metric ← p.workflow.metric s p.metricMonitor
  return (metric, s)

/-- The state from which the next evaluation starts. -/
def start (p : TuningProblem) : State := if p.config.restart then p.pristine else p.instances

/-- The problem after an evaluation that ended in a state. -/
def advance (p : TuningProblem) (last : State) : TuningProblem :=
  if p.config.restart then p else { p with instances := last }

/-- The metric of every instance, and the problem afterwards. A failure changes nothing. -/
def evaluateBatch (p : TuningProblem) (batch : ParameterBatch) : Traced Tensor × TuningProblem :=
  let run := p.runFrom p.start batch
  match run.outcome with
  | .ok (metric, last) => (⟨run.notes, .ok metric⟩, p.advance last)
  | .error e => (⟨run.notes, .error e⟩, p)

/-- An evaluation that keeps the state of the instances in a local state. -/
def evaluateLocal (p : TuningProblem) (l : LocalState) (candidates : Candidates) :
    Traced (Tensor × LocalState) := do
  let batch ← candidates.asNamed
  if p.config.restart then
    let (metric, _) ← p.runFrom p.pristine batch
    return (metric, l)
  else
    let start ← l.nested instancesAttribute
    let (metric, last) ← p.runFrom start batch
    return (metric, Table.insert instancesAttribute (.state last) l)

/-- The wrapped workflow as a problem of another workflow. -/
def problem (p : TuningProblem) : Problem where
  component := {
    schema := [.mutable instancesAttribute]
    init := fun _ _ => .ok [(instancesAttribute, .state p.pristine)]
    children := [] }
  spec := .named p.shapes
  evaluate _ l candidates := p.evaluateLocal l candidates

end TuningProblem

end Lockstep
