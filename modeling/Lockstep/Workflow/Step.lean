import Lockstep.Component.Traced
import Lockstep.State.Stack
import Lockstep.Workflow.Basic

/-!
# One step of a workflow

A pipeline is a series of stages for a lane with an index. Many lanes go through it in lockstep:
each stage runs on all lanes before the next one starts, also when one of them fails, and then the
failure of the first such lane is that of the whole. A lane on its own just takes one stage after
another.

A step takes every lane of a state through the same stages in lockstep: hooks, ask, transform,
evaluate and tell. Within a stage no lane sees another one. A lane gains its candidates when it has
asked and its fitness when it was evaluated, so that no stage can run before what it needs is there.
-/

namespace Lockstep

open Lockstep.Random

/-- Stages that take a lane to a result, one after another. -/
inductive Pipeline (γ : Type) : Type → Type 1 where
  | last {α : Type} (f : Nat → α → Traced γ) : Pipeline γ α
  | stage {α β : Type} (f : Nat → α → Traced β) (rest : Pipeline γ β) : Pipeline γ α

/-- A function on every lane with its index. -/
def runStage {α β : Type} (f : Nat → α → Traced β) (lanes : List α) : Traced (List β) :=
  .all (lanes.mapIdx f)

namespace Pipeline

variable {γ : Type}

/-- All lanes through the stages, side by side. -/
def lockstep {α : Type} : Pipeline γ α → List α → Traced (List γ)
  | .last f, lanes => runStage f lanes
  | .stage f rest, lanes => do rest.lockstep (← runStage f lanes)

/-- The lane with an index through the stages, on its own. -/
def alone {α : Type} (index : Nat) : Pipeline γ α → α → Traced γ
  | .last f, lane => f index lane
  | .stage f rest, lane => do rest.alone index (← f index lane)

/-- The number of the stage at which a lane on its own fails, with the failure. -/
def failure {α : Type} (index : Nat) : Pipeline γ α → α → Option (Nat × Error)
  | .last f, lane => match (f index lane).outcome with
    | .ok _ => none
    | .error e => some (0, e)
  | .stage f rest, lane => match (f index lane).outcome with
    | .ok next => (rest.failure index next).map fun at' => (at'.1 + 1, at'.2)
    | .error e => some (0, e)

end Pipeline

/-- A lane at the start of a step. -/
structure Lane where
  state : State
  key : Key
  generation : UInt64

/-- A lane that has asked. -/
structure AskedLane extends Lane where
  candidates : Candidates

/-- A lane whose candidates were evaluated. -/
structure EvaluatedLane extends AskedLane where
  fitness : Tensor

namespace Workflow

/-- The lane of an unbatched state. -/
def laneOf (s : State) : Outcome Lane := do
  let root ← s.resolve ""
  let key ← Key.ofTensor (← root.tensor keyAttribute)
  let generation ← root.number generationAttribute
  return ⟨s, key, generation.toUInt64⟩

/-- Shows a call to the monitors that subscribe to its hook, one after another; what a monitor gives
back becomes its local state. -/
def dispatch (call : HookCall) (generation : UInt64) (lane : Nat) :
    List MonitorSlot → State → Traced State
  | [], s => pure s
  | slot :: rest, s =>
    if slot.monitor.hooks.contains call.hook then do
      let l ← s.resolve slot.node.path
      match ← slot.monitor.observe ⟨slot.node, s, generation, lane⟩ l call with
      | some l => dispatch call generation lane rest (← s.update slot.node.path l)
      | none => dispatch call generation lane rest s
    else dispatch call generation lane rest s

/-- The state of a lane after a call to the monitors. -/
def observed (w : Workflow) (call : HookCall) (index : Nat) (lane : Lane) : Traced Lane := do
  return { lane with state := ← dispatch call lane.generation index w.monitors lane.state }

/-- The context of a call to a component in a lane. -/
def stepContext (node : NodeContext) (lane : Lane) (index : Nat) (stream : UInt64) : StepContext :=
  .new node lane.key lane.generation index stream

/-- The algorithm proposes candidates, as many as its population if that is fixed. -/
def ask (w : Workflow) (index : Nat) (lane : Lane) : Outcome AskedLane := do
  let l ← lane.state.resolve w.algorithmNode.path
  let (candidates, l) ← w.algorithm.ask (stepContext w.algorithmNode lane index askStream) l
  let n ← candidates.size
  match w.algorithm.popSize with
  | some expected =>
    if n ≠ expected then
      .error (.workflow (.component w.algorithmNode.displayPath
        s!"asked {n} candidates, population size is {expected}"))
  | none => pure ()
  return { lane with state := ← lane.state.update w.algorithmNode.path l, candidates }

/-- Candidates mapped to the problem's input; their count stays the same. -/
def transformed (w : Workflow) (candidates : Candidates) : Outcome Candidates :=
  match w.transform with
  | none => .ok candidates
  | some f => do
    let n ← candidates.size
    let candidates ← f candidates
    let m ← candidates.size
    if m ≠ n then InputFault.fail (.batchSizeChanged n m) else return candidates

/-- The lane's candidates become input that the problem takes. -/
def transformLane (w : Workflow) (lane : AskedLane) : Outcome AskedLane := do
  let candidates ← w.transformed lane.candidates
  w.problem.spec.check candidates
  return { lane with candidates }

/-- The fitness has one number or one row for each candidate. -/
def fitnessFits (fitness : Tensor) (n : Nat) : Bool :=
  match fitness.shape with
  | [rows] => rows = n
  | [rows, _] => rows = n
  | _ => false

/-- The problem evaluates the candidates. -/
def evaluate (w : Workflow) (index : Nat) (lane : AskedLane) : Traced EvaluatedLane := do
  let n ← lane.candidates.size
  let l ← lane.state.resolve w.problemNode.path
  let (fitness, l) ← w.problem.evaluate
    (stepContext w.problemNode lane.toLane index evaluateStream) l lane.candidates
  if fitnessFits fitness n then
    return { lane with state := ← lane.state.update w.problemNode.path l, fitness }
  else Traced.fail (.workflow (.fitnessShape n fitness.shape))

/-- The algorithm learns the fitness of its candidates. -/
def tell (w : Workflow) (index : Nat) (lane : EvaluatedLane) : Outcome EvaluatedLane := do
  let l ← lane.state.resolve w.algorithmNode.path
  let l ← w.algorithm.tell (stepContext w.algorithmNode lane.toLane index tellStream) l lane.fitness
  return { lane with state := ← lane.state.update w.algorithmNode.path l }

/-- The count of completed steps goes up by one. -/
def advance (lane : Lane) : Outcome State := do
  let root ← lane.state.resolve ""
  let next ← wordOf (lane.generation.toNat + 1)
  lane.state.update "" (root.setNumber generationAttribute next.toFloat)

/-- The workflow is ready and the state has all nodes of its tree. -/
def ensureReady (w : Workflow) (s : State) : Outcome Unit :=
  if !w.ready then .error (.workflow (.notInitialized (Path.display "")))
  else match w.tree.find? fun n => !s.contains n.context.path with
    | some n => .error (.workflow (.notInitialized n.context.displayPath))
    | none => .ok ()

/-- The stages of a step. -/
def stages (w : Workflow) : Pipeline State Lane :=
  .stage (w.observed .preAsk) <|
  .stage (fun i lane => .ofOutcome (w.ask i lane)) <|
  .stage (fun i lane => do
    return { lane with toLane := ← w.observed (.postAsk lane.candidates) i lane.toLane }) <|
  .stage (fun _ lane => .ofOutcome (w.transformLane lane)) <|
  .stage (fun i lane => do
    return { lane with toLane := ← w.observed (.preEval lane.candidates) i lane.toLane }) <|
  .stage w.evaluate <|
  .stage (fun i lane => do
    return { lane with
      toLane := ← w.observed (.postEval lane.candidates lane.fitness) i lane.toLane }) <|
  .stage (fun i lane => do
    return { lane with toLane := ← w.observed (.preTell lane.fitness) i lane.toLane }) <|
  .stage (fun i lane => .ofOutcome (w.tell i lane)) <|
  .stage (fun i lane => w.observed .postTell i lane.toLane) <|
  .last fun _ lane => .ofOutcome (advance lane)

/-- Every lane of a state one generation further, where `run` takes the lanes through the stages. -/
def stepBy (w : Workflow) (run : List Lane → Traced (List State)) (s : State) : Traced State := do
  w.ensureReady s
  let lanes ← s.flatten
  let lanes ← (lanes.mapM laneOf : Outcome (List Lane))
  let states ← run lanes
  let next ← State.unflatten s.batchDims states
  w.place next

/-- Every lane of a state one generation further, in lockstep. -/
def step (w : Workflow) (s : State) : Traced State := w.stepBy w.stages.lockstep s

/-- The first state, and the workflow that is ready from then on. -/
def init (w : Workflow) : Traced (Workflow × State) := do
  let s ← w.tree.initialState w.component (Key.ofSeed w.config.seed)
  let s ← dispatch .setup 0 0 w.monitors s
  let s ← w.place s
  return ({ w with ready := true }, s)

end Workflow

end Lockstep
