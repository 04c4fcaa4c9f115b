import Lockstep.Algorithm.ParticleSwarm
import Lockstep.Exchange.Decode
import Lockstep.Monitor.Evaluation
import Lockstep.Monitor.Fitness
import Lockstep.Problem.Benchmark
import Lockstep.Sample
import Lockstep.Tuning.Problem

/-!
# Components from requests

How algorithms, problems, monitors and whole workflows are described in requests. A description that
can be decoded may still be refused, so that what is decoded is an outcome.
-/

namespace Lockstep.Exchange

/-- How many descriptions may stand inside each other. -/
def maxNesting : Nat := 128

/-- A given tensor, or a count of draws between two bounds. -/
def asInitial (j : Json) : Decode Sample.Initial :=
  match member j "draw" with
  | some n => do return .drawn (← asNat n) (← field asFloat j "low") (← field asFloat j "high")
  | none => Sample.Initial.given <$> asTensor j

/-- A component with its children. -/
def asComponent : (nesting : Nat) → Json → Decode Component
  | 0, _ => .error "too many components inside each other"
  | nesting + 1, j => do
    return Sample.drawing (← fieldOr (listOf asAttribute) [] j "attrs")
      (← fieldOr (listOf (pairOf asText asInitial)) [] j "init") (← maybe asText j "fail")
      (← fieldOr (listOf (pairOf asText (asComponent nesting))) [] j "children")

/-- A particle swarm. -/
def asSwarm (j : Json) : Decode (Outcome ParticleSwarm) := do
  let made := ParticleSwarm.new (← field (listOf asFloat) j "lb") (← field (listOf asFloat) j "ub")
    (← field asNat j "pop_size")
  let w ← maybe asFloat j "w"
  let phiP ← maybe asFloat j "phi_p"
  let phiG ← maybe asFloat j "phi_g"
  return made.map fun s => { s with
    inertia := w.getD s.inertia
    cognitive := phiP.getD s.cognitive
    social := phiG.getD s.social }

def asAlgorithm (j : Json) : Decode (Outcome Algorithm) := do
  match ← field asText j "kind" with
  | "pso" => return (← asSwarm j).map ParticleSwarm.algorithm
  | "stub" =>
    let asking : Sample.Asking := {
      candidates := ← field asCandidates j "candidates"
      popSize := ← maybe asNat j "pop_size"
      noise := ← fieldOr asBool false j "noise"
      failAsk := ← maybe asText j "fail_ask"
      failTell := ← maybe asText j "fail_tell"
      parameters := ← fieldOr (tableOf asTensor) [] j "params" }
    return .ok asking.algorithm
  | kind => .error s!"no algorithm {kind}"

/-- The coefficients of the Ackley function, by default the usual ones. -/
def asAckley (j : Json) : Decode Ackley := do
  match ← maybe (listOf asFloat) j "coefficients" with
  | some [a, b, c] => return ⟨a, b, c⟩
  | _ => return {}

/-- A problem that contains no other workflow. -/
def asPlainProblem (kind : String) (j : Json) : Decode Problem := do
  match kind with
  | "sphere" => return .sphere
  | "ackley" => return .ackley (← asAckley j)
  | "fixed" => return Sample.fixed (← field asTensor j "fitness") (← fieldOr asSpec .any j "spec")
  | "rows" =>
    let rows : Sample.Rows := {
      shifts := ← field (listOf asFloat) j "shifts"
      flat := ← fieldOr asBool false j "flat"
      nanBelow := ← maybe asFloat j "nan_below"
      noise := ← fieldOr asBool false j "noise" }
    return rows.problem
  | "named_sum" => return Sample.namedSum (← field asSpec j "spec")
  | "fail" => return Sample.failing (← field asText j "message")
  | kind => .error s!"no problem {kind}"

def asEvaluation (j : Json) : Decode EvaluationConfig := do
  return {
    solutionDim := ← maybe asNat j "solution_dim"
    candidateShape := ← maybe (pairOf asNat asNat) j "candidate_shape"
    historyLength := ← fieldOr asNat 0 j "history_len"
    stagnationWindow := ← maybe asWord j "stagnation_window" }

/-- A fitness monitor, with a front if there is one. -/
def asFitnessMonitor (j : Json) : Decode (Outcome Monitor) := do
  match ← maybe asTensor j "front" with
  | none => return .ok (.fitness none)
  | some front => return (Front.new front).map fun f => .fitness (some f)

def asMonitor (j : Json) : Decode (Outcome Monitor) := do
  match ← field asText j "kind" with
  | "eval" => return .ok (.evaluation (← asEvaluation j) (← fieldOr asBool false j "events"))
  | "hpo_fitness" => asFitnessMonitor j
  | "recorder" =>
    let recording : Sample.Recording := {
      hooks := ← field (listOf asHook) j "hooks"
      failAt := ← maybe asHook j "fail_at"
      metric := ← fieldOr asBool false j "metric" }
    return .ok recording.monitor
  | kind => .error s!"no monitor {kind}"

/-- A monitor with its name, if it has one. -/
def asNamedMonitor (j : Json) : Decode (Outcome (Option String × Monitor)) := do
  match ← asList j with
  | [.null, m] => return (← asMonitor m).map (none, ·)
  | [name, m] =>
    let name ← asText name
    return (← asMonitor m).map (some name, ·)
  | _ => .error "monitor expected"

/-- A transform; `codec` is the one that fits the problem. -/
def asTransform (codec : Outcome ParameterCodec) (j : Json) :
    Decode (Outcome SolutionTransform) := do
  match ← field asText j "kind" with
  | "codec" => match ← maybe (tableOf (listOf asNat)) j "shapes" with
    | some shapes => return ParameterCodec.transform <$> ParameterCodec.new shapes
    | none => return ParameterCodec.transform <$> codec
  | "to_named" => return .ok (Sample.toNamed (← field asText j "field"))
  | "truncate" => return .ok Sample.truncate
  | "scale" => return .ok (Sample.scale (← field asFloat j "factor"))
  | kind => .error s!"no transform {kind}"

def asWorkflowConfig (j : Json) : Decode WorkflowConfig := do
  return {
    name := ← fieldOr asText "workflow" j "name"
    seed := ← fieldOr asWord 0 j "seed"
    parallelLanes := ← fieldOr asBool true j "parallel"
    devices := ← maybe asMesh j "devices" }

def asTuningConfig (j : Json) : Decode TuningConfig := do
  return {
    iterations := ← field asNat j "iterations"
    instances := ← field asNat j "num_instances"
    restart := ← fieldOr asBool true j "copy_init_state"
    metricMonitor := ← maybe asText j "metric_monitor" }

/-- A workflow with its first state, stacked if told so, or with no state before it is ready. -/
def firstState (starts : Bool) (copies : Option Nat) (w : Workflow) :
    Traced (Workflow × State) := do
  let (w, s) ← if starts then w.init else pure (w, State.empty)
  match copies with
  | some n => return (w, ← (State.stack (List.replicate n s) : Outcome State))
  | none => return (w, s)

/-- A wrapped workflow, given how workflows are decoded. -/
def asTuningOf (workflow : Json → Decode (Traced Workflow)) (j : Json) :
    Decode (Traced TuningProblem) := do
  let built ← field workflow j "workflow"
  let config ← field asTuningConfig j "config"
  let starts ← fieldOr asBool true j "init"
  let copies ← maybe asNat j "stack"
  return do
    let (w, s) ← firstState starts copies (← built)
    TuningProblem.new w s config

/-- A problem with the codec that fits it, given how workflows are decoded. -/
def asProblemOf (workflow : Json → Decode (Traced Workflow)) (j : Json) :
    Decode (Traced (Problem × Outcome ParameterCodec)) := do
  match ← field asText j "kind" with
  | "hpo" => return (fun p => (p.problem, p.codec)) <$> (← asTuningOf workflow j)
  | kind => return pure (← asPlainProblem kind j, ParameterCodec.new [])

/-- A workflow, which may wrap another one as its problem. -/
def asWorkflow : (nesting : Nat) → Json → Decode (Traced Workflow)
  | 0, _ => .error "too many workflows inside each other"
  | nesting + 1, j => do
    let algorithm ← field asAlgorithm j "algorithm"
    let problem ← field (asProblemOf (asWorkflow nesting)) j "problem"
    let monitors ← fieldOr (listOf asNamedMonitor) [] j "monitors"
    let codec : Outcome ParameterCodec := match problem.outcome with
      | .ok (_, codec) => codec
      | .error _ => ParameterCodec.new []
    let transform ← maybe (asTransform codec) j "transform"
    let config ← fieldOr asWorkflowConfig {} j "config"
    let built : Traced Workflow := do
      let algorithm ← algorithm
      let (problem, _) ← problem
      let monitors ← (monitors.mapM id : Outcome (List (Option String × Monitor)))
      let transform ← (transform.mapM id : Outcome (Option SolutionTransform))
      Workflow.build algorithm problem monitors transform config
    .ok built

/-- A workflow wrapped as a tuning problem. -/
def asTuning (j : Json) : Decode (Traced TuningProblem) := asTuningOf (asWorkflow maxNesting) j

/-- A hook with what is shown there. -/
def asHookCall (j : Json) : Hook → Decode HookCall
  | .setup => .ok .setup
  | .preAsk => .ok .preAsk
  | .postAsk => HookCall.postAsk <$> field asCandidates j "candidates"
  | .preEval => HookCall.preEval <$> field asCandidates j "candidates"
  | .postEval => do
    return .postEval (← field asCandidates j "candidates") (← field asTensor j "fitness")
  | .preTell => HookCall.preTell <$> field asTensor j "fitness"
  | .postTell => .ok .postTell

end Lockstep.Exchange
