import Lockstep.Component.Candidates
import Lockstep.Component.Traced
import Lockstep.Component.Schema
import Lockstep.Tuning.Trial
import Lockstep.Workflow.Basic

/-!
# Values in answers

How values stand in answers that leave the library as JSON. A number that is not finite is a text,
and an integer that may take 64 bits is a text of its digits. An error is its kind with its message;
unreadable input and computations cut short have no message.
-/

namespace Lockstep.Exchange

/-! ## Basic values -/

def obj (members : List (String × Json)) : Json := .record members

def outFloat (x : Float) : Json :=
  if x.isFinite then .ofFloat x else .text (Decimal.plain.write x)

def outNat (n : Nat) : Json := .ofNat n

def outText (s : String) : Json := .text s

/-- An integer as a text. -/
def outDigits (n : Nat) : Json := .text (toString n)

def outInt64 (i : Int64) : Json := .number (toString i.toInt)

section

variable {α : Type}

def outList (f : α → Json) (xs : List α) : Json := .array (xs.map f)

def outOption (f : α → Json) : Option α → Json
  | some x => f x
  | none => .null

def outTable (f : α → Json) (t : List (String × α)) : Json := obj (t.map fun e => (e.1, f e.2))

def outPair (a b : Json) : Json := .array [a, b]

end

/-! ## Errors -/

def structureKind : StructureError → String
  | .pathNotFound .. => "PathNotFound"
  | .attributeNotFound .. => "AttributeNotFound"
  | .missingAttribute .. => "MissingAttribute"
  | .duplicateChild .. => "DuplicateChild"
  | .duplicateAttribute .. => "DuplicateAttribute"
  | .invalidName .. => "InvalidName"
  | .schemaMismatch .. => "SchemaMismatch"
  | .stackMismatch .. => "StackMismatch"
  | .emptyStack => "EmptyStack"
  | .notBatched => "NotBatched"
  | .shapeMismatch .. => "ShapeMismatch"
  | .valueKind .. => "ValueKind"
  | .invalidPlacement .. => "InvalidPlacement"

def workflowKind : WorkflowError → String
  | .notInitialized .. => "NotInitialized"
  | .inputMismatch .. => "InputMismatch"
  | .fitnessShape .. => "FitnessShape"
  | .candidateKind .. => "CandidateKind"
  | .component .. => "Component"
  | .missingMonitor .. => "MissingMonitor"
  | .noMetric .. => "NoMetric"

def hpoKind : HpoError → String
  | .instanceCount .. => "InstanceCountMismatch"
  | .unknownParameter .. => "UnknownParameter"
  | .parameterShape .. => "ParameterShape"
  | .invalidConfig .. => "InvalidConfig"
  | .workflowNotReady => "WorkflowNotReady"

/-- An error by its kind alone. -/
def outKind (kind : String) : Json := obj [("error", outText kind)]

def outError (e : Error) : Json :=
  let full (kind : String) := obj [("error", outText kind), ("message", outText e.message)]
  match e with
  | .structural s => full ("Structure." ++ structureKind s)
  | .workflow w => full ("Workflow." ++ workflowKind w)
  | .hpo h => full ("Hpo." ++ hpoKind h)
  | .config _ => full "Config"
  | .shape _ => full "Shape"
  | .internal _ => full "Internal"
  | .validation _ => full "Validation"
  | .serialization => outKind "Serialization"
  | .unreadable => outKind "Io"
  | .abort _ => outKind "Panic"

/-- A value or an error. -/
def outcome {α : Type} (f : α → Json) : Outcome α → Json
  | .ok x => f x
  | .error e => outError e

/-- A value as the one member of an object, or an error. -/
def outcomeAs {α : Type} (key : String) (f : α → Json) (o : Outcome α) : Json :=
  outcome (fun x => obj [(key, f x)]) o

/-- That a check passed, or an error. -/
def outOk (o : Outcome Unit) : Json := outcome (fun _ => outText "ok") o

/-! ## Tensors and states -/

def outTensor (t : Tensor) : Json :=
  obj [("shape", outList outNat t.shape), ("data", outList outFloat t.data)]

/-- A tensor as the one member of an object, or an error. -/
def outcomeTensor (o : Outcome Tensor) : Json := outcomeAs "tensor" outTensor o

def outDevice (d : Device) : Json := outText d.name

/-- The number of an axis. -/
def outAxis (axis : UInt64) : Json := outNat axis.toNat

/-- Leaves with the axis of their population. -/
def outPopulation (leaves : List (String × UInt64)) : Json :=
  outList (fun p => outPair (outText p.1) (outAxis p.2)) leaves

def outDirective : Directive → Json
  | .replicated => outText "replicated"
  | .split axis devices => obj [("axis", outAxis axis), ("devices", outList outDevice devices)]

mutual

def outValue : Value → Json
  | .tensor t => outTensor t
  | .state s => obj [("state", outState s)]

/-- A state with the placement of the leaves that are in it. -/
def outState : State → Json
  | ⟨nodes, dims, placement⟩ =>
    let leaves := nodes.flatMap fun e => (State.leavesAt e.1 e.2).map Prod.fst
    obj [("nodes", .object (outNodes nodes)), ("batch_dims", outList outNat dims),
      ("placement", outTable outDirective (placement.filter fun e => leaves.contains e.1))]

def outNodes : List (String × List (String × Value)) → List (Option String × Json)
  | [] => []
  | (path, l) :: rest => (some path, .object (outValues l)) :: outNodes rest

def outValues : List (String × Value) → List (Option String × Json)
  | [] => []
  | (name, v) :: rest => (some name, outValue v) :: outValues rest

end

def outLocal (l : LocalState) : Json := .object (outValues l)

/-- Some leaves of a state, or all of it. -/
def outShown (leaves : Option (List String)) (s : State) : Json :=
  match leaves with
  | none => obj [("state", outState s)]
  | some leaves =>
    obj [("leaves", outTable (outcome outTensor)
        (Table.ofList (leaves.map fun leaf => (leaf, s.leaf leaf)))),
      ("batch_dims", outList outNat s.batchDims)]

/-! ## Components -/

def outCandidates : Candidates → Json
  | .dense t => obj [("dense", outTensor t)]
  | .named fields => obj [("named", outTable outTensor fields)]

def outSpec : InputSpec → Json
  | .any => outText "any"
  | .dense width => obj [("dense", outOption outNat width)]
  | .named shapes => obj [("named", outTable (outList outNat) shapes)]

def outAttribute (a : Attribute) : Json :=
  obj [("name", outText a.name), ("role", outText a.role.name),
    ("stateful", .bool a.role.isStateful),
    ("default", outOption outTensor a.default),
    ("population_axis", outOption outAxis a.populationAxis),
    ("shape", outOption (outList outNat) a.shape)]

def outHook (h : Hook) : Json := outText h.name

def outEventKind : EventKind → Json
  | .newBest fitness previous =>
    obj [("new_best", obj
      [("fitness", outFloat fitness), ("previous", outOption outFloat previous)])]
  | .nonFinite count total =>
    obj [("non_finite", obj [("count", outNat count), ("total", outNat total)])]
  | .stagnation generations => obj [("stagnation", outDigits generations.toNat)]

def outEvent (e : Event) : Json :=
  obj [("level", outText e.level.name), ("kind", outEventKind e.kind),
    ("monitor", outText e.monitor),
    ("generation", outDigits e.generation.toNat), ("lane", outNat e.lane),
    ("message", outText e.message)]

/-- The events among notes, by generation and lane. -/
def eventsOf (notes : List Note) : List Event :=
  let events := notes.filterMap fun n => match n with
    | .event e => some e
    | .line _ => none
  events.mergeSort fun a b =>
    a.generation < b.generation || (a.generation = b.generation && a.lane ≤ b.lane)

/-- The lines among notes, in order. -/
def linesOf (notes : List Note) : List String :=
  notes.filterMap fun n => match n with
    | .event _ => none
    | .line text => some text

/-- An answer with what was noted since the one before. -/
def withNotes (notes : List Note) : Json → Json
  | .object members =>
    let part (key : String) (items : List Json) : List (Option String × Json) :=
      if items.isEmpty then [] else [(some key, .array items)]
    .object (members ++ part "events" ((eventsOf notes).map outEvent) ++
      part "log" ((linesOf notes).map outText))
  | other => other

/-- What a workflow consists of. -/
def outWorkflow (w : Workflow) : Json :=
  obj [("name", outText w.config.name), ("seed", outDigits w.config.seed.toNat),
    ("ready", .bool w.ready), ("paths", outList outText w.tree.paths),
    ("monitors", outList outText w.monitorNames),
    ("metric_monitor", outOption outText w.metricMonitor),
    ("parameters", outList (fun p => outPair (outText p.1) (outOption outTensor p.2.default))
      w.parameters),
    ("pop_size", outOption outNat w.algorithm.popSize), ("spec", outSpec w.problem.spec),
    ("devices", outOption (fun m => outNat m.devices.length) w.config.devices)]

/-! ## Tuning -/

def outParameter : ParameterValue → Json
  | .integer n => obj [("int", outText (toString n.toInt))]
  | .number x => obj [("float", outFloat x)]

def outSetting (s : Setting) : Json := outTable outParameter s

def outRange (p : String × ParameterRange) : Json :=
  let range := match p.2 with
    | .numbers low high => ("float", outPair (outFloat low) (outFloat high))
    | .integers low high =>
      ("int", outPair (outText (toString low.toInt)) (outText (toString high.toInt)))
    | .logarithmic low high => ("log", outPair (outFloat low) (outFloat high))
    | .choice values => ("choice", outList outFloat values)
  obj [("path", outText p.1), range]

/-- The members of a tuner's configuration. -/
def tunerMembers (c : TunerConfig) : List (String × Json) :=
  let strategy := match c.strategy with
    | .grid => "Grid"
    | .random => "Random"
  [("name", outText c.name), ("space", outList outRange c.space), ("strategy", outText strategy),
    ("max_trials", outNat c.maxTrials), ("direction", outText c.direction.name),
    ("grid_steps", outNat c.gridSteps), ("seed", outDigits c.seed.toNat)]

def outResult (r : TrialResult) : Json :=
  obj [("objective", outFloat r.objective), ("metrics", outTable outFloat r.metrics),
    ("parameters", outSetting r.parameters)]

def outRun (r : TuningRun) : Json :=
  obj [("state", outText r.stage.name), ("completed", outNat r.completed),
    ("failed", outNat r.failed), ("started", .bool r.started), ("finished", .bool r.finished),
    ("error", outOption outText r.error), ("best", outOption outResult r.best)]

def outTrial (t : Trial) : Json :=
  obj [("number", outNat t.number), ("batch", outNat t.id.batch), ("instance", outNat t.id.slot),
    ("parameters", outSetting t.parameters), ("status", outText t.stage.name),
    ("result", outOption outResult t.result), ("error", outOption outText t.error),
    ("finished", .bool t.finished)]

end Lockstep.Exchange
