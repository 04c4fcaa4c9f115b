import Lockstep.Component.Roles
import Lockstep.Monitor.Fitness

/-!
# The evaluation monitor

Keeps the best fitness and the count of evaluations, and if so configured the best solution, the
latest candidates and the history of the best fitness. It reports improvements, stagnation and
fitness that is not finite. Only a fitness with one number for each candidate is ranked; what is not
a number is passed over, and of equal candidates the first one counts.
-/

namespace Lockstep

/-- What an evaluation monitor keeps and reports. -/
structure EvaluationConfig where
  /-- the width of candidates, to keep the best solution -/
  solutionDim : Option Nat := none
  /-- the count and width of candidates, to keep the latest batch -/
  candidateShape : Option (Nat × Nat) := none
  /-- how many generations the history of the best fitness covers -/
  historyLength : Nat := 0
  /-- after how many generations without improvement to report stagnation -/
  stagnationWindow : Option UInt64 := none

/-- Reads a configuration. -/
def EvaluationConfig.reader : Json.Read.Reader EvaluationConfig := fun depth j => do
  match ← Json.Read.fields
      ["solution_dim", "candidate_shape", "history_len", "stagnation_window"] depth j with
  | [solutionDim, candidateShape, historyLength, stagnationWindow] =>
    let pair : Json.Read.Reader (Nat × Nat) := fun depth j => do
      match ← Json.Read.list Json.Read.nat depth j with
      | [a, b] => return (a, b)
      | _ => none
    return {
      solutionDim := ← Json.Read.absentable Json.Read.nat depth solutionDim
      candidateShape := ← Json.Read.absentable pair depth candidateShape
      historyLength := ← Json.Read.required Json.Read.nat depth historyLength
      stagnationWindow := ← Json.Read.absentable Json.Read.word depth stagnationWindow }
  | _ => none

namespace EvaluationMonitor

/-- The best fitness in a local state. -/
def bestFitness (l : LocalState) : Outcome Float := l.number "best_fitness"

/-- The count of evaluations in a local state. -/
def evaluations (l : LocalState) : Outcome UInt64 := do
  return (← l.number "evaluations").toUInt64

/-- The best solution in a local state, if it is kept. -/
def bestSolution (l : LocalState) : Option Tensor :=
  match Table.get? "best_solution" l with
  | some (.tensor t) => some t
  | _ => none

def schema (c : EvaluationConfig) : Schema :=
  [.mutable "best_fitness", .mutable "evaluations", .mutable "stagnation"] ++
    (if c.solutionDim.isSome then [.mutable "best_solution"] else []) ++
    (if c.candidateShape.isSome then [.population "latest_candidates"] else []) ++
    if 0 < c.historyLength then [.mutable "history"] else []

/-- The attributes that are kept on demand, with the shapes of their values. -/
def extraShapes (c : EvaluationConfig) : List (String × List Nat) :=
  (c.solutionDim.toList.map fun dim => ("best_solution", [dim])) ++
    (c.candidateShape.toList.map fun s => ("latest_candidates", [s.1, s.2])) ++
    if 0 < c.historyLength then [("history", [c.historyLength])] else []

/-- No evaluations and no best fitness yet; what is kept on demand is unknown. -/
def initialState (c : EvaluationConfig) : Outcome LocalState := do
  let unknown : Float := 0 / 0
  let extras ← (extraShapes c).mapM fun e => do
    return (e.1, Value.tensor (← Tensor.full e.2 unknown))
  return .ofList ([("best_fitness", .tensor (.scalar infinity)),
    ("evaluations", .tensor (.scalar 0)), ("stagnation", .tensor (.scalar 0))] ++ extras)

/-- A report, if anybody listens. -/
def report (listens : Bool) (ctx : HookContext) (level : EventLevel) (kind : EventKind) :
    Traced Unit :=
  if listens then
    .note (.event ⟨level, kind, ctx.node.displayPath, ctx.generation, ctx.lane⟩)
  else pure ()

/-- The local state with the latest candidates. -/
def recordCandidates (c : EvaluationConfig) (l : LocalState) (candidates : Candidates) :
    Outcome (Option LocalState) :=
  match c.candidateShape with
  | none => .ok none
  | some (count, dim) => do
    let batch ← candidates.asDense
    if batch.shape = [count, dim] then return some (l.setTensor "latest_candidates" batch)
    else shapeMismatch "latest_candidates" [count, dim] batch.shape

/-- The solution with an index in a batch of the given width. -/
def solutionAt (dim index : Nat) (candidates : Candidates) : Outcome Tensor := do
  let batch ← (← candidates.asDense).asMatrix "candidates"
  if batch.cols ≠ dim then shapeMismatch "best solution" [dim] [batch.cols]
  else match batch.rows[index]? with
    | some row => return .vector row
    | none => .error (.abort .arrayShapes)

/-- The local state with a better fitness, and the solution if it is kept. -/
def improve (c : EvaluationConfig) (l : LocalState) (candidates : Candidates) (index : Nat)
    (fitness : Float) : Outcome LocalState := do
  let l := l.setNumber "best_fitness" fitness
  match c.solutionDim with
  | none => return l
  | some dim => return l.setTensor "best_solution" (← solutionAt dim index candidates)

/-- The improvement over a previous best, if a fitness is lower. -/
def improvement (fitness : List Float) (previous : Float) : Option (Nat × Float) :=
  (Tensor.argmin fitness).filter fun b => b.2 < previous

/-- A tensor with its first number dropped and another one put at the end. -/
def shiftIn (t : Tensor) (x : Float) : Outcome Tensor :=
  if h : t.data = [] then .error (.abort .emptyHistory)
  else .ok ⟨t.shape, t.data.tail ++ [x], by
    have := List.length_pos_iff.2 h
    rw [List.length_append, List.length_tail, List.length_singleton, ← t.fills]
    omega⟩

/-- The local state with the best fitness at the end of the history, if there is one. -/
def recordHistory (c : EvaluationConfig) (l : LocalState) : Outcome LocalState :=
  if c.historyLength = 0 then .ok l
  else do
    let best ← bestFitness l
    return l.setTensor "history" (← shiftIn (← l.tensor "history") best)

/-- The local state after a fitness with one number for each candidate. -/
def recordBest (c : EvaluationConfig) (listens : Bool) (ctx : HookContext) (l : LocalState)
    (candidates : Candidates) (fitness : List Float) : Traced LocalState := do
  let previous ← bestFitness l
  match improvement fitness previous with
  | some (index, f) =>
    let l ← improve c l candidates index f
    report listens ctx .info
      (.newBest f (if previous.isFinite then some previous else none))
    recordHistory c (l.setNumber "stagnation" 0)
  | none =>
    let stagnation := (← l.number "stagnation") + 1
    let l := l.setNumber "stagnation" stagnation
    if c.stagnationWindow = some stagnation.toUInt64 then
      report listens ctx .warning (.stagnation stagnation.toUInt64)
    recordHistory c l

/-- The local state after candidates were evaluated. -/
def record (c : EvaluationConfig) (listens : Bool) (ctx : HookContext) (l : LocalState)
    (candidates : Candidates) (fitness : Tensor) : Traced LocalState := do
  let total := fitness.shape.headD 0
  let count ← wordOf ((← evaluations l).toNat + total)
  let l := l.setNumber "evaluations" count.toFloat
  if fitness.rank = 0 then Traced.fail (.abort .scalarFitness)
  let unusable := (fitness.rows.filter fun row => !isFiniteRow row.data).length
  if 0 < unusable then report listens ctx .warning (.nonFinite unusable total)
  if fitness.rank = 1 then recordBest c listens ctx l candidates fitness.data else return l

end EvaluationMonitor

/-- A monitor of evaluations. Its metric is the best fitness. -/
def Monitor.evaluation (c : EvaluationConfig) (listens : Bool) : Monitor where
  component := {
    schema := EvaluationMonitor.schema c
    init := fun _ _ => EvaluationMonitor.initialState c
    children := [] }
  hooks := .ofList (.postEval :: if c.candidateShape.isSome then [.postAsk] else [])
  observe ctx l call := match call with
    | .postAsk candidates => .ofOutcome (EvaluationMonitor.recordCandidates c l candidates)
    | .postEval candidates fitness => do
      return some (← EvaluationMonitor.record c listens ctx l candidates fitness)
    | _ => pure none
  providesMetric := true
  metric l := do return some (← l.tensor "best_fitness")

end Lockstep
