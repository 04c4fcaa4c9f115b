import Lockstep.Tuning.Problem
import Lockstep.Tuning.Trial

/-!
# Tuners

A tuner asks a strategy for settings, evaluates them as one batch and records a trial for each,
until enough trials are made or the strategy has no more settings. Slots without a setting keep the
default parameters and are not recorded.
-/

namespace Lockstep

/-- The tensor with the same number everywhere in one row. -/
def Tensor.fillRow (t : Tensor) (row : Nat) (x : Float) : Tensor :=
  ⟨t.shape, t.data.mapIdx fun i y => if i / volume t.shape.tail = row then x else y, by
    rw [List.length_mapIdx, t.fills]⟩

/-- A tuning problem with a strategy and the record of what was tried. -/
structure Tuner (σ : Type) where
  problem : TuningProblem
  strategy : Strategy σ
  /-- what the strategy remembers -/
  memory : σ
  run : TuningRun
  trials : List Trial := []
  /-- how many batches were evaluated -/
  batches : Nat := 0

namespace Tuner

/-- A tuned parameter is one of the problem's and a single number. -/
def checkPath (p : TuningProblem) (path : String) : Outcome Unit :=
  match Table.get? path p.shapes with
  | none => .error (.hpo (.unknownParameter path))
  | some [] => .ok ()
  | some shape => .error (.hpo (.parameterShape path [] shape))

/-- A tuner with the configured strategy. -/
def new (p : TuningProblem) (c : TunerConfig) : Outcome (Tuner Search) := do
  c.validate
  c.space.paths.forM (checkPath p)
  return {
    problem := p
    strategy := Search.strategy
    memory := .new c.strategy c.space c.gridSteps c.seed
    run := { config := c } }

variable {σ τ : Type}

/-- The tuner with another strategy. -/
def withStrategy (t : Tuner σ) (strategy : Strategy τ) (memory : τ) : Tuner τ :=
  { problem := t.problem, strategy, memory, run := t.run, trials := t.trials, batches := t.batches }

/-- The values of a setting written into one slot of a batch. -/
def fillSlot (instances slot : Nat) : Setting → ParameterBatch → Outcome ParameterBatch
  | [], batch => .ok batch
  | (path, value) :: rest, batch =>
    match Table.get? path batch with
    | none => .error (.hpo (.unknownParameter path))
    | some t =>
      if slot < instances then
        fillSlot instances slot rest (batch.insert path (t.fillRow slot value.toFloat))
      else .error (.abort .tooManySettings)

/-- Settings written into a batch, one after another from a slot on. -/
def fillSlots (instances : Nat) : (slot : Nat) → List Setting → ParameterBatch →
    Outcome ParameterBatch
  | _, [], batch => .ok batch
  | slot, setting :: rest, batch => do
    fillSlots instances (slot + 1) rest (← fillSlot instances slot setting batch)

/-- The parameters of a batch: the settings, and defaults for what they leave open. -/
def batchOf (p : TuningProblem) (settings : List Setting) : Outcome ParameterBatch :=
  fillSlots p.config.instances 0 settings p.defaults

/-- The metric has one entry for each instance. -/
def checkMetric (p : TuningProblem) (metric : Tensor) : Outcome Unit :=
  if metric.shape.head? = some p.config.instances then .ok ()
  else shapeMismatch "tuning metric" [p.config.instances] metric.shape

/-- The trials of a batch, running. -/
def trialsOf (t : Tuner σ) (settings : List Setting) : List Trial :=
  settings.mapIdx fun slot parameters =>
    Trial.markRunning ⟨⟨t.batches, slot⟩, t.trials.length + slot, parameters, .pending, none, none,
      false⟩

/-- The numbers of a metric after the first one, with names. -/
def furtherMetrics (row : List Float) : Table Float :=
  .ofList (row.tail.mapIdx fun j x => (s!"metric_{j + 1}", x))

/-- A trial with its part of the metric: it is completed if the objective is finite, else it
failed. -/
def record (t : Tuner σ) (trial : Trial) (row : List Float) : Tuner σ × Trial :=
  let objective := row.headD (0 / 0)
  if objective.isFinite then
    let result : TrialResult := ⟨trial.id, objective, furtherMetrics row, trial.parameters⟩
    let run := t.run.updateBest result
    ({ t with
        memory := t.strategy.report trial.parameters objective t.memory
        run := { run with completed := run.completed + 1 } },
      trial.markCompleted result)
  else
    ({ t with run := { t.run with failed := t.run.failed + 1 } },
      trial.markFailed s!"objective {Decimal.plain.write objective} is not finite")

/-- Trials with their parts of the metric, one after another. -/
def recordAll (t : Tuner σ) : List (Trial × List Float) → Tuner σ × List Trial
  | [] => (t, [])
  | (trial, row) :: rest =>
    let (t, trial) := t.record trial row
    let (t, trials) := t.recordAll rest
    (t, trial :: trials)

/-- All trials of a batch failed for one reason. -/
def recordFailure (t : Tuner σ) (trials : List Trial) (error : String) : Tuner σ :=
  { t with
    run := { t.run with failed := t.run.failed + trials.length }
    trials := t.trials ++ trials.map fun trial => trial.markFailed error }

/-- The trials of a batch with its metric. -/
def recordMetric (t : Tuner σ) (trials : List Trial) (metric : Tensor) : Tuner σ × Outcome Unit :=
  let rows := metric.rows.map Tensor.data
  let (t, done) := t.recordAll (trials.zip rows)
  if trials.length ≤ rows.length then ({ t with trials := t.trials ++ done }, .ok ())
  else (t, .error (.abort .missingRow))

/-- Evaluates settings as one batch and records their trials. If the evaluation is cut short, no
trial is recorded. -/
def evaluate (t : Tuner σ) (settings : List Setting) : Tuner σ × Traced Unit :=
  match batchOf t.problem settings with
  | .error e => (t, .fail e)
  | .ok batch =>
    let trials := t.trialsOf settings
    let (metric, problem) := t.problem.evaluateBatch batch
    let t := { t with problem, batches := t.batches + 1 }
    let checked : Outcome Tensor := do
      let metric ← metric.outcome
      checkMetric problem metric
      return metric
    match checked with
    | .ok metric' =>
      let (t, outcome) := t.recordMetric trials metric'
      (t, ⟨metric.notes, outcome⟩)
    | .error (.abort a) => (t, ⟨metric.notes, .error (.abort a)⟩)
    | .error e => (t.recordFailure trials e.message, ⟨metric.notes, .error e⟩)

/-- The tuner with its run at its end. -/
def complete (t : Tuner σ) : Tuner σ := { t with run := t.run.markCompleted }

/-- How many trials may still be made. -/
def remaining (t : Tuner σ) : Nat := t.run.config.maxTrials - t.trials.length

/-- Batches until no trial remains or the strategy has no more settings, at most the given count.
Each batch makes a trial, so that `remaining` of them are always enough. -/
def runBatches : (rounds : Nat) → Tuner σ → Tuner σ × Traced Unit
  | 0, t => (t.complete, .pure ())
  | rounds + 1, t =>
    if t.remaining = 0 then (t.complete, .pure ())
    else match t.strategy.suggest (min t.remaining t.problem.config.instances) t.memory with
      | .error a => (t, .fail (.abort a))
      | .ok ([], memory) => (complete { t with memory }, .pure ())
      | .ok (settings, memory) =>
        let (t, batch) := evaluate { t with memory } settings
        match batch.outcome with
        | .ok () =>
          let (t, rest) := runBatches rounds t
          (t, ⟨batch.notes ++ rest.notes, rest.outcome⟩)
        | .error (.abort a) => (t, ⟨batch.notes, .error (.abort a)⟩)
        | .error e => ({ t with run := t.run.markFailed e.message }, ⟨batch.notes, .error e⟩)

/-- Runs until all trials were made or the strategy has no more settings. -/
def start (t : Tuner σ) : Tuner σ × Traced Unit :=
  let t := { t with run := t.run.markRunning }
  runBatches t.remaining t

/-- The number of the trial with the best result, if it was recorded. -/
def bestNumber (t : Tuner σ) : Option Nat := do
  let best ← t.run.best
  (t.trials.find? fun trial => trial.id = best.trial).map Trial.number

end Tuner

end Lockstep
