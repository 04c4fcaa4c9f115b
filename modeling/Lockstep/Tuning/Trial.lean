import Lockstep.Text.Forms
import Lockstep.Tuning.Strategy

/-!
# Trials and tuning runs

A trial is one setting evaluated in one slot of a batch. A tuning run counts its trials and keeps
the best result: the first one that no other strictly improves on.
-/

namespace Lockstep

open Json.Read (Reader)

/-- Whether high or low objectives are good. -/
inductive Direction where
  | maximize
  | minimize
deriving DecidableEq

namespace Direction

/-- Objectives are minimized if nothing else is said. -/
instance : Inhabited Direction := ⟨.minimize⟩

/-- The candidate is strictly better than the incumbent. -/
def improves : Direction → (candidate incumbent : Float) → Bool
  | .maximize, candidate, incumbent => incumbent < candidate
  | .minimize, candidate, incumbent => candidate < incumbent

def name : Direction → String
  | .maximize => "Maximize"
  | .minimize => "Minimize"

def reader : Reader Direction :=
  Json.Read.bareTag [("Maximize", .maximize), ("Minimize", .minimize)]

end Direction

/-- The settings of a tuning run. -/
structure TunerConfig where
  name : String
  space : SearchSpace
  strategy : StrategyKind
  /-- the greatest count of settings to evaluate -/
  maxTrials : Nat := 100
  direction : Direction := default
  /-- the count of steps of continuous parameters in grid search -/
  gridSteps : Nat := 5
  /-- the seed of random search -/
  seed : UInt64 := 0

namespace TunerConfig

/-- Some trials may be made, and the search space is valid. -/
def validate (c : TunerConfig) : Outcome Unit :=
  if c.maxTrials = 0 then .error (.config (.noTrials c.name)) else c.space.validate

def strategyReader : Reader StrategyKind :=
  Json.Read.bareTag [("grid", .grid), ("random", .random)]

/-- Reads an identifier. -/
def idReader : Reader Text.Uuid := fun depth j => do
  Text.Uuid.ofText? (← Json.Read.string depth j)

/-- Reads a point in time, of which only the form matters. -/
def timeReader : Reader Unit := fun depth j => do
  if Text.Timestamp.isTimestamp (← Json.Read.string depth j) then some () else none

/-- Reads a stored configuration with its identifier, without checking it. -/
def reader : Reader (Text.Uuid × TunerConfig) := fun depth j => do
  match ← Json.Read.fields ["id", "name", "search_space", "strategy", "max_trials", "direction",
      "grid_steps", "seed", "created_at"] depth j with
  | [id, name, space, strategy, maxTrials, direction, gridSteps, seed, createdAt] =>
    Json.Read.required timeReader depth createdAt
    return (← Json.Read.required idReader depth id, {
      name := ← Json.Read.required Json.Read.string depth name
      space := ← Json.Read.required SearchSpace.reader depth space
      strategy := ← Json.Read.required strategyReader depth strategy
      maxTrials := ← Json.Read.required Json.Read.nat depth maxTrials
      direction := ← Json.Read.required Direction.reader depth direction
      gridSteps := ← Json.Read.required Json.Read.nat depth gridSteps
      seed := ← Json.Read.required Json.Read.word depth seed })
  | _ => none

/-- The valid configuration that a text holds, with its identifier. -/
def ofText (text : String) : Outcome (Text.Uuid × TunerConfig) := do
  let (id, c) ← Json.readText reader text
  c.validate
  return (id, c)

end TunerConfig

/-- The stages of trials and of tuning runs. -/
inductive Stage where
  | pending
  | running
  | completed
  | failed
deriving DecidableEq

def Stage.name : Stage → String
  | .pending => "Pending"
  | .running => "Running"
  | .completed => "Completed"
  | .failed => "Failed"

/-- What tells the trials of a tuner apart: the batch and the slot in it. -/
structure TrialId where
  batch : Nat
  slot : Nat
deriving DecidableEq

/-- What a trial found out. -/
structure TrialResult where
  trial : TrialId
  objective : Float
  /-- what else the metric says about the instance -/
  metrics : Table Float
  parameters : Setting
deriving DecidableEq

/-- A setting in a slot of a batch. -/
structure Trial where
  id : TrialId
  number : Nat
  parameters : Setting
  stage : Stage := .pending
  result : Option TrialResult := none
  error : Option String := none
  /-- whether an end of the trial was noted -/
  finished : Bool := false

namespace Trial

def markRunning (t : Trial) : Trial := { t with stage := .running }

def markCompleted (t : Trial) (result : TrialResult) : Trial :=
  { t with stage := .completed, result := some result, finished := true }

def markFailed (t : Trial) (error : String) : Trial :=
  { t with stage := .failed, error := some error, finished := true }

end Trial

/-- The record of a tuning run. -/
structure TuningRun where
  config : TunerConfig
  stage : Stage := .pending
  /-- the count of completed trials -/
  completed : Nat := 0
  /-- the count of failed trials -/
  failed : Nat := 0
  best : Option TrialResult := none
  started : Bool := false
  /-- whether an end of the run was noted -/
  finished : Bool := false
  /-- the text of the latest failure -/
  error : Option String := none

namespace TuningRun

def markRunning (r : TuningRun) : TuningRun := { r with stage := .running, started := true }

def markCompleted (r : TuningRun) : TuningRun := { r with stage := .completed, finished := true }

def markFailed (r : TuningRun) (error : String) : TuningRun :=
  { r with stage := .failed, finished := true, error := some error }

/-- A result takes the place of the best one if there is none yet or it is strictly better; one that
is not a number never does. -/
def updateBest (r : TuningRun) (result : TrialResult) : TuningRun :=
  if result.objective.isNaN then r
  else match r.best with
    | none => { r with best := some result }
    | some best =>
      if r.config.direction.improves result.objective best.objective then
        { r with best := some result }
      else r

end TuningRun

end Lockstep
