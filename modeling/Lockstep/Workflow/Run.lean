import Lockstep.Control
import Lockstep.Workflow.Step

/-!
# Running a workflow

A run is a count of steps, or steps as long as a predicate holds. On a batched state the predicate
is asked lane by lane, and lanes on which it does not hold stay as they are. `metric` reads the
metric of a monitor, one for each lane.
-/

namespace Lockstep

/-- The numbers of a tensor in another shape of the same size. -/
def Tensor.reshape (t : Tensor) (shape : List Nat) : Outcome Tensor :=
  if h : t.data.length = volume shape then .ok ⟨shape, t.data, h⟩ else .error (.shape .tooMany)

namespace Workflow

/-- A count of consecutive steps. -/
def run (w : Workflow) : (steps : Nat) → State → Traced State
  | 0, s => pure s
  | steps + 1, s => do run w steps (← w.step s)

/-- Steps of an unbatched state as long as the predicate holds. -/
def runUnbatched (w : Workflow) (pred : State → Outcome Bool) : (steps : Nat) → State → Traced State
  | 0, s => pure s
  | steps + 1, s => do
    if ← pred s then runUnbatched w pred steps (← w.step s) else return s

/-- Steps of a batched state as long as the predicate holds on a lane. -/
def runBatched (w : Workflow) (pred : State → Outcome Bool) : (steps : Nat) → State → Traced State
  | 0, s => pure s
  | steps + 1, s => do
    let lanes ← s.flatten
    let mask ← (lanes.mapM pred : Outcome (List Bool))
    if mask.any id then
      let advanced ← w.step s
      let next ← State.select mask advanced s
      let placed ← w.place next
      runBatched w pred steps placed
    else return s

/-- Steps as long as the predicate holds, at most the given count. -/
def runWhile (w : Workflow) (pred : State → Outcome Bool) (steps : Nat) (s : State) :
    Traced State :=
  if s.isBatched then do
    let s ← w.place s
    runBatched w pred steps s
  else runUnbatched w pred steps s

/-- The metric of a monitor in an unbatched state. -/
def laneMetric (slot : MonitorSlot) (s : State) : Outcome Tensor := do
  let l ← s.resolve slot.node.path
  match ← slot.monitor.metric l with
  | some t => return t
  | none => .error (.workflow (.noMetric slot.node.displayPath))

/-- The metric of a monitor; in a batched state one for each lane, along the batch axes. -/
def metric (w : Workflow) (s : State) (name : String) : Outcome Tensor :=
  match w.monitors.find? fun slot => slot.name = name with
  | none => .error (.workflow (.missingMonitor name))
  | some slot =>
    if s.isBatched then do
      let lanes ← s.flatten
      let values ← lanes.mapM (laneMetric slot)
      let stacked ← Tensor.stack values
      stacked.reshape (s.batchDims ++ stacked.shape.tail)
    else laneMetric slot s

end Workflow

end Lockstep
