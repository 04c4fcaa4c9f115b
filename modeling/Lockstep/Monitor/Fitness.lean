import Lockstep.Component.Roles
import Lockstep.Table
import Lockstep.Tensor.Matrix

/-!
# The fitness monitor and the quality of sets

The inverted generational distance of a set of objective vectors is the mean distance from the
points of a reference front to the nearest vector of the set. Lower is better, and nothing is
infinitely far from every front.

The fitness monitor keeps the lowest fitness seen just before the algorithm learns it. Several
objectives are reduced to one number by a reference front, after the rows that are not finite were
dropped.
-/

namespace Lockstep

/-- All numbers of a row are finite. -/
def isFiniteRow (row : List Float) : Bool := row.all Float.isFinite

/-- The rows whose numbers are all finite. -/
def Matrix.finiteRows (m : Matrix) : Matrix :=
  ⟨m.cols, m.rows.filter isFiniteRow, fun r hr => m.full r (List.mem_filter.1 hr).1⟩

/-- The positive infinity. -/
def infinity : Float := 1 / 0

/-- The smaller of two numbers, the first one if they are equal or the second is not a number. -/
def smaller (x y : Float) : Float := if y < x then y else x

/-- The smallest number of a list that is not above a start; what is not a number does not count. -/
def smallest (xs : List Float) : Float := xs.foldl smaller infinity

/-- A reference front: at least one point, with at least one objective, all finite. -/
structure Front where
  points : Matrix

namespace Front

/-- The front that a tensor holds. -/
def new (t : Tensor) : Outcome Front := do
  let m ← t.asMatrix "reference front"
  if m.rows.isEmpty || m.cols = 0 then .error (.validation .emptyFront)
  else if m.rows.all isFiniteRow then return ⟨m⟩
  else .error (.validation .nonFiniteFront)

/-- The distance of two points. -/
def distance (r s : List Float) : Float :=
  (List.zipWith (fun r s => (r - s) * (r - s)) r s).foldl (· + ·) 0 |>.sqrt

/-- The mean distance from the points of the front to the nearest objective vector. -/
def invertedDistance (front : Front) (objectives : Matrix) : Outcome Float :=
  if objectives.cols ≠ front.points.cols then
    shapeMismatch "igd objectives" [objectives.rows.length, front.points.cols]
      [objectives.rows.length, objectives.cols]
  else if objectives.rows.isEmpty then .ok infinity
  else
    let nearest (r : List Float) := smallest (objectives.rows.map (distance r))
    let total := (front.points.rows.map nearest).foldl (· + ·) 0
    .ok (total / (UInt64.ofNat front.points.rows.length).toFloat)

end Front

namespace FitnessMonitor

/-- The lowest fitness so far in a local state. -/
def best (l : LocalState) : Outcome Float := l.number "best"

/-- A fitness as one number: the lowest one, or the distance of its finite rows to the front. -/
def reduce (front : Option Front) (node : NodeContext) (fitness : Tensor) : Outcome Float :=
  if fitness.rank = 1 then .ok (smallest (fitness.data.filter fun x => !x.isNaN))
  else match front with
    | none => .error (.workflow (.component node.displayPath
        "multi-objective fitness needs an indicator"))
    | some front => do front.invertedDistance (← fitness.asMatrix "fitness").finiteRows

/-- The local state after a fitness, if it is lower than all before. -/
def record (front : Option Front) (node : NodeContext) (l : LocalState) (fitness : Tensor) :
    Outcome (Option LocalState) := do
  let value ← reduce front node fitness
  if value < (← best l) then return some (l.setNumber "best" value) else return none

end FitnessMonitor

/-- A monitor of the lowest fitness. -/
def Monitor.fitness (front : Option Front) : Monitor where
  component := {
    schema := [.mutable "best"]
    init := fun _ _ => .ok (LocalState.setNumber [] "best" infinity)
    children := [] }
  hooks := .ofList [.preTell]
  observe ctx l call := match call with
    | .preTell fitness => .ofOutcome (FitnessMonitor.record front ctx.node l fitness)
    | _ => pure none
  providesMetric := true
  metric l := do return some (← l.tensor "best")

end Lockstep
