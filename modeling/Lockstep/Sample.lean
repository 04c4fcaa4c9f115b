import Lockstep.Component.Roles
import Lockstep.Component.Tree
import Lockstep.Control
import Lockstep.Tensor.Matrix
import Lockstep.Tuning.Strategy

/-!
# Components and callers for trials

Simple components that count their calls, add noise on request and fail at chosen places: an
algorithm with fixed candidates, components with drawn or given values, problems with simple
fitness, a monitor that writes everything down and transforms of candidates. Beside them stand a
strategy with given batches, and conditions, loop bodies and branches that count their calls.
-/

namespace Lockstep.Sample

open Lockstep.Random

/-! ## An algorithm with fixed candidates

Asks for the same candidates every time, on request with noise added. Its parameters have no
effect. -/

/-- The settings of the algorithm. -/
structure Asking where
  candidates : Candidates
  popSize : Option Nat := none
  /-- whether a draw is added to every number of dense candidates -/
  noise : Bool := false
  /-- the text with which asking fails -/
  failAsk : Option String := none
  /-- the text with which telling fails -/
  failTell : Option String := none
  parameters : Table Tensor := []

/-- The failure of a component with a text, if there is one. -/
def failWith (node : NodeContext) : Option String → Outcome Unit
  | some text => .error (.workflow (.component node.displayPath text))
  | none => .ok ()

/-- The local state with a count that is one higher. -/
def countCall (l : LocalState) (name : String) : Outcome LocalState := do
  return l.setNumber name ((← l.number name) + 1)

/-- Numbers with a draw added to each. -/
def addDraws : List Float → Generator → List Float
  | [], _ => []
  | x :: xs, g =>
    let (u, g) := g.nextUnit
    (x + u) :: addDraws xs g

theorem length_addDraws : ∀ (xs : List Float) (g : Generator), (addDraws xs g).length = xs.length
  | [], _ => rfl
  | x :: xs, g => by rw [addDraws, List.length_cons, List.length_cons, length_addDraws]

/-- Dense candidates with noise. -/
def noisy (g : Generator) : Candidates → Candidates
  | .dense t => .dense ⟨t.shape, addDraws t.data g, by rw [length_addDraws, t.fills]⟩
  | .named fields => .named fields

namespace Asking

def schema (a : Asking) : Schema :=
  .mutable "asks" :: .mutable "tells" :: a.parameters.map fun p => .parameter p.1 p.2

/-- The algorithm. -/
def algorithm (a : Asking) : Algorithm where
  component := {
    schema := a.schema
    init := fun _ _ => .ok ((LocalState.setNumber [] "asks" 0).setNumber "tells" 0)
    children := [] }
  ask ctx l := do
    failWith ctx.node a.failAsk
    let l ← countCall l "asks"
    return (if a.noise then noisy ctx.random a.candidates else a.candidates, l)
  tell ctx l _ := do
    failWith ctx.node a.failTell
    countCall l "tells"
  popSize := a.popSize

end Asking

/-! ## Components with drawn or given values

The initial values are given tensors or vectors of draws, and making them may fail instead. -/

/-- An initial value. -/
inductive Initial where
  | given (t : Tensor)
  /-- a vector of draws between two bounds -/
  | drawn (count : Nat) (low high : Float)

/-- The initial values put into a local state, in order. -/
def initialValues : List (String × Initial) → LocalState → Generator → LocalState
  | [], l, _ => l
  | (name, .given t) :: rest, l, g => initialValues rest (l.setTensor name t) g
  | (name, .drawn count low high) :: rest, l, g =>
    let (us, g) := Generator.draws Generator.nextUnit count g
    let values := us.map fun u => low + (high - low) * u
    initialValues rest (l.setTensor name (.vector values)) g

/-- A component that starts with the given values, or fails with a text. -/
def drawing (schema : Schema) (values : List (String × Initial)) (failure : Option String)
    (children : List (String × Component)) : Component where
  schema
  init node g := match failure with
    | some text => .error (.validation (.custom s!"init of {node.displayPath} failed: {text}"))
    | none => .ok (initialValues values [] g)
  children

/-! ## Problems with simple fitness

Problems that count their evaluations: a fixed fitness, squared distances of rows from shifted
origins, sums of squares over named fields, and one that always fails. -/

/-- A problem with a count of evaluations. -/
def evaluating (spec : InputSpec)
    (fitness : StepContext → Candidates → Outcome Tensor) : Problem where
  component := {
    schema := [.mutable "evals"]
    init := fun _ _ => .ok (LocalState.setNumber [] "evals" 0)
    children := [] }
  spec
  evaluate ctx l candidates := do
    let t ← fitness ctx candidates
    return (t, ← countCall l "evals")

/-- A fitness that is always the same. -/
def fixed (fitness : Tensor) (spec : InputSpec) : Problem :=
  evaluating spec fun _ _ => .ok fitness

/-- A problem that fails with a text. -/
def failing (text : String) : Problem :=
  evaluating .any fun ctx _ => .error (.workflow (.component ctx.node.displayPath text))

/-- How rows are evaluated. -/
structure Rows where
  /-- the coordinates of the origins, one objective for each -/
  shifts : List Float
  /-- whether all objectives form one vector -/
  flat : Bool := false
  /-- the first coordinate below which fitness is not a number -/
  nanBelow : Option Float := none
  /-- whether a draw is added to every objective -/
  noise : Bool := false

namespace Rows

/-- The first number of a row is below the limit. -/
def isBlind (r : Rows) (row : List Float) : Bool :=
  match r.nanBelow, row with
  | some limit, x :: _ => x < limit
  | _, _ => false

/-- The objectives of a row. -/
def objectives (r : Rows) (row : List Float) : List Float → Generator → List Float × Generator
  | [], g => ([], g)
  | s :: shifts, g =>
    let distance := row.foldl (fun sum a => sum + (a - s) * (a - s)) 0
    let (distance, g) := if r.noise then
        let (u, g) := g.nextUnit
        (distance + u, g)
      else (distance, g)
    let (rest, g) := r.objectives row shifts g
    ((if r.isBlind row then 0 / 0 else distance) :: rest, g)

/-- The objectives of all rows, row by row. -/
def allObjectives (r : Rows) : List (List Float) → Generator → List (List Float)
  | [], _ => []
  | row :: rest, g =>
    let (values, g) := r.objectives row r.shifts g
    values :: r.allObjectives rest g

/-- Squared distances of the rows from the shifted origins. -/
def problem (r : Rows) : Problem :=
  evaluating .any fun ctx candidates => do
    let m ← (← candidates.asDense).asMatrix "candidates"
    let values := (r.allObjectives m.rows ctx.random).flatten
    if r.flat then return .vector values
    else Tensor.matrix m.rows.length r.shifts.length values

end Rows

/-- For every candidate the sum of the squares of its numbers in all fields. -/
def fieldSums (fields : Table Tensor) (count : Nat) : List Float :=
  fields.foldl (fun sums field =>
    List.zipWith (fun sum part => part.data.foldl (fun sum v => sum + v * v) sum) sums
      field.2.rows) (List.replicate count 0)

/-- Sums of squares over named fields. -/
def namedSum (spec : InputSpec) : Problem :=
  evaluating spec fun _ candidates => do
    let fields ← candidates.asNamed
    return .vector (fieldSums fields (← candidates.size))

/-! ## A monitor that writes everything down

Notes a line for every call at its hooks and counts them. It can be told to fail at a hook, and to
offer a metric made from its count. -/

/-- The settings of the monitor. -/
structure Recording where
  hooks : List Hook
  failAt : Option Hook := none
  metric : Bool := false

namespace Recording

/-- A batch of candidates in a line. -/
def describe (c : Candidates) : Outcome String := do
  let size ← c.size
  return s!" {c.kind.name} {size}"

/-- What a line says about the call itself. -/
def extra (ctx : HookContext) : HookCall → Outcome String
  | .postAsk c | .preEval c => describe c
  | .postEval c fitness => do return (← describe c) ++ s!" {Text.axes fitness.shape}"
  | .preTell fitness => .ok s!" {Text.axes fitness.shape}"
  | .postTell => do
    let generation ← (← ctx.state.leaf "generation").scalarValue
    return s!" s{Decimal.plain.write generation}"
  | .setup | .preAsk => .ok ""

/-- The local state after a call, which is noted. -/
def observe (r : Recording) (ctx : HookContext) (l : LocalState) (call : HookCall) :
    Traced (Option LocalState) := do
  if r.failAt = some call.hook then
    Traced.fail (.validation (.custom s!"recorder failed at {call.hook.name}, lane {ctx.lane}"))
  let more ← extra ctx call
  .note (.line (s!"{ctx.node.displayPath}:{call.hook.name} g{ctx.generation} l{ctx.lane}" ++ more))
  return some (← countCall l "count")

/-- The monitor. -/
def monitor (r : Recording) : Monitor where
  component := {
    schema := [.mutable "count"]
    init := fun _ _ => .ok (LocalState.setNumber [] "count" 0)
    children := [] }
  hooks := .ofList r.hooks
  observe := r.observe
  providesMetric := r.metric
  metric l := do
    if r.metric then
      let count ← l.number "count"
      return some (.vector [count, 2 * count, -count])
    else return none

end Recording

/-! ## Transforms of candidates -/

/-- Dense candidates as the one field of a named batch. -/
def toNamed (field : String) : SolutionTransform := fun candidates => do
  return .named [(field, ← candidates.asDense)]

/-- A tensor without its last row. -/
def dropLastRow (t : Tensor) : Tensor :=
  match t with
  | ⟨[], data, h⟩ => ⟨[], data, h⟩
  | ⟨count :: inner, data, h⟩ =>
    ⟨(count - 1) :: inner, data.take ((count - 1) * volume inner), by
      rw [List.length_take, h, volume_cons, volume_cons]
      exact Nat.min_eq_left (Nat.mul_le_mul_right _ (Nat.sub_le ..))⟩

/-- Dense candidates without the last one. -/
def truncate : SolutionTransform := fun candidates => do
  return .dense (dropLastRow (← candidates.asDense))

/-- Dense candidates with every number multiplied. -/
def scale (factor : Float) : SolutionTransform := fun candidates => do
  return .dense ((← candidates.asDense).map (· * factor))

/-! ## A strategy with given batches

Hands out one batch after another, whatever count is asked for, and lists its calls. -/

/-- A call of a strategy. -/
inductive StrategyCall where
  | suggest (asked given : Nat)
  | report (parameters : Setting) (objective : Float)

/-- The batches that are left and the calls so far, the latest one first. -/
structure Handout where
  batches : List (List Setting)
  calls : List StrategyCall := []

/-- The next batch, or none at all. -/
def Handout.suggest (asked : Nat) (h : Handout) : Except Abort (List Setting × Handout) :=
  let batch := h.batches.headD []
  .ok (batch, ⟨h.batches.tail, .suggest asked batch.length :: h.calls⟩)

/-- The strategy. -/
def handout : Strategy Handout where
  suggest := Handout.suggest
  report parameters objective h := { h with calls := .report parameters objective :: h.calls }

/-! ## Loops and branches that count their calls

On integers of 64 bits. Calls are counted also when a loop fails in the end. -/

/-- The count of calls of the first and of the second function. -/
structure Calls where
  first : Nat := 0
  second : Nat := 0

/-- Computations that count calls. -/
abbrev Counting := ExceptT Error (StateM Calls)

def countFirst : Counting Unit := modify fun c => { c with first := c.first + 1 }

def countSecond : Counting Unit := modify fun c => { c with second := c.second + 1 }

/-- A failure when a number is the chosen one. -/
def failAt (chosen : Option Int64) (what : String) (x : Int64) : Counting Unit :=
  if chosen = some x then throw (.validation (.custom s!"{what} stopped at {x.toInt}")) else pure ()

/-- Whether a number is below a limit. -/
def below (limit : Int64) (chosen : Option Int64) (x : Int64) : Counting Bool := do
  countFirst
  failAt chosen "cond" x
  return x < limit

/-- A number with a step added. -/
def plus (step : Int64) (chosen : Option Int64) (x : Int64) : Counting Int64 := do
  countSecond
  failAt chosen "body" x
  return x + step

/-- Ten times a number. -/
def tenfold (chosen : Option Int64) (x : Int64) : Counting Int64 := do
  countFirst
  failAt chosen "true" x
  return x * 10

/-- A number with the other sign. -/
def negated (chosen : Option Int64) (x : Int64) : Counting Int64 := do
  countSecond
  failAt chosen "false" x
  return -x

end Lockstep.Sample
