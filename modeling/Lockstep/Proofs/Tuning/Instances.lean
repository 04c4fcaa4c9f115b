import Lockstep.Proofs.State.Leaf
import Lockstep.Proofs.Workflow.Instances
import Lockstep.Proofs.Workflow.Metric
import Lockstep.Proofs.Workflow.Monitors
import Lockstep.Tuning.Problem

/-!
# Instances of a tuning problem are independent

An evaluation of a batch of settings does to each instance what `TuningProblem.runInstance` does to
it alone, with its rows of the parameters (`runFrom_instances`). So neither the values supplied for
other instances nor their number have an influence on it (`runFrom_independent`).
-/

namespace Lockstep

namespace TuningProblem

open Workflow (echoAlgorithm echoEvaluation echoMonitor)

/-- The rows of one instance in a batch of parameters. -/
def rowsAt (j : Nat) (batch : ParameterBatch) : ParameterBatch :=
  Table.mapValues (State.row j) batch

/-- The metric of the instance with a number, and its state after the steps, on its own. -/
def runInstance (p : TuningProblem) (number : Nat) (start : State) (parameters : ParameterBatch) :
    Outcome (Tensor × State) := do
  let s ← overwrite start parameters
  let s ← p.workflow.instanceRun number p.config.iterations s
  let metric ← p.workflow.metric s p.metricMonitor
  return (metric, s)

/-! ## Writing parameters -/

theorem overwrite_cons_eq_ok_iff {s t : State} {e : String × Tensor} {rest : ParameterBatch} :
    overwrite s (e :: rest) = .ok t ↔
      ∃ u, s.withLeaf e.1 e.2 = .ok u ∧ overwrite u rest = .ok t := by
  obtain ⟨path, t⟩ := e
  rw [overwrite, Outcome.bind_eq_ok_iff]

theorem ordered_of_overwrite :
    ∀ {batch : ParameterBatch} {s t : State}, s.Ordered → overwrite s batch = .ok t → t.Ordered
  | [], s, t, hs, h => by
    obtain rfl := Except.ok.inj h
    exact hs
  | e :: rest, s, t, hs, h => by
    obtain ⟨u, hu, h⟩ := overwrite_cons_eq_ok_iff.1 h
    exact ordered_of_overwrite (hs.withLeaf hu) h

theorem batchDims_of_overwrite :
    ∀ {batch : ParameterBatch} {s t : State}, overwrite s batch = .ok t →
      t.batchDims = s.batchDims
  | [], s, t, h => by
    obtain rfl := Except.ok.inj h
    rfl
  | e :: rest, s, t, h => by
    obtain ⟨u, hu, h⟩ := overwrite_cons_eq_ok_iff.1 h
    obtain ⟨-, -, l, -, rfl⟩ := State.withLeaf_eq_ok_iff.1 hu
    rw [batchDims_of_overwrite h]
    rfl

/-- Parameters written into a batch that can then be taken apart have its outermost axis: the last
one that was written shows it, and all of them have the same. -/
theorem count_of_overwrite {count n : Nat} :
    ∀ {batch : ParameterBatch} {s t : State}, batch ≠ [] →
      (∀ e ∈ batch, ∃ inner, e.2.shape = n :: inner) → overwrite s batch = .ok t →
        t.HasParts count → n = count
  | [], _, _, hne, _, _, _ => absurd rfl hne
  | [e], s, t, _, hshape, h, ht => by
    obtain ⟨u, hu, h⟩ := overwrite_cons_eq_ok_iff.1 h
    obtain rfl := Except.ok.inj h
    obtain ⟨inner, hinner⟩ := hshape e List.mem_cons_self
    obtain ⟨inner', hinner'⟩ := State.shape_of_withLeaf hu ht
    rw [hinner] at hinner'
    exact (List.cons.inj hinner').1
  | e :: e' :: rest, s, t, _, hshape, h, ht => by
    obtain ⟨u, -, h⟩ := overwrite_cons_eq_ok_iff.1 h
    exact count_of_overwrite (List.cons_ne_nil _ _)
      (fun e₁ he₁ => hshape e₁ (List.mem_cons_of_mem _ he₁)) h ht

/-- Writing a batch of parameters writes the rows of each instance into it. -/
theorem overwrite_part (j : Nat) :
    ∀ {batch : ParameterBatch} {s t : State}, overwrite s batch = .ok t →
      overwrite (s.part j) (rowsAt j batch) = .ok (t.part j)
  | [], s, t, h => by
    obtain rfl := Except.ok.inj h
    rfl
  | e :: rest, s, t, h => by
    obtain ⟨u, hu, h⟩ := overwrite_cons_eq_ok_iff.1 h
    exact overwrite_cons_eq_ok_iff.2 ⟨u.part j, State.withLeaf_part hu j, overwrite_part j h⟩

/-! ## Evaluating -/

/-- Parameters that were checked are there once for each instance. -/
theorem shape_of_check {p : TuningProblem} {batch : ParameterBatch} (h : p.check batch = .ok ()) :
    ∀ e ∈ batch, ∃ inner, e.2.shape = p.config.instances :: inner := by
  intro e he
  have hcheck : p.checkParameter e.1 e.2 = .ok () := Outcome.forM_eq_ok_iff.1 h e he
  rw [checkParameter] at hcheck
  split at hcheck
  · cases hcheck
  · split at hcheck
    · cases hcheck
    · next n inner hshape =>
      split at hcheck
      · cases hcheck
      · next hcount =>
        rw [hshape, not_not.1 hcount]
        exact ⟨inner, rfl⟩

theorem runFrom_eq_ok {p : TuningProblem} {start last : State} {batch : ParameterBatch}
    {metric : Tensor} (h : (p.runFrom start batch).outcome = .ok (metric, last)) :
    p.check batch = .ok () ∧ ∃ s, overwrite start batch = .ok s ∧
      (p.workflow.run p.config.iterations s).outcome = .ok last ∧
      p.workflow.metric last p.metricMonitor = .ok metric := by
  simp only [runFrom, Traced.outcome_bind, Traced.outcome_liftM, Traced.outcome_pure] at h
  obtain ⟨⟨⟩, hcheck, h⟩ := Outcome.bind_eq_ok_iff.1 h
  obtain ⟨s, hs, h⟩ := Outcome.bind_eq_ok_iff.1 h
  obtain ⟨last', hlast, h⟩ := Outcome.bind_eq_ok_iff.1 h
  obtain ⟨metric', hmetric, h⟩ := Outcome.bind_eq_ok_iff.1 h
  obtain ⟨rfl, rfl⟩ := Prod.mk.inj (Except.ok.inj h)
  exact ⟨hcheck, s, hs, hlast, hmetric⟩

/-- A batch on which a run and its metric succeed can be taken apart. -/
theorem exists_unstack_of_run {w : Workflow} {steps : Nat} {s t : State} {name : String}
    {metric : Tensor} (hdims : s.batchDims ≠ []) (ht : (w.run steps s).outcome = .ok t)
    (hmetric : w.metric t name = .ok metric) : ∃ xs, s.unstack = .ok xs := by
  cases steps with
  | zero =>
    obtain rfl := Except.ok.inj ht
    obtain ⟨-, -, ls, hls, -⟩ := Workflow.metric_eq_ok_iff.1 hmetric
    exact State.exists_unstack_of_flatten hls hdims
  | succ steps =>
    rw [Workflow.run, Traced.outcome_bind] at ht
    obtain ⟨u, hu, -⟩ := Outcome.bind_eq_ok_iff.1 ht
    obtain ⟨ls, hls, -⟩ := Workflow.step_eq_ok hu
    exact State.exists_unstack_of_flatten hls hdims

/-- An evaluation does to each instance what it does to it alone. -/
theorem runFrom_instances {p : TuningProblem} (hp : p.workflow.KeepsOrder) {start last : State}
    (hstart : start.Ordered) {xs : List State} (hxs : start.unstack = .ok xs)
    {batch : ParameterBatch} {metric : Tensor}
    (h : (p.runFrom start batch).outcome = .ok (metric, last)) :
    ∃ ys, last.unstack = .ok ys ∧ ys.length = xs.length ∧
      (∀ e ∈ batch, ∃ inner, e.2.shape = xs.length :: inner) ∧
      ∀ (j : Nat) (x : State), xs[j]? = some x → ∃ y r, ys[j]? = some y ∧ metric.rows[j]? = some r ∧
        p.runInstance j x (rowsAt j batch) = .ok (r, y) := by
  obtain ⟨hcheck, s, hs, hlast, hmetric⟩ := runFrom_eq_ok h
  have hparts := (State.unstack_eq_ok_iff_parts.1 hxs).1
  have hdims : s.batchDims ≠ [] := by
    rw [batchDims_of_overwrite hs, State.batchDims_of_unstack hxs]
    exact List.cons_ne_nil _ _
  obtain ⟨zs, hzs⟩ := exists_unstack_of_run hdims hlast hmetric
  -- writing parameters leaves the batch axes as they are
  have hlength : zs.length = xs.length := by
    have hz := State.batchDims_of_unstack hzs
    rw [batchDims_of_overwrite hs, State.batchDims_of_unstack hxs] at hz
    exact (List.cons.inj hz).1.symm
  have hshape : ∀ e ∈ batch, ∃ inner, e.2.shape = xs.length :: inner := by
    intro e he
    -- the batch that was written could be taken apart, so the counts agree
    have hcount := count_of_overwrite (List.ne_nil_of_mem he) (shape_of_check hcheck) hs
      (State.unstack_eq_ok_iff_parts.1 hzs).1
    rw [← hlength, ← hcount]
    exact shape_of_check hcheck e he
  have hordered := ordered_of_overwrite hstart hs
  obtain ⟨ys, hys, hlength', hrun⟩ := Workflow.run_instances hp hordered hzs hlast
  refine ⟨ys, hys, hlength'.trans hlength, hshape, fun j x hx => ?_⟩
  have hlt : j < xs.length := (List.getElem?_eq_some_iff.1 hx).1
  have hlt' : j < ys.length := by omega
  obtain rfl := ((State.getElem?_of_unstack hxs).1 hx).2
  have hz : zs[j]? = some (s.part j) := (State.getElem?_of_unstack hzs).2 ⟨by omega, rfl⟩
  have hy := List.getElem?_eq_getElem hlt'
  obtain ⟨r, hr, hrow⟩ := Workflow.metric_row hmetric hys hy
  refine ⟨ys[j], r, hy, hr, ?_⟩
  -- writing, running and reading the metric, each for the instance alone
  rw [runInstance, overwrite_part j hs, Outcome.ok_bind, hrun j _ _ hz hy, Outcome.ok_bind, hrow]
  rfl

/-- Batches with equal rows of an instance that one of them has. -/
theorem rowsAt_eq_of_rows {count j : Nat} (hj : j < count) {batch batch' : ParameterBatch}
    (hrows : List.Forall₂ (fun e e' => e.1 = e'.1 ∧ e.2.rows[j]? = e'.2.rows[j]?) batch batch') :
    (∀ e ∈ batch, ∃ inner, e.2.shape = count :: inner) → rowsAt j batch = rowsAt j batch' := by
  induction hrows with
  | nil =>
    intro _
    rfl
  | @cons e e' batch batch' hentry hrest ih =>
    intro hshape
    obtain ⟨hname, hrow⟩ := hentry
    obtain ⟨⟨inner, hinner⟩, hshape⟩ := List.forall_mem_cons.1 hshape
    obtain ⟨r, hr, -⟩ := Tensor.getElem?_rows hinner hj
    have hrest' := ih hshape
    simp only [rowsAt, Table.mapValues, List.map_cons, List.cons.injEq, Prod.mk.injEq] at hrest' ⊢
    refine ⟨⟨hname, ?_⟩, hrest'⟩
    rw [State.row, State.row, ← hrow, hr, Option.getD_some, Option.getD_some]

/-- Two evaluations whose instances with one number start equal and get equal parameters give them
equal metrics and leave them equal, whatever the other instances are and however many. -/
theorem runFrom_independent {p p' : TuningProblem} (hworkflow : p'.workflow = p.workflow)
    (hiterations : p'.config.iterations = p.config.iterations)
    (hmonitor : p'.metricMonitor = p.metricMonitor) (hp : p.workflow.KeepsOrder)
    {start start' last last' : State} (hstart : start.Ordered) (hstart' : start'.Ordered)
    {xs xs' : List State} (hxs : start.unstack = .ok xs) (hxs' : start'.unstack = .ok xs')
    {j : Nat} {x : State} (hx : xs[j]? = some x) (hx' : xs'[j]? = some x)
    {batch batch' : ParameterBatch}
    (hbatch : List.Forall₂ (fun e e' => e.1 = e'.1 ∧ e.2.rows[j]? = e'.2.rows[j]?) batch batch')
    {metric metric' : Tensor} (h : (p.runFrom start batch).outcome = .ok (metric, last))
    (h' : (p'.runFrom start' batch').outcome = .ok (metric', last')) :
    ∃ r y ys ys', metric.rows[j]? = some r ∧ metric'.rows[j]? = some r ∧
      last.unstack = .ok ys ∧ last'.unstack = .ok ys' ∧ ys[j]? = some y ∧ ys'[j]? = some y := by
  obtain ⟨ys, hys, -, hshape, hrun⟩ := runFrom_instances hp hstart hxs h
  obtain ⟨ys', hys', -, -, hrun'⟩ := runFrom_instances (hworkflow ▸ hp) hstart' hxs' h'
  have hlt : j < xs.length := (List.getElem?_eq_some_iff.1 hx).1
  obtain ⟨y, r, hy, hr, hone⟩ := hrun j x hx
  obtain ⟨y', r', hy', hr', hone'⟩ := hrun' j x hx'
  -- alone, instance `j` fares the same in both problems
  have hsame : p'.runInstance j x (rowsAt j batch') = p.runInstance j x (rowsAt j batch) := by
    rw [runInstance, runInstance, hworkflow, hiterations, hmonitor,
      rowsAt_eq_of_rows hlt hbatch hshape]
  rw [hsame, hone] at hone'
  obtain ⟨rfl, rfl⟩ := Prod.mk.inj (Except.ok.inj hone')
  exact ⟨r, y, ys, ys', hr, hr', hys, hys', hy, hy'⟩

/-! ## Two instances and three -/

def echoBuild : Outcome Workflow :=
  Workflow.build echoAlgorithm echoEvaluation [(some "echo", echoMonitor)] none {}

def echoWorkflow : Workflow :=
  { echoBuild.toOption.get (by decide +kernel) with ready := true }

def echoState : State where
  nodes := [
    ("", [("generation", .tensor (.scalar 0)), ("key", .tensor (Random.Key.ofSeed 0).toTensor)]),
    ("algorithm", [("rate", .tensor (.scalar 1))]),
    ("echo", [("seen", .tensor (.vector [0]))]),
    ("problem", [])]

def echoStack (count : Nat) : Outcome State := State.stack (List.replicate count echoState)

def echoProblem (count : Nat) (h : (echoStack count).toOption.isSome = true) : TuningProblem where
  workflow := echoWorkflow
  config := { iterations := 2, instances := count }
  metricMonitor := "echo"
  shapes := [("algorithm.rate", [])]
  defaults := [("algorithm.rate", .constant [count] 1)]
  pristine := (echoStack count).toOption.get h
  instances := (echoStack count).toOption.get h

/-- Two and three instances of the workflow. -/
def twoEchoes : TuningProblem := echoProblem 2 (by decide +kernel)

def threeEchoes : TuningProblem := echoProblem 3 (by decide +kernel)

/-- The workflow has the echo as its only monitor. -/
theorem monitor_of_echoWorkflow {slot : MonitorSlot} (h : slot ∈ echoWorkflow.monitors) :
    slot.monitor = echoMonitor := by
  have hbuild : echoBuild = .ok (echoBuild.toOption.get (by decide +kernel)) := Outcome.eq_ok_get _
  obtain ⟨-, -, hslots, -⟩ := Workflow.build_eq_ok rfl hbuild
  have hmem := List.mem_map_of_mem (f := fun slot => (slot.name, slot.monitor)) h
  rw [echoWorkflow, (Workflow.placeMonitors_eq_ok hslots).1] at hmem
  exact (Prod.mk.inj (List.mem_singleton.1 hmem)).2

theorem keepsOrder_echoWorkflow : echoWorkflow.KeepsOrder where
  ask := by
    intro ctx l candidates l' hl h
    obtain ⟨rate, -, h⟩ := Outcome.bind_eq_ok_iff.1 h
    obtain ⟨-, rfl⟩ := Prod.mk.inj (Except.ok.inj h)
    exact hl
  tell := by
    intro ctx l fitness l' hl h
    obtain rfl := Except.ok.inj h
    exact hl
  evaluate := by
    intro ctx l candidates fitness l' hl h
    change (echoEvaluation.evaluate ctx l candidates).outcome = _ at h
    simp only [echoEvaluation, Traced.outcome_bind, Traced.outcome_liftM] at h
    obtain ⟨t, -, h⟩ := Outcome.bind_eq_ok_iff.1 h
    obtain ⟨-, rfl⟩ := Prod.mk.inj (Except.ok.inj h)
    exact hl
  observe := by
    intro slot ctx l call l' hslot _ _ h
    rw [monitor_of_echoWorkflow hslot] at h
    cases call with
    | preTell fitness =>
      obtain rfl := Option.some.inj (Except.ok.inj h)
      exact ⟨List.pairwise_singleton _ _, trivial, trivial⟩
    | _ => cases h

theorem ordered_echoState : echoState.Ordered := by
  refine State.ordered_iff.2 ⟨by decide, ?_⟩
  simp only [echoState, List.forall_mem_cons, List.not_mem_nil, false_imp_iff, implies_true,
    and_true]
  refine ⟨⟨by decide, trivial, trivial, trivial⟩, ⟨by decide, trivial, trivial⟩,
    ⟨by decide, trivial, trivial⟩, ⟨by decide, trivial⟩⟩

theorem unstack_echoStack {count : Nat} (h : (echoStack count).toOption.isSome = true) :
    ((echoStack count).toOption.get h).Ordered ∧
      ((echoStack count).toOption.get h).unstack = .ok (List.replicate count echoState) := by
  have hordered : ∀ x ∈ List.replicate count echoState, x.Ordered := by
    intro x hx
    rw [List.eq_of_mem_replicate hx]
    exact ordered_echoState
  have hstack : State.stack (List.replicate count echoState) =
      .ok ((echoStack count).toOption.get h) := Outcome.eq_ok_get h
  exact ⟨State.Ordered.stack hstack hordered, State.unstack_stack hordered hstack⟩

theorem rows_vector_zero (x : Float) (xs : List Float) :
    (Tensor.vector (x :: xs)).rows[0]? = some (.scalar x) := rfl

theorem runFrom_independent_echo :
    ∃ r metric metric' last last',
      (twoEchoes.runFrom twoEchoes.pristine [("algorithm.rate", .vector [3, 5])]).outcome =
        .ok (metric, last) ∧
      (threeEchoes.runFrom threeEchoes.pristine [("algorithm.rate", .vector [3, 7, 9])]).outcome =
        .ok (metric', last') ∧ metric.rows[0]? = some r ∧ metric'.rows[0]? = some r := by
  obtain ⟨⟨metric, last⟩, h⟩ := Outcome.exists_eq_ok (o := (twoEchoes.runFrom twoEchoes.pristine
    [("algorithm.rate", .vector [3, 5])]).outcome) (by decide +kernel)
  obtain ⟨⟨metric', last'⟩, h'⟩ := Outcome.exists_eq_ok (o := (threeEchoes.runFrom
    threeEchoes.pristine [("algorithm.rate", .vector [3, 7, 9])]).outcome) (by decide +kernel)
  obtain ⟨hordered, hxs⟩ := @unstack_echoStack 2 (by decide +kernel)
  obtain ⟨hordered', hxs'⟩ := @unstack_echoStack 3 (by decide +kernel)
  have hrows : List.Forall₂ (fun (e e' : String × Tensor) =>
      e.1 = e'.1 ∧ e.2.rows[0]? = e'.2.rows[0]?)
      [("algorithm.rate", .vector [3, 5])] [("algorithm.rate", .vector [3, 7, 9])] :=
    .cons ⟨rfl, (rows_vector_zero 3 [5]).trans (rows_vector_zero 3 [7, 9]).symm⟩ .nil
  obtain ⟨r, -, -, -, hr, hr', -⟩ := @runFrom_independent twoEchoes threeEchoes rfl rfl rfl
    keepsOrder_echoWorkflow _ _ _ _ hordered hordered' _ _ hxs hxs' 0 echoState rfl rfl _ _ hrows
    _ _ h h'
  exact ⟨r, metric, metric', last, last', h, h', hr, hr'⟩

end TuningProblem

end Lockstep
