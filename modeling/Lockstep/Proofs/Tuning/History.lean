import Lockstep.Proofs.Tuning.Instances

/-!
# Histories of a tuning problem

A tuning problem can be used in two ways. `evaluateBatch` keeps the state of the instances in the
problem, and `Problem.evaluate` keeps it in a local state that the caller threads. A `Session` puts
both through the same calls. After every history (`calls_follow_reference`) the two hold the same
state and give the same answers, and that state is the first one, or the first one with exactly the
successful evaluations since the last reset applied to it.
-/

namespace Lockstep

namespace TuningProblem

/-- A use of a tuning problem. -/
inductive Call where
  | evaluate (batch : ParameterBatch)
  | reset

/-- A tuning problem in use, beside a local state that is threaded through the same calls. -/
structure Session where
  problem : TuningProblem
  /-- the batches of the successful evaluations since the last reset, in their order -/
  counted : List ParameterBatch
  memory : LocalState

/-- The local state that the problem starts with as a component. -/
def firstMemory (p : TuningProblem) : LocalState := [(instancesAttribute, .state p.pristine)]

/-- The local state after an evaluation; after a failure it is the one from before. -/
def memoryAfter (p : TuningProblem) (memory : LocalState) (batch : ParameterBatch) : LocalState :=
  match (p.evaluateLocal memory (.named batch)).outcome with
  | .ok (_, l) => l
  | .error _ => memory

namespace Session

/-- One call, on the problem and on the local state. -/
def call (s : Session) : Call → Session
  | .evaluate batch => {
      problem := (s.problem.evaluateBatch batch).2
      counted := match (s.problem.evaluateBatch batch).1.outcome with
        | .ok _ => s.counted ++ [batch]
        | .error _ => s.counted
      memory := s.problem.memoryAfter s.memory batch }
  | .reset => { problem := s.problem.reset, counted := [], memory := s.problem.firstMemory }

end Session

/-- A new session. -/
def session (p : TuningProblem) : Session := ⟨p, [], p.firstMemory⟩

/-- The session after a history of calls. -/
def after (p : TuningProblem) (calls : List Call) : Session := calls.foldl Session.call p.session

/-- One evaluation of the reference: the parameters overwrite the leaves and the steps follow. -/
def settleOne (p : TuningProblem) (s : State) (batch : ParameterBatch) : Outcome State := do
  (p.workflow.run p.config.iterations (← overwrite s batch)).outcome

/-- All given evaluations of the reference, from the first state on. -/
def settle (p : TuningProblem) (batches : List ParameterBatch) : Outcome State :=
  batches.foldlM p.settleOne p.pristine

/-- A session stands where the reference stands. -/
structure Session.Follows (p : TuningProblem) (s : Session) : Prop where
  /-- calls change nothing of the problem but its instances -/
  frame : s.problem = { p with instances := s.problem.instances }
  restarted : p.config.restart = true → s.problem.instances = p.pristine
  carried : p.config.restart = false → p.settle s.counted = .ok s.problem.instances
  memory : s.memory = [(instancesAttribute, .state s.problem.instances)]

/-! ## One evaluation -/

theorem settleOne_of_runFrom {p : TuningProblem} {start last : State} {batch : ParameterBatch}
    {metric : Tensor} (h : (p.runFrom start batch).outcome = .ok (metric, last)) :
    p.settleOne start batch = .ok last := by
  obtain ⟨-, s, hs, hlast, -⟩ := runFrom_eq_ok h
  rw [settleOne, hs]
  exact hlast

theorem settle_concat (p : TuningProblem) (batches : List ParameterBatch) (batch : ParameterBatch) :
    p.settle (batches ++ [batch]) = p.settle batches >>= fun s => p.settleOne s batch := by
  rw [settle, List.foldlM_append]
  rcases h : batches.foldlM p.settleOne p.pristine with e | s
  · rw [settle, h]
    rfl
  · rw [settle, h, Outcome.ok_bind, Outcome.ok_bind, List.foldlM_cons]
    exact bind_pure _

/-- A run does not look at the state from which the next evaluation goes on. -/
theorem runFrom_withInstances (p : TuningProblem) (instances start : State)
    (batch : ParameterBatch) :
    ({ p with instances } : TuningProblem).runFrom start batch = p.runFrom start batch := rfl

/-- An evaluation answers with the metric of a run. -/
theorem answer_evaluateBatch (p : TuningProblem) (batch : ParameterBatch) :
    (p.evaluateBatch batch).1 = Prod.fst <$> p.runFrom p.start batch := by
  rw [map_eq_pure_bind]
  show _ = Traced.bind _ _
  rcases h : (p.runFrom p.start batch).outcome with e | ⟨metric, last⟩
  · simp only [evaluateBatch, Traced.bind, h]
  · simp only [evaluateBatch, Traced.bind, h]
    exact congrArg (Traced.mk · _) (List.append_nil _).symm

theorem evaluateBatch_of_ok {p : TuningProblem} {batch : ParameterBatch} {metric : Tensor}
    {last : State} (h : (p.runFrom p.start batch).outcome = .ok (metric, last)) :
    (p.evaluateBatch batch).1.outcome = .ok metric ∧
      (p.evaluateBatch batch).2 = p.advance last := by
  simp only [evaluateBatch, h, and_self]

theorem evaluateBatch_of_error {p : TuningProblem} {batch : ParameterBatch} {e : Error}
    (h : (p.runFrom p.start batch).outcome = .error e) :
    (p.evaluateBatch batch).1.outcome = .error e ∧ (p.evaluateBatch batch).2 = p := by
  simp only [evaluateBatch, h, and_self]

theorem exists_runFrom_of_ok {p : TuningProblem} {batch : ParameterBatch} {metric : Tensor}
    (h : (p.evaluateBatch batch).1.outcome = .ok metric) :
    ∃ last, (p.runFrom p.start batch).outcome = .ok (metric, last) := by
  rcases hrun : (p.runFrom p.start batch).outcome with e | ⟨metric', last⟩
  · rw [(evaluateBatch_of_error hrun).1] at h
    cases h
  · rw [(evaluateBatch_of_ok hrun).1] at h
    rw [Except.ok.inj h]
    exact ⟨last, rfl⟩

/-- An evaluation changes nothing of the problem but its instances. -/
theorem evaluateBatch_frame (p : TuningProblem) (batch : ParameterBatch) :
    (p.evaluateBatch batch).2 = { p with instances := (p.evaluateBatch batch).2.instances } := by
  rcases h : (p.runFrom p.start batch).outcome with e | ⟨metric, last⟩
  · rw [(evaluateBatch_of_error h).2]
  · rw [(evaluateBatch_of_ok h).2, advance]
    split <;> rfl

theorem config_evaluateBatch (p : TuningProblem) (batch : ParameterBatch) :
    (p.evaluateBatch batch).2.config = p.config := by
  rw [evaluateBatch_frame]

/-- The evaluation of a component runs from the state that its local state holds, and leaves a new
one there unless every evaluation starts anew. -/
theorem evaluateLocal_eq (p : TuningProblem) (s : State) (batch : ParameterBatch) :
    p.evaluateLocal [(instancesAttribute, .state s)] (.named batch) =
      (fun r => (r.1, [(instancesAttribute, .state (if p.config.restart then s else r.2))])) <$>
        p.runFrom (if p.config.restart then p.pristine else s) batch := by
  rw [map_eq_pure_bind, evaluateLocal]
  cases p.config.restart with
  | true => rfl
  | false => rfl

/-- The two ways of evaluating answer alike when they hold the same state. -/
theorem answer_evaluateLocal (p : TuningProblem) (batch : ParameterBatch) :
    Prod.fst <$> p.evaluateLocal [(instancesAttribute, .state p.instances)] (.named batch) =
      (p.evaluateBatch batch).1 := by
  rw [evaluateLocal_eq, answer_evaluateBatch, start, ← comp_map]
  rfl

/-- They hold the same state again after an evaluation, whether it succeeds or fails. -/
theorem memoryAfter_eq (p : TuningProblem) (batch : ParameterBatch) :
    p.memoryAfter [(instancesAttribute, .state p.instances)] batch =
      [(instancesAttribute, .state (p.evaluateBatch batch).2.instances)] := by
  rw [memoryAfter, evaluateLocal_eq, map_eq_pure_bind, Traced.outcome_bind, ← start]
  rcases h : (p.runFrom p.start batch).outcome with e | ⟨metric, last⟩
  · rw [(evaluateBatch_of_error h).2]
    rfl
  · rw [(evaluateBatch_of_ok h).2, advance]
    cases p.config.restart with
    | true => rfl
    | false => rfl

/-! ## Histories -/

theorem follows_session {p : TuningProblem} (hp : p.instances = p.pristine) :
    p.session.Follows p where
  frame := rfl
  restarted _ := hp
  carried _ := congrArg Except.ok hp.symm
  memory := congrArg (fun s => [(instancesAttribute, Value.state s)]) hp.symm

/-- An evaluation takes the problem, the reference and the local state to the same place. -/
theorem Session.Follows.evaluate {p : TuningProblem} {s : Session} (h : s.Follows p)
    (batch : ParameterBatch) : (s.call (.evaluate batch)).Follows p := by
  obtain ⟨q, counted, memory⟩ := s
  obtain ⟨hframe, hrestarted, hcarried, hmemory⟩ := h
  simp only at hframe hrestarted hcarried hmemory
  have hmemory' := memoryAfter_eq q batch
  rw [← hmemory] at hmemory'
  rcases hrun : (q.runFrom q.start batch).outcome with e | ⟨metric, last⟩
  · obtain ⟨hanswer, hproblem⟩ := evaluateBatch_of_error hrun
    refine ⟨?_, ?_, ?_, hmemory'⟩ <;> simp only [Session.call, hproblem, hanswer]
    · exact hframe
    · exact hrestarted
    · exact hcarried
  · obtain ⟨hanswer, hproblem⟩ := evaluateBatch_of_ok hrun
    have hconfig : q.config = p.config := by rw [hframe]
    refine ⟨?_, fun hr => ?_, fun hr => ?_, hmemory'⟩ <;>
      simp only [Session.call, hproblem, hanswer, advance, hconfig]
    · cases p.config.restart with
      | true => exact hframe
      | false => rw [hframe]; rfl
    · rw [if_pos hr]
      exact hrestarted hr
    · -- the run went on from the state of the reference
      have hstart : q.start = q.instances := by
        rw [start, hconfig, hr]
        rfl
      rw [hstart, hframe, runFrom_withInstances] at hrun
      rw [settle_concat, hcarried hr, Outcome.ok_bind, settleOne_of_runFrom hrun, hr]
      rfl

theorem Session.Follows.reset {p : TuningProblem} {s : Session} (h : s.Follows p) :
    (s.call .reset).Follows p := by
  obtain ⟨q, counted, memory⟩ := s
  obtain ⟨hframe, -, -, -⟩ := h
  simp only at hframe
  rw [hframe]
  exact ⟨rfl, fun _ => rfl, fun _ => rfl, rfl⟩

/-- Every history of calls keeps a session where the reference is. -/
theorem follows_after {p : TuningProblem} (hp : p.instances = p.pristine) (calls : List Call) :
    (p.after calls).Follows p := by
  have hcalls : ∀ {s : Session}, s.Follows p → (calls.foldl Session.call s).Follows p := by
    induction calls with
    | nil => exact id
    | cons c rest ih =>
      intro s h
      cases c with
      | evaluate batch => exact ih (h.evaluate batch)
      | reset => exact ih h.reset
  exact hcalls (follows_session hp)

/-- These are the defaults of the parameters. -/
def AreDefaults (parameters : List (String × Attribute)) (defaults : List (String × Tensor)) :
    Prop :=
  List.Forall₂ (fun e d => d.1 = e.1 ∧ e.2.default = some d.2) parameters defaults

theorem AreDefaults.unique {parameters : List (String × Attribute)}
    {defaults defaults' : List (String × Tensor)} (h : AreDefaults parameters defaults)
    (h' : AreDefaults parameters defaults') : defaults = defaults' :=
  List.right_unique_forall₂' (fun _ _ _ hd hd' => Prod.ext (hd.1.trans hd'.1.symm)
    (Option.some.inj (hd.2.symm.trans hd'.2))) h h'

theorem areDefaults_iff {parameters : List (String × Attribute)}
    {defaults : List (String × Tensor)} : AreDefaults parameters defaults ↔
      parameters.map (fun e => (e.1, e.2.default)) = defaults.map fun d => (d.1, some d.2) := by
  rw [← List.forall₂_eq_eq_eq, List.forall₂_map_left_iff, List.forall₂_map_right_iff, AreDefaults]
  simp only [Prod.mk.injEq, eq_comm]

theorem defaultOf_eq_ok_iff {instances : Nat} {e : String × Attribute}
    {d : String × Tensor × Tensor} :
    defaultOf instances e = .ok d ↔ d.1 = e.1 ∧ e.2.default = some d.2.1 ∧
      Tensor.IsArrayShape (instances :: d.2.1.shape) ∧ d.2.2 = d.2.1.repeated instances := by
  obtain ⟨path, t, u⟩ := d
  rw [defaultOf]
  cases e.2.default with
  | none => exact ⟨nofun, fun ⟨_, h, _⟩ => nomatch h⟩
  | some t' =>
    dsimp only
    rw [Outcome.bind_eq_ok_iff]
    constructor
    · rintro ⟨u', hu', h⟩
      obtain ⟨hpath, hpair⟩ := Prod.mk.inj (Except.ok.inj h)
      obtain ⟨rfl, rfl⟩ := Prod.mk.inj hpair
      exact ⟨hpath.symm, rfl, Tensor.repeatLeading_eq_ok_iff.1 hu'⟩
    · rintro ⟨rfl, ht, hu⟩
      obtain rfl := Option.some.inj ht
      exact ⟨u, Tensor.repeatLeading_eq_ok_iff.2 hu, rfl⟩

/-- Every parameter with its default, and with this once for each instance. -/
theorem areDefaults_of_mapM {instances : Nat} {parameters : List (String × Attribute)}
    {entries : List (String × Tensor × Tensor)}
    (h : parameters.mapM (defaultOf instances) = .ok entries) :
    ∃ defaults, AreDefaults parameters defaults ∧
      entries = defaults.map fun d => (d.1, d.2, d.2.repeated instances) := by
  refine ⟨entries.map fun e => (e.1, e.2.1), ?_, ?_⟩
  · rw [AreDefaults, List.forall₂_map_right_iff]
    refine (Outcome.mapM_eq_ok_iff.1 h).imp fun e d hd => ?_
    obtain ⟨hpath, hdefault, -⟩ := defaultOf_eq_ok_iff.1 hd
    exact ⟨hpath, hdefault⟩
  · rw [List.map_map]
    refine (List.map_id' _).symm.trans (List.map_congr_left fun d hd => ?_)
    obtain ⟨e, -, hone⟩ := Outcome.exists_left_of_mem (Outcome.mapM_eq_ok_iff.1 h) hd
    obtain ⟨-, -, -, hrepeated⟩ := defaultOf_eq_ok_iff.1 hone
    exact Prod.ext rfl (Prod.ext rfl hrepeated)

/-- What a new problem is made of. -/
theorem eq_of_new {w : Workflow} {first : State} {c : TuningConfig} {p : TuningProblem}
    (h : TuningProblem.new w first c = .ok p) :
    c.validate = .ok () ∧ ∃ metricMonitor defaults stacked pristine,
      AreDefaults w.parameters defaults ∧
      State.stack (List.replicate c.instances first) = .ok stacked ∧
      w.place stacked = .ok pristine ∧
      p = {
        workflow := w
        config := c
        metricMonitor
        shapes := (Table.ofList defaults).mapValues Tensor.shape
        defaults := (Table.ofList defaults).mapValues fun t => t.repeated c.instances
        pristine
        instances := pristine } := by
  obtain ⟨⟨⟩, hvalid, h⟩ := Outcome.bind_eq_ok_iff.1 h
  cases hready : w.ready with
  | false =>
    rw [hready] at h
    cases h
  | true =>
    cases hbatched : first.isBatched with
    | true =>
      rw [hready, hbatched] at h
      cases h
    | false =>
      rw [hready, hbatched] at h
      -- from here on a problem is made step by step, and each step succeeded
      obtain ⟨metricMonitor, -, h⟩ := Outcome.bind_eq_ok_iff.1 h
      obtain ⟨entries, hentries, h⟩ := Outcome.bind_eq_ok_iff.1 h
      obtain ⟨defaults, hdefaults, rfl⟩ := areDefaults_of_mapM hentries
      obtain ⟨stacked, hstacked, h⟩ := Outcome.bind_eq_ok_iff.1 h
      obtain ⟨pristine, hpristine, h⟩ := Outcome.bind_eq_ok_iff.1 h
      refine ⟨hvalid, metricMonitor, defaults, stacked, pristine, hdefaults, hstacked, hpristine,
        ?_⟩
      have hentries := Table.mapValues_ofList (fun t => (t, t.repeated c.instances)) defaults
      rw [← Except.ok.inj h, ← hentries, Table.mapValues_mapValues, Table.mapValues_mapValues]

/-- The workflow of a new problem, its configuration, its first state and its defaults. -/
theorem new_spec {w : Workflow} {first : State} {c : TuningConfig} {p : TuningProblem}
    (h : TuningProblem.new w first c = .ok p) :
    p.workflow = w ∧ p.config = c ∧ p.instances = p.pristine ∧
      (∃ stacked, State.stack (List.replicate c.instances first) = .ok stacked ∧
        w.place stacked = .ok p.pristine) ∧
      ∃ defaults, AreDefaults w.parameters defaults ∧
        p.defaults = (Table.ofList defaults).mapValues fun t => t.repeated c.instances := by
  obtain ⟨-, metricMonitor, defaults, stacked, pristine, hdefaults, hstacked, hpristine, rfl⟩ :=
    eq_of_new h
  exact ⟨rfl, rfl, rfl, ⟨stacked, hstacked, hpristine⟩, defaults, hdefaults, rfl⟩

/-- A new problem has its instances in the first state. -/
theorem new_eq_ok {w : Workflow} {first : State} {c : TuningConfig} {p : TuningProblem}
    (h : TuningProblem.new w first c = .ok p) : p.config = c ∧ p.instances = p.pristine :=
  have ⟨_, hconfig, hinstances, _⟩ := new_spec h
  ⟨hconfig, hinstances⟩

/-- After any history of calls, evaluations that start anew find the first state and answer like the
new problem, evaluations that go on find the first state with the successful batches since the last
reset applied to it, and a failure or a reset changes what it should. All the while the problem as a
component, with its local state threaded through the same calls, holds the same state and gives the
same answers. -/
theorem calls_follow_reference {w : Workflow} {first : State} {c : TuningConfig}
    {p : TuningProblem} (hnew : TuningProblem.new w first c = .ok p) (calls : List Call) :
    (c.restart = true → (p.after calls).problem.instances = p.pristine ∧
      ∀ batch, ((p.after calls).problem.evaluateBatch batch).1 = (p.evaluateBatch batch).1) ∧
    (c.restart = false → p.settle (p.after calls).counted = .ok (p.after calls).problem.instances ∧
      ∀ batch, ((p.after calls).problem.evaluateBatch batch).1 =
        Prod.fst <$> p.runFrom (p.after calls).problem.instances batch) ∧
    (∀ batch e, ((p.after calls).problem.evaluateBatch batch).1.outcome = .error e →
      ((p.after calls).problem.evaluateBatch batch).2 = (p.after calls).problem) ∧
    (p.after calls).problem.reset = p ∧
    (∀ ctx rng, p.problem.component.init ctx rng = .ok (p.after []).memory) ∧
    (∀ ctx batch, Prod.fst <$> p.problem.evaluate ctx (p.after calls).memory (.named batch) =
      ((p.after calls).problem.evaluateBatch batch).1) ∧
    LocalState.nested (p.after calls).memory instancesAttribute =
      .ok (p.after calls).problem.instances := by
  obtain ⟨rfl, hp⟩ := new_eq_ok hnew
  -- the invariant of the calls is all that is used of them: how `s` was reached is forgotten
  have hfollows := follows_after hp calls
  generalize p.after calls = s at hfollows
  obtain ⟨q, counted, memory⟩ := s
  obtain ⟨hframe, hrestarted, hcarried, hmemory⟩ := hfollows
  simp only at hframe hrestarted hcarried hmemory ⊢
  have hanswer (batch : ParameterBatch) :
      (q.evaluateBatch batch).1 =
        Prod.fst <$> p.runFrom (if p.config.restart then p.pristine else q.instances) batch := by
    rw [answer_evaluateBatch, hframe, runFrom_withInstances]
    rfl
  refine ⟨fun hr => ⟨hrestarted hr, fun batch => ?_⟩, fun hr => ⟨hcarried hr, fun batch => ?_⟩,
    fun batch e he => ?_, ?_, fun _ _ => rfl, fun _ batch => ?_, ?_⟩
  · rw [hanswer, answer_evaluateBatch, start, hr]
    rfl
  · rw [hanswer, hr]
    rfl
  · rcases hrun : (q.runFrom q.start batch).outcome with e' | ⟨metric, last⟩
    · exact (evaluateBatch_of_error hrun).2
    · rw [(evaluateBatch_of_ok hrun).1] at he
      cases he
  · rw [hframe]
    exact congrArg (fun s => { p with instances := s }) hp.symm
  · rw [hmemory, ← answer_evaluateLocal, hframe]
    rfl
  · rw [hmemory]
    rfl

/-- Two echoing instances that go on from call to call. -/
def carriedEchoes : TuningProblem :=
  (TuningProblem.new echoWorkflow echoState
    { iterations := 2, instances := 2, restart := false }).toOption.get (by decide +kernel)

/-- Calls of which the second evaluation fails, with a reset before the last two. -/
def mixedCalls : List Call := [
  .evaluate [("algorithm.rate", .vector [3, 5])], .evaluate [("algorithm.rate", .vector [3])],
  .reset, .evaluate [("algorithm.rate", .vector [7, 9])], .evaluate []]

theorem calls_follow_reference_mixedCalls :
    (carriedEchoes.after mixedCalls).counted = [[("algorithm.rate", .vector [7, 9])], []] ∧
      carriedEchoes.settle (carriedEchoes.after mixedCalls).counted =
        .ok (carriedEchoes.after mixedCalls).problem.instances :=
  ⟨by decide +kernel,
    ((calls_follow_reference (Outcome.eq_ok_get (by decide +kernel)) mixedCalls).2.1 rfl).1⟩

end TuningProblem

end Lockstep
