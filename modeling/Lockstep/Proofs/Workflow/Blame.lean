import Lockstep.Proofs.Workflow.External
import Lockstep.Proofs.Workflow.Passage
import Lockstep.Proofs.Workflow.Slots

/-!
# Whose internal errors they are

When a lane with slots fails in a stage with an internal error, a component that the stage calls has
failed with it (`callFails_of_perform`). The slots it is called with are filled by then, so that no
step fails with an internal error of its own, and no reading of a metric does
(`internal_error_from_component`).
-/

namespace Lockstep

open Outcome (External)

namespace Workflow

variable {w : Workflow} {index : Nat} {x : Scratch} {fault : InternalFault}

/-! ## One stage -/

/-- A component that the stage calls on the lane fails. It is called with its local state and with
what is in the slots; a monitor is called when those before it have seen the same hook. -/
inductive CallFails (w : Workflow) (index : Nat) (x : Scratch) (e : Error) : StepStage → Prop
  | ask {l : LocalState} : x.state.resolve w.algorithmNode.path = .ok l →
      w.algorithm.ask (stepContext w.algorithmNode x.toLane index askStream) l = .error e →
      CallFails w index x e .ask
  | transform {f : SolutionTransform} {candidates : Candidates} : w.transform = some f →
      x.candidates = some candidates → f candidates = .error e →
      CallFails w index x e .transform
  | evaluate {l : LocalState} {candidates : Candidates} :
      x.state.resolve w.problemNode.path = .ok l → x.candidates = some candidates →
      (w.problem.evaluate (stepContext w.problemNode x.toLane index evaluateStream) l
        candidates).outcome = .error e →
      CallFails w index x e .evaluate
  | tell {l : LocalState} {fitness : Tensor} :
      x.state.resolve w.algorithmNode.path = .ok l → x.fitness = some fitness →
      w.algorithm.tell (stepContext w.algorithmNode x.toLane index tellStream) l fitness =
        .error e →
      CallFails w index x e .tell
  | observe {arguments : HookArguments} {call : HookCall} {before after : List MonitorSlot}
      {slot : MonitorSlot} {t : State} {l : LocalState} :
      x.arguments call.hook = .ok arguments → arguments.call call.hook = .ok call →
      w.monitors = before ++ slot :: after → slot.monitor.hooks.contains call.hook = true →
      (dispatch call x.generation index before x.state).outcome = .ok t →
      t.resolve slot.node.path = .ok l →
      (slot.monitor.observe ⟨slot.node, t, x.generation, index⟩ l call).outcome = .error e →
      CallFails w index x e (.hooks call.hook)

theorem observe_of_dispatch_singleton {call : HookCall} {generation : UInt64} {slot : MonitorSlot}
    {s : State}
    (h : (dispatch call generation index [slot] s).outcome = .error (.internal fault)) :
    slot.monitor.hooks.contains call.hook = true ∧ ∃ l, s.resolve slot.node.path = .ok l ∧
      (slot.monitor.observe ⟨slot.node, s, generation, index⟩ l call).outcome =
        .error (.internal fault) := by
  rw [dispatch] at h
  split at h
  · next hsubscribed =>
    simp only [Traced.outcome_bind, Traced.outcome_liftM] at h
    obtain ⟨l, hl, h⟩ := (s.external_resolve _).of_bind h
    refine ⟨hsubscribed, l, hl, ?_⟩
    rcases Outcome.bind_eq_error_iff.1 h with hfail | ⟨seen, -, h⟩
    · exact hfail
    · -- writing what the monitor gives back is not what fails
      cases seen with
      | none => cases h
      | some l' =>
        simp only [Traced.outcome_bind, Traced.outcome_liftM] at h
        obtain ⟨u, -, h⟩ := (s.external_update _ _).of_bind h
        cases h
  · cases h

/-- An internal error at a hook is that of a monitor. -/
theorem exists_observe_of_dispatch {call : HookCall} {generation : UInt64} :
    ∀ {slots : List MonitorSlot} {s : State},
      (dispatch call generation index slots s).outcome = .error (.internal fault) →
      ∃ before slot after t l, slots = before ++ slot :: after ∧
        slot.monitor.hooks.contains call.hook = true ∧
        (dispatch call generation index before s).outcome = .ok t ∧
        t.resolve slot.node.path = .ok l ∧
        (slot.monitor.observe ⟨slot.node, t, generation, index⟩ l call).outcome =
          .error (.internal fault)
  | slot :: rest, s, h => by
    have hfirst : ∀ after, (dispatch call generation index (slot :: after) s).outcome =
        (dispatch call generation index [slot] s).outcome >>= fun u =>
          (dispatch call generation index after u).outcome :=
      fun after => @dispatch_append call generation index after [slot] s
    rw [hfirst] at h
    rcases Outcome.bind_eq_error_iff.1 h with hfail | ⟨u, hu, h⟩
    · obtain ⟨hsubscribed, l, hl, hobserve⟩ := observe_of_dispatch_singleton hfail
      exact ⟨[], slot, rest, s, l, rfl, hsubscribed, rfl, hl, hobserve⟩
    · obtain ⟨before, later, after, t, l, rfl, hsubscribed, ht, hl, hobserve⟩ :=
        exists_observe_of_dispatch h
      refine ⟨slot :: before, later, after, t, l, rfl, hsubscribed, ?_, hl, hobserve⟩
      rw [hfirst, hu, Outcome.ok_bind, ht]

/-- An internal error of asking is that of the algorithm. -/
theorem ask_eq_internal {lane : Lane} (h : w.ask index lane = .error (.internal fault)) :
    ∃ l, lane.state.resolve w.algorithmNode.path = .ok l ∧
      w.algorithm.ask (stepContext w.algorithmNode lane index askStream) l =
        .error (.internal fault) := by
  obtain ⟨l, hl, h⟩ := (lane.state.external_resolve _).of_bind h
  refine ⟨l, hl, ?_⟩
  rcases Outcome.bind_eq_error_iff.1 h with hfail | ⟨⟨candidates, l'⟩, -, h⟩
  · exact hfail
  · -- neither the count of the candidates nor the new local state fails in this way
    obtain ⟨n, -, h⟩ := candidates.external_size.of_bind h
    have hwrite : External (do
        return { lane with
          state := ← lane.state.update w.algorithmNode.path l', candidates } : Outcome AskedLane) :=
      (lane.state.external_update _ _).bind fun _ => .ok _
    split at h
    · split at h
      · cases h
      · exact absurd h (hwrite fault)
    · exact absurd h (hwrite fault)

/-- An internal error of evaluating is that of the problem. -/
theorem evaluate_eq_internal {lane : AskedLane}
    (h : (w.evaluate index lane).outcome = .error (.internal fault)) :
    ∃ l, lane.state.resolve w.problemNode.path = .ok l ∧
      (w.problem.evaluate (stepContext w.problemNode lane.toLane index evaluateStream) l
        lane.candidates).outcome = .error (.internal fault) := by
  simp only [evaluate, Traced.outcome_bind, Traced.outcome_liftM] at h
  obtain ⟨n, -, h⟩ := lane.candidates.external_size.of_bind h
  obtain ⟨l, hl, h⟩ := (lane.state.external_resolve _).of_bind h
  refine ⟨l, hl, ?_⟩
  rcases Outcome.bind_eq_error_iff.1 h with hfail | ⟨⟨fitness, l'⟩, -, h⟩
  · exact hfail
  · dsimp only at h
    split at h
    · simp only [Traced.outcome_bind, Traced.outcome_liftM] at h
      obtain ⟨t, -, h⟩ := (lane.state.external_update _ _).of_bind h
      cases h
    · cases h

/-- An internal error of transforming is that of the transform. -/
theorem transformSlot_eq_internal {candidates : Candidates}
    (hcandidates : x.candidates = some candidates)
    (h : w.transformSlot x = .error (.internal fault)) :
    ∃ f, w.transform = some f ∧ f candidates = .error (.internal fault) := by
  rw [transformSlot, readCandidates_of_some hcandidates] at h
  split at h
  · cases h
  · next f hf =>
    refine ⟨f, hf, ?_⟩
    obtain ⟨n, -, h⟩ := candidates.external_size.of_bind h
    rcases Outcome.bind_eq_error_iff.1 h with hfail | ⟨input, -, h⟩
    · exact hfail
    · obtain ⟨m, -, h⟩ := input.external_size.of_bind h
      split at h <;> cases h

/-- With what a stage reads in its slots, an internal error in it is that of a component. -/
theorem callFails_of_perform {stage : StepStage} (havailable : Available stage x)
    (h : (w.perform stage index x).outcome = .error (.internal fault)) :
    w.CallFails index x (.internal fault) stage := by
  -- Stage by stage: what is read from the slots is there, and reading or writing the state never
  -- ends in an internal error, so that one comes from the call of the stage.
  cases stage with
  | hooks hook =>
    obtain ⟨arguments, call, harguments, hcall, rfl⟩ := havailable
    rw [perform_hooks call.hook call harguments hcall rfl, observed] at h
    simp only [Traced.outcome_bind, Traced.outcome_pure] at h
    have hdispatch := Outcome.eq_error_of_bind_pure (Outcome.eq_error_of_bind_pure h)
    obtain ⟨before, slot, after, t, l, hsplit, hsubscribed, ht, hl, hobserve⟩ :=
      exists_observe_of_dispatch hdispatch
    exact .observe harguments hcall hsplit hsubscribed ht hl hobserve
  | ask =>
    rw [perform, Traced.outcome_bind] at h
    obtain ⟨l, hl, hask⟩ := ask_eq_internal (Outcome.eq_error_of_bind_pure h)
    exact .ask hl hask
  | transform =>
    obtain ⟨candidates, hcandidates⟩ := Option.isSome_iff_exists.1 havailable
    simp only [perform, Traced.outcome_bind, Traced.outcome_liftM] at h
    rcases Outcome.bind_eq_error_iff.1 h with hfail | ⟨y, hy, h⟩
    · obtain ⟨f, hf, hfails⟩ := transformSlot_eq_internal hcandidates hfail
      exact .transform hf hcandidates hfails
    · -- the slot is full again when the candidates are checked
      obtain ⟨input, hinput⟩ := Option.isSome_iff_exists.1
        ((transformSlot_eq_ok hy).2.2 havailable)
      rw [readCandidates_of_some hinput, Outcome.ok_bind] at h
      obtain ⟨-, -, h⟩ := (InputSpec.external_check _ _).of_bind h
      cases h
  | evaluate =>
    obtain ⟨candidates, hcandidates⟩ := Option.isSome_iff_exists.1 havailable
    rw [perform, readCandidates_of_some hcandidates, Traced.ok_bind, Traced.outcome_bind] at h
    obtain ⟨l, hl, hevaluate⟩ := evaluate_eq_internal (Outcome.eq_error_of_bind_pure h)
    exact .evaluate hl hcandidates hevaluate
  | tell =>
    obtain ⟨fitness, hfitness⟩ := Option.isSome_iff_exists.1 havailable
    simp only [perform, Traced.outcome_bind, Traced.outcome_liftM,
      readFitness_of_some hfitness, Outcome.ok_bind] at h
    obtain ⟨l, hl, h⟩ := (x.state.external_resolve _).of_bind h
    rcases Outcome.bind_eq_error_iff.1 h with hfail | ⟨l', -, h⟩
    · exact .tell hl hfitness hfail
    · obtain ⟨t, -, h⟩ := (x.state.external_update _ _).of_bind h
      cases h
  | advance =>
    rw [perform, Traced.outcome_bind] at h
    exact absurd (Outcome.eq_error_of_bind_pure h) (external_advance _ _)

/-! ## All stages -/

theorem performAlone_cons {stage : StepStage} {stages : List StepStage} :
    (w.performAlone index (stage :: stages) x).outcome =
      (w.perform stage index x).outcome >>= fun y => (w.performAlone index stages y).outcome := by
  rw [performAlone, List.foldlM_cons, Traced.outcome_bind]
  rfl

/-- When lanes fail in lockstep, one of them fails in a stage that it reaches on its own. -/
theorem exists_perform_of_performAll {stages : List StepStage} {xs : List Scratch} {e : Error}
    (h : (w.performAll stages xs).outcome = .error e) :
    ∃ k stage i start y, stages[k]? = some stage ∧ xs[i]? = some start ∧
      (w.performAlone i (stages.take k) start).outcome = .ok y ∧
      (w.perform stage i y).outcome = .error e := by
  induction stages generalizing xs with
  | nil => cases h
  | cons stage stages ih =>
    rw [performAll, List.foldlM_cons, Traced.outcome_bind] at h
    rcases Outcome.bind_eq_error_iff.1 h with hfail | ⟨mid, hmid, h⟩
    · obtain ⟨i, start, hstart, hperform, -⟩ := runStage_eq_error_iff.1 hfail
      exact ⟨0, stage, i, start, start, rfl, hstart, rfl, hperform⟩
    · obtain ⟨k, later, i, m, y, hlater, hm, hy, hperform⟩ := ih h
      obtain ⟨hlength, hfirst⟩ := runStage_eq_ok_iff.1 hmid
      obtain ⟨start, hstart⟩ : ∃ start, xs[i]? = some start :=
        ⟨_, List.getElem?_eq_getElem (hlength ▸ (List.getElem?_eq_some_iff.1 hm).1)⟩
      refine ⟨k + 1, later, i, start, y, hlater, hstart, ?_, hperform⟩
      rw [List.take_succ_cons, performAlone_cons, hfirst i start m hstart hm, Outcome.ok_bind, hy]

/-- In a step of the state, one of its lanes reaches a stage where a component that is called on it
fails. -/
def StepCallFails (w : Workflow) (s : State) (e : Error) : Prop :=
  ∃ lanes i l lane, s.flatten = .ok lanes ∧ lanes[i]? = some l ∧ laneOf l = .ok lane ∧
    ∃ k stage x, protocol[k]? = some stage ∧
      (w.performAlone i (protocol.take k) (.ofLane lane)).outcome = .ok x ∧
      w.CallFails i x e stage

/-- The monitor with the name fails to give its metric in a lane of the state. -/
def MetricCallFails (w : Workflow) (s : State) (name : String) (e : Error) : Prop :=
  ∃ slot lanes lane l, w.monitors.find? (fun slot => slot.name = name) = some slot ∧
    s.flatten = .ok lanes ∧ lane ∈ lanes ∧ lane.resolve slot.node.path = .ok l ∧
    slot.monitor.metric l = .error e

theorem stepCallFails_of_slottedStep {s : State}
    (h : (w.slottedStep s).outcome = .error (.internal fault)) :
    w.StepCallFails s (.internal fault) := by
  rw [slottedStep, outcome_stepBy] at h
  obtain ⟨-, -, h⟩ := (external_ensureReady s).of_bind h
  obtain ⟨ls, hls, h⟩ := s.external_flatten.of_bind h
  obtain ⟨lanes, hlanes, h⟩ := (External.mapM external_laneOf ls).of_bind h
  rcases Outcome.bind_eq_error_iff.1 h with hfail | ⟨states, -, h⟩
  · rw [Traced.outcome_bind] at hfail
    obtain ⟨k, stage, i, start, x, hstage, hstart, hx, hperform⟩ :=
      exists_perform_of_performAll (Outcome.eq_error_of_bind_pure hfail)
    rw [List.getElem?_map] at hstart
    obtain ⟨lane, hlane, rfl⟩ := Option.map_eq_some_iff.1 hstart
    obtain ⟨l, hl, hof⟩ := Outcome.exists_of_forall₂ (Outcome.mapM_eq_ok_iff.1 hlanes).flip hlane
    exact ⟨ls, i, l, lane, hls, hl, hof, k, stage, x, hstage, hx,
      callFails_of_perform (available hstage hx) hperform⟩
  · obtain ⟨next, -, h⟩ := (State.external_unflatten _ states).of_bind h
    exact absurd h (external_place next fault)

/-- A metric that a lane fails to give with an internal error is one that the monitor does. -/
theorem laneMetric_eq_internal {slot : MonitorSlot} {s : State}
    (h : laneMetric slot s = .error (.internal fault)) :
    ∃ l, s.resolve slot.node.path = .ok l ∧ slot.monitor.metric l = .error (.internal fault) := by
  obtain ⟨l, hl, h⟩ := (s.external_resolve _).of_bind h
  refine ⟨l, hl, ?_⟩
  rcases Outcome.bind_eq_error_iff.1 h with hfail | ⟨given, -, h⟩
  · exact hfail
  · cases given <;> cases h

theorem metricCallFails_of_slottedMetric {s : State} {name : String}
    (h : w.slottedMetric s name = .error (.internal fault)) :
    w.MetricCallFails s name (.internal fault) := by
  rw [slottedMetric_eq, metric] at h
  split at h
  · cases h
  · next slot hslot =>
    split at h
    · obtain ⟨lanes, hlanes, h⟩ := s.external_flatten.of_bind h
      rcases Outcome.bind_eq_error_iff.1 h with hfail | ⟨values, -, h⟩
      · obtain ⟨i, lane, hlane, hmetric, -⟩ := Outcome.mapM_eq_error_iff.1 hfail
        obtain ⟨l, hl, hgiven⟩ := laneMetric_eq_internal hmetric
        exact ⟨slot, lanes, lane, l, hslot, hlanes, List.mem_of_getElem? hlane, hl, hgiven⟩
      · obtain ⟨stacked, -, h⟩ := (Tensor.external_stackNamed _ values).of_bind h
        exact absurd h (stacked.external_reshape _ fault)
    · next hunbatched =>
      have hdims : s.batchDims = [] := by simpa [State.isBatched] using hunbatched
      obtain ⟨l, hl, hgiven⟩ := laneMetric_eq_internal h
      exact ⟨slot, [s], s, l, hslot, State.flatten_unbatched hdims, List.mem_singleton_self s, hl,
        hgiven⟩

/-- A run that fails does so in a step from a state that it reached. -/
theorem exists_step_of_run {n : Nat} {s : State} {e : Error}
    (h : (w.run n s).outcome = .error e) :
    ∃ k t, k < n ∧ (w.run k s).outcome = .ok t ∧ (w.step t).outcome = .error e := by
  induction n generalizing s with
  | zero => cases h
  | succ n ih =>
    rw [run, Traced.outcome_bind] at h
    rcases Outcome.bind_eq_error_iff.1 h with hfail | ⟨next, hnext, h⟩
    · exact ⟨0, s, n.succ_pos, rfl, hfail⟩
    · obtain ⟨k, t, hlt, ht, hstep⟩ := ih h
      refine ⟨k + 1, t, Nat.succ_lt_succ hlt, ?_, hstep⟩
      rw [run, Traced.outcome_bind, hnext, Outcome.ok_bind, ht]

/-- Lanes with slots fare as lanes do, in a step and when a metric is read, and every stage finds
what it reads. An internal error of a step, of a run or of reading a metric is one that a component
has returned from a call. -/
theorem internal_error_from_component (w : Workflow) :
    (∀ s, w.slottedStep s = w.step s) ∧
      (∀ s name, w.slottedMetric s name = w.metric s name) ∧
      (∀ (index : Nat) (start x : Scratch) (k : Nat) (stage : StepStage),
        protocol[k]? = some stage →
        (w.performAlone index (protocol.take k) start).outcome = .ok x → Available stage x) ∧
      (∀ s fault, (w.slottedStep s).outcome = .error (.internal fault) →
        w.StepCallFails s (.internal fault)) ∧
      (∀ n s fault, (w.run n s).outcome = .error (.internal fault) →
        ∃ k t, k < n ∧ (w.run k s).outcome = .ok t ∧
          (w.slottedStep t).outcome = .error (.internal fault) ∧
          w.StepCallFails t (.internal fault)) ∧
      ∀ s name fault, w.slottedMetric s name = .error (.internal fault) →
        w.MetricCallFails s name (.internal fault) := by
  refine ⟨slottedStep_eq w, slottedMetric_eq w, fun _ _ _ _ _ => available,
    fun s fault => stepCallFails_of_slottedStep, fun n s fault h => ?_,
    fun s name fault => metricCallFails_of_slottedMetric⟩
  obtain ⟨k, t, hlt, ht, hstep⟩ := exists_step_of_run h
  rw [← slottedStep_eq] at hstep
  exact ⟨k, t, hlt, ht, hstep, stepCallFails_of_slottedStep hstep⟩

/-! ## A problem that is to blame -/

def inconsistency : InternalFault := .nodeCount 0 0

/-- Finds fault with all candidates. -/
def faultyProblem : Problem where
  component := bareComponent
  spec := .any
  evaluate _ _ _ := Traced.fail (.internal inconsistency)

def faultyMonitor : Monitor :=
    { echoMonitor with metric := fun _ => .error (.internal inconsistency) }

def faultyStart : Outcome (Workflow × State) := do
  let w ← build echoAlgorithm faultyProblem [(some "echo", faultyMonitor)] none {}
  w.init.outcome

def faultyWorkflow : Workflow := (faultyStart.toOption.get (by decide +kernel)).1

def faultyState : State := (faultyStart.toOption.get (by decide +kernel)).2

/-- The lane of the first state before a step. -/
def faultyLane : Scratch := .ofLane ((laneOf faultyState).toOption.get (by decide +kernel))

/-- Every run of at least one step ends with the fault of the problem, and every reading of the
metric with that of the monitor. -/
theorem internal_error_from_component_faulty :
    (faultyWorkflow.run 2 faultyState).outcome = .error (.internal inconsistency) ∧
      (∃ k t, k < 2 ∧ (faultyWorkflow.run k faultyState).outcome = .ok t ∧
        faultyWorkflow.StepCallFails t (.internal inconsistency)) ∧
      faultyWorkflow.StepCallFails faultyState (.internal inconsistency) ∧
      faultyWorkflow.MetricCallFails faultyState "echo" (.internal inconsistency) ∧
      ∃ x, (faultyWorkflow.performAlone 0 (protocol.take 3) faultyLane).outcome = .ok x ∧
        Available .transform x := by
  obtain ⟨hstep, hmetric, havailable, hstepFails, hrunFails, hmetricFails⟩ :=
    internal_error_from_component faultyWorkflow
  have hrun : (faultyWorkflow.run 2 faultyState).outcome = .error (.internal inconsistency) := rfl
  have hone : (faultyWorkflow.slottedStep faultyState).outcome =
      .error (.internal inconsistency) := by
    rw [hstep]
    rfl
  have hread : faultyWorkflow.slottedMetric faultyState "echo" =
      .error (.internal inconsistency) := by
    rw [hmetric]
    rfl
  obtain ⟨k, t, hlt, ht, -, hcall⟩ := hrunFails 2 faultyState inconsistency hrun
  obtain ⟨x, hx⟩ := Outcome.exists_eq_ok
    (o := (faultyWorkflow.performAlone 0 (protocol.take 3) faultyLane).outcome) (by decide +kernel)
  exact ⟨hrun, ⟨k, t, hlt, ht, hcall⟩, hstepFails faultyState inconsistency hone,
    hmetricFails faultyState "echo" inconsistency hread, x, hx,
    havailable 0 faultyLane x 3 .transform rfl hx⟩

end Workflow

end Lockstep
