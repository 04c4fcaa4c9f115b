import Lockstep.Monitor.Evaluation
import Lockstep.Proofs.Workflow.LaneByLane
import Lockstep.Proofs.Workflow.Ordered
import Lockstep.Workflow.Run

/-!
# Who notes what

Lanes in lockstep note things stage by stage. When whatever a lane notes carries the index of that
lane (`Workflow.Signs`), the notes of a step with the index of a lane are what the lane notes on its
own (`Workflow.lane_notes_of_step`).

`Workflow.hearing` is a workflow in which only the monitor of a name is heard: it takes every state
through the same steps (`Workflow.outcome_runWhile_hearing`), and all its notes are that monitor's.
An evaluation monitor signs its events with the lane.
-/

namespace Lockstep

/-- The lane that an event is about. -/
def Note.lane? : Note → Option Nat
  | .event e => some e.lane
  | .line _ => none

/-- The notes with the index of a lane. -/
def Note.ofLane (index : Nat) (notes : List Note) : List Note :=
  notes.filter fun n => n.lane? = some index

/-- The notes of a lane in two logs, one after the other. -/
theorem Note.ofLane_append (index : Nat) (ms ns : List Note) :
    ofLane index (ms ++ ns) = ofLane index ms ++ ofLane index ns := List.filter_append ..

variable {α β γ : Type}

namespace Traced

@[simp] theorem notes_ofOutcome (o : Outcome α) : (ofOutcome o).notes = [] := rfl

@[simp] theorem notes_liftM (o : Outcome α) : (liftM o : Traced α).notes = [] := rfl

@[simp] theorem notes_pure (x : α) : (pure x : Traced α).notes = [] := rfl

/-- After a computation that succeeds, its notes stand in front of those of the next one. -/
theorem bind_of_ok {t : Traced α} {x : α} (h : t.outcome = .ok x) (f : α → Traced β) :
    t >>= f = ⟨t.notes ++ (f x).notes, (f x).outcome⟩ := by
  show Traced.bind t f = _
  simp only [Traced.bind, h]

theorem notes_bind_of_ok {t : Traced α} {x : α} (h : t.outcome = .ok x) (f : α → Traced β) :
    (t >>= f).notes = t.notes ++ (f x).notes := congrArg notes (bind_of_ok h f)

/-- A result that is already there adds no note. -/
theorem liftM_bind_of_ok {o : Outcome α} {x : α} (h : o = .ok x) (f : α → Traced β) :
    (liftM o : Traced α) >>= f = f x := by
  rw [h]
  rfl

/-- A computation that fails ends with what it noted. -/
theorem notes_bind_of_error {t : Traced α} {e : Error} (h : t.outcome = .error e)
    (f : α → Traced β) : (t >>= f).notes = t.notes := by
  show (Traced.bind t f).notes = _
  simp only [Traced.bind, h]

theorem notes_bind_pure (t : Traced α) (f : α → β) :
    (t >>= fun x => (pure (f x) : Traced β)).notes = t.notes := by
  cases h : t.outcome with
  | ok x => rw [notes_bind_of_ok h, notes_pure, List.append_nil]
  | error e => exact notes_bind_of_error h _

/-- Lanes that run side by side leave their notes lane by lane. -/
theorem notes_all (ts : List (Traced α)) : (all ts).notes = (ts.map notes).flatten := by
  induction ts with
  | nil => rfl
  | cons t rest ih =>
    rw [List.map_cons, List.flatten_cons, ← ih]
    rfl

/-- The computation without its notes. -/
def silent (t : Traced α) : Traced α := ofOutcome t.outcome

@[simp] theorem outcome_silent (t : Traced α) : t.silent.outcome = t.outcome := rfl

/-- Everything that is noted carries the index of a lane. -/
def Signs (index : Nat) (t : Traced α) : Prop := ∀ n ∈ t.notes, n.lane? = some index

namespace Signs

variable {index : Nat}

/-- A computation without notes signs nothing. -/
theorem ofOutcome (o : Outcome α) : (ofOutcome o).Signs index := nofun

theorem pure (x : α) : (pure x : Traced α).Signs index := nofun

/-- A sequence of computations that sign with a lane signs with that lane. -/
theorem bind {t : Traced α} {f : α → Traced β} (ht : t.Signs index)
    (hf : ∀ x, (f x).Signs index) : (t >>= f).Signs index := by
  intro n hn
  cases h : t.outcome with
  | ok x =>
    rw [notes_bind_of_ok h, List.mem_append] at hn
    rcases hn with hn | hn
    · exact ht n hn
    · exact hf x n hn
  | error e =>
    rw [notes_bind_of_error h] at hn
    exact ht n hn

theorem liftM_bind {o : Outcome α} {f : α → Traced β} (hf : ∀ x, (f x).Signs index) :
    ((liftM o : Traced α) >>= f).Signs index := bind (ofOutcome o) hf

end Signs

end Traced

/-! ## Notes of lanes in lockstep -/

namespace Note

variable {notes : List Note} {index : Nat}

/-- All notes that are signed by a lane are notes of that lane. -/
theorem ofLane_eq_self (h : ∀ n ∈ notes, n.lane? = some index) : ofLane index notes = notes :=
  List.filter_eq_self.2 fun n hn => decide_eq_true (h n hn)

/-- Notes that are signed by another lane are none of this lane. -/
theorem ofLane_eq_nil {other : Nat} (hne : other ≠ index) (h : ∀ n ∈ notes, n.lane? = some other) :
    ofLane index notes = [] := by
  refine List.filter_eq_nil_iff.2 fun n hn => ?_
  rw [h n hn]
  simpa using hne

/-- The notes of lanes from a number on hold nothing of an earlier lane. -/
theorem ofLane_mapIdx_of_lt {g : Nat → α → List Note} {first : Nat} (hlt : index < first)
    (hg : ∀ i x, ∀ n ∈ g i x, n.lane? = some (first + i)) (xs : List α) :
    ofLane index (xs.mapIdx g).flatten = [] := by
  induction xs generalizing first g with
  | nil => rfl
  | cons x xs ih =>
    rw [List.mapIdx_cons, List.flatten_cons, ofLane_append,
      ofLane_eq_nil (by omega) (hg 0 x), List.nil_append]
    refine ih (Nat.lt_succ_of_lt hlt) fun i y n hn => ?_
    rw [hg _ y n hn, Nat.succ_add, Nat.add_succ]

/-- Of notes that are signed lane by lane, those of one lane. -/
theorem ofLane_mapIdx {g : Nat → α → List Note} {first : Nat}
    (hg : ∀ i x, ∀ n ∈ g i x, n.lane? = some (first + i)) {xs : List α} {i : Nat} {x : α}
    (hx : xs[i]? = some x) : ofLane (first + i) (xs.mapIdx g).flatten = g i x := by
  induction xs generalizing first g i with
  | nil => cases hx
  | cons y ys ih =>
    have hrest : ∀ i x, ∀ n ∈ g (i + 1) x, n.lane? = some (first + 1 + i) := by
      intro i x n hn
      rw [hg _ x n hn, Nat.succ_add, Nat.add_succ]
    rw [List.mapIdx_cons, List.flatten_cons, ofLane_append]
    cases i with
    | zero =>
      obtain rfl := Option.some.inj hx
      rw [ofLane_eq_self (hg 0 y), Nat.add_zero, ofLane_mapIdx_of_lt (Nat.lt_succ_self first) hrest,
        List.append_nil]
    | succ i =>
      rw [ofLane_eq_nil (by omega) (hg 0 y), List.nil_append, Nat.add_succ, ← Nat.succ_add]
      exact ih hrest hx

end Note

/-- Of the notes of a stage, those of one lane. -/
theorem ofLane_runStage {f : Nat → α → Traced β} (hf : ∀ i x, (f i x).Signs i) {lanes : List α}
    {i : Nat} {x : α} (hx : lanes[i]? = some x) :
    Note.ofLane i (runStage f lanes).notes = (f i x).notes := by
  have hsigned : ∀ i x, ∀ n ∈ (f i x).notes, n.lane? = some (0 + i) := by
    intro i x
    rw [Nat.zero_add]
    exact hf i x
  have hone := Note.ofLane_mapIdx hsigned hx
  rw [Nat.zero_add] at hone
  rw [runStage, Traced.notes_all, map_mapIdx]
  exact hone

namespace Pipeline

/-- In every stage a lane signs what it notes. -/
def Signs : {α : Type} → Pipeline γ α → Prop
  | _, .last f => ∀ i x, (f i x).Signs i
  | _, .stage f rest => (∀ i x, (f i x).Signs i) ∧ rest.Signs

/-- Lanes that succeed in lockstep note what they note on their own. -/
theorem ofLane_lockstep {p : Pipeline γ α} (hp : p.Signs) {lanes : List α} {ys : List γ}
    (h : (p.lockstep lanes).outcome = .ok ys) {i : Nat} {x : α} (hx : lanes[i]? = some x) :
    Note.ofLane i (p.lockstep lanes).notes = (p.alone i x).notes := by
  induction p with
  | last f => exact ofLane_runStage hp hx
  | stage f rest ih =>
    rw [lockstep, Traced.outcome_bind] at h
    obtain ⟨mid, hmid, h⟩ := Outcome.bind_eq_ok_iff.1 h
    obtain ⟨hlength, hok⟩ := runStage_eq_ok_iff.1 hmid
    obtain ⟨m, hm⟩ : ∃ m, mid[i]? = some m :=
      ⟨_, List.getElem?_eq_getElem (hlength ▸ (List.getElem?_eq_some_iff.1 hx).1)⟩
    rw [lockstep, alone, Traced.notes_bind_of_ok hmid, Traced.notes_bind_of_ok (hok i x m hx hm),
      Note.ofLane_append, ofLane_runStage hp.1 hx, ih hp.2 h hm]

end Pipeline

/-! ## Notes of a step -/

namespace Workflow

/-- All that the problem and the monitors note carries the lane of the call. -/
structure Signs (w : Workflow) : Prop where
  evaluate : ∀ ctx l candidates, (w.problem.evaluate ctx l candidates).Signs ctx.lane
  observe : ∀ slot ∈ w.monitors, ∀ ctx l call, (slot.monitor.observe ctx l call).Signs ctx.lane

namespace Signs

variable {w : Workflow}

/-- What the monitors note at a hook is signed with the lane that they are shown. -/
theorem dispatch {call : HookCall} {generation : UInt64} {index : Nat} :
    ∀ {slots : List MonitorSlot} (s : State),
      (∀ slot ∈ slots, ∀ ctx l call, (slot.monitor.observe ctx l call).Signs ctx.lane) →
      (dispatch call generation index slots s).Signs index
  | [], s, _ => .pure s
  | slot :: rest, s, h => by
    obtain ⟨hslot, hrest⟩ := List.forall_mem_cons.1 h
    rw [Workflow.dispatch]
    split
    · refine .liftM_bind fun l => .bind (hslot _ _ _) fun seen => ?_
      cases seen with
      | none => exact dispatch _ hrest
      | some l' => exact .liftM_bind fun t => dispatch t hrest
    · exact dispatch _ hrest

/-- The notes at a hook of a step are those of its lane. -/
theorem observed (h : w.Signs) (call : HookCall) (i : Nat) (lane : Lane) :
    (w.observed call i lane).Signs i := .bind (dispatch _ h.observe) fun _ => .pure _

/-- The notes of an evaluation are those of its lane. -/
theorem evaluateLane (h : w.Signs) (i : Nat) (lane : AskedLane) : (w.evaluate i lane).Signs i := by
  refine .liftM_bind fun n => .liftM_bind fun l => .bind (h.evaluate _ _ _) fun r => ?_
  dsimp only
  split
  · exact .liftM_bind fun s => .pure _
  · exact .ofOutcome _

/-- All stages of a step sign their notes with the lane they work on. -/
theorem stages (h : w.Signs) : w.stages.Signs :=
  ⟨h.observed _, fun _ _ => .ofOutcome _, fun i _ => .bind (h.observed _ i _) fun _ => .pure _,
    fun _ _ => .ofOutcome _, fun i _ => .bind (h.observed _ i _) fun _ => .pure _,
    h.evaluateLane, fun i _ => .bind (h.observed _ i _) fun _ => .pure _,
    fun i _ => .bind (h.observed _ i _) fun _ => .pure _, fun _ _ => .ofOutcome _,
    fun i _ => h.observed _ i _, fun _ _ => .ofOutcome _⟩

end Signs

/-- In a step that succeeds every lane notes what it notes on its own. -/
theorem lane_notes_of_step {w : Workflow} (hw : w.Signs) {s t : State}
    (ht : (w.step s).outcome = .ok t) {ls : List State} (hls : s.flatten = .ok ls) {i : Nat}
    {l : State} (hl : ls[i]? = some l) :
    Note.ofLane i (w.step s).notes = (w.laneStep i l).notes := by
  rw [step, outcome_stepBy] at ht
  obtain ⟨⟨⟩, hready, ht⟩ := Outcome.bind_eq_ok_iff.1 ht
  obtain ⟨ls', hls', ht⟩ := Outcome.bind_eq_ok_iff.1 ht
  rw [hls] at hls'
  obtain rfl := Except.ok.inj hls'
  obtain ⟨lanes, hlanes, ht⟩ := Outcome.bind_eq_ok_iff.1 ht
  obtain ⟨Fs, hFs, ht⟩ := Outcome.bind_eq_ok_iff.1 ht
  obtain ⟨next, hnext, -⟩ := Outcome.bind_eq_ok_iff.1 ht
  obtain ⟨lane, hi, hlane⟩ := Outcome.exists_of_forall₂ (Outcome.mapM_eq_ok_iff.1 hlanes) hl
  have hnotes : (w.step s).notes = (w.stages.lockstep lanes).notes := by
    rw [step, stepBy, Traced.liftM_bind_of_ok hready, Traced.liftM_bind_of_ok hls,
      Traced.liftM_bind_of_ok hlanes, Traced.notes_bind_of_ok hFs,
      Traced.liftM_bind_of_ok hnext, Traced.notes_liftM, List.append_nil]
  rw [hnotes, laneStep, Traced.liftM_bind_of_ok hlane]
  exact Pipeline.ofLane_lockstep hw.stages hFs hi

/-! ## One monitor is heard -/

end Workflow

/-- The monitor without its notes. -/
def Monitor.silent (m : Monitor) : Monitor :=
  { m with observe := fun ctx l call => (m.observe ctx l call).silent }

/-- The problem without its notes. -/
def Problem.silent (p : Problem) : Problem :=
  { p with evaluate := fun ctx l candidates => (p.evaluate ctx l candidates).silent }

/-- Only the monitor of a name is heard. -/
def MonitorSlot.hearing (name : String) (slot : MonitorSlot) : MonitorSlot :=
  if slot.name = name then slot else { slot with monitor := slot.monitor.silent }

namespace Workflow

/-- The workflow of which only the monitor of a name is heard. -/
def hearing (name : String) (w : Workflow) : Workflow :=
  { w with problem := w.problem.silent, monitors := w.monitors.map (MonitorSlot.hearing name) }

variable {w : Workflow} {name : String}

/-- A listener does not change what a call to the monitors gives. -/
theorem outcome_dispatch_hearing {call : HookCall} {generation : UInt64} {index : Nat} :
    ∀ {slots : List MonitorSlot} {s : State},
      (dispatch call generation index (slots.map (MonitorSlot.hearing name)) s).outcome =
        (dispatch call generation index slots s).outcome
  | [], _ => rfl
  | slot :: rest, s => by
    -- whether a monitor is heard shows in its notes only
    have hhooks : (slot.hearing name).monitor.hooks = slot.monitor.hooks := by
      rw [MonitorSlot.hearing]
      split <;> rfl
    have hnode : (slot.hearing name).node = slot.node := by
      rw [MonitorSlot.hearing]
      split <;> rfl
    have hobserve : ∀ ctx l, ((slot.hearing name).monitor.observe ctx l call).outcome =
        (slot.monitor.observe ctx l call).outcome := by
      intro ctx l
      rw [MonitorSlot.hearing]
      split <;> rfl
    rw [List.map_cons, dispatch, dispatch, hhooks, hnode]
    split
    · simp only [Traced.outcome_bind, Traced.outcome_liftM, hobserve]
      congr 1
      funext l
      congr 1
      funext seen
      cases seen with
      | none => exact outcome_dispatch_hearing
      | some l' =>
        simp only [Traced.outcome_bind, Traced.outcome_liftM, outcome_dispatch_hearing]
    · exact outcome_dispatch_hearing

theorem outcome_observed_hearing (call : HookCall) (i : Nat) (lane : Lane) :
    ((w.hearing name).observed call i lane).outcome = (w.observed call i lane).outcome := by
  simp only [observed, hearing, Traced.outcome_bind, outcome_dispatch_hearing]

theorem outcome_evaluate_hearing (i : Nat) (lane : AskedLane) :
    ((w.hearing name).evaluate i lane).outcome = (w.evaluate i lane).outcome := by
  simp only [evaluate, hearing, Problem.silent, Traced.outcome_bind, Traced.outcome_liftM,
    Traced.outcome_silent]

/-- Nor does it change what the lanes give in lockstep. -/
theorem outcome_lockstep_hearing (lanes : List Lane) :
    ((w.hearing name).stages.lockstep lanes).outcome = (w.stages.lockstep lanes).outcome := by
  simp only [stages, Pipeline.lockstep, Traced.outcome_bind, outcome_runStage,
    outcome_observed_hearing, outcome_evaluate_hearing]
  rfl

theorem outcome_laneStep_hearing (i : Nat) (l : State) :
    ((w.hearing name).laneStep i l).outcome = (w.laneStep i l).outcome := by
  simp only [laneStep, stages, Pipeline.alone, Traced.outcome_bind, outcome_observed_hearing,
    outcome_evaluate_hearing]
  rfl

/-- A step gives the same, whether its events are heard or not. -/
theorem outcome_step_hearing (s : State) :
    ((w.hearing name).step s).outcome = (w.step s).outcome := by
  simp only [step, outcome_stepBy, outcome_lockstep_hearing]
  rfl

/-- So does a batched run. -/
theorem outcome_runBatched_hearing {pred : State → Outcome Bool} {steps : Nat} :
    ∀ {s : State}, ((w.hearing name).runBatched pred steps s).outcome =
      (w.runBatched pred steps s).outcome := by
  induction steps with
  | zero => exact rfl
  | succ steps ih =>
    intro s
    simp only [runBatched, Traced.outcome_bind, Traced.outcome_liftM, apply_ite Traced.outcome,
      outcome_step_hearing, ih]
    rfl

/-- So does a run without batch dimensions. -/
theorem outcome_runUnbatched_hearing {pred : State → Outcome Bool} {steps : Nat} :
    ∀ {s : State}, ((w.hearing name).runUnbatched pred steps s).outcome =
      (w.runUnbatched pred steps s).outcome := by
  induction steps with
  | zero => exact rfl
  | succ steps ih =>
    intro s
    simp only [runUnbatched, Traced.outcome_bind, Traced.outcome_liftM, apply_ite Traced.outcome,
      outcome_step_hearing, ih]

/-- Who is heard makes no difference to what a loop does. -/
theorem outcome_runWhile_hearing {pred : State → Outcome Bool} {steps : Nat} {s : State} :
    ((w.hearing name).runWhile pred steps s).outcome = (w.runWhile pred steps s).outcome := by
  simp only [runWhile, apply_ite Traced.outcome, Traced.outcome_bind, Traced.outcome_liftM,
    outcome_runBatched_hearing, outcome_runUnbatched_hearing]
  rfl

end Workflow

/-! ## What an evaluation monitor notes -/

namespace EvaluationMonitor

variable {c : EvaluationConfig} {ctx : HookContext}

/-- An event carries the lane of the context that it is reported from. -/
theorem signs_report (listens : Bool) (ctx : HookContext) (level : EventLevel) (kind : EventKind) :
    (report listens ctx level kind).Signs ctx.lane := by
  rw [report]
  split
  · exact List.forall_mem_singleton.2 rfl
  · exact .pure ()

theorem signs_recordBest (listens : Bool) (l : LocalState) (candidates : Candidates)
    (fitness : List Float) : (recordBest c listens ctx l candidates fitness).Signs ctx.lane := by
  refine .liftM_bind fun previous => ?_
  split
  · exact .liftM_bind fun l' => .bind (signs_report _ _ _ _) fun _ => .ofOutcome _
  · refine .liftM_bind fun stagnation => ?_
    dsimp only
    split
    · exact .bind (signs_report _ _ _ _) fun _ => .ofOutcome _
    · exact .ofOutcome _

/-- All that the monitor of evaluations reports carries the lane that it was shown. -/
theorem signs_record (listens : Bool) (l : LocalState) (candidates : Candidates)
    (fitness : Tensor) : (record c listens ctx l candidates fitness).Signs ctx.lane := by
  have hbest : ∀ l : LocalState, (if fitness.rank = 1 then
      recordBest c listens ctx l candidates fitness.data else pure l).Signs ctx.lane := by
    intro l
    split
    · exact signs_recordBest listens l candidates fitness.data
    · exact .pure l
  have hall : ∀ (l : LocalState) (count total : Nat), (if 0 < count then do
      report listens ctx .warning (.nonFinite count total)
      if fitness.rank = 1 then recordBest c listens ctx l candidates fitness.data else pure l
      else if fitness.rank = 1 then recordBest c listens ctx l candidates fitness.data
        else pure l).Signs ctx.lane := by
    intro l count total
    split
    · exact .bind (signs_report _ _ _ _) fun _ => hbest l
    · exact hbest l
  refine .liftM_bind fun before => .liftM_bind fun count => ?_
  dsimp only
  split
  · exact .bind (.ofOutcome _) fun _ => hall _ _ _
  · exact hall _ _ _

/-- An evaluation monitor signs its events with the lane. -/
theorem signs_observe (c : EvaluationConfig) (listens : Bool) (l : LocalState) (call : HookCall) :
    ((Monitor.evaluation c listens).observe ctx l call).Signs ctx.lane := by
  cases call with
  | postAsk candidates => exact .ofOutcome _
  | postEval candidates fitness =>
    exact .bind (signs_record listens l candidates fitness) fun _ => .pure _
  | _ => exact .pure none

end EvaluationMonitor

namespace Workflow

variable {w : Workflow} {name : String}

/-- When all monitors of the name are evaluation monitors, all that is heard is signed. -/
theorem signs_hearing (hname : ∀ slot ∈ w.monitors, slot.name = name →
    ∃ c listens, slot.monitor = .evaluation c listens) : (w.hearing name).Signs where
  evaluate := fun _ _ _ => .ofOutcome _
  observe := by
    intro slot hslot ctx l call
    obtain ⟨slot, hmem, rfl⟩ := List.mem_map.1 hslot
    rw [MonitorSlot.hearing]
    split
    · next hslot =>
      obtain ⟨c, listens, hmonitor⟩ := hname slot hmem hslot
      rw [hmonitor]
      exact EvaluationMonitor.signs_observe c listens l call
    · exact .ofOutcome _

/-- Who is heard makes no difference to the order of tables. -/
theorem KeepsOrder.hearing (hw : w.KeepsOrder) (name : String) : (w.hearing name).KeepsOrder where
  ask := hw.ask
  tell := hw.tell
  evaluate := hw.evaluate
  observe := by
    intro slot ctx l call l' hslot hs hl h
    obtain ⟨slot, hmem, rfl⟩ := List.mem_map.1 hslot
    rw [MonitorSlot.hearing] at h
    split at h
    · exact hw.observe hmem hs hl h
    · exact hw.observe hmem hs hl h

end Workflow

end Lockstep
