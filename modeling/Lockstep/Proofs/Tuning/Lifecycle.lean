import Lockstep.Proofs.Tuning.Bookkeeping
import Lockstep.Sample

/-!
# The course of a tuning run

Beside its trials, the record of a run says whether the run was started, in which stage it is,
whether it came to an end and with which failure (`TuningRun.course`). Batches leave all of that
alone (`Tuner.Batch.course`), and the end of a run writes it (`Tuner.Ends.writes`). So after any
number of runs the record says how the last one ended (`Tuner.course_after_runs`), with one
exception: a run that succeeds leaves the failure of an earlier one where it stands
(`Tuner.stale_failure`).
-/

namespace Lockstep

/-- What the record of a run says about its course. -/
def TuningRun.course (r : TuningRun) : Stage × Bool × Bool × Option String :=
  (r.stage, r.started, r.finished, r.error)

theorem TuningRun.course_updateBest (run : TuningRun) (r : TrialResult) :
    (run.updateBest r).course = run.course := by
  rw [updateBest]
  split
  · rfl
  · split
    · rfl
    · split <;> rfl

namespace Tuner

variable {σ : Type}

/-! ## Batches leave the course of a run alone -/

/-- Recording a trial does not touch the course of the run. -/
theorem course_record (t : Tuner σ) (trial : Trial) (row : List Float) :
    (t.record trial row).1.run.course = t.run.course := by
  rw [record]
  split
  · exact TuningRun.course_updateBest t.run _
  · rfl

theorem course_evaluate (t : Tuner σ) (settings : List Setting) :
    (t.evaluate settings).1.run.course = t.run.course :=
  have hkeeps : Keeps t.strategy fun _ run => run.course :=
    fun u trial row _ => u.course_record trial row
  hkeeps.evaluate (fun _ _ _ => rfl) rfl settings

variable {t u : Tuner σ} {o : Outcome Unit}

theorem Batch.course (h : t.Batch u) : u.run.course = t.run.course := by
  cases h with
  | intro settings memory hremaining hask hsettings hok => exact course_evaluate _ settings

/-- No batch touches it. -/
theorem course_of_batches (h : Relation.ReflTransGen Batch t u) : u.run.course = t.run.course := by
  induction h with
  | refl => rfl
  | tail hrun hbatch ih => exact hbatch.course.trans ih

/-! ## The end of a run writes it -/

/-- The text of the failure that a run returns, if it returns one. A run that is cut short returns
nothing at all. -/
def failure? : Outcome Unit → Option String
  | .ok () => none
  | .error (.abort _) => none
  | .error e => some e.message

/-- A failure is reported with the message of its error. -/
theorem failure?_error {e : Error} (h : ∀ a, e ≠ .abort a) :
    failure? (.error e) = some e.message := by
  cases e with
  | abort a => exact absurd rfl (h a)
  | _ => rfl

/-- What a run with an outcome makes of a record. -/
structure Writes (o : Outcome Unit) (before after : TuningRun) : Prop where
  started : after.started = true
  completed : o = .ok () → after.stage = .completed ∧ after.finished = true
  failed : ∀ text, failure? o = some text → after.stage = .failed ∧ after.finished = true
  /-- only another failure takes the place of a failure -/
  error : after.error = (failure? o).or before.error

/-- The end of a run writes its course. -/
theorem Ends.writes (h : t.Ends u o) (hstarted : t.run.started = true) :
    Writes o t.run u.run := by
  have heval (settings : List Setting) (memory : σ) :
      (evaluate { t with memory } settings).1.run.course = t.run.course :=
    course_evaluate { t with memory } settings
  cases h with
  | enough hremaining => exact ⟨hstarted, fun _ => ⟨rfl, rfl⟩, nofun, rfl⟩
  | exhausted memory hremaining hask => exact ⟨hstarted, fun _ => ⟨rfl, rfl⟩, nofun, rfl⟩
  | cutAsking a hremaining hask => exact ⟨hstarted, nofun, nofun, rfl⟩
  | cut settings memory a hremaining hask hsettings hcut =>
    obtain ⟨-, hcourse⟩ := Prod.mk.inj (heval settings memory)
    obtain ⟨hstart, hcourse⟩ := Prod.mk.inj hcourse
    exact ⟨hstart.trans hstarted, nofun, nofun, (Prod.mk.inj hcourse).2⟩
  | failed settings memory e hremaining hask hsettings hfailed habort =>
    obtain ⟨-, hcourse⟩ := Prod.mk.inj (heval settings memory)
    obtain ⟨hstart, -⟩ := Prod.mk.inj hcourse
    refine ⟨hstart.trans hstarted, nofun, fun _ _ => ⟨rfl, rfl⟩, ?_⟩
    rw [failure?_error habort]
    rfl

/-- A run, however it ends, writes how it ended. -/
theorem writes_start (t : Tuner σ) : Writes t.start.2.outcome t.run t.start.1.run := by
  obtain ⟨u, hbatches, hends⟩ := t.exists_ends_start
  have hcourse := course_of_batches hbatches
  obtain ⟨-, hrest⟩ := Prod.mk.inj hcourse
  obtain ⟨hstarted, hrest⟩ := Prod.mk.inj hrest
  have hwrites := hends.writes hstarted
  exact ⟨hwrites.started, hwrites.completed, hwrites.failed,
    hwrites.error.trans (congrArg _ (Prod.mk.inj hrest).2)⟩

/-! ## Several runs -/

/-- The outcome of the run that comes after `runs` others. -/
def outcomeAfter (t : Tuner σ) (runs : Nat) : Outcome Unit := (t.after runs).start.2.outcome

/-- The texts of the failures of the first runs, in their order. -/
def failures (t : Tuner σ) (runs : Nat) : List String :=
  (List.range runs).filterMap fun run => failure? (t.outcomeAfter run)

theorem failures_succ (t : Tuner σ) (runs : Nat) :
    t.failures (runs + 1) = t.failures runs ++ (failure? (t.outcomeAfter runs)).toList := by
  rw [failures, List.range_succ, List.filterMap_append, ← failures]
  cases h : failure? (t.outcomeAfter runs) with
  | none => simp [h]
  | some text => simp [h]

/-- There are no failures just if no run failed. -/
theorem failures_eq_nil_iff {t : Tuner σ} {runs : Nat} :
    t.failures runs = [] ↔ ∀ run < runs, failure? (t.outcomeAfter run) = none := by
  simp only [failures, List.filterMap_eq_nil_iff, List.mem_range]

/-- The record keeps the latest failure of all runs. -/
theorem error_after {t : Tuner σ} (ht : t.run.error = none) (runs : Nat) :
    (t.after runs).run.error = (t.failures runs).getLast? := by
  induction runs with
  | zero => exact ht
  | succ runs ih =>
    rw [after_succ, (writes_start _).error, ih, failures_succ, List.getLast?_append]
    cases h : failure? (t.after runs).start.2.outcome with
    | none => simp [outcomeAfter, h]
    | some text => simp [outcomeAfter, h]

/-- After a run that succeeds the record is completed, and after one that fails it is failed with
the text of this failure; both times it has its start and its end. The record of a run that succeeds
has no failure exactly when no run before it returned one; else it has the latest of them. -/
theorem course_after_runs {p : TuningProblem} {c : TunerConfig} {new : Tuner Search}
    (hnew : Tuner.new p c = .ok new) {strategy : Strategy σ} {memory : σ} {t : Tuner σ}
    (ht : t = new.withStrategy strategy memory) (runs : Nat) {r : TuningRun}
    (hr : r = (t.after runs).start.1.run) :
    (t.outcomeAfter runs = .ok () →
      r.stage = .completed ∧ r.started = true ∧ r.finished = true ∧
      r.error = (t.failures runs).getLast? ∧
      (r.error = none ↔ ∀ run < runs, failure? (t.outcomeAfter run) = none)) ∧
    ∀ e, t.outcomeAfter runs = .error e → (∀ a, e ≠ .abort a) →
      r.stage = .failed ∧ r.started = true ∧ r.finished = true ∧ r.error = some e.message := by
  obtain ⟨-, -, hrun, -⟩ := new_eq_ok hnew
  have hnone : t.run.error = none := by
    rw [ht]
    exact congrArg TuningRun.error hrun
  have hwrites := writes_start (t.after runs)
  rw [← outcomeAfter, ← hr] at hwrites
  refine ⟨fun hok => ?_, fun e he habort => ?_⟩
  -- a run that succeeds leaves the error that is there
  · obtain ⟨hstage, hfinished⟩ := hwrites.completed hok
    have herror : r.error = (t.failures runs).getLast? := by
      rw [hwrites.error, hok, error_after hnone]
      rfl
    refine ⟨hstage, hwrites.started, hfinished, herror, ?_⟩
    rw [herror, List.getLast?_eq_none_iff, failures_eq_nil_iff]
  · have hfailure : failure? (t.outcomeAfter runs) = some e.message := by
      rw [he, failure?_error habort]
    obtain ⟨hstage, hfinished⟩ := hwrites.failed _ hfailure
    refine ⟨hstage, hwrites.started, hfinished, ?_⟩
    rw [hwrites.error, hfailure]
    rfl

/-- Two instances of an echo that no problem evaluates. -/
def unheardBuild : Outcome TuningProblem := do
  let w ← Workflow.build Workflow.echoAlgorithm (Sample.failing "no fitness")
    [(some "echo", Workflow.echoMonitor)] none {}
  let (w, s) ← w.init.outcome
  TuningProblem.new w s { iterations := 1, instances := 2 }

def unheardEchoes : TuningProblem := unheardBuild.toOption.get (by decide +kernel)

def unheardConfig : TunerConfig := { echoTunerConfig with maxTrials := 2 }

/-- Grid search over the rate of the echo, for two trials. -/
def unheardTuner : Tuner Search :=
  (Tuner.new unheardEchoes unheardConfig).toOption.get (by decide +kernel)

/-- The failure of the problem. -/
def unheardFailure : Error := .workflow (.component "problem" "no fitness")

/-- The first run fails with all trials, the second one has none left and succeeds. -/
theorem outcomes_unheardTuner :
    unheardTuner.outcomeAfter 0 = .error unheardFailure ∧ unheardTuner.outcomeAfter 1 = .ok () := by
  decide +kernel

theorem withStrategy_unheardTuner :
    unheardTuner.withStrategy Search.strategy unheardTuner.memory = unheardTuner := by
  have hnew : Tuner.new unheardEchoes unheardConfig = .ok unheardTuner := Outcome.eq_ok_get _
  rw [← (new_eq_ok hnew).2.1]
  rfl

theorem course_after_runs_unheardTuner :
    ∃ r r', r = (unheardTuner.after 0).start.1.run ∧ r' = (unheardTuner.after 1).start.1.run ∧
      r.stage = .failed ∧ r.error = some unheardFailure.message ∧ r'.stage = .completed ∧
      r'.started = true ∧ r'.finished = true := by
  have hnew : Tuner.new unheardEchoes unheardConfig = .ok unheardTuner := Outcome.eq_ok_get _
  obtain ⟨-, hfails⟩ := course_after_runs hnew withStrategy_unheardTuner.symm 0 rfl
  obtain ⟨hsucceeds, -⟩ := course_after_runs hnew withStrategy_unheardTuner.symm 1 rfl
  obtain ⟨hfailed, -, -, herror⟩ := hfails unheardFailure outcomes_unheardTuner.1 nofun
  obtain ⟨hcompleted, hstarted, hfinished, -, -⟩ := hsucceeds outcomes_unheardTuner.2
  exact ⟨_, _, rfl, rfl, hfailed, herror, hcompleted, hstarted, hfinished⟩

/-- A run can succeed and still have the failure of an earlier one in its record. -/
theorem stale_failure :
    unheardTuner.outcomeAfter 1 = .ok () ∧
      (unheardTuner.after 1).start.1.run.error = some unheardFailure.message := by
  decide +kernel

end Tuner

end Lockstep
