import Lockstep.Proofs.Binary64.Order
import Lockstep.Tuning.Tuner

/-!
# Lists of trials and their record

What a trial becomes does not depend on its tuner: `Trial.settle` is its end with its part of a
metric. A list of trials is `Numbered` when its numbers count through it and its slots through each
batch, and a tuning run is a `Tally` of it when its counts and its best result are those of the
list. Both are kept when a batch of trials is added (`Numbered.append`), whether it was measured
(`recordMetric_spec`) or failed as a whole (`Tally.recordFailure`).
-/

namespace Lockstep

/-! ## Better objectives -/

namespace Direction

variable {x y z : Float}

/-- Of two results only one improves on the other. -/
theorem improves_asymm (d : Direction) (hx : x.isNaN = false) (hy : y.isNaN = false)
    (h : d.improves x y = true) : d.improves y x = false := by
  cases d with
  | maximize =>
    exact decide_eq_false (Binary64.not_lt_of_lt hy hx (of_decide_eq_true h))
  | minimize =>
    exact decide_eq_false (Binary64.not_lt_of_lt hx hy (of_decide_eq_true h))

theorem improves_self (d : Direction) (hx : x.isNaN = false) : d.improves x x = false := by
  cases d with
  | maximize => exact decide_eq_false (Binary64.not_lt_self hx)
  | minimize => exact decide_eq_false (Binary64.not_lt_self hx)

/-- What improves on an objective improves on all that do not. -/
theorem improves_of_not_improves (d : Direction) (hx : x.isNaN = false) (hy : y.isNaN = false)
    (hz : z.isNaN = false) (h : d.improves x y = true) (hzy : d.improves z y = false) :
    d.improves x z = true := by
  cases d with
  | maximize =>
    exact decide_eq_true (Binary64.lt_of_not_lt_of_lt hz hy hx (of_decide_eq_false hzy)
      (of_decide_eq_true h))
  | minimize =>
    exact decide_eq_true (Binary64.lt_of_lt_of_not_lt hx hy hz (of_decide_eq_true h)
      (of_decide_eq_false hzy))

end Direction

/-! ## The end of a trial -/

namespace Trial

/-- A trial with its part of a metric: completed if the objective is finite, else failed. -/
def settle (trial : Trial) (row : List Float) : Trial :=
  let objective := row.headD (0 / 0)
  if objective.isFinite then
    trial.markCompleted ⟨trial.id, objective, Tuner.furtherMetrics row, trial.parameters⟩
  else trial.markFailed s!"objective {Decimal.plain.write objective} is not finite"

/-- A trial without an end. -/
structure Fresh (trial : Trial) : Prop where
  result : trial.result = none
  error : trial.error = none

/-- A trial with an end. -/
structure Settled (trial : Trial) : Prop where
  stage : trial.stage = .completed ∨ trial.stage = .failed
  completed : trial.stage = .completed ↔ trial.result.isSome = true
  failed : trial.stage = .failed ↔ trial.error.isSome = true ∧ trial.result = none
  /-- a result is about the trial itself -/
  own : ∀ r, trial.result = some r →
    r.objective.isFinite = true ∧ r.parameters = trial.parameters ∧ r.trial = trial.id

/-- A trial that is marked as failed is settled. -/
theorem Fresh.settled_markFailed {trial : Trial} (h : trial.Fresh) (error : String) :
    (trial.markFailed error).Settled where
  stage := .inr rfl
  completed := by simp [markFailed, h.result]
  failed := by simp [markFailed, h.result]
  own r hr := by
    rw [markFailed, h.result] at hr
    cases hr

/-- A trial that is marked as completed with a result of its own is settled. -/
theorem Fresh.settled_markCompleted {trial : Trial} (h : trial.Fresh) {r : TrialResult}
    (hfinite : r.objective.isFinite = true) (hparameters : r.parameters = trial.parameters)
    (htrial : r.trial = trial.id) : (trial.markCompleted r).Settled where
  stage := .inl rfl
  completed := by simp [markCompleted]
  failed := by simp [markCompleted, h.error]
  own r' hr := by
    obtain rfl := Option.some.inj hr
    exact ⟨hfinite, hparameters, htrial⟩

/-- The place of a trial in a list of trials, and its setting. -/
def label (trial : Trial) : TrialId × Nat × Setting := (trial.id, trial.number, trial.parameters)

theorem label_settle (trial : Trial) (row : List Float) :
    (trial.settle row).label = trial.label := by
  rw [settle]
  split <;> rfl

/-- The end of a trial without its place. -/
def outcome (trial : Trial) : Stage × Option String × Option (Float × Table Float) :=
  (trial.stage, trial.error, trial.result.map fun r => (r.objective, r.metrics))

/-- How a trial ends depends on its part of the metric only. -/
theorem outcome_settle {trial trial' : Trial} (h : trial.Fresh) (h' : trial'.Fresh)
    (row : List Float) : (trial.settle row).outcome = (trial'.settle row).outcome := by
  rw [settle, settle]
  split
  · simp only [outcome, markCompleted, h.error, h'.error, Option.map_some]
  · simp only [outcome, markFailed, h.result, h'.result]

/-- Trials with the rows of a metric. -/
def settleAll (trials : List Trial) (metric : Tensor) : List Trial :=
  trials.zipWith settle (metric.rows.map Tensor.data)

/-- Settling trials changes neither their numbers nor their parameters. -/
theorem map_label_settleAll {trials : List Trial} {metric : Tensor}
    (h : trials.length ≤ metric.rows.length) :
    (settleAll trials metric).map label = trials.map label := by
  rw [settleAll]
  rw [← List.length_map Tensor.data] at h
  generalize metric.rows.map Tensor.data = rows at h
  induction trials generalizing rows with
  | nil => rfl
  | cons trial trials ih =>
    cases rows with
    | nil => cases h
    | cons row rows =>
      rw [List.zipWith_cons_cons, List.map_cons, label_settle, ih rows (Nat.le_of_succ_le_succ h),
        List.map_cons]

/-- Every trial is settled with the row of the metric in its place. -/
theorem getElem?_settleAll {trials : List Trial} {metric : Tensor} {i : Nat} {trial : Trial}
    (h : (settleAll trials metric)[i]? = some trial) :
    ∃ before row, trials[i]? = some before ∧ metric.rows[i]? = some row ∧
      before.settle row.data = trial := by
  obtain ⟨before, data, hbefore, hdata, hsettle⟩ := List.getElem?_zipWith_eq_some.1 h
  rw [List.getElem?_map] at hdata
  obtain ⟨row, hrow, rfl⟩ := Option.map_eq_some_iff.1 hdata
  exact ⟨before, row, hbefore, hrow, hsettle⟩

theorem length_settleAll {trials : List Trial} {metric : Tensor}
    (h : trials.length ≤ metric.rows.length) :
    (settleAll trials metric).length = trials.length := by
  rw [settleAll, List.length_zipWith, List.length_map, min_eq_left h]

end Trial

/-! ## Numbers and slots -/

/-- The numbers of trials count through the list, batches follow one another, and the slots of each
batch are counted from zero on. -/
structure Numbered (instances : Nat) (trials : List Trial) : Prop where
  number : ∀ (i : Nat) (trial : Trial), trials[i]? = some trial → trial.number = i
  batches : trials.Pairwise fun earlier later => earlier.id.batch ≤ later.id.batch
  /-- a slot is the count of the earlier trials of the same batch -/
  slot : ∀ (i : Nat) (trial : Trial), trials[i]? = some trial →
    trial.id.slot = (trials.take i).countP fun earlier => earlier.id.batch = trial.id.batch
  slot_lt : ∀ trial ∈ trials, trial.id.slot < instances

/-- A batch of trials as it follows a list of trials. -/
structure Follows (batch : Nat) (trials later : List Trial) : Prop where
  number : ∀ (i : Nat) (trial : Trial), later[i]? = some trial → trial.number = trials.length + i
  id : ∀ (i : Nat) (trial : Trial), later[i]? = some trial → trial.id = ⟨batch, i⟩

/-- Trials keep their places when they are settled. -/
theorem Follows.of_label {batch : Nat} {trials later done : List Trial}
    (h : Follows batch trials later) (hdone : done.map Trial.label = later.map Trial.label) :
    Follows batch trials done := by
  have hlabel (i : Nat) (trial : Trial) (htrial : done[i]? = some trial) :
      ∃ before, later[i]? = some before ∧ trial.id = before.id ∧ trial.number = before.number := by
    have hi : (later.map Trial.label)[i]? = some trial.label := by
      rw [← hdone, List.getElem?_map, htrial, Option.map_some]
    rw [List.getElem?_map] at hi
    obtain ⟨before, hbefore, heq⟩ := Option.map_eq_some_iff.1 hi
    obtain ⟨hid, hrest⟩ := Prod.mk.inj heq
    exact ⟨before, hbefore, hid.symm, (Prod.mk.inj hrest).1.symm⟩
  constructor
  · intro i trial htrial
    obtain ⟨before, hbefore, -, hnumber⟩ := hlabel i trial htrial
    rw [hnumber, h.number i before hbefore]
  · intro i trial htrial
    obtain ⟨before, hbefore, hid, -⟩ := hlabel i trial htrial
    rw [hid, h.id i before hbefore]

/-- The trials of a batch follow the earlier ones. -/
theorem follows_trialsOf {σ : Type} (t : Tuner σ) (settings : List Setting) :
    Follows t.batches t.trials (t.trialsOf settings) := by
  constructor <;>
  · intro i trial htrial
    rw [Tuner.trialsOf, List.getElem?_mapIdx] at htrial
    obtain ⟨parameters, -, rfl⟩ := Option.map_eq_some_iff.1 htrial
    rfl

theorem numbered_nil (instances : Nat) : Numbered instances [] where
  number i trial h := by cases h
  batches := .nil
  slot i trial h := by cases h
  slot_lt trial h := by cases h

/-- A trial of a batch is in one of its slots. -/
theorem Follows.exists_slot {batch : Nat} {trials later : List Trial}
    (h : Follows batch trials later) {trial : Trial} (htrial : trial ∈ later) :
    ∃ i < later.length, trial.id = ⟨batch, i⟩ := by
  obtain ⟨i, hi⟩ := List.mem_iff_getElem?.1 htrial
  exact ⟨i, (List.getElem?_eq_some_iff.1 hi).1, h.id i trial hi⟩

/-- In a batch, a slot is the count of the trials before it. -/
theorem Follows.countP_take {batch : Nat} {trials later : List Trial}
    (h : Follows batch trials later) {i : Nat} (hi : i ≤ later.length) :
    (later.take i).countP (fun earlier => earlier.id.batch = batch) = i := by
  rw [List.countP_eq_length.2, List.length_take, min_eq_left hi]
  intro trial htrial
  obtain ⟨k, -, hk⟩ := h.exists_slot (List.mem_of_mem_take htrial)
  rw [hk, decide_eq_true_eq]

/-- A batch with a new number can be added. -/
theorem Numbered.append {instances batch : Nat} {trials later : List Trial}
    (h : Numbered instances trials) (hnew : ∀ trial ∈ trials, trial.id.batch < batch)
    (hlater : Follows batch trials later) (hlength : later.length ≤ instances) :
    Numbered instances (trials ++ later) where
  number i trial htrial := by
    rcases Nat.lt_or_ge i trials.length with hi | hi
    · rw [List.getElem?_append_left hi] at htrial
      exact h.number i trial htrial
    · rw [List.getElem?_append_right hi] at htrial
      rw [hlater.number _ trial htrial]
      omega
  batches := by
    refine List.pairwise_append.2 ⟨h.batches, ?_, ?_⟩
    · refine List.pairwise_of_forall_mem_list fun a ha b hb => ?_
      obtain ⟨i, -, hi⟩ := hlater.exists_slot ha
      obtain ⟨j, -, hj⟩ := hlater.exists_slot hb
      rw [hi, hj]
    · intro a ha b hb
      obtain ⟨j, -, hj⟩ := hlater.exists_slot hb
      rw [hj]
      exact (hnew a ha).le
  slot i trial htrial := by
    rcases Nat.lt_or_ge i trials.length with hi | hi
    · rw [List.getElem?_append_left hi] at htrial
      rw [List.take_append_of_le_length hi.le]
      exact h.slot i trial htrial
    · rw [List.getElem?_append_right hi] at htrial
      have hlt := (List.getElem?_eq_some_iff.1 htrial).1
      -- no earlier batch has the new number, so the count starts with the batch
      have hnone : trials.countP (fun earlier => earlier.id.batch = batch) = 0 := by
        refine List.countP_eq_zero.2 fun earlier hearlier => ?_
        rw [decide_eq_true_eq]
        exact (hnew earlier hearlier).ne
      rw [hlater.id _ trial htrial, List.take_append, List.take_of_length_le hi, List.countP_append,
        hnone, hlater.countP_take hlt.le, Nat.zero_add]
  slot_lt trial htrial := by
    rcases List.mem_append.1 htrial with htrial | htrial
    · exact h.slot_lt trial htrial
    · obtain ⟨i, hi, hid⟩ := hlater.exists_slot htrial
      rw [hid]
      exact hi.trans_le hlength

/-! ## Counts and the best result -/

/-- The result of the first trial with the best objective. -/
structure FirstBest (d : Direction) (trials : List Trial) (best : TrialResult) : Prop where
  unbeaten : ∀ trial ∈ trials, ∀ r, trial.result = some r →
    d.improves r.objective best.objective = false
  first : ∃ (i : Nat) (trial : Trial), trials[i]? = some trial ∧ trial.result = some best ∧
    ∀ earlier ∈ trials.take i, ∀ r, earlier.result = some r →
      d.improves best.objective r.objective = true

/-- A trial that does not improve on the best one can be added. -/
theorem FirstBest.concat {d : Direction} {trials : List Trial} {best : TrialResult}
    (h : FirstBest d trials best) {trial : Trial}
    (htrial : ∀ r, trial.result = some r → d.improves r.objective best.objective = false) :
    FirstBest d (trials ++ [trial]) best where
  unbeaten := List.forall_mem_append.2 ⟨h.unbeaten, List.forall_mem_singleton.2 htrial⟩
  first := by
    obtain ⟨i, found, hfound, hresult, hearlier⟩ := h.first
    have hi := (List.getElem?_eq_some_iff.1 hfound).1
    exact ⟨i, found, by rw [List.getElem?_append_left hi, hfound], hresult,
      by rwa [List.take_append_of_le_length hi.le]⟩

/-- A trial that improves on all is the best one when it is added. -/
theorem firstBest_concat {d : Direction} {trials : List Trial} {trial : Trial} {r : TrialResult}
    (hresult : trial.result = some r) (hnan : ∀ u ∈ trials ++ [trial], ∀ r', u.result = some r' →
      r'.objective.isNaN = false)
    (himproves : ∀ u ∈ trials, ∀ r', u.result = some r' →
      d.improves r.objective r'.objective = true) : FirstBest d (trials ++ [trial]) r where
  unbeaten := by
    have hr := hnan trial (by simp) r hresult
    refine List.forall_mem_append.2
      ⟨fun u hu r' hr' => ?_, List.forall_mem_singleton.2 fun r' hr' => ?_⟩
    · exact d.improves_asymm hr (hnan u (List.mem_append_left _ hu) r' hr') (himproves u hu r' hr')
    · obtain rfl : r = r' := Option.some.inj (hresult.symm.trans hr')
      exact d.improves_self hr
  first := ⟨trials.length, trial, by simp, hresult, by
    rwa [List.take_append_of_le_length le_rfl, List.take_length]⟩

/-- A tuning run has the counts and the best result of a list of settled trials. -/
structure Tally (run : TuningRun) (trials : List Trial) : Prop where
  settled : ∀ trial ∈ trials, trial.Settled
  completed : run.completed = trials.countP fun trial => trial.stage = .completed
  failed : run.failed = trials.countP fun trial => trial.stage = .failed
  best_eq_none : run.best = none → ∀ trial ∈ trials, trial.result = none
  best : ∀ r, run.best = some r → FirstBest run.config.direction trials r

/-- A run that has just started has the counts of no trial. -/
theorem tally_nil {run : TuningRun} (hcompleted : run.completed = 0) (hfailed : run.failed = 0)
    (hbest : run.best = none) : Tally run [] where
  settled trial h := by cases h
  completed := hcompleted
  failed := hfailed
  best_eq_none _ trial h := by cases h
  best r hr := by
    rw [hbest] at hr
    cases hr

/-- The stages in which a run begins and ends are not counted. -/
theorem Tally.of_eq {run run' : TuningRun} {trials : List Trial} (h : Tally run trials)
    (hconfig : run'.config = run.config) (hcompleted : run'.completed = run.completed)
    (hfailed : run'.failed = run.failed) (hbest : run'.best = run.best) : Tally run' trials where
  settled := h.settled
  completed := hcompleted.trans h.completed
  failed := hfailed.trans h.failed
  best_eq_none := hbest ▸ h.best_eq_none
  best := hconfig ▸ hbest ▸ h.best

/-- The two counts of a run add up to its trials. -/
theorem Tally.length {run : TuningRun} {trials : List Trial} (h : Tally run trials) :
    run.completed + run.failed = trials.length := by
  have hfailed : trials.countP (fun trial => trial.stage = .failed) =
      trials.countP (fun trial => ¬ decide (trial.stage = .completed) = true) := by
    refine List.countP_congr fun trial htrial => ?_
    rcases (h.settled trial htrial).stage with hstage | hstage <;> simp [hstage]
  rw [h.completed, h.failed, hfailed, ← List.length_eq_countP_add_countP]

/-- A failed trial can be added. -/
theorem Tally.concat_failed {run : TuningRun} {trials : List Trial} {trial : Trial}
    (h : Tally run trials) (htrial : trial.Fresh) (error : String) :
    Tally { run with failed := run.failed + 1 } (trials ++ [trial.markFailed error]) where
  settled := List.forall_mem_append.2 ⟨h.settled, by simpa using htrial.settled_markFailed error⟩
  completed := by
    rw [List.countP_append, ← h.completed]
    rfl
  failed := by
    rw [List.countP_append, ← h.failed]
    rfl
  best_eq_none hbest := List.forall_mem_append.2
    ⟨h.best_eq_none hbest, by simpa [Trial.markFailed] using htrial.result⟩
  best r hr := (h.best r hr).concat fun r' hr' => by
    rw [Trial.markFailed, htrial.result] at hr'
    cases hr'

/-- The best result after another one. -/
theorem TuningRun.updateBest_eq {run : TuningRun} {r : TrialResult}
    (hr : r.objective.isNaN = false) :
    run.updateBest r = { run with best := some (run.best.elim r fun best =>
      if run.config.direction.improves r.objective best.objective then r else best) } := by
  obtain ⟨config, stage, completed, failed, best, started, finished, error⟩ := run
  rw [updateBest, hr]
  cases best with
  | none => rfl
  | some best =>
    simp only [Bool.false_eq_true, if_false, Option.elim_some]
    split <;> rfl

theorem TuningRun.config_updateBest (run : TuningRun) (r : TrialResult) :
    (run.updateBest r).config = run.config := by
  rw [updateBest]
  split
  · rfl
  · split
    · rfl
    · split <;> rfl

/-- The best result after a completed trial. -/
theorem Tally.firstBest_concat {run : TuningRun} {trials : List Trial} {trial : Trial}
    (h : Tally run trials) {r : TrialResult} (hresult : trial.result = some r)
    (hsettled : ∀ u ∈ trials ++ [trial], u.Settled) :
    FirstBest run.config.direction (trials ++ [trial]) (run.best.elim r fun best =>
      if run.config.direction.improves r.objective best.objective then r else best) := by
  have hnan : ∀ u ∈ trials ++ [trial], ∀ r', u.result = some r' → r'.objective.isNaN = false :=
    fun u hu r' hr' => Binary64.isNaN_of_isFinite ((hsettled u hu).own r' hr').1
  cases hbest : run.best with
  | none =>
    refine Lockstep.firstBest_concat hresult hnan fun u hu r' hr' => ?_
    rw [h.best_eq_none hbest u hu] at hr'
    cases hr'
  | some best =>
    have hfirst := h.best best hbest
    simp only [Option.elim_some]
    split
    · -- the new result improves on the best one, so on all that did not
      next himproves =>
      have hold (u : Trial) (hu : u ∈ trials) := hnan u (List.mem_append_left _ hu)
      obtain ⟨i, found, hfound, hfoundResult, -⟩ := hfirst.first
      have hbestNaN := hold found (List.mem_of_getElem? hfound) best hfoundResult
      exact Lockstep.firstBest_concat hresult hnan fun u hu r' hr' =>
        Direction.improves_of_not_improves _ (hnan trial (by simp) r hresult) hbestNaN
          (hold u hu r' hr') himproves (hfirst.unbeaten u hu r' hr')
    · -- a tie leaves the first one
      next himproves =>
      refine hfirst.concat fun r' hr' => ?_
      obtain rfl : r = r' := Option.some.inj (hresult.symm.trans hr')
      exact Bool.eq_false_of_not_eq_true himproves

/-- A completed trial can be added. -/
theorem Tally.concat_completed {run : TuningRun} {trials : List Trial} {trial : Trial}
    (h : Tally run trials) (htrial : trial.Fresh) {r : TrialResult}
    (hfinite : r.objective.isFinite = true) (hparameters : r.parameters = trial.parameters)
    (hid : r.trial = trial.id) :
    Tally { run.updateBest r with completed := (run.updateBest r).completed + 1 }
      (trials ++ [trial.markCompleted r]) := by
  have hsettled : ∀ u ∈ trials ++ [trial.markCompleted r], u.Settled :=
    List.forall_mem_append.2 ⟨h.settled, List.forall_mem_singleton.2
      (htrial.settled_markCompleted hfinite hparameters hid)⟩
  rw [TuningRun.updateBest_eq (Binary64.isNaN_of_isFinite hfinite)]
  refine ⟨hsettled, ?_, ?_, fun hbest => (Option.some_ne_none _ hbest).elim, fun r' hr' => ?_⟩
  · rw [List.countP_append, ← h.completed]
    rfl
  · rw [List.countP_append, ← h.failed]
    rfl
  · obtain rfl := Option.some.inj hr'
    exact h.firstBest_concat rfl hsettled

/-! ## Recording a batch -/

namespace Tuner

variable {σ : Type}

/-- The trials of a batch are fresh. -/
theorem fresh_of_mem_trialsOf {t : Tuner σ} {settings : List Setting} {trial : Trial}
    (h : trial ∈ t.trialsOf settings) : trial.Fresh := by
  obtain ⟨i, -, rfl⟩ := List.mem_mapIdx.1 h
  exact ⟨rfl, rfl⟩

theorem length_trialsOf (t : Tuner σ) (settings : List Setting) :
    (t.trialsOf settings).length = settings.length := List.length_mapIdx

/-- The tuner after a trial: what is remembered and the record of the run. -/
theorem record_eq (t : Tuner σ) (trial : Trial) (row : List Float) :
    ∃ memory run, t.record trial row = ({ t with memory, run }, trial.settle row) ∧
      run.config = t.run.config := by
  rw [record, Trial.settle]
  split
  · exact ⟨_, _, rfl, TuningRun.config_updateBest _ _⟩
  · exact ⟨_, _, rfl, rfl⟩

end Tuner

/-- Recording a trial adds it to the tally. -/
theorem Tally.record {σ : Type} {t : Tuner σ} {trials : List Trial} (h : Tally t.run trials)
    {trial : Trial} (htrial : trial.Fresh) (row : List Float) :
    Tally (t.record trial row).1.run (trials ++ [trial.settle row]) := by
  rw [Tuner.record, Trial.settle]
  split
  · next hfinite =>
    exact h.concat_completed htrial (r :=
      ⟨trial.id, row.headD (0 / 0), Tuner.furtherMetrics row, trial.parameters⟩) hfinite rfl rfl
  · exact h.concat_failed htrial _

/-- Recording trials one after another settles each with its part of the metric, adds all of them to
the tally and changes nothing but what is remembered and the record of the run. -/
theorem recordAll_spec {σ : Type} :
    ∀ {entries : List (Trial × List Float)} {t : Tuner σ}, (∀ e ∈ entries, e.1.Fresh) →
      ∃ memory run, t.recordAll entries =
          ({ t with memory, run }, entries.map fun e => e.1.settle e.2) ∧
        run.config = t.run.config ∧
        ∀ trials, Tally t.run trials → Tally run (trials ++ entries.map fun e => e.1.settle e.2)
  | [], t, _ => ⟨t.memory, t.run, rfl, rfl, fun trials h => by rwa [List.map_nil, List.append_nil]⟩
  | (trial, row) :: rest, t, hfresh => by
    obtain ⟨htrial, hrest⟩ := List.forall_mem_cons.1 hfresh
    obtain ⟨memory, run, hrecord, hconfig⟩ := t.record_eq trial row
    obtain ⟨memory', run', hall, hconfig', htally⟩ :=
      recordAll_spec (t := { t with memory, run }) hrest
    refine ⟨memory', run', ?_, hconfig'.trans hconfig, fun trials h => ?_⟩
    · rw [Tuner.recordAll, hrecord]
      simp only [hall, List.map_cons]
    · have hone := h.record htrial row
      rw [hrecord] at hone
      rw [List.map_cons, List.append_cons]
      exact htally _ hone

/-- Recording trials with a metric. If a trial has no row in it, none is added. -/
theorem recordMetric_spec {σ : Type} (t : Tuner σ) {trials : List Trial} (metric : Tensor)
    (hfresh : ∀ trial ∈ trials, trial.Fresh) :
    ∃ memory run, t.recordMetric trials metric = (
        if trials.length ≤ metric.rows.length then
          ({ t with memory, run, trials := t.trials ++ Trial.settleAll trials metric }, .ok ())
        else ({ t with memory, run }, .error (.abort .missingRow))) ∧
      run.config = t.run.config ∧
      ∀ before, Tally t.run before → Tally run (before ++ Trial.settleAll trials metric) := by
  have hentries : ∀ e ∈ trials.zip (metric.rows.map Tensor.data), e.1.Fresh :=
    fun e he => hfresh e.1 (List.of_mem_zip he).1
  obtain ⟨memory, run, hall, hconfig, htally⟩ := recordAll_spec (t := t) hentries
  have hdone : (trials.zip (metric.rows.map Tensor.data)).map (fun e => e.1.settle e.2) =
      Trial.settleAll trials metric := List.map_uncurry_zip_eq_zipWith (f := Trial.settle)
  rw [hdone] at hall htally
  refine ⟨memory, run, ?_, hconfig, htally⟩
  simp only [Tuner.recordMetric, hall, List.length_map]

/-- A batch that failed as a whole can be added. -/
theorem Tally.recordFailure {run : TuningRun} (error : String) :
    ∀ {later trials : List Trial}, Tally run trials → (∀ trial ∈ later, trial.Fresh) →
      Tally { run with failed := run.failed + later.length }
        (trials ++ later.map fun trial => trial.markFailed error)
  | [], trials, h, _ => by rwa [List.map_nil, List.append_nil]
  | trial :: later, trials, h, hfresh => by
    obtain ⟨htrial, hrest⟩ := List.forall_mem_cons.1 hfresh
    have hlater := Tally.recordFailure error (h.concat_failed htrial error) hrest
    rw [List.map_cons, List.append_cons]
    have hcount : run.failed + (trial :: later).length = run.failed + 1 + later.length := by
      rw [List.length_cons]
      omega
    exact hlater.of_eq rfl rfl hcount rfl

end Lockstep
