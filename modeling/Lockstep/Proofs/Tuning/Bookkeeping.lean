import Lockstep.Proofs.Tuning.History
import Lockstep.Proofs.Tuning.Requests
import Lockstep.Proofs.Tuning.Trials
import Mathlib.Logic.Relation

/-!
# The books of a tuner

An evaluation ends in one of five ways (`Tuner.Evaluated`), and each of them keeps the books of a
tuner (`Tuner.Books`): its trials are numbered and settled and its record tallies them. A run is a
chain of successful batches (`Tuner.Batch`) with an end (`Tuner.Ends`), so that the books are right
after any number of runs, however they ended (`Tuner.books_after_runs`).
-/

namespace Lockstep

/-- The strategy never suggests more settings than it is asked for. -/
def Strategy.Bounded {σ : Type} (s : Strategy σ) : Prop :=
  ∀ count memory settings memory', s.suggest count memory = .ok (settings, memory') →
    settings.length ≤ count

/-- A search never suggests more settings than it is asked for. -/
theorem Search.bounded_strategy : Search.strategy.Bounded := by
  intro count memory settings memory' h
  change Search.suggest count memory = _ at h
  cases memory with
  | grid g =>
    obtain ⟨rfl, -⟩ := suggest_grid_eq_ok h
    exact List.length_take_le _ _
  | random r =>
    obtain ⟨r', hr, -⟩ := suggest_random_eq_ok h
    exact (RandomSearch.length_suggest hr).le

namespace Tuner

variable {σ : Type}

/-! ## One batch -/

/-- The ways in which the evaluation of a batch of settings ends. -/
inductive Evaluated (t : Tuner σ) (settings : List Setting) : Tuner σ → Outcome Unit → Prop
  /-- the settings do not fit the parameters -/
  | unfit (e : Error) (hbatch : batchOf t.problem settings = .error e) :
    Evaluated t settings t (.error e)
  /-- the evaluation is cut short -/
  | cut (batch : ParameterBatch) (a : Abort) (hbatch : batchOf t.problem settings = .ok batch) :
    Evaluated t settings
      { t with problem := (t.problem.evaluateBatch batch).2, batches := t.batches + 1 }
      (.error (.abort a))
  /-- there is no metric with a row for each instance -/
  | failed (batch : ParameterBatch) (e : Error) (hbatch : batchOf t.problem settings = .ok batch) :
    Evaluated t settings
      (recordFailure
        { t with problem := (t.problem.evaluateBatch batch).2, batches := t.batches + 1 }
        (t.trialsOf settings) e.message)
      (.error e)
  /-- there are more settings than instances -/
  | missing (batch : ParameterBatch) (memory : σ) (run : TuningRun)
    (hbatch : batchOf t.problem settings = .ok batch)
    (hlength : t.problem.config.instances < settings.length) (hconfig : run.config = t.run.config) :
    Evaluated t settings
      { t with
        problem := (t.problem.evaluateBatch batch).2
        batches := t.batches + 1
        memory
        run }
      (.error (.abort .missingRow))
  /-- there is a trial of every setting, with its row of the metric -/
  | measured (batch : ParameterBatch) (metric : Tensor) (memory : σ) (run : TuningRun)
    (hbatch : batchOf t.problem settings = .ok batch)
    (hmetric : (t.problem.evaluateBatch batch).1.outcome = .ok metric)
    (hinstances : metric.rows.length = t.problem.config.instances)
    (hrows : settings.length ≤ metric.rows.length) (hconfig : run.config = t.run.config)
    (htally : ∀ trials, Tally t.run trials →
      Tally run (trials ++ Trial.settleAll (t.trialsOf settings) metric)) :
    Evaluated t settings
      { t with
        problem := (t.problem.evaluateBatch batch).2
        batches := t.batches + 1
        memory
        run
        trials := t.trials ++ Trial.settleAll (t.trialsOf settings) metric }
      (.ok ())

/-- A metric that passes the check has a row for every instance. -/
theorem length_rows_of_checkMetric {p : TuningProblem} {metric : Tensor}
    (h : checkMetric p metric = .ok ()) : metric.rows.length = p.config.instances := by
  rw [checkMetric] at h
  split at h
  · next hhead =>
    obtain ⟨inner, hshape⟩ := List.head?_eq_some_iff.1 hhead
    exact Tensor.length_rows hshape
  · cases h

/-- Evaluating settings ends in one of these ways. -/
theorem evaluated (t : Tuner σ) (settings : List Setting) :
    t.Evaluated settings (t.evaluate settings).1 (t.evaluate settings).2.outcome := by
  rw [evaluate]
  split
  · next e hbatch => exact .unfit e hbatch
  · next batch hbatch =>
    dsimp only
    split
    · next metric hchecked =>
      obtain ⟨metric', hmetric, hchecked⟩ := Outcome.bind_eq_ok_iff.1 hchecked
      obtain ⟨⟨⟩, hcheck, hchecked⟩ := Outcome.bind_eq_ok_iff.1 hchecked
      obtain rfl := Except.ok.inj hchecked
      have hinstances := length_rows_of_checkMetric hcheck
      rw [TuningProblem.config_evaluateBatch] at hinstances
      have hfresh : ∀ trial ∈ t.trialsOf settings, trial.Fresh := fun trial => fresh_of_mem_trialsOf
      obtain ⟨memory, run, hrecord, hconfig, htally⟩ := recordMetric_spec
        { t with problem := (t.problem.evaluateBatch batch).2, batches := t.batches + 1 } metric'
        hfresh
      rw [hrecord, length_trialsOf]
      split
      · next hrows =>
        exact .measured batch metric' memory run hbatch hmetric hinstances hrows hconfig htally
      · next hrows =>
        rw [hinstances, not_le] at hrows
        exact .missing batch memory run hbatch hrows hconfig
    · exact .cut batch _ hbatch
    · exact .failed batch _ hbatch

/-! ### What recording keeps -/

section

variable {α : Type} {view : σ → TuningRun → α} {s : Strategy σ} {t : Tuner σ}

/-- What every single trial keeps of the memory and of the record of the run. -/
def Keeps (s : Strategy σ) (view : σ → TuningRun → α) : Prop :=
  ∀ (t : Tuner σ) (trial : Trial) (row : List Float), t.strategy = s →
    view (t.record trial row).1.memory (t.record trial row).1.run = view t.memory t.run

/-- What a strategy keeps while it is told one trial is kept over all of them. -/
theorem Keeps.recordAll (hkeeps : Keeps s view) :
    ∀ {t : Tuner σ} (entries : List (Trial × List Float)), t.strategy = s →
      view (t.recordAll entries).1.memory (t.recordAll entries).1.run = view t.memory t.run
  | _, [], _ => rfl
  | t, (trial, row) :: rest, hs => by
    have hstrategy : (t.record trial row).1.strategy = s := by
      obtain ⟨memory, run, hrecord, -⟩ := t.record_eq trial row
      rw [hrecord]
      exact hs
    exact (hkeeps.recordAll rest hstrategy).trans (hkeeps t trial row hs)

/-- It is kept as well when a metric is recorded. -/
theorem Keeps.recordMetric (hkeeps : Keeps s view) (hs : t.strategy = s) (trials : List Trial)
    (metric : Tensor) :
    view (t.recordMetric trials metric).1.memory (t.recordMetric trials metric).1.run =
      view t.memory t.run := by
  have hall := hkeeps.recordAll (trials.zip (metric.rows.map Tensor.data)) hs
  simp only [Tuner.recordMetric]
  split
  · exact hall
  · exact hall

/-- What every single trial keeps, and counting failed trials too, a whole batch keeps. -/
theorem Keeps.evaluate (hkeeps : Keeps s view)
    (hfailed : ∀ memory run failed, view memory { run with failed } = view memory run)
    (hs : t.strategy = s) (settings : List Setting) :
    view (t.evaluate settings).1.memory (t.evaluate settings).1.run = view t.memory t.run := by
  rw [Tuner.evaluate]
  split
  · rfl
  · next batch hbatch =>
    let u : Tuner σ :=
      { t with problem := (t.problem.evaluateBatch batch).2, batches := t.batches + 1 }
    dsimp only
    split
    · exact hkeeps.recordMetric (t := u) hs _ _
    · rfl
    · exact hfailed t.memory t.run _

end

/-- What no batch and no run changes. -/
structure SameSetup (t u : Tuner σ) : Prop where
  strategy : u.strategy = t.strategy
  config : u.run.config = t.run.config
  problem : u.problem = { t.problem with instances := u.problem.instances }

namespace SameSetup

variable {t u v : Tuner σ}

theorem refl (t : Tuner σ) : SameSetup t t := ⟨rfl, rfl, rfl⟩

/-- Setups that agree one after another agree at the ends. -/
theorem trans (h : SameSetup t u) (h' : SameSetup u v) : SameSetup t v :=
  ⟨h'.strategy.trans h.strategy, h'.config.trans h.config, by rw [h'.problem, h.problem]⟩

theorem instances (h : SameSetup t u) : u.problem.config = t.problem.config := by
  rw [h.problem]

end SameSetup

section

variable {t u : Tuner σ} {settings : List Setting} {o : Outcome Unit}

/-- An evaluation leaves problem, strategy and configuration as they are. -/
theorem Evaluated.sameSetup (h : t.Evaluated settings u o) : SameSetup t u := by
  cases h with
  | unfit e hbatch => exact .refl t
  | cut batch a hbatch => exact ⟨rfl, rfl, t.problem.evaluateBatch_frame batch⟩
  | failed batch e hbatch => exact ⟨rfl, rfl, t.problem.evaluateBatch_frame batch⟩
  | missing batch memory run hbatch hlength hconfig =>
    exact ⟨rfl, hconfig, t.problem.evaluateBatch_frame batch⟩
  | measured batch metric memory run hbatch hmetric hinstances hrows hconfig htally =>
    exact ⟨rfl, hconfig, t.problem.evaluateBatch_frame batch⟩

/-- A batch that succeeds makes a trial of each of its settings. -/
theorem Evaluated.length_trials (h : t.Evaluated settings u (.ok ())) :
    u.trials.length = t.trials.length + settings.length := by
  cases h with
  | measured batch metric memory run hbatch hmetric hinstances hrows hconfig htally =>
    rw [← length_trialsOf t settings] at hrows
    rw [List.length_append, Trial.length_settleAll hrows, length_trialsOf]

end

/-- The books of a tuner: its trials are numbered, its record tallies them, and there are no more
than there may be. -/
structure Books (t : Tuner σ) : Prop where
  numbered : Numbered t.problem.config.instances t.trials
  /-- no trial is in a batch that is still to come -/
  batch_lt : ∀ trial ∈ t.trials, trial.id.batch < t.batches
  tally : Tally t.run t.trials
  length_le : t.trials.length ≤ t.run.config.maxTrials

/-- The number of the next batch is larger than any in the books. -/
theorem Books.batch_lt_succ {t : Tuner σ} (h : t.Books) :
    ∀ trial ∈ t.trials, trial.id.batch < t.batches + 1 :=
  fun trial htrial => Nat.lt_succ_of_lt (h.batch_lt trial htrial)

/-- The books after some trials of a new batch were added. -/
theorem Books.append {t u : Tuner σ} (h : t.Books) (hsetup : SameSetup t u)
    (hbatches : u.batches = t.batches + 1) {later : List Trial}
    (htrials : u.trials = t.trials ++ later)
    (hfollows : Follows t.batches t.trials later)
    (hlength : later.length ≤ min t.remaining t.problem.config.instances)
    (htally : Tally u.run (t.trials ++ later)) : u.Books := by
  obtain ⟨hremaining, hinstances⟩ := le_min_iff.1 hlength
  have hle := h.length_le
  constructor
  case numbered =>
    rw [hsetup.instances, htrials]
    exact h.numbered.append h.batch_lt hfollows hinstances
  case batch_lt =>
    rw [hbatches, htrials]
    refine List.forall_mem_append.2 ⟨h.batch_lt_succ, fun trial htrial => ?_⟩
    obtain ⟨i, -, hid⟩ := hfollows.exists_slot htrial
    rw [hid]
    exact Nat.lt_succ_self _
  case tally =>
    rw [htrials]
    exact htally
  case length_le =>
    rw [remaining] at hremaining
    rw [hsetup.config, htrials, List.length_append]
    omega

/-- However the evaluation of a batch ends, the books are right. -/
theorem Books.evaluated {t u : Tuner σ} {settings : List Setting} {o : Outcome Unit} (h : t.Books)
    (hlength : settings.length ≤ min t.remaining t.problem.config.instances)
    (hu : t.Evaluated settings u o) : u.Books := by
  have hsetup := hu.sameSetup
  have hfollows := follows_trialsOf t settings
  cases hu with
  | unfit e hbatch => exact h
  | cut batch a hbatch =>
    exact ⟨hsetup.instances ▸ h.numbered, h.batch_lt_succ, h.tally, h.length_le⟩
  | missing batch memory run hbatch hmissing hconfig =>
    exact absurd (le_min_iff.1 hlength).2 (not_le.2 hmissing)
  | failed batch e hbatch =>
    refine h.append hsetup rfl rfl (hfollows.of_label ?_) ?_ ?_
    · rw [List.map_map]
      rfl
    · rwa [List.length_map, length_trialsOf]
    · exact h.tally.recordFailure _ fun trial => fresh_of_mem_trialsOf
  | measured batch metric memory run hbatch hmetric hinstances hrows hconfig htally =>
    rw [← length_trialsOf t settings] at hrows hlength
    refine h.append hsetup rfl rfl (hfollows.of_label (Trial.map_label_settleAll hrows)) ?_
      (htally _ h.tally)
    rwa [Trial.length_settleAll hrows]

/-- A note in the record of a run that counts nothing. -/
theorem Books.withRun {t : Tuner σ} (h : t.Books) {run : TuningRun}
    (hconfig : run.config = t.run.config) (hcompleted : run.completed = t.run.completed)
    (hfailed : run.failed = t.run.failed) (hbest : run.best = t.run.best) :
    Books { t with run } :=
  ⟨h.numbered, h.batch_lt, h.tally.of_eq hconfig hcompleted hfailed hbest, hconfig ▸ h.length_le⟩

/-- The books do not depend on the memory of the strategy. -/
theorem Books.withMemory {t : Tuner σ} (h : t.Books) (memory : σ) : Books { t with memory } :=
  ⟨h.numbered, h.batch_lt, h.tally, h.length_le⟩

/-! ## A run -/

/-- What the strategy suggests for the next batch. -/
def ask (t : Tuner σ) : Except Abort (List Setting × σ) :=
  t.strategy.suggest (min t.remaining t.problem.config.instances) t.memory

/-- One batch of a run that goes on. -/
inductive Batch (t : Tuner σ) : Tuner σ → Prop
  | intro (settings : List Setting) (memory : σ) (hremaining : t.remaining ≠ 0)
    (hask : t.ask = .ok (settings, memory)) (hsettings : settings ≠ [])
    (hok : (evaluate { t with memory } settings).2.outcome = .ok ()) :
    Batch t (evaluate { t with memory } settings).1

/-- The ways in which a run ends. -/
inductive Ends (t : Tuner σ) : Tuner σ → Outcome Unit → Prop
  /-- all trials were made -/
  | enough (hremaining : t.remaining = 0) : Ends t t.complete (.ok ())
  /-- the strategy has no more settings -/
  | exhausted (memory : σ) (hremaining : t.remaining ≠ 0) (hask : t.ask = .ok ([], memory)) :
    Ends t (complete { t with memory }) (.ok ())
  /-- the strategy is cut short -/
  | cutAsking (a : Abort) (hremaining : t.remaining ≠ 0) (hask : t.ask = .error a) :
    Ends t t (.error (.abort a))
  /-- the last batch is cut short -/
  | cut (settings : List Setting) (memory : σ) (a : Abort) (hremaining : t.remaining ≠ 0)
    (hask : t.ask = .ok (settings, memory)) (hsettings : settings ≠ [])
    (hcut : (evaluate { t with memory } settings).2.outcome = .error (.abort a)) :
    Ends t (evaluate { t with memory } settings).1 (.error (.abort a))
  /-- the last batch fails -/
  | failed (settings : List Setting) (memory : σ) (e : Error) (hremaining : t.remaining ≠ 0)
    (hask : t.ask = .ok (settings, memory)) (hsettings : settings ≠ [])
    (hfailed : (evaluate { t with memory } settings).2.outcome = .error e)
    (habort : ∀ a, e ≠ .abort a) :
    Ends t
      { (evaluate { t with memory } settings).1 with
        run := (evaluate { t with memory } settings).1.run.markFailed e.message }
      (.error e)

section

variable {t u : Tuner σ} {o : Outcome Unit} {settings : List Setting} {memory : σ}

theorem sameSetup_evaluate (t : Tuner σ) (memory : σ) (settings : List Setting) :
    SameSetup t (evaluate { t with memory } settings).1 :=
  have hsetup := (evaluated { t with memory } settings).sameSetup
  ⟨hsetup.strategy, hsetup.config, hsetup.problem⟩

/-- The settings that were asked for are not too many. -/
theorem Books.of_ask (h : t.Books) (hbounded : t.strategy.Bounded)
    (hask : t.ask = .ok (settings, memory)) : (evaluate { t with memory } settings).1.Books :=
  (h.withMemory memory).evaluated (hbounded _ _ _ _ hask) (Tuner.evaluated _ settings)

/-- A whole batch leaves the setup as it is. -/
theorem Batch.sameSetup (h : t.Batch u) : SameSetup t u := by
  cases h with
  | intro settings memory hremaining hask hsettings hok =>
    exact t.sameSetup_evaluate memory settings

/-- A batch keeps the books, if the strategy never suggests more settings than it is asked for. -/
theorem Batch.books (h : t.Batch u) (hbounded : t.strategy.Bounded) (ht : t.Books) : u.Books := by
  cases h with
  | intro settings memory hremaining hask hsettings hok => exact ht.of_ask hbounded hask

/-- Every batch makes a trial, so that a run cannot go on for ever. -/
theorem Batch.remaining_lt (h : t.Batch u) : u.remaining < t.remaining := by
  have hconfig := h.sameSetup.config
  cases h with
  | intro settings memory hremaining hask hsettings hok =>
    have heval := evaluated { t with memory } settings
    rw [hok] at heval
    have hlength : _ = t.trials.length + settings.length := heval.length_trials
    have hpos := List.length_pos_of_ne_nil hsettings
    rw [remaining] at hremaining
    rw [remaining, remaining, hconfig, hlength]
    omega

/-- The end of a run leaves the setup as it is. -/
theorem Ends.sameSetup (h : t.Ends u o) : SameSetup t u := by
  cases h with
  | enough hremaining => exact ⟨rfl, rfl, rfl⟩
  | exhausted memory hremaining hask => exact ⟨rfl, rfl, rfl⟩
  | cutAsking a hremaining hask => exact .refl t
  | cut settings memory a hremaining hask hsettings hcut =>
    exact t.sameSetup_evaluate memory settings
  | failed settings memory e hremaining hask hsettings hfailed habort =>
    have hsetup := t.sameSetup_evaluate memory settings
    exact ⟨hsetup.strategy, hsetup.config, hsetup.problem⟩

/-- The books are kept to the end of a run. -/
theorem Ends.books (h : t.Ends u o) (hbounded : t.strategy.Bounded) (ht : t.Books) : u.Books := by
  cases h with
  | enough hremaining => exact ht.withRun rfl rfl rfl rfl
  | exhausted memory hremaining hask => exact (ht.withMemory memory).withRun rfl rfl rfl rfl
  | cutAsking a hremaining hask => exact ht
  | cut settings memory a hremaining hask hsettings hcut => exact ht.of_ask hbounded hask
  | failed settings memory e hremaining hask hsettings hfailed habort =>
    exact (ht.of_ask hbounded hask).withRun rfl rfl rfl rfl

/-- A run that succeeds has made all trials or was left without settings. -/
theorem Ends.of_ok (h : t.Ends u (.ok ())) :
    t.remaining = 0 ∧ u = t.complete ∨
      ∃ memory, t.remaining ≠ 0 ∧ t.ask = .ok ([], memory) ∧ u = complete { t with memory } := by
  cases h with
  | enough hremaining => exact .inl ⟨hremaining, rfl⟩
  | exhausted memory hremaining hask => exact .inr ⟨memory, hremaining, hask, rfl⟩

end

/-- Batches follow one another until a run ends. -/
theorem exists_ends_runBatches :
    ∀ {rounds : Nat} {t : Tuner σ}, t.remaining ≤ rounds →
      ∃ u, Relation.ReflTransGen Batch t u ∧
        u.Ends (t.runBatches rounds).1 (t.runBatches rounds).2.outcome
  | 0, t, h => ⟨t, .refl, .enough (Nat.le_zero.1 h)⟩
  | rounds + 1, t, h => by
    rw [runBatches]
    split
    · next hremaining => exact ⟨t, .refl, .enough hremaining⟩
    · next hremaining =>
      split
      · next a hask => exact ⟨t, .refl, .cutAsking a hremaining hask⟩
      · next memory hask => exact ⟨t, .refl, .exhausted memory hremaining hask⟩
      · next settings memory hsettings hask =>
        dsimp only
        split
        · -- the rounds that are left are enough, as the batch made a trial
          next hok =>
          have hbatch : t.Batch _ := .intro settings memory hremaining hask hsettings hok
          have hlt := hbatch.remaining_lt
          obtain ⟨u, hrun, hends⟩ :=
            exists_ends_runBatches (Nat.le_of_lt_succ (hlt.trans_le h))
          exact ⟨u, .head hbatch hrun, hends⟩
        · next a hcut =>
          exact ⟨t, .refl, .cut settings memory a hremaining hask hsettings hcut⟩
        · next e habort hfailed =>
          exact ⟨t, .refl, .failed settings memory e hremaining hask hsettings hfailed habort⟩

/-- The tuner as a run begins. -/
def running (t : Tuner σ) : Tuner σ := { t with run := t.run.markRunning }

theorem sameSetup_running (t : Tuner σ) : SameSetup t t.running := ⟨rfl, rfl, rfl⟩

/-- A run comes to an end after some batches. -/
theorem exists_ends_start (t : Tuner σ) :
    ∃ u, Relation.ReflTransGen Batch t.running u ∧ u.Ends t.start.1 t.start.2.outcome :=
  exists_ends_runBatches le_rfl

/-- Any number of batches leaves the setup as it is. -/
theorem sameSetup_of_batches {t u : Tuner σ} (h : Relation.ReflTransGen Batch t u) :
    SameSetup t u := by
  induction h with
  | refl => exact .refl t
  | tail hrun hbatch ih => exact ih.trans hbatch.sameSetup

/-- A run leaves the setup as it is, whether it succeeds or fails. -/
theorem sameSetup_start (t : Tuner σ) : SameSetup t t.start.1 := by
  obtain ⟨u, hbatches, hends⟩ := t.exists_ends_start
  exact (t.sameSetup_running.trans (sameSetup_of_batches hbatches)).trans hends.sameSetup

/-- What holds of the tuner when a run begins holds through all of its batches. -/
theorem Books.batches {t u : Tuner σ} (ht : t.Books) (hbounded : t.strategy.Bounded)
    (h : Relation.ReflTransGen Batch t u) : u.Books := by
  induction h with
  | refl => exact ht
  | tail hrun hbatch ih =>
    exact hbatch.books ((sameSetup_of_batches hrun).strategy ▸ hbounded) ih

theorem Books.running {t : Tuner σ} (ht : t.Books) : t.running.Books := ht.withRun rfl rfl rfl rfl

/-- A run keeps the books, whether it succeeds or fails. -/
theorem Books.start {t : Tuner σ} (ht : t.Books) (hbounded : t.strategy.Bounded) :
    t.start.1.Books := by
  obtain ⟨u, hbatches, hends⟩ := t.exists_ends_start
  have hstrategy := (t.sameSetup_running.trans (sameSetup_of_batches hbatches)).strategy
  exact hends.books (hstrategy ▸ hbounded) (ht.running.batches hbounded hbatches)

/-- A tuner after runs, one after another. -/
def after (t : Tuner σ) (runs : Nat) : Tuner σ := (fun t => t.start.1)^[runs] t

theorem after_succ (t : Tuner σ) (runs : Nat) : t.after (runs + 1) = (t.after runs).start.1 :=
  Function.iterate_succ_apply' _ runs t

theorem sameSetup_after (t : Tuner σ) (runs : Nat) : SameSetup t (t.after runs) := by
  induction runs with
  | zero => exact .refl t
  | succ runs ih =>
    rw [after_succ]
    exact ih.trans (t.after runs).sameSetup_start

/-- Any number of runs keeps them. -/
theorem Books.after {t : Tuner σ} (ht : t.Books) (hbounded : t.strategy.Bounded) (runs : Nat) :
    (t.after runs).Books := by
  induction runs with
  | zero => exact ht
  | succ runs ih =>
    rw [after_succ]
    exact ih.start ((t.sameSetup_after runs).strategy ▸ hbounded)

/-! ## A new tuner -/

/-- What a tuner starts with. -/
theorem new_eq_ok {p : TuningProblem} {c : TunerConfig} {t : Tuner Search}
    (h : Tuner.new p c = .ok t) :
    t.problem = p ∧ t.strategy = Search.strategy ∧ t.run = { config := c } ∧ t.trials = [] := by
  obtain ⟨⟨⟩, -, h⟩ := Outcome.bind_eq_ok_iff.1 h
  obtain ⟨⟨⟩, -, h⟩ := Outcome.bind_eq_ok_iff.1 h
  obtain rfl := Except.ok.inj h
  exact ⟨rfl, rfl, rfl, rfl⟩

/-- The books of a tuner without trials are in order. -/
theorem books_of_empty {t : Tuner σ} {c : TunerConfig} (hrun : t.run = { config := c })
    (htrials : t.trials = []) : t.Books := by
  constructor
  case numbered =>
    rw [htrials]
    exact numbered_nil _
  case batch_lt =>
    rw [htrials]
    exact fun trial h => nomatch h
  case tally =>
    rw [hrun, htrials]
    exact tally_nil rfl rfl rfl
  case length_le =>
    rw [htrials]
    exact Nat.zero_le _

/-- After any number of runs, however they ended, the trials of a tuner are numbered and settled and
its record has their counts and their best result. Another run comes to an end after some batches;
if it succeeds, there are as many trials as there may be or the strategy, asked for the last time,
had no more settings. -/
theorem books_after_runs {p : TuningProblem} {c : TunerConfig} {new : Tuner Search}
    (hnew : Tuner.new p c = .ok new) {strategy : Strategy σ} (hbounded : strategy.Bounded)
    (memory : σ) (runs : Nat) {t : Tuner σ}
    (ht : t = (new.withStrategy strategy memory).after runs) :
    Numbered p.config.instances t.trials ∧ Tally t.run t.trials ∧ t.run.config = c ∧
      t.run.completed + t.run.failed = t.trials.length ∧ t.trials.length ≤ c.maxTrials ∧
      ∃ u, Relation.ReflTransGen Batch t.running u ∧ u.Ends t.start.1 t.start.2.outcome ∧
        (t.start.2.outcome = .ok () → t.start.1.trials.length = c.maxTrials ∨
          ∃ memory', u.ask = .ok ([], memory') ∧
            t.start.1 = complete { u with memory := memory' }) := by
  obtain ⟨rfl, -, hrun, htrials⟩ := new_eq_ok hnew
  have hfirst : (new.withStrategy strategy memory).Books := books_of_empty hrun htrials
  have hbooks := hfirst.after hbounded runs
  have hsetup := (new.withStrategy strategy memory).sameSetup_after runs
  rw [← ht] at hbooks hsetup
  have hconfig : t.run.config = c := hsetup.config.trans (congrArg TuningRun.config hrun)
  obtain ⟨u, hbatches, hends⟩ := t.exists_ends_start
  have hlast := hbooks.running.batches (hsetup.strategy ▸ hbounded) hbatches
  have hconfig' : u.run.config = c := (sameSetup_of_batches hbatches).config.trans hconfig
  refine ⟨hsetup.instances ▸ hbooks.numbered, hbooks.tally, hconfig, hbooks.tally.length,
    hconfig ▸ hbooks.length_le, u, hbatches, hends, fun hok => ?_⟩
  rw [hok] at hends
  obtain ⟨hremaining, hcomplete⟩ | ⟨memory', -, hask, hcomplete⟩ := hends.of_ok
  · rw [hcomplete, ← hconfig']
    exact .inl (Nat.le_antisymm hlast.length_le (Nat.le_of_sub_eq_zero hremaining))
  · exact .inr ⟨memory', hask, hcomplete⟩

/-- Grid search over the rate of two echoing instances, for three trials. -/
def echoTunerConfig : TunerConfig where
  name := "echo"
  space := [("algorithm.rate", .numbers 1 3)]
  strategy := .grid
  maxTrials := 3

def echoTuner : Tuner Search :=
  (Tuner.new TuningProblem.carriedEchoes echoTunerConfig).toOption.get (by decide +kernel)

theorem books_after_runs_echoTuner :
    (echoTuner.after 2).trials.length = 3 ∧ Numbered 2 (echoTuner.after 2).trials ∧
      Tally (echoTuner.after 2).run (echoTuner.after 2).trials := by
  have hnew : Tuner.new TuningProblem.carriedEchoes echoTunerConfig = .ok echoTuner :=
    Outcome.eq_ok_get _
  have hsame : echoTuner.withStrategy Search.strategy echoTuner.memory = echoTuner := by
    rw [← (new_eq_ok hnew).2.1]
    rfl
  obtain ⟨hnumbered, htally, -⟩ :=
    books_after_runs hnew Search.bounded_strategy echoTuner.memory 2 rfl
  rw [hsame] at hnumbered htally
  exact ⟨by decide +kernel, hnumbered, htally⟩

end Tuner

end Lockstep
