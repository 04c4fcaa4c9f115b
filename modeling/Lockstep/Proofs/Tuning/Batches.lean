import Lockstep.Proofs.Tuning.Slots

/-!
# Batches of any size try the same settings

A search that was asked several times has given what a single request would have been given
(`Search.Gave`), however the requests were cut. Through the batches of a run this holds of the
settings that were tried so far, and all batches are full unless nothing is left to try
(`Tuner.Filled`). So the count of instances decides how settings are put into batches, but not which
are tried (`Tuner.settings_independent_of_instances`).
-/

namespace Lockstep

/-! ## What searches give -/

namespace Search

/-- What a search has given since it was new, and what it remembers now: a walk over a grid is
behind the points that it gave, and a stream is behind its draws. -/
inductive Gave : Search → List Setting → Search → Prop
  | grid {points : List Setting} {n : Nat} (hn : n ≤ points.length) :
    Gave (.grid ⟨0, points⟩) (points.take n) (.grid ⟨n, points⟩)
  | random {given : List Setting} {first now : RandomSearch}
    (hgiven : RandomSearch.suggest given.length first = .ok (given, now)) :
    Gave (.random first) given (.random now)

theorem gave_new (kind : StrategyKind) (space : SearchSpace) (steps : Nat) (seed : UInt64) :
    Gave (.new kind space steps seed) [] (.new kind space steps seed) := by
  cases kind with
  | grid => exact .grid (n := 0) (Nat.zero_le _)
  | random => exact .random rfl

variable {first now later : Search} {given more : List Setting} {count : Nat}

/-- What a request gives comes after all that was given before. -/
theorem Gave.suggest (h : Gave first given now) (hmore : suggest count now = .ok (more, later)) :
    Gave first (given ++ more) later := by
  cases h with
  | @grid points n hn =>
    obtain ⟨rfl, rfl⟩ := suggest_grid_eq_ok hmore
    dsimp only
    rw [← List.take_add, List.take_eq_take_min]
    exact .grid (min_le_right _ _)
  | random hgiven =>
    obtain ⟨r', hr, rfl⟩ := suggest_random_eq_ok hmore
    refine .random ?_
    rw [List.length_append, RandomSearch.length_suggest hr]
    exact RandomSearch.suggest_add hgiven hr

/-- A search that gave less than it was asked for has no more settings. -/
theorem eq_nil_of_short (hmore : suggest count now = .ok (more, later))
    (hshort : more.length < count) {count' : Nat} {more' : List Setting} {later' : Search}
    (hmore' : suggest count' later = .ok (more', later')) : more' = [] := by
  cases now with
  | grid g =>
    obtain ⟨rfl, rfl⟩ := suggest_grid_eq_ok hmore
    obtain ⟨rfl, -⟩ := suggest_grid_eq_ok hmore'
    rw [List.length_take, List.length_drop] at hshort
    dsimp only
    rw [List.drop_eq_nil_of_le (by omega), List.take_nil]
  | random r =>
    obtain ⟨r', hr, -⟩ := suggest_random_eq_ok hmore
    exact absurd (RandomSearch.length_suggest hr) hshort.ne

end Search

/-- The settings that a configuration stands for: as many points of its grid or draws of its stream
as there may be trials, from the first one on. -/
def TunerConfig.settings (c : TunerConfig) : Except Abort (List Setting) :=
  match c.strategy with
  | .grid => .ok ((c.space.grid c.gridSteps).take c.maxTrials)
  | .random => Prod.fst <$> (RandomSearch.new c.space c.seed).suggest c.maxTrials

/-- A search that gave as many settings as there may be trials, or all that it has, gave the
settings of the configuration. -/
theorem Search.Gave.settings_eq {c : TunerConfig} {given : List Setting} {now : Search}
    (h : Gave (.new c.strategy c.space c.gridSteps c.seed) given now)
    (hle : given.length ≤ c.maxTrials)
    (hend : given.length = c.maxTrials ∨
      ∃ count later, 0 < count ∧ now.suggest count = .ok ([], later)) :
    c.settings = .ok given := by
  rw [TunerConfig.settings]
  cases hstrategy : c.strategy with
  | grid =>
    rw [hstrategy] at h
    cases h with
    | @grid _ n hn =>
      rw [List.length_take_of_le hn] at hle hend
      obtain rfl | ⟨count, later, hcount, hask⟩ := hend
      · rfl
      · -- nothing is left of the grid
        obtain ⟨hnil, -⟩ := suggest_grid_eq_ok hask
        have hlength := congrArg List.length hnil
        rw [List.length_take, List.length_drop, List.length_nil] at hlength
        dsimp only at hlength ⊢
        rw [List.take_of_length_le (by omega), List.take_of_length_le (by omega)]
  | random =>
    rw [hstrategy] at h
    cases h with
    | random hgiven =>
      obtain hlength | ⟨count, later, hcount, hask⟩ := hend
      · rw [hlength] at hgiven
        dsimp only
        rw [hgiven]
        rfl
      · obtain ⟨r', hr, -⟩ := suggest_random_eq_ok hask
        exact absurd (RandomSearch.length_suggest hr) hcount.ne

/-- A problem that was built has instances. -/
theorem TuningProblem.instances_pos {w : Workflow} {first : State} {c : TuningConfig}
    {p : TuningProblem} (h : TuningProblem.new w first c = .ok p) : 0 < p.config.instances := by
  obtain ⟨hvalid, -⟩ := eq_of_new h
  rw [(new_eq_ok h).1, Nat.pos_iff_ne_zero]
  intro hnone
  rw [TuningConfig.validate, if_pos hnone] at hvalid
  split at hvalid <;> cases hvalid

namespace Tuner

/-! ## The batches of a run -/

variable {t u v : Tuner Search}

/-- Searches learn nothing from objectives. -/
theorem memory_evaluate (hs : t.strategy = Search.strategy) (settings : List Setting) :
    (t.evaluate settings).1.memory = t.memory := by
  have hkeeps : Keeps Search.strategy fun memory (_ : TuningRun) => memory := by
    intro t trial row hs
    rw [record, hs]
    split <;> rfl
  exact hkeeps.evaluate (fun _ _ _ => rfl) hs settings

theorem map_parameters_trialsOf {σ : Type} (t : Tuner σ) (settings : List Setting) :
    (t.trialsOf settings).map Trial.parameters = settings := by
  refine List.ext_getElem? fun i => ?_
  rw [trialsOf, List.getElem?_map, List.getElem?_mapIdx, Option.map_map]
  exact Option.map_id_apply

/-- A batch that succeeds adds a trial of each of its settings. -/
theorem Evaluated.later {σ : Type} {t u : Tuner σ} {settings : List Setting}
    (h : t.Evaluated settings u (.ok ())) :
    u.batches = t.batches + 1 ∧ ∃ later, u.trials = t.trials ++ later ∧
      Follows t.batches t.trials later ∧ later.map Trial.parameters = settings := by
  cases h with
  | measured batch metric memory run hbatch hmetric hinstances hrows hconfig htally =>
    have hlabel := Trial.map_label_settleAll ((t.length_trialsOf settings).trans_le hrows)
    have hparameters := congrArg (List.map fun label => label.2.2) hlabel
    rw [List.map_map, List.map_map] at hparameters
    exact ⟨rfl, _, rfl, (follows_trialsOf t settings).of_label hlabel,
      hparameters.trans (t.map_parameters_trialsOf settings)⟩

/-- A batch of a run tries what the search gave for it. -/
theorem Batch.tries (h : t.Batch u) (hs : t.strategy = Search.strategy) :
    ∃ settings, t.ask = .ok (settings, u.memory) ∧ t.remaining ≠ 0 ∧ settings ≠ [] ∧
      u.batches = t.batches + 1 ∧ ∃ later, u.trials = t.trials ++ later ∧
        Follows t.batches t.trials later ∧ later.map Trial.parameters = settings := by
  cases h with
  | intro settings memory hremaining hask hsettings hok =>
    have heval := evaluated { t with memory } settings
    rw [hok] at heval
    rw [memory_evaluate (t := { t with memory }) hs settings]
    exact ⟨settings, hask, hremaining, hsettings, heval.later⟩

/-- The search has given the settings of all trials, and nothing else. -/
theorem Batch.gave (h : t.Batch u) (hs : t.strategy = Search.strategy) {first : Search}
    (ht : first.Gave (t.trials.map Trial.parameters) t.memory) :
    first.Gave (u.trials.map Trial.parameters) u.memory := by
  obtain ⟨settings, hask, -, -, -, later, htrials, -, hlater⟩ := h.tries hs
  rw [ask, hs] at hask
  rw [htrials, List.map_append, hlater]
  exact ht.suggest hask

/-- How many trials a batch has. -/
def batchSize (t : Tuner Search) (batch : Nat) : Nat :=
  t.trials.countP fun trial => trial.id.batch = batch

/-- A new batch with some trials changes no earlier batch. -/
theorem batchSize_append {later : List Trial} (hbooks : t.Books)
    (htrials : u.trials = t.trials ++ later) (hfollows : Follows t.batches t.trials later)
    (batch : Nat) :
    u.batchSize batch = if batch = t.batches then later.length else t.batchSize batch := by
  have hcount := hfollows.countP_take le_rfl
  rw [List.take_length] at hcount
  rw [batchSize, htrials, List.countP_append]
  split
  · next heq =>
    have hbefore : t.trials.countP (fun trial => trial.id.batch = t.batches) = 0 := by
      rw [List.countP_eq_zero]
      intro trial htrial
      rw [decide_eq_true_eq]
      exact (hbooks.batch_lt trial htrial).ne
    rw [heq, hbefore, hcount, Nat.zero_add]
  · next hne =>
    rw [batchSize, Nat.add_eq_left, List.countP_eq_zero]
    intro trial htrial
    obtain ⟨i, -, hid⟩ := hfollows.exists_slot htrial
    rw [hid, decide_eq_true_eq]
    exact Ne.symm hne

/-- Nothing is left to try. -/
def Spent (t : Tuner Search) : Prop :=
  t.remaining = 0 ∨ ∀ count settings memory,
    t.strategy.suggest count t.memory = .ok (settings, memory) → settings = []

/-- All batches but the last are full, and so is the last one if anything is left to try. -/
structure Filled (t : Tuner Search) : Prop where
  earlier : ∀ batch, batch + 1 < t.batches → t.batchSize batch = t.problem.config.instances
  all : t.Spent ∨ ∀ batch < t.batches, t.batchSize batch = t.problem.config.instances

theorem Batch.filled (h : t.Batch u) (hs : t.strategy = Search.strategy) (hbooks : t.Books)
    (ht : t.Filled) : u.Filled := by
  have hsetup := h.sameSetup
  obtain ⟨settings, hask, hremaining, hsettings, hbatches, later, htrials, hfollows, hlater⟩ :=
    h.tries hs
  have hlength : later.length = settings.length := by rw [← hlater, List.length_map]
  have hinstances := congrArg TuningConfig.instances hsetup.instances
  -- a batch is tried only while trials remain and the search has settings, so all before were full
  have hfull : ∀ batch < t.batches, u.batchSize batch = u.problem.config.instances := by
    intro batch hlt
    rw [batchSize_append hbooks htrials hfollows, if_neg hlt.ne, hinstances]
    obtain (hnone | hnil) | hall := ht.all
    · exact absurd hnone hremaining
    · exact absurd (hnil _ _ _ hask) hsettings
    · exact hall batch hlt
  refine ⟨fun batch hlt => hfull batch (by omega), ?_⟩
  rw [ask, hs] at hask
  obtain hfits | hshort := Nat.eq_or_lt_of_le (Search.bounded_strategy _ _ _ _ hask)
  · obtain hlast | hmore := Nat.le_total t.remaining t.problem.config.instances
    · -- the batch has all trials that remained
      rw [min_eq_left hlast, remaining] at hfits
      left; left
      rw [remaining, hsetup.config, htrials, List.length_append]
      omega
    · refine .inr fun batch hlt => ?_
      obtain heq | hlt := Nat.eq_or_lt_of_le (Nat.le_of_lt_succ (hbatches ▸ hlt))
      · rw [batchSize_append hbooks htrials hfollows, if_pos heq, hlength, hfits,
          min_eq_right hmore, hinstances]
      · exact hfull batch hlt
  · -- the search had fewer settings than it was asked for
    refine .inl (.inr fun count more memory hmore => ?_)
    rw [hsetup.strategy, hs] at hmore
    exact Search.eq_nil_of_short hask hshort hmore

/-! ## A whole run -/

theorem memory_new {p : TuningProblem} {c : TunerConfig} (h : Tuner.new p c = .ok t) :
    t.memory = .new c.strategy c.space c.gridSteps c.seed ∧ t.batches = 0 := by
  obtain ⟨⟨⟩, -, h⟩ := Outcome.bind_eq_ok_iff.1 h
  obtain ⟨⟨⟩, -, h⟩ := Outcome.bind_eq_ok_iff.1 h
  obtain rfl := Except.ok.inj h
  exact ⟨rfl, rfl⟩

/-- What holds of a new tuner's search and batches holds through all batches of its run. -/
theorem gave_filled_of_batches {first : Search} (hbatches : Relation.ReflTransGen Batch t u)
    (hs : t.strategy = Search.strategy) (hbooks : t.Books)
    (hgave : first.Gave (t.trials.map Trial.parameters) t.memory) (hfilled : t.Filled) :
    first.Gave (u.trials.map Trial.parameters) u.memory ∧ u.Filled := by
  induction hbatches with
  | refl => exact ⟨hgave, hfilled⟩
  | tail hrun hbatch ih =>
    have hs' := (sameSetup_of_batches hrun).strategy.trans hs
    have hbooks' := hbooks.batches (hs ▸ Search.bounded_strategy) hrun
    exact ⟨hbatch.gave hs' ih.1, hbatch.filled hs' hbooks' ih.2⟩

/-- The first run of a tuner, if it succeeds, tries the settings of its configuration in batches
that are full but for the last one. -/
theorem settings_start {p : TuningProblem} (hp : 0 < p.config.instances) {c : TunerConfig}
    (hnew : Tuner.new p c = .ok t) (hok : t.start.2.outcome = .ok ()) :
    c.settings = .ok (t.start.1.trials.map Trial.parameters) ∧
      ∀ batch, batch + 1 < t.start.1.batches → t.start.1.batchSize batch = p.config.instances := by
  obtain ⟨hproblem, hs, hrun, htrials⟩ := new_eq_ok hnew
  obtain ⟨hmemory, hnone⟩ := memory_new hnew
  have hbooks : t.Books := books_of_empty hrun htrials
  obtain ⟨u, hbatches, hends⟩ := t.exists_ends_start
  have hgave : Search.Gave t.memory (t.trials.map Trial.parameters) t.memory := by
    rw [htrials, hmemory]
    exact Search.gave_new ..
  have hfilled : t.running.Filled := by
    refine ⟨fun batch hlt => absurd hlt ?_, .inr fun batch hlt => absurd hlt ?_⟩ <;>
    · change ¬ _ < t.batches
      omega
  -- carried along the batches: the settings so far are what the strategy gave, and every batch but
  -- the last is full
  obtain ⟨hgave, hfilled⟩ := gave_filled_of_batches hbatches hs hbooks.running hgave hfilled
  have hbooks' := hbooks.running.batches (hs ▸ Search.bounded_strategy) hbatches
  have hsetup := t.sameSetup_running.trans (sameSetup_of_batches hbatches)
  have hconfig : u.run.config = c := hsetup.config.trans (congrArg TuningRun.config hrun)
  have hinstances : u.problem.config = p.config := hsetup.instances.trans (hproblem ▸ rfl)
  have hle : u.trials.length ≤ c.maxTrials := hconfig ▸ hbooks'.length_le
  rw [hok] at hends
  have hsame : t.start.1.trials = u.trials ∧ t.start.1.batches = u.batches := by
    obtain ⟨-, hcomplete⟩ | ⟨memory, -, -, hcomplete⟩ := hends.of_ok
    · rw [hcomplete]
      exact ⟨rfl, rfl⟩
    · rw [hcomplete]
      exact ⟨rfl, rfl⟩
  -- a run that succeeds ends with no trials left, or with a strategy that has nothing more to try
  have hend : u.trials.length = c.maxTrials ∨
      ∃ count later, 0 < count ∧ u.memory.suggest count = .ok ([], later) := by
    obtain ⟨hremaining, -⟩ | ⟨memory, hremaining, hask, -⟩ := hends.of_ok
    · rw [remaining, hconfig] at hremaining
      exact .inl (by omega)
    · rw [ask, hsetup.strategy.trans hs] at hask
      refine .inr ⟨_, memory, lt_min (Nat.pos_of_ne_zero hremaining) ?_, hask⟩
      rwa [hinstances]
  rw [hmemory] at hgave
  rw [← List.length_map Trial.parameters] at hle hend
  simp only [batchSize, hsame]
  exact ⟨hgave.settings_eq hle hend, hinstances ▸ hfilled.earlier⟩

/-- Two new tuners with the same configuration, for problems that need not have the same count of
instances: if the first runs of both succeed, they try the same settings in the same order, which
are those that the configuration stands for, and all their batches but the last are full. -/
theorem settings_independent_of_instances {p p' : TuningProblem} (hp : 0 < p.config.instances)
    (hp' : 0 < p'.config.instances) {c : TunerConfig} {t t' : Tuner Search}
    (hnew : Tuner.new p c = .ok t) (hnew' : Tuner.new p' c = .ok t')
    (hok : t.start.2.outcome = .ok ()) (hok' : t'.start.2.outcome = .ok ()) :
    t'.start.1.trials.map Trial.parameters = t.start.1.trials.map Trial.parameters ∧
      c.settings = .ok (t.start.1.trials.map Trial.parameters) ∧
      (∀ batch, batch + 1 < t.start.1.batches →
        t.start.1.batchSize batch = p.config.instances) ∧
      ∀ batch, batch + 1 < t'.start.1.batches →
        t'.start.1.batchSize batch = p'.config.instances := by
  obtain ⟨hsettings, hfull⟩ := settings_start hp hnew hok
  obtain ⟨hsettings', hfull'⟩ := settings_start hp' hnew' hok'
  exact ⟨Except.ok.inj (hsettings'.symm.trans hsettings), hsettings, hfull, hfull'⟩

/-- Grid search over the rate, which has fewer points than there may be trials. -/
def walkConfig : TunerConfig := { echoTunerConfig with gridSteps := 4, maxTrials := 5 }

def twoWalker : Tuner Search := (Tuner.new twoSlots walkConfig).toOption.get (by decide +kernel)

def threeWalker : Tuner Search := (Tuner.new threeSlots walkConfig).toOption.get (by decide +kernel)

/-- Four points in batches of two and in batches of three. -/
theorem settings_independent_of_instances_walkers :
    threeWalker.start.1.trials.map Trial.parameters =
        twoWalker.start.1.trials.map Trial.parameters ∧
      twoWalker.start.1.trials.length = 4 ∧
      threeWalker.start.1.batches = 2 ∧ threeWalker.start.1.batchSize 0 = 3 := by
  have hp : TuningProblem.new TuningProblem.echoWorkflow TuningProblem.echoState (slotsConfig 2) =
    .ok twoSlots := Outcome.eq_ok_get _
  have hp' : TuningProblem.new TuningProblem.echoWorkflow TuningProblem.echoState (slotsConfig 3) =
    .ok threeSlots := Outcome.eq_ok_get _
  have hnew : Tuner.new twoSlots walkConfig = .ok twoWalker := Outcome.eq_ok_get _
  have hnew' : Tuner.new threeSlots walkConfig = .ok threeWalker := Outcome.eq_ok_get _
  obtain ⟨hsame, -, -, hfull⟩ := settings_independent_of_instances
    (TuningProblem.instances_pos hp) (TuningProblem.instances_pos hp') hnew hnew'
    (by decide +kernel) (by decide +kernel)
  have hbatches : threeWalker.start.1.batches = 2 := by decide +kernel
  have hinstances : threeSlots.config.instances = 3 := by decide +kernel
  refine ⟨hsame, by decide +kernel, hbatches, ?_⟩
  rw [hfull 0 (by rw [hbatches]; decide), hinstances]

end Tuner

end Lockstep
