import Lockstep.Proofs.Table.Matching
import Lockstep.Proofs.Tuning.Bookkeeping

/-!
# The slots of a tuner are independent

In the batch that a tuner makes of settings, each instance has the defaults of the parameters with
the values of its own setting in their place (`Tuner.rowsAt_batchOf`). So what becomes of a trial
depends on its setting and its slot only, and not on the other trials, their number or anything that
came before (`Tuner.outcome_of_setting`).
-/

namespace Lockstep

open TuningProblem (rowsAt)

namespace Tensor

/-- Filling a row of a tensor changes no other one. -/
theorem row_fillRow {t : Tensor} {count : Nat} {inner : List Nat} (ht : t.shape = count :: inner)
    {j : Nat} (hj : j < count) (slot : Nat) (x : Float) :
    State.row j (t.fillRow slot x) = if j = slot then constant inner x else State.row j t := by
  obtain ⟨r, hr, hshape, hdata⟩ := getElem?_rows ht hj
  obtain ⟨r', hr', hshape', hdata'⟩ := getElem?_rows (t := t.fillRow slot x) ht hj
  have hmap : r'.data = r.data.map fun y => if j = slot then x else y := by
    rw [hdata, hdata']
    refine List.ext_getElem? fun i => ?_
    rw [List.getElem?_take, List.getElem?_map, List.getElem?_take]
    split
    · next hi =>
      have hrow : (j * volume inner + i) / volume inner = j := by
        rw [Nat.mul_comm, Nat.mul_add_div (by omega), Nat.div_eq_of_lt hi, Nat.add_zero]
      simp only [fillRow, List.getElem?_drop, List.getElem?_mapIdx, ht, List.tail_cons, hrow]
    · rfl
  rw [State.row, State.row, hr, hr', Option.getD_some, Option.getD_some, eq_iff_shape_data, hmap]
  split
  · refine ⟨hshape', ?_⟩
    rw [List.map_const', r.fills, hshape]
    rfl
  · exact ⟨hshape'.trans hshape.symm, List.map_id _⟩

theorem shape_repeated (t : Tensor) (n : Nat) : (t.repeated n).shape = n :: t.shape :=
  congrArg (· :: t.shape) List.length_replicate

theorem row_repeated {j n : Nat} (hj : j < n) (t : Tensor) :
    State.row j (t.repeated n) = t := by
  rw [State.row, repeated, rows_ofRows, List.getElem?_replicate, if_pos hj, Option.getD_some]

end Tensor

/-- The defaults of parameters with the values of a setting in their place. -/
def Setting.completed (setting : Setting) (defaults : ParameterBatch) : ParameterBatch :=
  setting.foldl (fun batch e => match Table.get? e.1 batch with
    | some t => batch.insert e.1 (.constant t.shape e.2.toFloat)
    | none => batch) defaults

namespace Tuner

/-! ## The rows of a batch -/

/-- A batch of parameters, in order, with a row for each instance. -/
structure Rowed (instances : Nat) (batch : ParameterBatch) : Prop where
  sorted : batch.Sorted
  shape : ∀ e ∈ batch, ∃ inner, e.2.shape = instances :: inner

variable {instances : Nat} {batch batch' : ParameterBatch}

theorem Rowed.insert (h : Rowed instances batch) {path : String} {t : Tensor}
    (ht : Table.get? path batch = some t) (slot : Nat) (x : Float) :
    Rowed instances (batch.insert path (t.fillRow slot x)) := by
  refine ⟨h.sorted.insert _ _, fun e he => ?_⟩
  rcases Table.mem_of_mem_insert he with rfl | he
  · exact h.shape (path, t) (Table.mem_of_get?_eq_some ht)
  · exact h.shape e he

theorem Rowed.sorted_rowsAt (h : Rowed instances batch) (j : Nat) :
    Table.Sorted (rowsAt j batch) :=
  h.sorted.of_keys (Table.keys_mapValues _ _)

/-- Writing a setting into a slot completes the row of the slot and leaves the other rows. -/
theorem rowsAt_fillSlot {slot j : Nat} (hj : j < instances) :
    ∀ {setting : Setting} {batch batch' : ParameterBatch}, Rowed instances batch →
      fillSlot instances slot setting batch = .ok batch' →
      Rowed instances batch' ∧ rowsAt j batch' =
        if j = slot then setting.completed (rowsAt j batch) else rowsAt j batch
  | [], batch, batch', hbatch, h => by
    obtain rfl := Except.ok.inj h
    exact ⟨hbatch, (ite_self _).symm⟩
  | (path, value) :: rest, batch, batch', hbatch, h => by
    rw [fillSlot] at h
    split at h
    · cases h
    · next t ht =>
      split at h
      · obtain ⟨hbatch', hrows⟩ := rowsAt_fillSlot hj (hbatch.insert ht slot value.toFloat) h
        obtain ⟨inner, hshape⟩ := hbatch.shape _ (Table.mem_of_get?_eq_some ht)
        have hget : Table.get? path (rowsAt j batch) = some (State.row j t) := by
          rw [rowsAt, Table.get?_mapValues, ht, Option.map_some]
        refine ⟨hbatch', ?_⟩
        rw [hrows, rowsAt, Table.mapValues_insert, Tensor.row_fillRow hshape hj, ← rowsAt]
        -- a setting is written to the row of its slot, and leaves every other row as it is
        by_cases hslot : j = slot
        · have hrow : (State.row j t).shape = inner := State.shape_row hshape hj
          rw [if_pos hslot, if_pos hslot, if_pos hslot, Setting.completed, Setting.completed,
            List.foldl_cons, hget]
          dsimp only
          rw [hrow]
        · rw [if_neg hslot, if_neg hslot, if_neg hslot,
            Table.insert_eq_self (hbatch.sorted_rowsAt j) hget]
      · cases h

/-- Writing settings into slots completes the row of each slot with its setting, and leaves the rows
of all other slots, as if these had empty settings. -/
theorem rowsAt_fillSlots {j : Nat} (hj : j < instances) :
    ∀ {slot : Nat} {settings : List Setting} {batch batch' : ParameterBatch},
      Rowed instances batch → fillSlots instances slot settings batch = .ok batch' →
      rowsAt j batch' = if j < slot then rowsAt j batch
        else (settings[j - slot]?.getD []).completed (rowsAt j batch)
  | slot, [], batch, batch', _, h => by
    obtain rfl := Except.ok.inj h
    exact (ite_self _).symm
  | slot, setting :: rest, batch, batch', hbatch, h => by
    obtain ⟨between, hone, h⟩ := Outcome.bind_eq_ok_iff.1 h
    obtain ⟨hbetween, hrows⟩ := rowsAt_fillSlot hj hbatch hone
    rw [rowsAt_fillSlots hj hbetween h, hrows]
    obtain hlt | rfl | hgt := Nat.lt_trichotomy j slot
    · rw [if_pos (Nat.lt_succ_of_lt hlt), if_pos hlt, if_neg hlt.ne]
    · rw [if_pos (Nat.lt_succ_self j), if_neg (Nat.lt_irrefl j), if_pos rfl, Nat.sub_self]
      rfl
    · rw [if_neg (Nat.not_lt_of_le hgt), if_neg (Nat.lt_asymm hgt), if_neg hgt.ne']
      obtain ⟨k, rfl⟩ := Nat.exists_eq_add_of_lt hgt
      rw [show slot + k + 1 - slot = k + 1 by omega, show slot + k + 1 - (slot + 1) = k by omega]
      rfl

theorem rowed_defaults {p : TuningProblem} {defaults : ParameterBatch} (hsorted : defaults.Sorted)
    (hdefaults : p.defaults = defaults.mapValues fun t => t.repeated p.config.instances) :
    Rowed p.config.instances p.defaults := by
  rw [hdefaults]
  refine ⟨hsorted.of_keys (Table.keys_mapValues _ _), fun e he => ?_⟩
  obtain ⟨d, -, rfl⟩ := List.mem_map.1 he
  exact ⟨d.2.shape, Tensor.shape_repeated d.2 _⟩

/-- The batch of settings for a problem that has the same defaults for each instance. -/
theorem rowsAt_batchOf {p : TuningProblem} {defaults : ParameterBatch} (hsorted : defaults.Sorted)
    (hdefaults : p.defaults = defaults.mapValues fun t => t.repeated p.config.instances)
    {settings : List Setting} {batch : ParameterBatch} (h : batchOf p settings = .ok batch)
    {j : Nat} (hj : j < p.config.instances) :
    rowsAt j batch = (settings[j]?.getD []).completed defaults := by
  have hrows : rowsAt j p.defaults = defaults := by
    rw [hdefaults, rowsAt, Table.mapValues_mapValues, Table.mapValues_eq_self_iff]
    exact fun d _ => Tensor.row_repeated hj d.2
  rw [rowsAt_fillSlots hj (rowed_defaults hsorted hdefaults) h, if_neg (Nat.not_lt_zero j), hrows]
  rfl

/-! ## Trials of batches that succeeded -/

/-- A trial was recorded by a batch that succeeded, in some run of a tuner. -/
def Measured {σ : Type} (first : Tuner σ) (trial : Trial) : Prop :=
  ∃ runs u v, Relation.ReflTransGen Batch (first.after runs).running u ∧ u.Batch v ∧
    trial ∈ v.trials.drop u.trials.length

/-- A trial of a batch that starts from the first state: its setting is in its slot of the batch,
and it ended with the row of its slot in the metric of a run. -/
theorem Measured.spec {σ : Type} {first : Tuner σ} (hrestart : first.problem.config.restart = true)
    {trial : Trial} (h : first.Measured trial) :
    ∃ settings batch metric last row, ∃ fresh : Trial,
      settings[trial.id.slot]? = some trial.parameters ∧
      trial.id.slot < first.problem.config.instances ∧
      batchOf first.problem settings = .ok batch ∧
      (first.problem.runFrom first.problem.pristine batch).outcome = .ok (metric, last) ∧
      metric.rows[trial.id.slot]? = some row ∧ fresh.Fresh ∧ trial = fresh.settle row.data := by
  obtain ⟨runs, u, v, hbatches, hbatch, htrial⟩ := h
  have hsetup := ((first.sameSetup_after runs).trans (sameSetup_running _)).trans
    (sameSetup_of_batches hbatches)
  cases hbatch with
  | intro settings memory hremaining hask hsettings hok =>
    have heval := evaluated { u with memory } settings
    rw [hok] at heval
    generalize (evaluate { u with memory } settings).1 = v at heval htrial
    cases heval with
    | measured batch metric memory' run hbatch hmetric hinstances hrows hconfig htally =>
      rw [List.drop_left] at htrial
      obtain ⟨i, hi⟩ := List.mem_iff_getElem?.1 htrial
      obtain ⟨fresh, row, hfresh, hrow, rfl⟩ := Trial.getElem?_settleAll hi
      have hmem := fresh_of_mem_trialsOf (List.mem_of_getElem? hfresh)
      rw [trialsOf, List.getElem?_mapIdx] at hfresh
      obtain ⟨parameters, hparameters, rfl⟩ := Option.map_eq_some_iff.1 hfresh
      obtain ⟨hid, hrest⟩ := Prod.mk.inj (Trial.label_settle _ row.data)
      have hlt := (List.getElem?_eq_some_iff.1 hparameters).1
      rw [hid, (Prod.mk.inj hrest).2]
      rw [hinstances] at hrows
      -- the problem is the one of the first tuner, up to the instances that are not looked at
      have hproblem : u.problem = { first.problem with instances := u.problem.instances } :=
        hsetup.problem
      rw [hproblem] at hbatch hmetric hrows
      obtain ⟨last, hrun⟩ := TuningProblem.exists_runFrom_of_ok hmetric
      rw [TuningProblem.runFrom_withInstances, TuningProblem.start, if_pos hrestart] at hrun
      exact ⟨settings, batch, metric, last, row, _, hparameters, hlt.trans_le hrows, hbatch, hrun,
        hrow, hmem, rfl⟩

/-! ## One instance of a new problem -/

/-- An evaluation of a new problem starts every instance from the first state, placed, and gives it
the metric that it has on its own. -/
theorem metric_of_new {w : Workflow} (hw : w.KeepsOrder) {first : State} (hfirst : first.Ordered)
    {c : TuningConfig} {p : TuningProblem} (hnew : TuningProblem.new w first c = .ok p)
    {batch : ParameterBatch} {metric : Tensor} {last : State}
    (hrun : (p.runFrom p.pristine batch).outcome = .ok (metric, last)) {j : Nat}
    (hj : j < c.instances) {row : Tensor} (hrow : metric.rows[j]? = some row) :
    ∃ y, p.runInstance j (w.placed first) (rowsAt j batch) = .ok (row, y) := by
  obtain ⟨rfl, rfl, -, ⟨stacked, hstacked, hplace⟩, -⟩ := TuningProblem.new_spec hnew
  have hordered : ∀ x ∈ List.replicate p.config.instances first, x.Ordered :=
    fun x hx => List.eq_of_mem_replicate hx ▸ hfirst
  have hpristine : p.pristine.Ordered :=
    Workflow.ordered_of_place (State.Ordered.stack hstacked hordered) hplace
  have hparts := Workflow.unstack_place (State.unstack_stack hordered hstacked) hplace
  rw [List.map_replicate] at hparts
  obtain ⟨ys, -, -, -, hone⟩ := TuningProblem.runFrom_instances hw hpristine hparts hrun
  obtain ⟨y, r, -, hr, hinstance⟩ := hone j (p.workflow.placed first)
    (by rw [List.getElem?_replicate, if_pos hj])
  obtain rfl := Option.some.inj (hrow.symm.trans hr)
  exact ⟨y, hinstance⟩

/-- A trial of a batch that succeeded ends with the metric that its instance has on its own, from
the first state with the defaults filled up with its setting. -/
theorem Measured.alone {σ : Type} {w : Workflow} (hw : w.KeepsOrder) {start : State}
    (hstart : start.Ordered) {c : TuningConfig} {p : TuningProblem}
    (hp : TuningProblem.new w start c = .ok p) (hrestart : c.restart = true) {first : Tuner σ}
    (hfirst : first.problem = p) {trial : Trial} (h : first.Measured trial)
    {defaults : ParameterBatch}
    (hdefaults : TuningProblem.AreDefaults w.parameters defaults) :
    ∃ fresh row y, fresh.Fresh ∧ trial = Trial.settle fresh (Tensor.data row) ∧
      p.runInstance trial.id.slot (w.placed start)
        (trial.parameters.completed (Table.ofList defaults)) = .ok (row, y) := by
  obtain ⟨-, rfl, -, -, defaults', hdefaults', hbatchDefaults⟩ := TuningProblem.new_spec hp
  obtain rfl := hdefaults.unique hdefaults'
  subst hfirst
  obtain ⟨settings, batch, metric, last, row, fresh, hsetting, hlt, hbatch, hrun, hrow, hfresh,
    hend⟩ := h.spec hrestart
  obtain ⟨y, hone⟩ := metric_of_new hw hstart hp hrun hlt hrow
  rw [rowsAt_batchOf (Table.sorted_ofList _) hbatchDefaults hbatch hlt, hsetting,
    Option.getD_some] at hone
  exact ⟨fresh, row, y, hfresh, hend, hone⟩

/-- Two trials of batches that succeeded, which may belong to two tuners of two problems: if the
problems start anew every time and run the same workflow from the same state for as many steps and
look at the same monitor, and the trials have the same slot and settings that agree where the
defaults fill them up, then the trials end alike. -/
theorem outcome_of_setting {σ σ' : Type} {w : Workflow} (hw : w.KeepsOrder) {start : State}
    (hstart : start.Ordered) {c c' : TuningConfig} {p p' : TuningProblem}
    (hp : TuningProblem.new w start c = .ok p) (hp' : TuningProblem.new w start c' = .ok p')
    (hrestart : c.restart = true) (hrestart' : c'.restart = true)
    (hiterations : c'.iterations = c.iterations) (hmonitor : p'.metricMonitor = p.metricMonitor)
    {d d' : TunerConfig} {new new' : Tuner Search} (hnew : Tuner.new p d = .ok new)
    (hnew' : Tuner.new p' d' = .ok new') {strategy : Strategy σ} {strategy' : Strategy σ'}
    {memory : σ} {memory' : σ'} {a b : Trial}
    (ha : (new.withStrategy strategy memory).Measured a)
    (hb : (new'.withStrategy strategy' memory').Measured b) (hslot : b.id.slot = a.id.slot)
    {defaults : ParameterBatch}
    (hdefaults : TuningProblem.AreDefaults w.parameters defaults)
    (hsetting : b.parameters.completed (Table.ofList defaults) =
      a.parameters.completed (Table.ofList defaults)) :
    b.outcome = a.outcome := by
  have hproblem : (new.withStrategy strategy memory).problem = p := (new_eq_ok hnew).1
  have hproblem' : (new'.withStrategy strategy' memory').problem = p' := (new_eq_ok hnew').1
  obtain ⟨fresh, row, y, hfresh, hend, hone⟩ := ha.alone hw hstart hp hrestart hproblem hdefaults
  obtain ⟨fresh', row', y', hfresh', hend', hone'⟩ :=
    hb.alone hw hstart hp' hrestart' hproblem' hdefaults
  obtain ⟨hworkflow, hconfig, -⟩ := TuningProblem.new_spec hp
  obtain ⟨hworkflow', hconfig', -⟩ := TuningProblem.new_spec hp'
  -- on its own, an instance fares the same in both problems
  have hsame (number : Nat) (x : State) (parameters : ParameterBatch) :
      p'.runInstance number x parameters = p.runInstance number x parameters := by
    rw [TuningProblem.runInstance, TuningProblem.runInstance, hworkflow, hworkflow', hconfig,
      hconfig', hiterations, hmonitor]
  rw [hsame, hslot, hsetting, hone] at hone'
  obtain ⟨rfl, -⟩ := Prod.mk.inj (Except.ok.inj hone')
  rw [hend, hend']
  exact Trial.outcome_settle hfresh' hfresh row.data

/-! ## Two slots and three -/

/-- What the first batch of a tuner says about a trial when it succeeds. -/
theorem exists_measured {first : Tuner Unit} (htrials : first.trials.isEmpty = true)
    (settings : List Setting) (hremaining : first.running.remaining ≠ 0)
    (hask : first.running.ask = .ok (settings, ())) (hsettings : settings ≠ [])
    (hok : (evaluate first.running settings).2.outcome = .ok ()) (i : Nat) {slot : Nat}
    {parameters : Setting}
    (htrial : ((evaluate first.running settings).1.trials[i]?).map
      (fun trial => (trial.id.slot, trial.parameters)) = some (slot, parameters)) :
    ∃ trial, first.Measured trial ∧ trial.id.slot = slot ∧ trial.parameters = parameters := by
  obtain ⟨trial, htrial, heq⟩ := Option.map_eq_some_iff.1 htrial
  obtain ⟨hslot, hparameters⟩ := Prod.mk.inj heq
  refine ⟨trial, ⟨0, first.running, _, .refl, .intro settings () hremaining hask hsettings hok, ?_⟩,
    hslot, hparameters⟩
  have hlength : first.running.trials.length = 0 :=
    congrArg List.length (List.isEmpty_iff.1 htrials)
  rw [hlength]
  exact List.mem_of_getElem? htrial

/-- Always the first ones of some settings. -/
def listed (settings : List Setting) : Strategy Unit where
  suggest count memory := .ok (settings.take count, memory)
  report _ _ memory := memory

/-- Instances that start anew every time. -/
def slotsConfig (count : Nat) : TuningConfig where
  iterations := 2
  instances := count

def twoSlots : TuningProblem :=
  (TuningProblem.new TuningProblem.echoWorkflow TuningProblem.echoState
    (slotsConfig 2)).toOption.get (by decide +kernel)

def threeSlots : TuningProblem :=
  (TuningProblem.new TuningProblem.echoWorkflow TuningProblem.echoState
    (slotsConfig 3)).toOption.get (by decide +kernel)

/-- The settings of the batches. The first ones are the same number, once as an integer. -/
def twoRates : List Setting := [[("algorithm.rate", .number 3)], [("algorithm.rate", .number 5)]]

def threeRates : List Setting :=
  [[("algorithm.rate", .integer 3)], [], [("algorithm.rate", .number 9)]]

def maximizing : TunerConfig := { echoTunerConfig with direction := .maximize }

def twoTuner : Tuner Search := (Tuner.new twoSlots echoTunerConfig).toOption.get (by decide +kernel)

def threeTuner : Tuner Search := (Tuner.new threeSlots maximizing).toOption.get (by decide +kernel)

theorem exists_measured_twoTuner :
    ∃ a, (twoTuner.withStrategy (listed twoRates) ()).Measured a ∧ a.id.slot = 0 ∧
      a.parameters = [("algorithm.rate", .number 3)] :=
  exists_measured (by decide +kernel) twoRates (by decide +kernel) (by decide +kernel) (by decide)
    (by decide +kernel) 0 (by decide +kernel)

theorem exists_measured_threeTuner :
    ∃ b, (threeTuner.withStrategy (listed threeRates) ()).Measured b ∧ b.id.slot = 0 ∧
      b.parameters = [("algorithm.rate", .integer 3)] :=
  exists_measured (by decide +kernel) threeRates (by decide +kernel) (by decide +kernel) (by decide)
    (by decide +kernel) 0 (by decide +kernel)

/-- Slot zero of two and of three, with the same number in a batch of two and of three. -/
theorem outcome_of_setting_slots :
    ∃ a b, (twoTuner.withStrategy (listed twoRates) ()).Measured a ∧
      (threeTuner.withStrategy (listed threeRates) ()).Measured b ∧
      a.parameters ≠ b.parameters ∧ b.outcome = a.outcome := by
  obtain ⟨a, ha, haslot, haparameters⟩ := exists_measured_twoTuner
  obtain ⟨b, hb, hbslot, hbparameters⟩ := exists_measured_threeTuner
  have hp : TuningProblem.new TuningProblem.echoWorkflow TuningProblem.echoState (slotsConfig 2) =
    .ok twoSlots := Outcome.eq_ok_get _
  have hp' : TuningProblem.new TuningProblem.echoWorkflow TuningProblem.echoState (slotsConfig 3) =
    .ok threeSlots := Outcome.eq_ok_get _
  have hnew : Tuner.new twoSlots echoTunerConfig = .ok twoTuner := Outcome.eq_ok_get _
  have hnew' : Tuner.new threeSlots maximizing = .ok threeTuner := Outcome.eq_ok_get _
  have hmonitor : threeSlots.metricMonitor = twoSlots.metricMonitor := by decide +kernel
  have hdefaults : TuningProblem.AreDefaults TuningProblem.echoWorkflow.parameters
      [("algorithm.rate", .scalar 1)] := TuningProblem.areDefaults_iff.2 (by decide +kernel)
  refine ⟨a, b, ha, hb, ?_, outcome_of_setting TuningProblem.keepsOrder_echoWorkflow
    TuningProblem.ordered_echoState hp hp' rfl rfl rfl hmonitor hnew hnew' ha hb
    (hbslot.trans haslot.symm) hdefaults ?_⟩
  · rw [haparameters, hbparameters]
    decide
  · rw [haparameters, hbparameters]
    decide +kernel

end Tuner

end Lockstep
