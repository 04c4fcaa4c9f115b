import Lockstep.Proofs.Component.Candidates
import Lockstep.Proofs.Table.Matching
import Lockstep.Proofs.Tuning.History
import Lockstep.Proofs.Tuning.Slots
import Lockstep.Proofs.Workflow.Frame

/-!
# Checked parameters

A tuning problem takes a batch of parameters when every path is that of a parameter and every value
has the parameter's shape once for each instance (`TuningProblem.check_eq_ok_iff`); otherwise the
first entry that does not fit says why (`TuningProblem.check_eq_error_iff`). Both ways into a run
check first, so a batch that is refused reaches no component (`TuningProblem.batches_are_checked`),
and the spec of the problem takes the same batches, apart from those that lack a parameter.
-/

namespace Lockstep

namespace Workflow

/-- The workflow has a parameter at a path, and its default has the given shape. -/
def Declares (w : Workflow) (path : String) (shape : List Nat) : Prop :=
  ∃ a, (path, a) ∈ w.parameters ∧ a.shape = some shape

/-- The value fits the parameter at the path for a count of instances. -/
def Takes (w : Workflow) (instances : Nat) (path : String) (t : Tensor) : Prop :=
  ∃ shape, w.Declares path shape ∧ t.shape = instances :: shape

/-- Why a value does not fit: there is no such parameter, or else the value is not there once for
each instance, or else what it has for an instance is of another shape. -/
inductive Refuses (w : Workflow) (instances : Nat) (path : String) (t : Tensor) : Error → Prop
  | unknown : (∀ shape, ¬w.Declares path shape) →
      Refuses w instances path t (.hpo (.unknownParameter path))
  | instances {shape : List Nat} : w.Declares path shape → t.shape.head? ≠ some instances →
      Refuses w instances path t (.hpo (.instanceCount path instances (t.shape.head?.getD 0)))
  | shape {shape inner : List Nat} : w.Declares path shape → t.shape = instances :: inner →
      inner ≠ shape → Refuses w instances path t (.hpo (.parameterShape path shape inner))

end Workflow

namespace TuningProblem

/-- The problem was made of a workflow and a configuration and then used, any number of times. -/
def Wraps (p : TuningProblem) (w : Workflow) (c : TuningConfig) : Prop :=
  ∃ first new calls, TuningProblem.new w first c = .ok new ∧ p = (new.after calls).problem

variable {w : Workflow} {c : TuningConfig} {p : TuningProblem}

theorem wraps_of_new {first : State} (h : TuningProblem.new w first c = .ok p) : p.Wraps w c :=
  ⟨first, p, [], h, rfl⟩

/-- Use changes nothing of a problem but its instances. -/
theorem Wraps.eq_withInstances (h : p.Wraps w c) :
    ∃ first new, TuningProblem.new w first c = .ok new ∧
      p = { new with instances := p.instances } := by
  obtain ⟨first, new, calls, hnew, rfl⟩ := h
  exact ⟨first, new, hnew, (follows_after (new_eq_ok hnew).2 calls).frame⟩

/-! ## The shapes of the parameters -/

/-- The parameters with their defaults. -/
theorem mem_defaults_iff {parameters : List (String × Attribute)}
    {defaults : List (String × Tensor)} (h : AreDefaults parameters defaults)
    {d : String × Tensor} :
    d ∈ defaults ↔ ∃ a, (d.1, a) ∈ parameters ∧ a.default = some d.2 := by
  constructor
  · intro hd
    obtain ⟨⟨path, a⟩, ha, rfl, hdefault⟩ := Outcome.exists_left_of_mem h hd
    exact ⟨a, ha, hdefault⟩
  · rintro ⟨a, ha, hdefault⟩
    obtain ⟨d', hd', hpath, hdefault'⟩ := Outcome.exists_left_of_mem h.flip ha
    obtain rfl : d' = d := Prod.ext hpath (Option.some.inj (hdefault'.symm.trans hdefault))
    exact hd'

theorem paths_defaults {parameters : List (String × Attribute)}
    {defaults : List (String × Tensor)} (h : AreDefaults parameters defaults) :
    defaults.map Prod.fst = parameters.map Prod.fst := by
  rw [← List.forall₂_eq_eq_eq, List.forall₂_map_left_iff, List.forall₂_map_right_iff]
  exact h.flip.imp fun d e hd => hd.1

/-- The configuration of a problem, its shapes and its defaults. -/
theorem Wraps.spec (h : p.Wraps w c) :
    p.config = c ∧ ∃ defaults, AreDefaults w.parameters defaults ∧
      p.shapes = (Table.ofList defaults).mapValues Tensor.shape ∧
      p.defaults = (Table.ofList defaults).mapValues fun t => t.repeated c.instances := by
  obtain ⟨first, new, hnew, hp⟩ := h.eq_withInstances
  obtain ⟨-, _, defaults, _, _, hdefaults, -, -, rfl⟩ := eq_of_new hnew
  rw [hp]
  exact ⟨rfl, defaults, hdefaults, rfl, rfl⟩

/-- The paths of the defaults of an assembled workflow are all different. -/
theorem nodup_paths_defaults (hw : w.Assembled) {defaults : List (String × Tensor)}
    (h : AreDefaults w.parameters defaults) : (defaults.map Prod.fst).Nodup := by
  rw [paths_defaults h]
  exact hw.planted.nodup_parameters

/-- The shapes of a problem are those that its workflow declares. -/
theorem Wraps.get?_shapes (hw : w.Assembled) (h : p.Wraps w c) {path : String} {shape : List Nat} :
    Table.get? path p.shapes = some shape ↔ w.Declares path shape := by
  obtain ⟨-, defaults, hdefaults, hshapes, -⟩ := h.spec
  have hnodup := nodup_paths_defaults hw hdefaults
  rw [hshapes, Table.get?_mapValues, Option.map_eq_some_iff]
  simp only [Table.get?_ofList_eq_some_iff hnodup, mem_defaults_iff hdefaults]
  constructor
  · rintro ⟨t, ⟨a, ha, hdefault⟩, rfl⟩
    exact ⟨a, ha, by rw [Attribute.shape, hdefault]; rfl⟩
  · rintro ⟨a, ha, hshape⟩
    obtain ⟨t, hdefault, rfl⟩ := Option.map_eq_some_iff.1 hshape
    exact ⟨t, ⟨a, ha, hdefault⟩, rfl⟩

theorem Wraps.mem_shapes_iff (hw : w.Assembled) (h : p.Wraps w c) {path : String}
    {shape : List Nat} : (path, shape) ∈ p.shapes ↔ w.Declares path shape := by
  obtain ⟨-, defaults, -, hshapes, -⟩ := h.spec
  have hsorted : p.shapes.Sorted := by
    rw [hshapes]
    exact (Table.sorted_ofList defaults).of_keys (Table.keys_mapValues _ _)
  rw [← hsorted.get?_eq_some_iff, h.get?_shapes hw]

theorem Wraps.mem_keys_shapes_iff (hw : w.Assembled) (h : p.Wraps w c) {path : String} :
    path ∈ Table.keys p.shapes ↔ ∃ shape, w.Declares path shape := by
  rw [← Table.get?_isSome_iff, Option.isSome_iff_exists]
  exact exists_congr fun shape => h.get?_shapes hw

/-- Every parameter has a default, so its shape is declared. -/
theorem Wraps.declares (h : p.Wraps w c) {e : String × Attribute} (he : e ∈ w.parameters) :
    ∃ shape, w.Declares e.1 shape := by
  obtain ⟨-, defaults, hdefaults, -⟩ := h.spec
  obtain ⟨d, -, -, hdefault⟩ := Outcome.exists_left_of_mem hdefaults.flip he
  exact ⟨d.2.shape, e.2, he, by rw [Attribute.shape, hdefault]; rfl⟩

/-! ## The defaults -/

/-- There is a default for each parameter. -/
theorem Wraps.mem_keys_defaults_iff (h : p.Wraps w c) {path : String} :
    path ∈ Table.keys p.defaults ↔ path ∈ w.parameters.map Prod.fst := by
  obtain ⟨-, defaults, hlist, -, hdefaults⟩ := h.spec
  rw [hdefaults, Table.keys_mapValues, Table.mem_keys_ofList, paths_defaults hlist]

theorem Wraps.sorted_defaults (h : p.Wraps w c) : p.defaults.Sorted := by
  obtain ⟨-, defaults, -, -, hdefaults⟩ := h.spec
  rw [hdefaults]
  exact (Table.sorted_ofList defaults).of_keys (Table.keys_mapValues _ _)

/-- The default of a parameter is there once for each instance. -/
theorem Wraps.get?_defaults (hw : w.Assembled) (h : p.Wraps w c) {path : String} {a : Attribute}
    (ha : (path, a) ∈ w.parameters) {t : Tensor} (ht : a.default = some t) :
    Table.get? path p.defaults = some (t.repeated c.instances) := by
  obtain ⟨-, defaults, hlist, -, hdefaults⟩ := h.spec
  have hmem : (path, t) ∈ defaults := (mem_defaults_iff hlist).2 ⟨a, ha, ht⟩
  rw [hdefaults, Table.get?_mapValues,
    Table.get?_ofList_of_mem (nodup_paths_defaults hw hlist) hmem, Option.map_some]

/-! ## The check -/

theorem checkParameter_eq_ok_iff (hw : w.Assembled) (h : p.Wraps w c) {path : String} {t : Tensor} :
    p.checkParameter path t = .ok () ↔ w.Takes c.instances path t := by
  rw [checkParameter, h.spec.1]
  constructor
  · intro hcheck
    split at hcheck
    · cases hcheck
    · next shape hshape =>
      split at hcheck
      · cases hcheck
      · next n inner ht =>
        split at hcheck
        · cases hcheck
        · next hn =>
          split at hcheck
          · cases hcheck
          · next hinner =>
            rw [not_not] at hn hinner
            exact ⟨shape, (h.get?_shapes hw).1 hshape, by rw [ht, hn, hinner]⟩
  · rintro ⟨shape, hshape, ht⟩
    simp only [(h.get?_shapes hw).2 hshape, ht, ne_eq, not_true_eq_false, if_false]

theorem checkParameter_eq_error_iff (hw : w.Assembled) (h : p.Wraps w c) {path : String}
    {t : Tensor} {error : Error} :
    p.checkParameter path t = .error error ↔ w.Refuses c.instances path t error := by
  rw [checkParameter, h.spec.1]
  constructor
  · intro hcheck
    split at hcheck
    · next hnone =>
      obtain rfl := Except.error.inj hcheck
      refine .unknown fun shape hshape => ?_
      rw [(h.get?_shapes hw).2 hshape] at hnone
      cases hnone
    · next shape hshape =>
      have hdeclares := (h.get?_shapes hw).1 hshape
      -- a scalar has no first axis, and a length of zero is reported for it
      split at hcheck
      · next ht =>
        obtain rfl := Except.error.inj hcheck
        have hhead : t.shape.head? = none := by rw [ht]; rfl
        have hrefuses : w.Refuses c.instances path t
            (.hpo (.instanceCount path c.instances (t.shape.head?.getD 0))) :=
          .instances hdeclares (by rw [hhead]; exact (Option.some_ne_none _).symm)
        rwa [hhead] at hrefuses
      · next n inner ht =>
        have hhead : t.shape.head? = some n := by rw [ht]; rfl
        split at hcheck
        · next hn =>
          obtain rfl := Except.error.inj hcheck
          have hrefuses : w.Refuses c.instances path t
              (.hpo (.instanceCount path c.instances (t.shape.head?.getD 0))) :=
            .instances hdeclares (by rw [hhead]; exact fun he => hn (Option.some.inj he))
          rwa [hhead] at hrefuses
        · next hn =>
          rw [not_not] at hn
          split at hcheck
          · next hinner =>
            obtain rfl := Except.error.inj hcheck
            exact .shape hdeclares (hn ▸ ht) hinner
          · cases hcheck
  · rintro (hnone | ⟨hshape, hhead⟩ | ⟨hshape, ht, hinner⟩)
    · have hget : Table.get? path p.shapes = none :=
        Option.eq_none_iff_forall_ne_some.2 fun shape hs => hnone shape ((h.get?_shapes hw).1 hs)
      rw [hget]
    · rw [(h.get?_shapes hw).2 hshape]
      cases ht : t.shape with
      | nil => rfl
      | cons n inner =>
        rw [ht] at hhead
        exact if_pos fun he => hhead (congrArg some he)
    · simp only [(h.get?_shapes hw).2 hshape, ht, ne_eq, not_true_eq_false, if_false, hinner,
        not_false_eq_true, if_true]

theorem check_eq_ok_iff (hw : w.Assembled) (h : p.Wraps w c) {batch : ParameterBatch} :
    p.check batch = .ok () ↔ ∀ e ∈ batch, w.Takes c.instances e.1 e.2 := by
  rw [check, Outcome.forM_eq_ok_iff]
  exact forall₂_congr fun e _ => checkParameter_eq_ok_iff hw h

/-- The check fails at the first entry that does not fit. -/
theorem check_eq_error_iff (hw : w.Assembled) (h : p.Wraps w c) {batch : ParameterBatch}
    (hbatch : batch.Sorted) {error : Error} :
    p.check batch = .error error ↔ ∃ path t, (path, t) ∈ batch ∧
      w.Refuses c.instances path t error ∧
      ∀ e ∈ batch, e.1 < path → w.Takes c.instances e.1 e.2 := by
  rw [check, Outcome.forM_eq_error_iff]
  constructor
  · rintro ⟨front, ⟨path, t⟩, back, rfl, herror, hfront⟩
    refine ⟨path, t, List.mem_append_right _ List.mem_cons_self,
      (checkParameter_eq_error_iff hw h).1 herror, fun e he hlt => ?_⟩
    exact (checkParameter_eq_ok_iff hw h).1 (hfront e (hbatch.mem_front_iff.2 ⟨he, hlt⟩))
  · rintro ⟨path, t, hmem, hrefuses, hbefore⟩
    obtain ⟨front, back, rfl⟩ := List.append_of_mem hmem
    refine ⟨front, (path, t), back, rfl, (checkParameter_eq_error_iff hw h).2 hrefuses,
      fun e he => ?_⟩
    obtain ⟨hmem', hlt⟩ := hbatch.mem_front_iff.1 he
    exact (checkParameter_eq_ok_iff hw h).2 (hbefore e hmem' hlt)

/-- Values with the shapes of the defaults pass the check. -/
theorem Wraps.check_of_shapes (h : p.Wraps w c) {batch : ParameterBatch}
    (hbatch : ∀ e ∈ batch, ∃ t, (e.1, t) ∈ p.defaults ∧ e.2.shape = t.shape) :
    p.check batch = .ok () := by
  obtain ⟨rfl, defaults, -, hshapes, hdefaults⟩ := h.spec
  refine Outcome.forM_eq_ok_iff.2 fun e he => ?_
  obtain ⟨t, ht, hshape⟩ := hbatch e he
  rw [hdefaults] at ht
  obtain ⟨⟨path, d⟩, hd, heq⟩ := List.mem_map.1 ht
  obtain ⟨rfl, rfl⟩ := Prod.mk.inj heq
  have hget := (Table.sorted_ofList defaults).get?_eq_some_iff.2 hd
  simp only [checkParameter, hshapes, Table.get?_mapValues, hget, Option.map_some, hshape,
    Tensor.shape_repeated, ne_eq, not_true_eq_false, if_false]

/-! ## What follows the check -/

/-- A batch that is refused is answered at once. -/
theorem runFrom_of_check_eq_error {batch : ParameterBatch} {error : Error}
    (h : p.check batch = .error error) (start : State) :
    p.runFrom start batch = Traced.fail error := by
  rw [runFrom, h]
  rfl

theorem evaluateBatch_of_check_eq_error {batch : ParameterBatch} {error : Error}
    (h : p.check batch = .error error) : p.evaluateBatch batch = (Traced.fail error, p) := by
  rw [evaluateBatch, runFrom_of_check_eq_error h]
  rfl

theorem evaluateLocal_of_check_eq_error {batch : ParameterBatch} {error : Error}
    (h : p.check batch = .error error) {l : LocalState} {s : State}
    (hl : l.nested instancesAttribute = .ok s) :
    p.evaluateLocal l (.named batch) = Traced.fail error := by
  rw [evaluateLocal, Candidates.asNamed, Traced.ok_bind, hl, Traced.ok_bind,
    runFrom_of_check_eq_error h, runFrom_of_check_eq_error h]
  cases p.config.restart with
  | true => rfl
  | false => rfl

/-- The spec takes what the check takes, when no parameter is missing. -/
theorem spec_takes_iff (hw : w.Assembled) (h : p.Wraps w c) (hparameters : w.parameters ≠ [])
    {batch : ParameterBatch} (hbatch : batch.Sorted) :
    p.problem.spec.check (.named batch) = .ok () ∧
        (Candidates.named batch).size = .ok c.instances ↔
      p.check batch = .ok () ∧ ∀ e ∈ w.parameters, e.1 ∈ Table.keys batch := by
  have hspec : p.problem.spec = .named p.shapes := rfl
  rw [hspec, InputSpec.check_named_eq_ok_iff, check_eq_ok_iff hw h]
  constructor
  · rintro ⟨⟨hnames, hshapes, -⟩, hsize⟩
    obtain ⟨-, hsize⟩ := Candidates.size_named_eq_ok_iff.1 hsize
    refine ⟨fun e he => ?_, fun e he => ?_⟩
    · obtain ⟨shape, hshape⟩ := (h.mem_keys_shapes_iff hw).1 (hnames e he)
      obtain ⟨t, n, ht, hn⟩ := hshapes _ ((h.mem_shapes_iff hw).2 hshape)
      obtain ⟨inner, hinner⟩ := hsize e he
      -- the shape is that of the spec behind the leading axis, and the size says how long that is
      obtain rfl : e.2 = t := Option.some.inj ((hbatch.get?_eq_some_iff.2 he).symm.trans ht)
      obtain ⟨-, rfl⟩ := List.cons.inj (hinner.symm.trans hn)
      exact ⟨inner, hshape, hinner⟩
    · obtain ⟨shape, hshape⟩ := h.declares he
      obtain ⟨t, n, ht, -⟩ := hshapes _ ((h.mem_shapes_iff hw).2 hshape)
      exact Table.mem_keys_of_mem (Table.mem_of_get?_eq_some ht)
  · rintro ⟨htakes, hall⟩
    have hsize : (Candidates.named batch).size = .ok c.instances := by
      refine Candidates.size_named_eq_ok_iff.2 ⟨fun hnil => ?_, fun e he => ?_⟩
      · obtain ⟨e, he⟩ := List.exists_mem_of_ne_nil _ hparameters
        have hmem := hall e he
        rw [hnil] at hmem
        cases hmem
      · obtain ⟨shape, -, ht⟩ := htakes e he
        exact ⟨shape, ht⟩
    refine ⟨⟨fun e he => ?_, fun e he => ?_, _, hsize⟩, hsize⟩
    · obtain ⟨shape, hshape, -⟩ := htakes e he
      exact (h.mem_keys_shapes_iff hw).2 ⟨shape, hshape⟩
    · obtain ⟨a, ha, hshape⟩ := (h.mem_shapes_iff hw).1 he
      obtain ⟨⟨path, t⟩, ht, hpath⟩ := List.mem_map.1 (hall _ ha)
      obtain rfl : path = e.1 := hpath
      obtain ⟨shape, hdeclares, htshape⟩ := htakes _ ht
      have hsame : shape = e.2 := Option.some.inj
        (((h.get?_shapes hw).2 hdeclares).symm.trans ((h.get?_shapes hw).2 ⟨a, ha, hshape⟩))
      exact ⟨t, c.instances, hbatch.get?_eq_some_iff.2 ht, hsame ▸ htshape⟩

/-- **Batches are checked before anything runs.** A problem takes a batch exactly when every path is
that of a parameter of its workflow and every value has the parameter's shape once for each
instance. Any other batch is refused for its first entry that does not fit, on both ways into a run
and whatever the workflow would do with it. And if there is a parameter at all, the spec takes a
batch with as many candidates as there are instances exactly when the check does and no parameter is
missing. -/
theorem batches_are_checked (hw : w.Assembled) (h : p.Wraps w c) {batch : ParameterBatch}
    (hbatch : batch.Sorted) :
    (p.check batch = .ok () ↔ ∀ e ∈ batch, w.Takes c.instances e.1 e.2) ∧
    (∀ error, p.check batch = .error error ↔ ∃ path t, (path, t) ∈ batch ∧
      w.Refuses c.instances path t error ∧
      ∀ e ∈ batch, e.1 < path → w.Takes c.instances e.1 e.2) ∧
    (∀ error, p.check batch = .error error → ∀ workflow : Workflow,
      ({ p with workflow } : TuningProblem).evaluateBatch batch =
        (Traced.fail error, { p with workflow }) ∧
      ∀ ctx l s, LocalState.nested l instancesAttribute = .ok s →
        ({ p with workflow } : TuningProblem).problem.evaluate ctx l (.named batch) =
          Traced.fail error) ∧
    (w.parameters ≠ [] → (p.problem.spec.check (.named batch) = .ok () ∧
        (Candidates.named batch).size = .ok c.instances ↔
      p.check batch = .ok () ∧ ∀ e ∈ w.parameters, e.1 ∈ Table.keys batch)) := by
  refine ⟨check_eq_ok_iff hw h, fun error => check_eq_error_iff hw h hbatch,
    fun error herror workflow => ?_, fun hparameters => spec_takes_iff hw h hparameters hbatch⟩
  -- the check does not look at the workflow
  have herror' : ({ p with workflow } : TuningProblem).check batch = .error error := herror
  exact ⟨evaluateBatch_of_check_eq_error herror',
    fun ctx l s hl => evaluateLocal_of_check_eq_error herror' hl⟩

/-- Two instances are refused three rates, and an unknown path behind them does not matter. -/
theorem batches_are_checked_carriedEchoes :
    echoWorkflow.Takes 2 "algorithm.rate" (.vector [3, 5]) ∧
      (carriedEchoes.evaluateBatch
        [("algorithm.rate", .vector [3, 5, 7]), ("speed", .scalar 1)]).1 =
          Traced.fail (.hpo (.instanceCount "algorithm.rate" 2 3)) := by
  have hnew : TuningProblem.new echoWorkflow echoState
    { iterations := 2, instances := 2, restart := false } = .ok carriedEchoes := Outcome.eq_ok_get _
  have hwraps := wraps_of_new hnew
  have htaken : Table.Sorted [("algorithm.rate", Tensor.vector [3, 5])] := by decide
  have hrefused : Table.Sorted
    [("algorithm.rate", Tensor.vector [3, 5, 7]), ("speed", .scalar 1)] := by decide
  obtain ⟨hok, -⟩ := batches_are_checked Workflow.assembled_echoWorkflow hwraps htaken
  obtain ⟨-, -, herror, -⟩ := batches_are_checked Workflow.assembled_echoWorkflow hwraps hrefused
  refine ⟨hok.1 (by decide +kernel) _ List.mem_cons_self, ?_⟩
  exact congrArg Prod.fst (herror _ (by decide +kernel) echoWorkflow).1

end TuningProblem

end Lockstep
