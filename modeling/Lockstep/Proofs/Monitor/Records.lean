import Lockstep.Monitor.Evaluation
import Lockstep.Monitor.Fitness
import Lockstep.Proofs.Tensor.Matrix
import Lockstep.Proofs.Workflow.Start

/-!
# Monitors keep their records in shape

An evaluation monitor that expects the shapes of the candidates it is shown
(`EvaluationConfig.Expects`) accepts all of them with a fitness of one number each, and what it
keeps never changes its shape. The same holds of every fitness monitor. So both can join a workflow
whose candidates are one matrix (`EvaluationMonitor.joins`, `FitnessMonitor.joins`).
-/

namespace Lockstep

open Outcome (Gives)
open LeafPlan (fits_entry)

/-- Whatever the monitor is to keep of candidates has the shape of `count` candidates of width
`dim`. -/
structure EvaluationConfig.Expects (c : EvaluationConfig) (count dim : Nat) : Prop where
  solution : ∀ d ∈ c.solutionDim, d = dim
  candidates : ∀ shape ∈ c.candidateShape, shape = (count, dim)

/-- What is kept of candidates is an array as the candidates are. -/
theorem EvaluationConfig.Expects.isArrayShape_extraShapes {c : EvaluationConfig} {count dim : Nat}
    (hc : c.Expects count dim) (hsize : Tensor.IsArrayShape [count, dim])
    (hhistory : Tensor.IsArrayShape [c.historyLength]) :
    ∀ e ∈ EvaluationMonitor.extraShapes c, Tensor.IsArrayShape e.2 := by
  intro e he
  simp only [EvaluationMonitor.extraShapes, List.mem_append, List.mem_map, Option.mem_toList] at he
  rcases he with (⟨d, hd, rfl⟩ | ⟨shape, hshape, rfl⟩) | he
  · rw [hc.solution d hd]
    exact hsize.tail
  · rw [hc.candidates shape hshape]
    exact hsize
  · split at he
    · obtain rfl := List.mem_singleton.1 he
      exact hhistory
    · cases he

namespace EvaluationMonitor

/-- What the monitor keeps. -/
def entries (c : EvaluationConfig) : List (String × LeafPlan) :=
  [("best_fitness", .free []), ("evaluations", .count), ("stagnation", .free [])] ++
    (extraShapes c).map fun e => (e.1, .free e.2)

/-- What the monitor keeps, as a plan. -/
def plan (c : EvaluationConfig) : LocalPlan := .layered [] (entries c)

variable {c : EvaluationConfig}

theorem names_schema (c : EvaluationConfig) :
    (schema c).map Attribute.name = (entries c).map Prod.fst := by
  obtain ⟨solutionDim, candidateShape, historyLength, stagnationWindow⟩ := c
  cases solutionDim <;> cases candidateShape <;> by_cases h : 0 < historyLength <;>
    simp [schema, entries, extraShapes, Attribute.mutable, Attribute.population, h]

theorem namesFit (c : EvaluationConfig) : Path.NamesFit ((entries c).map Prod.fst) := by
  have hall : Path.NamesFit (["best_fitness", "evaluations", "stagnation"] ++ (["best_solution"] ++
      ["latest_candidates"] ++ ["history"])) := by
    decide
  refine hall.sublist ?_
  simp only [entries, extraShapes, List.map_append, List.map_map]
  refine (List.Sublist.refl _).append ((List.Sublist.append ?_ ?_).append ?_)
  · cases c.solutionDim
    · exact List.nil_sublist _
    · exact .refl _
  · cases c.candidateShape
    · exact List.nil_sublist _
    · exact .refl _
  · split
    · exact .refl _
    · exact List.nil_sublist _

theorem get?_plan {name : String} {q : LeafPlan} (h : (name, q) ∈ entries c) :
    (plan c).get? name = some q := LocalPlan.get?_layered_own (namesFit c).2 h

theorem get?_bestFitness : (plan c).get? "best_fitness" = some (.free []) :=
  get?_plan (by simp [entries])

theorem get?_evaluations : (plan c).get? "evaluations" = some .count :=
  get?_plan (by simp [entries])

theorem get?_stagnation : (plan c).get? "stagnation" = some (.free []) :=
  get?_plan (by simp [entries])

theorem mem_entries_solution {dim : Nat} (h : c.solutionDim = some dim) :
    ("best_solution", .free [dim]) ∈ entries c := by
  simp [entries, extraShapes, h]

theorem mem_entries_candidates {shape : Nat × Nat} (h : c.candidateShape = some shape) :
    ("latest_candidates", .free [shape.1, shape.2]) ∈ entries c := by
  simp [entries, extraShapes, h]

theorem mem_entries_history (h : c.historyLength ≠ 0) :
    ("history", .free [c.historyLength]) ∈ entries c := by
  simp [entries, extraShapes, Nat.pos_of_ne_zero h]

/-- All attributes are mutable, and only the latest candidates have a population axis. -/
theorem mem_schema {a : Attribute} (h : a ∈ schema c) : a.role = .mutable ∧
    ∀ axis ∈ a.populationAxis, axis = 0 ∧ ∃ shape, c.candidateShape = some shape ∧
      (a.name, .free [shape.1, shape.2]) ∈ entries c := by
  simp only [schema, List.mem_append] at h
  rcases h with ((h | h) | h) | h
  · simp only [List.mem_cons, List.not_mem_nil, or_false] at h
    rcases h with rfl | rfl | rfl
    · exact ⟨rfl, nofun⟩
    · exact ⟨rfl, nofun⟩
    · exact ⟨rfl, nofun⟩
  · split at h
    · obtain rfl := List.mem_singleton.1 h
      exact ⟨rfl, nofun⟩
    · cases h
  · split at h
    · next hsome =>
      obtain ⟨shape, hshape⟩ := Option.isSome_iff_exists.1 hsome
      obtain rfl := List.mem_singleton.1 h
      refine ⟨rfl, ?_⟩
      rintro _ ⟨⟩
      exact ⟨rfl, shape, hshape, mem_entries_candidates hshape⟩
    · cases h
  · split at h
    · obtain rfl := List.mem_singleton.1 h
      exact ⟨rfl, nofun⟩
    · cases h

/-- What has no value yet. -/
def unknown : Float := 0 / 0

/-- The values that the monitor starts with: no evaluations and no best fitness, and what is kept on
demand unknown. -/
def firstValues (c : EvaluationConfig) : List (String × Value) :=
  [("best_fitness", .tensor (.scalar infinity)), ("evaluations", .tensor (.scalar 0)),
    ("stagnation", .tensor (.scalar 0))] ++
    (extraShapes c).map fun e => (e.1, .tensor (.constant e.2 unknown))

/-- The local state with which the monitor starts. -/
def firstState (c : EvaluationConfig) : LocalState := .ofList (firstValues c)

/-- A monitor can start when arrays can have the shapes of what it keeps. -/
theorem initialState_eq_ok_iff {l : LocalState} :
    initialState c = .ok l ↔
      (∀ e ∈ extraShapes c, Tensor.IsArrayShape e.2) ∧ l = firstState c := by
  have hextra : ∀ (e : String × List Nat) (v : String × Value),
      (do return (e.1, Value.tensor (← Tensor.full e.2 (0 / 0))) : Outcome _) = .ok v ↔
        Tensor.IsArrayShape e.2 ∧ v = (e.1, .tensor (.constant e.2 unknown)) := by
    intro e v
    rw [Outcome.bind_eq_ok_iff]
    constructor
    · rintro ⟨t, ht, h⟩
      obtain ⟨harray, rfl⟩ := Tensor.full_eq_ok_iff.1 ht
      exact ⟨harray, (Except.ok.inj h).symm⟩
    · rintro ⟨harray, rfl⟩
      exact ⟨_, Tensor.full_eq_ok_iff.2 ⟨harray, rfl⟩, rfl⟩
  rw [initialState, Outcome.bind_eq_ok_iff]
  constructor
  · rintro ⟨extras, hextras, h⟩
    obtain ⟨harrays, rfl⟩ := (Outcome.mapM_eq_ok_iff_of_iff hextra).1 hextras
    exact ⟨harrays, (Except.ok.inj h).symm⟩
  · rintro ⟨harrays, rfl⟩
    exact ⟨_, (Outcome.mapM_eq_ok_iff_of_iff hextra).2 ⟨harrays, rfl⟩, rfl⟩

/-- The first values are as planned. -/
theorem matching_firstValues (c : EvaluationConfig) :
    Table.Matching (LeafPlan.FitsValue 0 []) (firstValues c) (entries c) := by
  refine .append (.cons (fits_entry rfl) (.cons LeafPlan.fits_zero (.cons (fits_entry rfl) .nil)))
    ?_
  rw [Table.Matching, List.forall₂_map_left_iff, List.forall₂_map_right_iff, List.forall₂_same]
  exact fun e _ => fits_entry rfl

variable {n d most : Nat}

theorem starts (hc : c.Expects n d) (harrays : ∀ e ∈ extraShapes c, Tensor.IsArrayShape e.2)
    (listens : Bool) :
    (Monitor.evaluation c listens).component.Starts (plan c) n := by
  refine Component.starts_of_mutable (fun a ha => (mem_schema ha).1) (names_schema c) (namesFit c)
    (fun a ha axis haxis => ?_) fun node g => ?_
  · obtain ⟨hzero, shape, hshape, hentry⟩ := (mem_schema ha).2 axis haxis
    rw [hc.candidates shape hshape] at hentry
    exact ⟨hzero, [d], hentry⟩
  · exact ⟨_, initialState_eq_ok_iff.2 ⟨harrays, rfl⟩, matching_firstValues c⟩

/-! ## Keeping records -/

section

variable {l : LocalState}

theorem gives_recordCandidates (hc : c.Expects n d) (hl : (plan c).Fits most [] l) {t : Tensor}
    (ht : t.shape = [n, d]) :
    Gives (fun seen => ∀ l' ∈ seen, (plan c).Fits most [] l')
      (recordCandidates c l (.dense t)) := by
  rw [recordCandidates]
  cases hshape : c.candidateShape with
  | none => exact .ok nofun
  | some shape =>
    obtain rfl := hc.candidates shape hshape
    dsimp only
    rw [Candidates.asDense, Outcome.ok_bind, if_pos ht]
    refine .ok ?_
    rintro _ ⟨⟩
    exact hl.setShape (get?_plan (mem_entries_candidates hshape)) ht

theorem gives_improve (hc : c.Expects n d) (hl : (plan c).Fits most [] l) {t : Tensor}
    (ht : t.shape = [n, d]) {index : Nat} (hindex : index < n) (fitness : Float) :
    Gives ((plan c).Fits most []) (improve c l (.dense t) index fitness) := by
  have hbest : (plan c).Fits most [] (l.setNumber "best_fitness" fitness) :=
    hl.setNumber get?_bestFitness fitness
  rw [improve]
  cases hdim : c.solutionDim with
  | none => exact .ok hbest
  | some dim =>
    obtain rfl := hc.solution dim hdim
    refine Gives.bind (P := fun u => u.shape = [dim]) ?_ fun u hu =>
      .ok (hbest.setShape (get?_plan (mem_entries_solution hdim)) hu)
    refine (Tensor.gives_asMatrix ht _).bind fun m hm => ?_
    obtain ⟨row, hrow, hlength⟩ := hm.getElem? hindex
    rw [if_neg (not_not.2 hm.2), hrow]
    exact .ok (Tensor.shape_vector_of_length hlength)

theorem gives_recordHistory (hl : (plan c).Fits most [] l) :
    Gives ((plan c).Fits most []) (recordHistory c l) := by
  rw [recordHistory]
  split
  · exact .ok hl
  · next hhistory =>
    have hplan := get?_plan (mem_entries_history hhistory)
    obtain ⟨best, hbest⟩ := hl.number get?_bestFitness
    rw [bestFitness, hbest, Outcome.ok_bind]
    refine (hl.tensor hplan).bind fun t ht => ?_
    rw [LeafPlan.fits_free] at ht
    -- there is a first number to drop
    have hdata : t.data ≠ [] := by
      intro hnone
      have hfills := t.fills
      rw [hnone, ht] at hfills
      simp at hfills
      exact hhistory hfills.symm
    rw [shiftIn, dif_neg hdata]
    exact .ok (hl.setShape hplan ht)

theorem outcome_report (listens : Bool) (ctx : HookContext) (level : EventLevel)
    (kind : EventKind) : (report listens ctx level kind).outcome = .ok () := by
  rw [report]
  split
  · rfl
  · rfl

/-- One number for each candidate is ranked. -/
theorem gives_recordBest (hc : c.Expects n d) (hl : (plan c).Fits most [] l) {t : Tensor}
    (ht : t.shape = [n, d]) {fitness : List Float} (hfitness : fitness.length = n) (listens : Bool)
    (ctx : HookContext) :
    Gives ((plan c).Fits most []) (recordBest c listens ctx l (.dense t) fitness).outcome := by
  obtain ⟨previous, hprevious⟩ := hl.number get?_bestFitness
  obtain ⟨stagnation, hstagnation⟩ := hl.number get?_stagnation
  simp only [recordBest, bestFitness, Traced.outcome_bind, Traced.outcome_liftM, hprevious,
    Outcome.ok_bind]
  cases himprovement : improvement fitness previous with
  | none =>
    simp only [Traced.outcome_bind, Traced.outcome_liftM, hstagnation, Outcome.ok_bind]
    have hnext := gives_recordHistory (hl.setNumber get?_stagnation (stagnation + 1))
    split
    · rw [Traced.outcome_bind, outcome_report, Outcome.ok_bind]
      exact hnext
    · exact hnext
  | some r =>
    obtain ⟨index, f⟩ := r
    obtain ⟨hmin, -⟩ := Option.filter_eq_some_iff.1 himprovement
    have hindex : index < n := hfitness ▸ Tensor.index_argmin_lt hmin
    simp only [Traced.outcome_bind, Traced.outcome_liftM]
    refine (gives_improve hc hl ht hindex f).bind fun l' hl' => ?_
    rw [outcome_report, Outcome.ok_bind]
    exact gives_recordHistory (hl'.setNumber get?_stagnation 0)

/-- The monitor records all candidates with their fitness, and counts them as long as the count is
exact. -/
theorem gives_record (hc : c.Expects n d) (hl : (plan c).Fits most [] l)
    (hmost : most + n < 2 ^ 53) {t : Tensor} (ht : t.shape = [n, d]) {fitness : Tensor}
    (hfitness : fitness.shape = [n]) (listens : Bool) (ctx : HookContext) :
    Gives ((plan c).Fits (most + n) []) (record c listens ctx l (.dense t) fitness).outcome := by
  obtain ⟨count, hcount, hnumber⟩ := hl.count get?_evaluations
  have hrank : fitness.rank = 1 := congrArg List.length hfitness
  have hlength : fitness.data.length = n := by
    rw [fitness.fills, hfitness, volume_cons, volume_nil, Nat.mul_one]
  have hexact : count.toNat < 2 ^ 53 := by omega
  have htotal : count.toNat + fitness.shape.headD 0 ≤ most + n := by
    rw [hfitness]
    exact Nat.add_le_add_right hcount n
  have hword : count.toNat + fitness.shape.headD 0 < UInt64.size :=
    Nat.lt_of_le_of_lt htotal (hmost.trans (by decide))
  simp only [record, evaluations, Traced.outcome_bind, Traced.outcome_liftM, hnumber,
    Outcome.ok_bind, Outcome.pure_eq_ok, hrank, Binary64.toUInt64_toFloat hexact,
    wordOf_eq_ok hword]
  have hbest := gives_recordBest hc ((hl.mono (Nat.le_add_right most n)).setCount get?_evaluations
    ((UInt64.toNat_ofNat_of_lt' hword).trans_le htotal)) ht hlength listens ctx
  rw [if_neg Nat.one_ne_zero]
  simp only [if_true]
  split
  · rw [Traced.outcome_bind, outcome_report, Outcome.ok_bind]
    exact hbest
  · exact hbest

end

/-- A monitor that expects the shapes it is shown, and whose records can be arrays, can join. -/
theorem joins (hc : c.Expects n d) (harrays : ∀ e ∈ extraShapes c, Tensor.IsArrayShape e.2)
    (listens : Bool) : (Monitor.evaluation c listens).Joins (.dense n d) := by
  refine ⟨rfl, plan c, starts hc harrays listens, fun {most ctx l call} hl hcall hmost => ?_⟩
  cases call with
  | postAsk candidates =>
    obtain ⟨t, rfl, ht⟩ := hcall
    exact gives_recordCandidates hc hl ht
  | postEval candidates fitness =>
    obtain ⟨⟨t, rfl, ht⟩, hf⟩ := hcall
    simp only [Monitor.evaluation, Traced.outcome_bind]
    refine (gives_record hc hl hmost ht hf listens ctx).bind fun l' hl' => .ok ?_
    rintro _ ⟨⟩
    exact hl'
  | _ => exact .ok nofun

end EvaluationMonitor

namespace FitnessMonitor

/-- What the monitor keeps. -/
def plan : LocalPlan := .layered [] [("best", .free [])]

theorem get?_plan : plan.get? "best" = some (.free []) :=
  LocalPlan.get?_layered_own (show ["best"].Nodup by decide) List.mem_cons_self

/-- One number for each candidate can be recorded without a front. -/
theorem gives_record (front : Option Front) (node : NodeContext) {most : Nat} {l : LocalState}
    (hl : plan.Fits most [] l) {fitness : Tensor} {n : Nat} (hfitness : fitness.shape = [n]) :
    Gives (fun seen => ∀ l' ∈ seen, plan.Fits most [] l') (record front node l fitness) := by
  obtain ⟨lowest, hlowest⟩ := hl.number get?_plan
  have hreduce : reduce front node fitness =
      .ok (smallest (fitness.data.filter fun x => !x.isNaN)) :=
    if_pos (congrArg List.length hfitness)
  rw [record, hreduce, Outcome.ok_bind, best, hlowest, Outcome.ok_bind]
  split
  · refine .ok ?_
    rintro _ ⟨⟩
    exact hl.setNumber get?_plan _
  · exact .ok nofun

/-- Every fitness monitor can join. -/
theorem joins (front : Option Front) (n d : Nat) : (Monitor.fitness front).Joins (.dense n d) := by
  refine ⟨rfl, plan, ?_, fun {most ctx l call} hl hcall _ => ?_⟩
  · exact Component.starts_of_mutable (List.forall_mem_singleton.2 rfl) rfl
      (show Path.NamesFit ["best"] by decide) (List.forall_mem_singleton.2 nofun) fun node g =>
      ⟨[("best", .tensor (.scalar infinity))], rfl, .cons (fits_entry rfl) .nil⟩
  · cases call with
    | preTell fitness => exact gives_record front ctx.node hl hcall
    | _ => exact .ok nofun

end FitnessMonitor

end Lockstep
