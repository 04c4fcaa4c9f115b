import Lockstep.Proofs.Algorithm.ParticleSwarm
import Lockstep.Proofs.Binary64.FirstLowest
import Lockstep.Proofs.Monitor.Records

/-!
# The best fitness in local states

The swarm, the evaluation monitor and the fitness monitor each keep the best fitness in a local
state of their own. Shown a fitness with one number for each candidate, each replaces its number by
the smaller one of it and of the lowest number of the fitness (`ParticleSwarm.best_learn`,
`EvaluationMonitor.best_record`, `FitnessMonitor.best_record`), although no two of them look for
that number in the same way. All that they do to a local state is to put tensors into it
(`LocalState.Written`).
-/

namespace Lockstep

namespace LocalState

/-- A local state with tensors put under attributes of some names. -/
inductive Written (names : List String) (l : LocalState) : LocalState → Prop
  | refl : Written names l l
  | set {l' : LocalState} {name : String} (h : Written names l l') (hname : name ∈ names)
    (t : Tensor) : Written names l (l'.setTensor name t)

namespace Written

variable {names names' : List String} {l l' l'' : LocalState}

theorem setTensor (l : LocalState) (name : String) (t : Tensor) :
    Written [name] l (l.setTensor name t) := .set .refl List.mem_cons_self t

theorem setNumber (l : LocalState) (name : String) (x : Float) :
    Written [name] l (l.setNumber name x) := setTensor l name _

/-- What is written in two goes is written. -/
theorem trans (h : Written names l l') (h' : Written names l' l'') : Written names l l'' := by
  induction h' with
  | refl => exact h
  | set _ hname t ih => exact ih.set hname t

/-- More names may be written than are. -/
theorem mono (h : Written names l l') (hsub : names ⊆ names') : Written names' l l' := by
  induction h with
  | refl => exact .refl
  | set _ hname t ih => exact ih.set (hsub hname) t

/-- Other attributes keep their tensors. -/
theorem tensor (h : Written names l l') {other : String} (hother : other ∉ names) :
    l'.tensor other = l.tensor other := by
  induction h with
  | refl => rfl
  | set _ hname t ih =>
    have hne : other ≠ _ := fun he => hother (he ▸ hname)
    rw [tensor_setTensor_of_ne _ t hne, ih]

/-- The numbers of other names are as they were. -/
theorem number (h : Written names l l') {other : String} (hother : other ∉ names) :
    l'.number other = l.number other := by
  rw [LocalState.number, LocalState.number, h.tensor hother]

/-- Writing to a local state keeps its names in order. -/
theorem ordered (h : Written names l l') (hl : l.Ordered) : l'.Ordered := by
  induction h with
  | refl => exact hl
  | set _ hname t ih => exact State.LocalOrdered.insert ih _ trivial

end Written

end LocalState

open LocalState (Written)

/-- The lowest number of a list by the index of its smallest number, else infinity. -/
def lowest (xs : List Float) : Float := (Tensor.argmin xs).elim infinity Prod.snd

/-- A number after the one with the smallest index was compared to it. -/
theorem smaller_lowest (x : Float) (xs : List Float) :
    smaller x (lowest xs) = match Tensor.argmin xs with
      | some (_, f) => if f < x then f else x
      | none => x := by
  rw [lowest]
  cases Tensor.argmin xs with
  | none => exact if_neg (not_infinity_lt x)
  | some r => rfl

/-! ## The swarm -/

namespace ParticleSwarm

/-- The particles with all that they remember. -/
structure Swarm where
  population : Matrix
  memory : Memory
  location : List Float
  best : Float

/-- The local state, read as the swarm reads it when it learns. -/
structure Holds (l : LocalState) (w : Swarm) : Prop where
  population : l.tensor "population" >>= (·.asMatrix "population") = .ok w.population
  locations : l.tensor "local_best_location" >>= (·.asMatrix "local_best_location") =
    .ok w.memory.locations
  fitness : l.tensor "local_best_fitness" >>= (·.asVector "local_best_fitness") =
    .ok w.memory.fitness
  location : l.tensor "global_best_location" >>= (·.asVector "global_best_location") =
    .ok w.location
  best : l.number "global_best_fitness" = .ok w.best

/-- What the particles remember of their fitness before they move. -/
structure Learns (fitness : List Float) (w w' : Swarm) : Prop where
  memory : remember w.population 0 fitness w.memory = .ok w'.memory
  best : swarmBest w.population fitness w.location w.best = .ok (w'.location, w'.best)

/-- The local state with a swarm and its speeds. -/
def put (l : LocalState) (velocity : Matrix) (w : Swarm) : LocalState :=
  (((((l.setTensor "population" w.population.toTensor).setTensor "velocity"
    velocity.toTensor).setTensor "local_best_location" w.memory.locations.toTensor).setTensor
    "local_best_fitness" (.vector w.memory.fitness)).setTensor
    "global_best_location" (.vector w.location)).setNumber "global_best_fitness" w.best

/-- What is written of a swarm can be read. -/
theorem holds_put (l : LocalState) (velocity : Matrix) (w : Swarm) :
    Holds (put l velocity w) w where
  population := by
    simp only [put, LocalState.setNumber]
    iterate 5 rw [LocalState.tensor_setTensor_of_ne _ _ (by decide)]
    rw [LocalState.tensor_setTensor, Outcome.ok_bind]
    exact w.population.asMatrix_toTensor _
  locations := by
    simp only [put, LocalState.setNumber]
    iterate 3 rw [LocalState.tensor_setTensor_of_ne _ _ (by decide)]
    rw [LocalState.tensor_setTensor, Outcome.ok_bind]
    exact w.memory.locations.asMatrix_toTensor _
  fitness := by
    simp only [put, LocalState.setNumber]
    iterate 2 rw [LocalState.tensor_setTensor_of_ne _ _ (by decide)]
    rw [LocalState.tensor_setTensor]
    rfl
  location := by
    simp only [put, LocalState.setNumber]
    rw [LocalState.tensor_setTensor_of_ne _ _ (by decide), LocalState.tensor_setTensor]
    rfl
  best := LocalState.number_setNumber _ _ _

/-- The best place of the swarm changes with the first of the smallest numbers, if this is lower. -/
theorem swarmBest_eq_ok {population : Matrix} {fitness location location' : List Float}
    {best best' : Float}
    (h : swarmBest population fitness location best = .ok (location', best')) :
    (∃ index, Tensor.argmin fitness = some (index, best') ∧ best' < best ∧
      population.rows[index]? = some location') ∨
      ((∀ r, Tensor.argmin fitness = some r → ¬ r.2 < best) ∧ location' = location ∧
        best' = best) := by
  rw [swarmBest] at h
  cases hmin : Tensor.argmin fitness with
  | none =>
    rw [hmin] at h
    obtain ⟨rfl, rfl⟩ := Prod.mk.inj (Except.ok.inj h)
    exact Or.inr ⟨by rintro _ ⟨⟩, rfl, rfl⟩
  | some r =>
    rw [hmin] at h
    by_cases hlt : r.2 < best
    · simp only [if_pos hlt] at h
      -- a new best: its particle must have a row
      obtain ⟨place, hplace, h⟩ := Outcome.bind_eq_ok_iff.1 h
      obtain ⟨rfl, rfl⟩ := Prod.mk.inj (Except.ok.inj h)
      refine Or.inl ⟨r.1, rfl, hlt, ?_⟩
      cases hrow : population.rows[r.1]? with
      | none =>
        rw [hrow] at hplace
        cases hplace
      | some row =>
        rw [hrow] at hplace
        rw [← Except.ok.inj hplace]
    · simp only [if_neg hlt] at h
      obtain ⟨rfl, rfl⟩ := Prod.mk.inj (Except.ok.inj h)
      refine Or.inr ⟨?_, rfl, rfl⟩
      rintro _ ⟨⟩
      exact hlt

/-- What the swarm puts into its local state when it learns. -/
def learnt : List String :=
  ["population", "velocity", "local_best_location", "local_best_fitness", "global_best_location",
    "global_best_fitness"]

/-- The swarm learns from one number for each particle only. -/
theorem learn_eq_ok {s : ParticleSwarm} {g : Random.Generator} {l l' : LocalState}
    {fitness : Tensor} (h : s.learn g l fitness = .ok l') :
    fitness.rank = 1 ∧ Written learnt l l' ∧
      ∃ w w', Holds l w ∧ Learns fitness.data w w' ∧ Holds l' w' := by
  obtain ⟨xs, hxs, h⟩ := Outcome.bind_eq_ok_iff.1 h
  rw [Tensor.asVector] at hxs
  split at hxs
  · next hrank =>
    obtain rfl := Except.ok.inj hxs
    split at h
    · cases h
    · -- the reads and writes of learning, in order; weights and velocities have no part in the
      -- bests
      obtain ⟨w, -, h⟩ := Outcome.bind_eq_ok_iff.1 h
      obtain ⟨phiP, -, h⟩ := Outcome.bind_eq_ok_iff.1 h
      obtain ⟨phiG, -, h⟩ := Outcome.bind_eq_ok_iff.1 h
      obtain ⟨t₁, ht₁, h⟩ := Outcome.bind_eq_ok_iff.1 h
      obtain ⟨population, hpopulation, h⟩ := Outcome.bind_eq_ok_iff.1 h
      obtain ⟨t₂, -, h⟩ := Outcome.bind_eq_ok_iff.1 h
      obtain ⟨velocity, -, h⟩ := Outcome.bind_eq_ok_iff.1 h
      obtain ⟨t₃, ht₃, h⟩ := Outcome.bind_eq_ok_iff.1 h
      obtain ⟨locations, hlocations, h⟩ := Outcome.bind_eq_ok_iff.1 h
      obtain ⟨t₄, ht₄, h⟩ := Outcome.bind_eq_ok_iff.1 h
      obtain ⟨bests, hbests, h⟩ := Outcome.bind_eq_ok_iff.1 h
      obtain ⟨t₅, ht₅, h⟩ := Outcome.bind_eq_ok_iff.1 h
      obtain ⟨swarm, hswarm, h⟩ := Outcome.bind_eq_ok_iff.1 h
      obtain ⟨best, hbest, h⟩ := Outcome.bind_eq_ok_iff.1 h
      obtain ⟨memory, hmemory, h⟩ := Outcome.bind_eq_ok_iff.1 h
      obtain ⟨⟨swarm', best'⟩, hnext, h⟩ := Outcome.bind_eq_ok_iff.1 h
      obtain ⟨⟨population', velocity'⟩, -, h⟩ := Outcome.bind_eq_ok_iff.1 h
      obtain rfl := Except.ok.inj h
      refine ⟨hrank, ?_, ⟨population, ⟨locations, bests⟩, swarm, best⟩,
        ⟨population', memory, swarm', best'⟩, ?_, ⟨hmemory, hnext⟩, ?_⟩
      · repeat refine .set ?_ (by simp [learnt]) _
        exact .refl
      · exact ⟨by rw [ht₁]; exact hpopulation, by rw [ht₃]; exact hlocations,
          by rw [ht₄]; exact hbests, by rw [ht₅]; exact hswarm, hbest⟩
      · exact holds_put _ velocity' ⟨population', memory, swarm', best'⟩
  · cases hxs

/-- The best fitness goes down to the lowest number. -/
theorem best_learn {s : ParticleSwarm} {g : Random.Generator} {l l' : LocalState}
    {fitness : Tensor} (h : s.learn g l fitness = .ok l') :
    ∃ best, l.number "global_best_fitness" = .ok best ∧
      l'.number "global_best_fitness" = .ok (smaller best (lowest fitness.data)) := by
  obtain ⟨-, -, w, w', hl, hlearns, hl'⟩ := learn_eq_ok h
  refine ⟨w.best, hl.best, ?_⟩
  rw [hl'.best, smaller_lowest]
  rcases swarmBest_eq_ok hlearns.best with ⟨index, hmin, hlt, -⟩ | ⟨hnot, -, hsame⟩
  · rw [hmin]
    exact congrArg Except.ok (if_pos hlt).symm
  · rw [hsame]
    cases hmin : Tensor.argmin fitness.data with
    | none => rfl
    | some r => exact congrArg Except.ok (if_neg (hnot r hmin)).symm

/-- A swarm starts in order, with infinity as its best number. -/
theorem best_firstState (s : ParticleSwarm) (g : Random.Generator) :
    (s.firstState g).Ordered ∧
      (s.firstState g).number "global_best_fitness" = .ok infinity := by
  refine ⟨LocalState.ordered_ofList ?_, LocalState.number_of_get? (Table.get?_ofList_of_mem ?_ ?_)⟩
  · simp [firstValues, Value.Everywhere]
  · change ["local_best_location", "population", "velocity", "local_best_fitness",
      "global_best_location", "global_best_fitness"].Nodup
    decide
  · simp [firstValues, infinity]

end ParticleSwarm

/-! ## The evaluation monitor -/

namespace EvaluationMonitor

variable {c : EvaluationConfig} {l l' : LocalState} {candidates : Candidates}

/-- What the monitor puts into its local state. -/
def recorded : List String :=
  ["best_fitness", "evaluations", "stagnation", "best_solution", "history", "latest_candidates"]

/-- What the monitor puts into its local state for one number for each candidate. -/
def rankedNames : List String := ["best_fitness", "stagnation", "best_solution", "history"]

theorem map_fst_firstValues (c : EvaluationConfig) :
    (firstValues c).map Prod.fst = (entries c).map Prod.fst := by
  simp [firstValues, entries]

/-- The monitor starts with the tensors that its configuration asks for. -/
theorem tensor_firstState {name : String} {t : Tensor}
    (h : (name, .tensor t) ∈ firstValues c) : (firstState c).tensor name = .ok t := by
  have hnames : ((firstValues c).map Prod.fst).Nodup := by
    rw [map_fst_firstValues]
    exact (namesFit c).2
  exact LocalState.tensor_of_get? (Table.get?_ofList_of_mem hnames h)

theorem number_firstState {name : String} {x : Float}
    (h : (name, .tensor (.scalar x)) ∈ firstValues c) : (firstState c).number name = .ok x := by
  rw [LocalState.number, tensor_firstState h]
  rfl

/-- At the start nothing was seen. -/
theorem best_firstState (c : EvaluationConfig) :
    (firstState c).Ordered ∧ bestFitness (firstState c) = .ok infinity := by
  refine ⟨LocalState.ordered_ofList fun e he => ?_, number_firstState (by simp [firstValues])⟩
  obtain ⟨q, -, t, ht, -⟩ := (matching_firstValues c).of_mem he
  rw [ht]
  trivial

/-- Recording the history either has nothing to do, or shifts in the best number. -/
theorem recordHistory_eq_ok (h : recordHistory c l = .ok l') :
    (c.historyLength = 0 ∧ l' = l) ∨ (c.historyLength ≠ 0 ∧ ∃ best history shifted,
      bestFitness l = .ok best ∧ l.tensor "history" = .ok history ∧
        shiftIn history best = .ok shifted ∧ l' = l.setTensor "history" shifted) := by
  rw [recordHistory] at h
  split at h
  · next hnone => exact Or.inl ⟨hnone, (Except.ok.inj h).symm⟩
  · next hsome =>
    obtain ⟨best, hbest, h⟩ := Outcome.bind_eq_ok_iff.1 h
    obtain ⟨history, hhistory, h⟩ := Outcome.bind_eq_ok_iff.1 h
    obtain ⟨shifted, hshifted, h⟩ := Outcome.bind_eq_ok_iff.1 h
    exact Or.inr ⟨hsome, best, history, shifted, hbest, hhistory, hshifted,
      (Except.ok.inj h).symm⟩

/-- Nothing but the history is written. -/
theorem written_recordHistory (h : recordHistory c l = .ok l') : Written ["history"] l l' := by
  rcases recordHistory_eq_ok h with ⟨-, rfl⟩ | ⟨-, best, history, shifted, -, -, -, rfl⟩
  · exact .refl
  · exact .setTensor _ _ _

/-- An improvement writes the best number, and its solution where solutions are kept. -/
theorem improve_eq_ok {index : Nat} {fitness : Float}
    (h : improve c l candidates index fitness = .ok l') :
    (c.solutionDim = none ∧ l' = l.setNumber "best_fitness" fitness) ∨
      ∃ dim solution, c.solutionDim = some dim ∧ solutionAt dim index candidates = .ok solution ∧
        l' = (l.setNumber "best_fitness" fitness).setTensor "best_solution" solution := by
  rw [improve] at h
  split at h
  · next hnone => exact Or.inl ⟨hnone, (Except.ok.inj h).symm⟩
  · next dim hdim =>
    obtain ⟨solution, hsolution, h⟩ := Outcome.bind_eq_ok_iff.1 h
    exact Or.inr ⟨dim, solution, hdim, hsolution, (Except.ok.inj h).symm⟩

/-- Apart from the best number, nothing but the solution is written. -/
theorem written_improve {index : Nat} {fitness : Float}
    (h : improve c l candidates index fitness = .ok l') :
    Written ["best_solution"] (l.setNumber "best_fitness" fitness) l' := by
  rcases improve_eq_ok h with ⟨-, rfl⟩ | ⟨dim, solution, -, -, rfl⟩
  · exact .refl
  · exact .setTensor _ _ _

/-- The best number is the smaller one of what was known and the lowest one shown. -/
theorem smaller_of_improvement (fitness : List Float) (previous : Float) :
    smaller previous (lowest fitness) =
      ((improvement fitness previous).map Prod.snd).getD previous := by
  rw [smaller_lowest, improvement]
  cases Tensor.argmin fitness with
  | none => rfl
  | some r =>
    obtain ⟨index, f⟩ := r
    rw [Option.filter_some]
    by_cases hlt : f < previous
    · simp [hlt]
    · simp [hlt]

/-- A fitness either improves the best one, or is counted as one more without improvement. -/
theorem recordBest_eq_ok {listens : Bool} {ctx : HookContext} {fitness : List Float}
    (h : (recordBest c listens ctx l candidates fitness).outcome = .ok l') :
    ∃ previous, bestFitness l = .ok previous ∧
      ((∃ index f improved, improvement fitness previous = some (index, f) ∧
        improve c l candidates index f = .ok improved ∧
        recordHistory c (improved.setNumber "stagnation" 0) = .ok l') ∨
      (improvement fitness previous = none ∧ ∃ stagnation, l.number "stagnation" = .ok stagnation ∧
        recordHistory c (l.setNumber "stagnation" (stagnation + 1)) = .ok l')) := by
  simp only [recordBest, Traced.outcome_bind, Traced.outcome_liftM] at h
  obtain ⟨previous, hprevious, h⟩ := Outcome.bind_eq_ok_iff.1 h
  refine ⟨previous, hprevious, ?_⟩
  cases himprovement : improvement fitness previous with
  | some r =>
    obtain ⟨index, f⟩ := r
    rw [himprovement] at h
    simp only [Traced.outcome_bind, Traced.outcome_liftM, outcome_report, Outcome.ok_bind] at h
    obtain ⟨improved, himproved, h⟩ := Outcome.bind_eq_ok_iff.1 h
    exact Or.inl ⟨index, f, improved, rfl, himproved, h⟩
  | none =>
    rw [himprovement] at h
    simp only [Traced.outcome_bind, Traced.outcome_liftM] at h
    obtain ⟨stagnation, hstagnation, h⟩ := Outcome.bind_eq_ok_iff.1 h
    refine Or.inr ⟨rfl, stagnation, hstagnation, ?_⟩
    split at h
    · rwa [Traced.outcome_bind, outcome_report, Outcome.ok_bind] at h
    · exact h

/-- One number for each candidate is ranked. -/
theorem best_recordBest {listens : Bool} {ctx : HookContext} {fitness : List Float}
    (h : (recordBest c listens ctx l candidates fitness).outcome = .ok l') :
    Written rankedNames l l' ∧ ∃ best, bestFitness l = .ok best ∧
      bestFitness l' = .ok (smaller best (lowest fitness)) := by
  obtain ⟨previous, hprevious, h⟩ := recordBest_eq_ok h
  suffices hsuffices : Written rankedNames l l' ∧ bestFitness l' = .ok (smaller previous
      (lowest fitness)) from ⟨hsuffices.1, previous, hprevious, hsuffices.2⟩
  rw [smaller_of_improvement]
  rcases h with ⟨index, f, improved, himprovement, himproved, h⟩ | ⟨himprovement, stagnation, -, h⟩
  · rw [himprovement]
    have hsolution := written_improve himproved
    have hhistory := written_recordHistory h
    refine ⟨?_, ?_⟩
    · have hfirst : Written rankedNames l (l.setNumber "best_fitness" f) :=
        .set .refl (by decide) _
      exact ((hfirst.trans (hsolution.mono (by decide))).set (by decide) _).trans
        (hhistory.mono (by decide))
    · rw [bestFitness, hhistory.number (by decide), LocalState.setNumber,
        LocalState.number_setTensor_of_ne _ _ (by decide), hsolution.number (by decide)]
      exact LocalState.number_setNumber l _ f
  · rw [himprovement]
    have hhistory := written_recordHistory h
    refine ⟨(Written.set .refl (by decide) _).trans (hhistory.mono (by decide)), ?_⟩
    rw [bestFitness, hhistory.number (by decide), LocalState.setNumber,
      LocalState.number_setTensor_of_ne _ _ (by decide)]
    exact hprevious

/-- What is recorded of a fitness: the count of evaluations, and more if it can be ranked. -/
theorem record_eq_ok {listens : Bool} {ctx : HookContext} {fitness : Tensor}
    (h : (record c listens ctx l candidates fitness).outcome = .ok l') :
    ∃ count total : UInt64, evaluations l = .ok count ∧
      total.toNat = count.toNat + fitness.shape.headD 0 ∧
      if fitness.rank = 1 then
        (recordBest c listens ctx (l.setNumber "evaluations" total.toFloat) candidates
          fitness.data).outcome = .ok l'
      else l' = l.setNumber "evaluations" total.toFloat := by
  simp only [record, Traced.outcome_bind, Traced.outcome_liftM] at h
  obtain ⟨count, hcount, h⟩ := Outcome.bind_eq_ok_iff.1 h
  obtain ⟨total, htotal, h⟩ := Outcome.bind_eq_ok_iff.1 h
  refine ⟨count, total, hcount, wordOf_eq_ok_iff.1 htotal, ?_⟩
  split at h
  · cases h
  · -- a report of what is not finite changes nothing
    have hlast : (if fitness.rank = 1 then
        recordBest c listens ctx (l.setNumber "evaluations" total.toFloat) candidates fitness.data
        else pure (l.setNumber "evaluations" total.toFloat) : Traced LocalState).outcome =
          .ok l' := by
      split at h
      · rwa [Traced.outcome_bind, outcome_report, Outcome.ok_bind] at h
      · exact h
    split at hlast
    · next hrank =>
      rw [if_pos hrank]
      exact hlast
    · next hrank =>
      rw [if_neg hrank]
      exact (Except.ok.inj hlast).symm

/-- All that the monitor does is to put tensors into its local state. -/
theorem written_record {listens : Bool} {ctx : HookContext} {fitness : Tensor}
    (h : (record c listens ctx l candidates fitness).outcome = .ok l') : Written recorded l l' := by
  obtain ⟨count, total, -, -, h⟩ := record_eq_ok h
  have hcount : ∀ x, Written recorded l (l.setNumber "evaluations" x) :=
    fun x => .set .refl (by decide) _
  split at h
  · exact (hcount _).trans ((best_recordBest h).1.mono (by decide))
  · exact h ▸ hcount _

/-- The best fitness goes down to the lowest number. -/
theorem best_record {listens : Bool} {ctx : HookContext} {fitness : Tensor}
    (hrank : fitness.rank = 1)
    (h : (record c listens ctx l candidates fitness).outcome = .ok l') :
    ∃ best, bestFitness l = .ok best ∧
      bestFitness l' = .ok (smaller best (lowest fitness.data)) := by
  obtain ⟨count, total, -, -, h⟩ := record_eq_ok h
  rw [if_pos hrank] at h
  obtain ⟨-, best, hbest, hnext⟩ := best_recordBest h
  rw [bestFitness, LocalState.setNumber, LocalState.number_setTensor_of_ne _ _ (by decide)] at hbest
  exact ⟨best, hbest, hnext⟩

theorem written_recordCandidates {seen : Option LocalState}
    (h : recordCandidates c l candidates = .ok seen) :
    Written ["latest_candidates"] l (seen.getD l) := by
  rw [recordCandidates] at h
  split at h
  · rw [← Except.ok.inj h]
    exact .refl
  · obtain ⟨batch, -, h⟩ := Outcome.bind_eq_ok_iff.1 h
    split at h
    · rw [← Except.ok.inj h]
      exact .setTensor _ _ _
    · cases h

end EvaluationMonitor

/-! ## The fitness monitor -/

namespace FitnessMonitor

/-- The best number goes down to the smallest number that is shown, and never up. -/
theorem best_record {front : Option Front} {node : NodeContext} {l : LocalState} {fitness : Tensor}
    {seen : Option LocalState} (hrank : fitness.rank = 1)
    (h : record front node l fitness = .ok seen) :
    ∃ x, best l = .ok x ∧ best (seen.getD l) =
      .ok (smaller x (smallest (fitness.data.filter fun y => !y.isNaN))) := by
  have hreduce : reduce front node fitness =
      .ok (smallest (fitness.data.filter fun y => !y.isNaN)) := if_pos hrank
  rw [record, hreduce, Outcome.ok_bind] at h
  obtain ⟨x, hx, h⟩ := Outcome.bind_eq_ok_iff.1 h
  refine ⟨x, hx, ?_⟩
  rw [smaller]
  split at h
  · next hlt =>
    rw [← Except.ok.inj h, if_pos hlt]
    exact LocalState.number_setNumber l _ _
  · next hnot =>
    rw [← Except.ok.inj h, if_neg hnot]
    exact hx

/-- At the start nothing was seen. -/
theorem best_initialState : LocalState.Ordered (LocalState.setNumber [] "best" infinity) ∧
    best (LocalState.setNumber [] "best" infinity) = .ok infinity :=
  have hbest : ∀ e ∈ [("best", Value.tensor (.scalar infinity))],
    e.2.Everywhere State.tablesAscend :=
    List.forall_mem_singleton.2 trivial
  ⟨LocalState.ordered_ofList hbest, LocalState.number_setNumber _ _ _⟩

/-- Nothing but the best number is written. -/
theorem written_record {front : Option Front} {node : NodeContext} {l : LocalState}
    {fitness : Tensor} {seen : Option LocalState} (h : record front node l fitness = .ok seen) :
    Written ["best"] l (seen.getD l) := by
  obtain ⟨value, -, h⟩ := Outcome.bind_eq_ok_iff.1 h
  obtain ⟨x, -, h⟩ := Outcome.bind_eq_ok_iff.1 h
  split at h
  · rw [← Except.ok.inj h]
    exact .setTensor _ _ _
  · rw [← Except.ok.inj h]
    exact .refl

end FitnessMonitor

/-! ## Monitors that keep the best fitness -/

/-- The fitness that is shown at a call. -/
def HookCall.fitness : HookCall → Option Tensor
  | .postEval _ fitness => some fitness
  | .preTell fitness => some fitness
  | _ => none

/-- The monitor keeps the best fitness of what it is shown at one hook in an attribute: it starts
from infinity, goes down to the lowest number of a fitness with one number for each candidate, and
does not change it at other hooks. -/
structure Monitor.Tracks (m : Monitor) (hook : Hook) (name : String) (low : List Float → Float) :
    Prop where
  isLowest : ∀ xs, IsLowest (low xs) (infinity :: xs)
  subscribes : m.hooks.contains hook = true
  setup : m.hooks.contains .setup = false
  children : m.component.children = []
  starts : ∀ {node g l}, m.component.init node g = .ok l →
    LocalState.Ordered l ∧ l.number name = .ok infinity
  shown : ∀ {ctx l call seen fitness}, call.hook = hook → call.fitness = some fitness →
    fitness.rank = 1 → (m.observe ctx l call).outcome = .ok seen →
    ∃ x, l.number name = .ok x ∧ (seen.getD l).number name = .ok (smaller x (low fitness.data))
  others : ∀ {ctx l call seen}, call.hook ≠ hook → (m.observe ctx l call).outcome = .ok seen →
    (seen.getD l).number name = l.number name
  ordered : ∀ {ctx l call seen}, LocalState.Ordered l → (m.observe ctx l call).outcome = .ok seen →
    LocalState.Ordered (seen.getD l)

/-- The evaluation monitor tracks the lowest number that it is shown. -/
theorem EvaluationMonitor.tracks (c : EvaluationConfig) (listens : Bool) :
    (Monitor.evaluation c listens).Tracks .postEval "best_fitness" lowest where
  isLowest := isLowest_argmin
  subscribes := by
    cases h : c.candidateShape.isSome <;> simp only [Monitor.evaluation, h] <;> decide
  setup := by
    cases h : c.candidateShape.isSome <;> simp only [Monitor.evaluation, h] <;> decide
  children := rfl
  starts h := by
    obtain ⟨-, rfl⟩ := initialState_eq_ok_iff.1 h
    exact best_firstState c
  shown := by
    intro ctx l call seen fitness hhook hfitness hrank h
    cases call with
    | postEval candidates shown =>
      obtain rfl := Option.some.inj hfitness
      simp only [Monitor.evaluation, Traced.outcome_bind] at h
      obtain ⟨l', hl', h⟩ := Outcome.bind_eq_ok_iff.1 h
      rw [← Except.ok.inj h, Option.getD_some]
      exact best_record hrank hl'
    | _ => cases hhook
  others := by
    intro ctx l call seen hhook h
    cases call with
    | postEval candidates shown => exact absurd rfl hhook
    | postAsk candidates =>
      exact (written_recordCandidates h).number (by decide)
    | _ => rw [← Except.ok.inj h, Option.getD_none]
  ordered := by
    intro ctx l call seen hl h
    cases call with
    | postEval candidates shown =>
      simp only [Monitor.evaluation, Traced.outcome_bind] at h
      obtain ⟨l', hl', h⟩ := Outcome.bind_eq_ok_iff.1 h
      rw [← Except.ok.inj h, Option.getD_some]
      exact (written_record hl').ordered hl
    | postAsk candidates => exact (written_recordCandidates h).ordered hl
    | _ =>
      rw [← Except.ok.inj h]
      exact hl

/-- The fitness monitor tracks the smallest number that it is shown. -/
theorem FitnessMonitor.tracks (front : Option Front) :
    (Monitor.fitness front).Tracks .preTell "best" fun xs =>
      smallest (xs.filter fun x => !x.isNaN) where
  isLowest := isLowest_smallest_filter
  subscribes := show (HookSet.ofList [.preTell]).contains .preTell = true by decide
  setup := show (HookSet.ofList [.preTell]).contains .setup = false by decide
  children := rfl
  starts h := Except.ok.inj h ▸ best_initialState
  shown := by
    intro ctx l call seen fitness hhook hfitness hrank h
    cases call with
    | preTell shown =>
      obtain rfl := Option.some.inj hfitness
      exact best_record hrank h
    | _ => cases hhook
  others := by
    intro ctx l call seen hhook h
    cases call with
    | preTell shown => exact absurd rfl hhook
    | _ => rw [← Except.ok.inj h, Option.getD_none]
  ordered := by
    intro ctx l call seen hl h
    cases call with
    | preTell shown => exact (written_record h).ordered hl
    | _ =>
      rw [← Except.ok.inj h]
      exact hl

end Lockstep
