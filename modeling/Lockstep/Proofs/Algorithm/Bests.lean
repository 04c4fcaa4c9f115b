import Lockstep.Proofs.Monitor.Best

/-!
# The best places of a swarm

What the particles remember is a function of all that they were told (`Remembers`): each keeps the
first of the lowest numbers it was told with the place where it was then, and the swarm keeps the
first of all of them. The two are updated by different rules, each particle by a comparison of its
own (`remember_eq_ok`) and the swarm by the index of the smallest number (`swarmBest_eq_ok`), but
they never drift apart (`Remembers.isLowest`, `Remembers.exists_holder`): the first lowest entry of
all is also the first lowest one of the particle where it stands, and no particle has two.
-/

namespace Lockstep.ParticleSwarm

open Outcome (Gives)
open Lockstep.Random

/-! ## Rounds -/

/-- A round of a swarm: it is asked for its places, and told their fitness. -/
structure Round where
  asking : StepContext
  telling : StepContext
  fitness : List Float

/-- The places that the swarm gave in a round, with their fitness. -/
structure Told where
  places : Matrix
  fitness : List Float

/-- The numbers of a round, each with its place. -/
def Told.scored (t : Told) : List (Float × Option (List Float)) :=
  entriesOf (t.places.rows[·]?) t.fitness

/-- One round. -/
def round (s : ParticleSwarm) (l : LocalState) (r : Round) : Outcome (Told × LocalState) := do
  let (candidates, l) ← s.algorithm.ask r.asking l
  let places ← (← candidates.asDense).asMatrix "population"
  let l ← s.algorithm.tell r.telling l (.vector r.fitness)
  return (⟨places, r.fitness⟩, l)

/-- One round after another. -/
def rounds (s : ParticleSwarm) : LocalState → List Round → Outcome (List Told × LocalState)
  | l, [] => return ([], l)
  | l, r :: rest => do
    let (t, l) ← s.round l r
    let (told, l) ← s.rounds l rest
    return (t :: told, l)

/-! ## What there is to remember -/

/-- All numbers that a particle was told, with its places, after infinity at its first place. -/
def ownScored (first : Matrix) (told : List Told) (i : Nat) : List (Float × Option (List Float)) :=
  (infinity, first.rows[i]?) :: told.filterMap (·.scored[i]?)

/-- All numbers that the swarm was told, with their places, after infinity at the first place of the
first particle. -/
def allScored (first : Matrix) (told : List Told) : List (Float × Option (List Float)) :=
  (infinity, first.rows.head?) :: told.flatMap Told.scored

/-- Each particle remembers the first of its lowest numbers, and the swarm the first of all of them,
with the places that got them. If no number is below infinity, this is infinity at a first place
(`isFirstLowest_cons_infinity_iff`). -/
structure Remembers (first : Matrix) (told : List Told) (w : Swarm) : Prop where
  own : ∀ i < first.rows.length, ∃ x place, w.memory.fitness[i]? = some x ∧
    w.memory.locations.rows[i]? = some place ∧
      IsFirstLowest x (some place) (ownScored first told i)
  swarm : IsFirstLowest w.best (some w.location) (allScored first told)

/-! ## One round more -/

variable {n d : Nat} {population first : Matrix} {told : List Told} {w w' : Swarm}

theorem setRow_eq_ok {m m' : Matrix} {index : Nat} {row : List Float} (hrow : row.length = m.cols)
    (h : setRow m index row = .ok m') : m'.cols = m.cols ∧ m'.rows = m.rows.set index row := by
  simp only [setRow, if_pos hrow] at h
  split at h
  · split at h
    · rw [← Except.ok.inj h]
      exact ⟨rfl, rfl⟩
    · cases h
  · cases h

theorem present_eq_ok_iff {α : Type} {o : Option α} {x : α} : present o = .ok x ↔ o = some x := by
  cases o with
  | none => simp [present]
  | some y => simp [present]

/-- What a particle remembers. -/
def Memory.at (memory : Memory) (i : Nat) : Option Float × Option (List Float) :=
  (memory.fitness[i]?, memory.locations.rows[i]?)

/-- Particles before the first one keep what they remember, and each of the others remembers a
number that is below the one it had, with its place. -/
theorem remember_eq_ok (hpopulation : population.cols = d) {fitness : List Float} :
    ∀ {index : Nat} {memory memory' : Memory}, memory.locations.cols = d →
      memory.locations.rows.length = memory.fitness.length →
      remember population index fitness memory = .ok memory' →
        (∀ i < index, memory'.at i = memory.at i) ∧
          ∀ k f, fitness[k]? = some f → ∃ best, memory.fitness[index + k]? = some best ∧
            memory'.at (index + k) = if f < best then (some f, population.rows[index + k]?)
              else memory.at (index + k) := by
  induction fitness with
  | nil =>
    intro index memory memory' _ _ h
    obtain rfl := Except.ok.inj h
    exact ⟨fun i _ => rfl, nofun⟩
  | cons f rest ih =>
    intro index memory memory' hcols hlength h
    rw [remember] at h
    obtain ⟨best, hbest, h⟩ := Outcome.bind_eq_ok_iff.1 h
    rw [present_eq_ok_iff] at hbest
    -- the first particle, after which the others start from what is remembered then
    suffices hfirst : ∃ middle : Memory, middle.locations.cols = d ∧
        middle.locations.rows.length = middle.fitness.length ∧
        (∀ i, i ≠ index → middle.at i = memory.at i) ∧
        (middle.at index = if f < best then (some f, population.rows[index]?)
          else memory.at index) ∧ remember population (index + 1) rest middle = .ok memory' by
      obtain ⟨middle, hcols, hlength, hothers, hown, hrest⟩ := hfirst
      obtain ⟨hbefore, hafter⟩ := ih hcols hlength hrest
      refine ⟨fun i hi => ?_, fun k g hg => ?_⟩
      · rw [hbefore i (Nat.lt_succ_of_lt hi), hothers i (Nat.ne_of_lt hi)]
      · cases k with
        | zero =>
          obtain rfl : f = g := Option.some.inj hg
          exact ⟨best, hbest, (hbefore index (Nat.lt_succ_self index)).trans hown⟩
        | succ k =>
          have hsum : index + 1 + k = index + (k + 1) := by omega
          have hother := hothers (index + (k + 1)) (by omega)
          obtain ⟨b, hb, hnext⟩ := hafter k g hg
          rw [hsum, hother] at hnext
          rw [hsum] at hb
          exact ⟨b, (Prod.mk.inj hother).1.symm.trans hb, hnext⟩
    split at h
    · next hlt =>
      obtain ⟨place, hplace, h⟩ := Outcome.bind_eq_ok_iff.1 h
      rw [present_eq_ok_iff] at hplace
      obtain ⟨locations, hlocations, h⟩ := Outcome.bind_eq_ok_iff.1 h
      have hrow : place.length = memory.locations.cols := by
        rw [population.full place (List.mem_of_getElem? hplace), hpopulation, hcols]
      obtain ⟨hcols', hrows⟩ := setRow_eq_ok hrow hlocations
      have hindex : index < memory.fitness.length := (List.getElem?_eq_some_iff.1 hbest).1
      refine ⟨⟨locations, memory.fitness.set index f⟩, hcols'.trans hcols, ?_,
        fun i hi => ?_, ?_, h⟩
      · rw [hrows, List.length_set, List.length_set, hlength]
      · rw [Memory.at, hrows, List.getElem?_set_ne hi.symm, List.getElem?_set_ne hi.symm, Memory.at]
      · rw [if_pos hlt, Memory.at, hrows, List.getElem?_set_self hindex,
          List.getElem?_set_self (hlength ▸ hindex), hplace]
    · next hnot =>
      exact ⟨memory, hcols, hlength, fun i _ => rfl, (if_neg hnot).symm, h⟩

theorem ownScored_snoc {t : Told} {i : Nat} {f : Float} (hf : t.fitness[i]? = some f) :
    ownScored first (told ++ [t]) i = ownScored first told i ++ [(f, t.places.rows[i]?)] := by
  have hscored : t.scored[i]? = some (f, t.places.rows[i]?) := by
    rw [Told.scored, entriesOf, List.getElem?_mapIdx, hf, Option.map_some]
  rw [ownScored, List.filterMap_append, ownScored, List.cons_append, List.filterMap_cons, hscored,
    List.filterMap_nil]

theorem allScored_snoc (first : Matrix) (told : List Told) (t : Told) :
    allScored first (told ++ [t]) = allScored first told ++ t.scored := by
  rw [allScored, List.flatMap_append, List.flatMap_singleton, allScored, List.cons_append]

namespace Remembers

/-- Nothing was told yet. -/
theorem start (hfirst : first.HasSize n d) (hn : 0 < n) (population : Matrix) :
    Remembers first [] ⟨population, ⟨first, List.replicate n infinity⟩, first.rows.headD [],
      infinity⟩ where
  own i hi := by
    rw [hfirst.1] at hi
    obtain ⟨place, hplace, -⟩ := hfirst.getElem? hi
    refine ⟨infinity, place, List.getElem?_replicate_of_lt hi, hplace, ?_⟩
    rw [ownScored, hplace]
    exact .singleton isNaN_infinity _
  swarm := by
    obtain ⟨place, hplace, -⟩ := hfirst.getElem? hn
    rw [← List.head?_eq_getElem?] at hplace
    simp only [allScored, List.headD_eq_head?_getD, hplace, Option.getD_some]
    exact .singleton isNaN_infinity _

/-- One more round was told. -/
theorem learns (h : Remembers first told w) (hfirst : first.rows.length = n)
    (hpopulation : w.population.HasSize n d) (hmemory : w.memory.HasSize n d)
    {fitness : List Float} (hfitness : fitness.length = n) (hlearns : Learns fitness w w') :
    Remembers first (told ++ [⟨w.population, fitness⟩]) w' where
  own i hi := by
    obtain ⟨x, place, hx, hplace, hlowest⟩ := h.own i hi
    rw [hfirst] at hi
    obtain ⟨row, hrow, -⟩ := hpopulation.getElem? hi
    have hf := List.getElem?_eq_getElem (l := fitness) (hfitness.symm ▸ hi)
    obtain ⟨-, hafter⟩ := remember_eq_ok hpopulation.2 hmemory.1.2
      (hmemory.1.1.trans hmemory.2.symm) hlearns.memory
    obtain ⟨best, hbest, hat⟩ := hafter i _ hf
    rw [Nat.zero_add] at hbest hat
    obtain rfl : x = best := Option.some.inj (hx.symm.trans hbest)
    have hnext := hlowest.snoc fitness[i] (w.population.rows[i]?)
    rw [ownScored_snoc hf]
    -- the particle remembers the new place exactly when the model does
    by_cases hlt : fitness[i] < x
    · simp only [if_pos hlt, hrow] at hnext hat ⊢
      exact ⟨_, row, (Prod.mk.inj hat).1, (Prod.mk.inj hat).2, hnext⟩
    · simp only [if_neg hlt] at hnext hat
      exact ⟨x, place, (Prod.mk.inj hat).1.trans hx, (Prod.mk.inj hat).2.trans hplace, hnext⟩
  swarm := by
    rw [allScored_snoc]
    rcases swarmBest_eq_ok hlearns.best with ⟨index, hmin, hlt, hplace⟩ | ⟨hnot, hlocation, hbest⟩
    · rw [← hplace]
      exact h.swarm.append_argmin_of_lt (f := fun i => w.population.rows[i]?) hmin hlt
    · rw [hlocation, hbest]
      exact h.swarm.append_argmin_of_not_lt hnot

/-! ## The particles and the swarm agree -/

/-- Whatever a particle was told, the swarm was told. -/
theorem mem_allScored {e : Float × Option (List Float)} {i : Nat}
    (he : e ∈ told.filterMap (·.scored[i]?)) : e ∈ told.flatMap Told.scored := by
  obtain ⟨t, ht, he⟩ := List.mem_filterMap.1 he
  exact List.mem_flatMap.2 ⟨t, ht, List.mem_of_getElem? he⟩

/-- No particle has a number below that of the swarm. -/
theorem not_lt_best (h : Remembers first told w) {i : Nat} (hi : i < first.rows.length) {x : Float}
    (hx : w.memory.fitness[i]? = some x) : ¬ x < w.best := by
  obtain ⟨y, place, hy, -, hlowest⟩ := h.own i hi
  obtain rfl : x = y := Option.some.inj (hx.symm.trans hy)
  rcases List.mem_cons.1 hlowest.mem with hfront | hlater
  · rw [(Prod.mk.inj hfront).1]
    exact not_infinity_lt _
  · have hmem : (x, some place) ∈ allScored first told :=
      List.mem_cons_of_mem _ (mem_allScored hlater)
    exact h.swarm.not_lt (x, some place) hmem

/-- A number of the swarm below infinity is that of a particle, at the same place. -/
theorem exists_holder (h : Remembers first told w)
    (htold : ∀ t ∈ told, t.fitness.length = first.rows.length) (hlt : w.best < infinity) :
    ∃ i < first.rows.length, w.memory.fitness[i]? = some w.best ∧
      w.memory.locations.rows[i]? = some w.location := by
  obtain ⟨-, hlowest⟩ | ⟨hbest, -⟩ := isFirstLowest_cons_infinity_iff.1 h.swarm
  · rw [List.flatMap_def] at hlowest
    obtain ⟨i, ⟨es, hes, hi⟩, hcolumn⟩ := hlowest.exists_column
    obtain ⟨t, ht, rfl⟩ := List.mem_map.1 hes
    rw [Told.scored, entriesOf, List.length_mapIdx, htold t ht] at hi
    rw [List.filterMap_map] at hcolumn
    obtain ⟨x, place, hx, hplace, hown⟩ := h.own i hi
    -- the particle has just one first lowest entry
    have hsame := hown.unique (isFirstLowest_cons_infinity_iff.2 (Or.inl ⟨hlt, hcolumn⟩))
    obtain ⟨rfl, hlocation⟩ := Prod.mk.inj hsame
    obtain rfl := Option.some.inj hlocation
    exact ⟨i, hi, hx, hplace⟩
  · rw [hbest] at hlt
    exact absurd hlt (Binary64.not_lt_self isNaN_infinity)

/-- The number of the swarm is the lowest one of the particles. -/
theorem isLowest (h : Remembers first told w) (hfirst : 0 < first.rows.length)
    (hfitness : w.memory.fitness.length = first.rows.length)
    (htold : ∀ t ∈ told, t.fitness.length = first.rows.length) :
    IsLowest w.best w.memory.fitness where
  mem := by
    have hnumber := h.swarm.number
    have hself : (w.best == w.best) = true := (Binary64.beq_iff hnumber hnumber).2
      ⟨Binary64.not_lt_self hnumber, Binary64.not_lt_self hnumber⟩
    rcases isFirstLowest_cons_infinity_iff.1 h.swarm with ⟨hlt, -⟩ | ⟨hbest, -⟩
    · obtain ⟨i, -, hi, -⟩ := h.exists_holder htold hlt
      exact ⟨w.best, List.mem_of_getElem? hi, hself⟩
    · -- no particle was told anything below infinity
      obtain ⟨x, place, hx, -, hlowest⟩ := h.own 0 hfirst
      have hnot := h.not_lt_best hfirst hx
      rcases isFirstLowest_cons_infinity_iff.1 hlowest with ⟨hlt, -⟩ | ⟨rfl, -⟩
      · rw [hbest] at hnot
        exact absurd hlt hnot
      · rw [hbest] at hself ⊢
        exact ⟨infinity, List.mem_of_getElem? hx, hself⟩
  least := by
    intro y hy
    obtain ⟨i, hi⟩ := List.getElem?_of_mem hy
    exact h.not_lt_best (hfitness ▸ (List.getElem?_eq_some_iff.1 hi).1) hi

end Remembers

/-! ## All rounds -/

variable {s : ParticleSwarm} {l l' : LocalState} {r : Round} {most : Nat}

namespace Holds

theorem unique (h : Holds l w) (h' : Holds l w') : w = w' := by
  obtain ⟨population, ⟨locations, fitness⟩, location, best⟩ := w
  obtain ⟨population', ⟨locations', fitness'⟩, location', best'⟩ := w'
  obtain rfl := Except.ok.inj (h.population.symm.trans h'.population)
  obtain rfl := Except.ok.inj (h.locations.symm.trans h'.locations)
  obtain rfl := Except.ok.inj (h.fitness.symm.trans h'.fitness)
  obtain rfl := Except.ok.inj (h.location.symm.trans h'.location)
  obtain rfl := Except.ok.inj (h.best.symm.trans h'.best)
  rfl

theorem hasSize_population (h : Holds l w) (hl : s.plan.Fits most [] l) :
    w.population.HasSize s.popSize s.dim := by
  have hgives := (gives_array hl "population" [s.popSize, s.dim] (by simp [memoryPlan])).bind
    fun t ht => Tensor.gives_asMatrix ht "population"
  obtain ⟨m, hm, hsize⟩ := hgives
  rwa [Except.ok.inj (h.population.symm.trans hm)]

theorem hasSize_memory (h : Holds l w) (hl : s.plan.Fits most [] l) :
    w.memory.HasSize s.popSize s.dim := by
  have hlocations := (gives_array hl "local_best_location" [s.popSize, s.dim]
    (by simp [memoryPlan])).bind fun t ht => Tensor.gives_asMatrix ht "local_best_location"
  have hfitness := (gives_array hl "local_best_fitness" [s.popSize]
    (by simp [memoryPlan])).bind fun t ht => Tensor.gives_asVector ht "local_best_fitness"
  obtain ⟨m, hm, hmsize⟩ := hlocations
  obtain ⟨xs, hxs, hlength⟩ := hfitness
  rw [Memory.HasSize, Except.ok.inj (h.locations.symm.trans hm),
    Except.ok.inj (h.fitness.symm.trans hxs)]
  exact ⟨hmsize, hlength⟩

theorem start (s : ParticleSwarm) (g : Generator) (w phiP phiG : Float) :
    Holds (s.start g w phiP phiG) ⟨s.firstPlaces g,
      ⟨s.firstPlaces g, List.replicate s.popSize infinity⟩, (s.firstPlaces g).rows.headD [],
      infinity⟩ where
  population := by
    rw [tensor_start (t := (s.firstPlaces g).toTensor) (by simp [firstValues]), Outcome.ok_bind]
    exact (s.firstPlaces g).asMatrix_toTensor _
  locations := by
    rw [tensor_start (t := (s.firstPlaces g).toTensor) (by simp [firstValues]), Outcome.ok_bind]
    exact (s.firstPlaces g).asMatrix_toTensor _
  fitness := by
    rw [tensor_start (t := .constant [s.popSize] infinity) (by simp [firstValues, infinity]),
      Outcome.ok_bind]
    simp [Tensor.asVector, Tensor.constant, Tensor.rank]
  location := by
    rw [tensor_start (t := .vector ((s.firstPlaces g).rows.headD [])) (by simp [firstValues]),
      Outcome.ok_bind]
    rfl
  best := by
    rw [LocalState.number, tensor_start (t := .scalar infinity) (by simp [firstValues, infinity])]
    rfl

end Holds

/-- What happens in a round. -/
theorem round_eq_ok {t : Told} (h : s.round l r = .ok (t, l')) : ∃ w w', Holds l w ∧
    t = ⟨w.population, r.fitness⟩ ∧ Learns r.fitness w w' ∧ Holds l' w' := by
  obtain ⟨⟨candidates, m⟩, hask, h⟩ := Outcome.bind_eq_ok_iff.1 h
  obtain ⟨u, hu, hask⟩ := Outcome.bind_eq_ok_iff.1 hask
  obtain ⟨rfl, rfl⟩ := Prod.mk.inj (Except.ok.inj hask)
  obtain ⟨u', hu', h⟩ := Outcome.bind_eq_ok_iff.1 h
  obtain rfl := Except.ok.inj hu'
  obtain ⟨places, hplaces, h⟩ := Outcome.bind_eq_ok_iff.1 h
  obtain ⟨m, htell, h⟩ := Outcome.bind_eq_ok_iff.1 h
  obtain ⟨rfl, rfl⟩ := Prod.mk.inj (Except.ok.inj h)
  obtain ⟨-, -, w, w', hl, hlearns, hl'⟩ := learn_eq_ok htell
  have hsame := hl.population
  rw [hu, Outcome.ok_bind, hplaces] at hsame
  exact ⟨w, w', hl, by rw [Except.ok.inj hsame], hlearns, hl'⟩

theorem gives_round (hl : s.plan.Fits most [] l) (hsize : Tensor.IsArrayShape [s.popSize, s.dim])
    (hr : r.fitness.length = s.popSize) :
    Gives (fun p => p.1.fitness = r.fitness ∧ s.plan.Fits most [] p.2) (s.round l r) := by
  obtain ⟨t, ht, hshape⟩ := gives_array hl "population" [s.popSize, s.dim] (by simp [memoryPlan])
  simp only [round, algorithm, ht, Outcome.ok_bind, Outcome.pure_eq_ok, Candidates.asDense]
  refine (Tensor.gives_asMatrix hshape _).bind fun places _ => ?_
  exact (gives_learn hl hsize (Tensor.shape_vector_of_length hr) _).bind fun l' hl' =>
    .ok ⟨rfl, hl'⟩

/-- All rounds are played, and in the end everything that was told is remembered. -/
theorem gives_rounds {g : Generator} (hs : s.Formed)
    (hsize : Tensor.IsArrayShape [s.popSize, s.dim]) {rs : List Round} :
    ∀ {l : LocalState} {told : List Told} {w : Swarm}, s.plan.Fits most [] l → Holds l w →
      Remembers (s.firstPlaces g) told w → (∀ r ∈ rs, r.fitness.length = s.popSize) →
        Gives (fun p => p.1.map Told.fitness = rs.map Round.fitness ∧ s.plan.Fits most [] p.2 ∧
          ∃ w', Holds p.2 w' ∧ Remembers (s.firstPlaces g) (told ++ p.1) w') (s.rounds l rs) := by
  induction rs with
  | nil =>
    intro l told w hl hholds hremembers _
    exact .ok ⟨rfl, hl, w, hholds, by rwa [List.append_nil]⟩
  | cons r rest ih =>
    intro l told w hl hholds hremembers hrs
    obtain ⟨hr, hrest⟩ := List.forall_mem_cons.1 hrs
    obtain ⟨⟨t, m⟩, hround, hfitness, hm⟩ := gives_round hl hsize hr
    obtain ⟨v, w', hv, rfl, hlearns, hholds'⟩ := round_eq_ok hround
    obtain rfl := hv.unique hholds
    have hnext := hremembers.learns (hasSize_firstPlaces hs g).1 (hholds.hasSize_population hl)
      (hholds.hasSize_memory hl) hr hlearns
    rw [rounds, hround, Outcome.ok_bind]
    refine (ih hm hholds' hnext hrest).bind ?_
    rintro ⟨others, last⟩ ⟨hothers, hlast, w'', hholds'', hremembers''⟩
    refine .ok ⟨?_, hlast, w'', hholds'', by rwa [List.append_assoc] at hremembers''⟩
    rw [List.map_cons, List.map_cons, hothers]

/-- However often a swarm that started is asked and told, it remembers the best places exactly, and
its own best place is that of a particle. -/
theorem bests_of_rounds (hs : s.Formed) {g : Generator} {first : LocalState}
    (hinit : s.initialState g = .ok first) (inertia cognitive social : Float)
    {rs : List Round} (hrs : ∀ r ∈ rs, r.fitness.length = s.popSize) :
    ∃ told l w, s.rounds (weighted inertia cognitive social first) rs = .ok (told, l) ∧
      told.map Told.fitness = rs.map Round.fitness ∧ Holds l w ∧
      Remembers (s.firstPlaces g) told w ∧ IsLowest w.best w.memory.fitness ∧
      (w.best < infinity → ∃ i < s.popSize, w.memory.fitness[i]? = some w.best ∧
        w.memory.locations.rows[i]? = some w.location) := by
  obtain ⟨hsize, rfl⟩ := initialState_eq_ok_iff.1 hinit
  have hfirst := hasSize_firstPlaces hs g
  obtain ⟨⟨told, l⟩, hrounds, hfitness, hl, w, hholds, hremembers⟩ :=
    gives_rounds hs hsize (fits_start hs g inertia cognitive social)
      (Holds.start s g inertia cognitive social) (.start hfirst hs.particles _) hrs
  rw [List.nil_append] at hremembers
  have htold : ∀ t ∈ told, t.fitness.length = (s.firstPlaces g).rows.length := by
    intro t ht
    obtain ⟨r, hr, hsame⟩ := List.mem_map.1 (hfitness ▸ List.mem_map_of_mem (f := Told.fitness) ht)
    rw [← hsame, hrs r hr, hfirst.1]
  have hlength : w.memory.fitness.length = (s.firstPlaces g).rows.length :=
    (hholds.hasSize_memory hl).2.trans hfirst.1.symm
  have hholder := hremembers.exists_holder htold
  rw [hfirst.1] at hholder
  exact ⟨told, l, w, hrounds, hfitness, hholds, hremembers,
    hremembers.isLowest (hfirst.1 ▸ hs.particles) hlength htold, hholder⟩

/-- Two particles on a line. -/
def pair : ParticleSwarm where
  lower := [0]
  upper := [1]
  popSize := 2

/-- Two rounds. In the second one, the second particle reaches the number of the first one. -/
def twoRounds : List Round :=
  [⟨.new .root ⟨0⟩ 0 0 askStream, .new .root ⟨0⟩ 0 0 tellStream, [1, 0 / 0]⟩,
    ⟨.new .root ⟨0⟩ 1 0 askStream, .new .root ⟨0⟩ 1 0 tellStream, [2, 1]⟩]

theorem bests_of_rounds_pair : pair.Formed ∧ (∀ r ∈ twoRounds, r.fitness.length = pair.popSize) ∧
    ∃ first told l w, pair.initialState (.new 0 0) = .ok first ∧
      pair.rounds (weighted 0.6 2.5 0.8 first) twoRounds = .ok (told, l) ∧
      told.map Told.fitness = twoRounds.map Round.fitness ∧ Holds l w ∧
      Remembers (pair.firstPlaces (.new 0 0)) told w ∧ IsLowest w.best w.memory.fitness ∧
      (w.best < infinity → ∃ i < pair.popSize, w.memory.fitness[i]? = some w.best ∧
        w.memory.locations.rows[i]? = some w.location) := by
  have hformed : pair.Formed := ⟨rfl, by decide⟩
  have hrounds : ∀ r ∈ twoRounds, r.fitness.length = pair.popSize :=
    List.forall_mem_cons.2 ⟨rfl, List.forall_mem_singleton.2 rfl⟩
  obtain ⟨first, hfirst⟩ := Outcome.exists_eq_ok (o := pair.initialState (.new 0 0))
    (by decide +kernel)
  obtain ⟨told, l, w, hbests⟩ := bests_of_rounds hformed hfirst 0.6 2.5 0.8 hrounds
  exact ⟨hformed, hrounds, first, told, l, w, hfirst, hbests⟩

end Lockstep.ParticleSwarm
