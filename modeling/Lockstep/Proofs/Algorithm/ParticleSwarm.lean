import Lockstep.Algorithm.ParticleSwarm
import Lockstep.Proofs.Tensor.Matrix
import Lockstep.Proofs.Workflow.Start

/-!
# The swarm keeps its shape

A swarm that was accepted has as many upper bounds as lower ones, and particles. All its arrays keep
their sizes when it learns (`gives_learn`), so that no array operation can fail. So a swarm can be
the algorithm of a workflow whose candidates are one matrix (`joins`).
-/

namespace Lockstep.ParticleSwarm

open Outcome (Gives)
open LeafPlan (fits_entry)
open Lockstep.Random

/-- There is a particle, and as many upper bounds as lower ones. -/
structure Formed (s : ParticleSwarm) : Prop where
  bounds : s.upper.length = s.dim
  particles : 0 < s.popSize

/-- A swarm that is accepted has bounds of one length and the size that was asked for. -/
theorem formed_of_new {lower upper : List Float} {popSize : Nat} {s : ParticleSwarm}
    (h : new lower upper popSize = .ok s) :
    s.Formed ∧ s.dim = lower.length ∧ s.popSize = popSize := by
  rw [new] at h
  split at h
  · cases h
  · next hbounds =>
    split at h
    · cases h
    · split at h
      · cases h
      · next hparticles =>
        obtain rfl := Except.ok.inj h
        simp only [Bool.or_eq_true, decide_eq_true_eq, not_or, ne_eq, not_not] at hbounds
        exact ⟨⟨hbounds.2.symm, Nat.pos_of_ne_zero hparticles⟩, rfl, rfl⟩

/-! ## Draws -/

/-- There are as many draws as asked for. -/
theorem length_draws {α : Type} (draw : Generator → α × Generator) (count : Nat) :
    ∀ {g : Generator}, (Generator.draws draw count g).1.length = count := by
  induction count with
  | zero => exact rfl
  | succ count ih => exact congrArg (· + 1) ih

/-- Rows of draws between bounds have the length of the bounds. -/
theorem hasSize_uniform (low high : List Float) {d : Nat} (hlow : low.length = d)
    (hhigh : high.length = d) (count : Nat) (g : Generator) :
    (uniform count low high g).1.HasSize count d := by
  refine ⟨length_draws (drawRow low high) count, ?_⟩
  change min low.length high.length = d
  rw [hlow, hhigh, Nat.min_self]

variable {n d : Nat}

theorem hasSize_clamp (s : ParticleSwarm) {m : Matrix} (h : m.HasSize n d) :
    (s.clamp m).HasSize n d := ⟨(List.length_map _).trans h.1, h.2⟩

/-! ## Learning -/

theorem gives_setRow {m : Matrix} (hm : m.HasSize n d) {index : Nat} (hindex : index < n)
    {row : List Float} (hrow : row.length = d) :
    Gives (Matrix.HasSize n d) (setRow m index row) := by
  have hcols : row.length = m.cols := hrow.trans hm.2.symm
  have hfull : ∀ r ∈ m.rows.set index row, r.length = m.cols := by
    intro r hr
    rcases List.mem_or_eq_of_mem_set hr with hr | rfl
    · exact m.full r hr
    · exact hcols
  simp only [setRow, hm.1, if_pos hindex, if_pos hcols, dif_pos hfull]
  exact .ok ⟨List.length_set.trans hm.1, hm.2⟩

/-- Places and fitness of all particles. -/
def Memory.HasSize (n d : Nat) (memory : Memory) : Prop :=
  memory.locations.HasSize n d ∧ memory.fitness.length = n

/-- The memory of the best places keeps its size. -/
theorem gives_remember {population : Matrix} (hpopulation : population.HasSize n d)
    {fitness : List Float} :
    ∀ {index : Nat} {memory : Memory}, memory.HasSize n d → index + fitness.length ≤ n →
      Gives (Memory.HasSize n d) (remember population index fitness memory) := by
  induction fitness with
  | nil => exact fun hmemory _ => .ok hmemory
  | cons f rest ih =>
    intro index memory hmemory hle
    rw [List.length_cons] at hle
    have hindex : index < n := by omega
    have hbest := List.getElem?_eq_getElem (l := memory.fitness) (hmemory.2.symm ▸ hindex)
    rw [remember, hbest, present, Outcome.ok_bind]
    split
    · -- this place is better than the remembered one
      obtain ⟨place, hplace, hlength⟩ := hpopulation.getElem? hindex
      rw [hplace, present, Outcome.ok_bind]
      refine (gives_setRow hmemory.1 hindex hlength).bind fun locations hlocations => ?_
      exact ih ⟨hlocations, List.length_set.trans hmemory.2⟩ (by omega)
    · exact ih hmemory (by omega)

/-- The best place of the swarm has the length of a row. -/
theorem gives_swarmBest {population : Matrix} (hpopulation : population.HasSize n d)
    {fitness location : List Float} (hfitness : fitness.length = n)
    (hlocation : location.length = d) (best : Float) :
    Gives (fun r => r.1.length = d) (swarmBest population fitness location best) := by
  rw [swarmBest]
  cases hmin : Tensor.argmin fitness with
  | none => exact .ok hlocation
  | some r =>
    obtain ⟨index, f⟩ := r
    dsimp only
    split
    · have hindex : index < n := hfitness ▸ Tensor.index_argmin_lt hmin
      obtain ⟨place, hplace, hlength⟩ := hpopulation.getElem? hindex
      rw [hplace]
      exact .ok hlength
    · exact .ok hlocation

/-- Matrices of one size move to matrices of that size. -/
theorem gives_move (s : ParticleSwarm) (hsize : Tensor.IsArrayShape [s.popSize, s.dim])
    {population velocity locations : Matrix}
    {swarm : List Float} (hpopulation : population.HasSize s.popSize s.dim)
    (hvelocity : velocity.HasSize s.popSize s.dim) (hlocations : locations.HasSize s.popSize s.dim)
    (hswarm : swarm.length = s.dim) (w phiP phiG : Float) (g : Generator) :
    Gives (fun r => r.1.HasSize s.popSize s.dim ∧ r.2.HasSize s.popSize s.dim)
      (s.move w phiP phiG population velocity locations swarm g) := by
  have hunits := length_draws Generator.nextUnit (s.popSize * s.dim) (g := g)
  have hothers := length_draws Generator.nextUnit (s.popSize * s.dim)
    (g := (Generator.draws Generator.nextUnit (s.popSize * s.dim) g).2)
  simp only [move, checkSize, if_pos hsize, dif_pos hunits, dif_pos hothers, Outcome.ok_bind]
  have hrp := Matrix.hasSize_ofData hunits
  have hrg := Matrix.hasSize_ofData hothers
  obtain ⟨toOwn, h₁, hown⟩ := hlocations.zipWith (.inl hpopulation) (· - ·)
  obtain ⟨towardsOwn, h₂, htowardsOwn⟩ := hown.zipWith (.inl hrp) (· * ·)
  obtain ⟨toSwarm, h₃, hto⟩ := hpopulation.zipWith (.inr (Matrix.hasSize_ofRow hswarm)) (· - ·)
  obtain ⟨towardsSwarm, h₄, htowardsSwarm⟩ := (hto.map fun x => -x).zipWith (.inl hrg) (· * ·)
  obtain ⟨drawn, h₅, hdrawn⟩ :=
    (hvelocity.map (· * w)).zipWith (.inl (htowardsOwn.map (· * phiP))) (· + ·)
  obtain ⟨speed, h₆, hspeed⟩ := hdrawn.zipWith (.inl (htowardsSwarm.map (· * phiG))) (· + ·)
  obtain ⟨places, h₇, hplaces⟩ := hpopulation.zipWith (.inl hspeed) (· + ·)
  simp only [present, h₁, h₂, h₃, h₄, h₅, h₆, h₇, Outcome.ok_bind]
  exact .ok ⟨hasSize_clamp s hplaces, hasSize_clamp s hspeed⟩

/-! ## The local state -/

/-- The weights. -/
def weightPlan : List (String × LeafPlan) :=
  [("w", .free []), ("phi_p", .free []), ("phi_g", .free [])]

/-- The particles and the best places. -/
def memoryPlan (s : ParticleSwarm) : List (String × LeafPlan) :=
  [("local_best_location", .free [s.popSize, s.dim]), ("population", .free [s.popSize, s.dim]),
    ("velocity", .free [s.popSize, s.dim]), ("local_best_fitness", .free [s.popSize]),
    ("global_best_location", .free [s.dim]), ("global_best_fitness", .free [])]

/-- What the swarm keeps. -/
def plan (s : ParticleSwarm) : LocalPlan := .layered weightPlan s.memoryPlan

variable {s : ParticleSwarm}

theorem names_memoryPlan (s : ParticleSwarm) : s.memoryPlan.map Prod.fst =
    ["local_best_location", "population", "velocity", "local_best_fitness",
      "global_best_location", "global_best_fitness"] := rfl

/-- What a swarm remembers is part of its plan. -/
theorem get?_plan_memory {name : String} {q : LeafPlan} (h : (name, q) ∈ s.memoryPlan) :
    s.plan.get? name = some q := by
  refine LocalPlan.get?_layered_own ?_ h
  rw [names_memoryPlan]
  decide

theorem get?_plan_weight {name : String} {q : LeafPlan} (h : (name, q) ∈ weightPlan) :
    s.plan.get? name = some q := by
  have hother : ∀ weight ∈ weightPlan.map Prod.fst, weight ∉ s.memoryPlan.map Prod.fst := by
    rw [names_memoryPlan]
    decide
  exact LocalPlan.get?_layered_default (by decide) h
    (hother name (List.mem_map_of_mem (f := Prod.fst) h))

section

variable {most : Nat} {l : LocalState} (hl : s.plan.Fits most [] l)

include hl

theorem exists_weight (name : String) (h : (name, .free []) ∈ weightPlan) :
    ∃ x, l.number name = .ok x := hl.number (get?_plan_weight h)

/-- What a swarm remembers can be read, with its shape. -/
theorem gives_array (name : String) (shape : List Nat) (h : (name, .free shape) ∈ s.memoryPlan) :
    Gives (fun t => t.shape = shape) (l.tensor name) :=
  (hl.tensor (get?_plan_memory h)).imp fun _ => LeafPlan.fits_free.1

/-- Writing it back with its shape keeps the plan. -/
theorem fits_setArray (name : String) (shape : List Nat) (h : (name, .free shape) ∈ s.memoryPlan)
    {t : Tensor} (ht : t.shape = shape) : s.plan.Fits most [] (l.setTensor name t) :=
  hl.setShape (get?_plan_memory h) ht

/-- The swarm learns from one number for each particle. -/
theorem gives_learn (hsize : Tensor.IsArrayShape [s.popSize, s.dim]) {fitness : Tensor}
    (hfitness : fitness.shape = [s.popSize]) (g : Generator) :
    Gives (s.plan.Fits most []) (s.learn g l fitness) := by
  obtain ⟨w, hw⟩ := exists_weight hl "w" (by simp [weightPlan])
  obtain ⟨phiP, hphiP⟩ := exists_weight hl "phi_p" (by simp [weightPlan])
  obtain ⟨phiG, hphiG⟩ := exists_weight hl "phi_g" (by simp [weightPlan])
  have hbestPlan : s.plan.get? "global_best_fitness" = some (.free []) :=
    get?_plan_memory (by simp [memoryPlan])
  obtain ⟨best, hbest⟩ := hl.number hbestPlan
  obtain ⟨t₁, ht₁, hshape₁⟩ := gives_array hl "population" [s.popSize, s.dim] (by simp [memoryPlan])
  obtain ⟨t₂, ht₂, hshape₂⟩ := gives_array hl "velocity" [s.popSize, s.dim] (by simp [memoryPlan])
  obtain ⟨t₃, ht₃, hshape₃⟩ :=
    gives_array hl "local_best_location" [s.popSize, s.dim] (by simp [memoryPlan])
  obtain ⟨t₄, ht₄, hshape₄⟩ :=
    gives_array hl "local_best_fitness" [s.popSize] (by simp [memoryPlan])
  obtain ⟨t₅, ht₅, hshape₅⟩ := gives_array hl "global_best_location" [s.dim] (by simp [memoryPlan])
  rw [learn]
  refine (Tensor.gives_asVector hfitness _).bind fun xs hxs => ?_
  rw [if_neg (not_not.2 hxs)]
  simp only [hw, hphiP, hphiG, hbest, ht₁, ht₂, ht₃, ht₄, ht₅, Outcome.ok_bind, Outcome.pure_eq_ok]
  refine (Tensor.gives_asMatrix hshape₁ _).bind fun population hpopulation => ?_
  refine (Tensor.gives_asMatrix hshape₂ _).bind fun velocity hvelocity => ?_
  refine (Tensor.gives_asMatrix hshape₃ _).bind fun locations hlocations => ?_
  refine (Tensor.gives_asVector hshape₄ _).bind fun bests hbests => ?_
  refine (Tensor.gives_asVector hshape₅ _).bind fun swarm hswarm => ?_
  -- all arrays have their sizes, and keep them
  refine (gives_remember hpopulation ⟨hlocations, hbests⟩ (by omega)).bind fun memory hmemory => ?_
  refine (gives_swarmBest hpopulation hxs hswarm best).bind ?_
  rintro ⟨swarm, best⟩ hswarm
  refine (gives_move s hsize hpopulation hvelocity hmemory.1 hswarm w phiP phiG g).bind ?_
  rintro ⟨population, velocity⟩ ⟨hpopulation, hvelocity⟩
  have h₁ := fits_setArray hl "population" [s.popSize, s.dim] (by simp [memoryPlan])
    hpopulation.shape_toTensor
  have h₂ := fits_setArray h₁ "velocity" [s.popSize, s.dim] (by simp [memoryPlan])
    hvelocity.shape_toTensor
  have h₃ := fits_setArray h₂ "local_best_location" [s.popSize, s.dim] (by simp [memoryPlan])
    hmemory.1.shape_toTensor
  have h₄ := fits_setArray h₃ "local_best_fitness" [s.popSize] (by simp [memoryPlan])
    (Tensor.shape_vector_of_length hmemory.2)
  have h₅ := fits_setArray h₄ "global_best_location" [s.dim] (by simp [memoryPlan])
    (Tensor.shape_vector_of_length hswarm)
  exact .ok (h₅.setNumber hbestPlan best)

end

/-- The schema of a swarm declares what its plan says. -/
theorem declares_plan (s : ParticleSwarm) : s.schema.Declares s.plan s.popSize where
  valid := by
    refine Schema.validate_eq_ok ?_
    change Path.NamesFit ["lb", "ub", "pop_size", "w", "phi_p", "phi_g", "population", "velocity",
      "local_best_location", "local_best_fitness", "global_best_location", "global_best_fitness"]
    decide
  names := by
    refine Schema.statefulNames_eq fun name => ?_
    rw [plan, LocalPlan.mem_keys_layered, names_memoryPlan]
    change name ∈ ["w", "phi_p", "phi_g", "population", "velocity", "local_best_location",
      "local_best_fitness", "global_best_location", "global_best_fitness"] ↔
      name ∈ ["w", "phi_p", "phi_g"] ∨ _
    simp only [List.mem_cons, List.not_mem_nil, or_false]
    tauto
  parameters := by
    have hweight : ∀ name, (name, .free []) ∈ weightPlan →
        ∃ shape, s.plan.get? name = some (.free shape) := fun name h => ⟨[], get?_plan_weight h⟩
    change ∀ a ∈ [Attribute.parameter "w" (.scalar s.inertia),
      .parameter "phi_p" (.scalar s.cognitive), .parameter "phi_g" (.scalar s.social)], _
    simp only [List.forall_mem_cons, List.not_mem_nil, false_implies, implies_true, and_true]
    exact ⟨hweight "w" (by simp [weightPlan]), hweight "phi_p" (by simp [weightPlan]),
      hweight "phi_g" (by simp [weightPlan])⟩
  population := by
    have hpopulation : ∀ name shape, (name, .free (s.popSize :: shape)) ∈ s.memoryPlan →
        ∀ axis ∈ (Attribute.population name).populationAxis,
          axis = 0 ∧ ∃ shape, s.plan.get? name = some (.free (s.popSize :: shape)) := by
      rintro name shape h _ ⟨⟩
      exact ⟨rfl, shape, get?_plan_memory h⟩
    change ∀ a ∈ [Attribute.parameter "w" (.scalar s.inertia),
      .parameter "phi_p" (.scalar s.cognitive), .parameter "phi_g" (.scalar s.social),
      .population "population", .population "velocity", .population "local_best_location",
      .population "local_best_fitness", .mutable "global_best_location",
      .mutable "global_best_fitness"], _
    simp only [List.forall_mem_cons, List.not_mem_nil, false_implies, implies_true, and_true]
    exact ⟨nofun, nofun, nofun, hpopulation "population" [s.dim] (by simp [memoryPlan]),
      hpopulation "velocity" [s.dim] (by simp [memoryPlan]),
      hpopulation "local_best_location" [s.dim] (by simp [memoryPlan]),
      hpopulation "local_best_fitness" [] (by simp [memoryPlan]), nofun, nofun⟩

/-! ## The first state -/

/-- Where the particles start. -/
def firstPlaces (s : ParticleSwarm) (g : Generator) : Matrix :=
  (uniform s.popSize s.lower s.upper g).1

/-- How the particles move at the start. -/
def firstSpeeds (s : ParticleSwarm) (g : Generator) : Matrix :=
  let span := List.zipWith (fun u l => u - l) s.upper s.lower
  (uniform s.popSize (span.map fun x => -x) span (uniform s.popSize s.lower s.upper g).2).1

/-- The values that the swarm starts with, apart from its weights. -/
def firstValues (s : ParticleSwarm) (g : Generator) : List (String × Value) :=
  [("local_best_location", .tensor (s.firstPlaces g).toTensor),
    ("population", .tensor (s.firstPlaces g).toTensor),
    ("velocity", .tensor (s.firstSpeeds g).toTensor),
    ("local_best_fitness", .tensor (.constant [s.popSize] (1 / 0))),
    ("global_best_location", .tensor (.vector ((s.firstPlaces g).rows.headD []))),
    ("global_best_fitness", .tensor (.scalar (1 / 0)))]

/-- The local state with which the swarm starts, apart from its weights. -/
def firstState (s : ParticleSwarm) (g : Generator) : LocalState := .ofList (s.firstValues g)

/-- A swarm can start when an array can hold a row of coordinates for each particle. -/
theorem initialState_eq_ok_iff {g : Generator} {l : LocalState} :
    s.initialState g = .ok l ↔
      Tensor.IsArrayShape [s.popSize, s.dim] ∧ l = s.firstState g := by
  rw [initialState, checkSize]
  split
  · next hsize =>
    have hbatch : Tensor.IsArrayShape ([s.popSize] ++ [s.dim]) := hsize
    have hfitness : Tensor.full [s.popSize] (1 / 0) = .ok (.constant [s.popSize] (1 / 0)) :=
      Tensor.full_eq_ok_iff.2 ⟨hbatch.init, rfl⟩
    rw [Outcome.ok_bind]
    dsimp only
    rw [hfitness, Outcome.ok_bind, Outcome.pure_eq_ok, Except.ok.injEq, eq_comm]
    exact (and_iff_right hsize).symm
  · next hsize =>
    rw [Outcome.error_bind]
    exact ⟨nofun, fun h => absurd h.1 hsize⟩

theorem map_fst_firstValues (s : ParticleSwarm) (g : Generator) :
    (s.firstValues g).map Prod.fst = s.memoryPlan.map Prod.fst := rfl

/-- A local state with some weights. -/
def weighted (w phiP phiG : Float) (l : LocalState) : LocalState :=
  Table.union (.ofList [("w", .tensor (.scalar w)), ("phi_p", .tensor (.scalar phiP)),
    ("phi_g", .tensor (.scalar phiG))]) l

/-- The first local state with some weights. -/
def start (s : ParticleSwarm) (g : Generator) (w phiP phiG : Float) : LocalState :=
  weighted w phiP phiG (s.firstState g)

/-- Every first value is there, whatever the weights. -/
theorem tensor_start {g : Generator} {name : String} {t : Tensor}
    (h : (name, .tensor t) ∈ s.firstValues g) (w phiP phiG : Float) :
    (s.start g w phiP phiG).tensor name = .ok t := by
  have hnames : ((s.firstValues g).map Prod.fst).Nodup := by
    rw [map_fst_firstValues, names_memoryPlan]
    decide
  refine LocalState.tensor_of_get? (Table.get?_union_of_mem (Table.sorted_ofList _).nodup ?_)
  exact Table.mem_of_get?_eq_some (Table.get?_ofList_of_mem hnames h)

/-- The first places are one row for every particle. -/
theorem hasSize_firstPlaces (hs : s.Formed) (g : Generator) :
    (s.firstPlaces g).HasSize s.popSize s.dim := hasSize_uniform s.lower s.upper rfl hs.bounds _ g

/-- The first state has the sizes of the box and the population. -/
theorem fits_start (hs : s.Formed) (g : Generator) (w phiP phiG : Float) :
    s.plan.Fits 0 [] (s.start g w phiP phiG) := by
  let span := List.zipWith (fun u l => u - l) s.upper s.lower
  have hspan : span.length = s.dim := by
    rw [List.length_zipWith, hs.bounds]
    exact Nat.min_self _
  have hpopulation := hasSize_firstPlaces hs g
  have hvelocity : (s.firstSpeeds g).HasSize s.popSize s.dim :=
    hasSize_uniform (span.map fun x => -x) span ((List.length_map _).trans hspan) hspan s.popSize _
  -- there is a first particle
  have hfirst : ((s.firstPlaces g).rows.headD []).length = s.dim := by
    obtain ⟨row, hrow, hlength⟩ := hpopulation.getElem? hs.particles
    rw [← List.head?_eq_getElem?] at hrow
    rw [List.headD_eq_head?_getD, hrow]
    exact hlength
  refine LocalPlan.fits_layered ?_ ?_
  · exact .cons (fits_entry rfl) (.cons (fits_entry rfl) (.cons (fits_entry rfl) .nil))
  · refine .cons (fits_entry hpopulation.shape_toTensor)
      (.cons (fits_entry hpopulation.shape_toTensor)
        (.cons (fits_entry hvelocity.shape_toTensor)
          (.cons (fits_entry rfl) (.cons (fits_entry ?_) (.cons (fits_entry rfl) .nil)))))
    exact Tensor.shape_vector_of_length hfirst

/-- The first state is as planned, with the weights of the swarm. -/
theorem starts (hs : s.Formed) (hsize : Tensor.IsArrayShape [s.popSize, s.dim]) :
    s.algorithm.component.Starts s.plan s.popSize where
  declares := s.declares_plan
  init {_ g} := ⟨_, initialState_eq_ok_iff.2 ⟨hsize, rfl⟩,
    fits_start hs g s.inertia s.cognitive s.social⟩

/-- A swarm that was accepted and whose particles fit an array can be the algorithm where candidates
are one matrix. -/
theorem joins (hs : s.Formed) (hsize : Tensor.IsArrayShape [s.popSize, s.dim]) :
    s.algorithm.Joins (.dense s.popSize s.dim) := by
  refine ⟨rfl, s.plan, starts hs hsize, ?_, ?_, ?_⟩
  · intro most ctx l hl
    have hpopulation : s.plan.get? "population" = some (.free [s.popSize, s.dim]) :=
      get?_plan_memory (by simp [memoryPlan])
    exact (hl.tensor hpopulation).bind fun t ht => .ok ⟨⟨t, rfl, LeafPlan.fits_free.1 ht⟩, hl⟩
  · intro most ctx l f hl hf
    exact gives_learn hl hsize hf ctx.random
  · rintro _ ⟨⟩
    rfl

end Lockstep.ParticleSwarm
