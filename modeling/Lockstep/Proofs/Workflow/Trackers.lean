import Lockstep.Proofs.Monitor.Best
import Lockstep.Proofs.Workflow.FirstState

/-!
# Three trackers of the best fitness

A swarm, an evaluation monitor and a fitness monitor look at the fitness of a lane at three points
of a step, each on its own. In every run from a stacking of a first state, all three agree in every
lane on the lowest number of the fitness that the lane has seen (`fitnessSeen`), and none of them
ever goes up (`trackers_agree`).
-/

namespace Lockstep

open LocalState (Written)

/-! ## Keeping order -/

theorem ParticleSwarm.keepsOrder (s : ParticleSwarm) : s.algorithm.KeepsOrder where
  starts := Component.startsOrdered_of_leaf rfl fun {node g l} h => by
    obtain ⟨-, rfl⟩ := initialState_eq_ok_iff.1 h
    exact (best_firstState s g).1
  ask := by
    intro ctx l candidates l' hl h
    obtain ⟨t, -, h⟩ := Outcome.bind_eq_ok_iff.1 h
    obtain ⟨-, rfl⟩ := Prod.mk.inj (Except.ok.inj h)
    exact hl
  tell hl h := (learn_eq_ok h).2.1.ordered hl

theorem Monitor.Tracks.keepsOrder {m : Monitor} {hook : Hook} {name : String}
    {low : List Float → Float} (h : m.Tracks hook name low) : m.KeepsOrder where
  starts := Component.startsOrdered_of_leaf h.children fun hinit => (h.starts hinit).1
  observe _ hl hseen := h.ordered hl hseen

namespace Workflow

/-! ## The fitness that a lane sees -/

/-- The lane with an index, on its own, up to the evaluation of its candidates. -/
def evaluated (w : Workflow) (index : Nat) (lane : Lane) : Traced EvaluatedLane := do
  let lane ← w.observed .preAsk index lane
  let lane ← w.ask index lane
  let lane := { lane with toLane := ← w.observed (.postAsk lane.candidates) index lane.toLane }
  let lane ← w.transformLane lane
  let lane := { lane with toLane := ← w.observed (.preEval lane.candidates) index lane.toLane }
  w.evaluate index lane

/-- The fitness of the lane with an index in a step from a state of the lane. -/
def laneFitness (w : Workflow) (index : Nat) (l : State) : Outcome Tensor := do
  let lane ← laneOf l
  return (← (w.evaluated index lane).outcome).fitness

/-- All numbers that the lane with an index sees as fitness in a count of steps from a batch. -/
def fitnessSeen (w : Workflow) (index : Nat) : (steps : Nat) → State → Outcome (List Float)
  | 0, _ => .ok []
  | steps + 1, s => do
    let lanes ← s.flatten
    match lanes[index]? with
    | none => .ok []
    | some l =>
      let fitness ← w.laneFitness index l
      return fitness.data ++ (← fitnessSeen w index steps (← (w.step s).outcome))

variable {w : Workflow}

/-- A lane that gets through a step sees the fitness of its passage. -/
theorem laneFitness_of_passage {index : Nat} {l after after' : State} {lane : Lane} {p : Passage}
    (hlane : laneOf l = .ok lane) (hp : p.Of w index lane after)
    (h : (w.laneStep index l).outcome = .ok after') : w.laneFitness index l = .ok p.fitness := by
  simp only [laneStep, stages, Pipeline.alone, Traced.outcome_bind, Traced.outcome_liftM, hlane,
    Outcome.ok_bind] at h
  obtain ⟨x₁, h₁, h⟩ := Outcome.bind_eq_ok_iff.1 h
  obtain ⟨x₂, h₂, h⟩ := Outcome.bind_eq_ok_iff.1 h
  obtain ⟨x₃, h₃, h⟩ := Outcome.bind_eq_ok_iff.1 h
  obtain ⟨x₄, h₄, h⟩ := Outcome.bind_eq_ok_iff.1 h
  obtain ⟨x₅, h₅, h⟩ := Outcome.bind_eq_ok_iff.1 h
  obtain ⟨x₆, h₆, -⟩ := Outcome.bind_eq_ok_iff.1 h
  obtain ⟨z₃, hz₃, hx₃⟩ := Outcome.bind_eq_ok_iff.1 h₃
  obtain ⟨z₅, hz₅, hx₅⟩ := Outcome.bind_eq_ok_iff.1 h₅
  obtain rfl := Except.ok.inj hx₃
  obtain rfl := Except.ok.inj hx₅
  have hevaluated : (w.evaluated index lane).outcome = .ok x₆ := by
    simp only [Traced.outcome_ofOutcome] at h₂ h₄
    simp only [evaluated, Traced.outcome_bind, Traced.outcome_liftM, h₁, h₂, hz₃, h₄, hz₅, h₆,
      Outcome.ok_bind]
  rw [laneFitness, hlane, Outcome.ok_bind, hevaluated, Outcome.ok_bind]
  refine congrArg Except.ok ?_
  -- what the passage says of each stage is what the stages gave
  obtain ⟨s₁, a, hpreAsk, ha, hask, hasked⟩ := hp.ask
  obtain ⟨s₅, e, hpreEval, he, hevaluate, -⟩ := hp.evaluate
  obtain ⟨s₁', hpreAsk', rfl⟩ := observed_eq_ok_iff.1 h₁
  rw [hp.start] at hpreAsk
  obtain rfl := Except.ok.inj (hpreAsk.symm.trans hpreAsk')
  obtain ⟨a', ha', candidates, asked, hask', atPostAsk, hasked', rfl⟩ := ask_eq_ok h₂
  obtain rfl := Except.ok.inj (ha.symm.trans ha')
  obtain ⟨rfl, rfl⟩ := Prod.mk.inj (Except.ok.inj (hask.symm.trans hask'))
  obtain rfl := Except.ok.inj (hasked.symm.trans hasked')
  obtain ⟨s₃, hpostAsk, rfl⟩ := observed_eq_ok_iff.1 hz₃
  obtain rfl := Except.ok.inj (hp.transform.1.symm.trans hpostAsk)
  obtain ⟨input, hinput, rfl⟩ := transformLane_eq_ok h₄
  obtain rfl := Except.ok.inj (hp.transform.2.symm.trans hinput)
  obtain ⟨s₅', hpreEval', rfl⟩ := observed_eq_ok_iff.1 hz₅
  obtain rfl := Except.ok.inj (hpreEval.symm.trans hpreEval')
  obtain ⟨e', he', fitness, evaluated, hevaluate', -, -, rfl⟩ := evaluate_eq_ok h₆
  obtain rfl := Except.ok.inj (he.symm.trans he')
  exact (Prod.mk.inj (Except.ok.inj (hevaluate'.symm.trans hevaluate))).1

/-! ## One step -/

/-- What a monitor makes of its local state at a call. -/
theorem watch_eq_ok {index before : Nat} {generation : UInt64} {slot : MonitorSlot}
    {l l' : LocalState} {shown : HookCall × State}
    (h : w.watch index generation before slot l shown = .ok l') :
    slot.monitor.hooks.contains shown.1.hook = false ∧ l' = l ∨
      ∃ ctx seen, (slot.monitor.observe ctx l shown.1).outcome = .ok seen ∧ l' = seen.getD l := by
  rw [watch] at h
  split at h
  · obtain ⟨s, -, h⟩ := Outcome.bind_eq_ok_iff.1 h
    obtain ⟨seen, hseen, h⟩ := Outcome.bind_eq_ok_iff.1 h
    exact Or.inr ⟨_, seen, hseen, (Except.ok.inj h).symm⟩
  · next hhook => exact Or.inl ⟨Bool.eq_false_iff.2 hhook, (Except.ok.inj h).symm⟩

/-- The attribute of a node follows the lowest fitness of a lane: it goes down to the lowest number
that the lane is given in a step. -/
structure TracksAt (w : Workflow) (path name : String) (low : List Float → Float) : Prop where
  isLowest : ∀ xs, IsLowest (low xs) (infinity :: xs)
  step : ∀ {index : Nat} {lane : Lane} {p : Passage} {l r : State},
    w.LaneFrame index lane p l r → ∃ x, l.number path name = .ok x ∧
      r.number path name = .ok (smaller x (low p.fitness.data))

/-- A swarm learns in every step, and only from one number for each particle. -/
theorem learns_of_laneFrame {s : ParticleSwarm} (hw : w.algorithm = s.algorithm) {index : Nat}
    {lane : Lane} {p : Passage} {l r : State} (h : w.LaneFrame index lane p l r) :
    p.fitness.rank = 1 ∧ ∃ x, l.number "algorithm" "global_best_fitness" = .ok x ∧
      r.number "algorithm" "global_best_fitness" = .ok (smaller x (lowest p.fitness.data)) := by
  obtain ⟨a, ha, hask, -, htell, hafter⟩ := h.algorithm
  rw [hw] at hask htell
  obtain ⟨t, -, hask⟩ := Outcome.bind_eq_ok_iff.1 hask
  obtain ⟨-, hasked⟩ := Prod.mk.inj (Except.ok.inj hask)
  obtain ⟨best, hbest, hnext⟩ := ParticleSwarm.best_learn htell
  rw [← hasked] at hbest
  refine ⟨(ParticleSwarm.learn_eq_ok htell).1, best, State.number_eq_ok_iff.2 ⟨a, ha, hbest⟩,
    State.number_eq_ok_iff.2 ⟨_, hafter, hnext⟩⟩

theorem tracksAt_swarm {s : ParticleSwarm} (hw : w.algorithm = s.algorithm) :
    w.TracksAt "algorithm" "global_best_fitness" lowest where
  isLowest := isLowest_argmin
  step h := (learns_of_laneFrame hw h).2

section

variable {hook : Hook} {name : String} {low : List Float → Float} {index before : Nat}
  {generation : UInt64} {slot : MonitorSlot} {l l' : LocalState} {shown : HookCall × State}

theorem number_of_watch_other (h : slot.monitor.Tracks hook name low) (hhook : shown.1.hook ≠ hook)
    (hl : w.watch index generation before slot l shown = .ok l') :
    l'.number name = l.number name := by
  rcases watch_eq_ok hl with ⟨-, rfl⟩ | ⟨ctx, seen, hseen, rfl⟩
  · rfl
  · exact h.others hhook hseen

theorem number_of_watch (h : slot.monitor.Tracks hook name low) (hhook : shown.1.hook = hook)
    {fitness : Tensor} (hfitness : shown.1.fitness = some fitness) (hrank : fitness.rank = 1)
    (hl : w.watch index generation before slot l shown = .ok l') :
    ∃ x, l.number name = .ok x ∧ l'.number name = .ok (smaller x (low fitness.data)) := by
  rcases watch_eq_ok hl with ⟨hnot, -⟩ | ⟨ctx, seen, hseen, rfl⟩
  · rw [hhook, h.subscribes] at hnot
    cases hnot
  · exact h.shown hhook hfitness hrank hseen

/-- A monitor that tracks sees the fitness of a step once. -/
theorem number_of_calls (h : slot.monitor.Tracks hook name low)
    (hhook : hook = .postEval ∨ hook = .preTell) {p : Passage} (hrank : p.fitness.rank = 1)
    (hl : p.calls.foldlM (w.watch index generation before slot) l = .ok l') :
    ∃ x, l.number name = .ok x ∧ l'.number name = .ok (smaller x (low p.fitness.data)) := by
  simp only [Passage.calls, List.foldlM_cons, List.foldlM_nil] at hl
  obtain ⟨l₁, h₁, hl⟩ := Outcome.bind_eq_ok_iff.1 hl
  obtain ⟨l₂, h₂, hl⟩ := Outcome.bind_eq_ok_iff.1 hl
  obtain ⟨l₃, h₃, hl⟩ := Outcome.bind_eq_ok_iff.1 hl
  obtain ⟨l₄, h₄, hl⟩ := Outcome.bind_eq_ok_iff.1 hl
  obtain ⟨l₅, h₅, hl⟩ := Outcome.bind_eq_ok_iff.1 hl
  obtain ⟨l₆, h₆, hl⟩ := Outcome.bind_eq_ok_iff.1 hl
  obtain rfl := Except.ok.inj hl
  rcases hhook with rfl | rfl
  · obtain ⟨x, hx, hnext⟩ := number_of_watch h rfl rfl hrank h₄
    rw [number_of_watch_other h Hook.noConfusion h₃, number_of_watch_other h Hook.noConfusion h₂,
      number_of_watch_other h Hook.noConfusion h₁] at hx
    rw [number_of_watch_other h Hook.noConfusion h₆, number_of_watch_other h Hook.noConfusion h₅]
    exact ⟨x, hx, hnext⟩
  · obtain ⟨x, hx, hnext⟩ := number_of_watch h rfl rfl hrank h₅
    rw [number_of_watch_other h Hook.noConfusion h₄, number_of_watch_other h Hook.noConfusion h₃,
      number_of_watch_other h Hook.noConfusion h₂,
      number_of_watch_other h Hook.noConfusion h₁] at hx
    rw [number_of_watch_other h Hook.noConfusion h₆]
    exact ⟨x, hx, hnext⟩

/-- A monitor that tracks, beside a swarm. -/
theorem tracksAt_monitor {s : ParticleSwarm} (hw : w.algorithm = s.algorithm)
    (hslot : slot ∈ w.monitors) (h : slot.monitor.Tracks hook name low)
    (hhook : hook = .postEval ∨ hook = .preTell) : w.TracksAt slot.name name low where
  isLowest := h.isLowest
  step := by
    intro index lane p l r hframe
    have hrank := (learns_of_laneFrame hw hframe).1
    obtain ⟨j, hj⟩ := List.mem_iff_getElem?.1 hslot
    obtain ⟨a, a', ha, hcalls, hafter⟩ := hframe.monitors j slot hj
    obtain ⟨x, hx, hnext⟩ := number_of_calls h hhook hrank hcalls
    exact ⟨x, State.number_eq_ok_iff.2 ⟨a, ha, hx⟩, State.number_eq_ok_iff.2 ⟨_, hafter, hnext⟩⟩

end

/-! ## Runs -/

/-- The lanes of a batch and of the batch after a step. -/
theorem fitnessSeen_succ {index steps : Nat} {s t l : State} {ls : List State} {fitness : Tensor}
    {rest : List Float} (hls : s.flatten = .ok ls) (hl : ls[index]? = some l)
    (hfitness : w.laneFitness index l = .ok fitness) (ht : (w.step s).outcome = .ok t)
    (hrest : w.fitnessSeen index steps t = .ok rest) :
    w.fitnessSeen index (steps + 1) s = .ok (fitness.data ++ rest) := by
  rw [fitnessSeen, hls, Outcome.ok_bind, hl]
  dsimp only
  rw [hfitness, Outcome.ok_bind, ht, Outcome.ok_bind, hrest]
  rfl

theorem flatten_of_run (hkeeps : w.KeepsOrder) {steps : Nat} :
    ∀ {s t : State} {ls : List State}, s.Ordered → s.flatten = .ok ls →
      (w.run steps s).outcome = .ok t → ∃ ts, t.flatten = .ok ts := by
  induction steps with
  | zero =>
    intro s t ls _ hls h
    obtain rfl := Except.ok.inj h
    exact ⟨ls, hls⟩
  | succ steps ih =>
    intro s t ls hs hls h
    rw [run, Traced.outcome_bind] at h
    obtain ⟨u, hu, h⟩ := Outcome.bind_eq_ok_iff.1 h
    obtain ⟨-, hordered, us, hus, -⟩ := step_lanes hkeeps hs hls hu
    exact ih hordered hus h

/-- In a run, what tracks the lowest fitness of a lane tracks all that the lane sees. -/
theorem exists_fitnessSeen {index : Nat} (hw : w.Assembled) (hkeeps : w.KeepsOrder) {steps : Nat} :
    ∀ {s t r : State} {ts : List State}, s.Ordered → (w.run steps s).outcome = .ok t →
      t.flatten = .ok ts → ts[index]? = some r →
      ∃ ls l seen, s.flatten = .ok ls ∧ ls[index]? = some l ∧
        w.fitnessSeen index steps s = .ok seen ∧
        ∀ {path name : String} {low : List Float → Float} {x : Float} {before : List Float},
          w.TracksAt path name low → l.number path name = .ok x →
            IsLowest x (infinity :: before) →
            ∃ y, r.number path name = .ok y ∧ IsLowest y (infinity :: (before ++ seen)) := by
  -- The induction is on the steps with the first one split off. The fitness seen before `s` is a
  -- parameter, so that what the first step adds can be passed on to the others.
  induction steps with
  | zero =>
    intro s t r ts _ h hts hr
    obtain rfl := Except.ok.inj h
    refine ⟨ts, r, [], hts, hr, rfl, fun {path name low x before} _ hx hlowest => ⟨x, hx, ?_⟩⟩
    rwa [List.append_nil]
  | succ steps ih =>
    intro s t r ts hs h hts hr
    rw [run, Traced.outcome_bind] at h
    obtain ⟨u, hu, h⟩ := Outcome.bind_eq_ok_iff.1 h
    obtain ⟨us, m, rest, hus, hm, hrest, htracked⟩ := ih (hkeeps.step hs hu) h hts hr
    obtain ⟨-, -, ls, us', hls, hus', hlength, hlanes⟩ := step_frame hw hkeeps hs hu
    obtain rfl := Except.ok.inj (hus.symm.trans hus')
    obtain ⟨l, hl⟩ : ∃ l, ls[index]? = some l :=
      ⟨_, List.getElem?_eq_getElem (hlength ▸ (List.getElem?_eq_some_iff.1 hm).1)⟩
    obtain ⟨lane, p, F, hlane, hp, hframe⟩ := hlanes index l m hl hm
    obtain ⟨-, -, us', hus', -, heffect⟩ := step_lanes hkeeps hs hls hu
    obtain rfl := Except.ok.inj (hus.symm.trans hus')
    obtain ⟨F', hF', -⟩ := Outcome.bind_eq_ok_iff.1 (heffect index l m hl hm)
    have hfitness := laneFitness_of_passage hlane hp hF'
    refine ⟨ls, l, _, hls, hl, fitnessSeen_succ hls hl hfitness hu hrest,
      fun {path name low x before} htracks hx hlowest => ?_⟩
    obtain ⟨x', hx', hnext⟩ := htracks.step hframe
    obtain rfl := Except.ok.inj (hx.symm.trans hx')
    obtain ⟨y, hy, hlowest'⟩ :=
      htracked htracks hnext (hlowest.append_infinity (htracks.isLowest p.fitness.data))
    rw [List.append_assoc] at hlowest'
    exact ⟨y, hy, hlowest'⟩

/-! ## The trackers of a workflow -/

/-- The best fitness of a lane as the swarm and two monitors have it. -/
structure Trackers where
  swarm : Float
  evaluation : Float
  fitness : Float

/-- The trackers in a lane, the last two at the nodes of an evaluation monitor and of a fitness
monitor. -/
def trackersOf (evaluation fitness : MonitorSlot) (l : State) : Outcome Trackers := do
  let swarm ← (← l.resolve "algorithm").number "global_best_fitness"
  let best ← EvaluationMonitor.bestFitness (← l.resolve evaluation.name)
  let lowest ← FitnessMonitor.best (← l.resolve fitness.name)
  return ⟨swarm, best, lowest⟩

/-- The trackers are equal, and each is the lowest number of infinity and what was seen. -/
structure Trackers.Agree (b : Trackers) (seen : List Float) : Prop where
  swarm_evaluation : (b.swarm == b.evaluation) = true
  evaluation_fitness : (b.evaluation == b.fitness) = true
  fitness_swarm : (b.fitness == b.swarm) = true
  swarm : IsLowest b.swarm (infinity :: seen)
  evaluation : IsLowest b.evaluation (infinity :: seen)
  fitness : IsLowest b.fitness (infinity :: seen)

/-- No tracker is above what it was before. -/
structure Trackers.NotAbove (b' b : Trackers) : Prop where
  swarm : ¬ b.swarm < b'.swarm
  evaluation : ¬ b.evaluation < b'.evaluation
  fitness : ¬ b.fitness < b'.fitness

section

variable {evaluation fitness : MonitorSlot} {l : State} {x y z : Float}

theorem trackersOf_eq_ok (hx : l.number "algorithm" "global_best_fitness" = .ok x)
    (hy : l.number evaluation.name "best_fitness" = .ok y)
    (hz : l.number fitness.name "best" = .ok z) :
    trackersOf evaluation fitness l = .ok ⟨x, y, z⟩ := by
  obtain ⟨a, ha, hx⟩ := State.number_eq_ok_iff.1 hx
  obtain ⟨e, he, hy⟩ := State.number_eq_ok_iff.1 hy
  obtain ⟨m, hm, hz⟩ := State.number_eq_ok_iff.1 hz
  rw [trackersOf, ha, Outcome.ok_bind, hx, Outcome.ok_bind, he, Outcome.ok_bind,
    EvaluationMonitor.bestFitness, hy, Outcome.ok_bind, hm, Outcome.ok_bind, FitnessMonitor.best,
    hz]
  rfl

theorem agree_of_isLowest {seen : List Float} (hx : IsLowest x (infinity :: seen))
    (hy : IsLowest y (infinity :: seen)) (hz : IsLowest z (infinity :: seen)) :
    Trackers.Agree ⟨x, y, z⟩ seen := ⟨hx.beq hy, hy.beq hz, hz.beq hx, hx, hy, hz⟩

end

/-- In every run of a workflow with a swarm, an evaluation monitor and a fitness monitor, from every
stacking of its first state, the three trackers agree in every lane on the lowest number that the
lane has seen, where what is not a number counts as nothing. None of them goes up in a further
step. -/
theorem trackers_agree {s : ParticleSwarm} {problem : Problem}
    {monitors : List (Option String × Monitor)} {transform : Option SolutionTransform}
    {config : WorkflowConfig} {devices : Option Mesh} {w ready : Workflow} {s₀ : State}
    (hw : Assembly s.algorithm problem monitors transform config devices w)
    (hproblem : problem.KeepsOrder) (hmonitors : ∀ m ∈ monitors, m.2.KeepsOrder)
    (hinit : w.init.outcome = .ok (ready, s₀)) {evaluation fitness : MonitorSlot}
    {c : EvaluationConfig} {listens : Bool} {front : Option Front}
    (hevaluation : evaluation ∈ ready.monitors ∧ evaluation.monitor = .evaluation c listens)
    (hfitness : fitness ∈ ready.monitors ∧ fitness.monitor = .fitness front) {b : State}
    (hb : State.Stacking s₀ b) {steps : Nat} {t : State}
    (ht : (ready.run steps b).outcome = .ok t) :
    ∃ ts, t.flatten = .ok ts ∧ ∀ (i : Nat) (l : State), ts[i]? = some l →
      ∃ seen bests, ready.fitnessSeen i steps b = .ok seen ∧
        trackersOf evaluation fitness l = .ok bests ∧ bests.Agree seen ∧
        ∀ t' : State, (ready.step t).outcome = .ok t' →
          ∃ ts' l' bests', t'.flatten = .ok ts' ∧ ts'[i]? = some l' ∧
            trackersOf evaluation fitness l' = .ok bests' ∧ bests'.NotAbove bests := by
  have hready : Assembly s.algorithm problem monitors transform config devices ready :=
    hw.init hinit
  have hassembled : ready.Assembled := ⟨_, _, _, _, _, _, hready⟩
  have hkeeps := hready.keepsOrder s.keepsOrder hproblem hmonitors
  have hswarm := hready.algorithm_eq.1
  -- each of the three tracks from where it is, and starts from infinity
  have htracks₁ := tracksAt_swarm hswarm
  have hevaluates := hevaluation.2 ▸ EvaluationMonitor.tracks c listens
  have hlooks := hfitness.2 ▸ FitnessMonitor.tracks front
  have htracks₂ := tracksAt_monitor hswarm hevaluation.1 hevaluates (.inl rfl)
  have htracks₃ := tracksAt_monitor hswarm hfitness.1 hlooks (.inr rfl)
  have hplanted : w.Planted := Assembled.planted ⟨_, _, _, _, _, _, hw⟩
  have hinit₁ : s₀.number "algorithm" "global_best_fitness" = .ok infinity := by
    refine hplanted.number_of_init_algorithm hinit fun {node g l} hl => ?_
    rw [hw.algorithm_eq.1] at hl
    obtain ⟨-, rfl⟩ := ParticleSwarm.initialState_eq_ok_iff.1 hl
    exact s.best_firstState g
  obtain rfl := init_eq_ready hinit
  have hinit₂ := hplanted.number_of_init_monitor hinit hevaluation.1 hevaluates.setup
    hevaluates.starts
  have hinit₃ := hplanted.number_of_init_monitor hinit hfitness.1 hlooks.setup hlooks.starts
  obtain ⟨hordered, hdims⟩ := hw.ordered_of_init s.keepsOrder hproblem hmonitors hinit
  obtain ⟨hb, ls, hls, hsame⟩ := hb.lanes hordered hdims
  have htordered := hkeeps.run hb ht
  obtain ⟨ts, hts⟩ := flatten_of_run hkeeps hb hls ht
  refine ⟨ts, hts, fun i l hl => ?_⟩
  obtain ⟨ls', l₀, seen, hls', hl₀, hseen, htracked⟩ :=
    exists_fitnessSeen hassembled hkeeps hb ht hts hl
  obtain rfl := Except.ok.inj (hls.symm.trans hls')
  have hsame₀ := hsame l₀ (List.mem_of_getElem? hl₀)
  have hfirst := IsLowest.singleton isNaN_infinity
  obtain ⟨x, hx, hxlowest⟩ := htracked htracks₁ ((hsame₀.number _ _).trans hinit₁) hfirst
  obtain ⟨y, hy, hylowest⟩ := htracked htracks₂ ((hsame₀.number _ _).trans hinit₂) hfirst
  obtain ⟨z, hz, hzlowest⟩ := htracked htracks₃ ((hsame₀.number _ _).trans hinit₃) hfirst
  refine ⟨seen, ⟨x, y, z⟩, hseen, trackersOf_eq_ok hx hy hz,
    agree_of_isLowest hxlowest hylowest hzlowest, fun t' ht' => ?_⟩
  obtain ⟨-, -, ts', us, hts', hus, hlength, hlanes⟩ := step_frame hassembled hkeeps htordered ht'
  obtain rfl := Except.ok.inj (hts.symm.trans hts')
  obtain ⟨l', hl'⟩ : ∃ l', us[i]? = some l' :=
    ⟨_, List.getElem?_eq_getElem (hlength ▸ (List.getElem?_eq_some_iff.1 hl).1)⟩
  obtain ⟨lane, p, F, -, -, hframe⟩ := hlanes i l l' hl hl'
  obtain ⟨x₁, hx₁, hx'⟩ := htracks₁.step hframe
  obtain ⟨y₁, hy₁, hy'⟩ := htracks₂.step hframe
  obtain ⟨z₁, hz₁, hz'⟩ := htracks₃.step hframe
  obtain rfl := Except.ok.inj (hx.symm.trans hx₁)
  obtain rfl := Except.ok.inj (hy.symm.trans hy₁)
  obtain rfl := Except.ok.inj (hz.symm.trans hz₁)
  exact ⟨us, l', _, hus, hl', trackersOf_eq_ok hx' hy' hz', not_lt_smaller hxlowest.isNaN,
    not_lt_smaller hylowest.isNaN, not_lt_smaller hzlowest.isNaN⟩

/-- A function of rows keeps nothing. -/
theorem keepsOrder_ofRows (f : List Float → Float) : (Problem.ofRows f).KeepsOrder where
  starts := Component.startsOrdered_of_leaf rfl fun h => by
    obtain rfl := Except.ok.inj h
    exact ⟨List.Pairwise.nil, trivial⟩
  evaluate := by
    intro ctx l candidates fitness l' hl h
    simp only [Problem.ofRows, Traced.outcome_bind, Traced.outcome_liftM] at h
    obtain ⟨t, -, h⟩ := Outcome.bind_eq_ok_iff.1 h
    obtain ⟨m, -, h⟩ := Outcome.bind_eq_ok_iff.1 h
    obtain ⟨-, rfl⟩ := Prod.mk.inj (Except.ok.inj h)
    exact hl

/-- Two lanes of a swarm of two particles, two steps from their start. -/
theorem trackers_agree_pair :
    ∃ s, ParticleSwarm.new [0] [1] 2 = .ok s ∧ ∃ w ready s₀ b t evaluation fitness,
      build s.algorithm .sphere [(none, .evaluation {} true), (some "fitness", .fitness none)] none
        {} = .ok w ∧
      w.init.outcome = .ok (ready, s₀) ∧ State.stack [s₀, s₀] = .ok b ∧
      (ready.run 2 b).outcome = .ok t ∧
      evaluation ∈ ready.monitors ∧ evaluation.monitor = .evaluation {} true ∧
      fitness ∈ ready.monitors ∧ fitness.monitor = .fitness none ∧
      ∃ ts, t.flatten = .ok ts ∧ ∀ (i : Nat) (l : State), ts[i]? = some l →
        ∃ seen bests, ready.fitnessSeen i 2 b = .ok seen ∧
          trackersOf evaluation fitness l = .ok bests ∧ bests.Agree seen := by
  obtain ⟨t, h⟩ := Outcome.exists_eq_ok (o := do
    let s ← ParticleSwarm.new [0] [1] 2
    let w ← build s.algorithm .sphere
      [(none, .evaluation {} true), (some "fitness", .fitness none)] none {}
    let first ← w.init.outcome
    let b ← State.stack [first.2, first.2]
    (first.1.run 2 b).outcome) (by decide +kernel)
  obtain ⟨s, hs, h⟩ := Outcome.bind_eq_ok_iff.1 h
  obtain ⟨w, hw, h⟩ := Outcome.bind_eq_ok_iff.1 h
  obtain ⟨⟨ready, s₀⟩, hinit, h⟩ := Outcome.bind_eq_ok_iff.1 h
  obtain ⟨b, hb, hrun⟩ := Outcome.bind_eq_ok_iff.1 h
  have hassembly : Assembly _ _ _ _ _ _ w := .build hw
  have hslots := hassembly.monitors
  obtain ⟨evaluation, others, hmonitors, hevaluation, hothers⟩ := List.map_eq_cons_iff.1 hslots
  obtain ⟨fitness, rest, rfl, hfitness, -⟩ := List.map_eq_cons_iff.1 hothers
  obtain rfl := init_eq_ready hinit
  have hfirst : evaluation ∈ w.monitors := hmonitors ▸ List.mem_cons_self
  have hsecond : fitness ∈ w.monitors :=
    hmonitors ▸ List.mem_cons_of_mem _ List.mem_cons_self
  have hkeeps : ∀ m ∈ [((none : Option String), Monitor.evaluation {} true),
      (some "fitness", .fitness none)], m.2.KeepsOrder :=
    List.forall_mem_cons.2 ⟨(EvaluationMonitor.tracks {} true).keepsOrder,
      List.forall_mem_singleton.2 (FitnessMonitor.tracks none).keepsOrder⟩
  have hboth : ∀ x ∈ [s₀, s₀], State.Stacking s₀ x :=
    List.forall_mem_cons.2 ⟨.single, List.forall_mem_singleton.2 .single⟩
  obtain ⟨ts, hts, hagree⟩ := trackers_agree hassembly (keepsOrder_ofRows sumOfSquares) hkeeps hinit
    ⟨hfirst, (Prod.mk.inj hevaluation).2⟩ ⟨hsecond, (Prod.mk.inj hfitness).2⟩ (.stack hboth hb) hrun
  refine ⟨s, hs, w, _, s₀, b, t, evaluation, fitness, hw, hinit, hb, hrun, hfirst,
    (Prod.mk.inj hevaluation).2, hsecond, (Prod.mk.inj hfitness).2, ts, hts, fun i l hl => ?_⟩
  obtain ⟨seen, bests, hseen, hbests, hlane, -⟩ := hagree i l hl
  exact ⟨seen, bests, hseen, hbests, hlane⟩

end Workflow

end Lockstep
