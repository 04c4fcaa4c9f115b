import Lockstep.Problem.Benchmark
import Lockstep.Proofs.Algorithm.ParticleSwarm
import Lockstep.Proofs.Monitor.Records

/-!
# Reference workflows never get stuck

A reference workflow has a swarm as its algorithm, a benchmark as its problem and monitors that
expect the shapes of the swarm's candidates. It can be built and started, and the first state can be
stacked to any batch axes behind which its leaves could be arrays (`Stacking`). From there on, no
series of steps and of writes to parameters fails or changes the structure of the state
(`never_stuck_of_reference`).
-/

namespace Lockstep

open Outcome (Gives)

/-! ## Benchmarks -/

/-- A function of rows gives one number for each candidate of a matrix. -/
theorem Problem.joins_ofRows (f : List Float → Float) (n d : Nat) :
    (Problem.ofRows f).Joins (.dense n d) := by
  refine ⟨rfl, .layered [] [], ?_, ?_, ?_⟩
  · exact Component.starts_of_mutable nofun rfl ⟨nofun, List.nodup_nil⟩ nofun fun node g =>
      ⟨[], rfl, .nil⟩
  · rintro _ ⟨⟨shape, data, hfill⟩, rfl, hshape⟩
    obtain rfl : shape = [n, d] := hshape
    rfl
  · rintro most ctx l _ hl ⟨t, rfl, ht⟩
    simp only [Problem.ofRows, Traced.outcome_bind, Traced.outcome_liftM, Candidates.asDense,
      Outcome.ok_bind]
    refine (Tensor.gives_asMatrix ht _).bind fun m hm => .ok ⟨?_, hl⟩
    exact Tensor.shape_vector_of_length ((List.length_map _).trans hm.1)

/-! ## Stackings -/

/-- The state, and whatever stacks of its stackings are. -/
inductive State.Stacking (s : State) : State → Prop
  | single : Stacking s s
  | stack {xs : List State} {b : State} : (∀ x ∈ xs, Stacking s x) → State.stack xs = .ok b →
      Stacking s b

namespace State

variable {plan : Plan} {most : Nat} {placement : Table Directive} {s b : State}

/-- Stackings of a state follow the plan that it follows, have no empty axes, and are of shapes that
arrays can have. -/
theorem Stacking.follows (h : Stacking s b) (hs : s.Follows plan most [] placement) :
    0 < volume b.batchDims ∧ (b.batchDims ≠ [] → plan.FitsArrays b.batchDims) ∧
      ∃ placement', b.Follows plan most b.batchDims placement' := by
  induction h with
  | single =>
    exact ⟨by rw [hs.batchDims]; exact Nat.one_pos, fun hne => absurd hs.batchDims hne, placement,
      hs.batchDims ▸ hs⟩
  | @stack xs b _ hstack ih =>
    cases xs with
    | nil => cases hstack
    | cons x others =>
      obtain ⟨hpos, -, placement', hx⟩ := ih x List.mem_cons_self
      have hsame := (stackOnto_eq_ok_iff.1 hstack).1
      -- only states that are placed alike can be stacked
      have hall : ∀ y ∈ x :: others, y.Follows plan most x.batchDims placement' := by
        refine List.forall_mem_cons.2 ⟨hx, fun o ho => ?_⟩
        obtain ⟨-, -, placement'', hfollows⟩ := ih o (List.mem_cons_of_mem _ ho)
        obtain ⟨hdims, -, hplacement⟩ := hsame o ho
        rw [← hx.placement, ← hplacement, hfollows.placement, ← hdims]
        exact hfollows
      have hordered : ∀ y ∈ x :: others, y.Ordered := fun y hy => (hall y hy).ordered
      -- they were stacked, so arrays can have the shapes that their leaves got, and their axes
      -- moved
      have hfits := FitsArrays.of_stack hordered hstack x List.mem_cons_self
      have hroom := FitsBatch.of_stack hordered hstack x List.mem_cons_self
      have harrays := hx.fitsArrays (everywhere_iff.1 hfits).1
      obtain ⟨r, hr, hfollows⟩ := Follows.stack (List.cons_ne_nil x others) harrays
        (hx.placement ▸ (everywhere_iff.1 hroom).1) hall
      obtain rfl := Except.ok.inj (hr.symm.trans hstack)
      rw [hfollows.batchDims, volume_cons]
      exact ⟨Nat.mul_pos (Nat.succ_pos _) hpos, fun _ => harrays, _, hfollows⟩

/-- A state that follows a plan has stackings with any batch axes that are not empty, behind which
its leaves could be arrays and its split axes have a number. -/
theorem exists_stacking (hs : s.Follows plan most [] placement) {dims : List Nat}
    (hdims : 0 ∉ dims) (harrays : plan.FitsArrays dims)
    (hroom : PlacementFitsBehind dims.length placement) :
    ∃ b, Stacking s b ∧ b.Follows plan most dims
      (placement.mapValues (Nat.iterate Directive.next dims.length)) := by
  induction dims with
  | nil =>
    have hid : placement.mapValues (Nat.iterate Directive.next 0) = placement :=
      Table.mapValues_eq_self_iff.2 fun _ _ => rfl
    exact ⟨s, .single, hs.batchDims, hs.nodes, hs.placement.trans hid.symm⟩
  | cons count dims ih =>
    rw [List.mem_cons, not_or] at hdims
    obtain ⟨b, hb, hfollows⟩ := ih hdims.2 harrays.tail (hroom.mono (Nat.le_succ _))
    have hne : List.replicate count b ≠ [] := by
      rw [ne_eq, List.replicate_eq_nil_iff]
      exact Ne.symm hdims.1
    have hcount : (List.replicate count b).length = count := List.length_replicate
    rw [List.length_cons, Nat.add_comm] at hroom
    obtain ⟨r, hr, hstacked⟩ := Follows.stack hne (hcount ▸ harrays)
      (fitsBehind_iterate_next hroom) fun x hx => List.eq_of_mem_replicate hx ▸ hfollows
    rw [hcount, Table.mapValues_mapValues] at hstacked
    refine ⟨r, .stack (fun x hx => List.eq_of_mem_replicate hx ▸ hb) hr, ?_⟩
    simp only [List.length_cons, Function.iterate_succ', Function.comp_def]
    exact hstacked

end State

/-! ## Reference workflows -/

/-- An evaluation monitor that expects the shapes it is shown and whose history can be an array, or
a fitness monitor. -/
inductive Monitor.IsReference (count dim : Nat) : Monitor → Prop
  | evaluation {c : EvaluationConfig} (listens : Bool) : c.Expects count dim →
      Tensor.IsArrayShape [c.historyLength] → IsReference count dim (.evaluation c listens)
  | fitness (front : Option Front) : IsReference count dim (.fitness front)

theorem Monitor.IsReference.joins {count dim : Nat} {m : Monitor} (h : m.IsReference count dim)
    (hsize : Tensor.IsArrayShape [count, dim]) : m.Joins (.dense count dim) := by
  cases h with
  | evaluation listens hc hhistory =>
    exact EvaluationMonitor.joins hc (hc.isArrayShape_extraShapes hsize hhistory) listens
  | fitness front => exact FitnessMonitor.joins front count dim

namespace Workflow

/-- Naming monitors changes none of them. -/
theorem map_nameMonitors (monitors : List (Option String × Monitor)) :
    ∀ {unnamed : Nat}, (nameMonitors unnamed monitors).map Prod.snd = monitors.map Prod.snd := by
  induction monitors with
  | nil => exact rfl
  | cons m monitors ih =>
    intro unnamed
    obtain ⟨name, m⟩ := m
    cases name with
    | none => exact congrArg (List.cons m) ih
    | some name => exact congrArg (List.cons m) ih

/-- A reference workflow whose arrays fit can be built and started. From every stacking of its first
state, every series of steps and of writes to parameters succeeds, as long as the evaluations of a
lane can be counted exactly, and ends in a state of the same structure as the one it started from.
The count of batch axes is a word of 64 bits; there are stackings along any batch axes behind which
the leaves could be arrays. -/
theorem never_stuck_of_reference {lower upper : List Float} {popSize : Nat} {s : ParticleSwarm}
    (hs : ParticleSwarm.new lower upper popSize = .ok s)
    (hsize : Tensor.IsArrayShape [popSize, lower.length]) {problem : Problem}
    (hproblem : problem = .sphere ∨ ∃ k, problem = .ackley k)
    {monitors : List (Option String × Monitor)}
    (hmonitors : ∀ m ∈ monitors, m.2.IsReference popSize lower.length)
    (hnames : Path.NamesFit ("algorithm" :: "problem" :: (nameMonitors 0 monitors).map Prod.fst))
    {config : WorkflowConfig} (hname : Text.isBlank config.name = false)
    (hmesh : ∀ mesh ∈ config.devices, mesh.devices.length ∣ popSize) :
    ∃ w ready s₀, build s.algorithm problem monitors none config = .ok w ∧
      w.init.outcome = .ok (ready, s₀) ∧
      (∀ dims, 0 ∉ dims → dims.length < UInt64.size → s₀.FitsArrays dims →
        ∃ b, State.Stacking s₀ b ∧ b.batchDims = dims) ∧
      ∀ b, State.Stacking s₀ b → b.batchDims.length < UInt64.size →
        ∀ actions, (∀ a ∈ actions, a.Allowed ready b) →
          actions.countP Action.isStep * popSize < 2 ^ 53 →
          ∃ t, (ready.act actions b).outcome = .ok t ∧ b.SameStructure t := by
  obtain ⟨hformed, hdim, rfl⟩ := ParticleSwarm.formed_of_new hs
  rw [← hdim] at hmonitors hsize
  -- All components join one contract: dense matrices of candidates, a row for each particle. What
  -- joins it can be built and started, and the plan of the first state is what every step keeps.
  have hproblem : problem.Joins (.dense s.popSize s.dim) := by
    rcases hproblem with rfl | ⟨k, rfl⟩
    · exact Problem.joins_ofRows ..
    · exact Problem.joins_ofRows ..
  have hmonitors : ∀ m ∈ nameMonitors 0 monitors, m.2.Joins (.dense s.popSize s.dim) := by
    intro m hm
    have hm' : m.2 ∈ monitors.map Prod.snd := by
      rw [← map_nameMonitors monitors]
      exact List.mem_map_of_mem hm
    obtain ⟨m', hm', hsame⟩ := List.mem_map.1 hm'
    exact hsame ▸ (hmonitors m' hm').joins hsize
  obtain ⟨w, hw, plan, hstartable⟩ := gives_build (ParticleSwarm.joins hformed hsize) hproblem
    hmonitors hnames hname hformed.particles hmesh
  obtain ⟨⟨ready, s₀⟩, hinit, hprogresses, placement, hs₀, hroom⟩ := hstartable.gives_init
  refine ⟨w, ready, s₀, hw, hinit, fun dims hdims hrank hfits => ?_,
    fun b hb hrank actions ha hcount => ?_⟩
  · have harrays := hs₀.fitsArrays (State.everywhere_iff.1 hfits).1
    rw [List.append_nil] at harrays
    obtain ⟨b, hb, hfollows⟩ := State.exists_stacking hs₀ hdims harrays (hroom _ hrank)
    exact ⟨b, hb, hfollows.batchDims⟩
  · obtain ⟨hpos, harrays, placement', hfollows⟩ := hb.follows hs₀
    have hexact : 0 + actions.countP Action.isStep * s.popSize < 2 ^ 53 := by
      rwa [Nat.zero_add]
    obtain ⟨t, ht, most, placement'', htfollows⟩ :=
      hprogresses.act hpos harrays hrank hfollows ha hexact hfollows
    exact ⟨t, ht, hfollows.sameStructure htfollows⟩

/-- A swarm of two particles on two devices, watched by an evaluation monitor that keeps everything
and by a fitness monitor. -/
theorem never_stuck_of_reference_pair :
    ∃ s, ParticleSwarm.new [0] [1] 2 = .ok s ∧
      ∃ w ready s₀, build s.algorithm .sphere
          [(none, .evaluation ⟨some 1, some (2, 1), 3, some 2⟩ true),
            (some "fitness", .fitness none)] none { devices := some (.gpus 2) } = .ok w ∧
        w.init.outcome = .ok (ready, s₀) ∧
        (∀ dims, 0 ∉ dims → dims.length < UInt64.size → s₀.FitsArrays dims →
          ∃ b, State.Stacking s₀ b ∧ b.batchDims = dims) ∧
        ∀ b, State.Stacking s₀ b → b.batchDims.length < UInt64.size →
          ∀ actions, (∀ a ∈ actions, a.Allowed ready b) →
            actions.countP Action.isStep * 2 < 2 ^ 53 →
            ∃ t, (ready.act actions b).outcome = .ok t ∧ b.SameStructure t := by
  obtain ⟨s, hs⟩ := Outcome.exists_eq_ok
    (show (ParticleSwarm.new [0] [1] 2).toOption.isSome = true by decide +kernel)
  have hexpects : EvaluationConfig.Expects ⟨some 1, some (2, 1), 3, some 2⟩ 2 1 :=
    ⟨by rintro _ ⟨⟩; rfl, by rintro _ ⟨⟩; rfl⟩
  refine ⟨s, hs, never_stuck_of_reference hs (by decide) (.inl rfl) ?_ ?_ (by decide) ?_⟩
  · exact List.forall_mem_cons.2
      ⟨.evaluation true hexpects (by decide), List.forall_mem_singleton.2 (.fitness none)⟩
  · change Path.NamesFit ["algorithm", "problem", "monitor", "fitness"]
    decide
  · rintro _ ⟨⟩
    decide

/-- A swarm of more particles than an array can hold is accepted and built, and cannot be
started. -/
theorem vast_swarm_cannot_start :
    ∃ s w, ParticleSwarm.new [0] [1] 9223372036854775808 = .ok s ∧
      build s.algorithm .sphere [] none { seed := 1 } = .ok w ∧
      w.init.outcome = .error (.abort .arraySize) := by
  obtain ⟨w, h⟩ := Outcome.exists_eq_ok (o := do
    let s ← ParticleSwarm.new [0] [1] 9223372036854775808
    let w ← build s.algorithm .sphere [] none { seed := 1 }
    match w.init.outcome with
      | .error (.abort .arraySize) => return w
      | _ => .error (.abort .missingRow)) (by decide +kernel)
  obtain ⟨s, hs, h⟩ := Outcome.bind_eq_ok_iff.1 h
  obtain ⟨v, hv, h⟩ := Outcome.bind_eq_ok_iff.1 h
  refine ⟨s, v, hs, hv, ?_⟩
  split at h
  · assumption
  · cases h

end Workflow

end Lockstep
