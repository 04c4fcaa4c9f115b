import Lockstep.Proofs.Component.Start
import Lockstep.Proofs.Workflow.Build
import Lockstep.Proofs.Workflow.Progress

/-!
# Workflows that can be built and started

Components join a contract when each of them starts as a plan says and keeps to the contract from
then on. Such components, under names that fit, can be built to a workflow that can be started
(`Workflow.gives_build`). Its first state follows a plan from which steps cannot fail
(`Workflow.Startable.gives_init`).
-/

namespace Lockstep

open Outcome (Gives)
open Lockstep.Random

/-- The algorithm starts as a plan says, and keeps to the plan and the contract. -/
def Algorithm.Joins (a : Algorithm) (K : Contract) : Prop := a.component.Joins K.count (a.Keeps K)

/-- The problem starts as a plan says, and keeps to the plan and the contract. -/
def Problem.Joins (b : Problem) (K : Contract) : Prop := b.component.Joins K.count (b.Keeps K)

/-- The monitor starts as a plan says, and keeps to the plan and the contract. -/
def Monitor.Joins (m : Monitor) (K : Contract) : Prop := m.component.Joins K.count (m.Keeps K)

namespace Workflow

/-- The workflow can be started, with a first state that follows a plan. Once it is started, it
keeps to the plan. -/
structure Startable (w : Workflow) (plan : Plan) (K : Contract) : Prop where
  initial : Gives (State.Follows plan 0 [] [])
    (w.tree.initialState w.component (Key.ofSeed w.config.seed))
  outermost : ∀ spec ∈ w.placement, ∀ e ∈ spec.splitAxes, e.2 = 0
  progresses : ({ w with ready := true } : Workflow).Progresses plan (Key.ofSeed w.config.seed) K

variable {K : Contract} {plan : Plan}

/-! ## The root -/

theorem starts_componentOf (seed : UInt64) (algorithm : Algorithm) (problem : Problem)
    (monitors : List (String × Monitor)) (n : Nat) :
    (componentOf seed algorithm problem monitors).Starts (rootPlan (Key.ofSeed seed)) n := by
  refine Component.starts_of_mutable ?_ rfl ?_ ?_ fun node g =>
    ⟨[(generationAttribute, .tensor (.scalar 0)),
      (keyAttribute, .tensor (Key.ofSeed seed).toTensor)], ?_, .cons LeafPlan.fits_zero
        (.cons ⟨rfl, _, rfl, LeafPlan.fits_fixed.2 rfl⟩ .nil)⟩
  · exact List.forall_mem_cons.2 ⟨rfl, List.forall_mem_singleton.2 rfl⟩
  · change Path.NamesFit [generationAttribute, keyAttribute]
    decide
  · exact List.forall_mem_cons.2 ⟨nofun, List.forall_mem_singleton.2 nofun⟩
  · simp only [componentOf, LocalState.setNumber, LocalState.setTensor, Table.ofList, List.foldl]

/-- The components below the root, with what they keep to. -/
def childrenOf (K : Contract) (algorithm : Algorithm) (problem : Problem)
    (monitors : List (String × Monitor)) : List Tree.Child :=
  ⟨"algorithm", algorithm.component, algorithm.Keeps K⟩ ::
    ⟨"problem", problem.component, problem.Keeps K⟩ ::
    monitors.map fun m => ⟨m.1, m.2.component, m.2.Keeps K⟩

section

variable (algorithm : Algorithm) (problem : Problem) {monitors : List (String × Monitor)}

theorem children_componentOf (seed : UInt64) :
    (componentOf seed algorithm problem monitors).children =
      (childrenOf K algorithm problem monitors).map fun c => (c.name, c.component) := by
  rw [childrenOf, List.map_cons, List.map_cons, List.map_map]
  rfl

theorem names_childrenOf : (childrenOf K algorithm problem monitors).map Tree.Child.name =
    "algorithm" :: "problem" :: monitors.map Prod.fst := by
  rw [childrenOf, List.map_cons, List.map_cons, List.map_map]
  rfl

theorem mem_childrenOf {m : String × Monitor} (hm : m ∈ monitors) :
    ⟨m.1, m.2.component, m.2.Keeps K⟩ ∈ childrenOf K algorithm problem monitors := by
  refine List.mem_cons_of_mem _ (List.mem_cons_of_mem _ ?_)
  exact List.mem_map.2 ⟨m, hm, rfl⟩

variable {algorithm problem} in
theorem joins_childrenOf (halgorithm : algorithm.Joins K) (hproblem : problem.Joins K)
    (hmonitors : ∀ m ∈ monitors, m.2.Joins K) :
    ∀ c ∈ childrenOf K algorithm problem monitors, c.component.Joins K.count c.expected := by
  refine List.forall_mem_cons.2 ⟨halgorithm, List.forall_mem_cons.2 ⟨hproblem, fun c hc => ?_⟩⟩
  obtain ⟨m, hm, rfl⟩ := List.mem_map.1 hc
  exact hmonitors m hm

end

/-! ## Building -/

/-- Monitors that have places in the tree get slots there. -/
theorem gives_placeMonitors {tree : Tree} {monitors : List (String × Monitor)}
    (hplaces : ∀ m ∈ monitors, Gives (fun node => node.path = m.1) (tree.context m.1))
    (hplan : ∀ m ∈ monitors, ∃ p, plan.get? m.1 = some p ∧ m.2.Keeps K p) :
    Gives (fun slots => slots.map (fun slot => (slot.name, slot.monitor)) = monitors ∧
        slots.map (fun slot => slot.node.path) = monitors.map Prod.fst ∧
        ∀ slot ∈ slots, ∃ p, plan.get? slot.node.path = some p ∧ slot.monitor.Keeps K p)
      (placeMonitors tree monitors) := by
  obtain ⟨slots, hslots, -⟩ := Gives.mapM fun m hm =>
    (hplaces m hm).bind fun c _ => Gives.ok (P := fun _ => True) trivial
  obtain ⟨hmonitors, hpaths⟩ := placeMonitors_eq_ok hslots
  refine ⟨slots, hslots, hmonitors, ?_, fun slot hslot => ?_⟩
  · rw [← hmonitors, List.map_map]
    exact List.map_congr_left hpaths
  have hm : (slot.name, slot.monitor) ∈ monitors := by
    rw [← hmonitors]
    exact List.mem_map_of_mem (f := fun slot : MonitorSlot => (slot.name, slot.monitor)) hslot
  rw [hpaths slot hslot]
  exact hplan _ hm

/-- A mesh that can share a population evenly is not empty. -/
theorem validate_eq_ok {config : WorkflowConfig} {n : Nat}
    (hname : Text.isBlank config.name = false) (hn : 0 < n)
    (hmesh : ∀ mesh ∈ config.devices, mesh.devices.length ∣ n) :
    config.validate = .ok () := by
  rw [WorkflowConfig.validate, hname, if_neg (by decide)]
  split
  · next hdevices =>
    -- nothing but 0 is a multiple of 0
    have hzero := Nat.eq_zero_of_zero_dvd (hmesh _ hdevices)
    omega
  · rfl

/-- A workflow whose components have their places in a tree can be started. -/
theorem startable {w : Workflow}
    (htree : w.tree.Carries w.component (rootPlan (Key.ofSeed w.config.seed))
      (childrenOf K w.algorithm w.problem (w.monitors.map fun s => (s.name, s.monitor))) K.count
      plan)
    (halgorithm : w.algorithmNode.path = "algorithm") (hproblem : w.problemNode.path = "problem")
    (hcount : 0 < K.count)
    (hmonitors : ∀ slot ∈ w.monitors, ∃ p, plan.get? slot.node.path = some p ∧
      slot.monitor.Keeps K p)
    (hdistinct : (w.monitors.map fun slot => slot.node.path).Nodup)
    (htransform : w.transform = none)
    (hplacement : ∀ spec ∈ w.placement, ∃ mesh : Mesh, mesh.devices.length ∣ K.count ∧
      spec = populationPlacement w.tree mesh) : w.Startable plan K where
  initial := htree.initial _
  outermost := fun spec hspec e he => by
    obtain ⟨mesh, -, rfl⟩ := hplacement spec hspec
    exact (htree.declares.population e (Table.mem_of_mem_ofList he)).1
  progresses := {
    ready := rfl
    evaluates := hcount
    root := htree.top
    nodes := fun node hnode => by
      obtain ⟨p, hp, -⟩ := htree.declares.planned node hnode
      exact ⟨p, hp⟩
    algorithm := by
      rw [halgorithm]
      exact htree.children _ List.mem_cons_self
    problem := by
      rw [hproblem]
      exact htree.children _ (List.mem_cons_of_mem _ List.mem_cons_self)
    monitors := hmonitors
    distinct := hdistinct
    transform := htransform
    placement := fun spec hspec rank hrank => by
      obtain ⟨mesh, hdvd, rfl⟩ := hplacement spec hspec
      exact htree.declares.splits hdvd hrank
    parameters := htree.declares.parameters }

/-- Components that join a contract, under names that fit, make a workflow that can be started. -/
theorem gives_build {algorithm : Algorithm} {problem : Problem}
    {monitors : List (Option String × Monitor)} {config : WorkflowConfig}
    (halgorithm : algorithm.Joins K) (hproblem : problem.Joins K)
    (hmonitors : ∀ m ∈ nameMonitors 0 monitors, m.2.Joins K)
    (hnames : Path.NamesFit ("algorithm" :: "problem" :: (nameMonitors 0 monitors).map Prod.fst))
    (hname : Text.isBlank config.name = false) (hcount : 0 < K.count)
    (hmesh : ∀ mesh ∈ config.devices, mesh.devices.length ∣ K.count) :
    Gives (fun w => ∃ plan, w.Startable plan K)
      (build algorithm problem monitors none config) := by
  rw [build, validate_eq_ok hname hcount hmesh, Outcome.ok_bind]
  dsimp only
  generalize nameMonitors 0 monitors = named at hmonitors hnames
  have hnodup := (List.nodup_cons.1 (List.nodup_cons.1 hnames.2).2).2
  rw [← names_childrenOf algorithm problem] at hnames
  -- the tree, the slots of the monitors, the two contexts and at last the devices, as it is built
  refine (Tree.gives_build (children_componentOf algorithm problem config.seed)
    (starts_componentOf ..) (joins_childrenOf halgorithm hproblem hmonitors) hnames).bind ?_
  rintro tree ⟨plan, htree⟩
  refine (gives_placeMonitors (fun m hm => htree.context _ (mem_childrenOf _ _ hm)) fun m hm =>
    htree.children _ (mem_childrenOf _ _ hm)).bind ?_
  rintro slots ⟨hslots, hpaths, hkeeps⟩
  rw [← hpaths] at hnodup
  refine (htree.context _ List.mem_cons_self).bind fun a ha => ?_
  refine (htree.context _ (List.mem_cons_of_mem _ List.mem_cons_self)).bind fun b hb => ?_
  rw [← hslots] at htree
  cases hdevices : config.devices with
  | none => exact .ok ⟨plan, startable htree ha hb hcount hkeeps hnodup rfl nofun⟩
  | some mesh =>
    have hdvd := hmesh mesh hdevices
    have hne : mesh.devices ≠ [] := by
      rintro hnone
      rw [hnone] at hdvd
      exact absurd (Nat.eq_zero_of_zero_dvd hdvd) (Nat.ne_of_gt hcount)
    dsimp only
    rw [enableDevices, if_neg hne]
    refine .ok ⟨plan, startable htree ha hb hcount hkeeps hnodup rfl ?_⟩
    rintro _ ⟨⟩
    exact ⟨mesh, hdvd, rfl⟩

/-! ## Starting -/

/-- The first state follows a plan to which the started workflow keeps. Nothing is counted in it
yet, and its split axes have room for any count of batch axes that is a word. -/
theorem Startable.gives_init {w : Workflow} (h : w.Startable plan K) :
    Gives (fun r => r.1.Progresses plan (Key.ofSeed w.config.seed) K ∧
      ∃ placement, r.2.Follows plan 0 [] placement ∧
        ∀ axes < UInt64.size, PlacementFitsBehind axes placement) w.init.outcome := by
  simp only [init, Traced.outcome_bind, Traced.outcome_liftM]
  refine h.initial.bind fun s hs => ?_
  have hsetup : HookCall.setup.Shows K := trivial
  obtain ⟨s, hseen, hs⟩ := h.progresses.dispatch hsetup (Nat.two_pow_pos 53) hs
  rw [show (dispatch .setup 0 0 w.monitors _).outcome = .ok s from hseen, Outcome.ok_bind]
  obtain ⟨t, ht, placement, hfollows⟩ := h.progresses.place (by decide) hs
  rw [show w.place s = .ok t from ht, Outcome.ok_bind]
  refine .ok ⟨h.progresses, placement, hfollows, fun axes haxes => ?_⟩
  rw [← hfollows.placement]
  have hnone : PlacementFitsBehind axes s.placement := by
    rw [hs.placement]
    exact nofun
  rw [Workflow.place] at ht
  cases hspec : w.placement with
  | none =>
    rw [show ({ w with ready := true } : Workflow).placement = none from hspec] at ht
    obtain rfl := Except.ok.inj ht
    exact hnone
  | some spec =>
    rw [show ({ w with ready := true } : Workflow).placement = some spec from hspec] at ht
    refine State.fitsBehind_of_shard ht hnone fun e he => ?_
    rw [h.outermost spec hspec e he, hs.batchDims]
    simpa using haxes

end Workflow

end Lockstep
