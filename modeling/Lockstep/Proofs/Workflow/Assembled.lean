import Lockstep.Proofs.Component.Paths
import Lockstep.Proofs.Workflow.Build

/-!
# Assembled workflows

Every workflow comes from `build`, and may then be spread over devices or started. Through all of
that its fields fit together (`Assembled.planted`): the tree is that of its component, and the
algorithm, the problem and the monitors have the nodes of their names in it. So these nodes are
apart from each other and from the root (`Planted.nodup_monitorNames`,
`Planted.not_isCorePath_name`).
-/

namespace Lockstep.Workflow

/-- A workflow that was built from the given parts, and then perhaps spread over devices or started,
any number of times. The devices are those that it was spread over last. -/
inductive Assembly (algorithm : Algorithm) (problem : Problem)
    (monitors : List (Option String × Monitor)) (transform : Option SolutionTransform)
    (config : WorkflowConfig) : (devices : Option Mesh) → Workflow → Prop
  | build {w : Workflow} : Workflow.build algorithm problem monitors transform config = .ok w →
      Assembly algorithm problem monitors transform config config.devices w
  | enableDevices {devices : Option Mesh} {w v : Workflow} {mesh : Mesh} :
      Assembly algorithm problem monitors transform config devices w →
      w.enableDevices mesh = .ok v →
      Assembly algorithm problem monitors transform config (some mesh) v
  | init {devices : Option Mesh} {w v : Workflow} {s : State} :
      Assembly algorithm problem monitors transform config devices w →
      w.init.outcome = .ok (v, s) →
      Assembly algorithm problem monitors transform config devices v

/-- A workflow that was assembled from some parts. -/
def Assembled (w : Workflow) : Prop :=
  ∃ algorithm problem monitors transform config devices,
    Assembly algorithm problem monitors transform config devices w

/-- The tree of a workflow is that of its component, and its parts have their nodes in it. -/
structure Planted (w : Workflow) : Prop where
  tree : Tree.build w.component = .ok w.tree
  algorithmNode : w.tree.context "algorithm" = .ok w.algorithmNode
  problemNode : w.tree.context "problem" = .ok w.problemNode
  monitorNodes : ∀ slot ∈ w.monitors, w.tree.context slot.name = .ok slot.node

/-- Devices are enabled if there are any. -/
theorem enableDevices_eq_ok_iff {w v : Workflow} {mesh : Mesh} :
    w.enableDevices mesh = .ok v ↔ mesh.devices ≠ [] ∧
      v = { w with
        config := { w.config with devices := some mesh }
        placement := some (populationPlacement w.tree mesh) } := by
  rw [enableDevices]
  split
  · next h => exact ⟨nofun, fun ⟨hne, _⟩ => absurd h hne⟩
  · next h => exact ⟨fun hv => ⟨h, (Except.ok.inj hv).symm⟩, fun hv => hv.2 ▸ rfl⟩

/-- To build with devices is to build without them and to enable them then. -/
theorem build_without_devices {algorithm : Algorithm} {problem : Problem}
    {monitors : List (Option String × Monitor)} {transform : Option SolutionTransform}
    {config : WorkflowConfig} {w : Workflow}
    (h : build algorithm problem monitors transform config = .ok w) :
    ∃ v, build algorithm problem monitors transform { config with devices := none } = .ok v ∧
      (config.devices = none ∧ w = v ∨
        ∃ mesh, config.devices = some mesh ∧ v.enableDevices mesh = .ok w) := by
  -- the devices are enabled last, when all that does not depend on them is there
  obtain ⟨⟨⟩, hvalid, h⟩ := Outcome.bind_eq_ok_iff.1 h
  obtain ⟨tree, htree, h⟩ := Outcome.bind_eq_ok_iff.1 h
  obtain ⟨slots, hslots, h⟩ := Outcome.bind_eq_ok_iff.1 h
  obtain ⟨a, ha, h⟩ := Outcome.bind_eq_ok_iff.1 h
  obtain ⟨b, hb, h⟩ := Outcome.bind_eq_ok_iff.1 h
  have hname : WorkflowConfig.validate { config with devices := none } = .ok () := by
    rw [WorkflowConfig.validate] at hvalid ⊢
    split at hvalid
    · cases hvalid
    · next hblank => exact if_neg hblank
  refine ⟨⟨{ config with devices := none }, algorithm, problem, slots, transform, tree, a, b, none,
    false⟩, ?_, ?_⟩
  · refine Outcome.bind_eq_ok_iff.2 ⟨(), hname, ?_⟩
    refine Outcome.bind_eq_ok_iff.2 ⟨tree, htree, ?_⟩
    refine Outcome.bind_eq_ok_iff.2 ⟨slots, hslots, ?_⟩
    refine Outcome.bind_eq_ok_iff.2 ⟨a, ha, ?_⟩
    exact Outcome.bind_eq_ok_iff.2 ⟨b, hb, rfl⟩
  · obtain ⟨name, seed, parallelLanes, devices⟩ := config
    cases devices with
    | none => exact Or.inl ⟨rfl, (Except.ok.inj h).symm⟩
    | some mesh =>
      obtain ⟨hne, rfl⟩ := enableDevices_eq_ok_iff.1 h
      exact Or.inr ⟨mesh, rfl, enableDevices_eq_ok_iff.2 ⟨hne, rfl⟩⟩

/-- What is built is planted in its tree. -/
theorem planted_of_build {algorithm : Algorithm} {problem : Problem}
    {monitors : List (Option String × Monitor)} {transform : Option SolutionTransform}
    {config : WorkflowConfig} {w : Workflow} (hdevices : config.devices = none)
    (h : build algorithm problem monitors transform config = .ok w) : w.Planted := by
  obtain ⟨⟨hconfig, ha, hp, -, -⟩, htree, hslots, haNode, hpNode⟩ := build_eq_ok hdevices h
  refine ⟨?_, haNode, hpNode, fun slot hslot => ?_⟩
  · rw [component, hconfig, ha, hp, (placeMonitors_eq_ok hslots).1]
    exact htree
  · obtain ⟨m, -, hm⟩ := Outcome.exists_left_of_mem (Outcome.mapM_eq_ok_iff.1 hslots) hslot
    obtain ⟨node, hnode, hslot'⟩ := Outcome.bind_eq_ok_iff.1 hm
    obtain rfl := Except.ok.inj hslot'
    exact hnode

namespace Planted

variable {w : Workflow}

theorem path_algorithmNode (h : w.Planted) : w.algorithmNode.path = "algorithm" :=
  (Tree.context_eq_ok h.algorithmNode).1

theorem path_problemNode (h : w.Planted) : w.problemNode.path = "problem" :=
  (Tree.context_eq_ok h.problemNode).1

theorem isCorePath_algorithmNode (h : w.Planted) : isCorePath w.algorithmNode.path := by
  rw [h.path_algorithmNode]
  exact Or.inr (Or.inl (Path.first_of_isName (by decide)))

theorem isCorePath_problemNode (h : w.Planted) : isCorePath w.problemNode.path := by
  rw [h.path_problemNode]
  exact Or.inr (Or.inr (Path.first_of_isName (by decide)))

theorem path_monitorNode (h : w.Planted) {slot : MonitorSlot} (hslot : slot ∈ w.monitors) :
    slot.node.path = slot.name := (Tree.context_eq_ok (h.monitorNodes slot hslot)).1

theorem exists_monitorNode (h : w.Planted) {slot : MonitorSlot} (hslot : slot ∈ w.monitors) :
    ∃ n ∈ w.tree, n.context.path = slot.name := by
  obtain ⟨hpath, n, hn, hnode⟩ := Tree.context_eq_ok (h.monitorNodes slot hslot)
  exact ⟨n, hn, by rw [hnode, hpath]⟩

/-- The monitors have different names. -/
theorem nodup_monitorNames (h : w.Planted) : w.monitorNames.Nodup := by
  obtain ⟨ids, below, hbelow, -⟩ := Component.nodes_eq_ok h.tree
  have hnames := Component.nodup_names_of_childNodes hbelow
  have hmonitors := (List.nodup_cons.1 (List.nodup_cons.1 hnames).2).2
  rw [List.map_map, List.map_map] at hmonitors
  exact hmonitors

/-- No monitor is named like the algorithm, the problem or the root. -/
theorem not_isCorePath_name (h : w.Planted) {slot : MonitorSlot} (hslot : slot ∈ w.monitors) :
    ¬ isCorePath slot.name := by
  obtain ⟨ids, a, p, m, hparts⟩ := tree_of_build h.tree
  exact hparts.monitorNames _ (List.mem_map_of_mem hslot)

theorem isName_monitorName (h : w.Planted) {slot : MonitorSlot} (hslot : slot ∈ w.monitors) :
    Path.isName slot.name = true := by
  obtain ⟨ids, below, hbelow, -⟩ := Component.nodes_eq_ok h.tree
  refine (Component.isName_of_childNodes hbelow (slot.name, slot.monitor.component) ?_).1
  have hmem := List.mem_map_of_mem (f := fun s => (s.name, s.monitor.component)) hslot
  refine List.mem_cons_of_mem _ (List.mem_cons_of_mem _ ?_)
  rw [List.map_map]
  exact hmem

/-- No leaf of a population is listed twice. -/
theorem nodup_populationLeaves (h : w.Planted) : (w.tree.populationLeaves.map Prod.fst).Nodup :=
  Tree.nodup_populationLeaves h.tree

/-- No parameter is listed twice. -/
theorem nodup_parameters (h : w.Planted) : (w.parameters.map Prod.fst).Nodup :=
  Tree.nodup_parameters h.tree

end Planted

/-- Initialising a workflow marks it as ready. -/
theorem init_eq_ready {w v : Workflow} {s : State} (h : w.init.outcome = .ok (v, s)) :
    v = { w with ready := true } := by
  simp only [init, Traced.outcome_bind, Traced.outcome_liftM, Traced.outcome_pure] at h
  obtain ⟨u, -, h⟩ := Outcome.bind_eq_ok_iff.1 h
  obtain ⟨t, -, h⟩ := Outcome.bind_eq_ok_iff.1 h
  obtain ⟨r, -, h⟩ := Outcome.bind_eq_ok_iff.1 h
  exact (Prod.mk.inj (Except.ok.inj h)).1.symm

/-- The workflow spread over devices, or over none, and ready or not. -/
def spreadOver (w : Workflow) (devices : Option Mesh) (ready : Bool) : Workflow :=
  { w with
    config := { w.config with devices }
    placement := devices.map (populationPlacement w.tree)
    ready }

/-- An assembled workflow is the one that was built without devices, up to its devices and whether
it is ready. -/
theorem Assembly.exists_build {algorithm : Algorithm} {problem : Problem}
    {monitors : List (Option String × Monitor)} {transform : Option SolutionTransform}
    {config : WorkflowConfig} {devices : Option Mesh} {w : Workflow}
    (h : Assembly algorithm problem monitors transform config devices w) :
    ∃ v,
      Workflow.build algorithm problem monitors transform { config with devices := none } = .ok v ∧
      w = v.spreadOver devices w.ready := by
  induction h with
  | @build w hw =>
    obtain ⟨v, hv, ⟨hnone, rfl⟩ | ⟨mesh, hmesh, hspread⟩⟩ := build_without_devices hw
    · obtain ⟨⟨hconfig, -, -, -, hplacement⟩, -⟩ := build_eq_ok rfl hv
      refine ⟨w, hv, ?_⟩
      rw [hnone, spreadOver, hconfig, Option.map_none, ← hplacement, ← hconfig]
    -- devices of the configuration are enabled while the workflow is built
    · obtain ⟨-, rfl⟩ := enableDevices_eq_ok_iff.1 hspread
      refine ⟨v, hv, ?_⟩
      rw [hmesh]
      rfl
  | enableDevices _ hv ih =>
    obtain ⟨v, hbuild, hw⟩ := ih
    obtain ⟨-, rfl⟩ := enableDevices_eq_ok_iff.1 hv
    refine ⟨v, hbuild, ?_⟩
    rw [hw]
    rfl
  | init _ hv ih =>
    obtain ⟨v, hbuild, hw⟩ := ih
    obtain rfl := init_eq_ready hv
    refine ⟨v, hbuild, ?_⟩
    rw [hw]
    rfl

/-- The monitors of an assembled workflow are the given ones. -/
theorem Assembly.monitors {algorithm : Algorithm} {problem : Problem}
    {monitors : List (Option String × Monitor)} {transform : Option SolutionTransform}
    {config : WorkflowConfig} {devices : Option Mesh} {w : Workflow}
    (h : Assembly algorithm problem monitors transform config devices w) :
    w.monitors.map (fun slot => (slot.name, slot.monitor)) = nameMonitors 0 monitors := by
  obtain ⟨v, hv, hw⟩ := h.exists_build
  obtain ⟨-, -, hslots, -⟩ := build_eq_ok rfl hv
  rw [hw]
  exact (placeMonitors_eq_ok hslots).1

theorem Planted.spreadOver {w : Workflow} (h : w.Planted) (devices : Option Mesh) (ready : Bool) :
    (w.spreadOver devices ready).Planted :=
  ⟨h.tree, h.algorithmNode, h.problemNode, h.monitorNodes⟩

/-- The fields of an assembled workflow fit together. -/
theorem Assembled.planted {w : Workflow} (h : w.Assembled) : w.Planted := by
  obtain ⟨algorithm, problem, monitors, transform, config, devices, h⟩ := h
  obtain ⟨v, hv, hw⟩ := h.exists_build
  rw [hw]
  exact (planted_of_build rfl hv).spreadOver devices w.ready

end Lockstep.Workflow
