import Lockstep.Proofs.Workflow.Alike
import Lockstep.Proofs.Workflow.Frame

/-!
# Devices play no part

A workflow that is spread over devices computes what it computes without them, and only adds a
placement (`run_with_devices`). Erasing the placement of a state is a simulation: it commutes with
taking a batch apart and putting it together (`State.flatten_unplaced`, `State.unflatten_unplaced`),
and a lane goes through a step in the same way (`alike_unplaced`). Every step places the state anew,
so the placement after a run is what the tree declares for the leaves
(`get?_placement_of_place`).
-/

namespace Lockstep

namespace State

/-- The state with its placement erased. -/
def unplaced (s : State) : State := { s with placement := [] }

theorem unplaced_eq_self {s : State} (h : s.placement = []) : s.unplaced = s := by
  obtain ⟨nodes, dims, placement⟩ := s
  exact congrArg (State.mk nodes dims) h.symm

theorem flatten_unplaced {s : State} {ls : List State} (h : s.flatten = .ok ls) :
    s.unplaced.flatten = .ok (ls.map unplaced) :=
  flatten_map (F := unplaced) (P := fun _ => True) (fun _ => rfl)
    (fun _ _ _ hxs => ⟨unstack_of_placement hxs [], fun _ _ => trivial⟩) trivial rfl h

theorem unflatten_unplaced {dims : List Nat} {lanes : List State} {r : State}
    (h : unflatten dims lanes = .ok r) : unflatten dims (lanes.map unplaced) = .ok r.unplaced :=
  unflatten_map (F := unplaced) (P := fun _ => True) (Q := fun _ => True) (fun _ _ _ _ => trivial)
    (fun _ _ _ _ hstack => ⟨stack_of_placement hstack rfl, fun _ _ => trivial⟩)
    (fun _ _ => trivial) trivial h

end State

/-- The monitor does not look at the placement of the snapshot that it is shown. -/
def Monitor.IgnoresPlacement (m : Monitor) : Prop :=
  ∀ node s generation lane l call,
    (m.observe ⟨node, State.unplaced s, generation, lane⟩ l call).outcome =
      (m.observe ⟨node, s, generation, lane⟩ l call).outcome

namespace Workflow

open Outcome (Matches)
open State (unplaced)

variable {w : Workflow}

/-! ## Without devices -/

/-- Components see the nodes of a lane, and no component but a monitor sees more. -/
theorem alike_unplaced (hmonitors : ∀ slot ∈ w.monitors, slot.monitor.IgnoresPlacement) :
    w.Alike (fun s s' => s' = s.unplaced) Eq where
  resolve := by
    rintro s _ path rfl l hl
    exact ⟨l, hl, rfl⟩
  update := by
    rintro s _ l _ path rfl rfl t ht
    obtain ⟨hcontains, rfl⟩ := State.update_eq_ok_iff.1 ht
    exact ⟨_, State.update_eq_ok_iff.2 ⟨hcontains, rfl⟩, rfl⟩
  tensor _ hl := by rw [hl]
  setTensor _ _ hl := by rw [hl]
  ask := by
    rintro ctx l _ rfl r hr
    exact ⟨r, hr, rfl, rfl⟩
  tell := by
    rintro ctx l _ fitness rfl r hr
    exact ⟨r, hr, rfl⟩
  evaluate := by
    rintro ctx l _ candidates rfl r hr
    exact ⟨r, hr, rfl, rfl⟩
  observe := by
    rintro slot node s _ generation lane l _ call hslot rfl rfl r hr
    refine ⟨r, (hmonitors slot hslot node s generation lane l call).trans hr, ?_⟩
    cases r with
    | none => exact .none
    | some l' => exact .some rfl

/-- A step without devices gives the state that the step with devices gives, but for the
placement. -/
theorem step_unplaced (hmonitors : ∀ slot ∈ w.monitors, slot.monitor.IgnoresPlacement) {s t : State}
    (h : (w.step s).outcome = .ok t) :
    ((w.spreadOver none true).step s.unplaced).outcome = .ok t.unplaced := by
  obtain ⟨-, hnodes⟩ := ready_of_step h
  obtain ⟨ls, hls, Fs, hlength, hFs, next, hnext, ht⟩ := step_eq_ok h
  have hlanes : ∀ (i : Nat) (l F : State), (ls.map unplaced)[i]? = some l →
      (Fs.map unplaced)[i]? = some F → ((w.spreadOver none true).laneStep i l).outcome = .ok F := by
    intro i _ _ hi hi'
    rw [List.getElem?_map] at hi hi'
    obtain ⟨l, hl, rfl⟩ := Option.map_eq_some_iff.1 hi
    obtain ⟨F, hF, rfl⟩ := Option.map_eq_some_iff.1 hi'
    obtain ⟨F', hF', rfl⟩ := (alike_unplaced hmonitors).laneStep rfl F (hFs i l F hl hF)
    exact hF'
  obtain ⟨lanes, hlanes, hstates⟩ :=
    lockstep_of_laneStep (by rw [List.length_map, List.length_map, hlength]) hlanes
  have hsame : t.unplaced = next.unplaced := by
    obtain ⟨placement, rfl⟩ := exists_of_place ht
    rfl
  have hready' : (w.spreadOver none true).ensureReady s.unplaced = .ok () :=
    ensureReady_eq_ok rfl hnodes
  rw [step, outcome_stepBy, hready', Outcome.ok_bind, State.flatten_unplaced hls, Outcome.ok_bind,
    hlanes, Outcome.ok_bind, hstates, Outcome.ok_bind, hsame]
  exact Outcome.bind_eq_ok_iff.2 ⟨_, State.unflatten_unplaced hnext, rfl⟩

/-- So does a run. -/
theorem run_unplaced (hmonitors : ∀ slot ∈ w.monitors, slot.monitor.IgnoresPlacement)
    {steps : Nat} :
    ∀ {s t : State}, (w.run steps s).outcome = .ok t →
      ((w.spreadOver none true).run steps s.unplaced).outcome = .ok t.unplaced := by
  induction steps with
  | zero =>
    intro s t h
    obtain rfl := Except.ok.inj h
    rfl
  | succ steps ih =>
    intro s t h
    rw [run, Traced.outcome_bind] at h ⊢
    obtain ⟨u, hu, h⟩ := Outcome.bind_eq_ok_iff.1 h
    rw [step_unplaced hmonitors hu, Outcome.ok_bind]
    exact ih h

/-! ## With devices -/

/-- What every step gives, a run of at least one step gives. -/
theorem of_run_succ {P : State → State → Prop}
    (hstep : ∀ {s t}, (w.step s).outcome = .ok t → P s t)
    (htrans : ∀ {s t u}, P s t → P t u → P s u) {steps : Nat} :
    ∀ {s t : State}, (w.run (steps + 1) s).outcome = .ok t → P s t := by
  induction steps with
  | zero =>
    intro s t h
    rw [run, Traced.outcome_bind] at h
    obtain ⟨u, hu, h⟩ := Outcome.bind_eq_ok_iff.1 h
    obtain rfl := Except.ok.inj h
    exact hstep hu
  | succ steps ih =>
    intro s t h
    rw [run, Traced.outcome_bind] at h
    obtain ⟨u, hu, h⟩ := Outcome.bind_eq_ok_iff.1 h
    exact htrans (hstep hu) (ih h)

/-- The placement has a directive for every leaf of the state and for nothing else: the leaves that
the tree declares with a population axis are split over the devices along this axis, which comes
after the batch axes, and the others are copied. -/
def PlacedOver (tree : Tree) (mesh : Mesh) (rank : Nat) (s : State) : Prop :=
  ∀ leaf, (leaf ∉ s.leafNames → Table.get? leaf s.placement = none) ∧
    (leaf ∈ s.leafNames →
      (∀ axis, (leaf, axis) ∈ tree.populationLeaves →
        Table.get? leaf s.placement = some (.split (axis + .ofNat rank) mesh.devices)) ∧
      ((∀ axis, (leaf, axis) ∉ tree.populationLeaves) →
        Table.get? leaf s.placement = some .replicated))

theorem placedOver_of_place {mesh : Mesh} (hmesh : 2 ≤ mesh.devices.length)
    (hplacement : w.placement = some (populationPlacement w.tree mesh))
    (hleaves : (w.tree.populationLeaves.map Prod.fst).Nodup) {s t : State}
    (h : w.place s = .ok t) : PlacedOver w.tree mesh t.batchDims.length t := by
  have hmany : ¬ (populationPlacement w.tree mesh).isTrivial = true :=
    PlacementSpec.not_isTrivial_iff.2 hmesh
  rw [place, hplacement] at h
  have hget := State.get?_placement_of_shard hmany h
  obtain ⟨hnames, hdims⟩ : t.leafNames = s.leafNames ∧ t.batchDims = s.batchDims := by
    rw [State.eq_placed_of_shard h, State.placed, if_neg hmany]
    exact ⟨rfl, rfl⟩
  intro leaf
  rw [hget, hnames, hdims]
  refine ⟨fun hleaf => if_neg hleaf, fun hleaf => ?_⟩
  rw [if_pos hleaf]
  refine ⟨fun axis haxis => ?_, fun hnone => ?_⟩
  · -- a leaf is declared once, so it has one axis
    have haxisOf : Table.get? leaf (populationPlacement w.tree mesh).splitAxes = some axis :=
      Table.get?_ofList_of_mem hleaves haxis
    rw [PlacementSpec.directive, haxisOf]
    dsimp only
    rw [if_neg hmany, UInt64.ofNat_add, UInt64.ofNat_toNat]
    rfl
  · have hno : Table.get? leaf (populationPlacement w.tree mesh).splitAxes = none := by
      rw [← Option.not_isSome_iff_eq_none, Option.isSome_iff_exists]
      rintro ⟨axis, haxis⟩
      exact hnone axis (Table.mem_of_mem_ofList (Table.mem_of_get?_eq_some haxis))
    rw [PlacementSpec.directive, hno]

theorem placedOver_of_run {mesh : Mesh} (hmesh : 2 ≤ mesh.devices.length)
    (hplacement : w.placement = some (populationPlacement w.tree mesh))
    (hleaves : (w.tree.populationLeaves.map Prod.fst).Nodup) {steps : Nat} {s t : State}
    (h : (w.run (steps + 1) s).outcome = .ok t) : PlacedOver w.tree mesh t.batchDims.length t := by
  refine of_run_succ (P := fun _ t => PlacedOver w.tree mesh t.batchDims.length t) ?_
    (fun _ h => h) h
  intro s t h
  obtain ⟨-, -, -, -, -, next, -, ht⟩ := step_eq_ok h
  exact placedOver_of_place hmesh hplacement hleaves ht

/-- Devices change no result. Of two workflows that were assembled from the same parts, one was
spread over at least two devices and the other over none; both are ready, and no monitor looks at
placements. Then a run with devices from a state without placement gives what the run without
devices gives, and in addition the placement that the tree declares. -/
theorem run_with_devices {algorithm : Algorithm} {problem : Problem}
    {monitors : List (Option String × Monitor)} {transform : Option SolutionTransform}
    {config : WorkflowConfig} {mesh : Mesh} {w v : Workflow}
    (hw : Assembly algorithm problem monitors transform config (some mesh) w)
    (hv : Assembly algorithm problem monitors transform { config with devices := none } none v)
    (hready : v.ready = true) (hmesh : 2 ≤ mesh.devices.length)
    (hmonitors : ∀ slot ∈ w.monitors, slot.monitor.IgnoresPlacement) {steps : Nat} {s r : State}
    (hs : s.placement = []) (hsteps : 1 ≤ steps) (h : (w.run steps s).outcome = .ok r) :
    (v.run steps s).outcome = .ok r.unplaced ∧ PlacedOver w.tree mesh r.batchDims.length r := by
  have hplanted := Assembled.planted ⟨_, _, _, _, _, _, hw⟩
  obtain ⟨w₀, hbuild, hw₀⟩ := hw.exists_build
  obtain ⟨v₀, hbuild', hv₀⟩ := hv.exists_build
  -- without devices both are the same
  obtain rfl : v₀ = w₀ := Except.ok.inj (hbuild'.symm.trans hbuild)
  have hplain : v = w.spreadOver none true := by
    rw [hv₀, hready, hw₀]
    rfl
  obtain ⟨steps, rfl⟩ := Nat.exists_eq_add_of_le' hsteps
  constructor
  · rw [hplain]
    have hrun := run_unplaced hmonitors h
    rwa [State.unplaced_eq_self hs] at hrun
  · have hplacement : w.placement = some (populationPlacement w.tree mesh) := by
      rw [hw₀]
      rfl
    exact placedOver_of_run hmesh hplacement hplanted.nodup_populationLeaves h

/-! ## A population on two devices -/

/-- An algorithm with a member of its population for each of two candidates. -/
def pairAlgorithm : Algorithm where
  component := {
    schema := [.population "members"]
    init := fun _ _ => .ok [("members", .tensor (.vector [1, 2]))]
    children := [] }
  ask := fun _ l => .ok (.dense (.constant [2, 1] 0), l)
  tell := fun _ l fitness => .ok (l.setTensor "members" fitness)
  popSize := some 2

def pairProblem : Problem where
  component := bareComponent
  spec := .any
  evaluate := fun _ l _ => pure (.vector [3, 4], l)

def pairBuild (config : WorkflowConfig) : Outcome Workflow :=
  build pairAlgorithm pairProblem [(some "echo", echoMonitor)] none config

/-- The workflow on two devices and the one without. -/
def pairOnDevices : Workflow :=
  { (pairBuild { devices := some (.gpus 2) }).toOption.get (by decide +kernel) with ready := true }

def pairWorkflow : Workflow :=
  { (pairBuild {}).toOption.get (by decide +kernel) with ready := true }

/-- Two copies of the first state without devices. -/
def pairState : State :=
  let stacked := do
    let first ← pairWorkflow.init.outcome
    State.stack [first.2, first.2]
  stacked.toOption.get (by decide +kernel)

/-- The state that two steps on devices lead to. -/
def pairResult : State := (pairOnDevices.run 2 pairState).outcome.toOption.get (by decide +kernel)

theorem assembly_pair (config : WorkflowConfig) (h : (pairBuild config).toOption.isSome = true)
    (hinit : ((pairBuild config).toOption.get h).init.outcome.toOption.isSome = true) :
    Assembly pairAlgorithm pairProblem [(some "echo", echoMonitor)] none config config.devices
      { (pairBuild config).toOption.get h with ready := true } := by
  obtain ⟨⟨v, s⟩, hv⟩ := Outcome.exists_eq_ok hinit
  obtain rfl := init_eq_ready hv
  exact .init (.build (Outcome.eq_ok_get h)) hv

theorem ignoresPlacement_echoMonitor : echoMonitor.IgnoresPlacement := by
  intro node s generation lane l call
  cases call
  all_goals rfl

/-- The leaf of the population is split along its axis, which comes after that of the batch. -/
theorem run_with_devices_pair :
    (pairOnDevices.run 2 pairState).outcome = .ok pairResult ∧
      (pairWorkflow.run 2 pairState).outcome = .ok pairResult.unplaced ∧
      Table.get? "algorithm.members" pairResult.placement =
        some (.split 1 (Mesh.gpus 2).devices) := by
  have hdevices : Assembly pairAlgorithm pairProblem [(some "echo", echoMonitor)] none
      { devices := some (.gpus 2) } (some (.gpus 2)) pairOnDevices :=
    assembly_pair { devices := some (.gpus 2) } _ (by decide +kernel)
  have hplain : Assembly pairAlgorithm pairProblem [(some "echo", echoMonitor)] none {} none
      pairWorkflow := assembly_pair {} _ (by decide +kernel)
  have hmonitors : ∀ slot ∈ pairOnDevices.monitors, slot.monitor.IgnoresPlacement := by
    intro slot hslot
    have hmem := List.mem_map_of_mem (f := fun slot => (slot.name, slot.monitor)) hslot
    rw [hdevices.monitors] at hmem
    rw [(Prod.mk.inj (List.mem_singleton.1 hmem)).2]
    exact ignoresPlacement_echoMonitor
  have hrun : (pairOnDevices.run 2 pairState).outcome = .ok pairResult := Outcome.eq_ok_get _
  obtain ⟨hresult, hplaced⟩ := run_with_devices hdevices hplain rfl (by decide) hmonitors
    (by decide +kernel) (by decide) hrun
  have hrank : pairResult.batchDims.length = 1 := by decide +kernel
  refine ⟨hrun, hresult, ?_⟩
  have hsplit := ((hplaced "algorithm.members").2 (by decide +kernel)).1 0 (by decide +kernel)
  rw [hrank] at hsplit
  exact hsplit

end Workflow

end Lockstep
