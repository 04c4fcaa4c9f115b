import Lockstep.Proofs.Component.Initial
import Lockstep.Proofs.Workflow.Frame
import Lockstep.Proofs.Workflow.Reference

/-!
# First states

The tables of components ascend when they start with ordered local states and keep them so
(`Algorithm.KeepsOrder`, `Problem.KeepsOrder`, `Monitor.KeepsOrder`). A workflow of such components
keeps order, and so do its first state and all stackings of it (`Assembly.keepsOrder`,
`ordered_of_init`, `State.Stacking.lanes`).

A number with which the algorithm or a monitor starts is in the first state
(`number_of_init_algorithm`, `number_of_init_monitor`) and in all lanes of its stackings.
-/

namespace Lockstep

/-! ## Components that keep order -/

/-- The algorithm starts with ordered local states and gives them back. -/
structure Algorithm.KeepsOrder (a : Algorithm) : Prop where
  starts : a.component.StartsOrdered
  ask : ∀ {ctx l candidates l'}, LocalState.Ordered l → a.ask ctx l = .ok (candidates, l') →
    l'.Ordered
  tell : ∀ {ctx l fitness l'}, LocalState.Ordered l → a.tell ctx l fitness = .ok l' → l'.Ordered

/-- The problem starts with ordered local states and gives them back. -/
structure Problem.KeepsOrder (b : Problem) : Prop where
  starts : b.component.StartsOrdered
  evaluate : ∀ {ctx l candidates fitness l'}, LocalState.Ordered l →
    (b.evaluate ctx l candidates).outcome = .ok (fitness, l') → l'.Ordered

/-- The monitor starts with ordered local states and gives them back. -/
structure Monitor.KeepsOrder (m : Monitor) : Prop where
  starts : m.component.StartsOrdered
  observe : ∀ {ctx l call l'}, ctx.state.Ordered → LocalState.Ordered l →
    (m.observe ctx l call).outcome = .ok (some l') → l'.Ordered

/-! ## Numbers of a first state -/

/-- A number that is put over others. -/
theorem LocalState.number_union {l : LocalState} (hl : Table.Sorted l) (t : LocalState)
    {name : String} {x : Float} (h : l.number name = .ok x) :
    LocalState.number (Table.union t l) name = .ok x := by
  rw [number, tensor, value] at h ⊢
  cases hget : Table.get? name l with
  | none =>
    rw [hget] at h
    cases h
  | some v =>
    rw [hget] at h
    rw [Table.get?_union_of_mem hl.nodup (Table.mem_of_get?_eq_some hget)]
    exact h

/-- The number under an attribute of a node. -/
def State.number (s : State) (path name : String) : Outcome Float := do
  (← s.resolve path).number name

namespace State

theorem number_eq_ok_iff {s : State} {path name : String} {x : Float} :
    s.number path name = .ok x ↔ ∃ l, s.resolve path = .ok l ∧ l.number name = .ok x :=
  Outcome.bind_eq_ok_iff

theorem SameLeaves.number {s s' : State} (h : s.SameLeaves s') (path name : String) :
    s.number path name = s'.number path name :=
  h.resolve_bind path fun _ _ hl => hl.number name

theorem number_of_get?_eq {s s' : State} {path : String}
    (h : Table.get? path s.nodes = Table.get? path s'.nodes) (name : String) :
    s.number path name = s'.number path name := by
  rw [number, number, resolve, resolve, h]

/-- A number with which a child of the root starts is in the first state. -/
theorem number_of_initialState {root : Component} {tree : Tree} (htree : Tree.build root = .ok tree)
    {key : Random.Key} {s : State} (h : tree.initialState root key = .ok s) {path name : String}
    {c : Component} (hc : (path, c) ∈ root.children) {x : Float}
    (hinit : ∀ {node g l}, c.init node g = .ok l → LocalState.Ordered l ∧ l.number name = .ok x) :
    s.number path name = .ok x := by
  obtain ⟨id, hplaces⟩ := Component.exists_places_of_mem_children hc
  obtain ⟨own, hown, -, hresolve⟩ := Tree.resolve_of_initialState htree h hplaces
  obtain ⟨⟨hsorted, -⟩, hnumber⟩ := hinit hown
  exact number_eq_ok_iff.2 ⟨_, hresolve, LocalState.number_union hsorted _ hnumber⟩

/-! ## Stackings -/

/-- The lanes of a stacking of an unbatched state have its leaves. -/
theorem Stacking.lanes {s b : State} (h : Stacking s b) (hs : s.Ordered)
    (hdims : s.batchDims = []) :
    b.Ordered ∧ ∃ ls, b.flatten = .ok ls ∧ ∀ l ∈ ls, l.SameLeaves s := by
  induction h with
  | single =>
    exact ⟨hs, [s], flatten_unbatched hdims, List.forall_mem_singleton.2 (.refl s)⟩
  | @stack xs b _ hstack ih =>
    have hordered : ∀ x ∈ xs, x.Ordered := fun x hx => (ih x hx).1
    refine ⟨Ordered.stack hstack hordered, ?_⟩
    have hparts : ∀ x ∈ xs, ∃ ls, x.flatten = .ok ls ∧ ∀ l ∈ ls, l.SameLeaves s :=
      fun x hx => (ih x hx).2
    obtain ⟨lss, hlss⟩ := Outcome.exists_forall₂ hparts
    refine ⟨lss.flatten, (flatten_eq_ok_iff (unstack_stack hordered hstack)).2
      ⟨lss, hlss.imp fun _ _ h => h.1, rfl⟩, fun l hl => ?_⟩
    obtain ⟨ls, hls, hl⟩ := List.mem_flatten.1 hl
    obtain ⟨y, -, -, hsame⟩ := Outcome.exists_left_of_mem hlss hls
    exact hsame l hl

end State

/-! ## Workflows -/

namespace Workflow

open Lockstep.Random (Key)

variable {algorithm : Algorithm} {problem : Problem} {monitors : List (Option String × Monitor)}
  {transform : Option SolutionTransform} {config : WorkflowConfig} {devices : Option Mesh}
  {w v : Workflow} {s : State}

theorem Assembly.algorithm_eq (h : Assembly algorithm problem monitors transform config devices w) :
    w.algorithm = algorithm ∧ w.problem = problem := by
  obtain ⟨v, hv, hw⟩ := h.exists_build
  obtain ⟨⟨-, halgorithm, hproblem, -⟩, -⟩ := build_eq_ok rfl hv
  rw [hw]
  exact ⟨halgorithm, hproblem⟩

theorem Assembly.mem_monitors (h : Assembly algorithm problem monitors transform config devices w)
    {slot : MonitorSlot} (hslot : slot ∈ w.monitors) : ∃ m ∈ monitors, m.2 = slot.monitor := by
  have hmap := congrArg (List.map Prod.snd) h.monitors
  rw [map_nameMonitors, List.map_map] at hmap
  refine List.mem_map.1 (hmap ▸ ?_)
  exact List.mem_map_of_mem (f := fun slot : MonitorSlot => slot.monitor) hslot

/-- A workflow of components that keep order keeps order. -/
theorem Assembly.keepsOrder (h : Assembly algorithm problem monitors transform config devices w)
    (halgorithm : algorithm.KeepsOrder) (hproblem : problem.KeepsOrder)
    (hmonitors : ∀ m ∈ monitors, m.2.KeepsOrder) : w.KeepsOrder := by
  obtain ⟨rfl, rfl⟩ := h.algorithm_eq
  refine ⟨halgorithm.ask, halgorithm.tell, hproblem.evaluate, fun hslot => ?_⟩
  obtain ⟨m, hm, he⟩ := h.mem_monitors hslot
  rw [← he]
  exact (hmonitors m hm).observe

theorem startsOrdered_componentOf {seed : UInt64} {named : List (String × Monitor)}
    (halgorithm : algorithm.component.StartsOrdered) (hproblem : problem.component.StartsOrdered)
    (hnamed : ∀ m ∈ named, m.2.component.StartsOrdered) :
    (componentOf seed algorithm problem named).StartsOrdered := by
  have hmonitors : ∀ x ∈ Component.preorderList (named.map fun m => (m.1, m.2.component)),
      ∀ {node g l}, x.init node g = .ok l → LocalState.Ordered l := by
    induction named with
    | nil =>
      rw [List.map_nil, Component.preorderList]
      exact nofun
    | cons m rest ih =>
      obtain ⟨hm, hrest⟩ := List.forall_mem_cons.1 hnamed
      rw [List.map_cons, Component.preorderList]
      exact List.forall_mem_append.2 ⟨hm, ih hrest⟩
  rw [Component.StartsOrdered, componentOf, Component.preorder, Component.preorderList,
    Component.preorderList]
  refine List.forall_mem_cons.2 ⟨fun {node g l} h => ?_,
    List.forall_mem_append.2 ⟨halgorithm, List.forall_mem_append.2 ⟨hproblem, hmonitors⟩⟩⟩
  obtain rfl := Except.ok.inj h
  have hempty : LocalState.Ordered [] := ⟨List.Pairwise.nil, trivial⟩
  have hgeneration := State.LocalOrdered.insert hempty generationAttribute
    (v := .tensor (.scalar 0))
    trivial
  exact State.LocalOrdered.insert hgeneration _ trivial

/-- What a start does: the first state of the tree is shown to the monitors and placed. -/
theorem writes_of_init (h : w.init.outcome = .ok (v, s)) :
    ∃ first shown, w.tree.initialState w.component (Key.ofSeed w.config.seed) = .ok first ∧
      (dispatch .setup 0 0 w.monitors first).outcome = .ok shown ∧ w.place shown = .ok s := by
  simp only [init, Traced.outcome_bind, Traced.outcome_liftM, Traced.outcome_pure] at h
  obtain ⟨first, hfirst, h⟩ := Outcome.bind_eq_ok_iff.1 h
  obtain ⟨shown, hshown, h⟩ := Outcome.bind_eq_ok_iff.1 h
  obtain ⟨r, hr, h⟩ := Outcome.bind_eq_ok_iff.1 h
  obtain ⟨-, rfl⟩ := Prod.mk.inj (Except.ok.inj h)
  exact ⟨first, shown, hfirst, hshown, hr⟩

/-- The first state of a workflow of components that keep order is ordered, and not batched. -/
theorem Assembly.ordered_of_init
    (hw : Assembly algorithm problem monitors transform config devices w)
    (halgorithm : algorithm.KeepsOrder) (hproblem : problem.KeepsOrder)
    (hmonitors : ∀ m ∈ monitors, m.2.KeepsOrder) (h : w.init.outcome = .ok (v, s)) :
    s.Ordered ∧ s.batchDims = [] := by
  obtain ⟨first, shown, hfirst, hshown, hs⟩ := writes_of_init h
  have hkeeps := hw.keepsOrder halgorithm hproblem hmonitors
  obtain ⟨rfl, rfl⟩ := hw.algorithm_eq
  have hordered : first.Ordered := by
    refine State.ordered_of_initialState hfirst ?_
    refine startsOrdered_componentOf halgorithm.starts hproblem.starts fun m hm => ?_
    obtain ⟨slot, hslot, rfl⟩ := List.mem_map.1 hm
    obtain ⟨m, hm, he⟩ := hw.mem_monitors hslot
    exact he ▸ (hmonitors m hm).starts
  refine ⟨ordered_of_place (ordered_of_dispatch (fun _ hmem => hkeeps.observe hmem) hordered
    hshown) hs, ?_⟩
  rw [batchDims_place hs, batchDims_of_dispatch hshown, Tree.batchDims_of_initialState hfirst]

variable {name : String} {x : Float}

/-- A number with which the algorithm starts is in the first state. -/
theorem Planted.number_of_init_algorithm (hw : w.Planted) (h : w.init.outcome = .ok (v, s))
    (hinit : ∀ {node g l}, w.algorithm.component.init node g = .ok l →
      LocalState.Ordered l ∧ l.number name = .ok x) :
    s.number "algorithm" name = .ok x := by
  obtain ⟨first, shown, hfirst, hshown, hs⟩ := writes_of_init h
  have hapart : w.ApartFromMonitors "algorithm" :=
    hw.path_algorithmNode ▸ hw.apartFromMonitors hw.isCorePath_algorithmNode
  have hget : Table.get? "algorithm" shown.nodes = Table.get? "algorithm" first.nodes :=
    get?_of_dispatch hapart hshown
  rw [(sameLeaves_of_place hs).number, State.number_of_get?_eq hget]
  exact State.number_of_initialState hw.tree hfirst List.mem_cons_self hinit

/-- A number with which a monitor starts is in the first state, unless the monitor changes it at the
setup. -/
theorem Planted.number_of_init_monitor (hw : w.Planted) (h : w.init.outcome = .ok (v, s))
    {slot : MonitorSlot} (hslot : slot ∈ w.monitors)
    (hsetup : slot.monitor.hooks.contains .setup = false)
    (hinit : ∀ {node g l}, slot.monitor.component.init node g = .ok l →
      LocalState.Ordered l ∧ l.number name = .ok x) :
    s.number slot.name name = .ok x := by
  obtain ⟨first, shown, hfirst, hshown, hs⟩ := writes_of_init h
  have hmem : (slot.name, slot.monitor.component) ∈ w.component.children := by
    refine List.mem_cons_of_mem _ (List.mem_cons_of_mem _ ?_)
    rw [List.map_map]
    exact List.mem_map_of_mem (f := fun slot : MonitorSlot => (slot.name, slot.monitor.component))
      hslot
  have hnumber := State.number_of_initialState hw.tree hfirst hmem hinit
  obtain ⟨l, hl, -⟩ := State.number_eq_ok_iff.1 hnumber
  obtain ⟨j, hj⟩ := List.mem_iff_getElem?.1 hslot
  have hpaths : (w.monitors.map fun slot => slot.node.path).Nodup := by
    rw [List.map_congr_left fun slot hslot => hw.path_monitorNode hslot]
    exact hw.nodup_monitorNames
  have hpath := hw.path_monitorNode hslot
  have hhooked : w.hooked 0 ⟨first, Key.ofSeed 0, 0⟩ .setup first = .ok shown := hshown
  obtain ⟨l', hl', hget⟩ := watch_of_hooked hpaths hhooked hj
    (hpath.symm ▸ State.resolve_eq_ok_iff.1 hl)
  rw [watch, if_neg (by simp [HookCall.hook, hsetup])] at hl'
  obtain rfl := Except.ok.inj hl'
  rw [hpath] at hget
  rw [(sameLeaves_of_place hs).number]
  rw [State.number_of_get?_eq (hget.trans (State.resolve_eq_ok_iff.1 hl).symm)]
  exact hnumber

end Workflow

end Lockstep
