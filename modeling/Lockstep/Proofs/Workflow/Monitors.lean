import Lockstep.Proofs.Workflow.Assembled

/-!
# Monitors look on

Two workflows that differ in their monitors compute the same: whatever the monitors note, refuse or
keep for themselves, the root and all nodes of the algorithm and the problem go through the same
local states (`run_independent_of_monitors`). A hook writes at the nodes of monitors only
(`get?_of_dispatch`), and all that the algorithm and the problem are given comes from their own
nodes, from the root and from numbers that monitors do not shift (`sameCore_of_build`).
-/

namespace Lockstep.Workflow

/-! ## Hooks -/

/-- A hook changes nodes of its monitors only, and no batch axes. -/
theorem get?_of_dispatch {call : HookCall} {generation : UInt64} {index : Nat} {path : String} :
    ∀ {slots : List MonitorSlot} {s t : State}, (∀ slot ∈ slots, slot.node.path ≠ path) →
      (dispatch call generation index slots s).outcome = .ok t →
        Table.get? path t.nodes = Table.get? path s.nodes := by
  intro slots
  induction slots with
  | nil =>
    intro s t _ h
    obtain rfl := Except.ok.inj h
    rfl
  | cons slot rest ih =>
    intro s t hslots h
    obtain ⟨hslot, hrest⟩ := List.forall_mem_cons.1 hslots
    obtain ⟨u, hu, rfl | ⟨l, l', -, -, hput⟩⟩ := dispatch_cons_eq_ok h
    · exact ih hrest hu
    · obtain ⟨-, rfl⟩ := State.update_eq_ok_iff.1 hput
      rw [ih hrest hu]
      exact Table.get?_insert_of_ne _ _ hslot.symm

/-! ## States that agree apart from monitors -/

/-- The states agree on the root, the algorithm and the problem, and all nodes of these in a tree
are there. -/
structure CoreAgrees (tree : Tree) (s s' : State) : Prop where
  batchDims : s'.batchDims = s.batchDims
  nodes : ∀ {path}, isCorePath path → Table.get? path s'.nodes = Table.get? path s.nodes
  present : ∀ n ∈ tree, isCorePath n.context.path →
    (Table.get? n.context.path s.nodes).isSome = true

namespace CoreAgrees

variable {tree : Tree} {s s' t t' : State}

theorem resolve (h : CoreAgrees tree s s') {path : String} (hpath : isCorePath path) :
    s'.resolve path = s.resolve path := by
  rw [State.resolve, State.resolve, h.nodes hpath]

/-- Agreement survives every change that leaves these nodes as they are. -/
theorem of_nodes_eq (h : CoreAgrees tree s s') (hdims : t.batchDims = s.batchDims)
    (hdims' : t'.batchDims = s'.batchDims)
    (ht : ∀ {path}, isCorePath path → Table.get? path t.nodes = Table.get? path s.nodes)
    (ht' : ∀ {path}, isCorePath path → Table.get? path t'.nodes = Table.get? path s'.nodes) :
    CoreAgrees tree t t' where
  batchDims := by rw [hdims, hdims', h.batchDims]
  nodes := fun hpath => by rw [ht hpath, ht' hpath, h.nodes hpath]
  present := fun n hn hpath => by
    rw [ht hpath]
    exact h.present n hn hpath

/-- The same local state put into both keeps them in agreement. -/
theorem withNode (h : CoreAgrees tree s s') (path : String) (l : LocalState) :
    CoreAgrees tree (s.withNode path l) (s'.withNode path l) where
  batchDims := h.batchDims
  nodes := fun {other} hother => by
    rw [State.get?_withNode, State.get?_withNode, h.nodes hother]
  present := fun n hn hpath => by
    rw [State.get?_withNode]
    split
    · rfl
    · exact h.present n hn hpath

theorem unstack (h : CoreAgrees tree s s') {xs xs' : List State} (hxs : s.unstack = .ok xs)
    (hxs' : s'.unstack = .ok xs') : List.Forall₂ (CoreAgrees tree) xs xs' := by
  have hlength : xs.length = xs'.length := by
    have hdims := State.batchDims_of_unstack hxs
    rw [← h.batchDims, State.batchDims_of_unstack hxs'] at hdims
    exact (List.cons.inj hdims).1.symm
  refine Outcome.forall₂_of_forall hlength fun j x x' hx hx' => ?_
  obtain ⟨-, rfl⟩ := (State.getElem?_of_unstack hxs).1 hx
  obtain ⟨-, rfl⟩ := (State.getElem?_of_unstack hxs').1 hx'
  refine ⟨?_, fun {path} hpath => ?_, fun n hn hpath => ?_⟩
  · rw [State.batchDims_part, State.batchDims_part, h.batchDims]
  · rw [State.get?_nodes_part, State.get?_nodes_part, h.nodes hpath]
  · rw [State.get?_nodes_part, Option.isSome_map]
    exact h.present n hn hpath

theorem stack {xs xs' : List State} (h : List.Forall₂ (CoreAgrees tree) xs xs')
    (hs : State.stack xs = .ok s) (hs' : State.stack xs' = .ok s') : CoreAgrees tree s s' := by
  have hnodes : ∀ {path}, isCorePath path → Table.get? path s'.nodes = Table.get? path s.nodes :=
    fun hpath => State.get?_of_stack (h.imp fun _ _ hx => hx.nodes hpath) hs hs'
  obtain ⟨x, others, rfl, nodes, hstack, moved, -, rfl⟩ := State.stack_eq_ok hs
  obtain ⟨x', others', rfl, nodes', hstack', moved', -, rfl⟩ := State.stack_eq_ok hs'
  obtain ⟨hx, hothers⟩ := List.forall₂_cons.1 h
  refine ⟨?_, hnodes, fun n hn hpath => ?_⟩
  · rw [hx.batchDims, h.length_eq]
  · rw [Table.get?_isSome_iff, State.keys_of_stackNodes hstack, ← Table.get?_isSome_iff]
    exact hx.present n hn hpath

end CoreAgrees

/-! ## Steps and runs -/

/-- A workflow without placement whose monitors are apart from what it reads otherwise. -/
structure MonitorsApart (w : Workflow) : Prop where
  readPaths : ∀ path ∈ w.readPaths, isCorePath path
  monitors : ∀ slot ∈ w.monitors, ¬ isCorePath slot.node.path
  placement : w.placement = none

namespace MonitorsApart

variable {w w' : Workflow}

theorem place (h : w.MonitorsApart) (s : State) : w.place s = .ok s := by
  rw [Workflow.place, h.placement]

theorem get?_of_dispatch (h : w.MonitorsApart) {call : HookCall} {generation : UInt64}
    {index : Nat} {s t : State} (ht : (dispatch call generation index w.monitors s).outcome = .ok t)
    {path : String} (hpath : isCorePath path) :
    Table.get? path t.nodes = Table.get? path s.nodes :=
  Workflow.get?_of_dispatch (fun slot hslot he => h.monitors slot hslot (he ▸ hpath)) ht

/-- Workflows that differ in their monitors keep states in agreement. -/
theorem kept (h : w.MonitorsApart) (h' : w'.MonitorsApart) (hsame : SameCore w w') (tree : Tree) :
    Kept w w' (fun _ => True) (CoreAgrees tree) where
  same := hsame
  resolve := fun hs hpath => hs.resolve (h.readPaths _ hpath)
  read := fun _ _ => trivial
  update := by
    intro s s' t t' path l hs _ _ ht ht'
    obtain ⟨-, rfl⟩ := State.update_eq_ok_iff.1 ht
    obtain ⟨-, rfl⟩ := State.update_eq_ok_iff.1 ht'
    exact hs.withNode path l
  ask := fun _ _ => trivial
  tell := fun _ _ => trivial
  evaluate := fun _ _ => trivial
  advance := fun _ => trivial
  dispatch := fun hs ht ht' => hs.of_nodes_eq (batchDims_of_dispatch ht) (batchDims_of_dispatch ht')
    (h.get?_of_dispatch ht) (h'.get?_of_dispatch ht')
  batchDims := fun hs => hs.batchDims
  unstack := fun hs hxs hxs' => hs.unstack hxs hxs'
  stack := fun hxs hs hs' => CoreAgrees.stack hxs hs hs'
  place := by
    intro s s' t t' hs ht ht'
    rw [h.place] at ht
    rw [h'.place] at ht'
    obtain rfl := Except.ok.inj ht
    obtain rfl := Except.ok.inj ht'
    exact hs

/-- A step keeps the lanes of a batch. -/
theorem hasLanes_of_step (h : w.MonitorsApart) {count : Nat} {s t : State}
    (hs : s.HasLanes count) (ht : (w.step s).outcome = .ok t) : t.HasLanes count := by
  obtain ⟨hdims, -⟩ := hs
  obtain ⟨ls, hls, Fs, hlength, hFs, next, hnext, ht⟩ := step_eq_ok ht
  have hcount : Fs.length = count := by
    rw [← hlength, State.length_of_flatten hdims hls, volume_cons, volume_nil, Nat.mul_one]
  have hunbatched : ∀ F ∈ Fs, F.batchDims = [] := by
    intro F hF
    obtain ⟨i, l, hl, hstep⟩ := exists_lane_of_mem hlength hFs hF
    rw [batchDims_of_laneStep hstep]
    exact State.batchDims_of_flatten hdims hls l hl
  rw [h.place] at ht
  obtain rfl := Except.ok.inj ht
  rw [hdims] at hnext
  exact hcount ▸ State.hasLanes_of_stack hunbatched (State.stack_of_unflatten hnext)

theorem hasLanes_of_run (h : w.MonitorsApart) {count steps : Nat} :
    ∀ {s t : State}, s.HasLanes count → (w.run steps s).outcome = .ok t → t.HasLanes count := by
  induction steps with
  | zero =>
    intro s t hs ht
    obtain rfl := Except.ok.inj ht
    exact hs
  | succ steps ih =>
    intro s t hs ht
    rw [run, Traced.outcome_bind] at ht
    obtain ⟨u, hu, ht⟩ := Outcome.bind_eq_ok_iff.1 ht
    exact ih (h.hasLanes_of_step hs hu) ht

theorem ready (h : w.MonitorsApart) : MonitorsApart { w with ready := true } :=
  ⟨h.readPaths, h.monitors, h.placement⟩

end MonitorsApart

/-! ## Workflows from the same algorithm and problem -/

section SameParts

variable {algorithm : Algorithm} {problem : Problem} {transform : Option SolutionTransform}
  {monitors monitors' : List (Option String × Monitor)} {config config' : WorkflowConfig}
  {w w' v v' : Workflow} {s s' : State}

/-- Built monitors have nodes of their own. -/
theorem monitorsApart_of_build (hdevices : config.devices = none)
    (h : build algorithm problem monitors transform config = .ok w) : w.MonitorsApart := by
  obtain ⟨⟨-, -, -, -, hplacement⟩, -⟩ := build_eq_ok hdevices h
  have hw := planted_of_build hdevices h
  refine ⟨fun path hpath => ?_, fun slot hslot => ?_, hplacement⟩
  · simp only [readPaths, List.mem_cons, List.not_mem_nil, or_false] at hpath
    rcases hpath with rfl | rfl | rfl
    · exact Or.inl rfl
    · exact hw.isCorePath_algorithmNode
    · exact hw.isCorePath_problemNode
  · rw [hw.path_monitorNode hslot]
    exact hw.not_isCorePath_name hslot

theorem init_eq_ok (hapart : w.MonitorsApart) (h : w.init.outcome = .ok (v, s)) :
    v = { w with ready := true } ∧
      ∃ u, w.tree.initialState w.component (Random.Key.ofSeed w.config.seed) = .ok u ∧
        (dispatch .setup 0 0 w.monitors u).outcome = .ok s := by
  simp only [init, Traced.outcome_bind, Traced.outcome_liftM, Traced.outcome_pure] at h
  obtain ⟨u, hu, h⟩ := Outcome.bind_eq_ok_iff.1 h
  obtain ⟨t, ht, h⟩ := Outcome.bind_eq_ok_iff.1 h
  rw [hapart.place, Outcome.ok_bind] at h
  obtain ⟨rfl, rfl⟩ := Prod.mk.inj (Except.ok.inj h)
  exact ⟨rfl, u, hu, ht⟩

/-- First states agree apart from the monitors. -/
theorem coreAgrees_of_init (hseed : config'.seed = config.seed) (hdevices : config.devices = none)
    (hdevices' : config'.devices = none)
    (hw : build algorithm problem monitors transform config = .ok w)
    (hw' : build algorithm problem monitors' transform config' = .ok w')
    (h : w.init.outcome = .ok (v, s)) (h' : w'.init.outcome = .ok (v', s')) :
    s.batchDims = [] ∧ CoreAgrees w.tree s s' := by
  have hapart := monitorsApart_of_build hdevices hw
  have hapart' := monitorsApart_of_build hdevices' hw'
  obtain ⟨-, u, hu, hs⟩ := init_eq_ok hapart h
  obtain ⟨-, u', hu', hs'⟩ := init_eq_ok hapart' h'
  obtain ⟨⟨hconfig, ha, hp, -, -⟩, htree, hslots, -⟩ := build_eq_ok hdevices hw
  obtain ⟨⟨hconfig', ha', hp', -, -⟩, htree', hslots', -⟩ := build_eq_ok hdevices' hw'
  rw [component, hconfig, ha, hp, (placeMonitors_eq_ok hslots).1] at hu
  rw [component, hconfig', ha', hp', (placeMonitors_eq_ok hslots').1, hseed] at hu'
  obtain ⟨ids, a, p, m, hparts⟩ := tree_of_build htree
  obtain ⟨ids', a', p', m', hparts'⟩ := tree_of_build htree'
  obtain rfl : a' = a := Except.ok.inj (hparts'.algorithmNodes.symm.trans hparts.algorithmNodes)
  obtain rfl : p' = p := Except.ok.inj (hparts'.problemNodes.symm.trans hparts.problemNodes)
  -- without monitors both first states are the same
  obtain ⟨core, hcore, hnodes⟩ := hparts.get?_of_initialState hu
  obtain ⟨core', hcore', hnodes'⟩ := hparts'.get?_of_initialState hu'
  rw [hcore] at hcore'
  obtain rfl := Except.ok.inj hcore'
  have hdims := Tree.batchDims_of_initialState hu
  have hagree : CoreAgrees w.tree u u' := by
    refine ⟨by rw [hdims, Tree.batchDims_of_initialState hu'], fun {path} hpath => ?_,
      fun n hn _ => Tree.contains_of_initialState hu hn⟩
    rw [hnodes path hpath, hnodes' path hpath]
  refine ⟨(batchDims_of_dispatch hs).trans hdims, ?_⟩
  exact hagree.of_nodes_eq (batchDims_of_dispatch hs) (batchDims_of_dispatch hs')
    (hapart.get?_of_dispatch hs) (hapart'.get?_of_dispatch hs')

/-! ## Copies of the first state -/

theorem coreAgrees_of_copies {tree : Tree} (h : CoreAgrees tree s s') {count : Nat} {b b' : State}
    (hb : State.stack (List.replicate count s) = .ok b)
    (hb' : State.stack (List.replicate count s') = .ok b') : CoreAgrees tree b b' := by
  refine CoreAgrees.stack (Outcome.forall₂_of_forall (by simp) fun i x x' hx hx' => ?_) hb hb'
  rw [List.eq_of_mem_replicate (List.mem_of_getElem? hx),
    List.eq_of_mem_replicate (List.mem_of_getElem? hx')]
  exact h

theorem hasLanes_of_copies (h : s.batchDims = []) {count : Nat} {b : State}
    (hb : State.stack (List.replicate count s) = .ok b) : b.HasLanes count := by
  have hcopies : ∀ x ∈ List.replicate count s, x.batchDims = [] := by
    intro x hx
    rw [List.eq_of_mem_replicate hx, h]
  have hlanes := State.hasLanes_of_stack hcopies hb
  rw [List.length_replicate] at hlanes
  exact hlanes

/-- Monitors do not touch the optimisation. Two workflows with the same algorithm, problem,
transform and seed, whatever monitors each has, take copies of their first states to lanes that
agree on the root and on all nodes of the algorithm and the problem. -/
theorem run_independent_of_monitors (hseed : config'.seed = config.seed)
    (hdevices : config.devices = none) (hdevices' : config'.devices = none)
    (hw : build algorithm problem monitors transform config = .ok w)
    (hw' : build algorithm problem monitors' transform config' = .ok w')
    (hinit : w.init.outcome = .ok (v, s)) (hinit' : w'.init.outcome = .ok (v', s'))
    {count steps : Nat} {b b' r r' : State} (hb : State.stack (List.replicate count s) = .ok b)
    (hb' : State.stack (List.replicate count s') = .ok b')
    (hr : (v.run steps b).outcome = .ok r) (hr' : (v'.run steps b').outcome = .ok r') :
    ∃ ls ls', r.flatten = .ok ls ∧ r'.flatten = .ok ls' ∧ ls.length = count ∧ ls'.length = count ∧
      ∀ (i : Nat) (l l' : State), ls[i]? = some l → ls'[i]? = some l' →
        (∀ path, isCorePath path → l'.resolve path = l.resolve path) ∧
        ∀ n ∈ w.tree, isCorePath n.context.path → ∃ x, l.resolve n.context.path = .ok x := by
  have hapart := monitorsApart_of_build hdevices hw
  have hapart' := monitorsApart_of_build hdevices' hw'
  have hsame := sameCore_of_build hdevices hdevices' hw hw'
  obtain ⟨hdims, hagree⟩ := coreAgrees_of_init hseed hdevices hdevices' hw hw' hinit hinit'
  obtain ⟨rfl, -⟩ := init_eq_ok hapart hinit
  obtain ⟨rfl, -⟩ := init_eq_ok hapart' hinit'
  -- a run keeps copies of agreeing states in agreement
  have hkept := hapart.ready.kept hapart'.ready
    ⟨hsame.algorithm, hsame.problem, hsame.transform, hsame.algorithmNode, hsame.problemNode⟩ w.tree
  have hend : CoreAgrees w.tree r r' :=
    hkept.run_related (coreAgrees_of_copies hagree hb hb') hr hr'
  -- and both results can be split into the lanes they were stacked from
  obtain ⟨-, ls, hls, hlength⟩ := hapart.ready.hasLanes_of_run (hasLanes_of_copies hdims hb) hr
  obtain ⟨-, ls', hls', hlength'⟩ := hapart'.ready.hasLanes_of_run
    (hasLanes_of_copies (hagree.batchDims.trans hdims) hb') hr'
  have hlanes : List.Forall₂ (CoreAgrees w.tree) ls ls' :=
    State.forall₂_of_flatten (fun _ _ _ _ hx hxs hxs' => hx.unstack hxs hxs') hend hend.batchDims
      hls hls'
  refine ⟨ls, ls', hls, hls', hlength, hlength', fun i l l' hl hl' => ?_⟩
  obtain ⟨y, hy, hlane⟩ := Outcome.exists_of_forall₂ hlanes hl
  obtain rfl : y = l' := Option.some.inj (hy.symm.trans hl')
  refine ⟨fun path hpath => hlane.resolve hpath, fun n hn hpath => ?_⟩
  obtain ⟨x, hx⟩ := Option.isSome_iff_exists.1 (hlane.present n hn hpath)
  exact ⟨x, State.resolve_eq_ok_iff.2 hx⟩

end SameParts

/-! ## A workflow with and without a monitor -/

/-- Proposes its parameter. -/
def echoAlgorithm : Algorithm where
  component := ⟨[.parameter "rate" (.scalar 1)], fun _ _ => .ok [], []⟩
  ask _ l := do
    let rate ← l.number "rate"
    return (.dense (.constant [1, 1] rate), l)
  tell _ l _ := .ok l
  popSize := none

/-- Takes the candidate for its fitness. -/
def echoEvaluation : Problem where
  component := ⟨[], fun _ _ => .ok [], []⟩
  spec := .any
  evaluate _ l candidates := do
    let t ← candidates.asDense
    return (.vector t.data, l)

/-- Keeps the fitness. -/
def echoMonitor : Monitor where
  component := ⟨[.mutable "seen"], fun _ _ => .ok [("seen", .tensor (.vector [0]))], []⟩
  hooks := .ofList [.preTell]
  observe _ _ call := match call with
    | .preTell fitness => pure (some [("seen", .tensor fitness)])
    | _ => pure none
  providesMetric := true
  metric l := do return some (← l.tensor "seen")

/-- The end of two steps of two copies of the first state. -/
def echoRun (monitors : List (Option String × Monitor)) : Outcome State := do
  let w ← build echoAlgorithm echoEvaluation monitors none {}
  let (v, s) ← w.init.outcome
  let b ← State.stack (List.replicate 2 s)
  (v.run 2 b).outcome

theorem run_independent_of_monitors_echo :
    ∃ r r' ls ls', echoRun [] = .ok r ∧ echoRun [(some "echo", echoMonitor)] = .ok r' ∧
      r.flatten = .ok ls ∧ r'.flatten = .ok ls' ∧ ls.length = 2 ∧ ls'.length = 2 ∧
      ∀ (i : Nat) (l l' : State), ls[i]? = some l → ls'[i]? = some l' →
        l'.resolve "algorithm" = l.resolve "algorithm" := by
  obtain ⟨r, h⟩ := Outcome.exists_eq_ok (o := echoRun []) (by decide +kernel)
  obtain ⟨r', h'⟩ :=
    Outcome.exists_eq_ok (o := echoRun [(some "echo", echoMonitor)]) (by decide +kernel)
  have hrun := h
  have hrun' := h'
  obtain ⟨w, hw, h⟩ := Outcome.bind_eq_ok_iff.1 h
  obtain ⟨⟨v, s⟩, hinit, h⟩ := Outcome.bind_eq_ok_iff.1 h
  obtain ⟨b, hb, hr⟩ := Outcome.bind_eq_ok_iff.1 h
  obtain ⟨w', hw', h'⟩ := Outcome.bind_eq_ok_iff.1 h'
  obtain ⟨⟨v', s'⟩, hinit', h'⟩ := Outcome.bind_eq_ok_iff.1 h'
  obtain ⟨b', hb', hr'⟩ := Outcome.bind_eq_ok_iff.1 h'
  obtain ⟨ls, ls', hls, hls', hlength, hlength', hsame⟩ :=
    run_independent_of_monitors rfl rfl rfl hw hw' hinit hinit' hb hb' hr hr'
  refine ⟨r, r', ls, ls', hrun, hrun', hls, hls', hlength, hlength', fun i l l' hl hl' => ?_⟩
  exact (hsame i l l' hl hl').1 "algorithm" (Or.inr (Or.inl (Path.first_of_isName (by decide))))

end Lockstep.Workflow
