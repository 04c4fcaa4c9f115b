import Lockstep.Proofs.Component.Tree
import Lockstep.Proofs.Workflow.SideBySide

/-!
# The tree of a workflow

The root of a workflow comes first, then the nodes of the algorithm, those of the problem and those
of the monitors (`tree_of_build`). So neither the numbers of the first three (`sameCore_of_build`)
nor their first local states (`TreeParts.get?_of_initialState`) depend on the monitors.
-/

namespace Lockstep.Workflow

/-- The path is that of the root, or of a node of the algorithm or the problem. -/
def isCorePath (path : String) : Prop :=
  path = "" ∨ Path.first path = "algorithm" ∨ Path.first path = "problem"

theorem build_eq_ok {algorithm : Algorithm} {problem : Problem}
    {monitors : List (Option String × Monitor)} {transform : Option SolutionTransform}
    {config : WorkflowConfig} {w : Workflow} (hdevices : config.devices = none)
    (h : build algorithm problem monitors transform config = .ok w) :
    (w.config = config ∧ w.algorithm = algorithm ∧ w.problem = problem ∧ w.transform = transform ∧
      w.placement = none) ∧
    Tree.build (componentOf config.seed algorithm problem (nameMonitors 0 monitors)) = .ok w.tree ∧
    placeMonitors w.tree (nameMonitors 0 monitors) = .ok w.monitors ∧
    w.tree.context "algorithm" = .ok w.algorithmNode ∧
    w.tree.context "problem" = .ok w.problemNode := by
  obtain ⟨-, -, h⟩ := Outcome.bind_eq_ok_iff.1 h
  obtain ⟨tree, htree, h⟩ := Outcome.bind_eq_ok_iff.1 h
  obtain ⟨slots, hslots, h⟩ := Outcome.bind_eq_ok_iff.1 h
  obtain ⟨a, ha, h⟩ := Outcome.bind_eq_ok_iff.1 h
  obtain ⟨b, hb, h⟩ := Outcome.bind_eq_ok_iff.1 h
  rw [hdevices] at h
  obtain rfl := Except.ok.inj h
  exact ⟨⟨rfl, rfl, rfl, rfl, rfl⟩, htree, hslots, ha, hb⟩

/-- Named monitors get the nodes of their names. -/
theorem placeMonitors_eq_ok {tree : Tree} :
    ∀ {monitors : List (String × Monitor)} {slots : List MonitorSlot},
      placeMonitors tree monitors = .ok slots →
        slots.map (fun slot => (slot.name, slot.monitor)) = monitors ∧
          ∀ slot ∈ slots, slot.node.path = slot.name := by
  intro monitors slots h
  have hslots := Outcome.mapM_eq_ok_iff.1 h
  induction hslots with
  | nil => exact ⟨rfl, nofun⟩
  | @cons m slot monitors slots hslot hrest ih =>
    obtain ⟨hmap, hpaths⟩ := ih (Outcome.mapM_eq_ok_iff.2 hrest)
    obtain ⟨node, hnode, hslot⟩ := Outcome.bind_eq_ok_iff.1 hslot
    obtain rfl := Except.ok.inj hslot
    exact ⟨by rw [List.map_cons, hmap],
      List.forall_mem_cons.2 ⟨(Tree.context_eq_ok hnode).1, hpaths⟩⟩

/-- The parts of a workflow's tree: below the root the algorithm's nodes, the problem's and the
monitors', the last ones named neither like the algorithm nor like the problem. -/
structure TreeParts (algorithm : Algorithm) (problem : Problem) (monitors : List (String × Monitor))
    (rootIds : List Nat) (tree a p m : List TreeNode) : Prop where
  algorithmNodes : algorithm.component.nodes "algorithm" "algorithm" (some 0) 1 = .ok a
  problemNodes : problem.component.nodes "problem" "problem" (some 0) (1 + a.length) = .ok p
  monitorNames : ∀ e ∈ monitors, ¬ isCorePath e.1
  monitorPaths : ∀ n ∈ m, ¬ isCorePath n.context.path
  order : tree = ⟨⟨0, ""⟩, "", none, rootIds,
    [.mutable generationAttribute, .mutable keyAttribute]⟩ :: (a ++ (p ++ m))

/-- A name that differs from those of the algorithm and the problem is no core path, and neither is
a path that starts with it. -/
theorem not_isCorePath {name path : String} (hname : Path.isName name = true)
    (hother : name ∉ ["problem", "algorithm"]) (hpath : Path.first path = name) :
    ¬ isCorePath path := by
  rintro (rfl | h | h)
  · exact (Path.isName_iff.1 hname).1 hpath.symm
  · exact hother (by rw [← hpath, h]; simp)
  · exact hother (by rw [← hpath, h]; simp)

theorem tree_of_build {seed : UInt64} {algorithm : Algorithm} {problem : Problem}
    {monitors : List (String × Monitor)} {tree : Tree}
    (h : Tree.build (componentOf seed algorithm problem monitors) = .ok tree) :
    ∃ ids a p m, TreeParts algorithm problem monitors ids tree a p m := by
  obtain ⟨ids, below, hbelow, rfl⟩ := Component.nodes_eq_ok h
  obtain ⟨-, -, a, ha, ids₁, more, hmore, rfl⟩ := Component.childNodes_cons_eq_ok hbelow
  obtain ⟨-, -, p, hp, ids₂, m, hm, rfl⟩ := Component.childNodes_cons_eq_ok hmore
  rw [Nat.zero_add] at ha hp hm
  have hnames := Component.isName_of_childNodes hm
  refine ⟨ids, a, p, m, ha, hp, fun e he => ?_,
    fun n hn => ?_, rfl⟩
  · obtain ⟨hname, hother⟩ := hnames _ (List.mem_map_of_mem he)
    exact not_isCorePath hname hother (Path.first_of_isName hname)
  · obtain ⟨e, he, hfirst⟩ := Component.first_mem_of_childNodes hm n hn
    obtain ⟨hname, hother⟩ := hnames e he
    exact not_isCorePath hname hother hfirst

namespace TreeParts

variable {algorithm : Algorithm} {problem : Problem} {monitors : List (String × Monitor)}
  {ids : List Nat} {tree a p m : List TreeNode}

theorem first_algorithm (h : TreeParts algorithm problem monitors ids tree a p m) :
    ∀ n ∈ a, Path.first n.context.path = "algorithm" := by
  intro n hn
  rw [Component.first_of_nodes (by decide) h.algorithmNodes n hn]
  exact Path.first_of_isName (by decide)

theorem context_algorithm (h : TreeParts algorithm problem monitors ids tree a p m) :
    Tree.context tree "algorithm" = .ok ⟨1, "algorithm"⟩ := by
  obtain ⟨ids', below, -, ha⟩ := Component.nodes_eq_ok h.algorithmNodes
  rw [h.order, ha, Tree.context, Tree.find, List.find?_cons_of_neg (by simp),
    List.cons_append, List.find?_cons_of_pos (by simp)]
  rfl

theorem context_problem (h : TreeParts algorithm problem monitors ids tree a p m) :
    Tree.context tree "problem" = .ok ⟨1 + a.length, "problem"⟩ := by
  obtain ⟨ids', below, -, hp⟩ := Component.nodes_eq_ok h.problemNodes
  -- all nodes of the algorithm come before, and none of them has the problem's name
  have hnone : a.find? (fun n => n.context.path = "problem") = none := by
    rw [List.find?_eq_none]
    intro n hn hpath
    have hfirst := h.first_algorithm n hn
    rw [of_decide_eq_true hpath, Path.first_of_isName (by decide)] at hfirst
    exact absurd hfirst (by decide)
  rw [h.order, Tree.context, Tree.find, List.find?_cons_of_neg (by simp), List.find?_append, hnone,
    hp, List.cons_append, Option.none_or, List.find?_cons_of_pos (by simp)]
  rfl

/-- Each part of the tree is filled from the component it was built from. -/
theorem zip_preorder (h : TreeParts algorithm problem monitors ids tree a p m) (seed : UInt64) :
    tree.zip (componentOf seed algorithm problem monitors).preorder =
      (⟨⟨0, ""⟩, "", none, ids, [.mutable generationAttribute, .mutable keyAttribute]⟩,
        componentOf seed algorithm problem monitors) ::
      ((a.zip algorithm.component.preorder ++ p.zip problem.component.preorder) ++
        m.zip (Component.preorderList (monitors.map fun m => (m.1, m.2.component)))) := by
  have hpreorder : (componentOf seed algorithm problem monitors).preorder =
      componentOf seed algorithm problem monitors ::
        (algorithm.component.preorder ++ (problem.component.preorder ++
          Component.preorderList (monitors.map fun m => (m.1, m.2.component)))) := by
    rw [componentOf, Component.preorder, Component.preorderList, Component.preorderList]
  rw [h.order, hpreorder, List.zip_cons_cons,
    List.zip_append (Component.length_of_nodes h.algorithmNodes),
    List.zip_append (Component.length_of_nodes h.problemNodes), List.append_assoc]

/-- The local state of the root and the nodes of the algorithm and the problem at the start. -/
def coreState (seed : UInt64) (algorithm : Algorithm) (problem : Problem) (a p : List TreeNode) :
    Outcome State := do
  let root ← Tree.initialLocal (Random.Key.ofSeed seed)
    ⟨⟨0, ""⟩, "", none, [], [.mutable generationAttribute, .mutable keyAttribute]⟩
    (componentOf seed algorithm problem [])
  Tree.fill (Random.Key.ofSeed seed)
    (a.zip algorithm.component.preorder ++ p.zip problem.component.preorder)
    (State.empty.withNode "" root)

/-- Monitors add nodes to the first state and leave the others as they are without monitors. -/
theorem get?_of_initialState (h : TreeParts algorithm problem monitors ids tree a p m)
    {seed : UInt64} {s : State}
    (hs : Tree.initialState tree (componentOf seed algorithm problem monitors)
      (Random.Key.ofSeed seed) = .ok s) :
    ∃ core, coreState seed algorithm problem a p = .ok core ∧
      ∀ path, isCorePath path → Table.get? path s.nodes = Table.get? path core.nodes := by
  obtain ⟨-, hfill⟩ := Tree.initialState_eq_ok hs
  rw [h.zip_preorder, Tree.fill_cons_eq_ok_iff] at hfill
  obtain ⟨root, hroot, hfill⟩ := hfill
  obtain ⟨core, hcore, hmonitors⟩ := Tree.fill_append_eq_ok_iff.1 hfill
  refine ⟨core, Outcome.bind_eq_ok_iff.2 ⟨root, hroot, hcore⟩, fun path hpath => ?_⟩
  refine Tree.get?_of_fill hmonitors fun e he hpath' => ?_
  obtain ⟨n, c⟩ := e
  rw [← hpath'] at hpath
  exact h.monitorPaths n (List.of_mem_zip he).1 hpath

end TreeParts

/-- Workflows with the same algorithm, problem and transform differ in their monitors at most. -/
theorem sameCore_of_build {algorithm : Algorithm} {problem : Problem}
    {monitors monitors' : List (Option String × Monitor)} {transform : Option SolutionTransform}
    {config config' : WorkflowConfig} {w w' : Workflow}
    (hdevices : config.devices = none) (hdevices' : config'.devices = none)
    (h : build algorithm problem monitors transform config = .ok w)
    (h' : build algorithm problem monitors' transform config' = .ok w') : SameCore w w' := by
  obtain ⟨⟨-, ha, hp, ht, -⟩, htree, -, haNode, hpNode⟩ := build_eq_ok hdevices h
  obtain ⟨⟨-, ha', hp', ht', -⟩, htree', -, haNode', hpNode'⟩ := build_eq_ok hdevices' h'
  obtain ⟨ids, a, p, m, hparts⟩ := tree_of_build htree
  obtain ⟨ids', a', p', m', hparts'⟩ := tree_of_build htree'
  -- the nodes of the algorithm are numbered from 1 on in both trees, so the problem's are the same
  obtain rfl : a' = a := Except.ok.inj (hparts'.algorithmNodes.symm.trans hparts.algorithmNodes)
  refine ⟨ha'.trans ha.symm, hp'.trans hp.symm, ht'.trans ht.symm, ?_, ?_⟩
  · rw [hparts.context_algorithm] at haNode
    rw [hparts'.context_algorithm] at haNode'
    exact Except.ok.inj (haNode'.symm.trans haNode)
  · rw [hparts.context_problem] at hpNode
    rw [hparts'.context_problem] at hpNode'
    exact Except.ok.inj (hpNode'.symm.trans hpNode)

end Lockstep.Workflow
