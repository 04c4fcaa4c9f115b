import Lockstep.Proofs.State.Plan

/-!
# The structure of states that follow a plan

A plan fixes the names and shapes of all leaves (`State.Follows.map_leaves`), so two states that
follow it behind the same batch axes have the same structure (`State.Follows.sameStructure`). When
the axes that a request lists can be split evenly in the plan, every such state can be placed
(`State.Follows.shard`).
-/

namespace Lockstep

open Outcome (Gives)

/-! ## Names and shapes -/

/-- The leaves of a node with their shapes behind batch axes. -/
def LocalPlan.leafShapes (dims : List Nat) (path : String) (p : LocalPlan) :
    List (String × List Nat) :=
  p.leaves.map fun e => (Path.qualify path e.1, dims ++ e.2.shape)

/-- The leaves of all nodes with their shapes behind batch axes. -/
def Plan.leafShapes (dims : List Nat) (plan : Plan) : List (String × List Nat) :=
  plan.nodes.flatMap fun e => e.2.leafShapes dims e.1

namespace State

/-- The states have the same batch axes, the same nodes with the same attributes, and leaves of the
same shapes. -/
structure SameStructure (s t : State) : Prop where
  batchDims : t.batchDims = s.batchDims
  attributes : t.nodes.map (fun e => (e.1, Table.keys e.2)) =
    s.nodes.map fun e => (e.1, Table.keys e.2)
  shapes : t.leaves.map (fun e => (e.1, e.2.shape)) = s.leaves.map fun e => (e.1, e.2.shape)

variable {plan : Plan} {most most' : Nat} {dims : List Nat} {placement placement' : Table Directive}

theorem map_leavesAt {l : LocalState} {qs : Table LeafPlan}
    (h : Table.Matching (LeafPlan.FitsValue most dims) l qs) (path : String) :
    (leavesAt path l).map (fun e => (e.1, e.2.shape)) =
      qs.map fun e => (Path.qualify path e.1, dims ++ e.2.shape) := by
  induction h with
  | nil => rfl
  | @cons e e' l qs he _ ih =>
    obtain ⟨name, v⟩ := e
    obtain ⟨name', q⟩ := e'
    obtain ⟨rfl, u, rfl, hu⟩ := he
    rw [List.map_cons, ← ih, ← hu.shape]
    rfl

/-- The plan says which leaves a state has, and of which shapes. -/
theorem Follows.map_leaves {s : State} (h : s.Follows plan most dims placement) :
    s.leaves.map (fun e => (e.1, e.2.shape)) = plan.leafShapes dims := by
  have hnodes := h.nodes
  rw [leaves, Plan.leafShapes]
  generalize s.nodes = nodes at hnodes
  generalize plan.nodes = ps at hnodes
  induction hnodes with
  | nil => rfl
  | @cons e e' nodes ps he _ ih =>
    obtain ⟨path, l⟩ := e
    obtain ⟨path', p⟩ := e'
    obtain ⟨rfl, hl⟩ := he
    rw [List.flatMap_cons, List.flatMap_cons, List.map_append, ih]
    exact congrArg (· ++ _) (map_leavesAt hl path)

theorem Follows.map_attributes {s : State} (h : s.Follows plan most dims placement) :
    s.nodes.map (fun e => (e.1, Table.keys e.2)) =
      plan.nodes.map fun e => (e.1, Table.keys e.2.leaves) := by
  have hnodes := h.nodes
  generalize s.nodes = nodes at hnodes
  generalize plan.nodes = ps at hnodes
  induction hnodes with
  | nil => rfl
  | cons he _ ih => rw [List.map_cons, List.map_cons, ih, he.1, Table.Matching.keys he.2]

/-- States that follow one plan have the same structure. -/
theorem Follows.sameStructure {s t : State} (hs : s.Follows plan most dims placement)
    (ht : t.Follows plan most' dims placement') : s.SameStructure t where
  batchDims := ht.batchDims.trans hs.batchDims.symm
  attributes := ht.map_attributes.trans hs.map_attributes.symm
  shapes := ht.map_leaves.trans hs.map_leaves.symm

/-- A leaf in a state that follows a plan. -/
theorem Follows.leaf {s : State} (h : s.Follows plan most dims placement) {qualified : String}
    {p : LocalPlan} {q : LeafPlan} (hp : plan.get? (Path.split qualified).1 = some p)
    (hq : p.get? (Path.split qualified).2 = some q) :
      Gives (q.Fits most dims) (s.leaf qualified) := by
  obtain ⟨l, hl, hfits⟩ := h.resolve hp
  obtain ⟨v, hv, u, rfl, hu⟩ := Table.Matching.get? hfits hq
  exact ⟨u, leaf_eq_ok_iff.2 ⟨l, hl, hv⟩, hu⟩

/-! ## Placing -/

theorem placeLeaves_succeeds {spec : PlacementSpec} {rank : Nat} :
    ∀ {leaves : List (String × Tensor)} (before : Table Directive),
      (∀ e ∈ leaves, ∃ d, placeLeaf spec rank e.1 e.2 = .ok d) →
        ∃ after, placeLeaves spec rank leaves before = .ok after := by
  intro leaves
  induction leaves with
  | nil => exact fun before _ => ⟨before, rfl⟩
  | cons e leaves ih =>
    intro before h
    obtain ⟨⟨d, hd⟩, hrest⟩ := List.forall_mem_cons.1 h
    obtain ⟨after, hafter⟩ := ih (before.insert e.1 d) hrest
    refine ⟨after, ?_⟩
    rw [placeLeaves, hd, Outcome.ok_bind, hafter]

end State

/-- The leaves that a request lists are in the plan, and behind `rank` batch axes the axis that is
listed for a leaf can be numbered and split evenly. -/
structure Plan.Splits (plan : Plan) (spec : PlacementSpec) (rank : Nat) : Prop where
  listed : ∀ e ∈ spec.splitAxes, ∃ p q, plan.get? (Path.split e.1).1 = some p ∧
    p.get? (Path.split e.1).2 = some q
  even : ∀ {path name : String} {p : LocalPlan} {q : LeafPlan} {axis : UInt64},
    plan.get? path = some p → p.get? name = some q →
    spec.splitAxes.get? (Path.qualify path name) = some axis →
    axis.toNat + rank < UInt64.size ∧
      ∃ length, q.shape[axis.toNat]? = some length ∧ spec.mesh.devices.length ∣ length

namespace State

variable {plan : Plan} {most most' : Nat} {dims : List Nat} {placement : Table Directive}
    {spec : PlacementSpec}

theorem placeLeaf_succeeds (h : plan.Splits spec dims.length) {path name : String} {p : LocalPlan}
    {q : LeafPlan} (hp : plan.get? path = some p) (hq : p.get? name = some q) {t : Tensor}
    (ht : q.Fits most dims t) :
    ∃ d, placeLeaf spec dims.length (Path.qualify path name) t = .ok d := by
  by_cases htrivial : spec.isTrivial = true
  · exact ⟨_, placeLeaf_of_trivial htrivial ..⟩
  · refine (placeLeaf_ok_iff htrivial).2 fun axis hget => ?_
    obtain ⟨hfits, length, hlength, hdvd⟩ := h.even hp hq hget
    refine ⟨hfits, length, ?_, hdvd⟩
    rw [Nat.add_comm, ht.shape, List.getElem?_append_right (Nat.le_add_right ..),
      Nat.add_sub_cancel_left, hlength]

/-- A state that follows a plan can be placed as far as the plan can be split. -/
theorem Follows.shard {s : State} (h : s.Follows plan most dims placement)
    (hsplits : plan.Splits spec dims.length) :
    Gives (fun t => ∃ placement', State.Follows plan most dims placement' t) (s.shard spec) := by
  rw [State.shard]
  by_cases htrivial : spec.isTrivial = true
  · rw [if_pos htrivial]
    exact .ok ⟨placement, h⟩
  · rw [if_neg htrivial]
    have hlisted : (spec.splitAxes.forM fun e => do
        let _ ← s.leaf e.1) = (.ok () : Outcome Unit) := by
      refine Outcome.forM_eq_ok_iff.2 fun e he => ?_
      obtain ⟨p, q, hp, hq⟩ := hsplits.listed e he
      obtain ⟨t, ht, -⟩ := h.leaf hp hq
      rw [ht]
      rfl
    -- every leaf of the state is one of the plan, whose axes can be split
    have hleaves : ∀ e ∈ s.leaves, ∃ d, placeLeaf spec dims.length e.1 e.2 = .ok d := by
      intro e he
      obtain ⟨⟨path, l⟩, hl, he⟩ := List.mem_flatMap.1 he
      obtain ⟨⟨name, v⟩, hv, he⟩ := List.mem_filterMap.1 he
      obtain ⟨p, hp, hfits⟩ := h.nodes.of_mem hl
      obtain ⟨q, hq, t, rfl, ht⟩ := Table.Matching.of_mem hfits hv
      obtain rfl := Option.some.inj he
      exact placeLeaf_succeeds hsplits (Table.get?_eq_some_of_mem plan.ascends.nodup hp)
        (Table.get?_eq_some_of_mem p.ascends.nodup hq) ht
    obtain ⟨after, hafter⟩ := placeLeaves_succeeds [] hleaves
    rw [hlisted, Outcome.ok_bind, h.batchDims, hafter]
    exact .ok ⟨after, rfl, h.nodes, rfl⟩

end State

end Lockstep
