import Lockstep.Proofs.Placement
import Lockstep.Proofs.State.Parts
import Lockstep.State.Basic

/-!
# What placing gives

When a state can be placed, its placement has for each leaf what the request has for that leaf
(`placeLeaves_eq_ok`). So it depends on the names of the leaves only, and these are the same in a
batch and in its parts (`leafNames_part`). A request counts an axis from behind the batch axes, so
what it has for a leaf of a batch is what it has for the leaf of a part, moved outward
(`directiveFor_succ`), and a placed batch is taken apart into the placed parts (`unstack_shard`).
-/

namespace Lockstep

namespace PlacementSpec

/-- What a request has for a leaf, as long as the number of its axis is a word. -/
def directive (s : PlacementSpec) (leaf : String) (batchRank : Nat) : Directive :=
  match s.splitAxes.get? leaf with
  | some axis =>
    if s.isTrivial then .replicated else .split (.ofNat (axis.toNat + batchRank)) s.mesh.devices
  | none => .replicated

variable {spec : PlacementSpec}

theorem not_isTrivial_iff : ¬ spec.isTrivial = true ↔ 2 ≤ spec.mesh.devices.length := by
  rw [isTrivial, Mesh.isSingle, decide_eq_true_iff]
  exact Nat.not_le

theorem directiveFor_of_trivial (h : spec.isTrivial = true) (leaf : String) (rank : Nat) :
    spec.directiveFor leaf rank = .ok .replicated := by
  rw [directiveFor]
  split
  · exact if_pos h
  · rfl

theorem directiveFor_of_none {leaf : String} (rank : Nat)
    (h : spec.splitAxes.get? leaf = none) : spec.directiveFor leaf rank = .ok .replicated := by
  rw [directiveFor, h]

/-- With several devices, a listed leaf is split along its axis behind the batch axes. -/
theorem directiveFor_of_get? (hmany : ¬ spec.isTrivial = true) {leaf : String} {axis : UInt64}
    {rank : Nat} (h : spec.splitAxes.get? leaf = some axis) {d : Directive} :
    spec.directiveFor leaf rank = .ok d ↔
      axis.toNat + rank < UInt64.size ∧
        d = .split (.ofNat (axis.toNat + rank)) spec.mesh.devices := by
  rw [directiveFor, h]
  dsimp only
  rw [if_neg hmany]
  by_cases hfits : axis.toNat + rank < UInt64.size
  · rw [wordOf_eq_ok hfits, Outcome.ok_bind, Outcome.pure_eq_ok, Except.ok.injEq, eq_comm]
    exact (and_iff_right hfits).symm
  · rw [wordOf, if_neg hfits, Outcome.error_bind]
    exact ⟨nofun, fun h => absurd h.1 hfits⟩

theorem eq_directive_of_directiveFor {leaf : String} {rank : Nat} {d : Directive}
    (h : spec.directiveFor leaf rank = .ok d) : d = spec.directive leaf rank := by
  rw [directive]
  cases hget : spec.splitAxes.get? leaf with
  | none => exact Except.ok.inj (h.symm.trans (directiveFor_of_none rank hget))
  | some axis =>
    dsimp only
    by_cases htrivial : spec.isTrivial = true
    · rw [if_pos htrivial]
      exact Except.ok.inj (h.symm.trans (directiveFor_of_trivial htrivial leaf rank))
    · rw [if_neg htrivial]
      exact ((directiveFor_of_get? htrivial hget).1 h).2

/-- One more batch axis moves what a request has for a leaf outward. -/
theorem directiveFor_succ {leaf : String} {rank : Nat} {d' : Directive} :
    spec.directiveFor leaf (rank + 1) = .ok d' ↔
      ∃ d, spec.directiveFor leaf rank = .ok d ∧ d.outward = .ok d' := by
  cases hget : spec.splitAxes.get? leaf with
  | none =>
    simp only [directiveFor_of_none _ hget, Except.ok.injEq, exists_eq_left', Directive.outward]
  | some axis =>
    by_cases htrivial : spec.isTrivial = true
    · simp only [directiveFor_of_trivial htrivial, Except.ok.injEq, exists_eq_left',
        Directive.outward]
    · simp only [directiveFor_of_get? htrivial hget]
      constructor
      · rintro ⟨hfits, rfl⟩
        have hle : axis.toNat + rank < UInt64.size := Nat.lt_of_succ_lt hfits
        refine ⟨_, ⟨hle, rfl⟩, Directive.outward_eq_ok_split_iff.2 ⟨_, ?_, rfl⟩⟩
        rw [UInt64.toNat_ofNat_of_lt' hfits, UInt64.toNat_ofNat_of_lt' hle, Nat.add_assoc]
      · rintro ⟨d, ⟨hle, rfl⟩, hd⟩
        obtain ⟨next, hnext, rfl⟩ := Directive.outward_eq_ok_split_iff.1 hd
        rw [UInt64.toNat_ofNat_of_lt' hle] at hnext
        refine ⟨by rw [← Nat.add_assoc, ← hnext]; exact next.toNat_lt, ?_⟩
        rw [← Nat.add_assoc, ← hnext, UInt64.ofNat_toNat]

/-- What a request has for a leaf of a batch, without the outermost axis. -/
theorem inward_directive {leaf : String} {rank : Nat} {d' : Directive}
    (h : spec.directiveFor leaf (rank + 1) = .ok d') :
    (spec.directive leaf (rank + 1)).inward = spec.directive leaf rank := by
  obtain ⟨d, hd, hmoved⟩ := directiveFor_succ.1 h
  rw [← eq_directive_of_directiveFor h, Directive.inward_of_outward hmoved,
    eq_directive_of_directiveFor hd]

end PlacementSpec

namespace State

open PlacementSpec

/-- On one device there is nothing to check. -/
theorem placeLeaf_of_trivial {spec : PlacementSpec} (h : spec.isTrivial = true) (rank : Nat)
    (qualified : String) (t : Tensor) : placeLeaf spec rank qualified t = .ok .replicated := by
  rw [placeLeaf, directiveFor_of_trivial h]
  rfl

/-- With several devices, a leaf can be placed when the axis that is listed for it, if there is one,
has a number and can be split evenly. -/
theorem placeLeaf_ok_iff {spec : PlacementSpec} (hmany : ¬ spec.isTrivial = true) {rank : Nat}
    {qualified : String} {t : Tensor} :
    (∃ d, placeLeaf spec rank qualified t = .ok d) ↔
      ∀ axis, spec.splitAxes.get? qualified = some axis → axis.toNat + rank < UInt64.size ∧
        ∃ length, t.shape[axis.toNat + rank]? = some length ∧
          spec.mesh.devices.length ∣ length := by
  have hdevices : spec.mesh.devices ≠ [] := by
    intro hnone
    exact hmany (by simp [PlacementSpec.isTrivial, Mesh.isSingle, hnone])
  simp only [placeLeaf, Outcome.bind_eq_ok_iff]
  cases hget : spec.splitAxes.get? qualified with
  | none => simp [directiveFor_of_none rank hget]
  | some axis =>
    simp only [directiveFor_of_get? hmany hget, Option.some.injEq, forall_eq', exists_and_left,
      and_assoc, exists_eq_left]
    refine and_congr_right fun hfits => ?_
    rw [UInt64.toNat_ofNat_of_lt' hfits]
    cases t.shape[axis.toNat + rank]? with
    | none => simp
    | some length =>
      -- whether an axis can be split is what `slices` says of it
      have hslices : (∃ r, Directive.slices qualified length
          (.split (.ofNat (axis.toNat + rank)) spec.mesh.devices) = .ok r) ↔
            spec.mesh.devices.length ∣ length :=
        Directive.exists_slices_split_iff.trans (and_iff_right hdevices)
      simp only [Option.some.injEq, exists_eq_left', ← hslices, Outcome.bind_eq_ok_iff]
      constructor
      · rintro ⟨-, r, hr, -⟩
        exact ⟨r, hr⟩
      · rintro ⟨r, hr⟩
        exact ⟨_, r, hr, rfl⟩

theorem placeLeaf_eq_ok {spec : PlacementSpec} {rank : Nat} {qualified : String} {t : Tensor}
    {d : Directive} (h : placeLeaf spec rank qualified t = .ok d) :
    spec.directiveFor qualified rank = .ok d := by
  obtain ⟨d', hd', h⟩ := Outcome.bind_eq_ok_iff.1 h
  rw [hd']
  split at h
  · exact h
  · split at h
    · cases h
    · obtain ⟨-, -, h⟩ := Outcome.bind_eq_ok_iff.1 h
      exact h

/-- What a request has for leaves, put into a placement. -/
def placementFor (spec : PlacementSpec) (rank : Nat) :
    List String → Table Directive → Table Directive
  | [], placement => placement
  | leaf :: rest, placement =>
    placementFor spec rank rest (placement.insert leaf (spec.directive leaf rank))

/-- What a placement says of a leaf. -/
theorem get?_placementFor {spec : PlacementSpec} {rank : Nat} {leaf : String} :
    ∀ {names : List String} {before : Table Directive},
      Table.get? leaf (placementFor spec rank names before) =
        if leaf ∈ names then some (spec.directive leaf rank) else Table.get? leaf before
  | [], before => by simp [placementFor]
  | name :: rest, before => by
    rw [placementFor, get?_placementFor, Table.get?_insert]
    by_cases hrest : leaf ∈ rest
    · rw [if_pos hrest, if_pos (List.mem_cons_of_mem _ hrest)]
    · rw [if_neg hrest]
      by_cases hname : leaf = name
      · rw [if_pos hname, if_pos (hname ▸ List.mem_cons_self), hname]
      · rw [if_neg hname, if_neg (List.not_mem_cons_of_ne_of_not_mem hname hrest)]

/-- All directives in a placement are what the request has for some leaf. -/
theorem exists_of_mem_placementFor {spec : PlacementSpec} {rank : Nat} {e : String × Directive} :
    ∀ {names : List String} {before : Table Directive}, e ∈ placementFor spec rank names before →
      e ∈ before ∨ ∃ leaf ∈ names, e.2 = spec.directive leaf rank
  | [], _, he => Or.inl he
  | name :: rest, before, he => by
    rw [placementFor] at he
    rcases exists_of_mem_placementFor he with hbefore | ⟨leaf, hleaf, he⟩
    · rcases Table.mem_of_mem_insert hbefore with rfl | hbefore
      · exact Or.inr ⟨name, List.mem_cons_self, rfl⟩
      · exact Or.inl hbefore
    · exact Or.inr ⟨leaf, List.mem_cons_of_mem _ hleaf, he⟩

/-- Placing leaves takes a number for each axis, and gives what the request has for the leaves. -/
theorem placeLeaves_eq_ok {spec : PlacementSpec} {rank : Nat} :
    ∀ {leaves : List (String × Tensor)} {before after : Table Directive},
      placeLeaves spec rank leaves before = .ok after →
        (∀ leaf ∈ leaves.map Prod.fst, ∃ d, spec.directiveFor leaf rank = .ok d) ∧
          after = placementFor spec rank (leaves.map Prod.fst) before
  | [], before, after, h => ⟨nofun, (Except.ok.inj h).symm⟩
  | (qualified, t) :: rest, before, after, h => by
    obtain ⟨d, hd, h⟩ := Outcome.bind_eq_ok_iff.1 h
    obtain ⟨hrest, rfl⟩ := placeLeaves_eq_ok h
    have hfirst := placeLeaf_eq_ok hd
    refine ⟨List.forall_mem_cons.2 ⟨⟨d, hfirst⟩, hrest⟩, ?_⟩
    rw [eq_directive_of_directiveFor hfirst]
    rfl

theorem shard_eq_ok_iff {s s' : State} {spec : PlacementSpec} :
    s.shard spec = .ok s' ↔
      spec.isTrivial = true ∧ s' = s ∨
      ¬ spec.isTrivial = true ∧ (∀ e ∈ spec.splitAxes, ∃ t, s.leaf e.1 = .ok t) ∧
        ∃ placement, placeLeaves spec s.batchDims.length s.leaves [] = .ok placement ∧
          s' = { s with placement } := by
  rw [shard]
  split
  · next htrivial =>
    refine ⟨fun h => Or.inl ⟨htrivial, (Except.ok.inj h).symm⟩, ?_⟩
    rintro (⟨-, rfl⟩ | ⟨hmany, -⟩)
    · rfl
    · exact absurd htrivial hmany
  · next hmany =>
    rw [Outcome.bind_eq_ok_iff]
    constructor
    · rintro ⟨⟨⟩, hlisted, h⟩
      obtain ⟨placement, hplacement, h⟩ := Outcome.bind_eq_ok_iff.1 h
      refine Or.inr ⟨hmany, fun e he => ?_, placement, hplacement, (Except.ok.inj h).symm⟩
      obtain ⟨t, ht, -⟩ := Outcome.bind_eq_ok_iff.1 (Outcome.forM_eq_ok_iff.1 hlisted e he)
      exact ⟨t, ht⟩
    · rintro (⟨htrivial, -⟩ | ⟨-, hlisted, placement, hplacement, rfl⟩)
      · exact absurd htrivial hmany
      · refine ⟨(), Outcome.forM_eq_ok_iff.2 fun e he => ?_, by rw [hplacement]; rfl⟩
        obtain ⟨t, ht⟩ := hlisted e he
        exact Outcome.bind_eq_ok_iff.2 ⟨t, ht, rfl⟩

/-- Placing a state changes at most where its leaves are. -/
theorem exists_of_shard {s s' : State} {spec : PlacementSpec} (h : s.shard spec = .ok s') :
    ∃ placement, s' = { s with placement } := by
  rcases shard_eq_ok_iff.1 h with ⟨-, rfl⟩ | ⟨-, -, placement, -, rfl⟩
  · obtain ⟨nodes, dims, placement⟩ := s'
    exact ⟨placement, rfl⟩
  · exact ⟨placement, rfl⟩

/-- With several devices, how a state was placed before plays no part. -/
theorem shard_of_placement {spec : PlacementSpec} (hmany : ¬ spec.isTrivial = true) (s : State)
    (placement : Table Directive) : shard { s with placement } spec = shard s spec := by
  rw [shard, if_neg hmany, shard, if_neg hmany]
  rfl

/-! ## Names of leaves -/

/-- The names of the tensor leaves at this level. -/
def leafNames (s : State) : List String := s.leaves.map Prod.fst

theorem leavesAt_localPart (j : Nat) (path : String) (l : LocalState) :
    leavesAt path (localPart j l) =
      (leavesAt path l).map fun e => (e.1, e.2.rows[j]?.getD e.2) := by
  induction l with
  | nil => rfl
  | cons e rest ih =>
    obtain ⟨name, v⟩ := e
    simp only [leavesAt, localPart, List.map_filterMap] at ih ⊢
    cases v with
    | tensor t =>
      rw [List.filterMap_cons, List.filterMap_cons, ih]
      rfl
    | state s =>
      rw [List.filterMap_cons, List.filterMap_cons, ih]
      rfl

/-- The leaves of a part are the rows of the leaves of the whole. -/
theorem leaves_part (j : Nat) (s : State) :
    (s.part j).leaves = s.leaves.map fun e => (e.1, e.2.rows[j]?.getD e.2) := by
  rw [leaves, leaves, nodes_part, Table.mapValues]
  simp only [List.flatMap_map, List.map_flatMap, leavesAt_localPart]

/-- The parts of a batch have its leaves. -/
theorem leafNames_part (j : Nat) (s : State) : (s.part j).leafNames = s.leafNames := by
  rw [leafNames, leafNames, leaves_part, List.map_map]
  rfl

theorem leafNames_of_mem_unstack {s x : State} {xs : List State} (h : s.unstack = .ok xs)
    (hx : x ∈ xs) : x.leafNames = s.leafNames := by
  obtain ⟨j, hj⟩ := List.mem_iff_getElem?.1 hx
  rw [((getElem?_of_unstack h).1 hj).2, leafNames_part]

theorem rank_of_mem_unstack {s x : State} {xs : List State} (h : s.unstack = .ok xs)
    (hx : x ∈ xs) : s.batchDims.length = x.batchDims.length + 1 := by
  rw [batchDims_of_mem_unstack h hx, batchDims_of_unstack h]
  rfl

/-! ## Placed states -/

/-- The state with what a request has for its leaves. -/
def placed (spec : PlacementSpec) (s : State) : State :=
  if spec.isTrivial then s
  else { s with placement := placementFor spec s.batchDims.length s.leafNames [] }

theorem eq_placed_of_shard {spec : PlacementSpec} {s t : State} (h : s.shard spec = .ok t) :
    t = s.placed spec := by
  rw [placed]
  rcases shard_eq_ok_iff.1 h with ⟨htrivial, rfl⟩ | ⟨htrivial, -, placement, hplacement, rfl⟩
  · rw [if_pos htrivial]
  · rw [if_neg htrivial, (placeLeaves_eq_ok hplacement).2]
    rfl

/-- What is placed stays as it is when it is placed again. -/
theorem placed_placed (spec : PlacementSpec) (s : State) :
    (s.placed spec).placed spec = s.placed spec := by
  rw [placed, placed]
  split
  · rfl
  · rfl

/-- The directives of a placed state have room for more axes in front, as far as the request and the
placement before have. -/
theorem fitsBehind_of_shard {spec : PlacementSpec} {s t : State} {axes : Nat}
    (h : s.shard spec = .ok t) (hs : PlacementFitsBehind axes s.placement)
    (hspec : ∀ e ∈ spec.splitAxes, e.2.toNat + s.batchDims.length + axes < UInt64.size) :
    PlacementFitsBehind axes t.placement := by
  rcases shard_eq_ok_iff.1 h with ⟨-, rfl⟩ | ⟨-, -, placement, hplacement, rfl⟩
  · exact hs
  · obtain ⟨-, rfl⟩ := placeLeaves_eq_ok hplacement
    intro e he
    rcases exists_of_mem_placementFor he with hnone | ⟨leaf, -, hleaf⟩
    · cases hnone
    · rw [hleaf, directive]
      cases hget : spec.splitAxes.get? leaf with
      | none => trivial
      | some axis =>
        dsimp only
        split
        · trivial
        · have hfits := hspec _ (Table.mem_of_get?_eq_some hget)
          have hword := UInt64.toNat_ofNat_of_lt' (Nat.lt_of_le_of_lt (Nat.le_add_right ..) hfits)
          exact (congrArg (· + axes) hword).trans_lt hfits

theorem forall₂_shard_iff {spec : PlacementSpec} {xs ys : List State} :
    List.Forall₂ (fun x y => x.shard spec = .ok y) xs ys ↔
      (∀ x ∈ xs, ∃ y, x.shard spec = .ok y) ∧ ys = xs.map (placed spec) := by
  constructor
  · intro h
    induction h with
    | nil => exact ⟨nofun, rfl⟩
    | cons hx _ ih =>
      obtain ⟨hall, rfl⟩ := ih
      exact ⟨List.forall_mem_cons.2 ⟨⟨_, hx⟩, hall⟩, by rw [List.map_cons, eq_placed_of_shard hx]⟩
  · rintro ⟨hall, rfl⟩
    rw [List.forall₂_map_right_iff, List.forall₂_same]
    intro x hx
    obtain ⟨y, hy⟩ := hall x hx
    rw [hy, eq_placed_of_shard hy]

/-- What the placement of a placed state says of a leaf. -/
theorem get?_placement_of_shard {spec : PlacementSpec} (hmany : ¬ spec.isTrivial = true)
    {s t : State} (h : s.shard spec = .ok t) (leaf : String) : Table.get? leaf t.placement =
      if leaf ∈ s.leafNames then some (spec.directive leaf s.batchDims.length) else none := by
  rw [eq_placed_of_shard h, placed, if_neg hmany]
  exact get?_placementFor

/-! ## Placed states in a batch -/

theorem stackNodes_of_placement {others : List State}
    {nodes : List (String × List (String × Value))} (placement : Table Directive) :
    stackNodes nodes (others.map fun o => { o with placement }) = stackNodes nodes others := by
  induction nodes with
  | nil => rw [stackNodes, stackNodes]
  | cons e rest ih =>
    obtain ⟨path, l⟩ := e
    rw [stackNodes, stackNodes, ih, List.map_map]
    rfl

/-- States that can be stacked can be stacked with another placement in place of the one that they
share. -/
theorem stack_of_placement {xs : List State} {s : State} (h : stack xs = .ok s)
    {placement moved : Table Directive} (hmoved : placementOutward placement = .ok moved) :
    stack (xs.map fun x => { x with placement }) = .ok { s with placement := moved } := by
  cases xs with
  | nil => cases h
  | cons x others =>
    obtain ⟨hcheck, nodes, hnodes, -, -, rfl⟩ := stackOnto_eq_ok_iff.1 h
    refine stackOnto_eq_ok_iff.2 ⟨fun o ho => ?_, nodes, ?_, moved, hmoved, ?_⟩
    · obtain ⟨o', ho', rfl⟩ := List.mem_map.1 ho
      obtain ⟨hdims, hpaths, -⟩ := hcheck o' ho'
      exact ⟨hdims, hpaths, rfl⟩
    · exact (stackNodes_of_placement placement).trans hnodes
    · rw [List.length_map]

theorem unstack_of_placement {s : State} {xs : List State} (h : s.unstack = .ok xs)
    (placement : Table Directive) :
    unstack { s with placement } =
      .ok (xs.map fun x => { x with placement := placement.mapValues Directive.inward }) := by
  obtain ⟨count, dims, hdims, lanes, hlanes, rfl⟩ := unstack_eq_ok_iff.1 h
  refine unstack_eq_ok_iff.2 ⟨count, dims, hdims, lanes, hlanes, ?_⟩
  rw [List.map_map]
  rfl

/-- What a request has for the leaves of a batch, without the outermost axis. -/
theorem mapValues_inward_placementFor {spec : PlacementSpec} {rank : Nat} :
    ∀ {names : List String} {before : Table Directive},
      (∀ leaf ∈ names, ∃ d, spec.directiveFor leaf (rank + 1) = .ok d) →
        (placementFor spec (rank + 1) names before).mapValues Directive.inward =
          placementFor spec rank names (before.mapValues Directive.inward)
  | [], _, _ => rfl
  | name :: rest, before, h => by
    obtain ⟨⟨d, hd⟩, hrest⟩ := List.forall_mem_cons.1 h
    rw [placementFor, placementFor, mapValues_inward_placementFor hrest, Table.mapValues_insert,
      inward_directive hd]

/-- What a request has for the leaves of states is what it has for those of their batch, moved
outward. -/
theorem placementOutward_placementFor {spec : PlacementSpec} {rank : Nat} {names : List String}
    (h : ∀ leaf ∈ names, ∃ d, spec.directiveFor leaf (rank + 1) = .ok d) :
    placementOutward (placementFor spec rank names []) =
      .ok (placementFor spec (rank + 1) names []) := by
  have hinward : (placementFor spec (rank + 1) names []).mapValues Directive.inward =
      placementFor spec rank names [] := mapValues_inward_placementFor h
  rw [← hinward]
  refine placementOutward_mapValues_inward fun e he => ?_
  obtain ⟨leaf, hleaf, he⟩ := (exists_of_mem_placementFor he).resolve_left List.not_mem_nil
  obtain ⟨d', hd'⟩ := h leaf hleaf
  obtain ⟨d, -, hmoved⟩ := directiveFor_succ.1 hd'
  exact ⟨d, by rw [he, ← eq_directive_of_directiveFor hd', hmoved]⟩

end State

/-- Every axis that a request has for a leaf of the state is numbered by a word. -/
def PlacementSpec.Numbers (spec : PlacementSpec) (s : State) : Prop :=
  ∀ leaf ∈ s.leafNames, ∃ d, spec.directiveFor leaf s.batchDims.length = .ok d

namespace State

open PlacementSpec

variable {spec : PlacementSpec}

/-- A state is placed only when all axes have a number. -/
theorem numbers_of_shard {s t : State} (h : s.shard spec = .ok t) : spec.Numbers s := by
  rcases shard_eq_ok_iff.1 h with ⟨htrivial, rfl⟩ | ⟨-, -, placement, hplacement, rfl⟩
  · exact fun leaf _ => ⟨_, directiveFor_of_trivial htrivial leaf _⟩
  · exact (placeLeaves_eq_ok hplacement).1

theorem numbers_of_mem_unstack {s x : State} {xs : List State} (h : spec.Numbers s)
    (hxs : s.unstack = .ok xs) (hx : x ∈ xs) : spec.Numbers x := by
  intro leaf hleaf
  rw [leafNames_of_mem_unstack hxs hx] at hleaf
  obtain ⟨d', hd'⟩ := h leaf hleaf
  rw [rank_of_mem_unstack hxs hx] at hd'
  obtain ⟨d, hd, -⟩ := directiveFor_succ.1 hd'
  exact ⟨d, hd⟩

@[simp] theorem batchDims_placed (spec : PlacementSpec) (s : State) :
    (s.placed spec).batchDims = s.batchDims := by
  rw [placed]
  split <;> rfl

/-- **A placed batch is taken apart into the placed parts.** -/
theorem unstack_placed {s : State} {xs : List State} (hnumbers : spec.Numbers s)
    (h : s.unstack = .ok xs) : (s.placed spec).unstack = .ok (xs.map (placed spec)) := by
  rw [placed]
  by_cases htrivial : spec.isTrivial = true
  · have hid : xs.map (placed spec) = xs := List.map_id'' (fun x => if_pos htrivial) xs
    rw [if_pos htrivial, h, hid]
  · rw [if_neg htrivial, unstack_of_placement h]
    congr 1
    refine List.map_congr_left fun x hx => ?_
    -- placing looks at the rank and at the names of leaves only
    rw [PlacementSpec.Numbers, rank_of_mem_unstack h hx] at hnumbers
    rw [placed, if_neg htrivial, rank_of_mem_unstack h hx, leafNames_of_mem_unstack h hx,
      mapValues_inward_placementFor hnumbers]
    rfl

/-- **Placed states stack to the placed batch.** -/
theorem stack_placed {xs : List State} {s : State} (hnumbers : spec.Numbers s)
    (h : stack xs = .ok s) (hnames : ∀ x ∈ xs, x.leafNames = s.leafNames) :
    stack (xs.map (placed spec)) = .ok (s.placed spec) := by
  by_cases htrivial : spec.isTrivial = true
  · have hid : ∀ x : State, x.placed spec = x := fun x => if_pos htrivial
    rw [List.map_id'' hid, hid, h]
  · have hrank : ∀ x ∈ xs, s.batchDims.length = x.batchDims.length + 1 := by
      intro x hx
      rw [batchDims_of_stack h hx]
      rfl
    obtain ⟨first, others, rfl, -⟩ := stack_eq_ok h
    -- all states have one rank and the leaves of the batch, so one placement
    have hfirst := hrank first List.mem_cons_self
    have hsame : ∀ x ∈ first :: others, x.placed spec =
        { x with placement := placementFor spec first.batchDims.length s.leafNames [] } := by
      intro x hx
      have hlength : x.batchDims.length = first.batchDims.length := by
        have hx := hrank x hx
        omega
      rw [placed, if_neg htrivial, hnames x hx, hlength]
    rw [PlacementSpec.Numbers, hfirst] at hnumbers
    rw [List.map_congr_left hsame, stack_of_placement h (placementOutward_placementFor hnumbers),
      placed, if_neg htrivial, hfirst]

end State

end Lockstep
