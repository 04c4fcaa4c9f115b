import Lockstep.Proofs.State.Stack

/-!
# Parts of a state

`State.part j s` is what number `j` along the outermost batch axis has of a state: row `j` of every
tensor, and part `j` of every state inside. A state can be taken apart exactly when all its tensors
share the outermost axis (`HasParts`), and then it is taken apart into these
(`unstack_eq_ok_iff_parts`). So what is in a part under a path depends on what the state has under
that path alone (`get?_nodes_part`).
-/

namespace Lockstep

mutual

/-- What a number along the leading axis has of a value. -/
def Value.part (j : Nat) : Value → Value
  | .tensor t => .tensor (t.rows[j]?.getD t)
  | .state s => .state (s.part j)

/-- What a number along the outermost batch axis has of a state. -/
def State.part (j : Nat) : State → State
  | ⟨nodes, dims, placement⟩ =>
    ⟨nodesPart j nodes, dims.tail, Table.mapValues Directive.inward placement⟩

/-- What a number along the outermost batch axis has of nodes. -/
def nodesPart (j : Nat) : List (String × List (String × Value)) →
    List (String × List (String × Value))
  | [] => []
  | (path, l) :: rest => (path, localPart j l) :: nodesPart j rest

/-- What a number along the outermost batch axis has of a local state. -/
def localPart (j : Nat) : List (String × Value) → List (String × Value)
  | [] => []
  | (name, v) :: rest => (name, v.part j) :: localPart j rest

end

mutual

/-- The value has the given count of parts. -/
def Value.HasParts (count : Nat) : Value → Prop
  | .tensor t => ∃ inner, t.shape = count :: inner
  | .state s => s.HasParts count

/-- The outermost batch axis of a state has the given length, and so have all tensors in it. -/
def State.HasParts (count : Nat) : State → Prop
  | ⟨nodes, dims, _⟩ => dims.head? = some count ∧ nodesHaveParts count nodes

/-- All tensors in the nodes have the given count of parts. -/
def nodesHaveParts (count : Nat) : List (String × List (String × Value)) → Prop
  | [] => True
  | (_, l) :: rest => localHasParts count l ∧ nodesHaveParts count rest

/-- All tensors in a local state have the given count of parts. -/
def localHasParts (count : Nat) : List (String × Value) → Prop
  | [] => True
  | (_, v) :: rest => v.HasParts count ∧ localHasParts count rest

end

theorem localPart_eq_mapValues {j : Nat} :
    ∀ {l : List (String × Value)}, localPart j l = Table.mapValues (Value.part j) l
  | [] => rfl
  | (name, v) :: rest => by
    rw [localPart, localPart_eq_mapValues]
    rfl

theorem nodesPart_eq_mapValues {j : Nat} :
    ∀ {nodes : List (String × List (String × Value))},
      nodesPart j nodes = Table.mapValues (localPart j) nodes
  | [] => rfl
  | (path, l) :: rest => by
    rw [nodesPart, nodesPart_eq_mapValues]
    rfl

theorem localHasParts_iff {count : Nat} :
    ∀ {l : List (String × Value)}, localHasParts count l ↔ ∀ e ∈ l, e.2.HasParts count
  | [] => by simp [localHasParts]
  | (name, v) :: rest => by
    rw [localHasParts, List.forall_mem_cons, localHasParts_iff]

theorem nodesHaveParts_iff {count : Nat} :
    ∀ {nodes : List (String × List (String × Value))},
      nodesHaveParts count nodes ↔ ∀ e ∈ nodes, localHasParts count e.2
  | [] => by simp [nodesHaveParts]
  | (path, l) :: rest => by
    rw [nodesHaveParts, List.forall_mem_cons, nodesHaveParts_iff]

namespace State

theorem hasParts_iff {count : Nat} {s : State} :
    s.HasParts count ↔
      s.batchDims.head? = some count ∧ ∀ e ∈ s.nodes, localHasParts count e.2 := by
  obtain ⟨nodes, dims, placement⟩ := s
  rw [HasParts, nodesHaveParts_iff]

@[simp] theorem nodes_part (j : Nat) (s : State) :
    (s.part j).nodes = Table.mapValues (localPart j) s.nodes := by
  obtain ⟨nodes, dims, placement⟩ := s
  exact nodesPart_eq_mapValues

@[simp] theorem batchDims_part (j : Nat) (s : State) :
    (s.part j).batchDims = s.batchDims.tail := by
  obtain ⟨nodes, dims, placement⟩ := s
  rfl

@[simp] theorem placement_part (j : Nat) (s : State) :
    (s.part j).placement = Table.mapValues Directive.inward s.placement := by
  obtain ⟨nodes, dims, placement⟩ := s
  rfl

/-- What a part has under a path is what the part has of the local state there. -/
theorem get?_nodes_part (j : Nat) (s : State) (path : String) :
    Table.get? path (s.part j).nodes = (Table.get? path s.nodes).map (localPart j) := by
  rw [nodes_part, Table.get?_mapValues]

/-! ## Taking apart gives the parts -/

theorem map_rows {t : Tensor} {count : Nat} {inner : List Nat} (h : t.shape = count :: inner) :
    t.rows.map Value.tensor = (List.range count).map fun j => (Value.tensor t).part j := by
  have hlength : t.rows.length = count := Tensor.length_rows h
  refine List.ext_getElem (by simp [hlength]) fun j hj hj' => ?_
  rw [List.length_map] at hj
  simp only [List.getElem_map, List.getElem_range, Value.part, List.getElem?_eq_getElem hj,
    Option.getD_some]

mutual

theorem unstackValue_eq_ok_iff_parts {count : Nat} :
    ∀ {v : Value} {parts : List Value}, unstackValue v = .ok parts ∧ parts.length = count ↔
      v.HasParts count ∧ parts = (List.range count).map fun j => v.part j
  | .tensor t, parts => by
    rw [unstackValue_tensor_eq_ok_iff, Value.HasParts]
    constructor
    · rintro ⟨⟨⟨count', inner, hshape⟩, rfl⟩, hlength⟩
      rw [List.length_map, Tensor.length_rows hshape] at hlength
      subst hlength
      exact ⟨⟨inner, hshape⟩, map_rows hshape⟩
    · rintro ⟨⟨inner, hshape⟩, rfl⟩
      exact ⟨⟨⟨count, inner, hshape⟩, (map_rows hshape).symm⟩, by simp⟩
  | .state s, parts => by
    rw [unstackValue_state_eq_ok_iff, Value.HasParts]
    constructor
    · rintro ⟨⟨xs, hxs, rfl⟩, hlength⟩
      rw [List.length_map] at hlength
      obtain ⟨hparts, rfl⟩ := unstack_eq_ok_iff_hasParts.1 ⟨hxs, hlength⟩
      refine ⟨hparts, ?_⟩
      rw [List.map_map]
      rfl
    · rintro ⟨hparts, rfl⟩
      obtain ⟨hxs, hlength⟩ := unstack_eq_ok_iff_hasParts.2 ⟨hparts, rfl⟩
      refine ⟨⟨_, hxs, ?_⟩, by simp⟩
      rw [List.map_map]
      rfl

theorem unstack_eq_ok_iff_hasParts {count : Nat} :
    ∀ {s : State} {xs : List State}, s.unstack = .ok xs ∧ xs.length = count ↔
      s.HasParts count ∧ xs = (List.range count).map fun j => s.part j
  | ⟨nodes, dims, placement⟩, xs => by
    rw [unstack_eq_ok_iff, HasParts]
    have hmap : ∀ lanes : List (List (String × List (String × Value))),
        lanes = (List.range count).map (fun j => nodesPart j nodes) →
        lanes.map (partWith ⟨nodes, dims, placement⟩) =
          (List.range count).map fun j => part j ⟨nodes, dims, placement⟩ := by
      rintro lanes rfl
      rw [List.map_map]
      rfl
    constructor
    · rintro ⟨⟨count', dims', hdims, lanes, hlanes, rfl⟩, hlength⟩
      rw [List.length_map, length_of_unstackNodes hlanes] at hlength
      -- the count of parts is the length of the outermost axis
      subst hlength
      obtain ⟨hparts, hlanes⟩ := unstackNodes_eq_ok_iff_parts.1 hlanes
      exact ⟨⟨List.head?_eq_some_iff.2 ⟨dims', hdims⟩, hparts⟩, hmap lanes hlanes⟩
    · rintro ⟨⟨hhead, hparts⟩, rfl⟩
      obtain ⟨dims', rfl⟩ := List.head?_eq_some_iff.1 hhead
      have hlanes := unstackNodes_eq_ok_iff_parts.2 ⟨hparts, rfl⟩
      exact ⟨⟨count, dims', rfl, _, hlanes, (hmap _ rfl).symm⟩, by simp⟩

theorem unstackNodes_eq_ok_iff_parts {count : Nat} :
    ∀ {nodes : List (String × List (String × Value))}
      {lanes : List (List (String × List (String × Value)))},
      unstackNodes count nodes = .ok lanes ↔
        nodesHaveParts count nodes ∧ lanes = (List.range count).map fun j => nodesPart j nodes
  | [], lanes => by
    rw [unstackNodes, nodesHaveParts, Except.ok.injEq, true_and]
    simp only [nodesPart, List.map_const', List.length_range]
    exact eq_comm
  | (path, l) :: rest, lanes => by
    rw [unstackNodes_cons_eq_ok_iff, nodesHaveParts]
    constructor
    · rintro ⟨ls, hls, more, hmore, rfl⟩
      obtain ⟨hl, rfl⟩ := unstackLocal_eq_ok_iff_parts.1 hls
      obtain ⟨hrest, rfl⟩ := unstackNodes_eq_ok_iff_parts.1 hmore
      refine ⟨⟨hl, hrest⟩, ?_⟩
      rw [List.zipWith_map, List.zipWith_self]
      rfl
    · rintro ⟨⟨hl, hrest⟩, rfl⟩
      refine ⟨_, unstackLocal_eq_ok_iff_parts.2 ⟨hl, rfl⟩, _,
        unstackNodes_eq_ok_iff_parts.2 ⟨hrest, rfl⟩, ?_⟩
      rw [List.zipWith_map, List.zipWith_self]
      rfl

theorem unstackLocal_eq_ok_iff_parts {count : Nat} {path : String} :
    ∀ {l : List (String × Value)} {lanes : List (List (String × Value))},
      unstackLocal count path l = .ok lanes ↔
        localHasParts count l ∧ lanes = (List.range count).map fun j => localPart j l
  | [], lanes => by
    rw [unstackLocal, localHasParts, Except.ok.injEq, true_and]
    simp only [localPart, List.map_const', List.length_range]
    exact eq_comm
  | (name, v) :: rest, lanes => by
    rw [unstackLocal_cons_eq_ok_iff, localHasParts]
    constructor
    · rintro ⟨parts, hparts, hlength, more, hmore, rfl⟩
      obtain ⟨hv, rfl⟩ := unstackValue_eq_ok_iff_parts.1 ⟨hparts, hlength⟩
      obtain ⟨hrest, rfl⟩ := unstackLocal_eq_ok_iff_parts.1 hmore
      refine ⟨⟨hv, hrest⟩, ?_⟩
      rw [List.zipWith_map, List.zipWith_self]
      rfl
    · rintro ⟨⟨hv, hrest⟩, rfl⟩
      obtain ⟨hparts, hlength⟩ := unstackValue_eq_ok_iff_parts.2 ⟨hv, rfl⟩
      refine ⟨_, hparts, hlength, _, unstackLocal_eq_ok_iff_parts.2 ⟨hrest, rfl⟩, ?_⟩
      rw [List.zipWith_map, List.zipWith_self]
      rfl

end

/-- A state is taken apart into its parts. -/
theorem unstack_eq_ok_iff_parts {s : State} {xs : List State} :
    s.unstack = .ok xs ↔
      s.HasParts xs.length ∧ xs = (List.range xs.length).map fun j => s.part j :=
  ⟨fun h => unstack_eq_ok_iff_hasParts.1 ⟨h, rfl⟩, fun h => (unstack_eq_ok_iff_hasParts.2 h).1⟩

theorem getElem?_of_unstack {s : State} {xs : List State} (h : s.unstack = .ok xs) {j : Nat}
    {x : State} : xs[j]? = some x ↔ j < xs.length ∧ x = s.part j := by
  have hxs := (unstack_eq_ok_iff_parts.1 h).2
  constructor
  · intro hx
    have hlt : j < xs.length := (List.getElem?_eq_some_iff.1 hx).1
    rw [hxs, List.getElem?_map, List.getElem?_range hlt] at hx
    exact ⟨hlt, (Option.some.inj hx).symm⟩
  · rintro ⟨hlt, rfl⟩
    rw [hxs, List.getElem?_map, List.getElem?_range hlt]
    rfl

/-! ## Stacked states have parts -/

mutual

theorem hasParts_of_stackValue :
    ∀ {v : Value} {qualified : String} {vs : List Value} {r : Value},
      stackValue qualified v vs = .ok r → r.HasParts (vs.length + 1)
  | .tensor t, qualified, vs, r, h => by
    obtain ⟨ts, rfl, hshape, -, rfl⟩ := stackValue_tensor_eq_ok_iff.1 h
    rw [List.length_map]
    exact ⟨t.shape, rfl⟩
  | .state s, qualified, vs, r, h => by
    obtain ⟨ss, rfl, x, hx, rfl⟩ := stackValue_state_eq_ok_iff.1 h
    rw [List.length_map]
    exact hasParts_of_stackOnto hx

/-- A stacked state has as many parts as states were stacked. -/
theorem hasParts_of_stackOnto :
    ∀ {s : State} {others : List State} {r : State},
      stackOnto s others = .ok r → r.HasParts (others.length + 1)
  | ⟨nodes, dims, placement⟩, others, r, h => by
    obtain ⟨-, nodes', hnodes, moved, -, rfl⟩ := stackOnto_eq_ok_iff.1 h
    exact ⟨rfl, hasParts_of_stackNodes hnodes⟩

theorem hasParts_of_stackNodes :
    ∀ {nodes : List (String × List (String × Value))} {others : List State}
      {r : List (String × List (String × Value))},
      stackNodes nodes others = .ok r → nodesHaveParts (others.length + 1) r
  | [], others, r, h => by
    rw [stackNodes] at h
    rw [← Except.ok.inj h]
    trivial
  | (path, l) :: rest, others, r, h => by
    obtain ⟨stacked, hstacked, -, more, hmore, rfl⟩ := stackNodes_cons_eq_ok_iff.1 h
    have hlocal := hasParts_of_stackLocal hstacked
    -- each of the other states gives one local state
    rw [localsAt, List.length_map] at hlocal
    exact ⟨hlocal, hasParts_of_stackNodes hmore⟩

theorem hasParts_of_stackLocal :
    ∀ {l : List (String × Value)} {path : String} {others : List LocalState}
      {r : List (String × Value)},
      stackLocal path l others = .ok r → localHasParts (others.length + 1) r
  | [], path, others, r, h => by
    rw [stackLocal] at h
    rw [← Except.ok.inj h]
    trivial
  | (name, v) :: rest, path, others, r, h => by
    obtain ⟨vs, hvs, w, hw, more, hmore, rfl⟩ := stackLocal_cons_eq_ok_iff.1 h
    have hvalue := hasParts_of_stackValue hw
    rw [← hvs.length_eq] at hvalue
    exact ⟨hvalue, hasParts_of_stackLocal hmore⟩

end

/-- What was stacked can be taken apart. -/
theorem exists_unstack_of_stack {xs : List State} {s : State} (h : stack xs = .ok s) :
    ∃ ys, s.unstack = .ok ys ∧ ys.length = xs.length := by
  cases xs with
  | nil => cases h
  | cons x others =>
    exact ⟨_, unstack_eq_ok_iff_hasParts.2 ⟨hasParts_of_stackOnto h, rfl⟩⟩

end State

end Lockstep
