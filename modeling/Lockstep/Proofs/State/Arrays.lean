import Lockstep.Proofs.State.Placements

/-!
# States whose leaves could be arrays

Stacking refuses a leaf of a shape that no array can have. So whether states can be stacked along
given axes depends on the shapes that their leaves would get (`State.FitsArrays`). The leaves of a
batch that was stacked could be arrays, at every depth (`holdsArrays_of_stack`), so those of its
parts and lanes could be arrays with the batch axes in front (`fitsArrays_part_iff`,
`FitsArrays.of_mem_flatten`).
-/

namespace Lockstep

/-- The value is a state, or a tensor that could be an array with the given axes in front. -/
def Value.LeafFits (dims : List Nat) : Value → Prop
  | .tensor t => Tensor.IsArrayShape (dims ++ t.shape)
  | .state _ => True

instance (dims : List Nat) : (v : Value) → Decidable (v.LeafFits dims)
  | .tensor t => inferInstanceAs (Decidable (Tensor.IsArrayShape (dims ++ t.shape)))
  | .state _ => inferInstanceAs (Decidable True)

/-- The leaves of a state could be arrays with the given axes in front. -/
def State.leavesFit (dims : List Nat) (s : State) : Prop :=
  ∀ e ∈ s.nodes, ∀ a ∈ e.2, a.2.LeafFits dims

/-- The leaves could be arrays with the given axes in front, at every depth. -/
def State.FitsArrays (dims : List Nat) (s : State) : Prop := s.Everywhere (State.leavesFit dims)

/-- The leaves could be arrays, at every depth. -/
def State.HoldsArrays (s : State) : Prop := s.FitsArrays []

/-- A leaf that fits with an axis in front fits without it. -/
theorem Value.LeafFits.tail {count : Nat} {dims : List Nat} {v : Value}
    (h : v.LeafFits (count :: dims)) : v.LeafFits dims := by
  cases v with
  | tensor t => exact Tensor.IsArrayShape.tail h
  | state s => trivial

namespace State

/-- So does a state. -/
theorem FitsArrays.tail {count : Nat} {dims : List Nat} {s : State}
    (h : s.FitsArrays (count :: dims)) : s.FitsArrays dims :=
  Everywhere.imp h fun _ hs e he a ha => (hs e he a ha).tail

/-- Only the nodes of a state decide whether it fits. -/
theorem FitsArrays.of_nodes_eq {dims : List Nat} {s s' : State} (h : s.FitsArrays dims)
    (hn : s'.nodes = s.nodes) : s'.FitsArrays dims := by
  rw [FitsArrays, everywhere_iff, leavesFit, hn]
  exact everywhere_iff.1 h

end State

/-! ## Functions of values that go through states -/

/-- A function of values that goes through a state to the values of its attributes. -/
structure Value.Pointwise (F : Value → Value) : Prop where
  tensor : ∀ t, ∃ u, F (.tensor t) = .tensor u
  state : ∀ s, ∃ s', F (.state s) = .state s' ∧
    s'.nodes = Table.mapValues (Table.mapValues F) s.nodes

section

variable {F : Value → Value} {H : Value → Prop} {P Q : State → Prop} {dims dims' : List Nat}

mutual

/-- What such a function does to a property of a state it does at every depth. It may depend on a
property of values that the values inside a state have with it. -/
theorem Value.Pointwise.everywhere_iff (hF : Pointwise F)
    (hinside : ∀ s, H (.state s) → ∀ e ∈ s.nodes, ∀ a ∈ e.2, H a.2)
    (hstate : ∀ s s', H (.state s) → F (.state s) = .state s' → (Q s' ↔ P s)) :
    ∀ {v : Value}, H v → ((F v).Everywhere Q ↔ v.Everywhere P)
  | .tensor t, _ => by
    obtain ⟨u, hu⟩ := hF.tensor t
    rw [hu]
    rfl
  | .state ⟨nodes, batchDims, placement⟩, h => by
    obtain ⟨s', hs', hnodes⟩ := hF.state ⟨nodes, batchDims, placement⟩
    rw [hs', Value.Everywhere, State.everywhere_iff, ← Lockstep.nodesEverywhere_iff, hnodes]
    exact and_congr (hstate _ s' h hs') (hF.nodesEverywhere_iff hinside hstate (hinside _ h))

/-- The same for the values at the nodes of a state. -/
theorem Value.Pointwise.nodesEverywhere_iff (hF : Pointwise F)
    (hinside : ∀ s, H (.state s) → ∀ e ∈ s.nodes, ∀ a ∈ e.2, H a.2)
    (hstate : ∀ s s', H (.state s) → F (.state s) = .state s' → (Q s' ↔ P s)) :
    ∀ {nodes : List (String × List (String × Value))}, (∀ e ∈ nodes, ∀ a ∈ e.2, H a.2) →
      (nodesEverywhere Q (Table.mapValues (Table.mapValues F) nodes) ↔ nodesEverywhere P nodes)
  | [], _ => Iff.rfl
  | (_, _) :: _, h =>
    and_congr (hF.localEverywhere_iff hinside hstate (List.forall_mem_cons.1 h).1)
      (hF.nodesEverywhere_iff hinside hstate (List.forall_mem_cons.1 h).2)

/-- The same for the values of a local state. -/
theorem Value.Pointwise.localEverywhere_iff (hF : Pointwise F)
    (hinside : ∀ s, H (.state s) → ∀ e ∈ s.nodes, ∀ a ∈ e.2, H a.2)
    (hstate : ∀ s s', H (.state s) → F (.state s) = .state s' → (Q s' ↔ P s)) :
    ∀ {l : List (String × Value)}, (∀ a ∈ l, H a.2) →
      (localEverywhere Q (Table.mapValues F l) ↔ localEverywhere P l)
  | [], _ => Iff.rfl
  | (_, _) :: _, h =>
    and_congr (hF.everywhere_iff hinside hstate (List.forall_mem_cons.1 h).1)
      (hF.localEverywhere_iff hinside hstate (List.forall_mem_cons.1 h).2)

end

/-- What such a function does to the axes in front of each leaf it does at every depth. -/
theorem Value.Pointwise.everywhere_leavesFit_iff (hF : Pointwise F)
    (hinside : ∀ s, H (.state s) → ∀ e ∈ s.nodes, ∀ a ∈ e.2, H a.2)
    (hleaf : ∀ v, H v → ((F v).LeafFits dims' ↔ v.LeafFits dims)) {v : Value} (hv : H v) :
    (F v).Everywhere (State.leavesFit dims') ↔ v.Everywhere (State.leavesFit dims) := by
  refine hF.everywhere_iff hinside (fun s s' hs h => ?_) hv
  obtain ⟨t, ht, hnodes⟩ := hF.state s
  obtain rfl := Value.state.inj (ht.symm.trans h)
  simp only [State.leavesFit, hnodes, Table.mapValues, List.forall_mem_map]
  exact forall₂_congr fun e he => forall₂_congr fun a ha => hleaf a.2 (hinside s hs e he a ha)

/-- What such a function does to the axes in front of each leaf it does to those of a state. -/
theorem Value.Pointwise.fitsArrays_iff (hF : Pointwise F)
    (hleaf : ∀ v, (F v).LeafFits dims' ↔ v.LeafFits dims) {s s' : State}
    (hs : F (.state s) = .state s') : s'.FitsArrays dims' ↔ s.FitsArrays dims := by
  have h := hF.everywhere_leavesFit_iff (H := fun _ => True) (fun _ _ _ _ _ _ => trivial)
    (fun v _ => hleaf v) (v := .state s) trivial
  rwa [hs] at h

end

namespace State

theorem nodes_part_eq_mapValues (j : Nat) (s : State) :
    (s.part j).nodes = Table.mapValues (Table.mapValues (Value.part j)) s.nodes := by
  rw [nodes_part, show localPart j = Table.mapValues (Value.part j) from
    funext fun _ => localPart_eq_mapValues]

theorem nodes_bare_eq_mapValues (s : State) :
    s.bare.nodes = Table.mapValues (Table.mapValues Value.bare) s.nodes := by
  rw [nodes_bare, nodesBare_eq_mapValues,
    show localBare = Table.mapValues Value.bare from funext fun _ => localBare_eq_mapValues]

end State

namespace Value

/-- A lane of a value is made leaf by leaf. -/
theorem pointwise_part (j : Nat) : Pointwise (part j) where
  tensor := fun _ => ⟨_, rfl⟩
  state := fun s => ⟨_, rfl, s.nodes_part_eq_mapValues j⟩

/-- So is a value without placements. -/
theorem pointwise_bare : Pointwise bare where
  tensor := fun _ => ⟨_, rfl⟩
  state := fun s => ⟨_, rfl, s.nodes_bare_eq_mapValues⟩

end Value

namespace State

variable {dims : List Nat}

/-- What placements a state has plays no part. -/
theorem fitsArrays_bare_iff {s : State} : s.bare.FitsArrays dims ↔ s.FitsArrays dims :=
  Value.pointwise_bare.fitsArrays_iff (fun v => by cases v <;> rfl) rfl

/-- States with leaves of the same shapes fit alike. -/
theorem SameLeaves.fitsArrays {s s' : State} (h : s.SameLeaves s') (hs : s.FitsArrays dims) :
    s'.FitsArrays dims := by
  have hbare : s.bare.FitsArrays dims := fitsArrays_bare_iff.2 hs
  rw [show s.bare = s'.bare from h] at hbare
  exact fitsArrays_bare_iff.1 hbare

/-- A part has the outermost axis in front of its leaves no more. -/
theorem fitsArrays_part_iff {s : State} {count j : Nat} (hparts : s.HasParts count)
    (hj : j < count) : (s.part j).FitsArrays (dims ++ [count]) ↔ s.FitsArrays dims := by
  have hinside : ∀ s, (Value.state s).HasParts count → ∀ e ∈ s.nodes, ∀ a ∈ e.2,
      a.2.HasParts count :=
    fun _ hs e he a ha => localHasParts_iff.1 ((hasParts_iff.1 hs).2 e he) a ha
  refine (Value.pointwise_part j).everywhere_leavesFit_iff hinside (fun v hv => ?_)
    (v := .state s) hparts
  cases v with
  | tensor t =>
    obtain ⟨inner, hshape⟩ := hv
    obtain ⟨r, hr, hrshape, -⟩ := Tensor.getElem?_rows hshape hj
    rw [Value.part, hr, Option.getD_some, Value.LeafFits, Value.LeafFits, hrshape, hshape,
      List.append_assoc, List.singleton_append]
  | state s => rfl

/-! ## Stacking -/

/-- What was stacked could be an array. -/
theorem leafFits_of_stackValue {v : Value} {qualified : String} {vs : List Value} {r : Value}
    (h : stackValue qualified v vs = .ok r) : r.LeafFits [] := by
  cases v with
  | tensor t =>
    obtain ⟨ts, -, -, harray, rfl⟩ := stackValue_tensor_eq_ok_iff.1 h
    exact harray
  | state s =>
    obtain ⟨ss, -, x, -, rfl⟩ := stackValue_state_eq_ok_iff.1 h
    trivial

/-- So could all leaves of a stacked local state. -/
theorem leafFits_of_stackLocal {path : String} {others : List LocalState} :
    ∀ {l r : List (String × Value)}, stackLocal path l others = .ok r → ∀ a ∈ r, a.2.LeafFits []
  | [], r, h => by
    rw [stackLocal] at h
    rw [← Except.ok.inj h]
    exact nofun
  | (name, v) :: rest, r, h => by
    obtain ⟨vs, -, w, hw, more, hmore, rfl⟩ := stackLocal_cons_eq_ok_iff.1 h
    exact List.forall_mem_cons.2 ⟨leafFits_of_stackValue hw, leafFits_of_stackLocal hmore⟩

/-- So could all leaves of stacked nodes. -/
theorem leafFits_of_stackNodes {others : List State} :
    ∀ {nodes r : List (String × List (String × Value))}, stackNodes nodes others = .ok r →
      ∀ e ∈ r, ∀ a ∈ e.2, a.2.LeafFits []
  | [], r, h => by
    rw [stackNodes] at h
    rw [← Except.ok.inj h]
    exact nofun
  | (path, l) :: rest, r, h => by
    obtain ⟨stacked, hstacked, -, more, hmore, rfl⟩ := stackNodes_cons_eq_ok_iff.1 h
    exact List.forall_mem_cons.2 ⟨leafFits_of_stackLocal hstacked, leafFits_of_stackNodes hmore⟩

theorem leavesFit_of_stackOnto {s : State} {others : List State} {r : State}
    (h : stackOnto s others = .ok r) : r.leavesFit [] := by
  obtain ⟨-, nodes, hnodes, moved, -, rfl⟩ := stackOnto_eq_ok_iff.1 h
  exact leafFits_of_stackNodes hnodes

/-- Whatever was stacked, the leaves of the batch could be arrays. -/
theorem holdsArrays_of_stack {xs : List State} {r : State} (hxs : ∀ x ∈ xs, x.Ordered)
    (h : stack xs = .ok r) : r.HoldsArrays := by
  cases xs with
  | nil => cases h
  | cons x others =>
    obtain ⟨hx, hothers⟩ := List.forall_mem_cons.1 hxs
    exact Everywhere.stackOnto (fun h _ _ => leavesFit_of_stackOnto h) h hx hothers

/-- So the leaves of the states that were stacked could be arrays with one more axis in front. -/
theorem FitsArrays.of_stack {xs : List State} {r : State} (hxs : ∀ x ∈ xs, x.Ordered)
    (h : stack xs = .ok r) : ∀ x ∈ xs, x.FitsArrays [xs.length] := by
  intro x hx
  obtain ⟨j, hj⟩ := List.mem_iff_getElem?.1 hx
  have hunstack := unstack_stack hxs h
  have hparts := (unstack_eq_ok_iff_parts.1 hunstack).1
  -- a state that was stacked is a part of the batch
  obtain ⟨hlt, rfl⟩ := (getElem?_of_unstack hunstack).1 hj
  have hpart : (r.part j).FitsArrays ([] ++ [xs.length]) ↔ r.HoldsArrays :=
    fitsArrays_part_iff hparts hlt
  exact hpart.2 (holdsArrays_of_stack hxs h)

/-! ## Taking apart -/

/-- The lanes of a state that holds arrays hold arrays. -/
theorem HoldsArrays.unstack {s : State} (hs : s.HoldsArrays) {xs : List State}
    (h : s.unstack = .ok xs) {x : State} (hx : x ∈ xs) : x.HoldsArrays := by
  obtain ⟨j, hj⟩ := List.mem_iff_getElem?.1 hx
  obtain ⟨hlt, rfl⟩ := (getElem?_of_unstack h).1 hj
  exact ((fitsArrays_part_iff (unstack_eq_ok_iff_parts.1 h).1 hlt).2 hs).tail

/-- The leaves of the lanes could be arrays with the batch axes in front. -/
theorem FitsArrays.of_mem_flatten {ds : List Nat} : ∀ {s l : State} {ls : List State}
    {dims : List Nat}, s.batchDims = ds → s.flatten = .ok ls → s.FitsArrays dims → l ∈ ls →
      l.FitsArrays (dims ++ ds) := by
  induction ds with
  | nil =>
    intro s l ls dims hdims h hs hl
    rw [flatten_unbatched hdims, Except.ok.injEq] at h
    rw [← h, List.mem_singleton] at hl
    rw [hl, List.append_nil]
    exact hs
  | cons count ds ih =>
    intro s l ls dims hdims h hs hl
    obtain ⟨hparts, j, hj, hpdims, part, hflat, hl⟩ := exists_part_of_mem_flatten hdims h hl
    have hl := ih hpdims hflat ((fitsArrays_part_iff hparts hj).2 hs) hl
    rwa [List.append_assoc, List.singleton_append] at hl

/-! ## Writing -/

theorem holdsArrays_empty : State.empty.HoldsArrays := everywhere_iff.2 ⟨nofun, nofun⟩

/-- A node of arrays can be added. -/
theorem HoldsArrays.withNode {s : State} (h : s.HoldsArrays) (path : String) {l : LocalState}
    (hl : ∀ a ∈ l, a.2.LeafFits []) (hinside : localEverywhere (leavesFit []) l) :
    (s.withNode path l).HoldsArrays := by
  obtain ⟨hleaves, hnodes⟩ := everywhere_iff.1 h
  refine everywhere_iff.2 ⟨fun e he => ?_, fun e he => ?_⟩
  · rcases Table.mem_of_mem_insert he with rfl | he
    · exact hl
    · exact hleaves e he
  · rcases Table.mem_of_mem_insert he with rfl | he
    · exact hinside
    · exact hnodes e he

/-- A leaf can be replaced by an array. -/
theorem HoldsArrays.withLeaf {s s' : State} (h : s.HoldsArrays) {qualified : String} {t : Tensor}
    (ht : Tensor.IsArrayShape t.shape) (hw : s.withLeaf qualified t = .ok s') : s'.HoldsArrays := by
  obtain ⟨-, -, l, hl, rfl⟩ := withLeaf_eq_ok_iff.1 hw
  obtain ⟨hleaves, hnodes⟩ := everywhere_iff.1 h
  have hmem := Table.mem_of_get?_eq_some (resolve_eq_ok_iff.1 hl)
  refine h.withNode _ (fun a ha => ?_) (localEverywhere_insert (hnodes _ hmem) trivial)
  rcases Table.mem_of_mem_insert ha with rfl | ha
  · exact ht
  · exact hleaves _ hmem a ha

end State

end Lockstep
