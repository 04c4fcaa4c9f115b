import Lockstep.Proofs.State.Everywhere
import Lockstep.Proofs.Table.Matching

/-!
# States whose tables ascend

A state is ordered when the keys of its nodes and of their attributes ascend, and so do those of
all states inside it. Every operation on states keeps this, so all states that were built from
ordered local states are ordered.
-/

namespace Lockstep

/-- The keys of the nodes ascend, and so do the attributes of every node. -/
def State.tablesAscend (s : State) : Prop :=
  Table.Sorted s.nodes ∧ ∀ e ∈ s.nodes, Table.Sorted e.2

/-- All tables of a state ascend, at every depth. -/
def State.Ordered (s : State) : Prop := s.Everywhere State.tablesAscend

/-- The attributes ascend, and all states among the values are ordered. -/
def LocalState.Ordered (l : LocalState) : Prop :=
  Table.Sorted l ∧ localEverywhere State.tablesAscend l

theorem LocalState.ordered_ofList {us : List (String × Value)}
    (h : ∀ e ∈ us, e.2.Everywhere State.tablesAscend) : LocalState.Ordered (Table.ofList us) :=
  ⟨Table.sorted_ofList us, localEverywhere_iff.2 fun e he => h e (Table.mem_of_mem_ofList he)⟩

theorem stackGives_tablesAscend :
    StackGives State.tablesAscend State.tablesAscend := by
  intro s others r h hs _
  obtain ⟨-, nodes, hnodes, moved, -, rfl⟩ := State.stackOnto_eq_ok_iff.1 h
  refine ⟨hs.1.of_keys (State.keys_of_stackNodes hnodes), fun e he => ?_⟩
  obtain ⟨e', he', hkeys⟩ := State.exists_of_mem_stackNodes hnodes he
  exact (hs.2 e' he').of_keys hkeys

theorem unstackGives_tablesAscend : UnstackKeeps State.tablesAscend := by
  intro s xs x h hs hx
  obtain ⟨count, dims, -, lanes, hlanes, rfl⟩ := State.unstack_eq_ok_iff.1 h
  obtain ⟨lane, hlane, rfl⟩ := List.mem_map.1 hx
  refine ⟨hs.1.of_keys (State.keys_of_unstackNodes hlanes hlane), fun e he => ?_⟩
  obtain ⟨e', he', hkeys⟩ := State.exists_of_mem_unstackNodes hlanes hlane he
  exact (hs.2 e' he').of_keys hkeys

namespace State

theorem ordered_iff {s : State} :
    s.Ordered ↔ Table.Sorted s.nodes ∧ ∀ e ∈ s.nodes, LocalState.Ordered e.2 := by
  rw [Ordered, everywhere_iff, tablesAscend, and_assoc]
  constructor
  · rintro ⟨hn, hl, he⟩
    exact ⟨hn, fun e hmem => ⟨hl e hmem, he e hmem⟩⟩
  · rintro ⟨hn, hl⟩
    exact ⟨hn, fun e hmem => (hl e hmem).1, fun e hmem => (hl e hmem).2⟩

/-- The placement plays no part. -/
theorem Ordered.of_nodes_eq {s s' : State} (h : s.Ordered) (hn : s'.nodes = s.nodes) :
    s'.Ordered := by
  rw [ordered_iff, hn]
  exact ordered_iff.1 h

theorem ordered_empty : State.empty.Ordered := ordered_iff.2 ⟨List.Pairwise.nil, nofun⟩

/-- A node in order can be put into a state in order. -/
theorem Ordered.withNode {s : State} (h : s.Ordered) (path : String) {l : LocalState}
    (hl : l.Ordered) : (s.withNode path l).Ordered := by
  obtain ⟨hn, hls⟩ := ordered_iff.1 h
  refine ordered_iff.2 ⟨hn.insert path l, fun e he => ?_⟩
  rcases Table.mem_of_mem_insert he with rfl | he
  · exact hl
  · exact hls e he

theorem Ordered.update {s s' : State} (h : s.Ordered) {path : String} {l : LocalState}
    (hl : l.Ordered) (hu : s.update path l = .ok s') : s'.Ordered := by
  obtain ⟨-, rfl⟩ := update_eq_ok_iff.1 hu
  exact h.withNode path hl

/-- The local states of a state in order are in order. -/
theorem Ordered.resolve {s : State} (h : s.Ordered) {path : String} {l : LocalState}
    (hr : s.resolve path = .ok l) : l.Ordered :=
  (ordered_iff.1 h).2 (path, l) (Table.mem_of_get?_eq_some (resolve_eq_ok_iff.1 hr))

/-- A value in order can be put into a local state in order. -/
theorem LocalOrdered.insert {l : LocalState} (h : l.Ordered) (name : String) {v : Value}
    (hv : v.Everywhere tablesAscend) : LocalState.Ordered (Table.insert name v l) :=
  ⟨h.1.insert name v, localEverywhere_insert h.2 hv⟩

theorem Ordered.withLeaf {s s' : State} (h : s.Ordered) {qualified : String} {t : Tensor}
    (hw : s.withLeaf qualified t = .ok s') : s'.Ordered := by
  obtain ⟨-, -, l, hl, rfl⟩ := withLeaf_eq_ok_iff.1 hw
  exact h.withNode _ (LocalOrdered.insert (h.resolve hl) _ trivial)

theorem Ordered.stackOnto {s : State} {others : List State} {r : State}
    (h : stackOnto s others = .ok r) (hs : s.Ordered) (ho : ∀ o ∈ others, o.Ordered) : r.Ordered :=
  Everywhere.stackOnto stackGives_tablesAscend h hs ho

/-- States in order are stacked to one in order. -/
theorem Ordered.stack {xs : List State} {r : State} (h : stack xs = .ok r)
    (hxs : ∀ x ∈ xs, x.Ordered) : r.Ordered := by
  cases xs with
  | nil => cases h
  | cons x others =>
    obtain ⟨hx, hothers⟩ := List.forall_mem_cons.1 hxs
    exact Ordered.stackOnto h hx hothers

/-- The lanes of a state in order are in order. -/
theorem Ordered.unstack {s : State} (hs : s.Ordered) {xs : List State} (h : s.unstack = .ok xs)
    {x : State} (hx : x ∈ xs) : x.Ordered :=
  Everywhere.unstack unstackGives_tablesAscend h hs hx

end State

end Lockstep
