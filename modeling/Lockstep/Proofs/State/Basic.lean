import Lockstep.Proofs.Outcome
import Lockstep.Proofs.Table
import Lockstep.State.Basic

/-!
# Reading and writing nodes

When the operations on one node, attribute or leaf succeed, and what they give.
-/

namespace Lockstep.LocalState

theorem tensor_of_get? {l : LocalState} {name : String} {t : Tensor}
    (h : Table.get? name l = some (.tensor t)) : l.tensor name = .ok t := by
  rw [tensor, value, h]
  rfl

theorem get?_of_tensor {l : LocalState} {name : String} {t : Tensor} (h : l.tensor name = .ok t) :
    Table.get? name l = some (.tensor t) := by
  rw [tensor, value] at h
  split at h
  · next v hv =>
    cases v with
    | tensor u => rw [hv, Except.ok.inj h]
    | state s => cases h
  · cases h

theorem number_of_get? {l : LocalState} {name : String} {x : Float}
    (h : Table.get? name l = some (.tensor (.scalar x))) : l.number name = .ok x := by
  rw [number, tensor_of_get? h]
  rfl

theorem number_setNumber (l : LocalState) (name : String) (x : Float) :
    (l.setNumber name x).number name = .ok x := number_of_get? (Table.get?_insert_self _ _ _)

theorem tensor_setTensor (l : LocalState) (name : String) (t : Tensor) :
    (l.setTensor name t).tensor name = .ok t := tensor_of_get? (Table.get?_insert_self _ _ _)

theorem tensor_setTensor_of_ne (l : LocalState) {name other : String} (t : Tensor)
    (h : other ≠ name) : (l.setTensor name t).tensor other = l.tensor other := by
  rw [tensor, value, setTensor, Table.get?_insert_of_ne _ _ h, tensor, value]

theorem number_setTensor_of_ne (l : LocalState) {name other : String} (t : Tensor)
    (h : other ≠ name) : (l.setTensor name t).number other = l.number other := by
  rw [number, tensor_setTensor_of_ne l t h, number]

end Lockstep.LocalState

namespace Lockstep.State

theorem update_eq_ok_iff {s s' : State} {path : String} {l : LocalState} :
    s.update path l = .ok s' ↔ s.contains path = true ∧ s' = s.withNode path l := by
  rw [update]
  by_cases hc : s.contains path = true
  · rw [if_pos hc, Except.ok.injEq]
    exact ⟨fun h => ⟨hc, h.symm⟩, fun h => h.2.symm⟩
  · rw [if_neg hc]
    constructor
    · intro h
      cases h
    · intro h
      exact absurd h.1 hc

theorem resolve_eq_ok_iff {s : State} {path : String} {l : LocalState} :
    s.resolve path = .ok l ↔ Table.get? path s.nodes = some l := by
  rw [resolve]
  cases Table.get? path s.nodes with
  | none => simp [notFound]
  | some l' => simp

theorem get?_withNode (s : State) (path : String) (l : LocalState) (other : String) :
    Table.get? other (s.withNode path l).nodes =
      if other = path then some l else Table.get? other s.nodes :=
  Table.get?_insert ..

/-- An update leaves all other nodes as they are. -/
theorem resolve_of_update {s t : State} {path other : String} {l : LocalState}
    (h : s.update path l = .ok t) (hne : other ≠ path) : t.resolve other = s.resolve other := by
  obtain ⟨-, rfl⟩ := update_eq_ok_iff.1 h
  rw [resolve, resolve, get?_withNode, if_neg hne]

theorem contains_withNode {s : State} {path other : String} {l : LocalState} :
    (s.withNode path l).contains other = true ↔ other = path ∨ s.contains other = true := by
  rw [contains, contains, Table.contains, Table.contains, get?_withNode]
  by_cases h : other = path
  · simp [h]
  · simp [h]

theorem leaf_eq_ok_iff {s : State} {qualified : String} {t : Tensor} :
    s.leaf qualified = .ok t ↔
      ∃ l, s.resolve (Path.split qualified).1 = .ok l ∧
        Table.get? (Path.split qualified).2 l = some (.tensor t) := by
  rw [leaf]
  generalize Path.split qualified = names
  obtain ⟨path, name⟩ := names
  rw [Outcome.bind_eq_ok_iff]
  refine exists_congr fun l => and_congr_right fun _ => ?_
  cases hget : Table.get? name l with
  | none => simp
  | some v =>
    cases v with
    | tensor u => simp
    | state inner => simp

/-- A leaf that is written stands in a node that is there. -/
theorem withLeaf_eq_ok_iff {s s' : State} {qualified : String} {t : Tensor} :
    s.withLeaf qualified t = .ok s' ↔
      ∃ u, s.leaf qualified = .ok u ∧ ∃ l, s.resolve (Path.split qualified).1 = .ok l ∧
        s' = s.withNode (Path.split qualified).1 (l.setTensor (Path.split qualified).2 t) := by
  rw [withLeaf, Outcome.bind_eq_ok_iff]
  generalize Path.split qualified = names
  obtain ⟨path, name⟩ := names
  constructor
  · rintro ⟨u, hu, h⟩
    obtain ⟨l, hl, h⟩ := Outcome.bind_eq_ok_iff.1 h
    exact ⟨u, hu, l, hl, (update_eq_ok_iff.1 h).2⟩
  · rintro ⟨u, hu, l, hl, rfl⟩
    refine ⟨u, hu, Outcome.bind_eq_ok_iff.2 ⟨l, hl, update_eq_ok_iff.2 ⟨?_, rfl⟩⟩⟩
    rw [contains, Table.contains, resolve_eq_ok_iff.1 hl]
    rfl

end Lockstep.State
