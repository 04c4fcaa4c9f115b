import Lockstep.Proofs.State.Ordered
import Lockstep.Proofs.State.Parts

/-!
# Leaves of a batch

Writing a leaf of a batch writes a row of the tensor in every part (`withLeaf_part`).
-/

namespace Lockstep.State

theorem resolve_part {s : State} {path : String} {l : LocalState} (h : s.resolve path = .ok l)
    (j : Nat) : (s.part j).resolve path = .ok (localPart j l) := by
  rw [resolve_eq_ok_iff] at h ⊢
  rw [get?_nodes_part, h]
  rfl

/-- The row that a part has of a tensor. -/
def row (j : Nat) (t : Tensor) : Tensor := t.rows[j]?.getD t

theorem getElem?_rows_row {t : Tensor} {count : Nat} {inner : List Nat}
    (ht : t.shape = count :: inner) {j : Nat} (hj : j < count) : t.rows[j]? = some (row j t) := by
  obtain ⟨r, hr, -⟩ := Tensor.getElem?_rows ht hj
  rw [row, hr, Option.getD_some]

theorem shape_row {t : Tensor} {count : Nat} {inner : List Nat} (ht : t.shape = count :: inner)
    {j : Nat} (hj : j < count) : (row j t).shape = inner := by
  obtain ⟨r, hr, hshape, -⟩ := Tensor.getElem?_rows ht hj
  rw [row, hr, Option.getD_some, hshape]

theorem localPart_setTensor (j : Nat) (l : LocalState) (name : String) (t : Tensor) :
    localPart j (l.setTensor name t) = LocalState.setTensor (localPart j l) name (row j t) := by
  rw [LocalState.setTensor, localPart_eq_mapValues, Table.mapValues_insert,
    ← localPart_eq_mapValues]
  rfl

theorem part_withNode (j : Nat) (s : State) (path : String) (l : LocalState) :
    (s.withNode path l).part j = (s.part j).withNode path (localPart j l) := by
  obtain ⟨nodes, dims, placement⟩ := s
  rw [withNode, part, nodesPart_eq_mapValues, Table.mapValues_insert, ← nodesPart_eq_mapValues]
  rfl

theorem hasParts_withNode {count : Nat} {s : State} {path : String} {l : LocalState} :
    (s.withNode path l).HasParts count → localHasParts count l := by
  intro h
  have hget : Table.get? path (s.withNode path l).nodes = some l := Table.get?_insert_self ..
  exact (hasParts_iff.1 h).2 (path, l) (Table.mem_of_get?_eq_some hget)

/-- A written leaf that is taken apart with the batch has the outermost axis. -/
theorem shape_of_withLeaf {count : Nat} {s s' : State} {qualified : String} {t : Tensor}
    (hw : s.withLeaf qualified t = .ok s') (h : s'.HasParts count) :
    ∃ inner, t.shape = count :: inner := by
  obtain ⟨-, -, l, -, rfl⟩ := withLeaf_eq_ok_iff.1 hw
  have hget : Table.get? (Path.split qualified).2 (l.setTensor (Path.split qualified).2 t) =
      some (.tensor t) := Table.get?_insert_self ..
  exact localHasParts_iff.1 (hasParts_withNode h) _ (Table.mem_of_get?_eq_some hget)

/-- A leaf of a part is its row of the leaf. -/
theorem leaf_part {s : State} {qualified : String} {t : Tensor} (h : s.leaf qualified = .ok t)
    (j : Nat) : (s.part j).leaf qualified = .ok (row j t) := by
  obtain ⟨l, hl, hget⟩ := leaf_eq_ok_iff.1 h
  refine leaf_eq_ok_iff.2 ⟨_, resolve_part hl j, ?_⟩
  rw [localPart_eq_mapValues, Table.get?_mapValues, hget]
  rfl

/-- A leaf of a state that is taken apart has the outermost axis. -/
theorem shape_of_leaf {count : Nat} {s : State} {qualified : String} {t : Tensor}
    (ht : s.leaf qualified = .ok t) (h : s.HasParts count) : ∃ inner, t.shape = count :: inner := by
  obtain ⟨l, hl, hget⟩ := leaf_eq_ok_iff.1 ht
  have hlocal := (hasParts_iff.1 h).2 _ (Table.mem_of_get?_eq_some (resolve_eq_ok_iff.1 hl))
  exact localHasParts_iff.1 hlocal _ (Table.mem_of_get?_eq_some hget)

/-- Writing a leaf of a batch writes its row in every part. -/
theorem withLeaf_part {s s' : State} {qualified : String} {t : Tensor}
    (hw : s.withLeaf qualified t = .ok s') (j : Nat) :
    (s.part j).withLeaf qualified (row j t) = .ok (s'.part j) := by
  obtain ⟨u, hu, l, hl, rfl⟩ := withLeaf_eq_ok_iff.1 hw
  refine withLeaf_eq_ok_iff.2 ⟨row j u, leaf_part hu j, _, resolve_part hl j, ?_⟩
  rw [part_withNode, localPart_setTensor]

end Lockstep.State
