import Lockstep.Proofs.Outcome
import Lockstep.Tensor.Matrix

/-!
# Sizes of matrices

Entry-by-entry operations give a matrix of the size of their first operand when the second one has
that size or is a single row (`Matrix.HasSize.zipWith`). The smallest number of a list stands in it
(`Tensor.index_argmin_lt`).
-/

namespace Lockstep

open Outcome (Gives)

namespace Matrix

/-- The counts of rows and columns. -/
def HasSize (rows cols : Nat) (m : Matrix) : Prop := m.rows.length = rows ∧ m.cols = cols

variable {n d : Nat} {m : Matrix}

theorem hasSize_ofData {data : List Float} (h : data.length = n * d) :
    (ofData n d data h).HasSize n d := ⟨length_pieces, rfl⟩

theorem hasSize_ofRow {row : List Float} (h : row.length = d) : (ofRow row).HasSize 1 d := ⟨rfl, h⟩

namespace HasSize

theorem shape_toTensor (h : m.HasSize n d) : m.toTensor.shape = [n, d] := by
  obtain ⟨rfl, rfl⟩ := h
  rfl

/-- Every row is as long as the matrix is wide. -/
theorem length_row (h : m.HasSize n d) {row : List Float} (hrow : row ∈ m.rows) :
    row.length = d := (m.full row hrow).trans h.2

/-- The rows are those below the height. -/
theorem getElem? (h : m.HasSize n d) {i : Nat} (hi : i < n) :
    ∃ row, m.rows[i]? = some row ∧ row.length = d := by
  have hrow := List.getElem?_eq_getElem (l := m.rows) (h.1.symm ▸ hi)
  exact ⟨_, hrow, h.length_row (List.mem_of_getElem? hrow)⟩

theorem map (h : m.HasSize n d) (f : Float → Float) : (m.map f).HasSize n d :=
  ⟨(List.length_map _).trans h.1, h.2⟩

end HasSize

/-- A matrix is read again from its tensor. -/
theorem asMatrix_toTensor (m : Matrix) (context : String) :
    m.toTensor.asMatrix context = .ok m := by
  obtain ⟨cols, rows, full⟩ := m
  simp only [toTensor, Tensor.asMatrix, ofData, pieces_flatten_of_length full]

/-! ## Entry by entry -/

theorem stretch_of_length {α : Type} {xs : List α} (h : xs.length = n) : stretch n xs = xs := by
  subst h
  match xs with
  | [] => rfl
  | [_] => rfl
  | _ :: _ :: _ => rfl

/-- Stretching a list to a length adds no other members. -/
theorem mem_stretch {α : Type} {xs : List α} {x : α} (h : x ∈ stretch n xs) : x ∈ xs := by
  match xs, h with
  | [], h => exact h
  | [y], h => exact List.mem_singleton.2 (List.eq_of_mem_replicate h)
  | _ :: _ :: _, h => exact h

/-- A list of that length, or of one member, is stretched to it. -/
theorem length_stretch {α : Type} {xs : List α} (h : xs.length = n ∨ xs.length = 1) :
    (stretch n xs).length = n := by
  rcases h with h | h
  · rw [stretch_of_length h, h]
  · obtain ⟨x, rfl⟩ := List.length_eq_one_iff.1 h
    exact List.length_replicate

theorem common_self (a : Nat) : common a a = some a := if_pos rfl

theorem common_one (a : Nat) : common a 1 = some a := by
  rw [common]
  split
  · rfl
  · rfl

/-- A matrix combines with one of its size and with a single row. -/
theorem HasSize.zipWith {a b : Matrix} (ha : a.HasSize n d)
    (hb : b.HasSize n d ∨ b.HasSize 1 d) (f : Float → Float → Float) :
    ∃ c, Matrix.zipWith f a b = some c ∧ c.HasSize n d := by
  have hcols : b.cols = d := hb.elim And.right And.right
  have hrows : b.rows.length = n ∨ b.rows.length = 1 := hb.imp And.left And.left
  have hcommon : common a.rows.length b.rows.length = some n := by
    rw [ha.1]
    rcases hrows with h | h
    · rw [h, common_self]
    · rw [h, common_one]
  have hfull : ∀ r ∈ List.zipWith (fun x y => List.zipWith f (stretch d x) (stretch d y))
      (stretch n a.rows) (stretch n b.rows), r.length = d := by
    intro r hr
    obtain ⟨x, hx, y, hy, rfl⟩ := Outcome.exists_of_mem_zipWith hr
    have hxlength := ha.length_row (mem_stretch hx)
    have hylength := (b.full y (mem_stretch hy)).trans hcols
    rw [stretch_of_length hxlength, stretch_of_length hylength, List.length_zipWith, hxlength,
      hylength, Nat.min_self]
  refine ⟨⟨d, _, hfull⟩, ?_, ?_, rfl⟩
  · rw [Matrix.zipWith, hcommon, ha.2, hcols, common_self]
    exact dif_pos hfull
  · rw [List.length_zipWith, length_stretch (.inl ha.1), length_stretch hrows, Nat.min_self]

end Matrix

namespace Tensor

theorem shape_vector_of_length {xs : List Float} {n : Nat} (h : xs.length = n) :
    (vector xs).shape = [n] := congrArg (fun k => [k]) h

/-- An array of two axes is read as a matrix of that size. -/
theorem gives_asMatrix {t : Tensor} {n d : Nat} (h : t.shape = [n, d]) (context : String) :
    Gives (Matrix.HasSize n d) (t.asMatrix context) := by
  obtain ⟨shape, data, hfill⟩ := t
  obtain rfl : shape = [n, d] := h
  exact .ok (Matrix.hasSize_ofData _)

theorem rowsOf_eq_pieces {d : Nat} : ∀ {n : Nat} {data : List Float}
    (h : data.length = n * volume [d]), rowsOf [d] n data h = (pieces d n data).map vector
  | 0, _, _ => rfl
  | n + 1, data, h => by
    have hle : d ≤ data.length := by
      rw [h, volume_cons, volume_nil, Nat.mul_one, Nat.succ_mul]
      exact Nat.le_add_left ..
    rw [rowsOf, pieces, List.map_cons]
    simp only [volume_cons, volume_nil, Nat.mul_one] at h ⊢
    rw [rowsOf_eq_pieces]
    simp [vector, List.length_take, Nat.min_eq_left hle]

/-- The rows of a matrix are the parts of the tensor along its leading axis. -/
theorem rows_of_asMatrix {t : Tensor} {context : String} {m : Matrix}
    (h : t.asMatrix context = .ok m) : t.rows = m.rows.map vector := by
  unfold asMatrix at h
  split at h
  · rw [← Except.ok.inj h]
    exact rowsOf_eq_pieces _
  · cases h

/-- A matrix has the size that the shape says. -/
theorem shape_of_asMatrix {t : Tensor} {context : String} {m : Matrix}
    (h : t.asMatrix context = .ok m) : t.shape = [m.rows.length, m.cols] := by
  unfold asMatrix at h
  split at h
  · rw [← Except.ok.inj h, (Matrix.hasSize_ofData _).1, (Matrix.hasSize_ofData _).2]
  · cases h

/-- An array of one axis is read as a list of that length. -/
theorem gives_asVector {t : Tensor} {n : Nat} (h : t.shape = [n]) (context : String) :
    Gives (fun xs => xs.length = n) (t.asVector context) := by
  obtain ⟨shape, data, hfill⟩ := t
  obtain rfl : shape = [n] := h
  exact .ok (hfill.trans (Nat.mul_one n))

/-- The place of a smallest number is one of the places that were searched. -/
theorem index_argminFrom_lt {xs : List Float} :
    ∀ {i : Nat} {best : Option (Nat × Float)} {r : Nat × Float}, (∀ b ∈ best, b.1 < i) →
      argminFrom i best xs = some r → r.1 < i + xs.length := by
  induction xs with
  | nil =>
    intro i best r hbest h
    exact hbest r h
  | cons x xs ih =>
    intro i best r hbest h
    -- whatever is best after this number, it has an index up to here
    have hlater : ∀ b : Option (Nat × Float), (∀ c ∈ b, c.1 < i + 1) →
        argminFrom (i + 1) b xs = some r → r.1 < i + (x :: xs).length := by
      intro b hb hr
      have hlt := ih hb hr
      rw [List.length_cons]
      omega
    have hkept : ∀ b ∈ best, b.1 < i + 1 := fun b hb => Nat.lt_succ_of_lt (hbest b hb)
    have hthis : ∀ b ∈ some (i, x), b.1 < i + 1 := by
      rintro _ ⟨⟩
      exact Nat.lt_succ_self i
    simp only [argminFrom] at h
    split at h
    · exact hlater best hkept h
    · split at h
      · exact hlater _ hthis h
      · refine hlater _ ?_ h
        split
        · exact hkept
        · exact hthis

/-- The smallest number stands in the list. -/
theorem index_argmin_lt {xs : List Float} {r : Nat × Float} (h : argmin xs = some r) :
    r.1 < xs.length := by
  have hlt := @index_argminFrom_lt xs 0 none r nofun h
  rwa [Nat.zero_add] at hlt

end Tensor

end Lockstep
