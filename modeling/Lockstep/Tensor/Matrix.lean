import Lockstep.Tensor.Basic

/-!
# Matrices

A matrix is a list of rows of one length. Two matrices combine entry by entry when their counts of
rows agree or one of them is 1, and the same for columns; a single row or column stands for as many
as the other matrix has.
-/

namespace Lockstep

/-- Rows with `cols` entries each. -/
structure Matrix where
  cols : Nat
  rows : List (List Float)
  full : ∀ r ∈ rows, r.length = cols

namespace Matrix

/-- Data that fill rows of one length. -/
def ofData (rows cols : Nat) (data : List Float) (h : data.length = rows * cols) : Matrix :=
  ⟨cols, pieces cols rows data, length_of_mem_pieces h⟩

/-- One row. -/
def ofRow (row : List Float) : Matrix :=
  ⟨row.length, [row], fun r hr => by rw [List.mem_singleton.1 hr]⟩

theorem length_flatten {cols : Nat} :
    ∀ {rows : List (List Float)}, (∀ r ∈ rows, r.length = cols) →
      rows.flatten.length = rows.length * cols
  | [], _ => by simp
  | r :: rest, h => by
    rw [List.flatten_cons, List.length_append, h r (List.mem_cons_self ..),
      length_flatten fun s hs => h s (List.mem_cons_of_mem _ hs), List.length_cons, Nat.succ_mul,
      Nat.add_comm]

/-- The matrix as a tensor. -/
def toTensor (m : Matrix) : Tensor :=
  ⟨[m.rows.length, m.cols], m.rows.flatten, by
    simpa [volume_cons, volume_nil] using length_flatten m.full⟩

/-- A function on every entry. -/
def map (f : Float → Float) (m : Matrix) : Matrix :=
  ⟨m.cols, m.rows.map (List.map f), fun r hr => by
    obtain ⟨s, hs, rfl⟩ := List.mem_map.1 hr
    rw [List.length_map, m.full s hs]⟩

/-- The length of an axis that two axes combine to. -/
def common (a b : Nat) : Option Nat :=
  if a = b then some a else if b = 1 then some a else if a = 1 then some b else none

/-- A list of one entry repeated to a length; any other list is left alone. -/
def stretch {α : Type} (length : Nat) : List α → List α
  | [x] => List.replicate length x
  | xs => xs

/-- Entry by entry, with single rows and columns repeated as needed. -/
def zipWith (f : Float → Float → Float) (a b : Matrix) : Option Matrix := do
  let rows ← common a.rows.length b.rows.length
  let cols ← common a.cols b.cols
  let combined := List.zipWith (fun x y => List.zipWith f (stretch cols x) (stretch cols y))
    (stretch rows a.rows) (stretch rows b.rows)
  if h : ∀ r ∈ combined, r.length = cols then some ⟨cols, combined, h⟩ else none

end Matrix

namespace Tensor

/-- The rows of a tensor with two axes. -/
def asMatrix (t : Tensor) (context : String) : Outcome Matrix :=
  match t with
  | ⟨[rows, cols], data, h⟩ => .ok (.ofData rows cols data (by
      simpa [volume_cons, volume_nil] using h))
  | t => shapeMismatch (context ++ " (rank 2)") [] t.shape

end Tensor

end Lockstep
