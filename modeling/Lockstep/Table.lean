/-!
# Tables with text keys

A table is a list of keyed entries in ascending order of their keys, each key once. `insert` keeps
that order (`Sorted.insert`) and `get?` sees exactly the last entry inserted under a key
(`get?_insert`).
-/

namespace Lockstep

/-- Entries under text keys, ascending by key. -/
abbrev Table (α : Type) := List (String × α)

namespace Table

variable {α β : Type}

/-- The entry under a key. -/
def get? (key : String) : Table α → Option α
  | [] => none
  | (k, v) :: rest => if k = key then some v else get? key rest

/-- The table with one entry put under a key, in place of the one that was there. -/
def insert (key : String) (value : α) : Table α → Table α
  | [] => [(key, value)]
  | (k, v) :: rest =>
    if key < k then (key, value) :: (k, v) :: rest
    else if key = k then (key, value) :: rest
    else (k, v) :: insert key value rest

/-- The keys, ascending. -/
def keys (t : Table α) : List String := t.map Prod.fst

/-- A key has an entry. -/
def contains (t : Table α) (key : String) : Bool := (t.get? key).isSome

/-- The table of the given entries; the last one under a key counts. -/
def ofList (entries : List (String × α)) : Table α :=
  entries.foldl (fun t e => t.insert e.1 e.2) []

/-- The first table with the entries of the second put into it. -/
def union (t u : Table α) : Table α := u.foldl (fun t e => t.insert e.1 e.2) t

/-- The table without the entry under a key. -/
def erase (t : Table α) (key : String) : Table α := t.filter fun e => e.1 ≠ key

/-- A function on every entry. -/
def mapValues (f : α → β) (t : Table α) : Table β := t.map fun e => (e.1, f e.2)

/-- Two tables have the same keys and related entries. -/
def equalBy (eq : α → α → Bool) : Table α → Table α → Bool
  | [], [] => true
  | (k, v) :: rest, (k', v') :: rest' => k = k' && eq v v' && equalBy eq rest rest'
  | _, _ => false

/-- The keys ascend. -/
def Sorted (t : Table α) : Prop := t.keys.Pairwise (· < ·)

theorem get?_insert_self (t : Table α) (key : String) (value : α) :
    (t.insert key value).get? key = some value := by
  induction t with
  | nil => simp [insert, get?]
  | cons e rest ih =>
    simp only [insert]
    split
    · simp [get?]
    · split
      · simp [get?]
      · next _ h => simp [get?, Ne.symm h, ih]

theorem get?_insert_of_ne (t : Table α) {key other : String} (value : α) (h : other ≠ key) :
    (t.insert key value).get? other = t.get? other := by
  induction t with
  | nil => simp [insert, get?, Ne.symm h]
  | cons e rest ih =>
    simp only [insert]
    split
    · simp [get?, Ne.symm h]
    · split
      · next _ hk => subst hk; simp [get?, Ne.symm h]
      · simp [get?, ih]

/-- What is under a key after an insertion. -/
theorem get?_insert (t : Table α) (key other : String) (value : α) :
    (t.insert key value).get? other = if other = key then some value else t.get? other := by
  split
  · next h => subst h; exact get?_insert_self t other value
  · next h => exact get?_insert_of_ne t value h

theorem mem_keys_insert {t : Table α} {key k : String} {value : α} :
    k ∈ (t.insert key value).keys ↔ k = key ∨ k ∈ t.keys := by
  induction t with
  | nil => simp [insert, keys]
  | cons e rest ih =>
    simp only [keys, insert] at ih ⊢
    split
    · simp
    · split
      · next _ h => subst h; simp
      · simp only [List.map_cons, List.mem_cons, ih]
        constructor
        · rintro (h | h | h) <;> simp [h]
        · rintro (h | h | h) <;> simp [h]

/-- Insertion keeps the keys ascending. -/
theorem Sorted.insert {t : Table α} (h : t.Sorted) (key : String) (value : α) :
    (t.insert key value).Sorted := by
  induction t with
  | nil => simp [Sorted, Table.insert, keys]
  | cons e rest ih =>
    obtain ⟨k, v⟩ := e
    have hk := List.pairwise_cons.1 h
    simp only [Table.insert]
    split
    · next hlt =>
      refine List.pairwise_cons.2 ⟨fun k' hk' => ?_, h⟩
      rcases List.mem_cons.1 hk' with rfl | hk'
      · exact hlt
      · exact String.lt_trans hlt (hk.1 k' hk')
    · split
      · next _ he => subst he; exact h
      · next hlt he =>
        refine List.pairwise_cons.2 ⟨fun k' hk' => ?_, ih hk.2⟩
        rcases mem_keys_insert.1 hk' with rfl | hk'
        · exact String.not_le.1 fun hle => he (String.le_antisymm hle (String.not_lt.1 hlt))
        · exact hk.1 k' hk'

end Table

end Lockstep
