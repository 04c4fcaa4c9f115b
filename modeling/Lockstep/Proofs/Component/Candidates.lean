import Lockstep.Component.Candidates
import Lockstep.Proofs.Outcome
import Lockstep.Proofs.Table

/-!
# Which batches a problem takes

The size of a named batch is the leading length that all its fields share
(`Candidates.size_named_eq_ok_iff`). A named spec takes the batches that have exactly its fields,
each with its shape behind the leading axis, and that have a size
(`InputSpec.check_named_eq_ok_iff`).
-/

namespace Lockstep

namespace Candidates

theorem fieldSize_eq_ok_iff {field : String × Tensor} {n : Nat} :
    fieldSize field = .ok n ↔ ∃ inner, field.2.shape = n :: inner := by
  rw [fieldSize]
  cases field.2.shape with
  | nil => exact ⟨nofun, fun ⟨_, h⟩ => nomatch h⟩
  | cons m inner =>
    constructor
    · intro h
      exact ⟨inner, by rw [Except.ok.inj h]⟩
    · rintro ⟨inner', h⟩
      rw [(List.cons.inj h).1]

theorem checkSizes_eq_ok_iff {n : Nat} :
    ∀ {fields : List (String × Tensor)},
      checkSizes n fields = .ok () ↔ ∀ e ∈ fields, ∃ inner, e.2.shape = n :: inner
  | [] => by simp [checkSizes]
  | field :: rest => by
    rw [checkSizes, Outcome.bind_eq_ok_iff, List.forall_mem_cons, ← fieldSize_eq_ok_iff,
      ← checkSizes_eq_ok_iff]
    constructor
    · rintro ⟨m, hm, h⟩
      by_cases hne : m ≠ n
      · rw [if_pos hne] at h
        cases h
      · rw [if_neg hne] at h
        exact ⟨not_not.1 hne ▸ hm, h⟩
    · rintro ⟨hn, h⟩
      exact ⟨n, hn, by rwa [if_neg (not_not.2 rfl)]⟩

/-- All fields of a named batch have its size as their leading length. A batch without fields has
size zero. -/
theorem size_named_eq_ok_iff {fields : Table Tensor} {n : Nat} :
    (named fields).size = .ok n ↔
      (fields = [] → n = 0) ∧ ∀ e ∈ fields, ∃ inner, e.2.shape = n :: inner := by
  cases fields with
  | nil =>
    constructor
    · intro h
      exact ⟨fun _ => (Except.ok.inj h).symm, nofun⟩
    · rintro ⟨h, -⟩
      rw [h rfl, size]
  | cons field rest =>
    rw [size, Outcome.bind_eq_ok_iff, List.forall_mem_cons, ← fieldSize_eq_ok_iff,
      ← checkSizes_eq_ok_iff]
    constructor
    · rintro ⟨m, hm, h⟩
      obtain ⟨⟨⟩, hrest, h⟩ := Outcome.bind_eq_ok_iff.1 h
      obtain rfl := Except.ok.inj h
      exact ⟨nofun, hm, hrest⟩
    · rintro ⟨-, hn, hrest⟩
      exact ⟨n, hn, by rw [hrest]; rfl⟩

end Candidates

namespace InputSpec

theorem checkExpected_eq_ok_iff {shapes : Table (List Nat)} :
    ∀ {fields : List (String × Tensor)},
      checkExpected shapes fields = .ok () ↔ ∀ e ∈ fields, e.1 ∈ shapes.keys
  | [] => by simp [checkExpected]
  | (name, t) :: rest => by
    rw [checkExpected, List.forall_mem_cons, ← Table.get?_isSome_iff, Table.contains]
    by_cases h : (Table.get? name shapes).isSome
    · rw [if_pos h, checkExpected_eq_ok_iff]
      exact ⟨fun hrest => ⟨h, hrest⟩, And.right⟩
    · rw [if_neg h]
      exact ⟨nofun, fun hall => absurd hall.1 h⟩

/-- What the check of one shape refuses. -/
theorem misshaped_iff {actual shape : List Nat} :
    (actual.isEmpty || actual.tail ≠ shape) = true ↔ ¬∃ n, actual = n :: shape := by
  cases actual with
  | nil => simp
  | cons n inner =>
    rw [List.isEmpty_cons, Bool.false_or, decide_eq_true_iff, List.tail_cons]
    simp

theorem checkShapes_eq_ok_iff {fields : Table Tensor} :
    ∀ {shapes : List (String × List Nat)}, checkShapes fields shapes = .ok () ↔
      ∀ e ∈ shapes, ∃ t n, fields.get? e.1 = some t ∧ t.shape = n :: e.2
  | [] => by simp [checkShapes]
  | (name, shape) :: rest => by
    rw [checkShapes, List.forall_mem_cons, ← checkShapes_eq_ok_iff]
    cases fields.get? name with
    | none =>
      constructor
      · intro h
        cases h
      · rintro ⟨⟨t, n, ht, -⟩, -⟩
        cases ht
    | some t =>
      dsimp only
      by_cases hfits : ∃ n, t.shape = n :: shape
      · obtain ⟨n, hshape⟩ := hfits
        rw [if_neg fun h => misshaped_iff.1 h ⟨n, hshape⟩]
        exact ⟨fun hrest => ⟨⟨t, n, rfl, hshape⟩, hrest⟩, And.right⟩
      · rw [if_pos (misshaped_iff.2 hfits)]
        constructor
        · intro h
          cases h
        · rintro ⟨⟨t', n, ht, hshape⟩, -⟩
          obtain rfl := Option.some.inj ht
          exact absurd ⟨n, hshape⟩ hfits

/-- A named spec takes exactly the batches with its fields and its shapes that have a size. -/
theorem check_named_eq_ok_iff {shapes : Table (List Nat)} {fields : Table Tensor} :
    (named shapes).check (.named fields) = .ok () ↔
      (∀ e ∈ fields, e.1 ∈ shapes.keys) ∧
      (∀ e ∈ shapes, ∃ t n, fields.get? e.1 = some t ∧ t.shape = n :: e.2) ∧
      ∃ n, (Candidates.named fields).size = .ok n := by
  rw [check, Outcome.bind_eq_ok_iff, ← checkExpected_eq_ok_iff, ← checkShapes_eq_ok_iff]
  constructor
  · rintro ⟨⟨⟩, hexpected, h⟩
    obtain ⟨⟨⟩, hshapes, h⟩ := Outcome.bind_eq_ok_iff.1 h
    obtain ⟨n, hn, -⟩ := Outcome.bind_eq_ok_iff.1 h
    exact ⟨hexpected, hshapes, n, hn⟩
  · rintro ⟨hexpected, hshapes, n, hn⟩
    exact ⟨(), hexpected, by rw [hshapes, Outcome.ok_bind, hn]; rfl⟩

end InputSpec

end Lockstep
