import Lockstep.Monitor.Fitness
import Lockstep.Proofs.Binary64.Order

/-!
# The lowest number of a list

What is not a number is never the lowest one of a list, and neither sign of zero is below the other;
up to that a list has at most one lowest number (`IsLowest.beq`). The fold of the smaller of two
numbers finds it, with infinity for a list without numbers (`isLowest_smallest`). The smaller one of
the lowest numbers of two lists is that of both lists together (`IsLowest.append`).
-/

namespace Lockstep

open Binary64

/-- A number equals one in a list, and none in the list is below it. -/
structure IsLowest (x : Float) (xs : List Float) : Prop where
  mem : ∃ y ∈ xs, (x == y) = true
  least : ∀ y ∈ xs, ¬ y < x

variable {x y z : Float} {xs ys : List Float}

theorem place_le_of_not_lt (hx : x.isNaN = false) (hy : y.isNaN = false) (h : ¬ y < x) :
    place x ≤ place y := by
  rw [lt_iff hy hx] at h
  exact not_lt.1 h

namespace IsLowest

theorem isNaN (h : IsLowest x xs) : x.isNaN = false := by
  obtain ⟨y, -, hxy⟩ := h.mem
  exact (isNaN_of_beq hxy).1

theorem singleton (hx : x.isNaN = false) : IsLowest x [x] where
  mem := ⟨x, List.mem_cons_self, (beq_iff hx hx).2 ⟨not_lt_self hx, not_lt_self hx⟩⟩
  least := by
    rw [List.forall_mem_singleton]
    exact not_lt_self hx

theorem of_mem_iff (h : IsLowest x xs) (hsame : ∀ y, y ∈ xs ↔ y ∈ ys) : IsLowest x ys where
  mem := by
    obtain ⟨y, hy, hxy⟩ := h.mem
    exact ⟨y, (hsame y).1 hy, hxy⟩
  least y hy := h.least y ((hsame y).2 hy)

/-- The lowest number has a place below all others. -/
theorem place_le (h : IsLowest x xs) (hy : y ∈ xs) (hnumber : y.isNaN = false) :
    place x ≤ place y := place_le_of_not_lt h.isNaN hnumber (h.least y hy)

/-- The lowest numbers of a list are equal. -/
theorem beq (hx : IsLowest x xs) (hy : IsLowest y xs) : (x == y) = true := by
  obtain ⟨a, ha, hxa⟩ := hx.mem
  obtain ⟨b, hb, hyb⟩ := hy.mem
  obtain ⟨hxn, han⟩ := isNaN_of_beq hxa
  obtain ⟨hyn, hbn⟩ := isNaN_of_beq hyb
  rw [beq_iff_place hxn han] at hxa
  rw [beq_iff_place hyn hbn] at hyb
  rw [beq_iff_place hxn hyn]
  exact le_antisymm ((hx.place_le hb hbn).trans hyb.ge) ((hy.place_le ha han).trans hxa.ge)

/-- A number that is not above the lowest one of a list is not above any other. -/
theorem not_lt_of_not_lt (h : IsLowest x xs) (hy : y.isNaN = false) (hxy : ¬ x < y) :
    ∀ z ∈ xs, ¬ z < y := by
  intro z hz hzy
  have hzn := (isNaN_of_lt hzy).1
  rw [lt_iff hzn hy] at hzy
  exact absurd hzy (not_lt.2 ((place_le_of_not_lt hy h.isNaN hxy).trans (h.place_le hz hzn)))

/-- The smaller one of two lowest numbers. -/
theorem append (hx : IsLowest x xs) (hy : IsLowest y ys) : IsLowest (smaller x y) (xs ++ ys) := by
  obtain ⟨a, ha, hxa⟩ := hx.mem
  obtain ⟨b, hb, hyb⟩ := hy.mem
  rw [smaller]
  split
  · next hlt =>
    refine ⟨⟨b, List.mem_append_right _ hb, hyb⟩, List.forall_mem_append.2 ⟨?_, hy.least⟩⟩
    exact hx.not_lt_of_not_lt hy.isNaN (not_lt_of_lt hy.isNaN hx.isNaN hlt)
  · next hnot =>
    refine ⟨⟨a, List.mem_append_left _ ha, hxa⟩, List.forall_mem_append.2 ⟨hx.least, ?_⟩⟩
    exact hy.not_lt_of_not_lt hx.isNaN hnot

/-- What is not a number can be added. -/
theorem append_of_isNaN (h : IsLowest x xs) (hys : ∀ y ∈ ys, y.isNaN = true) :
    IsLowest x (xs ++ ys) := by
  obtain ⟨a, ha, hxa⟩ := h.mem
  refine ⟨⟨a, List.mem_append_left _ ha, hxa⟩, List.forall_mem_append.2 ⟨h.least, ?_⟩⟩
  intro y hy hlt
  have hnumber := (isNaN_of_lt hlt).1
  rw [hys y hy] at hnumber
  cases hnumber

end IsLowest

/-- The smaller one of two numbers is above neither. -/
theorem not_lt_smaller (hx : x.isNaN = false) : ¬ x < smaller x y := by
  rw [smaller]
  split
  · next hlt => exact not_lt_of_lt (isNaN_of_lt hlt).1 hx hlt
  · exact not_lt_self hx

/-! ## Infinity -/

theorem isNaN_infinity : infinity.isNaN = false := by decide +kernel

/-- Nothing is above infinity. -/
theorem not_infinity_lt (x : Float) : ¬ infinity < x := by
  intro h
  have hx := (isNaN_of_lt h).2
  rw [lt_iff isNaN_infinity hx, place, place,
    show infinity.toModel.unpack = .infinity .positive from rfl] at h
  generalize x.toModel.unpack = u at h
  cases u with
  | notANumber => dsimp only [orderKey] at h; simp [toLex_lt] at h
  | zero s => dsimp only [orderKey] at h; simp [toLex_lt] at h
  | infinity s => cases s <;> dsimp only [orderKey] at h <;> simp [toLex_lt] at h
  | finite s m e hm => cases s <;> dsimp only [orderKey] at h <;> simp [toLex_lt] at h

/-- The lowest number of a list is that of the list and infinity. -/
theorem IsLowest.cons_infinity (h : IsLowest x xs) : IsLowest x (infinity :: xs) where
  mem := by
    obtain ⟨y, hy, hxy⟩ := h.mem
    exact ⟨y, List.mem_cons_of_mem _ hy, hxy⟩
  least := List.forall_mem_cons.2 ⟨not_infinity_lt x, h.least⟩

/-- The smaller one of two lowest numbers, each of a list and infinity. -/
theorem IsLowest.append_infinity (hx : IsLowest x (infinity :: xs))
    (hy : IsLowest y (infinity :: ys)) : IsLowest (smaller x y) (infinity :: (xs ++ ys)) := by
  refine (hx.append hy).of_mem_iff fun z => ?_
  simp only [List.cons_append, List.mem_cons, List.mem_append]
  tauto

/-! ## The fold of the smaller of two numbers -/

theorem IsLowest.foldl_smaller (h : IsLowest x xs) : IsLowest (ys.foldl smaller x) (xs ++ ys) := by
  induction ys generalizing x xs with
  | nil => rwa [List.append_nil]
  | cons y ys ih =>
    rw [List.foldl_cons, List.append_cons]
    refine ih ?_
    cases hy : y.isNaN with
    | false => exact h.append (.singleton hy)
    | true =>
      have hkeep : smaller x y = x := if_neg fun hlt => by
        rw [(isNaN_of_lt hlt).1] at hy
        cases hy
      rw [hkeep]
      exact h.append_of_isNaN (List.forall_mem_singleton.2 hy)

theorem isLowest_smallest (xs : List Float) : IsLowest (smallest xs) (infinity :: xs) :=
  (IsLowest.singleton isNaN_infinity).foldl_smaller

/-- The smallest number depends only on which numbers there are. -/
theorem smallest_beq_of_mem_iff {xs ys : List Float}
    (hsame : ∀ x, x ∈ infinity :: xs ↔ x ∈ infinity :: ys) : (smallest xs == smallest ys) = true :=
  ((isLowest_smallest xs).of_mem_iff hsame).beq (isLowest_smallest ys)

/-- To pass over what is not a number changes nothing. -/
theorem isLowest_smallest_filter (xs : List Float) :
    IsLowest (smallest (xs.filter fun x => !x.isNaN)) (infinity :: xs) := by
  have hnumbers := isLowest_smallest (xs.filter fun x => !x.isNaN)
  have hnan : ∀ y ∈ xs.filter Float.isNaN, y.isNaN = true := fun y hy => (List.mem_filter.1 hy).2
  have hall := hnumbers.append_of_isNaN hnan
  refine hall.of_mem_iff fun y => ?_
  simp only [List.cons_append, List.mem_cons, List.mem_append, List.mem_filter, ← and_or_left]
  cases y.isNaN <;> simp

end Lockstep
