import Mathlib.Data.Prod.Lex
import Mathlib.Data.Int.Order.Basic

/-!
# The order of doubles

Doubles that are numbers are ordered like keys of three integers: the sign with the kind of the
number, the exponent and the mantissa (`Binary64.lt_iff`). So a number that is not below another one
takes its place in a comparison (`Binary64.lt_of_lt_of_not_lt`, `Binary64.lt_of_not_lt_of_lt`). Two
numbers are equal when neither is below the other (`Binary64.beq_iff`).
-/

namespace Lockstep.Binary64

open Float.Model
open Float.Model.UnpackedFloat

/-- The kind with the sign, the exponent and the mantissa, so that larger numbers have larger keys.
All zeros have the same key. -/
def orderKey : UnpackedFloat → Int ×ₗ Int ×ₗ Int
  | .infinity .positive => toLex (2, toLex (0, 0))
  | .infinity .negative => toLex (-2, toLex (0, 0))
  | .notANumber => toLex (0, toLex (0, 0))
  | .zero _ => toLex (0, toLex (0, 0))
  | .finite .positive m e _ => toLex (1, toLex (e, m))
  | .finite .negative m e _ => toLex (-1, toLex (-e, -m))

theorem toLex_lt {a b c a' b' c' : Int} :
    (toLex (a, toLex (b, c)) : Int ×ₗ Int ×ₗ Int) < toLex (a', toLex (b', c')) ↔
      a < a' ∨ a = a' ∧ (b < b' ∨ b = b' ∧ c < c') := by
  rw [Prod.Lex.toLex_lt_toLex, Prod.Lex.toLex_lt_toLex]

/-- Exponents are compared first, as mantissas are normal. -/
theorem then_eq_lt_iff {e e' : Int} {m m' : Nat} :
    (compare e e').then (compare m m') = .lt ↔ e < e' ∨ e = e' ∧ (m : Int) < m' := by
  rw [Ordering.then_eq_lt, compare_lt_iff_lt, compare_eq_iff_eq, compare_lt_iff_lt, Int.ofNat_lt]

theorem then_eq_gt_iff {e e' : Int} {m m' : Nat} :
    (compare e e').then (compare m m') = .gt ↔ e' < e ∨ e = e' ∧ (m' : Int) < m := by
  rw [Ordering.then_eq_gt, compare_gt_iff_gt, compare_eq_iff_eq, compare_gt_iff_gt, Int.ofNat_lt]

theorem lt_unpacked_iff {x y : UnpackedFloat} (hx : x.isNaN = false) (hy : y.isNaN = false) :
    x.lt y = true ↔ orderKey x < orderKey y := by
  -- The classes are compared as `compare` matches on them. The key decides all pairs of classes by
  -- sign and rank alone; two finite numbers of one sign are left to the exponent and the mantissa.
  cases x with
  | notANumber => cases hx
  | infinity s =>
    cases y with
    | notANumber => cases hy
    | infinity s' => cases s <;> cases s' <;> decide
    | zero s' =>
      cases s <;> dsimp only [UnpackedFloat.lt, UnpackedFloat.compare, orderKey] <;>
        simp [toLex_lt]
    | finite s' m e h =>
      cases s <;> cases s' <;> dsimp only [UnpackedFloat.lt, UnpackedFloat.compare, orderKey] <;>
        simp [toLex_lt]
  | zero s =>
    cases y with
    | notANumber => cases hy
    | infinity s' =>
      cases s' <;> dsimp only [UnpackedFloat.lt, UnpackedFloat.compare, orderKey] <;>
        simp [toLex_lt]
    | zero s' =>
      dsimp only [UnpackedFloat.lt, UnpackedFloat.compare, orderKey]
      simp
    | finite s' m e h =>
      cases s' <;> dsimp only [UnpackedFloat.lt, UnpackedFloat.compare, orderKey] <;>
        simp [toLex_lt]
  | finite s m e h =>
    cases y with
    | notANumber => cases hy
    | infinity s' =>
      cases s <;> cases s' <;> dsimp only [UnpackedFloat.lt, UnpackedFloat.compare, orderKey] <;>
        simp [toLex_lt]
    | zero s' =>
      cases s <;> dsimp only [UnpackedFloat.lt, UnpackedFloat.compare, orderKey] <;>
        simp [toLex_lt]
    | finite s' m' e' h' =>
      rw [UnpackedFloat.lt, beq_iff_eq]
      cases s with
      | negative =>
        cases s' with
        | negative =>
          dsimp only [UnpackedFloat.compare, orderKey]
          rw [Option.some.injEq, Ordering.swap_eq_lt, then_eq_gt_iff, toLex_lt]
          omega
        | positive =>
          dsimp only [UnpackedFloat.compare, orderKey]
          simp [toLex_lt]
      | positive =>
        cases s' with
        | negative =>
          dsimp only [UnpackedFloat.compare, orderKey]
          simp [toLex_lt]
        | positive =>
          dsimp only [UnpackedFloat.compare, orderKey]
          rw [Option.some.injEq, then_eq_lt_iff, toLex_lt]
          omega

/-- The place of a number among all numbers. -/
def place (x : Float) : Int ×ₗ Int ×ₗ Int := orderKey x.toModel.unpack

theorem lt_iff {x y : Float} (hx : x.isNaN = false) (hy : y.isNaN = false) :
    x < y ↔ place x < place y := by
  refine Iff.trans ?_ (lt_unpacked_iff hx hy)
  change decide (x.toModel < y.toModel) = true ↔ _
  exact decide_eq_true_iff

theorem isNaN_of_isFinite {x : Float} (h : x.isFinite = true) : x.isNaN = false := by
  change x.toModel.unpack.isFinite = true at h
  change x.toModel.unpack.isNaN = false
  cases hx : x.toModel.unpack with
  | notANumber =>
    rw [hx] at h
    cases h
  | _ => rfl

variable {x y z : Float}

theorem not_lt_of_lt (hx : x.isNaN = false) (hy : y.isNaN = false) (h : x < y) : ¬ y < x :=
  fun h' => lt_asymm ((lt_iff hx hy).1 h) ((lt_iff hy hx).1 h')

theorem not_lt_self (hx : x.isNaN = false) : ¬ x < x := fun h => not_lt_of_lt hx hx h h

theorem lt_of_lt_of_not_lt (hx : x.isNaN = false) (hy : y.isNaN = false) (hz : z.isNaN = false)
    (h : x < y) (hyz : ¬ z < y) : x < z := by
  rw [lt_iff hx hy] at h
  rw [lt_iff hz hy, not_lt] at hyz
  exact (lt_iff hx hz).2 (h.trans_le hyz)

theorem lt_of_not_lt_of_lt (hx : x.isNaN = false) (hy : y.isNaN = false) (hz : z.isNaN = false)
    (hxy : ¬ y < x) (h : y < z) : x < z := by
  rw [lt_iff hy hx, not_lt] at hxy
  rw [lt_iff hy hz] at h
  exact (lt_iff hx hz).2 (hxy.trans_lt h)

/-! ## Equal numbers -/

theorem then_swap (e e' : Int) (m m' : Nat) :
    (compare e' e).then (compare m' m) = ((compare e e').then (compare m m')).swap := by
  rw [Ordering.swap_then, Int.compare_swap, Nat.compare_swap]

/-- Numbers can be compared, and the other way round they compare the other way round. -/
theorem exists_compare {x y : UnpackedFloat} (hx : x.isNaN = false) (hy : y.isNaN = false) :
    ∃ o, x.compare y = some o ∧ y.compare x = some o.swap := by
  -- only two finite numbers of one sign are compared by more than their class
  cases x with
  | notANumber => cases hx
  | infinity s =>
    cases y with
    | notANumber => cases hy
    | infinity s' => cases s <;> cases s' <;> exact ⟨_, rfl, rfl⟩
    | zero s' => cases s <;> exact ⟨_, rfl, rfl⟩
    | finite s' m e h => cases s <;> cases s' <;> exact ⟨_, rfl, rfl⟩
  | zero s =>
    cases y with
    | notANumber => cases hy
    | infinity s' => cases s' <;> exact ⟨_, rfl, rfl⟩
    | zero s' => exact ⟨_, rfl, rfl⟩
    | finite s' m e h => cases s' <;> exact ⟨_, rfl, rfl⟩
  | finite s m e h =>
    cases y with
    | notANumber => cases hy
    | infinity s' => cases s <;> cases s' <;> exact ⟨_, rfl, rfl⟩
    | zero s' => cases s <;> exact ⟨_, rfl, rfl⟩
    | finite s' m' e' h' =>
      cases s with
      | negative =>
        cases s' with
        | negative =>
          exact ⟨_, rfl, congrArg (fun o => some (Ordering.swap o)) (then_swap e e' m m')⟩
        | positive => exact ⟨_, rfl, rfl⟩
      | positive =>
        cases s' with
        | negative => exact ⟨_, rfl, rfl⟩
        | positive => exact ⟨_, rfl, congrArg some (then_swap e e' m m')⟩

/-- All comparisons of two numbers follow from one ordering. -/
theorem exists_ordering (hx : x.isNaN = false) (hy : y.isNaN = false) :
    ∃ o : Ordering, (x < y ↔ o = .lt) ∧ (y < x ↔ o = .gt) ∧ (x == y) = (o == .eq) ∧
      (x ≤ y ↔ o.isLE = true) := by
  obtain ⟨o, ho, hswap⟩ := exists_compare (x := x.toModel.unpack) (y := y.toModel.unpack) hx hy
  refine ⟨o, ?_, ?_, ?_, ?_⟩
  · change decide (x.toModel.unpack.lt y.toModel.unpack = true) = true ↔ _
    simp [UnpackedFloat.lt, ho]
  · change decide (y.toModel.unpack.lt x.toModel.unpack = true) = true ↔ _
    simp [UnpackedFloat.lt, hswap]
  · change (x.toModel.unpack.compare y.toModel.unpack == some .eq) = _
    rw [ho]
    rfl
  · change decide (x.toModel.unpack.le y.toModel.unpack = true) = true ↔ _
    simp [UnpackedFloat.le, ho]

theorem beq_iff (hx : x.isNaN = false) (hy : y.isNaN = false) :
    (x == y) = true ↔ ¬ x < y ∧ ¬ y < x := by
  obtain ⟨o, hlt, hgt, hbeq, -⟩ := exists_ordering hx hy
  rw [hlt, hgt, hbeq]
  cases o <;> decide

theorem le_iff (hx : x.isNaN = false) (hy : y.isNaN = false) : x ≤ y ↔ ¬ y < x := by
  obtain ⟨o, -, hgt, -, hle⟩ := exists_ordering hx hy
  rw [hgt, hle]
  cases o <;> decide

/-- Equal numbers have the same place. -/
theorem beq_iff_place (hx : x.isNaN = false) (hy : y.isNaN = false) :
    (x == y) = true ↔ place x = place y := by
  rw [beq_iff hx hy, lt_iff hx hy, lt_iff hy hx, not_lt, not_lt, le_antisymm_iff, and_comm]

/-! ## What is not a number -/

theorem compare_of_isNaN {x y : UnpackedFloat} (h : x.isNaN = true ∨ y.isNaN = true) :
    x.compare y = none := by
  cases x with
  | notANumber => rfl
  | _ =>
    cases y with
    | notANumber => rfl
    | _ => rcases h with h | h <;> cases h

/-- What is below or above something is a number. -/
theorem isNaN_of_lt (h : x < y) : x.isNaN = false ∧ y.isNaN = false := by
  change decide (x.toModel.unpack.lt y.toModel.unpack = true) = true at h
  rw [← Bool.not_eq_true, ← Bool.not_eq_true, ← not_or]
  intro hnan
  rw [UnpackedFloat.lt, compare_of_isNaN hnan] at h
  cases h

theorem isNaN_of_le (h : x ≤ y) : x.isNaN = false ∧ y.isNaN = false := by
  change decide (x.toModel.unpack.le y.toModel.unpack = true) = true at h
  rw [← Bool.not_eq_true, ← Bool.not_eq_true, ← not_or]
  intro hnan
  rw [UnpackedFloat.le, compare_of_isNaN hnan] at h
  cases h

theorem isNaN_of_beq (h : (x == y) = true) : x.isNaN = false ∧ y.isNaN = false := by
  change (x.toModel.unpack.compare y.toModel.unpack == some .eq) = true at h
  rw [← Bool.not_eq_true, ← Bool.not_eq_true, ← not_or]
  intro hnan
  rw [compare_of_isNaN hnan] at h
  cases h

end Lockstep.Binary64
