import Lockstep.Proofs.Binary64.Counting
import Lockstep.Proofs.Binary64.Lowest
import Mathlib

/-!
# The signs of results

A number has one of two signs (`Binary64.HasSign`), and storing a result may lead to zero or to
infinity, but neither to another sign nor away from the numbers (`Binary64.HasSign.stored`). Sums
and square roots of numbers without the negative sign have none either, and no square of a number
has it. Two such numbers that are equal are the same (`Binary64.HasSign.eq_of_compare`).
-/

namespace Lockstep.Binary64

open Float.Model (Format totalExponent UnpackedFloat)
open Float.Model.UnpackedFloat

/-! ## Results as they are stored -/

/-- A result, once its bits were stored and read again. -/
def stored (u : UnpackedFloat) : UnpackedFloat := unpack Format.binary64 (pack Format.binary64 u)

theorem unpack_add (x y : Float) :
    (x + y).toModel.unpack = stored (.add Format.binary64 x.toModel.unpack y.toModel.unpack) := rfl

theorem unpack_sub (x y : Float) :
    (x - y).toModel.unpack = stored (.sub Format.binary64 x.toModel.unpack y.toModel.unpack) := rfl

theorem unpack_mul (x y : Float) :
    (x * y).toModel.unpack = stored (.mul Format.binary64 x.toModel.unpack y.toModel.unpack) := rfl

theorem unpack_div (x y : Float) :
    (x / y).toModel.unpack = stored (.div Format.binary64 x.toModel.unpack y.toModel.unpack) := rfl

theorem unpack_sqrt (x : Float) :
    x.sqrt.toModel.unpack = stored (.sqrt Format.binary64 x.toModel.unpack) := rfl

/-! ## Signs -/

/-- A number with the sign, finite or not. -/
def HasSign (sign : Sign) : UnpackedFloat → Prop
  | .infinity s => s = sign
  | .zero s => s = sign
  | .finite s _ _ _ => s = sign
  | .notANumber => False

theorem HasSign.isNaN {sign : Sign} {u : UnpackedFloat} (h : HasSign sign u) : u.isNaN = false := by
  cases u with
  | notANumber => cases h
  | _ => rfl

theorem exists_hasSign {u : UnpackedFloat} (h : u.isNaN = false) : ∃ sign, HasSign sign u := by
  cases u with
  | notANumber => cases h
  | infinity sign => exact ⟨sign, rfl⟩
  | zero sign => exact ⟨sign, rfl⟩
  | finite sign m e hm => exact ⟨sign, rfl⟩

/-- Bits whose exponent is not the greatest one are those of a number with their sign. -/
theorem hasSign_packComponents (sign : Sign) {b : BitVec 11} (hb : b ≠ -1#11) (c : BitVec 52) :
    HasSign sign (unpack Format.binary64 (packComponents Format.binary64 sign b c)) := by
  have hstored := @unpackExponent_packComponents Format.binary64 sign b c
  have hfinite : unpackExponent (packComponents Format.binary64 sign b c) ≠ -1#11 := by
    rw [hstored]
    exact hb
  have hsign := sign_packComponents sign b c
  rw [unpack]
  dsimp only
  rw [if_neg hfinite]
  split
  · split
    · exact hsign
    · exact hsign
  · exact hsign

/-- Storing a number may lead to zero or to infinity, but not to another sign. -/
theorem HasSign.stored {sign : Sign} {u : UnpackedFloat} (h : HasSign sign u) :
    HasSign sign (stored u) := by
  cases u with
  | notANumber => cases h
  | infinity s =>
    obtain rfl : s = sign := h
    cases s with
    | negative => exact rfl
    | positive => exact rfl
  | zero s =>
    obtain rfl : s = sign := h
    cases s with
    | negative => exact rfl
    | positive => exact rfl
  | finite s m e hm =>
    obtain rfl : s = sign := h
    rw [Binary64.stored, pack]
    dsimp only
    split
    · cases s with
      | negative => exact rfl
      | positive => exact rfl
    · next hfits =>
      change ¬ 2048 ≤ _ at hfits
      split
      · refine hasSign_packComponents s ?_ _
        intro heq
        have hnat := congrArg BitVec.toNat heq
        change (BitVec.ofNat 11 _).toNat = 2047 at hnat
        rw [BitVec.toNat_ofNat, Nat.mod_eq_of_lt (by omega)] at hnat
        omega
      · exact hasSign_packComponents s (by decide) _

theorem isNaN_stored {u : UnpackedFloat} (h : u.isNaN = false) : (stored u).isNaN = false := by
  obtain ⟨sign, hsign⟩ := exists_hasSign h
  exact hsign.stored.isNaN

/-! ## Operations -/

/-- Rounding keeps the sign. -/
theorem hasSign_roundWithAccuracy (sign : Sign) (m : Nat) (e : Int) (accuracy : Accuracy) :
    HasSign sign (roundWithAccuracy Format.binary64 sign m e accuracy) := by
  rw [roundWithAccuracy]
  dsimp only
  split
  · exact rfl
  · exact rfl

theorem isNaN_normalize (m e : Int) (sign : Sign) :
    (normalize Format.binary64 m e sign).isNaN = false := by
  rw [UnpackedFloat.normalize]
  split
  · exact (hasSign_roundWithAccuracy ..).isNaN
  · rfl
  · exact (hasSign_roundWithAccuracy ..).isNaN

theorem hasSign_normalize {m : Int} (hm : 0 ≤ m) (e : Int) :
    HasSign .positive (normalize Format.binary64 m e .positive) := by
  rw [UnpackedFloat.normalize]
  split
  · next hlt =>
    rw [Int.compare_eq_lt] at hlt
    omega
  · exact rfl
  · exact hasSign_roundWithAccuracy ..

/-- The sign of a square. -/
theorem mul_self_sign (sign : Sign) : sign * sign = .positive := by
  cases sign with
  | negative => rfl
  | positive => rfl

theorem hasSign_mul_self {u : UnpackedFloat} (h : u.isNaN = false) :
    HasSign .positive (.mul Format.binary64 u u) := by
  cases u with
  | notANumber => cases h
  | infinity sign => exact mul_self_sign sign
  | zero sign => exact mul_self_sign sign
  | finite sign m e hm =>
    rw [UnpackedFloat.mul, mul_self_sign]
    exact hasSign_roundWithAccuracy ..

namespace HasSign

variable {u v : UnpackedFloat}

theorem add (hu : HasSign .positive u) (hv : HasSign .positive v) :
    HasSign .positive (.add Format.binary64 u v) := by
  cases u with
  | notANumber => cases hu
  | infinity sign =>
    obtain rfl : sign = .positive := hu
    cases v with
    | notANumber => cases hv
    | infinity sign' =>
      obtain rfl : sign' = .positive := hv
      exact rfl
    | zero sign' => exact rfl
    | finite sign' m e hm => exact rfl
  | zero sign =>
    obtain rfl : sign = .positive := hu
    cases v with
    | notANumber => cases hv
    | infinity sign' => exact hv
    | zero sign' =>
      obtain rfl : sign' = .positive := hv
      exact rfl
    | finite sign' m e hm => exact hv
  | finite sign m e hm =>
    obtain rfl : sign = .positive := hu
    cases v with
    | notANumber => cases hv
    | infinity sign' => exact hv
    | zero sign' => exact rfl
    | finite sign' m' e' hm' =>
      obtain rfl : sign' = .positive := hv
      rw [add_finite]
      exact hasSign_normalize (Int.add_nonneg (Int.natCast_nonneg _) (Int.natCast_nonneg _)) _

theorem sqrt (hu : HasSign .positive u) : HasSign .positive (.sqrt Format.binary64 u) := by
  cases u with
  | notANumber => cases hu
  | infinity sign =>
    obtain rfl : sign = .positive := hu
    exact rfl
  | zero sign => exact hu
  | finite sign m e hm =>
    obtain rfl : sign = .positive := hu
    exact hasSign_roundWithAccuracy ..

/-- Without the negative sign, numbers that compare as equal are the same: there is one zero
only. -/
theorem eq_of_compare (hu : HasSign .positive u) (hv : HasSign .positive v)
    (h : u.compare v = some .eq) : u = v := by
  -- a number of one class is never equal to one of another, and in a class the sign is known
  cases u with
  | notANumber => cases hu
  | infinity sign =>
    obtain rfl : sign = .positive := hu
    cases v with
    | notANumber => cases hv
    | infinity sign' =>
      obtain rfl : sign' = .positive := hv
      rfl
    | zero sign' => cases h
    | finite sign' m e hm => cases h
  | zero sign =>
    obtain rfl : sign = .positive := hu
    cases v with
    | notANumber => cases hv
    | infinity sign' =>
      obtain rfl : sign' = .positive := hv
      cases h
    | zero sign' =>
      obtain rfl : sign' = .positive := hv
      rfl
    | finite sign' m e hm =>
      obtain rfl : sign' = .positive := hv
      cases h
  | finite sign m e hm =>
    obtain rfl : sign = .positive := hu
    cases v with
    | notANumber => cases hv
    | infinity sign' =>
      obtain rfl : sign' = .positive := hv
      cases h
    | zero sign' => cases h
    | finite sign' m' e' hm' =>
      obtain rfl : sign' = .positive := hv
      obtain ⟨he, hmantissa⟩ := Ordering.then_eq_eq.1 (Option.some.inj h)
      exact finite_congr rfl (Nat.compare_eq_eq.1 hmantissa) (compare_eq_iff_eq.1 he)

end HasSign

/-- The difference of finite numbers is a number. -/
theorem isNaN_sub_of_isFinite {u v : UnpackedFloat} (hu : u.isFinite = true)
    (hv : v.isFinite = true) : (UnpackedFloat.sub Format.binary64 u v).isNaN = false := by
  cases u with
  | notANumber => cases hu
  | infinity sign => cases hu
  | zero sign =>
    cases v with
    | notANumber => cases hv
    | infinity sign' => cases hv
    | zero sign' =>
      rw [UnpackedFloat.sub]
      split
      · rfl
      · rfl
    | finite sign' m e hm => rfl
  | finite sign m e hm =>
    cases v with
    | notANumber => cases hv
    | infinity sign' => cases hv
    | zero sign' => rfl
    | finite sign' m' e' hm' => exact isNaN_normalize ..

/-- A number that is divided by a finite one other than zero stays a number. -/
theorem isNaN_div_finite {u : UnpackedFloat} (hu : u.isNaN = false) (sign : Sign) (m : Nat)
    (e : Int)
    (hm : 0 < m) : (UnpackedFloat.div Format.binary64 u (.finite sign m e hm)).isNaN = false := by
  cases u with
  | notANumber => cases hu
  | infinity sign' => rfl
  | zero sign' => rfl
  | finite sign' m' e' hm' => exact (hasSign_roundWithAccuracy ..).isNaN

/-! ## The number of a word -/

/-- Rounding adds at most 1 to a significand. -/
theorem roundedMantissa_bounds (em : ExtendedMantissa) :
    em.mantissa ≤ em.roundedMantissa ∧ em.roundedMantissa ≤ em.mantissa + 1 := by
  obtain ⟨m, roundBit, stickyBit⟩ := em
  have heven : m % 2 ≤ 1 := Nat.le_of_lt_succ (Nat.mod_lt m (by decide))
  cases roundBit with
  | false =>
    cases stickyBit with
    | false => exact ⟨Nat.le_refl m, Nat.le_succ m⟩
    | true => exact ⟨Nat.le_refl m, Nat.le_succ m⟩
  | true =>
    cases stickyBit with
    | false => exact ⟨Nat.le_add_right m _, Nat.add_le_add_left heven m⟩
    | true => exact ⟨Nat.le_succ m, Nat.le_refl _⟩

/-- The first 53 bits of a number are a significand. -/
theorem normal_div {n k : Nat} (hn : n ≠ 0) (hk : n.log2 = 52 + k) : Normal (n / Nat.pow 2 k) := by
  have hself := Nat.log2_self_le hn
  have hlt := Nat.lt_log2_self (n := n)
  rw [hk] at hself hlt
  rw [Nat.add_right_comm] at hlt
  rw [Normal, Nat.pow_eq, Nat.pow_eq, Nat.pow_eq, Nat.le_div_iff_mul_le (Nat.two_pow_pos k),
    Nat.div_lt_iff_lt_mul (Nat.two_pow_pos k), ← Nat.pow_add, ← Nat.pow_add]
  exact ⟨hself, hlt⟩

/-- A significand that became too long when it was rounded loses a zero. -/
theorem shiftToTargetExponent_full {e : Int} (he : -1074 ≤ e) :
    shiftToTargetExponent Format.binary64 (1 * Nat.pow 2 53) e .exact =
      (⟨1 * Nat.pow 2 52, false, false⟩, e + 1) := by
  have hlog : (1 * Nat.pow 2 53).log2 = 53 := log2_mul_two_pow Nat.one_pos 53
  have htarget : Format.binary64.targetExponent (totalExponent (1 * Nat.pow 2 53) e) = e + 1 := by
    simp only [Format.targetExponent, totalExponent, mantissaBits_binary64, Format.minExponent,
      hlog]
    omega
  have hone : (e + 1 - e).toNat = 1 := by omega
  have hsplit : 1 * Nat.pow 2 53 = 1 * Nat.pow 2 52 * Nat.pow 2 1 := rfl
  rw [shiftToTargetExponent, htarget, shiftToExponent, hone, hsplit,
    ExtendedMantissa.ofMantissaAndAccuracy, shiftRight_of_mul]
  rfl

/-- A significand that was rounded is one, or is so after it lost a zero. -/
theorem exists_shiftToTargetExponent {m : Nat} {e : Int} (hlow : Nat.pow 2 52 ≤ m)
    (hhigh : m ≤ Nat.pow 2 53) (he : -1074 ≤ e) :
    ∃ m' e', shiftToTargetExponent Format.binary64 m e .exact = (⟨m', false, false⟩, e') ∧
      Normal m' ∧ e ≤ e' ∧ e' ≤ e + 1 := by
  rcases Nat.lt_or_eq_of_le hhigh with hlt | rfl
  · exact ⟨m, e, shiftToTargetExponent_of_normal ⟨hlow, hlt⟩ he, ⟨hlow, hlt⟩, by omega, by omega⟩
  · exact ⟨1 * Nat.pow 2 52, e + 1, shiftToTargetExponent_full he, ⟨by decide, by decide⟩,
      by omega, by omega⟩

/-- A whole number that is longer than a significand loses its last bits. -/
theorem ofNat_of_le {n : Nat} (hlow : Nat.pow 2 53 ≤ n) (hhigh : n < Nat.pow 2 64) :
    ∃ m e hpos, UnpackedFloat.ofNat Format.binary64 n = .finite .positive m e hpos ∧
      Normal m ∧ 0 ≤ e ∧ e ≤ 12 := by
  have hne : n ≠ 0 := by
    rintro rfl
    exact absurd hlow (by decide)
  have hlog : 53 ≤ n.log2 ∧ n.log2 < 64 := ⟨(Nat.le_log2 hne).2 hlow, (Nat.log2_lt hne).2 hhigh⟩
  obtain ⟨k, hk⟩ : ∃ k, n.log2 = 52 + k := ⟨n.log2 - 52, by omega⟩
  have htarget : Format.binary64.targetExponent (totalExponent n 0) = k := by
    simp only [Format.targetExponent, totalExponent, mantissaBits_binary64, Format.minExponent]
    omega
  have hstay : ((0 : Int) - k).toNat = 0 := by omega
  have hshift : ((k : Int) - 0).toNat = k := by omega
  have hcompare : compare (n : Int) 0 = .gt := Int.compare_eq_gt.2 (by omega)
  have hround : UnpackedFloat.ofNat Format.binary64 n =
      roundWithAccuracy Format.binary64 .positive n 0 .exact := by
    simp only [UnpackedFloat.ofNat, UnpackedFloat.ofInt, UnpackedFloat.normalize, hcompare,
      Int.toNat_natCast, UnpackedFloat.round, htarget, decreaseExponent, hstay, Nat.shiftLeft_zero]
    rfl
  -- the first bits, before and after they are rounded
  obtain ⟨em, hem⟩ : ∃ em, em = ExtendedMantissa.ofMantissaAndAccuracy n .exact >>> k := ⟨_, rfl⟩
  have hmantissa : em.mantissa = n / Nat.pow 2 k := by rw [hem, mantissa_shiftRight]
  have hfirst : shiftToTargetExponent Format.binary64 n 0 .exact = (em, (k : Int)) := by
    rw [shiftToTargetExponent, htarget, shiftToExponent, hshift, ← hem, Int.zero_add]
  obtain ⟨hbits, hbits'⟩ := normal_div hne hk
  obtain ⟨hle, hle'⟩ := roundedMantissa_bounds em
  rw [hmantissa] at hle hle'
  obtain ⟨m, e, hsecond, hnormal, he, he'⟩ := exists_shiftToTargetExponent (e := k)
    (Nat.le_trans hbits hle) (Nat.le_trans hle' hbits') (by omega)
  have hpos : 0 < m := Nat.lt_of_lt_of_le (Nat.two_pow_pos 52) hnormal.1
  refine ⟨m, e, hpos, ?_, hnormal, by omega, by omega⟩
  rw [hround, roundWithAccuracy, hfirst]
  dsimp only
  rw [hsecond]
  exact dif_neg (Nat.ne_of_gt hpos)

/-- The number of a word other than 0 is finite and not 0. -/
theorem unpack_toFloat_of_pos {n : UInt64} (h0 : 0 < n.toNat) :
    ∃ m e hpos, n.toFloat.toModel.unpack = .finite .positive m e hpos := by
  rcases Nat.lt_or_ge n.toNat (Nat.pow 2 53) with hlt | hge
  · obtain ⟨hpos, hunpack⟩ := unpack_toFloat h0 hlt
    exact ⟨_, _, hpos, hunpack⟩
  · obtain ⟨m, e, hpos, hof, hnormal, he, he'⟩ := ofNat_of_le hge n.toNat_lt
    refine ⟨m, e, hpos, ?_⟩
    change unpack Format.binary64 (pack Format.binary64 (UnpackedFloat.ofNat Format.binary64
      n.toNat)) = _
    rw [hof]
    exact unpack_pack_of_normal hnormal (by omega) (by omega) hpos

end Lockstep.Binary64
