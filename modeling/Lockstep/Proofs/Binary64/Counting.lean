import Lockstep.Proofs.Random.Key

/-!
# Counting in doubles

Below `2 ^ 53`, the number of a word and one more is the number of the next word
(`Binary64.toFloat_add_one`): all bits of the sum that do not fit into its significand are zero, so
rounding loses nothing (`Binary64.round_eq`).
-/

namespace Lockstep.Binary64

open Float.Model (Format totalExponent UnpackedFloat)
open Float.Model.UnpackedFloat

/-- Low bits that are zero leave no trace. -/
theorem shiftRight_of_mul (m k : Nat) :
    (⟨m * Nat.pow 2 k, false, false⟩ : ExtendedMantissa) >>> k = ⟨m, false, false⟩ := by
  induction k generalizing m with
  | zero =>
    rw [Nat.pow_eq, Nat.pow_zero, Nat.mul_one]
    rfl
  | succ k ih =>
    have hdouble : m * Nat.pow 2 (k + 1) = m * 2 * Nat.pow 2 k := by
      rw [Nat.pow_eq, Nat.pow_succ, Nat.mul_comm (2 ^ k), Nat.mul_assoc, Nat.pow_eq]
    change ((⟨m * Nat.pow 2 (k + 1), false, false⟩ : ExtendedMantissa) >>> k).shiftRightOne = _
    rw [hdouble, ih, ExtendedMantissa.shiftRightOne]
    simp

theorem log2_mul_two_pow {n : Nat} (h0 : 0 < n) (k : Nat) :
    (n * Nat.pow 2 k).log2 = n.log2 + k := by
  have hne : n ≠ 0 := Nat.pos_iff_ne_zero.1 h0
  have hpow : 0 < Nat.pow 2 k := Nat.two_pow_pos k
  refine (Nat.log2_eq_iff (Nat.mul_ne_zero hne (Nat.ne_of_gt hpow))).2 ⟨?_, ?_⟩
  · rw [Nat.pow_add]
    exact Nat.mul_le_mul_right _ (Nat.log2_self_le hne)
  · rw [Nat.add_right_comm, Nat.pow_add]
    exact Nat.mul_lt_mul_of_pos_right Nat.lt_log2_self hpow

/-- A whole number that was moved up by 52 bits is rounded to itself. -/
theorem round_eq {n : Nat} (h0 : 0 < n) (hn : n < Nat.pow 2 53) :
    UnpackedFloat.round Format.binary64 .positive (n * Nat.pow 2 52) (-52) =
      UnpackedFloat.ofNat Format.binary64 n := by
  obtain ⟨hpos, hof⟩ := ofNat_eq h0 hn
  obtain ⟨hle, hnormal⟩ := normal_of_lt h0 hn
  have htarget : Format.binary64.targetExponent (totalExponent (n * Nat.pow 2 52) (-52)) =
      n.log2 - 52 := by
    simp only [Format.targetExponent, totalExponent, mantissaBits_binary64, Format.minExponent,
      log2_mul_two_pow h0]
    omega
  have hstay : ((-52 : Int) - (n.log2 - 52)).toNat = 0 := by omega
  have hdown : ((n.log2 : Int) - 52 - -52).toNat = n.log2 := by omega
  have hsplit : n * Nat.pow 2 52 = n * Nat.pow 2 (52 - n.log2) * Nat.pow 2 n.log2 := by
    rw [Nat.pow_eq, Nat.pow_eq, Nat.pow_eq, Nat.mul_assoc, ← Nat.pow_add, Nat.sub_add_cancel hle]
  -- the shift takes away no more than the zeros
  have hshift : shiftToTargetExponent Format.binary64 (n * Nat.pow 2 52) (-52) .exact =
      ((⟨n * Nat.pow 2 (52 - n.log2), false, false⟩ : ExtendedMantissa), (n.log2 : Int) - 52) := by
    rw [shiftToTargetExponent, htarget, shiftToExponent, hdown, hsplit,
      ExtendedMantissa.ofMantissaAndAccuracy, shiftRight_of_mul, Prod.mk.injEq]
    exact ⟨rfl, by omega⟩
  rw [hof, ← roundWithAccuracy_of_normal hnormal (by omega) hpos .positive, UnpackedFloat.round,
    htarget, decreaseExponent, hstay]
  simp only [Nat.shiftLeft_zero, Int.ofNat_zero, Int.sub_zero]
  rw [roundWithAccuracy, hshift, roundWithAccuracy,
    shiftToTargetExponent_of_normal hnormal (by omega)]

/-- Two numbers above zero are added at the smaller one of their exponents. -/
theorem add_finite {m m' : Nat} {e e' : Int} {h : 0 < m} {h' : 0 < m'} :
    UnpackedFloat.add Format.binary64 (.finite .positive m e h) (.finite .positive m' e' h') =
      UnpackedFloat.normalize Format.binary64
        ((m <<< (e - min e e').toNat : Nat) + (m' <<< (e' - min e e').toNat : Nat) : Int)
        (min e e') .positive := rfl

/-- One more than a word below `2 ^ 53` is the next word. -/
theorem toFloat_add_one {n : UInt64} (hn : n.toNat + 1 < Nat.pow 2 53) :
    n.toFloat + 1 = (n + 1).toFloat := by
  have hlt : n.toNat < Nat.pow 2 53 := Nat.lt_of_succ_lt hn
  have hnext : (n + 1).toNat = n.toNat + 1 := by
    rw [UInt64.toNat_add, UInt64.toNat_one]
    exact Nat.mod_eq_of_lt (Nat.lt_trans hn (by decide))
  rcases Nat.eq_zero_or_pos n.toNat with hzero | h0
  · obtain rfl : n = 0 := UInt64.toNat_inj.1 hzero
    rfl
  · obtain ⟨hpos, hunpack⟩ := unpack_toFloat h0 hlt
    obtain ⟨hle, -⟩ := normal_of_lt h0 hlt
    have hone : (1 : Float).toModel.unpack =
        .finite .positive (Nat.pow 2 52) (-52) (by decide) := rfl
    -- the significand of the word is moved up to the exponent of 1
    have hleast : min ((n.toNat.log2 : Int) - 52) (-52) = -52 := by omega
    have hup : ((n.toNat.log2 : Int) - 52 - -52).toNat = n.toNat.log2 := by omega
    have hstay : ((-52 : Int) - -52).toNat = 0 := by omega
    have hmantissa : (n.toNat * Nat.pow 2 (52 - n.toNat.log2)) <<< n.toNat.log2 =
        n.toNat * Nat.pow 2 52 := by
      rw [Nat.shiftLeft_eq, Nat.pow_eq, Nat.pow_eq, Nat.mul_assoc, ← Nat.pow_add,
        Nat.sub_add_cancel hle]
    have hsum : UnpackedFloat.add Format.binary64 n.toFloat.toModel.unpack
        (1 : Float).toModel.unpack =
        UnpackedFloat.normalize Format.binary64 (((n.toNat + 1) * Nat.pow 2 52 : Nat) : Int) (-52)
          .positive := by
      rw [hunpack, hone, add_finite, hleast, hup, hstay, hmantissa, Nat.shiftLeft_zero, Nat.add_mul,
        Nat.one_mul, Int.natCast_add]
    have hcompare : compare (((n.toNat + 1) * Nat.pow 2 52 : Nat) : Int) 0 = .gt :=
      Int.compare_eq_gt.2 (Int.natCast_pos.2 (Nat.mul_pos (Nat.succ_pos _) (Nat.two_pow_pos 52)))
    change Float.ofModel (Float.Model.pack (UnpackedFloat.add Format.binary64
      n.toFloat.toModel.unpack (1 : Float).toModel.unpack)) =
      Float.ofModel (Float.Model.pack (UnpackedFloat.ofNat Format.binary64 (n + 1).toNat))
    rw [hsum, UnpackedFloat.normalize, hcompare, hnext, ← round_eq (Nat.succ_pos _) hn]
    rfl

end Lockstep.Binary64
