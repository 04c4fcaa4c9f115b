import Lockstep.Proofs.Binary64.Counting
import Mathlib

/-!
# The values of doubles

Every number that is not infinite has a rational value (`Binary64.value`). A whole value below
`2 ^ 53` has one significand and one exponent (`Binary64.unpack_of_value`), so the numbers that
equal the number of a word are those with the word as their value (`Binary64.beq_toFloat_iff`), and
each of them gives the word back (`Binary64.toUInt64_of_value`).
-/

namespace Lockstep.Binary64

open Float.Model (Format totalExponent UnpackedFloat)
open Float.Model.UnpackedFloat

/-- The value of a number that is not infinite. -/
def unpackedValue : UnpackedFloat → Option ℚ
  | .zero _ => some 0
  | .finite .positive m e _ => some (m * 2 ^ e)
  | .finite .negative m e _ => some (-(m * 2 ^ e))
  | .infinity _ => none
  | .notANumber => none

/-- The value of a double; what is infinite or no number has none. -/
def value (x : Float) : Option ℚ := unpackedValue x.toModel.unpack

/-! ## Significands -/

/-- All 53 bits of a significand are used, unless the exponent is the smallest one. -/
def Canonical (m : Nat) (e : Int) : Prop := Normal m ∨ m < Nat.pow 2 52 ∧ e = -1074

theorem canonical_unpack (bits : BitVec Format.binary64.numBits) {sign : Sign} {m : Nat} {e : Int}
    {h : 0 < m} (hbits : unpack Format.binary64 bits = .finite sign m e h) : Canonical m e := by
  rw [unpack] at hbits
  dsimp only at hbits
  split at hbits
  · split at hbits <;> cases hbits
  · split at hbits
    · rename_i hzero
      split at hbits
      · cases hbits
      · -- an exponent of zeros stands for the smallest one
        injection hbits with _ hm he
        refine .inr ⟨?_, ?_⟩
        · rw [← hm]
          exact BitVec.isLt _
        · rw [← he, hzero]
          rfl
    · injection hbits with _ hm he
      refine .inl ?_
      have hlt : (@unpackMantissa Format.binary64 bits).toNat < 2 ^ 52 := BitVec.isLt _
      have hsum : m = (@unpackMantissa Format.binary64 bits).toNat + 2 ^ 52 := by
        rw [← hm, BitVec.toNat_append, ← Nat.or_two_pow_eq_add_of_lt hlt, Nat.or_comm]
        rfl
      rw [Normal, hsum, Nat.pow_eq, Nat.pow_eq]
      omega

/-- The exponents that are stored. -/
theorem exponent_unpack (bits : BitVec Format.binary64.numBits) {sign : Sign} {m : Nat} {e : Int}
    {h : 0 < m} (hbits : unpack Format.binary64 bits = .finite sign m e h) :
    -1074 ≤ e ∧ e ≤ 971 := by
  have hlt : (@unpackExponent Format.binary64 bits).toNat < 2 ^ 11 := BitVec.isLt _
  rw [unpack] at hbits
  dsimp only at hbits
  split at hbits
  · split at hbits <;> cases hbits
  · next hfinite =>
    have hfinite : (@unpackExponent Format.binary64 bits).toNat ≠ 2047 :=
      fun heq => hfinite (BitVec.eq_of_toNat_eq heq)
    split at hbits
    · next hzero =>
      split at hbits
      · cases hbits
      · injection hbits with _ _ he
        rw [hzero] at he
        exact he ▸ ⟨le_rfl, by decide⟩
    · next hzero =>
      have hzero : (@unpackExponent Format.binary64 bits).toNat ≠ 0 :=
        fun heq => hzero (BitVec.eq_of_toNat_eq heq)
      injection hbits with _ _ he
      change ((@unpackExponent Format.binary64 bits).toNat : Int) - (1023 + 52) = e at he
      omega

/-- A significand that gives a whole number below `2 ^ 53` is the number, moved up. -/
theorem eq_of_whole {n m : Nat} {e : Int} (h0 : 0 < n) (hn : n < Nat.pow 2 53)
    (hm : Canonical m e) (hvalue : (m : ℚ) * 2 ^ e = n) :
    m = n * Nat.pow 2 (52 - n.log2) ∧ e = n.log2 - 52 := by
  obtain ⟨hle, -⟩ := normal_of_lt h0 hn
  rcases Int.le_total 0 e with he | he
  · obtain ⟨k, rfl⟩ := Int.eq_ofNat_of_zero_le he
    have hwhole : m * Nat.pow 2 k = n := by
      rw [zpow_natCast] at hvalue
      exact_mod_cast hvalue
    rcases hm with hm | ⟨-, he⟩
    · have hlog := log2_mul_two_pow (Nat.lt_of_lt_of_le (Nat.two_pow_pos 52) hm.1) k
      rw [hwhole, log2_of_normal hm] at hlog
      obtain rfl : k = 0 := by omega
      rw [Nat.pow_eq, Nat.pow_zero, Nat.mul_one] at hwhole
      rw [← hwhole, log2_of_normal hm]
      exact ⟨(Nat.mul_one m).symm, rfl⟩
    · omega
  · obtain ⟨k, hk⟩ := Int.eq_ofNat_of_zero_le (Int.neg_nonneg_of_nonpos he)
    obtain rfl : e = -k := by omega
    have hwhole : m = n * Nat.pow 2 k := by
      rw [zpow_neg, zpow_natCast, mul_inv_eq_iff_eq_mul₀ (by positivity)] at hvalue
      exact_mod_cast hvalue
    rcases hm with hm | ⟨hm, he⟩
    · have hlog := log2_mul_two_pow h0 k
      rw [← hwhole, log2_of_normal hm] at hlog
      obtain rfl : k = 52 - n.log2 := by omega
      exact ⟨hwhole, by omega⟩
    · -- so far down, a whole number has more than 52 bits
      have hlow : Nat.pow 2 52 ≤ n * Nat.pow 2 k :=
        Nat.le_trans (Nat.pow_le_pow_right (by decide) (by omega)) (Nat.le_mul_of_pos_left _ h0)
      omega

/-! ## Whole values -/

theorem value_toFloat {n : UInt64} (hn : n.toNat < Nat.pow 2 53) :
    value n.toFloat = some (n.toNat : ℚ) := by
  rcases Nat.eq_zero_or_pos n.toNat with h0 | h0
  · obtain rfl : n = 0 := UInt64.toNat_inj.1 h0
    rfl
  · obtain ⟨hpos, hunpack⟩ := unpack_toFloat h0 hn
    obtain ⟨hle, -⟩ := normal_of_lt h0 hn
    have hexponent : (n.toNat.log2 : Int) - 52 = -(52 - n.toNat.log2 : Nat) := by omega
    rw [value, hunpack, unpackedValue, hexponent, zpow_neg, zpow_natCast, Nat.cast_mul,
      Nat.pow_eq, Nat.cast_pow, Nat.cast_ofNat, mul_inv_cancel_right₀ (by positivity)]

theorem value_pos {m : Nat} (h : 0 < m) (e : Int) : (0 : ℚ) < m * 2 ^ e :=
  mul_pos (Nat.cast_pos.2 h) (zpow_pos (by decide) e)

/-- Only zeros have the value 0. -/
theorem unpack_of_value_zero {x : Float} (hx : value x = some 0) :
    ∃ sign, x.toModel.unpack = .zero sign := by
  rw [value] at hx
  cases hunpack : x.toModel.unpack with
  | infinity sign =>
    rw [hunpack] at hx
    cases hx
  | notANumber =>
    rw [hunpack] at hx
    cases hx
  | zero sign => exact ⟨sign, rfl⟩
  | finite sign m e h =>
    rw [hunpack] at hx
    cases sign with
    | positive => exact absurd (Option.some.inj hx) (value_pos h e).ne'
    | negative => exact absurd (neg_eq_zero.1 (Option.some.inj hx)) (value_pos h e).ne'

/-- A whole value above zero has one significand and one exponent. -/
theorem unpack_of_value {n : UInt64} {x : Float} (h0 : 0 < n.toNat) (hn : n.toNat < Nat.pow 2 53)
    (hx : value x = some (n.toNat : ℚ)) : x.toModel.unpack = n.toFloat.toModel.unpack := by
  obtain ⟨hpos, hword⟩ := unpack_toFloat h0 hn
  have hcast : (0 : ℚ) < n.toNat := Nat.cast_pos.2 h0
  rw [value] at hx
  cases hunpack : x.toModel.unpack with
  | infinity sign =>
    rw [hunpack] at hx
    cases hx
  | notANumber =>
    rw [hunpack] at hx
    cases hx
  | zero sign =>
    rw [hunpack] at hx
    exact absurd (Option.some.inj hx) hcast.ne
  | finite sign m e h =>
    rw [hunpack] at hx
    cases sign with
    | positive =>
      obtain ⟨hm, he⟩ := eq_of_whole h0 hn (canonical_unpack _ hunpack) (Option.some.inj hx)
      rw [hword]
      exact finite_congr rfl hm he
    | negative =>
      have hneg : -((m : ℚ) * 2 ^ e) = n.toNat := Option.some.inj hx
      exact absurd (hneg ▸ hcast) (neg_neg_of_pos (value_pos h e)).not_gt

/-- Numbers that compare as equal have one value. -/
theorem unpackedValue_congr {x y : UnpackedFloat} (h : x.compare y = some .eq) :
    unpackedValue x = unpackedValue y := by
  cases x with
  | notANumber => cases h
  | infinity s =>
    cases y with
    | infinity s' => rfl
    | notANumber => cases h
    | zero s' => cases s <;> cases h
    | finite s' m e hm => cases s <;> cases h
  | zero s =>
    cases y with
    | zero s' => rfl
    | notANumber => cases h
    | infinity s' => cases s' <;> cases h
    | finite s' m e hm => cases s' <;> cases h
  | finite s m e hm =>
    cases y with
    | notANumber => cases h
    | infinity s' => cases s <;> cases s' <;> cases h
    | zero s' => cases s <;> cases h
    | finite s' m' e' hm' =>
      cases s with
      | negative =>
        cases s' with
        | positive => cases h
        | negative =>
          have hkeys := Ordering.swap_eq_eq.1 (Option.some.inj h)
          obtain ⟨he, hmantissa⟩ := Ordering.then_eq_eq.1 hkeys
          rw [unpackedValue, unpackedValue, compare_eq_iff_eq.1 he, Nat.compare_eq_eq.1 hmantissa]
      | positive =>
        cases s' with
        | negative => cases h
        | positive =>
          obtain ⟨he, hmantissa⟩ := Ordering.then_eq_eq.1 (Option.some.inj h)
          rw [unpackedValue, unpackedValue, compare_eq_iff_eq.1 he, Nat.compare_eq_eq.1 hmantissa]

theorem value_congr {x y : Float} (h : (x == y) = true) : value x = value y := by
  change (x.toModel.unpack.compare y.toModel.unpack == some .eq) = true at h
  exact unpackedValue_congr (eq_of_beq h)

/-- The numbers that equal the number of a word are those with the word as their value. -/
theorem beq_toFloat_iff {n : UInt64} {x : Float} (hn : n.toNat < Nat.pow 2 53) :
    (n.toFloat == x) = true ↔ value x = some (n.toNat : ℚ) := by
  constructor
  · intro hbeq
    rw [← value_congr hbeq, value_toFloat hn]
  · intro hx
    rcases Nat.eq_zero_or_pos n.toNat with hzero | h0
    · obtain rfl : n = 0 := UInt64.toNat_inj.1 hzero
      obtain ⟨sign, hunpack⟩ := unpack_of_value_zero hx
      change (UnpackedFloat.compare (.zero .positive) x.toModel.unpack == some .eq) = true
      rw [hunpack]
      rfl
    · change UnpackedFloat.beq n.toFloat.toModel.unpack x.toModel.unpack = true
      rw [unpack_of_value h0 hn hx]
      exact toFloat_beq_self hn

/-- A number with a whole value gives the word back. -/
theorem toUInt64_of_value {n : UInt64} {x : Float} (hn : n.toNat < Nat.pow 2 53)
    (hx : value x = some (n.toNat : ℚ)) : x.toUInt64 = n := by
  rcases Nat.eq_zero_or_pos n.toNat with hzero | h0
  · obtain rfl : n = 0 := UInt64.toNat_inj.1 hzero
    obtain ⟨sign, hunpack⟩ := unpack_of_value_zero hx
    change UInt64.ofNatClamp (x.toModel.unpack.toInt 0 (UInt64.size - 1)).toNat = 0
    rw [hunpack]
    rfl
  · change UInt64.ofNatClamp (x.toModel.unpack.toInt 0 (UInt64.size - 1)).toNat = n
    rw [unpack_of_value h0 hn hx]
    exact toUInt64_toFloat hn

end Lockstep.Binary64
