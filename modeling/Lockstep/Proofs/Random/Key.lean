import Lockstep.Proofs.Outcome
import Lockstep.Random.Key

/-!
# Keys in states

A word below `2 ^ 53` is a number of its own: normalising its bits to a significand of 53 bits loses
none of them (`Binary64.unpack_toFloat`), so the number gives the word back
(`Binary64.toUInt64_toFloat`). The halves of a key are such words, and hence a key is read back from
the tensor that a state holds (`Random.Key.ofTensor_toTensor`).
-/

namespace Lockstep

namespace Binary64

open Float.Model (Format totalExponent UnpackedFloat)
open Float.Model.UnpackedFloat

/-! ## Significands of 53 bits -/

/-- The first of 53 bits is set. -/
def Normal (m : Nat) : Prop := Nat.pow 2 52 ≤ m ∧ m < Nat.pow 2 53

theorem log2_of_normal {m : Nat} (hm : Normal m) : m.log2 = 52 := by
  have hne : m ≠ 0 := by
    have hlow := hm.1
    simp only [Nat.pow_eq] at hlow
    omega
  exact (Nat.log2_eq_iff hne).2 hm

theorem mantissaBits_binary64 : Format.binary64.mantissaBits = 53 := rfl

theorem targetExponent_of_normal {m : Nat} {e : Int} (hm : Normal m) (he : -1074 ≤ e) :
    Format.binary64.targetExponent (totalExponent m e) = e := by
  simp only [Format.targetExponent, totalExponent, mantissaBits_binary64, Format.minExponent,
    log2_of_normal hm]
  omega

/-- There is nothing to shift. -/
theorem shiftToTargetExponent_of_normal {m : Nat} {e : Int} (hm : Normal m) (he : -1074 ≤ e) :
    shiftToTargetExponent Format.binary64 m e .exact = (⟨m, false, false⟩, e) := by
  have hshift : ∀ em : ExtendedMantissa, em >>> (0 : Nat) = em := fun _ => rfl
  rw [shiftToTargetExponent, targetExponent_of_normal hm he, shiftToExponent, Int.sub_self]
  simp [hshift, ExtendedMantissa.ofMantissaAndAccuracy]

/-- There is nothing to round. -/
theorem roundWithAccuracy_of_normal {m : Nat} {e : Int} (hm : Normal m) (he : -1074 ≤ e)
    (hpos : 0 < m) (sign : Sign) :
    roundWithAccuracy Format.binary64 sign m e .exact = .finite sign m e hpos := by
  have htarget := shiftToTargetExponent_of_normal hm he
  have hrounded : ExtendedMantissa.roundedMantissa ⟨m, false, false⟩ = m := rfl
  rw [roundWithAccuracy, htarget]
  dsimp only
  rw [hrounded, htarget]
  exact dif_neg (Nat.ne_of_gt hpos)

/-- A number below `2 ^ 53` fills the significand when it is moved up. -/
theorem normal_of_lt {n : Nat} (h0 : 0 < n) (hn : n < Nat.pow 2 53) :
    n.log2 ≤ 52 ∧ Normal (n * Nat.pow 2 (52 - n.log2)) := by
  have hne := Nat.pos_iff_ne_zero.1 h0
  have hle : n.log2 < 53 := (Nat.log2_lt hne).2 hn
  have hpow : ∀ a, Nat.pow 2 (n.log2 + a) * Nat.pow 2 (52 - n.log2) = Nat.pow 2 (52 + a) := by
    intro a
    rw [Nat.pow_eq, Nat.pow_eq, Nat.pow_eq, ← Nat.pow_add]
    congr 1
    omega
  refine ⟨by omega, ?_, ?_⟩
  · rw [← hpow 0]
    exact Nat.mul_le_mul_right _ (Nat.log2_self_le hne)
  · rw [← hpow 1]
    exact Nat.mul_lt_mul_of_pos_right Nat.lt_log2_self (Nat.pow_pos (by decide))

/-! ## Whole numbers -/

theorem ofNat_eq {n : Nat} (h0 : 0 < n) (hn : n < Nat.pow 2 53) :
    ∃ hpos, UnpackedFloat.ofNat Format.binary64 n =
      .finite .positive (n * Nat.pow 2 (52 - n.log2)) (n.log2 - 52) hpos := by
  obtain ⟨hle, hnormal⟩ := normal_of_lt h0 hn
  have hpos : 0 < n * Nat.pow 2 (52 - n.log2) := Nat.mul_pos h0 (Nat.pow_pos (by decide))
  refine ⟨hpos, ?_⟩
  have htarget : Format.binary64.targetExponent (totalExponent n 0) = n.log2 - 52 := by
    simp only [Format.targetExponent, totalExponent, mantissaBits_binary64, Format.minExponent]
    omega
  have hshift : (0 - ((n.log2 : Int) - 52)).toNat = 52 - n.log2 := by omega
  have hexponent : (0 : Int) - (52 - n.log2 : Nat) = n.log2 - 52 := by omega
  have hcompare : compare (n : Int) 0 = .gt := Int.compare_eq_gt.2 (by omega)
  have hround : UnpackedFloat.ofNat Format.binary64 n = roundWithAccuracy Format.binary64 .positive
      (n * Nat.pow 2 (52 - n.log2)) (n.log2 - 52) .exact := by
    simp only [UnpackedFloat.ofNat, UnpackedFloat.ofInt, UnpackedFloat.normalize, hcompare,
      Int.toNat_natCast, UnpackedFloat.round, htarget, decreaseExponent, hshift, hexponent]
    rw [Nat.shiftLeft_eq]
    rfl
  rw [hround]
  exact roundWithAccuracy_of_normal hnormal (by omega) hpos .positive

theorem finite_congr {sign sign' : Sign} {m m' : Nat} {e e' : Int} {h : 0 < m} {h' : 0 < m'}
    (hsign : sign = sign') (hm : m = m') (he : e = e') :
    UnpackedFloat.finite sign m e h = .finite sign' m' e' h' := by
  subst hsign hm he
  rfl

/-- The first bit of a number holds its sign. -/
theorem sign_packComponents (sign : Sign) (b : BitVec 11) (c : BitVec 52) :
    Sign.ofBitVec (unpackSign (packComponents Format.binary64 sign b c)) = sign := by
  change Sign.ofBitVec ((sign.toBitVec ++ b ++ c).extractLsb' 63 1) = sign
  rw [BitVec.extractLsb'_append_eq_of_le (by decide),
    BitVec.extractLsb'_append_eq_of_le (by decide)]
  cases sign with
  | negative => rfl
  | positive => rfl

/-- The bits of a number hold its significand and its exponent. -/
theorem unpack_pack_of_normal {sign : Sign} {m : Nat} {e : Int} (hm : Normal m) (he : -1074 ≤ e)
    (he' : e ≤ 971) (hpos : 0 < m) :
    UnpackedFloat.unpack Format.binary64
        (UnpackedFloat.pack Format.binary64 (.finite sign m e hpos)) = .finite sign m e hpos := by
  have hbiased : (e + Format.binary64.exponentBias +
      Format.binary64.mantissaBitsWithoutImplicit).toNat = (e + 1075).toNat := by
    change (e + 1023 + 52).toNat = _
    omega
  have hfits : ¬ 2 ^ Format.binary64.exponentBits ≤ (e + 1075).toNat + 1 := by
    change ¬ 2048 ≤ _
    omega
  have hexponent : (BitVec.ofNat 11 (e + 1075).toNat).toNat = (e + 1075).toNat := by
    rw [BitVec.toNat_ofNat]
    exact Nat.mod_eq_of_lt (by omega)
  -- the exponent is none of those that stand for zero, for infinity and for what is no number
  have hne : ∀ k : Nat, k < 2 ^ 11 → k ≠ (e + 1075).toNat →
      BitVec.ofNat 11 (e + 1075).toNat ≠ BitVec.ofNat 11 k := by
    intro k hk hne heq
    have hnat := congrArg BitVec.toNat heq
    rw [hexponent, BitVec.toNat_ofNat, Nat.mod_eq_of_lt hk] at hnat
    exact hne hnat.symm
  have hfinite : BitVec.ofNat 11 (e + 1075).toNat ≠ -1#11 := hne 2047 (by decide) (by omega)
  -- the first bit is not stored, and comes back
  have hmantissa : (1#1 ++ BitVec.ofNat 52 m).toNat = m := by
    obtain ⟨hlow, hhigh⟩ := hm
    simp only [Nat.pow_eq] at hlow hhigh
    simp only [BitVec.toNat_append, BitVec.toNat_ofNat, Nat.shiftLeft_eq]
    change 2 ^ 52 ||| m % 2 ^ 52 = m
    rw [Nat.or_comm, Nat.or_two_pow_eq_add_of_lt (Nat.mod_lt m (Nat.two_pow_pos 52))]
    omega
  have hback : ((e + 1075).toNat : Int) - (Format.binary64.exponentBias + (52 : Nat)) = e := by
    change _ - (1023 + 52) = e
    omega
  have hpack : UnpackedFloat.pack Format.binary64 (.finite sign m e hpos) =
      packComponents Format.binary64 sign (.ofNat 11 (e + 1075).toNat) (.ofNat 52 m) := by
    refine (if_neg ?_).trans ((if_pos ?_).trans ?_)
    · rw [hbiased]
      exact hfits
    · rw [log2_of_normal hm, mantissaBits_binary64]
    · rw [hbiased]
  rw [hpack]
  have hstored := @unpackExponent_packComponents Format.binary64 sign
    (.ofNat 11 (e + 1075).toNat) (.ofNat 52 m)
  refine (if_neg ?_).trans ((if_neg ?_).trans (finite_congr ?_ ?_ ?_))
  · rw [hstored]
    exact hfinite
  · rw [hstored]
    exact hne 0 (by decide) (by omega)
  · exact sign_packComponents ..
  · rw [unpackMantissa_packComponents]
    exact hmantissa
  · rw [hstored, hexponent]
    exact hback

theorem mantissa_shiftRight (m shift : Nat) :
    (ExtendedMantissa.ofMantissaAndAccuracy m .exact >>> shift).mantissa =
      m / Nat.pow 2 shift := by
  induction shift with
  | zero => exact (Nat.div_one m).symm
  | succ shift ih =>
    change (ExtendedMantissa.ofMantissaAndAccuracy m .exact >>> shift).mantissa / 2 = _
    rw [ih, Nat.div_div_eq_div_mul]
    rfl

theorem toInt_eq {n : Nat} {low high : Int} (h0 : 0 < n) (hn : n < Nat.pow 2 53)
    (hpos : 0 < n * Nat.pow 2 (52 - n.log2)) :
    toInt low high (.finite .positive (n * Nat.pow 2 (52 - n.log2)) (n.log2 - 52) hpos) = n := by
  obtain ⟨hle, -⟩ := normal_of_lt h0 hn
  have hleft : ((n.log2 : Int) - 52 - 0).toNat = 0 := by omega
  have hright : (0 - ((n.log2 : Int) - 52)).toNat = 52 - n.log2 := by omega
  -- the significand only moves down again, as far as it was moved up
  change Int.ofNat (ExtendedMantissa.ofMantissaAndAccuracy
    ((n * Nat.pow 2 (52 - n.log2)) <<< ((n.log2 : Int) - 52 - 0).toNat) .exact >>>
      (0 - ((n.log2 : Int) - 52 - ((n.log2 : Int) - 52 - 0).toNat)).toNat).mantissa = n
  rw [hleft, Nat.shiftLeft_zero, Int.ofNat_zero, Int.sub_zero, hright, mantissa_shiftRight]
  exact congrArg Int.ofNat (Nat.mul_div_cancel n (Nat.pow_pos (by decide)))

/-! ## Words as numbers -/

theorem unpack_toFloat {n : UInt64} (h0 : 0 < n.toNat) (hn : n.toNat < Nat.pow 2 53) :
    ∃ hpos, n.toFloat.toModel.unpack =
      .finite .positive (n.toNat * Nat.pow 2 (52 - n.toNat.log2)) (n.toNat.log2 - 52) hpos := by
  obtain ⟨hpos, hof⟩ := ofNat_eq h0 hn
  obtain ⟨hle, hnormal⟩ := normal_of_lt h0 hn
  refine ⟨hpos, ?_⟩
  change UnpackedFloat.unpack Format.binary64
    (UnpackedFloat.pack Format.binary64 (UnpackedFloat.ofNat Format.binary64 n.toNat)) = _
  rw [hof]
  exact unpack_pack_of_normal hnormal (by omega) (by omega) hpos

/-- A word below `2 ^ 53` comes back from its number. -/
theorem toUInt64_toFloat {n : UInt64} (hn : n.toNat < Nat.pow 2 53) : n.toFloat.toUInt64 = n := by
  rcases Nat.eq_zero_or_pos n.toNat with h0 | h0
  · obtain rfl : n = 0 := UInt64.toNat_inj.1 h0
    rfl
  · obtain ⟨hpos, hunpack⟩ := unpack_toFloat h0 hn
    change UInt64.ofNatClamp (n.toFloat.toModel.unpack.toInt 0 (UInt64.size - 1)).toNat = n
    rw [hunpack, toInt_eq h0 hn hpos, Int.toNat_natCast, UInt64.ofNatClamp, dif_pos n.toNat_lt]
    exact UInt64.ofNatLT_toNat n

/-- The number of a word is a number, so it equals itself. -/
theorem toFloat_beq_self {n : UInt64} (hn : n.toNat < Nat.pow 2 53) :
    (n.toFloat == n.toFloat) = true := by
  rcases Nat.eq_zero_or_pos n.toNat with h0 | h0
  · obtain rfl : n = 0 := UInt64.toNat_inj.1 h0
    rfl
  · obtain ⟨hpos, hunpack⟩ := unpack_toFloat h0 hn
    change UnpackedFloat.beq n.toFloat.toModel.unpack n.toFloat.toModel.unpack = true
    rw [hunpack]
    have hcompare : ∀ m e (h : 0 < m), UnpackedFloat.compare (.finite .positive m e h)
        (.finite .positive m e h) = some .eq := by
      intro m e h
      change some ((compare e e).then (compare m m)) = some .eq
      rw [Int.compare_eq_eq.2 rfl, Nat.compare_eq_eq.2 rfl]
      rfl
    exact congrArg (· == some Ordering.eq) (hcompare ..)

end Binary64

/-! ## Keys -/

namespace Random.Key

theorem half_toFloat {n : UInt64} (hn : n.toNat < Nat.pow 2 32) : half n.toFloat = .ok n := by
  have hlt : n.toNat < Nat.pow 2 53 := Nat.lt_trans hn (by decide)
  have hword : n < 0x100000000 := UInt64.lt_iff_toNat_lt.2 hn
  rw [half, Binary64.toUInt64_toFloat hlt, Binary64.toFloat_beq_self hlt]
  simp [hword]

theorem toNat_high_lt (word : UInt64) : (word >>> 32).toNat < Nat.pow 2 32 := by
  have hlt := word.toNat_lt
  rw [UInt64.toNat_shiftRight]
  simp
  omega

theorem toNat_low_lt (word : UInt64) : (word &&& 0xFFFFFFFF).toNat < Nat.pow 2 32 := by
  rw [UInt64.toNat_and]
  exact Nat.and_lt_two_pow _ (by decide)

theorem toNat_join {high low : UInt64} (hhigh : high.toNat < Nat.pow 2 32)
    (hlow : low.toNat < Nat.pow 2 32) :
    (high <<< 32 ||| low).toNat = high.toNat * Nat.pow 2 32 + low.toNat := by
  have hshift : (high <<< 32).toNat = high.toNat <<< 32 := by
    rw [UInt64.toNat_shiftLeft]
    refine Nat.mod_eq_of_lt ?_
    change high.toNat <<< 32 < _
    rw [Nat.shiftLeft_eq]
    simp only [Nat.pow_eq] at hhigh
    omega
  rw [UInt64.toNat_or, hshift, ← Nat.shiftLeft_add_eq_or_of_lt hlow, Nat.shiftLeft_eq, Nat.pow_eq]

/-- A word is made of its halves. -/
theorem high_or_low (word : UInt64) : (word >>> 32) <<< 32 ||| word &&& 0xFFFFFFFF = word := by
  refine UInt64.toNat_inj.1 ?_
  have hmask : (0xFFFFFFFF : UInt64).toNat = 2 ^ 32 - 1 := rfl
  rw [toNat_join (toNat_high_lt word) (toNat_low_lt word), UInt64.toNat_and, hmask,
    Nat.and_two_pow_sub_one_eq_mod, UInt64.toNat_shiftRight]
  change (word.toNat >>> 32) * _ + _ = _
  rw [Nat.shiftRight_eq_div_pow, Nat.pow_eq]
  exact Nat.div_add_mod' word.toNat (2 ^ 32)

/-- A key is read back from its tensor. -/
theorem ofTensor_toTensor (k : Key) : ofTensor k.toTensor = .ok k := by
  obtain ⟨word⟩ := k
  change (do
    let high ← half (word >>> 32).toFloat
    let low ← half (word &&& 0xFFFFFFFF).toFloat
    return (⟨high <<< 32 ||| low⟩ : Key)) = .ok ⟨word⟩
  rw [half_toFloat (toNat_high_lt word), half_toFloat (toNat_low_lt word)]
  exact congrArg (fun word => Except.ok (Key.mk word)) (high_or_low word)

end Random.Key

end Lockstep
