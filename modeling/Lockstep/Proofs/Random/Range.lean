import Lockstep.Proofs.Binary64.Rounding
import Lockstep.Random.Range

/-!
# When draws succeed, and where they fall

A draw of a number between two bounds succeeds exactly when the bounds are in order and the range
has a finite scale, a draw of an integer when the bounds are in order, and a draw of an item when
there is one. What is drawn is within the bounds or in the list.

A number is drawn as a fraction of the scale, added to the lower bound. The scale was counted down
until the greatest fraction does not lead beyond the upper bound (`Random.IsScale`), and smaller
fractions lead no further, as rounding keeps the order (`Random.IsScale.mem`).
-/

namespace Lockstep

namespace Binary64

open Float.Model (Format UnpackedFloat)
open Float.Model.UnpackedFloat

/-! ## Bits of numbers -/

/-- A word that stores a number is read as that number. -/
theorem unpack_ofBits {word : UInt64} {u : UnpackedFloat} (hu : Storable u)
    (hword : word.toBitVec = UnpackedFloat.pack Format.binary64 u) :
    (Float.ofBits word).toModel.unpack = u := by
  change stored (UnpackedFloat.unpack Format.binary64 word.toBitVec) = u
  rw [hword]
  change stored (stored u) = u
  rw [stored_of_storable hu, stored_of_storable hu]

/-- The word of a number has the sign first, then the exponent and then the significand. -/
theorem toNat_packComponents (s : Sign) (b : BitVec 11) (c : BitVec 52) :
    (packComponents Format.binary64 s b c).toNat =
      (s.toBitVec.toNat * 2 ^ 11 + b.toNat) * 2 ^ 52 + c.toNat := by
  change ((s.toBitVec ++ b) ++ c).toNat = _
  rw [BitVec.toNat_append, BitVec.toNat_append, ← Nat.shiftLeft_add_eq_or_of_lt c.isLt,
    ← Nat.shiftLeft_add_eq_or_of_lt b.isLt, Nat.shiftLeft_eq, Nat.shiftLeft_eq]

/-- The bits of a number without the negative sign count up, and end before those of infinity. -/
theorem toNat_pack_lt {u : UnpackedFloat} (hu : Storable u) (hsign : HasSign .positive u) :
    (UnpackedFloat.pack Format.binary64 u).toNat < 2047 * 2 ^ 52 := by
  cases u with
  | notANumber => cases hu
  | infinity s => cases hu
  | zero s =>
    obtain rfl : s = .positive := hsign
    decide
  | finite s m e hm =>
    obtain rfl : s = .positive := hsign
    obtain ⟨-, he, he'⟩ := hu
    have hc : (BitVec.ofNat 52 m).toNat < 2 ^ 52 := BitVec.isLt _
    -- a significand is stored as infinity, with its first bit left out, or as it is
    rw [UnpackedFloat.pack]
    dsimp only
    split
    · next hgreat =>
      change 2048 ≤ (e + 1023 + 52).toNat + 1 at hgreat
      omega
    · split
      · have hb : (BitVec.ofNat 11 (e + 1023 + 52).toNat).toNat ≤ 2046 := by
          rw [BitVec.toNat_ofNat]
          exact (Nat.mod_le _ _).trans (by omega)
        refine (toNat_packComponents ..).trans_lt ?_
        change (0 * 2 ^ 11 + (BitVec.ofNat 11 (e + 1023 + 52).toNat).toNat) * 2 ^ 52 +
          (BitVec.ofNat 52 m).toNat < _
        omega
      · refine (toNat_packComponents ..).trans_lt ?_
        change (0 * 2 ^ 11 + 0) * 2 ^ 52 + (BitVec.ofNat 52 m).toNat < _
        omega

/-- Bits before those of infinity are those of a finite number without the negative sign. -/
theorem unpack_of_lt {bits : BitVec 64} (h : bits.toNat < 2047 * 2 ^ 52) :
    HasSign .positive (UnpackedFloat.unpack Format.binary64 bits) ∧
      (UnpackedFloat.unpack Format.binary64 bits).isFinite = true := by
  have hsplit := toNat_packComponents (Sign.ofBitVec (@unpackSign Format.binary64 bits))
    (@unpackExponent Format.binary64 bits) (@unpackMantissa Format.binary64 bits)
  rw [packComponents_unpackSign_unpackExponent_unpackMantissa] at hsplit
  -- the first bit of the word is the sign, the next ones are the exponent
  have hsign : Sign.ofBitVec (@unpackSign Format.binary64 bits) = .positive := by
    cases hs : Sign.ofBitVec (@unpackSign Format.binary64 bits) with
    | positive => rfl
    | negative =>
      rw [hs] at hsplit
      change bits.toNat = (1 * 2 ^ 11 + _) * 2 ^ 52 + _ at hsplit
      omega
  have hfinite : @unpackExponent Format.binary64 bits ≠ -1#11 := by
    intro heq
    rw [heq, hsign] at hsplit
    change bits.toNat = (0 * 2 ^ 11 + 2047) * 2 ^ 52 + _ at hsplit
    omega
  rw [UnpackedFloat.unpack]
  dsimp only
  rw [if_neg hfinite]
  split
  · split
    · exact ⟨hsign, rfl⟩
    · exact ⟨hsign, rfl⟩
  · exact ⟨hsign, rfl⟩

/-- A number without a negative sign is not below zero. -/
theorem extent_nonneg {u : UnpackedFloat} (h : HasSign .positive u) : 0 ≤ unpackedExtent u := by
  cases u with
  | notANumber => cases h
  | infinity s =>
    obtain rfl : s = .positive := h
    exact beyond_pos.le
  | zero s => exact le_rfl
  | finite s m e hm =>
    obtain rfl : s = .positive := h
    exact (value_pos hm e).le

/-- Bits that count down from a finite number without the negative sign stay with such ones. -/
theorem extent_ofBits {n : Nat} (h : n < 2047 * 2 ^ 52) :
    (Float.ofBits (.ofNat n)).isFinite = true ∧
      0 ≤ extent (Float.ofBits (.ofNat n)) := by
  have hword : (UInt64.ofNat n).toBitVec.toNat < 2047 * 2 ^ 52 := (Nat.mod_le n _).trans_lt h
  obtain ⟨hsign, hfinite⟩ := unpack_of_lt hword
  have hunpack : (Float.ofBits (.ofNat n)).toModel.unpack =
      UnpackedFloat.unpack Format.binary64 (UInt64.ofNat n).toBitVec :=
    stored_of_storable (storable_unpack hfinite)
  refine ⟨?_, ?_⟩
  · change (Float.ofBits (.ofNat n)).toModel.unpack.isFinite = true
    rw [hunpack]
    exact hfinite
  · rw [extent, hunpack]
    exact extent_nonneg hsign

/-- The bits of a number come from what they are read as. -/
theorem toBits_eq_pack (x : Float) :
    x.toBits.toBitVec = UnpackedFloat.pack Format.binary64 x.toModel.unpack :=
  (pack_unpack_of_valid x.toModel.valid).symm

end Binary64

namespace Random

open Binary64
open Float.Model (Format UnpackedFloat)
open Float.Model.UnpackedFloat

variable {low high x : Float}

/-! ## Fractions -/

/-- The double between 1 and 2 whose significand has the first 52 bits of a word. -/
theorem unpack_fraction (word : UInt64) :
    (Float.ofBits ((word >>> 12) ||| 0x3FF0000000000000)).toModel.unpack =
      .finite .positive (2 ^ 52 + word.toNat / 2 ^ 12) (-52) (Nat.add_pos_left (by decide) _) := by
  have hlt : word.toNat / 2 ^ 12 < 2 ^ 52 := Nat.div_lt_of_lt_mul word.toNat_lt
  have hnormal : Normal (2 ^ 52 + word.toNat / 2 ^ 12) := by
    refine ⟨Nat.le_add_right _ _, ?_⟩
    change _ < 2 ^ 53
    omega
  refine unpack_ofBits (show Storable (.finite _ _ _ _) from ⟨.inl hnormal, by decide, by decide⟩)
    ?_
  have hpack : UnpackedFloat.pack Format.binary64 (.finite .positive
      (2 ^ 52 + word.toNat / 2 ^ 12) (-52) (Nat.add_pos_left (by decide) _)) =
      packComponents Format.binary64 .positive (1023#11)
        (.ofNat 52 (2 ^ 52 + word.toNat / 2 ^ 12)) := by
    rw [pack]
    dsimp only
    rw [if_neg (by decide), if_pos (by rw [log2_of_normal hnormal, mantissaBits_binary64])]
    rfl
  -- the first bit of the significand is not stored
  have hmantissa : (BitVec.ofNat 52 (2 ^ 52 + word.toNat / 2 ^ 12)).toNat =
    word.toNat / 2 ^ 12 := by
    rw [BitVec.toNat_ofNat, Nat.add_mod_left, Nat.mod_eq_of_lt hlt]
  refine BitVec.eq_of_toNat_eq ?_
  rw [hpack, toNat_packComponents]
  refine Eq.trans ?_ (congrArg _ hmantissa.symm)
  change word.toNat >>> 12 ||| 0x3FF0000000000000 = (0 * 2 ^ 11 + 1023) * 2 ^ 52 + _
  rw [Nat.shiftRight_eq_div_pow, Nat.or_comm, ← Nat.shiftLeft_eq,
    Nat.shiftLeft_add_eq_or_of_lt hlt]
  rfl

/-- What is left when 1 is taken away is rounded, as every difference. -/
theorem rounds_fraction (word : UInt64) : Rounds ((word.toNat / 2 ^ 12 : Nat) * 2 ^ (-52 : Int))
    (extent (Float.ofBits ((word >>> 12) ||| 0x3FF0000000000000) - 1)) := by
  have hunpack := unpack_fraction word
  have hfinite : (Float.ofBits ((word >>> 12) ||| 0x3FF0000000000000)).isFinite = true :=
    congrArg UnpackedFloat.isFinite hunpack
  have hone : (1 : Float).toModel.unpack = .finite .positive (2 ^ 52) (-52) (by decide) := rfl
  have h := rounds_sub hfinite (show (1 : Float).isFinite = true from rfl)
  rw [extent, extent, hunpack, hone, unpackedExtent, unpackedExtent, signed, signed, ← sub_mul,
    Nat.cast_add, add_sub_cancel_left] at h
  exact h

theorem greatestFraction_eq : greatestFraction =
    Float.ofBits (((0xFFFFFFFFFFFFFFFF : UInt64) >>> 12) ||| 0x3FF0000000000000) - 1 := rfl

/-- The greatest fraction that is drawn is `1 - 2 ^ (-52)`. -/
theorem unpack_greatestFraction : greatestFraction.toModel.unpack =
    .finite .positive (2 ^ 53 - 2) (-53) (by decide) := rfl

theorem isFinite_greatestFraction : greatestFraction.isFinite = true := rfl

theorem extent_greatestFraction_le : extent greatestFraction ≤ 1 := by
  rw [extent, unpack_greatestFraction, unpackedExtent, signed]
  norm_num

/-- A number from zero up to the greatest fraction. -/
structure IsFraction (u : Float) : Prop where
  finite : u.isFinite = true
  nonneg : 0 ≤ extent u
  le : extent u ≤ extent greatestFraction

/-- Every draw gives a fraction. -/
theorem isFraction (word : UInt64) :
    IsFraction (Float.ofBits ((word >>> 12) ||| 0x3FF0000000000000) - 1) := by
  have h := rounds_fraction word
  have hnonneg := rounds_zero.mono h (by positivity)
  have hle := h.mono (greatestFraction_eq ▸ rounds_fraction 0xFFFFFFFFFFFFFFFF)
    (mul_zpow_le_mul_zpow (Nat.div_le_div_right (Nat.le_of_lt_succ word.toNat_lt)) _)
  have hnan : (Float.ofBits ((word >>> 12) ||| 0x3FF0000000000000) - 1).isNaN = false :=
    isNaN_stored
      (isNaN_sub_of_isFinite (congrArg UnpackedFloat.isFinite (unpack_fraction word)) rfl)
  exact ⟨isFinite_of_extent hnan ((neg_neg_of_pos beyond_pos).trans_le hnonneg)
    (hle.trans_lt (extent_lt_beyond isFinite_greatestFraction)), hnonneg, hle⟩

/-! ## Scales -/

/-- A scale with which no fraction leads beyond the upper bound. -/
structure IsScale (low high s : Float) : Prop where
  finite : s.isFinite = true
  nonneg : 0 ≤ extent s
  fits : ¬ high < s * greatestFraction + low

/-- Zero is rounded to zero. -/
theorem Rounds.eq_zero {w : ℚ} (h : Rounds 0 w) : w = 0 :=
  le_antisymm (h.mono rounds_zero le_rfl) (rounds_zero.mono h le_rfl)

/-- The scale zero always fits. -/
theorem isScale_of_extent_zero {s : Float} (hlow : low.isFinite = true)
    (hhigh : high.isFinite = true) (hle : low ≤ high) (hs : s.isFinite = true)
    (hzero : extent s = 0) : IsScale low high s := by
  have hproduct : extent (s * greatestFraction) = 0 := by
    have h := rounds_mul hs isFinite_greatestFraction
    rw [hzero, zero_mul] at h
    exact Rounds.eq_zero h
  have hfinite : (s * greatestFraction).isFinite = true :=
    isFinite_of_extent (isNaN_mul hs isFinite_greatestFraction)
      (hproduct ▸ neg_neg_of_pos beyond_pos) (hproduct ▸ beyond_pos)
  have hsum := rounds_add hfinite hlow
  rw [hproduct, zero_add] at hsum
  have hnan := isNaN_add hfinite hlow
  have hnan' := isNaN_of_isFinite hhigh
  refine ⟨hs, hzero.ge, (le_iff hnan hnan').1 (le_of_extent_le hnan hnan' ?_)⟩
  exact (hsum.mono (rounds_self hlow) le_rfl).trans (extent_le_of_le hlow hhigh hle)

/-- Counting down the bits ends at a scale that fits. -/
theorem isScale_fitScale (hlow : low.isFinite = true) (hhigh : high.isFinite = true)
    (hle : low ≤ high) {bits : Nat} (hbits : bits < 2047 * 2 ^ 52) :
    IsScale low high (fitScale low high bits) := by
  induction bits with
  | zero =>
    rw [fitScale]
    exact isScale_of_extent_zero hlow hhigh hle rfl rfl
  | succ bits ih =>
    rw [fitScale]
    split
    · exact ih (Nat.lt_of_succ_lt hbits)
    · next hfits =>
      obtain ⟨hfinite, hnonneg⟩ := extent_ofBits hbits
      exact ⟨hfinite, hnonneg, hfits⟩

/-! ### The scale that the search starts from -/

theorem stored_notANumber : stored .notANumber = .notANumber := rfl

/-- What is stored as finite is finite. -/
theorem isFinite_of_stored {u : UnpackedFloat} (h : (stored u).isFinite = true) :
    u.isFinite = true := by
  cases u with
  | notANumber => exact absurd h (by decide)
  | infinity s =>
    rw [stored_infinity] at h
    exact h
  | _ => rfl

/-- A difference that is finite has finite members. -/
theorem isFinite_of_sub {u v : UnpackedFloat}
    (h : (UnpackedFloat.sub Format.binary64 u v).isFinite = true) :
    u.isFinite = true ∧ v.isFinite = true := by
  cases u with
  | notANumber => exact absurd h Bool.false_ne_true
  | infinity s =>
    cases v with
    | infinity s' => cases s <;> cases s' <;> exact absurd h Bool.false_ne_true
    | _ => exact absurd h Bool.false_ne_true
  | _ =>
    cases v with
    | notANumber => exact absurd h Bool.false_ne_true
    | infinity s' => exact absurd h Bool.false_ne_true
    | _ => exact ⟨rfl, rfl⟩

variable {m : Nat} {e : Int} {hm : 0 < m}

/-- A quotient that is finite has a finite numerator. -/
theorem isFinite_of_div {u : UnpackedFloat}
    (h : (UnpackedFloat.div Format.binary64 u (.finite .positive m e hm)).isFinite = true) :
    u.isFinite = true := by
  cases u with
  | notANumber => exact absurd h Bool.false_ne_true
  | infinity s => exact absurd h Bool.false_ne_true
  | _ => rfl

/-- A quotient has the sign of the number that was divided. -/
theorem extent_div_nonneg {u : UnpackedFloat} (h : 0 ≤ unpackedExtent u) :
    0 ≤ unpackedExtent (stored (.div Format.binary64 u (.finite .positive m e hm))) := by
  cases u with
  | notANumber =>
    change 0 ≤ unpackedExtent (stored .notANumber)
    rw [stored_notANumber]
    exact le_rfl
  | infinity s =>
    cases s with
    | positive =>
      change 0 ≤ unpackedExtent (stored (.infinity .positive))
      rw [stored_infinity]
      exact beyond_pos.le
    | negative => exact absurd h (neg_neg_of_pos beyond_pos).not_ge
  | zero s =>
    change 0 ≤ unpackedExtent (stored (.zero (s / .positive)))
    rw [stored_of_storable (show Storable (.zero _) from trivial)]
    exact le_rfl
  | finite s m' e' hm' =>
    cases s with
    | positive => exact extent_nonneg (HasSign.stored (hasSign_roundWithAccuracy ..))
    | negative => exact absurd h (neg_neg_of_pos (value_pos hm' e')).not_ge

/-- A finite number that is not negative has few bits, or is the zero with the negative sign. -/
theorem toBits_of_nonneg {s : Float} (hs : s.isFinite = true) (h : 0 ≤ extent s) :
    s.toBits.toNat < 2047 * 2 ^ 52 ∨ s.toBits.toNat = 2 ^ 63 := by
  have hbits := congrArg BitVec.toNat (toBits_eq_pack s)
  change s.toBits.toNat = _ at hbits
  have hstorable := storable hs
  rw [hbits]
  cases hunpack : s.toModel.unpack with
  | notANumber =>
    rw [hunpack] at hstorable
    cases hstorable
  | infinity s' =>
    rw [hunpack] at hstorable
    cases hstorable
  | zero s' =>
    cases s' with
    | positive => exact .inl (by decide)
    | negative => exact .inr (by decide)
  | finite s' m' e' hm' =>
    rw [extent, hunpack] at h
    rw [hunpack] at hstorable
    cases s' with
    | positive => exact .inl (toNat_pack_lt hstorable rfl)
    | negative => exact absurd h (neg_neg_of_pos (value_pos hm' e')).not_ge

/-- The scale of a range with a finite length. -/
theorem isScale_of_isFinite (hle : low ≤ high)
    (hfinite : ((high - low) / greatestFraction).isFinite = true) :
    low.isFinite = true ∧ high.isFinite = true ∧
      IsScale low high (fitScale low high ((high - low) / greatestFraction).toBits.toNat) := by
  have hlength : (high - low).isFinite = true :=
    isFinite_of_div (unpack_greatestFraction ▸ isFinite_of_stored hfinite)
  obtain ⟨hhigh, hlow⟩ := isFinite_of_sub (isFinite_of_stored hlength)
  refine ⟨hlow, hhigh, ?_⟩
  have hnonneg : 0 ≤ extent (high - low) :=
    rounds_zero.mono (rounds_sub hhigh hlow) (sub_nonneg.2 (extent_le_of_le hlow hhigh hle))
  rcases toBits_of_nonneg hfinite (extent_div_nonneg hnonneg) with hbits | hbits
  · exact isScale_fitScale hlow hhigh hle hbits
  · -- the negative zero fits at once
    have hzero : IsScale low high (Float.ofBits (.ofNat (2 ^ 63 - 1 + 1))) :=
      isScale_of_extent_zero hlow hhigh hle rfl rfl
    rw [hbits, show 2 ^ 63 = 2 ^ 63 - 1 + 1 by decide, fitScale, if_neg hzero.fits]
    exact hzero

/-- A fraction of the scale stays within the bounds. -/
theorem IsScale.mem {s u : Float} (h : IsScale low high s) (hu : IsFraction u)
    (hlow : low.isFinite = true) (hhigh : high.isFinite = true) :
    low ≤ u * s + low ∧ u * s + low ≤ high := by
  -- `0 ≤ u * s ≤ s * greatestFraction ≤ s`, as they are stored
  have hproduct := rounds_mul hu.finite h.finite
  have hgreatest := rounds_mul h.finite isFinite_greatestFraction
  have h0 := rounds_zero.mono hproduct (mul_nonneg hu.nonneg h.nonneg)
  have h1 := hproduct.mono hgreatest
    ((mul_comm _ _).trans_le (mul_le_mul_of_nonneg_left hu.le h.nonneg))
  have h2 := (hgreatest.mono (rounds_self h.finite) (mul_le_of_le_one_right h.nonneg
    extent_greatestFraction_le)).trans_lt (extent_lt_beyond h.finite)
  have hfinite : (u * s).isFinite = true := isFinite_of_extent (isNaN_mul hu.finite h.finite)
    ((neg_neg_of_pos beyond_pos).trans_le h0) (h1.trans_lt h2)
  have hfinite' : (s * greatestFraction).isFinite = true :=
    isFinite_of_extent (isNaN_mul h.finite isFinite_greatestFraction)
      ((neg_neg_of_pos beyond_pos).trans_le (h0.trans h1)) h2
  have hsum := rounds_add hfinite hlow
  have hnan := isNaN_add hfinite hlow
  have hnan' := isNaN_add hfinite' hlow
  have hnanHigh := isNaN_of_isFinite hhigh
  refine ⟨?_, ?_⟩
  · refine le_of_extent_le (isNaN_of_isFinite hlow) hnan ?_
    exact (rounds_self hlow).mono hsum (le_add_of_nonneg_left h0)
  · -- the greatest fraction does not lead beyond the upper bound
    have hgreater : u * s + low ≤ s * greatestFraction + low :=
      le_of_extent_le hnan hnan' (hsum.mono (rounds_add hfinite' hlow) (add_le_add_left h1 _))
    rw [le_iff hnan hnanHigh]
    intro hlt
    exact h.fits (lt_of_lt_of_not_lt hnanHigh hnan hnan' hlt ((le_iff hnan hnan').1 hgreater))

namespace Generator

/-- A draw of a number needs bounds in order and a finite scale. -/
theorem exists_between_iff {g : Generator} : (∃ r, g.between low high = .ok r) ↔
    low ≤ high ∧ ((high - low) / greatestFraction).isFinite = true := by
  rw [between]
  by_cases hle : low ≤ high
  · rw [if_pos hle]
    by_cases hfinite : ((high - low) / greatestFraction).isFinite = true
    · simp only [if_pos hfinite]
      exact ⟨fun _ => ⟨hle, hfinite⟩, fun _ => ⟨_, rfl⟩⟩
    · simp only [if_neg hfinite]
      exact ⟨(fun ⟨_, h⟩ => nomatch h), fun h => absurd h.2 hfinite⟩
  · rw [if_neg hle]
    exact ⟨(fun ⟨_, h⟩ => nomatch h), fun h => absurd h.1 hle⟩

/-- A draw between two numbers lies between them. -/
theorem mem_of_between {g g' : Generator} (h : g.between low high = .ok (x, g')) :
    low ≤ x ∧ x ≤ high := by
  rw [between] at h
  split at h
  · next hle =>
    dsimp only at h
    split at h
    · next hfinite =>
      obtain ⟨rfl, -⟩ := Prod.mk.inj (Except.ok.inj h)
      obtain ⟨hlow, hhigh, hscale⟩ := isScale_of_isFinite hle hfinite
      exact hscale.mem (isFraction g.next.1) hlow hhigh
    · cases h
  · cases h

/-- Integers are drawn between any bounds in order. -/
theorem exists_betweenIntegers_iff {low high : Int64} {g : Generator} :
    (∃ r, g.betweenIntegers low high = .ok r) ↔ low ≤ high := by
  rw [betweenIntegers]
  by_cases hle : low ≤ high
  · rw [if_pos hle]
    refine ⟨fun _ => hle, fun _ => ?_⟩
    dsimp only
    split
    · exact ⟨_, rfl⟩
    · exact ⟨_, rfl⟩
  · rw [if_neg hle]
    exact ⟨(fun ⟨_, h⟩ => nomatch h), fun h => absurd h hle⟩

/-- A draw between two integers lies between them. -/
theorem mem_of_betweenIntegers {low high n : Int64} {g g' : Generator}
    (h : g.betweenIntegers low high = .ok (n, g')) : low ≤ n ∧ n ≤ high := by
  have hlow := low.le_toInt
  have hhigh := high.toInt_lt
  have hn := n.le_toInt
  have hn' := n.toInt_lt
  rw [betweenIntegers] at h
  split at h
  · next hle =>
    rw [Int64.le_iff_toInt_le] at hle
    dsimp only at h
    split at h
    · next hcount =>
      -- all integers are between the bounds
      rw [Int64.le_iff_toInt_le, Int64.le_iff_toInt_le]
      have hsize : UInt64.size = 18446744073709551616 := rfl
      omega
    · have hlt := (g.upTo (high.toInt - low.toInt).toNat).1.isLt
      obtain ⟨rfl, -⟩ := Prod.mk.inj (Except.ok.inj h)
      rw [Int64.le_iff_toInt_le, Int64.le_iff_toInt_le, Int64.toInt_ofInt_of_le]
      · omega
      · omega
      · omega
  · cases h

/-- An item is drawn from any list that has one. -/
theorem exists_item_iff {α : Type} {xs : List α} {g : Generator} :
    (∃ r, g.item xs = .ok r) ↔ xs ≠ [] := by
  cases xs with
  | nil => exact ⟨(fun ⟨_, h⟩ => nomatch h), fun h => absurd rfl h⟩
  | cons x rest => exact ⟨fun _ => List.cons_ne_nil x rest, fun _ => ⟨_, rfl⟩⟩

/-- A draw from a list is one of its members. -/
theorem mem_of_item {α : Type} {xs : List α} {v : α} {g g' : Generator}
    (h : g.item xs = .ok (v, g')) : v ∈ xs := by
  cases xs with
  | nil => cases h
  | cons x rest =>
    obtain ⟨rfl, -⟩ := Prod.mk.inj (Except.ok.inj h)
    exact List.getElem_mem _

end Generator

end Random

end Lockstep
