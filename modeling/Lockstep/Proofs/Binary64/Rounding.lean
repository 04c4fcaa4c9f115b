import Lockstep.Proofs.Binary64.Order
import Lockstep.Proofs.Binary64.Sign
import Lockstep.Proofs.Binary64.Value

/-!
# Rounding keeps the order

The bits that are lost when a significand moves down leave two marks, and with them the significand
still says which whole number is the nearest one (`Binary64.Stands.nearest`). So a result that is
stored is the nearest number on a grid (`Binary64.Rounded`), and the grid gets coarser only as the
results grow: larger results are stored as larger numbers (`Binary64.Rounds.mono`). Sums,
differences and products of finite numbers are rounded in this way (`Binary64.rounds_add`,
`Binary64.rounds_sub`, `Binary64.rounds_mul`), and numbers compare like what they stand for
(`Binary64.le_of_extent_le`).
-/

namespace Lockstep.Binary64

open Float.Model (Format totalExponent UnpackedFloat)
open Float.Model.UnpackedFloat

/-! ## Nearest whole numbers -/

/-- A whole number that no other one is nearer to. Of two that are equally near, it is the even
one. -/
structure Nearest (k : Nat) (q : ℚ) : Prop where
  above : 2 * q ≤ 2 * k + 1
  below : 2 * k ≤ 2 * q + 1
  even : 2 * q = 2 * k + 1 ∨ 2 * k = 2 * q + 1 → Even k

namespace Nearest

variable {k k' : Nat} {q q' : ℚ}

/-- A whole number that is less than one half away. -/
theorem of_lt (habove : 2 * q < 2 * k + 1) (hbelow : 2 * k < 2 * q + 1) : Nearest k q :=
  ⟨habove.le, hbelow.le, fun h => absurd h (not_or_intro habove.ne hbelow.ne)⟩

/-- A whole number is its own nearest one. -/
theorem self (k : Nat) : Nearest k k := of_lt (lt_add_one _) (lt_add_one _)

/-- The nearest whole numbers of two quantities are in the order of the quantities. -/
theorem mono (h : Nearest k q) (h' : Nearest k' q') (hle : q ≤ q') : k ≤ k' := by
  by_contra hlt
  have hnext : (k' : ℚ) + 1 ≤ k := by exact_mod_cast Nat.lt_of_not_le hlt
  have habove := h'.above
  have hbelow := h.below
  -- both numbers are half way between `k'` and `k`, and only one of these is even
  have hk : k = k' + 1 := by
    refine Nat.le_antisymm ?_ (Nat.lt_of_not_le hlt)
    have : (k : ℚ) ≤ k' + 1 := by linarith
    exact_mod_cast this
  have heven := h.even (.inr (by linarith))
  have heven' := h'.even (.inl (by linarith))
  rw [hk, Nat.even_add_one] at heven
  exact heven heven'

end Nearest

/-! ## Bits that are lost -/

/-- What a significand with its two marks stands for: the first mark says whether at least one half
is left, and the second one whether that is not all of what is left. -/
def Stands (em : ExtendedMantissa) (q : ℚ) : Prop :=
  match em.roundBit, em.stickyBit with
  | false, false => q = em.mantissa
  | false, true => em.mantissa < q ∧ 2 * q < 2 * em.mantissa + 1
  | true, false => 2 * q = 2 * em.mantissa + 1
  | true, true => 2 * em.mantissa + 1 < 2 * q ∧ q < em.mantissa + 1

/-- A shift by one bit halves the quantity, and the two low bits keep what is lost of it. -/
theorem Stands.shiftRightOne {em : ExtendedMantissa} {q : ℚ} (h : Stands em q) :
    Stands em.shiftRightOne (q / 2) := by
  obtain ⟨m, roundBit, stickyBit⟩ := em
  have hsplit : (m : ℚ) = 2 * (m / 2 : Nat) + (m % 2 : Nat) := by
    exact_mod_cast (Nat.div_add_mod m 2).symm
  -- the last bit is the first mark from now on
  rcases Nat.mod_two_eq_zero_or_one m with hbit | hbit
  · rw [hbit, Nat.cast_zero, add_zero] at hsplit
    cases roundBit <;> cases stickyBit <;>
      simp only [Stands, ExtendedMantissa.shiftRightOne, hbit, Bool.or_true, Bool.or_false,
        bne_self_eq_false] at h ⊢ <;> grind
  · rw [hbit, Nat.cast_one] at hsplit
    have hmark : (1 != 0) = true := rfl
    cases roundBit <;> cases stickyBit <;>
      simp only [Stands, ExtendedMantissa.shiftRightOne, hbit, Bool.or_true, Bool.or_false,
        hmark] at h ⊢ <;> grind

/-- A shift by any number of bits divides the quantity by that power of two. -/
theorem stands_shiftRight (m shift : Nat) :
    Stands (ExtendedMantissa.ofMantissaAndAccuracy m .exact >>> shift) (m / 2 ^ shift) := by
  induction shift with
  | zero => exact div_one _
  | succ shift ih =>
    rw [pow_succ, ← div_div]
    exact ih.shiftRightOne

/-- The marks are enough to find the nearest whole number. -/
theorem Stands.nearest {em : ExtendedMantissa} {q : ℚ} (h : Stands em q) :
    Nearest em.roundedMantissa q := by
  obtain ⟨m, roundBit, stickyBit⟩ := em
  cases roundBit with
  | false =>
    cases stickyBit with
    | false =>
      obtain rfl : q = m := h
      exact .self m
    | true =>
      obtain ⟨hlow, hhigh⟩ : (m : ℚ) < q ∧ 2 * q < 2 * m + 1 := h
      exact .of_lt hhigh (by linarith : 2 * (m : ℚ) < 2 * q + 1)
  | true =>
    cases stickyBit with
    | false =>
      -- just half way between two whole numbers: the even one of them is taken
      have hhalf : 2 * q = 2 * m + 1 := h
      change Nearest (m + m % 2) q
      rcases Nat.mod_two_eq_zero_or_one m with hbit | hbit
      · rw [hbit, Nat.add_zero]
        exact ⟨hhalf.le, by linarith, fun _ => Nat.even_iff.2 hbit⟩
      · rw [hbit]
        refine ⟨?_, ?_, fun _ => Nat.even_add_one.2 (by rw [Nat.even_iff, hbit]; decide)⟩
        · push_cast
          linarith
        · push_cast
          linarith
    | true =>
      obtain ⟨hlow, hhigh⟩ : 2 * (m : ℚ) + 1 < 2 * q ∧ q < m + 1 := h
      refine .of_lt (k := m + 1) ?_ ?_
      · push_cast
        linarith
      · push_cast
        linarith

/-! ## Grids -/

/-- The exponent of the last bit of a significand for a number. -/
structure Grid (q : ℚ) (t : Int) : Prop where
  least : -1074 ≤ t
  lt : q < 2 ^ (t + 53)
  le : t = -1074 ∨ 2 ^ (t + 52) ≤ q

/-- Larger quantities are rounded on coarser grids. -/
theorem Grid.mono {q q' : ℚ} {t t' : Int} (h : Grid q t) (h' : Grid q' t') (hle : q ≤ q') :
    t ≤ t' := by
  rcases h.le with rfl | hlow
  · exact h'.least
  · have hpow : (2 : ℚ) ^ (t + 52) < 2 ^ (t' + 53) := (hlow.trans hle).trans_lt h'.lt
    have := (zpow_lt_zpow_iff_right₀ one_lt_two).1 hpow
    omega

variable {q q' w w' : ℚ} {t e : Int} {k m : Nat}

theorem two_zpow_pos (t : Int) : (0 : ℚ) < 2 ^ t := zpow_pos two_pos t

theorem two_pow_mul_zpow (n : Nat) (t : Int) : ((2 ^ n : Nat) : ℚ) * 2 ^ t = 2 ^ (t + n) := by
  rw [zpow_add₀ two_ne_zero, zpow_natCast, Nat.cast_pow, Nat.cast_two, mul_comm]

theorem mul_zpow_le_mul_zpow {k k' : Nat} (h : k ≤ k') (t : Int) : (k : ℚ) * 2 ^ t ≤ k' * 2 ^ t :=
  mul_le_mul_of_nonneg_right (Nat.cast_le.2 h) (two_zpow_pos t).le

/-- A significand has no more than 53 bits, and rounding leads at most to the next power of two. -/
theorem Grid.nearest_le (h : Grid q t) (hk : Nearest k (q / 2 ^ t)) : k ≤ 2 ^ 53 := by
  refine hk.mono (.self _) ?_
  rw [div_le_iff₀ (two_zpow_pos t), two_pow_mul_zpow]
  exact h.lt.le

/-- On all grids but the finest one, all bits of a significand are used. -/
theorem Grid.le_nearest (h : Grid q t) (hk : Nearest k (q / 2 ^ t)) (ht : t ≠ -1074) :
    2 ^ 52 ≤ k := by
  refine (Nearest.self _).mono hk ?_
  rw [le_div_iff₀ (two_zpow_pos t), two_pow_mul_zpow]
  exact h.le.resolve_left ht

/-! ## Numbers as they are stored -/

/-- The least power of two that is stored as infinite. -/
@[irreducible] def beyond : ℚ := 2 ^ (1024 : Int)

/-- How a number is stored: as the nearest one on its grid, or as infinite. -/
def Rounded (q w : ℚ) : Prop :=
  ∃ (t : Int) (k : Nat), Grid q t ∧ Nearest k (q / 2 ^ t) ∧ w = min ((k : ℚ) * 2 ^ t) beyond

/-- Larger numbers are stored as larger numbers. -/
theorem Rounded.mono (h : Rounded q w) (h' : Rounded q' w') (hle : q ≤ q') : w ≤ w' := by
  obtain ⟨t, k, hgrid, hk, rfl⟩ := h
  obtain ⟨t', k', hgrid', hk', rfl⟩ := h'
  refine min_le_min_right beyond ?_
  rcases (hgrid.mono hgrid' hle).eq_or_lt with rfl | hlt
  · exact mul_zpow_le_mul_zpow
      (hk.mono hk' (div_le_div_of_nonneg_right hle (two_zpow_pos t).le)) t
  · -- the power of two between the grids is on both of them
    have hleast := hgrid.least
    calc (k : ℚ) * 2 ^ t
        ≤ (2 ^ 53 : Nat) * 2 ^ t := mul_zpow_le_mul_zpow (hgrid.nearest_le hk) t
      _ = 2 ^ (t + 53) := two_pow_mul_zpow 53 t
      _ ≤ 2 ^ (t' + 52) := zpow_le_zpow_right₀ one_le_two (by omega)
      _ = (2 ^ 52 : Nat) * 2 ^ t' := (two_pow_mul_zpow 52 t').symm
      _ ≤ k' * 2 ^ t' := mul_zpow_le_mul_zpow (hgrid'.le_nearest hk' (by omega)) t'

/-- A canonical significand has at most 53 bits. -/
theorem Canonical.lt (hm : Canonical m e) : m < 2 ^ 53 := by
  rcases hm with ⟨-, hlt⟩ | ⟨hlt, -⟩
  · exact hlt
  · exact Nat.lt_trans hlt (by decide)

theorem Canonical.mul_zpow_lt (hm : Canonical m e) : (m : ℚ) * 2 ^ e < 2 ^ (e + 53) :=
  (mul_lt_mul_of_pos_right (Nat.cast_lt.2 hm.lt) (two_zpow_pos e)).trans_eq (two_pow_mul_zpow 53 e)

theorem Normal.le_mul_zpow (hm : Normal m) (e : Int) : (2 : ℚ) ^ (e + 52) ≤ m * 2 ^ e :=
  (two_pow_mul_zpow 52 e).symm.trans_le (mul_zpow_le_mul_zpow hm.1 e)

/-- With an exponent that is stored, a canonical significand stays below infinity. -/
theorem Canonical.mul_zpow_lt_beyond (hm : Canonical m e) (he : e ≤ 971) :
    (m : ℚ) * 2 ^ e < beyond := by
  rw [beyond]
  exact hm.mul_zpow_lt.trans_le (zpow_le_zpow_right₀ one_le_two (by omega))

/-- The exponent of a canonical significand is that of its grid. -/
theorem Canonical.grid (hm : Canonical m e) (he : -1074 ≤ e) : Grid (m * 2 ^ e) e where
  least := he
  lt := hm.mul_zpow_lt
  le := hm.symm.imp And.right (Normal.le_mul_zpow · e)

/-- What can be stored is stored as it is. -/
theorem Canonical.rounded (hm : Canonical m e) (he : -1074 ≤ e) (he' : e ≤ 971) :
    Rounded (m * 2 ^ e) (m * 2 ^ e) := by
  refine ⟨e, m, hm.grid he, ?_, (min_eq_left (hm.mul_zpow_lt_beyond he').le).symm⟩
  rw [mul_div_cancel_right₀ _ (two_zpow_pos e).ne']
  exact .self m

theorem rounded_zero : Rounded 0 0 := by
  have h : Rounded ((0 : Nat) * 2 ^ (-1074 : Int)) ((0 : Nat) * 2 ^ (-1074 : Int)) :=
    Canonical.rounded (.inr ⟨by decide, rfl⟩) le_rfl (by decide)
  rwa [Nat.cast_zero, zero_mul] at h

/-! ## Signs -/

/-- A number with a sign. -/
def signed : Sign → ℚ → ℚ
  | .positive, q => q
  | .negative, q => -q

theorem signed_zero (s : Sign) : signed s 0 = 0 := by
  cases s with
  | positive => rfl
  | negative => exact neg_zero

/-- The sign is stored apart from the rest. -/
def Rounds (q w : ℚ) : Prop :=
  ∃ s q₀ w₀, 0 ≤ q₀ ∧ Rounded q₀ w₀ ∧ q = signed s q₀ ∧ w = signed s w₀

/-- Larger results are stored as larger numbers. -/
theorem Rounds.mono (h : Rounds q w) (h' : Rounds q' w') (hle : q ≤ q') : w ≤ w' := by
  obtain ⟨s, q, w, h0, h, rfl, rfl⟩ := h
  obtain ⟨s', q', w', h0', h', rfl, rfl⟩ := h'
  have hw := rounded_zero.mono h h0
  have hw' := rounded_zero.mono h' h0'
  cases s with
  | positive =>
    cases s' with
    | positive => exact h.mono h' hle
    | negative =>
      -- both are zero
      have hzero : q ≤ 0 := (show q ≤ -q' from hle).trans (neg_nonpos.2 h0')
      have hzero' : q' ≤ 0 := neg_nonneg.1 (h0.trans (show q ≤ -q' from hle))
      exact (h.mono rounded_zero hzero).trans (neg_nonneg.2 (h'.mono rounded_zero hzero'))
  | negative =>
    cases s' with
    | positive => exact (neg_nonpos.2 hw).trans hw'
    | negative => exact neg_le_neg (h'.mono h (neg_le_neg_iff.1 hle))

/-- What a number stands for in comparisons: infinity is next to the finite numbers. -/
def unpackedExtent : UnpackedFloat → ℚ
  | .notANumber => 0
  | .zero _ => 0
  | .infinity s => signed s beyond
  | .finite s m e _ => signed s (m * 2 ^ e)

/-- A finite number whose significand and exponent can be stored. -/
def Storable : UnpackedFloat → Prop
  | .finite _ m e _ => Canonical m e ∧ -1074 ≤ e ∧ e ≤ 971
  | .zero _ => True
  | _ => False

theorem rounds_zero : Rounds 0 0 := ⟨.positive, 0, 0, le_rfl, rounded_zero, rfl, rfl⟩

/-- What can be stored is rounded to itself. -/
theorem Storable.rounds {u : UnpackedFloat} (h : Storable u) :
    Rounds (unpackedExtent u) (unpackedExtent u) := by
  cases u with
  | notANumber => cases h
  | infinity s => cases h
  | zero s => exact rounds_zero
  | finite s m e hm =>
    obtain ⟨hcanonical, he, he'⟩ := h
    exact ⟨s, _, _, (value_pos hm e).le, hcanonical.rounded he he', rfl, rfl⟩

theorem beyond_pos : 0 < beyond := by
  rw [beyond]
  exact two_zpow_pos _

/-- What can be stored lies between the infinities. -/
theorem Storable.abs_lt {u : UnpackedFloat} (h : Storable u) :
    -beyond < unpackedExtent u ∧ unpackedExtent u < beyond := by
  have hpos := beyond_pos
  cases u with
  | notANumber => cases h
  | infinity s => cases h
  | zero s => exact ⟨neg_neg_of_pos hpos, hpos⟩
  | finite s m e hm =>
    have hlt := h.1.mul_zpow_lt_beyond h.2.2
    have h0 := value_pos hm e
    cases s with
    | positive => exact ⟨(neg_neg_of_pos hpos).trans h0, hlt⟩
    | negative => exact ⟨neg_lt_neg hlt, (neg_neg_of_pos h0).trans hpos⟩

/-! ## Significands as they are stored -/

/-- A significand without the first of 53 bits has the smallest exponent, which is not stored. -/
theorem stored_of_subnormal {s : Sign} (hm : m < 2 ^ 52) (hpos : 0 < m) :
    stored (.finite s m (-1074) hpos) = .finite s m (-1074) hpos := by
  have hlog : m.log2 < 52 := (Nat.log2_lt hpos.ne').2 hm
  have hmantissa : (BitVec.ofNat 52 m).toNat = m := by
    rw [BitVec.toNat_ofNat]
    exact Nat.mod_eq_of_lt hm
  have hne : BitVec.ofNat 52 m ≠ 0#52 := by
    intro h
    rw [h] at hmantissa
    exact hpos.ne hmantissa
  -- the exponent is stored as zero, so that no first bit is added when the word is read
  have hpack : UnpackedFloat.pack Format.binary64 (.finite s m (-1074) hpos) =
      packComponents Format.binary64 s (0#11) (.ofNat 52 m) := by
    rw [pack]
    dsimp only
    rw [if_neg (by decide), if_neg (by rw [mantissaBits_binary64]; omega)]
  have hexponent := @unpackExponent_packComponents Format.binary64 s (0#11) (.ofNat 52 m)
  rw [stored, hpack]
  refine (if_neg ?_).trans ((if_pos hexponent).trans ((dif_neg ?_).trans (finite_congr ?_ ?_ ?_)))
  · rw [hexponent]
    decide
  · rw [unpackMantissa_packComponents]
    exact hne
  · exact sign_packComponents ..
  · rw [unpackMantissa_packComponents]
    exact hmantissa
  · rw [hexponent]
    rfl

/-- What can be stored is read back as it was written. -/
theorem stored_of_storable {u : UnpackedFloat} (h : Storable u) : stored u = u := by
  cases u with
  | notANumber => cases h
  | infinity s => cases h
  | zero s =>
    cases s with
    | positive => rfl
    | negative => rfl
  | finite s m e hm =>
    obtain ⟨hnormal | ⟨hlt, rfl⟩, he, he'⟩ := h
    · exact unpack_pack_of_normal hnormal he he' hm
    · exact stored_of_subnormal hlt hm

theorem stored_infinity (s : Sign) : stored (.infinity s) = .infinity s := by
  cases s with
  | positive => rfl
  | negative => rfl

/-- A significand whose exponent is too great to be stored becomes infinite. -/
theorem extent_stored {s : Sign} (hm : Canonical m e) (he : -1074 ≤ e) (hpos : 0 < m) :
    unpackedExtent (stored (.finite s m e hpos)) = signed s (min (m * 2 ^ e) beyond) := by
  rcases Int.lt_or_le 971 e with hlt | hle
  · have hinfinite : stored (.finite s m e hpos) = .infinity s := by
      have hpack : UnpackedFloat.pack Format.binary64 (.finite s m e hpos) =
          UnpackedFloat.pack Format.binary64 (.infinity s) := by
        refine if_pos ?_
        change 2048 ≤ (e + 1023 + 52).toNat + 1
        omega
      rw [stored, hpack]
      exact stored_infinity s
    -- what is not stored is as great as infinity at least
    have hgreat : beyond ≤ m * 2 ^ e := by
      rw [beyond]
      exact (zpow_le_zpow_right₀ one_le_two (by omega)).trans
        ((hm.resolve_right (by omega)).le_mul_zpow e)
    rw [hinfinite, min_eq_right hgreat]
    rfl
  · rw [stored_of_storable (show Storable (.finite s m e hpos) from ⟨hm, he, hle⟩),
      min_eq_left (hm.mul_zpow_lt_beyond hle).le]
    rfl

/-! ## Rounding -/

/-- The second shift brings a significand that was rounded to 53 bits, and loses none. -/
theorem exists_shift_rounded {k : Nat} {t : Int} (hk : k ≤ 2 ^ 53) (ht : -1074 ≤ t)
    (hlow : t ≠ -1074 → 2 ^ 52 ≤ k) :
    ∃ m e, shiftToTargetExponent Format.binary64 k t .exact = (⟨m, false, false⟩, e) ∧
      Canonical m e ∧ -1074 ≤ e ∧ (m : ℚ) * 2 ^ e = k * 2 ^ t := by
  rcases Nat.lt_or_ge k (2 ^ 52) with hlt | hge
  · obtain rfl : t = -1074 := by
      by_contra hne
      exact absurd (hlow hne) (Nat.not_le_of_lt hlt)
    have hlog : k.log2 ≤ 52 := by
      rcases Nat.eq_zero_or_pos k with rfl | hpos
      · decide
      · exact ((Nat.log2_lt hpos.ne').2 hlt).le
    -- on the finest grid nothing is shifted
    have hstay : (Format.binary64.targetExponent (totalExponent k (-1074)) - -1074).toNat = 0 := by
      simp only [Format.targetExponent, totalExponent, mantissaBits_binary64, Format.minExponent]
      omega
    refine ⟨k, -1074, ?_, .inr ⟨hlt, rfl⟩, le_rfl, rfl⟩
    rw [shiftToTargetExponent, shiftToExponent, hstay]
    rfl
  · rcases Nat.lt_or_eq_of_le hk with hlt | rfl
    · exact ⟨k, t, shiftToTargetExponent_of_normal ⟨hge, hlt⟩ ht, .inl ⟨hge, hlt⟩, ht, rfl⟩
    -- rounding led to the next power of two, which lies on the next grid as well
    · refine ⟨1 * Nat.pow 2 52, t + 1, shiftToTargetExponent_full ht, .inl ⟨?_, ?_⟩, by omega, ?_⟩
      · decide
      · decide
      · rw [two_pow_mul_zpow 53 t, Nat.one_mul]
        exact (two_pow_mul_zpow 52 (t + 1)).trans (by rw [add_assoc]; rfl)

/-- The binary logarithm of the significand bounds the number from below. -/
theorem le_value_log2 (hm : 0 < m) (e : Int) : (2 : ℚ) ^ (m.log2 + e) ≤ m * 2 ^ e := by
  rw [add_comm, ← two_pow_mul_zpow]
  exact mul_zpow_le_mul_zpow (Nat.log2_self_le hm.ne') e

/-- It bounds the number from above by the next power of two. -/
theorem value_lt_log2 (m : Nat) (e : Int) : (m : ℚ) * 2 ^ e < 2 ^ (m.log2 + 1 + e) := by
  have hpow := two_pow_mul_zpow (m.log2 + 1) e
  rw [Nat.cast_add, Nat.cast_one, add_comm e] at hpow
  exact (mul_lt_mul_of_pos_right (Nat.cast_lt.2 Nat.lt_log2_self) (two_zpow_pos e)).trans_eq hpow

/-- The exponent of a result is that of its grid. -/
theorem grid_targetExponent (hm : 0 < m) (e : Int) :
    Grid (m * 2 ^ e) (Format.binary64.targetExponent (totalExponent m e)) := by
  obtain ⟨t, ht⟩ : ∃ t, Format.binary64.targetExponent (totalExponent m e) = t := ⟨_, rfl⟩
  have ht' := ht
  simp only [Format.targetExponent, totalExponent, mantissaBits_binary64, Format.minExponent] at ht'
  rw [ht]
  refine ⟨by omega, (value_lt_log2 m e).trans_le (zpow_le_zpow_right₀ one_le_two (by omega)), ?_⟩
  by_cases hleast : t = -1074
  · exact .inl hleast
  · exact .inr ((zpow_le_zpow_right₀ one_le_two (by omega)).trans (le_value_log2 hm e))

/-- A significand with bits to spare is rounded to a nearest number on the grid. -/
theorem rounds_roundWithAccuracy (s : Sign) (hm : 0 < m)
    (he : e ≤ Format.binary64.targetExponent (totalExponent m e)) :
    Rounds (signed s (m * 2 ^ e))
      (unpackedExtent (stored (roundWithAccuracy Format.binary64 s m e .exact))) := by
  have hgrid := grid_targetExponent hm e
  obtain ⟨shift, ht⟩ := Int.le.dest he
  -- the significand on the grid, and what is left of it
  obtain ⟨em, hem⟩ : ∃ em, em = ExtendedMantissa.ofMantissaAndAccuracy m .exact >>> shift :=
    ⟨_, rfl⟩
  have hfirst : shiftToTargetExponent Format.binary64 m e .exact = (em, e + shift) := by
    rw [shiftToTargetExponent, shiftToExponent, ← ht, add_sub_cancel_left, Int.toNat_natCast, ← hem]
  have hnearest : Nearest em.roundedMantissa (m * 2 ^ e / 2 ^ (e + shift : Int)) := by
    rw [zpow_add₀ two_ne_zero, zpow_natCast, mul_comm, mul_div_mul_left _ _ (two_zpow_pos e).ne',
      hem]
    exact (stands_shiftRight m shift).nearest
  rw [← ht] at hgrid
  obtain ⟨m', e', hsecond, hcanonical, he', hvalue⟩ := exists_shift_rounded
    (hgrid.nearest_le hnearest) hgrid.least (hgrid.le_nearest hnearest)
  refine ⟨s, _, _, (value_pos hm e).le, ⟨e + shift, _, hgrid, hnearest, rfl⟩, rfl, ?_⟩
  rw [roundWithAccuracy, hfirst]
  dsimp only
  rw [hsecond, ← hvalue]
  dsimp only
  split
  · next hzero =>
    rw [hzero, Nat.cast_zero, zero_mul, stored_of_storable (show Storable (.zero s) from trivial),
      min_eq_left beyond_pos.le]
    exact (signed_zero s).symm
  · next hne => exact extent_stored hcanonical he' (Nat.pos_of_ne_zero hne)

/-- A significand that moves up loses nothing. -/
theorem shiftLeft_mul_zpow (m n : Nat) (e : Int) :
    ((m <<< n : Nat) : ℚ) * 2 ^ (e - n) = m * 2 ^ e := by
  rw [Nat.shiftLeft_eq, Nat.cast_mul, mul_assoc, two_pow_mul_zpow, sub_add_cancel]

/-- Zeros behind a significand leave the size of the number as it is. -/
theorem totalExponent_shiftLeft (hm : 0 < m) (n : Nat) (e : Int) :
    totalExponent (m <<< n) (e - n) = totalExponent m e := by
  have hlog : (m <<< n).log2 = m.log2 + n := by
    rw [Nat.shiftLeft_eq]
    exact log2_mul_two_pow hm n
  rw [totalExponent, totalExponent, hlog, Nat.cast_add]
  omega

/-- Any significand with any exponent is rounded to a nearest number on the grid. -/
theorem rounds_round (s : Sign) (hm : 0 < m) (e : Int) :
    Rounds (signed s (m * 2 ^ e))
      (unpackedExtent (stored (UnpackedFloat.round Format.binary64 s m e))) := by
  obtain ⟨t, ht⟩ : ∃ t, Format.binary64.targetExponent (totalExponent m e) = t := ⟨_, rfl⟩
  rw [UnpackedFloat.round, ht, decreaseExponent, ← shiftLeft_mul_zpow m (e - t).toNat e]
  refine rounds_roundWithAccuracy s ?_ ?_
  · rw [Nat.shiftLeft_eq]
    exact Nat.mul_pos hm (Nat.two_pow_pos _)
  · rw [totalExponent_shiftLeft hm, ht]
    omega

/-- So is a significand with a sign of its own. -/
theorem rounds_normalize (m e : Int) (s : Sign) :
    Rounds (m * 2 ^ e)
      (unpackedExtent (stored (UnpackedFloat.normalize Format.binary64 m e s))) := by
  rw [UnpackedFloat.normalize]
  split
  · next hlt =>
    rw [Int.compare_eq_lt] at hlt
    obtain ⟨n, hn⟩ := Int.eq_ofNat_of_zero_le (Int.neg_nonneg_of_nonpos hlt.le)
    obtain rfl : m = -n := by omega
    have h := rounds_round .negative (m := n) (by omega) e
    rw [Int.neg_neg, Int.toNat_natCast, Int.cast_neg, Int.cast_natCast, neg_mul]
    exact h
  · next heq =>
    rw [Int.compare_eq_eq] at heq
    rw [heq, Int.cast_zero, zero_mul, stored_of_storable (show Storable (.zero s) from trivial)]
    exact rounds_zero
  · next hgt =>
    rw [Int.compare_eq_gt] at hgt
    obtain ⟨n, rfl⟩ := Int.eq_ofNat_of_zero_le hgt.le
    rw [Int.toNat_natCast, Int.cast_natCast]
    exact rounds_round .positive (by omega) e

/-! ## Operations on finite numbers -/

variable {u v : UnpackedFloat}

theorem signed_mul_zpow (s : Sign) (m : Nat) (e : Int) :
    signed s (m * 2 ^ e) = (s.apply m : Int) * 2 ^ e := by
  cases s with
  | positive => exact congrArg (· * _) (Int.cast_natCast m).symm
  | negative =>
    change -((m : ℚ) * 2 ^ e) = ((-(m : Int) : Int) : ℚ) * 2 ^ e
    rw [Int.cast_neg, Int.cast_natCast, neg_mul]

/-- A significand at a smaller exponent. -/
theorem signed_shiftLeft (s : Sign) (m : Nat) {e t : Int} (h : t ≤ e) :
    ((s.apply (m <<< (e - t).toNat : Nat) : Int) : ℚ) * 2 ^ t = signed s (m * 2 ^ e) := by
  have hshift : e - (e - t).toNat = t := by omega
  have hvalue := shiftLeft_mul_zpow m (e - t).toNat e
  rw [hshift] at hvalue
  rw [← signed_mul_zpow, hvalue]

/-- A sum of two numbers is their exact sum, rounded. -/
theorem rounds_add_unpacked (hu : Storable u) (hv : Storable v) :
    Rounds (unpackedExtent u + unpackedExtent v)
      (unpackedExtent (stored (.add Format.binary64 u v))) := by
  cases u with
  | notANumber => cases hu
  | infinity s => cases hu
  | zero s =>
    rw [unpackedExtent, zero_add]
    cases v with
    | notANumber => cases hv
    | infinity s' => cases hv
    | zero s' =>
      have hzero : ∃ s'', UnpackedFloat.add Format.binary64 (.zero s) (.zero s') = .zero s'' := by
        rw [UnpackedFloat.add]
        split
        · exact ⟨_, rfl⟩
        · exact ⟨_, rfl⟩
      obtain ⟨s'', hzero⟩ := hzero
      rw [hzero, stored_of_storable (show Storable (.zero s'') from trivial)]
      exact rounds_zero
    | finite s' m' e' hm' =>
      have hsum : UnpackedFloat.add Format.binary64 (.zero s) (.finite s' m' e' hm') =
        .finite s' m' e' hm' := rfl
      rw [hsum, stored_of_storable hv]
      exact hv.rounds
  | finite s m e hm =>
    cases v with
    | notANumber => cases hv
    | infinity s' => cases hv
    | zero s' =>
      have hsum : UnpackedFloat.add Format.binary64 (.finite s m e hm) (.zero s') =
        .finite s m e hm := rfl
      rw [hsum, stored_of_storable hu, unpackedExtent.eq_2, add_zero]
      exact hu.rounds
    | finite s' m' e' hm' =>
      -- both are brought to the smaller exponent
      have h := rounds_normalize (s.apply (m <<< (e - min e e').toNat : Nat) +
        s'.apply (m' <<< (e' - min e e').toNat : Nat)) (min e e') .positive
      rw [Int.cast_add, add_mul, signed_shiftLeft s m (min_le_left e e'),
        signed_shiftLeft s' m' (min_le_right e e')] at h
      exact h

theorem Storable.neg (h : Storable u) : Storable u.neg := by
  cases u with
  | notANumber => cases h
  | infinity s => cases h
  | zero s => trivial
  | finite s m e hm => exact h

/-- The negated number lies on the other side of zero, equally far. -/
theorem extent_neg (u : UnpackedFloat) : unpackedExtent u.neg = -unpackedExtent u := by
  have hsigned : ∀ s q, signed (-s) q = -signed s q := by
    intro s q
    cases s with
    | positive => rfl
    | negative => exact (neg_neg q).symm
  cases u with
  | notANumber => exact neg_zero.symm
  | infinity s => exact hsigned s beyond
  | zero s => exact neg_zero.symm
  | finite s m e hm => exact hsigned s (m * 2 ^ e)

/-- A finite number is taken away as its negative is added. -/
theorem sub_unpacked_eq_add_neg (hu : Storable u) (hv : Storable v) :
    UnpackedFloat.sub Format.binary64 u v = UnpackedFloat.add Format.binary64 u v.neg := by
  cases u with
  | notANumber => cases hu
  | infinity s => cases hu
  | zero s =>
    cases v with
    | notANumber => cases hv
    | infinity s' => cases hv
    | zero s' => rfl
    | finite s' m' e' hm' => rfl
  | finite s m e hm =>
    cases v with
    | notANumber => cases hv
    | infinity s' => cases hv
    | zero s' => rfl
    | finite s' m' e' hm' =>
      cases s' with
      | positive => rfl
      | negative =>
        exact congrArg (UnpackedFloat.normalize Format.binary64 · (min e e') .positive)
          (sub_neg_eq_add _ _)

/-- A difference of two numbers is their exact difference, rounded. -/
theorem rounds_sub_unpacked (hu : Storable u) (hv : Storable v) :
    Rounds (unpackedExtent u - unpackedExtent v)
      (unpackedExtent (stored (.sub Format.binary64 u v))) := by
  rw [sub_unpacked_eq_add_neg hu hv, sub_eq_add_neg, ← extent_neg]
  exact rounds_add_unpacked hu hv.neg

theorem signed_mul_signed (s s' : Sign) (q q' : ℚ) :
    signed s q * signed s' q' = signed (s * s') (q * q') := by
  cases s with
  | positive =>
    cases s' with
    | positive => rfl
    | negative => exact mul_neg q q'
  | negative =>
    cases s' with
    | positive => exact neg_mul q q'
    | negative => exact neg_mul_neg q q'

/-- Of a product, either the first of 53 bits is reached or the smallest exponent. -/
theorem add_le_targetExponent {m m' : Nat} {e e' : Int} (h0 : 0 < m) (h0' : 0 < m')
    (hm : Canonical m e) (hm' : Canonical m' e') :
    e + e' ≤ Format.binary64.targetExponent (totalExponent (m * m') (e + e')) := by
  have hlog : Nat.pow 2 52 ≤ m * m' → 52 ≤ (m * m').log2 :=
    (Nat.le_log2 (Nat.mul_pos h0 h0').ne').2
  simp only [Format.targetExponent, totalExponent, mantissaBits_binary64, Format.minExponent]
  rcases hm with ⟨hm, -⟩ | ⟨-, rfl⟩
  · have := hlog (hm.trans (Nat.le_mul_of_pos_right m h0'))
    omega
  · rcases hm' with ⟨hm', -⟩ | ⟨-, rfl⟩
    · have := hlog (hm'.trans (Nat.le_mul_of_pos_left m' h0))
      omega
    · omega

/-- A product of two numbers is their exact product, rounded. -/
theorem rounds_mul_unpacked (hu : Storable u) (hv : Storable v) :
    Rounds (unpackedExtent u * unpackedExtent v)
      (unpackedExtent (stored (.mul Format.binary64 u v))) := by
  -- a product with zero is a zero, whatever its sign
  have hzero : ∀ s, Rounds 0 (unpackedExtent (stored (.zero s))) := by
    intro s
    rw [stored_of_storable (show Storable (.zero s) from trivial)]
    exact rounds_zero
  cases u with
  | notANumber => cases hu
  | infinity s => cases hu
  | zero s =>
    rw [unpackedExtent, zero_mul]
    cases v with
    | notANumber => cases hv
    | infinity s' => cases hv
    | zero s' => exact hzero _
    | finite s' m' e' hm' => exact hzero _
  | finite s m e hm =>
    cases v with
    | notANumber => cases hv
    | infinity s' => cases hv
    | zero s' =>
      rw [unpackedExtent.eq_2, mul_zero]
      exact hzero _
    | finite s' m' e' hm' =>
      have hvalue : signed s (m * 2 ^ e) * signed s' (m' * 2 ^ e') =
          signed (s * s') ((m * m' : Nat) * 2 ^ (e + e')) := by
        rw [signed_mul_signed, mul_mul_mul_comm, zpow_add₀ two_ne_zero, Nat.cast_mul]
      rw [unpackedExtent, unpackedExtent, hvalue]
      exact rounds_roundWithAccuracy (s * s') (Nat.mul_pos hm hm')
        (add_le_targetExponent hm hm' hu.1 hv.1)

/-! ## Comparisons -/

/-- What is read from bits can be stored. -/
theorem storable_unpack {bits : BitVec Format.binary64.numBits}
    (h : (unpack Format.binary64 bits).isFinite = true) :
    Storable (unpack Format.binary64 bits) := by
  cases hbits : unpack Format.binary64 bits with
  | notANumber =>
    rw [hbits] at h
    cases h
  | infinity s =>
    rw [hbits] at h
    cases h
  | zero s => trivial
  | finite s m e hm => exact ⟨canonical_unpack _ hbits, exponent_unpack _ hbits⟩

/-- What a double stands for in comparisons. -/
def extent (x : Float) : ℚ := unpackedExtent x.toModel.unpack

/-- What a finite number stands for can be stored. -/
theorem storable {x : Float} (hx : x.isFinite = true) : Storable x.toModel.unpack :=
  storable_unpack hx

/-- Exponents are compared first. -/
theorem mul_zpow_lt_mul_zpow {m m' : Nat} {e e' : Int} (hm : Canonical m e) (hm' : Canonical m' e')
    (he : -1074 ≤ e) (h : e < e' ∨ e = e' ∧ (m : Int) < m') : (m : ℚ) * 2 ^ e < m' * 2 ^ e' := by
  rcases h with hlt | ⟨rfl, hlt⟩
  · calc (m : ℚ) * 2 ^ e
        < 2 ^ (e + 53) := hm.mul_zpow_lt
      _ ≤ 2 ^ (e' + 52) := zpow_le_zpow_right₀ one_le_two (by omega)
      _ ≤ m' * 2 ^ e' := (hm'.resolve_right (by omega)).le_mul_zpow e'
  · exact mul_lt_mul_of_pos_right (Nat.cast_lt.2 (Int.ofNat_lt.1 hlt)) (two_zpow_pos e)

/-- The sign and the class of a number in its key bound what it stands for. -/
theorem orderKey_bounds (hu : u.isFinite = true → Storable u) :
    ((orderKey u).1 = 2 ∧ unpackedExtent u = beyond) ∨
      ((orderKey u).1 = 1 ∧ 0 < unpackedExtent u ∧ unpackedExtent u < beyond) ∨
      ((orderKey u).1 = 0 ∧ unpackedExtent u = 0) ∨
      ((orderKey u).1 = -1 ∧ -beyond < unpackedExtent u ∧ unpackedExtent u < 0) ∨
      ((orderKey u).1 = -2 ∧ unpackedExtent u = -beyond) := by
  cases u with
  | notANumber => exact .inr (.inr (.inl ⟨rfl, rfl⟩))
  | infinity s =>
    cases s with
    | positive => exact .inl ⟨rfl, rfl⟩
    | negative => exact .inr (.inr (.inr (.inr ⟨rfl, rfl⟩)))
  | zero s => exact .inr (.inr (.inl ⟨rfl, rfl⟩))
  | finite s m e hm =>
    obtain ⟨hlow, hhigh⟩ := (hu rfl).abs_lt
    have h0 := value_pos hm e
    cases s with
    | positive => exact .inr (.inl ⟨rfl, h0, hhigh⟩)
    | negative => exact .inr (.inr (.inr (.inl ⟨rfl, hlow, neg_neg_of_pos h0⟩)))

/-- In one class, only finite numbers differ. -/
theorem extent_lt_of_class (hu : u.isFinite = true → Storable u)
    (hv : v.isFinite = true → Storable v) (hclass : (orderKey u).1 = (orderKey v).1)
    (h : (orderKey u).2 < (orderKey v).2) : unpackedExtent u < unpackedExtent v := by
  cases u with
  | finite s m e hm =>
    cases v with
    | finite s' m' e' hm' =>
      obtain ⟨hcanonical, he, -⟩ := hu rfl
      obtain ⟨hcanonical', he', -⟩ := hv rfl
      cases s with
      | positive =>
        cases s' with
        | positive =>
          exact mul_zpow_lt_mul_zpow hcanonical hcanonical' he (Prod.Lex.toLex_lt_toLex.1 h)
        | negative => exact absurd hclass (by decide : (1 : Int) ≠ -1)
      | negative =>
        cases s' with
        | positive => exact absurd hclass (by decide : (-1 : Int) ≠ 1)
        | negative =>
          -- the keys of negative numbers are turned round, and so are the numbers
          have hkeys : -e < -e' ∨ -e = -e' ∧ -(m : Int) < -m' := Prod.Lex.toLex_lt_toLex.1 h
          exact neg_lt_neg (mul_zpow_lt_mul_zpow hcanonical' hcanonical he' (by omega))
    | infinity s' => cases s <;> cases s' <;> cases hclass
    | _ => cases s <;> cases hclass
  | infinity s =>
    cases v with
    | finite s' m' e' hm' => cases s <;> cases s' <;> cases hclass
    | infinity s' => cases s <;> cases s' <;> exact absurd h (lt_irrefl _)
    | _ => cases s <;> exact absurd h (lt_irrefl _)
  | _ =>
    cases v with
    | finite s' m' e' hm' => cases s' <;> cases hclass
    | infinity s' => cases s' <;> exact absurd h (lt_irrefl _)
    | _ => exact absurd h (lt_irrefl _)

/-- The order of the keys is that of the numbers. -/
theorem extent_lt_extent (hu : u.isFinite = true → Storable u) (hv : v.isFinite = true → Storable v)
    (h : orderKey u < orderKey v) : unpackedExtent u < unpackedExtent v := by
  rcases (Prod.Lex.lt_iff.1 h : _ ∨ _) with hlt | ⟨heq, hlt⟩
  · -- the classes differ, and so do their bounds
    change (orderKey u).1 < (orderKey v).1 at hlt
    have hpos := beyond_pos
    rcases orderKey_bounds hu with
      ⟨hr, hq⟩ | ⟨hr, hq, hq'⟩ | ⟨hr, hq⟩ | ⟨hr, hq, hq'⟩ | ⟨hr, hq⟩ <;>
      rcases orderKey_bounds hv with
        ⟨hr', hw⟩ | ⟨hr', hw, hw'⟩ | ⟨hr', hw⟩ | ⟨hr', hw, hw'⟩ | ⟨hr', hw⟩ <;>
      first
      | omega
      | linarith
  · exact extent_lt_of_class hu hv heq hlt

/-- Numbers compare like what they stand for. -/
theorem le_of_extent_le {x y : Float} (hx : x.isNaN = false) (hy : y.isNaN = false)
    (h : extent x ≤ extent y) : x ≤ y := by
  rw [le_iff hx hy, lt_iff hy hx]
  exact fun hlt => h.not_gt (extent_lt_extent storable_unpack storable_unpack hlt)

/-- A number below all that is infinite is finite. -/
theorem isFinite_of_extent {x : Float} (hx : x.isNaN = false)
    (hlow : -beyond < extent x) (hhigh : extent x < beyond) :
    x.isFinite = true := by
  change x.toModel.unpack.isNaN = false at hx
  change x.toModel.unpack.isFinite = true
  cases hunpack : x.toModel.unpack with
  | notANumber =>
    rw [hunpack] at hx
    cases hx
  | infinity s =>
    rw [extent, hunpack] at hlow hhigh
    cases s with
    | positive => exact absurd hhigh (lt_irrefl beyond)
    | negative => exact absurd hlow (lt_irrefl (-beyond))
  | zero s => rfl
  | finite s m e hm => rfl

variable {x y : Float}

/-- A finite number is stored as it is. -/
theorem rounds_self (hx : x.isFinite = true) : Rounds (extent x) (extent x) := (storable hx).rounds

/-- A sum of two finite numbers is their exact sum, rounded. -/
theorem rounds_add (hx : x.isFinite = true) (hy : y.isFinite = true) :
    Rounds (extent x + extent y) (extent (x + y)) :=
  rounds_add_unpacked (storable hx) (storable hy)

/-- A difference of two finite numbers is their exact difference, rounded. -/
theorem rounds_sub (hx : x.isFinite = true) (hy : y.isFinite = true) :
    Rounds (extent x - extent y) (extent (x - y)) :=
  rounds_sub_unpacked (storable hx) (storable hy)

/-- A product of two finite numbers is their exact product, rounded. -/
theorem rounds_mul (hx : x.isFinite = true) (hy : y.isFinite = true) :
    Rounds (extent x * extent y) (extent (x * y)) :=
  rounds_mul_unpacked (storable hx) (storable hy)

/-- A finite number stays below infinity. -/
theorem extent_lt_beyond (hx : x.isFinite = true) : extent x < beyond := (storable hx).abs_lt.2

theorem value_of_isFinite (hx : x.isFinite = true) : value x = some (extent x) := by
  change x.toModel.unpack.isFinite = true at hx
  rw [value, extent]
  cases hunpack : x.toModel.unpack with
  | notANumber =>
    rw [hunpack] at hx
    cases hx
  | infinity s =>
    rw [hunpack] at hx
    cases hx
  | zero s => rfl
  | finite s m e hm =>
    cases s with
    | positive => rfl
    | negative => rfl

/-- Comparing two finite numbers compares what they stand for. -/
theorem extent_le_of_le (hx : x.isFinite = true) (hy : y.isFinite = true) (h : x ≤ y) :
    extent x ≤ extent y := by
  have hx' := isNaN_of_isFinite hx
  have hy' := isNaN_of_isFinite hy
  rw [le_iff hx' hy', lt_iff hy' hx', not_lt] at h
  rcases h.eq_or_lt with heq | hlt
  · have hvalue := value_congr ((beq_iff_place hx' hy').2 heq)
    rw [value_of_isFinite hx, value_of_isFinite hy] at hvalue
    exact (Option.some.inj hvalue).le
  · exact (extent_lt_extent storable_unpack storable_unpack hlt).le

/-! ## Operations that stay among the numbers -/

theorem Storable.isFinite (h : Storable u) : u.isFinite = true := by
  cases u with
  | notANumber => cases h
  | infinity s => cases h
  | _ => rfl

theorem neg_neg_unpacked (u : UnpackedFloat) : u.neg.neg = u := by
  have hsign : ∀ s : Sign, - -s = s := by
    intro s
    cases s with
    | positive => rfl
    | negative => rfl
  cases u with
  | notANumber => rfl
  | infinity s => exact congrArg _ (hsign s)
  | zero s => exact congrArg _ (hsign s)
  | finite s m e hm => exact finite_congr (hsign s) rfl rfl

/-- The sum of finite numbers is a number. -/
theorem isNaN_add (hx : x.isFinite = true) (hy : y.isFinite = true) : (x + y).isNaN = false := by
  have hu : Storable x.toModel.unpack := storable_unpack hx
  have hv : Storable y.toModel.unpack := storable_unpack hy
  change (x + y).toModel.unpack.isNaN = false
  rw [unpack_add, ← neg_neg_unpacked y.toModel.unpack, ← sub_unpacked_eq_add_neg hu hv.neg]
  exact isNaN_stored (isNaN_sub_of_isFinite hx hv.neg.isFinite)

/-- The product of finite numbers is a number. -/
theorem isNaN_mul_of_isFinite (hu : u.isFinite = true) (hv : v.isFinite = true) :
    (UnpackedFloat.mul Format.binary64 u v).isNaN = false := by
  cases u with
  | notANumber => cases hu
  | infinity s => cases hu
  | zero s =>
    cases v with
    | notANumber => cases hv
    | infinity s' => cases hv
    | zero s' => rfl
    | finite s' m' e' hm' => rfl
  | finite s m e hm =>
    cases v with
    | notANumber => cases hv
    | infinity s' => cases hv
    | zero s' => rfl
    | finite s' m' e' hm' => exact (hasSign_roundWithAccuracy ..).isNaN

/-- A product of two finite numbers is a number. -/
theorem isNaN_mul (hx : x.isFinite = true) (hy : y.isFinite = true) : (x * y).isNaN = false :=
  isNaN_stored (isNaN_mul_of_isFinite hx hy)

end Lockstep.Binary64
