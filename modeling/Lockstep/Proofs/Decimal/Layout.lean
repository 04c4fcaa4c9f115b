import Lockstep.Proofs.Binary64.Order
import Lockstep.Proofs.Json.Literal

/-!
# The literals of finite numbers

The shortest decimal of a nonzero number has a nonzero coefficient (`shortest_pos`), so its digits
do not start with a zero, wherever the layout puts the point. Hence what is written for a finite
number in JSON is a number literal (`isLiteral_write`).
-/

namespace Lockstep

namespace Decimal

/-! ## Magnitudes -/

theorem powerRatio_pos {base : Nat} (h : 0 < base) (e : Int) :
    0 < (powerRatio base e).1 ∧ 0 < (powerRatio base e).2 :=
  ⟨Nat.pow_pos h, Nat.pow_pos h⟩

theorem quarterOnGrid_pos (b : Binary) (k : Int) : 0 < (b.quarterOnGrid k).1 :=
  Nat.mul_pos (powerRatio_pos (by decide) _).1 (powerRatio_pos (by decide) _).1

/-- A grid point that rounds to a nonzero number is not zero. -/
theorem pos_of_mem_neighbours {b : Binary} (hb : 0 < b.significand) {k : Int} {p : Nat}
    (h : p ∈ b.neighbours k) : 0 < p := by
  have hquarter := quarterOnGrid_pos b k
  rcases Nat.eq_zero_or_pos p with rfl | hp
  · -- the lower end of the interval is above zero
    have hlow : 0 < (4 * b.significand - if b.narrow then 1 else 2) * (b.quarterOnGrid k).1 := by
      refine Nat.mul_pos ?_ hquarter
      split <;> omega
    have hin := (List.mem_filter.1 h).2
    simp only [Nat.zero_mul] at hin
    split at hin
    · exact absurd (of_decide_eq_true (Bool.and_eq_true_iff.1 hin).1) (Nat.not_le_of_lt hlow)
    · exact absurd (of_decide_eq_true (Bool.and_eq_true_iff.1 hin).1) (Nat.not_lt_zero _)
  · exact hp

theorem le_nearer (b : Binary) (tie : Tie) (k : Int) (d : Nat) : d ≤ b.nearer tie k d := by
  simp only [Binary.nearer]
  split
  · exact Nat.le_refl d
  · exact Nat.le_succ d
  · cases tie with
    | up => exact Nat.le_succ d
    | toEven => exact Nat.le_add_right d _

theorem exact_pos {b : Binary} (hb : 0 < b.significand) : 0 < b.exact.coefficient := by
  rw [Binary.exact]
  split
  · exact Nat.mul_pos hb (Nat.pow_pos (by decide))
  · exact Nat.mul_pos hb (Nat.pow_pos (by decide))

theorem shortestFrom_pos {b : Binary} (hb : 0 < b.significand) (tie : Tie) (steps : Nat) :
    ∀ k : Int, 0 < (b.shortestFrom tie steps k).coefficient := by
  induction steps with
  | zero => exact fun _ => exact_pos hb
  | succ steps ih =>
    intro k
    have hmem : ∀ p ∈ b.neighbours k, 0 < p := fun p hp => pos_of_mem_neighbours hb hp
    rw [Binary.shortestFrom]
    split
    · exact ih (k - 1)
    · next d hd => exact hmem d (by rw [hd]; exact List.mem_cons_self)
    · next d _ _ hd =>
      have hpos := hmem d (by rw [hd]; exact List.mem_cons_self)
      exact Nat.lt_of_lt_of_le hpos (le_nearer b tie k d)

theorem shortest_pos {b : Binary} (hb : 0 < b.significand) (tie : Tie) :
    0 < (b.shortest tie).coefficient := shortestFrom_pos hb tie 20 _

/-! ## Layouts -/

open Json (IsLiteral IsWhole IsFraction IsExponent)
open Float.Model

/-- Digits with a point among them are a whole part and a fraction. -/
theorem placePoint_eq {d : Char} {ds : List Char} (hne : d ≠ '0') (hd : d.isDigit = true)
    (hds : ∀ c ∈ ds, c.isDigit = true) (point : Int) :
    ∃ whole fraction, placePoint (d :: ds) point true = whole ++ fraction ∧ IsWhole whole ∧
      IsFraction fraction := by
  have hall : ∀ c ∈ d :: ds, c.isDigit = true := List.forall_mem_cons.2 ⟨hd, hds⟩
  have hzeros : ∀ (n : Nat), ∀ c ∈ List.replicate n '0', c.isDigit = true := by
    intro n c hc
    rw [List.eq_of_mem_replicate hc]
    rfl
  -- the point stands before all digits, behind them, or in between
  unfold placePoint
  split
  · refine ⟨['0'], '.' :: (List.replicate (-point).toNat '0' ++ d :: ds), rfl, .zero, ?_⟩
    exact .digits (by simp) (List.forall_mem_append.2 ⟨hzeros _, hall⟩)
  · next hpoint =>
    split
    · refine ⟨d :: (ds ++ List.replicate (point.toNat - (d :: ds).length) '0'), ['.', '0'], ?_, ?_,
        .digits (List.cons_ne_nil _ _) (hzeros 1)⟩
      · rw [if_pos rfl, List.cons_append]
      · exact .digits hd hne (List.forall_mem_append.2 ⟨hds, hzeros _⟩)
    · next hlength =>
      obtain ⟨n, hn⟩ : ∃ n, point.toNat = n + 1 := ⟨point.toNat - 1, by omega⟩
      rw [hn]
      refine ⟨d :: ds.take n, '.' :: ds.drop n, rfl,
        .digits hd hne fun c hc => hds c (List.mem_of_mem_take hc),
        .digits ?_ fun c hc => hds c (List.mem_of_mem_drop hc)⟩
      rw [hn, List.length_cons] at hlength
      exact List.ne_nil_of_length_pos (by rw [List.length_drop]; omega)

theorem isExponent_exponentText (e : Int) :
    IsExponent ('e' :: exponentText true e) := by
  refine .digits ?_ Nat.toDigits_ne_nil
    fun c hc => Nat.isDigit_of_mem_toDigits (by decide) (by decide) hc
  split
  · exact .inr (.inr rfl)
  · exact .inr (.inl rfl)

/-- The magnitude of a nonzero number is a whole part, a fraction and an exponent. -/
theorem magnitude_eq {m : Magnitude} (h : 0 < m.coefficient) :
    ∃ whole fraction exponent, Decimal.json.magnitude m = whole ++ fraction ++ exponent ∧
      IsWhole whole ∧ IsFraction fraction ∧ IsExponent exponent := by
  obtain ⟨d, ds, hdigits, hne, hd, hds⟩ := Json.toDigits_of_pos h
  rw [Layout.magnitude, digits, hdigits]
  split
  · obtain ⟨whole, fraction, heq, hwhole, hfraction⟩ := placePoint_eq hne hd hds (m.leading + 1)
    exact ⟨whole, fraction, [], heq.trans (List.append_nil _).symm, hwhole, hfraction, .absent⟩
  · refine ⟨[d], if ds = [] then [] else '.' :: ds, _, ?_, .digits hd hne (by simp), ?_,
      isExponent_exponentText m.leading⟩
    · cases ds with
      | nil => rfl
      | cons c ds => rfl
    · split
      · exact .absent
      · next hnil => exact .digits hnil hds

/-! ## Numbers -/

theorem isInf_of_isFinite {x : Float} (h : x.isFinite = true) : x.isInf = false := by
  unfold Float.isFinite Float.Model.isFinite at h
  unfold Float.isInf Float.Model.isInf
  cases hx : x.toModel.unpack <;> rw [hx] at h <;> first | rfl | cases h

/-- Bits of which only the sign may be set are a zero. -/
theorem unpack_eq_zero {b : BitVec 64} (hfraction : b.toNat % Nat.pow 2 52 = 0)
    (hbiased : b.toNat / Nat.pow 2 52 % Nat.pow 2 11 = 0) :
    ∃ sign, UnpackedFloat.unpack Format.binary64 b = .zero sign := by
  have hmantissa : @UnpackedFloat.unpackMantissa Format.binary64 b = 0#52 := by
    apply BitVec.eq_of_toNat_eq
    rw [UnpackedFloat.unpackMantissa, BitVec.toNat_cast, BitVec.extractLsb_toNat]
    simpa using hfraction
  have hexponent : @UnpackedFloat.unpackExponent Format.binary64 b = 0#11 := by
    apply BitVec.eq_of_toNat_eq
    rw [UnpackedFloat.unpackExponent, BitVec.toNat_cast, BitVec.extractLsb_toNat,
      Nat.shiftRight_eq_div_pow]
    exact hbiased
  have hfinite : ¬ @UnpackedFloat.unpackExponent Format.binary64 b = -1#11 := by
    rw [hexponent]
    decide
  exact ⟨.ofBitVec (@UnpackedFloat.unpackSign Format.binary64 b),
    (if_neg hfinite).trans ((if_pos hexponent).trans (dif_pos hmantissa))⟩

/-- A number that is not a zero has a significand. -/
theorem significand_pos {x : Float} (h : (x == 0) = false) :
    0 < (Binary.ofFloat x).significand := by
  rcases Nat.eq_zero_or_pos (Binary.ofFloat x).significand with hzero | hpos
  · simp only [Binary.ofFloat] at hzero
    split at hzero
    · next hbiased =>
      obtain ⟨sign, hsign⟩ : ∃ sign, x.toModel.unpack = .zero sign := unpack_eq_zero hzero hbiased
      have hbeq : (x == 0) = UnpackedFloat.beq x.toModel.unpack (.zero .positive) := rfl
      rw [hbeq, hsign] at h
      cases h
    · exact absurd hzero (Nat.ne_of_gt (Nat.add_pos_left (by decide) _))
  · exact hpos

/-- A finite number is written as a literal. -/
theorem isLiteral_write {x : Float} (h : x.isFinite = true) :
    IsLiteral (Decimal.json.write x).toList := by
  have hparts : ∃ whole fraction exponent,
      (if x == 0 then ['0', '.', '0'] else json.magnitude ((Binary.ofFloat x).shortest json.tie)) =
        whole ++ fraction ++ exponent ∧ IsWhole whole ∧ IsFraction fraction ∧
          IsExponent exponent := by
    split
    · exact ⟨['0'], ['.', '0'], [], rfl, .zero, .digits (by simp) (by simp), .absent⟩
    · next hx => exact magnitude_eq (shortest_pos (significand_pos (Bool.eq_false_iff.2 hx)) _)
  obtain ⟨whole, fraction, exponent, heq, hwhole, hfraction, hexponent⟩ := hparts
  have hsign : (if isNegative x then ['-'] else []) = [] ∨
      (if isNegative x then ['-'] else []) = ['-'] := by
    split
    · exact .inr rfl
    · exact .inl rfl
  have hliteral := IsLiteral.mk hsign hwhole hfraction hexponent
  rw [List.append_assoc, List.append_assoc, ← List.append_assoc whole, ← heq] at hliteral
  rw [Layout.write, signed, Binary64.isNaN_of_isFinite h, isInf_of_isFinite h]
  simpa [show json.pointZero = true from rfl] using hliteral

end Decimal

end Lockstep
