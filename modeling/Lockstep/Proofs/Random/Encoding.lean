import Lockstep.Proofs.Binary64.Value

/-!
# The tensors that hold keys

A key is read from the tensors of two halves (`Random.Key.IsHalf`), and from each of them the one
key whose own tensor equals it; every other tensor is refused, with its shape or its first number
that is no half (`Random.Key.ofTensor_decodes`).
-/

namespace Lockstep.Random.Key

open Binary64 (value)

/-- A double is a whole number from 0 up to `2 ^ 32`, which is not included. -/
def IsHalf (x : Float) : Prop := ∃ n : Nat, n < Nat.pow 2 32 ∧ value x = some (n : ℚ)

/-- The shape and the numbers are those of the tensor of a key. -/
def Encodes (t : Tensor) : Prop := t.shape = [2] ∧ ∀ x ∈ t.data, IsHalf x

variable {x : Float} {n high low : UInt64} {t : Tensor} {k : Key}

/-! ## Halves -/

theorem half_eq_ok_iff :
    half x = .ok n ↔ n.toNat < Nat.pow 2 32 ∧ value x = some (n.toNat : ℚ) := by
  have hword : x.toUInt64 < 0x100000000 ↔ x.toUInt64.toNat < Nat.pow 2 32 :=
    UInt64.lt_iff_toNat_lt
  rw [half]
  constructor
  · intro h
    split at h
    · rename_i htest
      rw [Bool.and_eq_true, decide_eq_true_eq, hword] at htest
      obtain ⟨hlt, hbeq⟩ := htest
      obtain rfl : x.toUInt64 = n := Except.ok.inj h
      exact ⟨hlt, (Binary64.beq_toFloat_iff (Nat.lt_trans hlt (by decide))).1 hbeq⟩
    · cases h
  · rintro ⟨hlt, hx⟩
    have hwide : n.toNat < Nat.pow 2 53 := Nat.lt_trans hlt (by decide)
    have hback := Binary64.toUInt64_of_value hwide hx
    rw [hback] at hword ⊢
    rw [if_pos]
    rw [Bool.and_eq_true, decide_eq_true_eq, hword]
    exact ⟨hlt, (Binary64.beq_toFloat_iff hwide).2 hx⟩

theorem isHalf_iff : IsHalf x ↔ ∃ n, half x = .ok n := by
  constructor
  · rintro ⟨n, hlt, hx⟩
    have hword : (UInt64.ofNat n).toNat = n :=
      UInt64.toNat_ofNat_of_lt (Nat.lt_trans hlt (by decide))
    refine ⟨UInt64.ofNat n, half_eq_ok_iff.2 ?_⟩
    rw [hword]
    exact ⟨hlt, hx⟩
  · rintro ⟨n, h⟩
    obtain ⟨hlt, hx⟩ := half_eq_ok_iff.1 h
    exact ⟨n.toNat, hlt, hx⟩

theorem half_of_not_isHalf (h : ¬ IsHalf x) : half x = .error (.validation (.keyHalf x)) := by
  have hne := fun hok => h (isHalf_iff.2 ⟨x.toUInt64, hok⟩)
  rw [half] at hne ⊢
  split at hne
  · exact absurd rfl hne
  · rename_i hfails
    rw [if_neg hfails]

/-! ## Words made of halves -/

theorem high_join (hhigh : high.toNat < Nat.pow 2 32) (hlow : low.toNat < Nat.pow 2 32) :
    (high <<< 32 ||| low) >>> 32 = high := by
  refine UInt64.toNat_inj.1 ?_
  rw [UInt64.toNat_shiftRight, toNat_join hhigh hlow]
  change (_ : Nat) >>> 32 = _
  rw [Nat.shiftRight_eq_div_pow]
  simp only [Nat.pow_eq] at hlow ⊢
  omega

theorem low_join (hhigh : high.toNat < Nat.pow 2 32) (hlow : low.toNat < Nat.pow 2 32) :
    (high <<< 32 ||| low) &&& 0xFFFFFFFF = low := by
  have hmask : (0xFFFFFFFF : UInt64).toNat = 2 ^ 32 - 1 := rfl
  refine UInt64.toNat_inj.1 ?_
  rw [UInt64.toNat_and, hmask, Nat.and_two_pow_sub_one_eq_mod, toNat_join hhigh hlow]
  simp only [Nat.pow_eq] at hlow ⊢
  omega

theorem toTensor_join (hhigh : high.toNat < Nat.pow 2 32) (hlow : low.toNat < Nat.pow 2 32) :
    toTensor ⟨high <<< 32 ||| low⟩ = .vector [high.toFloat, low.toFloat] := by
  rw [toTensor, high_join hhigh hlow, low_join hhigh hlow]

/-! ## Tensors -/

/-- Two numbers fill the shape. -/
theorem exists_pair (h : t.shape = [2]) : ∃ a b, t = .vector [a, b] := by
  obtain ⟨shape, data, hfills⟩ := t
  obtain rfl : shape = [2] := h
  match data, hfills with
  | [a, b], _ => exact ⟨a, b, rfl⟩

theorem ofTensor_vector (a b : Float) :
    ofTensor (.vector [a, b]) = (do
      let high ← half a
      let low ← half b
      return ⟨high <<< 32 ||| low⟩) := rfl

theorem shape_of_ofTensor (h : ofTensor t = .ok k) : t.shape = [2] := by
  rw [ofTensor] at h
  split at h
  · assumption
  · cases h

/-- The key of two halves has them in its tensor. -/
theorem agrees_join {a b : Float} (ha : half a = .ok high) (hb : half b = .ok low) :
    (toTensor ⟨high <<< 32 ||| low⟩).agrees (.vector [a, b]) = true := by
  obtain ⟨hhigh, ha⟩ := half_eq_ok_iff.1 ha
  obtain ⟨hlow, hb⟩ := half_eq_ok_iff.1 hb
  have hbeq := (Binary64.beq_toFloat_iff (Nat.lt_trans hhigh (by decide))).2 ha
  have hbeq' := (Binary64.beq_toFloat_iff (Nat.lt_trans hlow (by decide))).2 hb
  rw [toTensor_join hhigh hlow]
  simp [Tensor.agrees, Tensor.vector, hbeq, hbeq']

/-- Numbers that equal the halves of a key are those halves. -/
theorem half_of_agrees {a b : Float} (h : k.toTensor.agrees (.vector [a, b]) = true) :
    half a = .ok (k.word >>> 32) ∧ half b = .ok (k.word &&& 0xFFFFFFFF) := by
  have hhigh := toNat_high_lt k.word
  have hlow := toNat_low_lt k.word
  simp only [Tensor.agrees, toTensor, Tensor.vector, List.zip_cons_cons, List.zip_nil_right,
    List.all_cons, List.all_nil, Bool.and_true, Bool.and_eq_true] at h
  obtain ⟨-, ha, hb⟩ := h
  exact ⟨half_eq_ok_iff.2
      ⟨hhigh, (Binary64.beq_toFloat_iff (Nat.lt_trans hhigh (by decide))).1 ha⟩,
    half_eq_ok_iff.2 ⟨hlow, (Binary64.beq_toFloat_iff (Nat.lt_trans hlow (by decide))).1 hb⟩⟩

theorem exists_ofTensor (h : Encodes t) : ∃ k, ofTensor t = .ok k := by
  obtain ⟨hshape, hhalves⟩ := h
  obtain ⟨a, b, rfl⟩ := exists_pair hshape
  obtain ⟨high, ha⟩ := isHalf_iff.1 (hhalves a (by simp [Tensor.vector]))
  obtain ⟨low, hb⟩ := isHalf_iff.1 (hhalves b (by simp [Tensor.vector]))
  rw [ofTensor_vector, ha, hb]
  exact ⟨_, rfl⟩

theorem ofTensor_eq_ok_iff :
    ofTensor t = .ok k ↔ Encodes t ∧ k.toTensor.agrees t = true := by
  constructor
  · intro h
    have hshape := shape_of_ofTensor h
    obtain ⟨a, b, rfl⟩ := exists_pair hshape
    rw [ofTensor_vector] at h
    obtain ⟨high, ha, h⟩ := Outcome.bind_eq_ok_iff.1 h
    obtain ⟨low, hb, h⟩ := Outcome.bind_eq_ok_iff.1 h
    obtain rfl := Except.ok.inj h
    refine ⟨⟨hshape, ?_⟩, agrees_join ha hb⟩
    intro x hx
    rcases List.mem_pair.1 hx with rfl | rfl
    · exact isHalf_iff.2 ⟨high, ha⟩
    · exact isHalf_iff.2 ⟨low, hb⟩
  · rintro ⟨⟨hshape, -⟩, hagrees⟩
    obtain ⟨a, b, rfl⟩ := exists_pair hshape
    obtain ⟨ha, hb⟩ := half_of_agrees hagrees
    rw [ofTensor_vector, ha, hb]
    exact congrArg (fun word => Except.ok (Key.mk word)) (high_or_low k.word)

theorem ofTensor_of_shape_ne (h : t.shape ≠ [2]) :
    ofTensor t = shapeMismatch "rng key" [2] t.shape := by
  rw [ofTensor]
  split
  · contradiction
  · rfl

/-- The first number that is no half is the one that the error names. -/
theorem ofTensor_of_not_isHalf {before after : List Float} (hshape : t.shape = [2])
    (hdata : t.data = before ++ x :: after) (hbefore : ∀ y ∈ before, IsHalf y) (hx : ¬ IsHalf x) :
    ofTensor t = .error (.validation (.keyHalf x)) := by
  obtain ⟨a, b, rfl⟩ := exists_pair hshape
  change [a, b] = before ++ x :: after at hdata
  rw [ofTensor_vector]
  match before with
  | [] =>
    obtain ⟨rfl, -⟩ := List.cons.inj hdata
    rw [half_of_not_isHalf hx]
    rfl
  | [y] =>
    obtain ⟨hy, hdata⟩ := List.cons.inj hdata
    obtain ⟨rfl, -⟩ := List.cons.inj hdata
    obtain ⟨high, hhigh⟩ := isHalf_iff.1 (hbefore y List.mem_cons_self)
    rw [← hy] at hhigh
    rw [hhigh, half_of_not_isHalf hx]
    rfl
  | y :: y' :: before =>
    have hlength := congrArg List.length hdata
    simp at hlength

/-- Keys are read from the tensors with two whole numbers below `2 ^ 32` and from nothing else, each
from the tensors that equal its own. -/
theorem ofTensor_decodes :
    (∀ k : Key, ofTensor k.toTensor = .ok k) ∧
      (∀ t k, ofTensor t = .ok k ↔ Encodes t ∧ k.toTensor.agrees t = true) ∧
      (∀ t, Encodes t ↔ ∃ k, ofTensor t = .ok k) ∧
      (∀ t : Tensor, t.shape ≠ [2] → ofTensor t = shapeMismatch "rng key" [2] t.shape) ∧
      ∀ (t : Tensor) (before : List Float) (x : Float) (after : List Float),
        t.shape = [2] → t.data = before ++ x :: after → (∀ y ∈ before, IsHalf y) → ¬ IsHalf x →
          ofTensor t = .error (.validation (.keyHalf x)) := by
  refine ⟨ofTensor_toTensor, fun _ _ => ofTensor_eq_ok_iff, fun t => ?_,
    fun _ => ofTensor_of_shape_ne, fun _ _ _ _ => ofTensor_of_not_isHalf⟩
  constructor
  · exact exists_ofTensor
  · rintro ⟨k, hk⟩
    exact (ofTensor_eq_ok_iff.1 hk).1

/-- The zero below zero stands for the half 0, and a number that is not whole for none. -/
theorem ofTensor_decodes_signedZero :
    (∃ k, ofTensor ⟨[2], [-0.0, 3], rfl⟩ = .ok k ∧
      k.toTensor.agrees ⟨[2], [-0.0, 3], rfl⟩ = true) ∧
      ofTensor ⟨[2], [3, 0.5], rfl⟩ = .error (.validation (.keyHalf 0.5)) ∧
      ofTensor (.scalar 3) = shapeMismatch "rng key" [2] [] := by
  obtain ⟨-, hkeys, hencodes, hshape, hfirst⟩ := ofTensor_decodes
  have hzero : IsHalf (-0.0) := ⟨0, by decide, by decide +kernel⟩
  have hthree : IsHalf 3 := ⟨3, by decide, by decide +kernel⟩
  have hother : ¬ IsHalf 0.5 := by
    rw [isHalf_iff]
    rintro ⟨n, hn⟩
    have hnone : (half 0.5).toOption.isNone = true := by decide +kernel
    rw [hn] at hnone
    cases hnone
  have hhalves : Encodes ⟨[2], [-0.0, 3], rfl⟩ :=
    ⟨rfl, List.forall_mem_cons.2 ⟨hzero, List.forall_mem_singleton.2 hthree⟩⟩
  obtain ⟨k, hk⟩ := (hencodes _).1 hhalves
  exact ⟨⟨k, hk, ((hkeys _ k).1 hk).2⟩,
    hfirst _ [3] 0.5 [] rfl rfl (List.forall_mem_singleton.2 hthree) hother,
    hshape (.scalar 3) (by decide)⟩

end Lockstep.Random.Key
