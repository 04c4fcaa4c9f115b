import Lockstep.Json.Parser
import Lockstep.Json.Basic
import Lockstep.Json.Reader
import Mathlib.Data.List.TakeDrop

/-!
# Number literals

`IsLiteral` says how a number is written, part by part. A literal is read off a text up to its end
when the text goes on as it does after an item (`numberLiteral_append`). What the writers make of
natural numbers and of finite numbers are literals (`isLiteral_toDigits`, `isLiteral_write`), and a
natural number is read back (`int_ofNat`).
-/

namespace Lockstep

namespace Json

/-- The text ends, or goes on as it does after an item. -/
def Follows (rest : List Char) : Prop := ∀ c ∈ rest.head?, c = ',' ∨ c = ']' ∨ c = '\x7d'

/-- The text does not go on with a digit. -/
def NoDigit (rest : List Char) : Prop := ∀ c ∈ rest.head?, c.isDigit = false

/-- A zero, or digits that do not start with one. -/
inductive IsWhole : List Char → Prop
  | zero : IsWhole ['0']
  | digits {d : Char} {ds : List Char} :
      d.isDigit = true → d ≠ '0' → (∀ c ∈ ds, c.isDigit = true) → IsWhole (d :: ds)

/-- Nothing, or a point and digits. -/
inductive IsFraction : List Char → Prop
  | absent : IsFraction []
  | digits {ds : List Char} :
      ds ≠ [] → (∀ c ∈ ds, c.isDigit = true) → IsFraction ('.' :: ds)

/-- Nothing, or an exponent with or without a sign. -/
inductive IsExponent : List Char → Prop
  | absent : IsExponent []
  | digits {sign ds : List Char} :
      sign = [] ∨ sign = ['+'] ∨ sign = ['-'] → ds ≠ [] → (∀ c ∈ ds, c.isDigit = true) →
        IsExponent ('e' :: sign ++ ds)

/-- The characters of a number. -/
inductive IsLiteral : List Char → Prop
  | mk {sign whole fraction exponent : List Char} :
      sign = [] ∨ sign = ['-'] → IsWhole whole → IsFraction fraction → IsExponent exponent →
        IsLiteral (sign ++ whole ++ fraction ++ exponent)

/-! ## Reading -/

theorem Follows.noDigit {rest : List Char} (h : Follows rest) : NoDigit rest := by
  intro c hc
  rcases h c hc with rfl | rfl | rfl <;> rfl

/-- The digits in front of anything else are read as far as they go. -/
theorem digitRun_append {ds rest : List Char} (hds : ∀ c ∈ ds, c.isDigit = true)
    (hrest : NoDigit rest) : digitRun (ds ++ rest) = (ds, rest) := by
  have hhead : rest.takeWhile Char.isDigit = [] ∧ rest.dropWhile Char.isDigit = rest := by
    cases rest with
    | nil => exact ⟨rfl, rfl⟩
    | cons c tl =>
      have hc := hrest c rfl
      exact ⟨by rw [List.takeWhile_cons, hc]; rfl, by rw [List.dropWhile_cons, hc]; rfl⟩
  rw [digitRun, List.span_eq_takeWhile_dropWhile, List.takeWhile_append_of_pos hds,
    List.dropWhile_append_of_pos hds, hhead.1, hhead.2, List.append_nil]

/-- So is the whole part of a literal. -/
theorem wholePart_append {whole rest : List Char} (h : IsWhole whole) (hrest : NoDigit rest) :
    wholePart (whole ++ rest) = some (whole, rest) := by
  cases h with
  | zero => rfl
  | @digits d ds hd hne hds =>
    have hrun : digitRun (d :: ds ++ rest) = (d :: ds, rest) :=
      digitRun_append (List.forall_mem_cons.2 ⟨hd, hds⟩) hrest
    rw [wholePart]
    · rw [hrun]
    · intro tl htl
      exact hne (List.cons.inj htl).1

/-- So is its fraction. -/
theorem fractionPart_append {fraction rest : List Char} (h : IsFraction fraction)
    (hrest : NoDigit rest) (hpoint : ∀ c ∈ rest.head?, c ≠ '.') :
    fractionPart (fraction ++ rest) = some (fraction, rest) := by
  cases h with
  | absent =>
    rw [List.nil_append, fractionPart]
    intro tl htl
    exact hpoint '.' (by rw [htl]; rfl) rfl
  | @digits ds hne hds =>
    rw [List.cons_append, fractionPart, digitRun_append hds hrest]
    cases ds with
    | nil => exact absurd rfl hne
    | cons d ds => rfl

/-- So is its exponent. -/
theorem exponentPart_append {exponent rest : List Char} (h : IsExponent exponent)
    (hrest : Follows rest) : exponentPart (exponent ++ rest) = some (exponent, rest) := by
  cases h with
  | absent =>
    cases rest with
    | nil => rfl
    | cons c tl =>
      rcases hrest c rfl with rfl | rfl | rfl <;> rfl
  | @digits sign ds hsign hne hds =>
    have hrun := digitRun_append hds hrest.noDigit
    obtain ⟨d, ds, rfl⟩ := List.exists_cons_of_ne_nil hne
    rcases hsign with rfl | rfl | rfl
    · -- the first digit is not taken for a sign
      have hd := hds d List.mem_cons_self
      show exponentPart ('e' :: (d :: ds ++ rest)) = _
      rw [exponentPart, if_pos (by decide), hrun]
      all_goals
        intro r heq
        obtain ⟨rfl, -⟩ := List.cons.inj heq
        cases hd
    · show exponentPart ('e' :: '+' :: (d :: ds ++ rest)) = _
      rw [exponentPart, if_pos (by decide), hrun]
    · show exponentPart ('e' :: '-' :: (d :: ds ++ rest)) = _
      rw [exponentPart, if_pos (by decide), hrun]

theorem IsWhole.head_isDigit {whole : List Char} (h : IsWhole whole) :
    ∃ d ds, whole = d :: ds ∧ d.isDigit = true := by
  cases h with
  | zero => exact ⟨_, _, rfl, rfl⟩
  | digits hd _ _ => exact ⟨_, _, rfl, hd⟩

/-- A literal is read up to its end. -/
theorem numberLiteral_append {cs rest : List Char} (h : IsLiteral cs) (hrest : Follows rest) :
    numberLiteral (cs ++ rest) = some (cs, rest) := by
  obtain ⟨hsign, hwhole, hfraction, hexponent⟩ := h
  next sign whole fraction exponent =>
  -- what stands behind each part shows where the part ends
  have hpoint : NoDigit (exponent ++ rest) ∧ ∀ c ∈ (exponent ++ rest).head?, c ≠ '.' := by
    cases hexponent with
    | absent =>
      refine ⟨hrest.noDigit, fun c hc => ?_⟩
      rcases hrest c hc with rfl | rfl | rfl <;> decide
    | digits _ _ _ => exact ⟨fun c hc => by cases hc; rfl, fun c hc => by cases hc; decide⟩
  have hdigit : NoDigit (fraction ++ (exponent ++ rest)) := by
    cases hfraction with
    | absent => exact hpoint.1
    | digits _ _ => exact fun c hc => by cases hc; rfl
  have hparts : ((wholePart (whole ++ (fraction ++ (exponent ++ rest)))).bind fun w =>
      (fractionPart w.2).bind fun f => (exponentPart f.2).bind fun e =>
        some (sign ++ w.1 ++ f.1 ++ e.1, e.2)) =
        some (sign ++ whole ++ fraction ++ exponent, rest) := by
    rw [wholePart_append hwhole hdigit, Option.bind_some,
      fractionPart_append hfraction hpoint.1 hpoint.2, Option.bind_some,
      exponentPart_append hexponent hrest, Option.bind_some]
  obtain ⟨d, ds, rfl, hd⟩ := hwhole.head_isDigit
  have happend : sign ++ (d :: ds) ++ fraction ++ exponent ++ rest =
      sign ++ (d :: ds ++ (fraction ++ (exponent ++ rest))) := by
    simp only [List.append_assoc]
  rw [happend]
  rcases hsign with rfl | rfl
  · rw [numberLiteral]
    · exact hparts
    · rintro r heq
      obtain ⟨rfl, -⟩ := List.cons.inj heq
      cases hd
  · exact hparts

/-! ## Natural numbers -/

/-- The digits of a positive number do not start with a zero. -/
theorem toDigits_of_pos {n : Nat} (h : 0 < n) :
    ∃ d ds, Nat.toDigits 10 n = d :: ds ∧ d ≠ '0' ∧ d.isDigit = true ∧
      ∀ c ∈ ds, c.isDigit = true := by
  induction n using Nat.base_induction 10 (by decide) with
  | single m hm =>
    have hne : ∀ m < 10, 0 < m → m.digitChar ≠ '0' := by decide
    exact ⟨m.digitChar, [], Nat.toDigits_of_lt_base hm, hne m hm h,
      by rw [Nat.isDigit_digitChar, decide_eq_true hm], by simp⟩
  | digit m k hk hm ih =>
    obtain ⟨d, ds, hdigits, hne, hd, hds⟩ := ih hm
    refine ⟨d, ds ++ [k.digitChar], ?_, hne, hd, fun c hc => ?_⟩
    · rw [← Nat.toDigits_append_toDigits (by decide) hm hk, hdigits, Nat.toDigits_of_lt_base hk,
        List.cons_append]
    · rcases List.mem_append.1 hc with hc | hc
      · exact hds c hc
      · rw [List.mem_singleton.1 hc, Nat.isDigit_digitChar, decide_eq_true hk]

theorem isWhole_toDigits (n : Nat) : IsWhole (Nat.toDigits 10 n) := by
  rcases Nat.eq_zero_or_pos n with rfl | h
  · exact .zero
  · obtain ⟨d, ds, hdigits, hne, hd, hds⟩ := toDigits_of_pos h
    rw [hdigits]
    exact .digits hd hne hds

theorem isLiteral_toDigits (n : Nat) : IsLiteral (Nat.toDigits 10 n) := by
  have h := IsLiteral.mk (.inl rfl) (isWhole_toDigits n) .absent .absent
  rwa [List.nil_append, List.append_nil, List.append_nil] at h

/-- The digits of a number are read as that number. -/
theorem digitsValue_toDigits (n : Nat) : Read.digitsValue (Nat.toDigits 10 n) = n := by
  have h := Nat.ofDigitChars_ten_toDigits (n := n)
  rw [Nat.ofDigitChars_eq_foldl] at h
  simp only [Nat.mul_comm 10] at h
  exact h

/-- The literal of a natural number has no sign, no point and no exponent. -/
theorem ofString_toString (n : Nat) :
    Read.Literal.ofString (toString n) = ⟨false, n, 0, true⟩ := by
  have hlist : (toString n).toList = Nat.toDigits 10 n := Nat.toList_repr
  have hdigits : ∀ c ∈ Nat.toDigits 10 n, c.isDigit = true :=
    fun c hc => Nat.isDigit_of_mem_toDigits (by decide) (by decide) hc
  have hrun : digitRun (Nat.toDigits 10 n ++ []) = _ :=
    digitRun_append hdigits fun c hc => by cases hc
  rw [List.append_nil, digitRun] at hrun
  have hvalue := digitsValue_toDigits n
  obtain ⟨d, ds, heq, hd⟩ := (isWhole_toDigits n).head_isDigit
  rw [heq] at hrun hvalue
  rw [Read.Literal.ofString, hlist, heq]
  split
  next negative cs hsign =>
  split at hsign
  · next r hr =>
    -- a minus sign is no digit
    obtain ⟨rfl, -⟩ := List.cons.inj hr
    cases hd
  · obtain ⟨rfl, rfl⟩ := Prod.mk.inj hsign
    rw [hrun]
    simp only [List.append_nil, hvalue, List.drop_nil]
    rfl

/-- A natural number is read back if it is in the range. -/
theorem int_ofNat {low high : Int} {n : Nat} (hlow : low ≤ n) (hhigh : n ≤ high) (d : Nat) :
    Read.int low high d (ofNat n) = some (n : Int) := by
  rw [ofNat, Read.int, ofString_toString]
  show (if low ≤ (n : Int) ∧ (n : Int) ≤ high then some (n : Int) else none) = _
  rw [if_pos ⟨hlow, hhigh⟩]

theorem nat_ofNat {n : Nat} (h : n < Nat.pow 2 64) (d : Nat) : Read.nat d (ofNat n) = some n := by
  have hhigh : (n : Int) ≤ Int.pow 2 64 - 1 := by
    have hpow : Int.pow 2 64 = (Nat.pow 2 64 : Int) := by decide
    omega
  rw [Read.nat, int_ofNat (Int.natCast_nonneg n) hhigh]
  rfl

theorem word_ofNat (w : UInt64) (d : Nat) : Read.word d (ofNat w.toNat) = some w := by
  rw [Read.word, nat_ofNat w.toNat_lt, Option.map_some, UInt64.ofNat_toNat]

end Json

end Lockstep
