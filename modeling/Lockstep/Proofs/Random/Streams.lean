import Lockstep.Proofs.Outcome
import Lockstep.Workflow.Step
import Mathlib.Logic.Function.Basic

/-!
# Streams of calls

Mixing a word is a bijection (`Random.Key.bijective_mix`): adding a constant, adding the high bits
of a word to its low ones and multiplying by an odd word can each be undone. So a key can be
recovered from the key that is derived from it and the datum, and the datum from the two keys
(`Random.Key.fold_left_inj`, `Random.Key.fold_right_inj`).

Where a call takes place is a `CallSite`. Its stream is numbered by the stage and seeded by a word
that is derived from all else, so a call that differs in one coordinate draws from another stream.
Lanes with different keys differ in two coordinates, and for each other lane there is one key with
which a call there has the same seed (`CallSite.existsUnique_key`).
-/

namespace Lockstep

namespace Random.Key

/-! ## Words -/

theorem bijective_add (c : UInt64) : Function.Bijective (· + c) :=
  Function.bijective_iff_has_inverse.2
    ⟨(· - c), fun z => UInt64.add_sub_cancel z c, fun z => UInt64.sub_add_cancel z c⟩

/-- A multiplier with an inverse loses nothing. -/
theorem bijective_mul {c d : UInt64} (h : c * d = 1) : Function.Bijective (· * c) := by
  have hback : ∀ {a b : UInt64}, a * b = 1 → ∀ z : UInt64, z * a * b = z := by
    intro a b hab z
    rw [UInt64.mul_assoc, hab, UInt64.mul_one]
  exact Function.bijective_iff_has_inverse.2
    ⟨(· * d), hback h, hback ((UInt64.mul_comm d c).trans h)⟩

/-- A shift by at least a third of the bits of a word, so that no bit is left after three. -/
def IsThird (n : UInt64) : Prop := 64 ≤ 3 * n.toNat ∧ n.toNat < 64

instance (n : UInt64) : Decidable (IsThird n) := inferInstanceAs (Decidable (_ ∧ _))

/-- A word whose high bits are added to its low ones, without carries. -/
def spread (n z : UInt64) : UInt64 := z ^^^ z >>> n

/-- What `spread` was given. -/
def gather (n z : UInt64) : UInt64 := z ^^^ z >>> n ^^^ z >>> n >>> n

theorem shiftRight_thrice {n : UInt64} (hn : IsThird n) (z : UInt64) :
    z >>> n >>> n >>> n = 0 := by
  obtain ⟨hthird, hlt⟩ := hn
  have hmod : n.toNat % 64 = n.toNat := Nat.mod_eq_of_lt hlt
  refine UInt64.toNat_inj.1 ?_
  rw [UInt64.toNat_shiftRight, UInt64.toNat_shiftRight, UInt64.toNat_shiftRight, hmod,
    ← Nat.shiftRight_add, ← Nat.shiftRight_add, Nat.shiftRight_eq_div_pow]
  refine Nat.div_eq_of_lt (Nat.lt_of_lt_of_le z.toNat_lt ?_)
  exact Nat.pow_le_pow_right (by decide) (by omega)

/-- In either order, all but the word and the word after three shifts cancels. -/
theorem gather_spread {n : UInt64} (hn : IsThird n) (z : UInt64) : gather n (spread n z) = z := by
  have hcancel : ∀ a b : UInt64, a ^^^ (a ^^^ b) = b := by
    intro a b
    rw [← UInt64.xor_assoc, UInt64.xor_self, UInt64.zero_xor]
  rw [gather, spread, UInt64.shiftRight_xor, UInt64.shiftRight_xor, shiftRight_thrice hn,
    UInt64.xor_zero, UInt64.xor_assoc, UInt64.xor_assoc, UInt64.xor_assoc, hcancel,
    UInt64.xor_self, UInt64.xor_zero]

theorem spread_gather {n : UInt64} (hn : IsThird n) (z : UInt64) : spread n (gather n z) = z := by
  rw [gather, spread, UInt64.shiftRight_xor, UInt64.shiftRight_xor, shiftRight_thrice hn,
    UInt64.xor_zero, UInt64.xor_assoc z, UInt64.xor_assoc z, UInt64.xor_self, UInt64.xor_zero]

theorem bijective_spread {n : UInt64} (hn : IsThird n) : Function.Bijective (spread n) :=
  Function.bijective_iff_has_inverse.2 ⟨gather n, gather_spread hn, spread_gather hn⟩

/-! ## Keys -/

/-- Every operation of `mix` can be undone. -/
theorem bijective_mix : Function.Bijective mix := by
  have hfirst := bijective_mul (c := 0xBF58476D1CE4E5B9) (d := 0x96DE1B173F119089) (by decide)
  have hsecond := bijective_mul (c := 0x94D049BB133111EB) (d := 0x319642B2D24D8EC3) (by decide)
  have hspread : ∀ n : UInt64, IsThird n → Function.Bijective (spread n) :=
    fun _ => bijective_spread
  exact (hspread 31 (by decide)).comp <| hsecond.comp <| (hspread 27 (by decide)).comp <|
    hfirst.comp <| (hspread 30 (by decide)).comp <| bijective_add 0x9E3779B97F4A7C15

theorem mix_inj {x y : UInt64} : mix x = mix y ↔ x = y := bijective_mix.injective.eq_iff

theorem ofSeed_inj {seed seed' : UInt64} : ofSeed seed = ofSeed seed' ↔ seed = seed' := by
  rw [ofSeed, ofSeed, mk.injEq, mix_inj]

/-- Keys derived with one datum are equal only for equal keys. -/
theorem fold_left_inj {k k' : Key} {datum : UInt64} : k.fold datum = k'.fold datum ↔ k = k' := by
  obtain ⟨word⟩ := k
  obtain ⟨word'⟩ := k'
  rw [fold, fold, mk.injEq, mix_inj, UInt64.xor_left_inj, mk.injEq]

/-- Keys derived from one key are equal only for equal data. -/
theorem fold_right_inj {k : Key} {datum datum' : UInt64} :
    k.fold datum = k.fold datum' ↔ datum = datum' := by
  rw [fold, fold, mk.injEq, mix_inj, UInt64.xor_right_inj, mix_inj, UInt64.add_left_inj]

theorem bijective_fold (datum : UInt64) : Function.Bijective fun k : Key => k.fold datum := by
  refine ⟨fun _ _ => fold_left_inj.1, fun k' => ?_⟩
  obtain ⟨z, hz⟩ := bijective_mix.surjective k'.word
  refine ⟨⟨z ^^^ mix (datum + 0x9E3779B97F4A7C15)⟩, ?_⟩
  dsimp only
  rw [fold, UInt64.xor_assoc, UInt64.xor_self, UInt64.xor_zero, hz]

end Random.Key

open Lockstep.Random

/-! ## Call sites -/

/-- Where a call takes place. -/
structure CallSite where
  key : Key
  generation : UInt64
  node : UInt64
  lane : UInt64
  stage : UInt64

namespace CallSite

/-- The place of the call with a context. -/
def of (node : NodeContext) (key : Key) (generation : UInt64) (lane : Nat) (stage : UInt64) :
    CallSite :=
  ⟨key, generation, .ofNat node.id, .ofNat lane, stage⟩

/-- The word that seeds the stream of a call. -/
def seed (c : CallSite) : UInt64 := (((c.key.fold c.generation).fold c.node).fold c.lane).word

/-- The stream of a call. -/
def random (c : CallSite) : Generator := .new c.seed c.stage

/-- Calls have equal seeds when the keys derived for their nodes and lanes are equal. -/
theorem seed_inj {c c' : CallSite} :
    c.seed = c'.seed ↔ ((c.key.fold c.generation).fold c.node).fold c.lane =
      ((c'.key.fold c'.generation).fold c'.node).fold c'.lane :=
  Key.mk.injEq .. ▸ Iff.rfl

/-- A key can be recovered from the seed of a call. -/
theorem bijective_seed (c : CallSite) : Function.Bijective fun key => { c with key }.seed := by
  have hword : Function.Bijective Key.word :=
    ⟨fun _ _ h => congrArg Key.mk h, fun word => ⟨⟨word⟩, rfl⟩⟩
  exact hword.comp <| (Key.bijective_fold c.lane).comp <| (Key.bijective_fold c.node).comp <|
    Key.bijective_fold c.generation

/-- In every lane there is one key with which a call has the seed of this one. -/
theorem existsUnique_key (c : CallSite) (lane : UInt64) :
    ∃! key, { c with key, lane }.seed = c.seed :=
  (bijective_seed { c with lane }).existsUnique c.seed

/-- Lanes of a batch that share a key differ in one coordinate only. -/
theorem seed_ne_of_lanes {node : NodeContext} {x y : Lane} {i j : Nat} {stage : UInt64}
    (hkey : x.key = y.key) (hgeneration : x.generation = y.generation) (hi : i < UInt64.size)
    (hj : j < UInt64.size) (hne : i ≠ j) :
    (of node x.key x.generation i stage).seed ≠ (of node y.key y.generation j stage).seed := by
  intro h
  rw [seed_inj, of, of, hkey, hgeneration, Key.fold_right_inj] at h
  have hnat : (UInt64.ofNat i).toNat = (UInt64.ofNat j).toNat := congrArg UInt64.toNat h
  rw [UInt64.toNat_ofNat_of_lt' hi, UInt64.toNat_ofNat_of_lt' hj] at hnat
  exact hne hnat

/-- The stream of a call is numbered by its stage and seeded by a word that changes with each of
the key, the generation, the node and the lane. So lanes of a batch that share a key never draw
from one stream in one stage, and with each key of a lane there is one key of another lane with
which they do. -/
theorem random_changes_with_every_coordinate :
    Function.Bijective Key.mix ∧ Function.Injective Key.ofSeed ∧
    (∀ k : Key, Function.Injective k.fold) ∧
    (∀ datum, Function.Injective fun k : Key => k.fold datum) ∧
    (∀ node key generation lane stage,
      (StepContext.new node key generation lane stage).random =
        (of node key generation lane stage).random) ∧
    (∀ c : CallSite,
      (∀ key, { c with key }.seed = c.seed ↔ key = c.key) ∧
      (∀ generation, { c with generation }.seed = c.seed ↔ generation = c.generation) ∧
      (∀ node, { c with node }.seed = c.seed ↔ node = c.node) ∧
      (∀ lane, { c with lane }.seed = c.seed ↔ lane = c.lane) ∧
      (∀ stage, { c with stage }.seed = c.seed ∧
        ({ c with stage }.random.stream = c.random.stream ↔ stage = c.stage)) ∧
      ∀ lane, ∃! key, { c with key, lane }.seed = c.seed) ∧
    (∀ (node : NodeContext) (x y : Lane) (i j : Nat) (stage : UInt64),
      x.key = y.key → x.generation = y.generation →
      i < UInt64.size → j < UInt64.size → i ≠ j →
      (of node x.key x.generation i stage).seed ≠ (of node y.key y.generation j stage).seed) := by
  refine ⟨Key.bijective_mix, fun _ _ => Key.ofSeed_inj.1, fun _ _ _ => Key.fold_right_inj.1,
    fun _ _ _ => Key.fold_left_inj.1, fun _ _ _ _ _ => rfl, fun c => ?_, ?_⟩
  · refine ⟨fun key => ?_, fun generation => ?_, fun node => ?_, fun lane => ?_,
      fun _ => ⟨rfl, Iff.rfl⟩, existsUnique_key c⟩
    · -- a coordinate is folded into the key of those before it, and both arguments can be got back
      rw [seed_inj, Key.fold_left_inj, Key.fold_left_inj, Key.fold_left_inj]
    · rw [seed_inj, Key.fold_left_inj, Key.fold_left_inj, Key.fold_right_inj]
    · rw [seed_inj, Key.fold_left_inj, Key.fold_right_inj]
    · rw [seed_inj, Key.fold_right_inj]
  · intro node x y i j stage hkey hgeneration hi hj hne
    exact seed_ne_of_lanes hkey hgeneration hi hj hne

/-- The first two lanes of a batch with one key. -/
theorem random_changes_with_every_coordinate_of_two_lanes :
    let lane : Lane := ⟨{}, Key.ofSeed 3, 0⟩
    0 < UInt64.size ∧ 1 < UInt64.size ∧
    (of .root lane.key lane.generation 0 askStream).seed ≠
      (of .root lane.key lane.generation 1 askStream).seed :=
  ⟨by decide, by decide, random_changes_with_every_coordinate.2.2.2.2.2.2 .root _ _ 0 1 _ rfl rfl
    (by decide) (by decide) (by decide)⟩

/-- What the root holds at the start of a run from a seed. -/
def rootSpecimen (seed : UInt64) : State :=
  State.empty.withNode "" (.ofList [(Workflow.generationAttribute, .tensor (.scalar 0)),
    (Workflow.keyAttribute, .tensor (Key.ofSeed seed).toTensor)])

/-- Lanes with different keys can draw from one stream: in this batch both do when the problem is
evaluated. -/
theorem lanes_of_two_seeds_share_a_stream :
    ∃ batch states x y,
      State.stack [rootSpecimen 3, rootSpecimen 9157951281738597165] = .ok batch ∧
      batch.flatten = .ok states ∧ states.mapM Workflow.laneOf = .ok [x, y] ∧
      x.generation = y.generation ∧
      (Workflow.stepContext ⟨2, "problem"⟩ x 0 evaluateStream).random =
        (Workflow.stepContext ⟨2, "problem"⟩ y 1 evaluateStream).random := by
  have hread : (do
      let batch ← State.stack [rootSpecimen 3, rootSpecimen 9157951281738597165]
      let states ← batch.flatten
      let lanes ← states.mapM Workflow.laneOf
      return lanes.map fun lane => (lane.key, lane.generation) : Outcome (List (Key × UInt64))) =
      .ok [(Key.ofSeed 3, 0), (Key.ofSeed 9157951281738597165, 0)] := by
    decide +kernel
  obtain ⟨batch, hbatch, hread⟩ := Outcome.bind_eq_ok_iff.1 hread
  obtain ⟨states, hstates, hread⟩ := Outcome.bind_eq_ok_iff.1 hread
  obtain ⟨lanes, hlanes, hread⟩ := Outcome.bind_eq_ok_iff.1 hread
  obtain ⟨x, rest, rfl, hx, hrest⟩ := List.map_eq_cons_iff.1 (Except.ok.inj hread)
  obtain ⟨y, rest, rfl, hy, hnil⟩ := List.map_eq_cons_iff.1 hrest
  obtain rfl := List.map_eq_nil_iff.1 hnil
  obtain ⟨hxkey, hxgeneration⟩ := Prod.mk.inj hx
  obtain ⟨hykey, hygeneration⟩ := Prod.mk.inj hy
  refine ⟨batch, states, x, y, hbatch, hstates, hlanes, hxgeneration.trans hygeneration.symm, ?_⟩
  rw [Workflow.stepContext, Workflow.stepContext, hxkey, hykey, hxgeneration, hygeneration]
  exact congrArg (fun seed => Generator.new seed evaluateStream) (by decide)

end CallSite

end Lockstep
