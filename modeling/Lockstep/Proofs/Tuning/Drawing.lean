import Lockstep.Proofs.Random.Range
import Lockstep.Proofs.Tuning.Grid
import Lockstep.Proofs.Tuning.Requests

/-!
# Settings that are drawn

A draw from a valid range succeeds exactly when its ends are so close together that the length is a
finite number (`ParameterRange.exists_draw_iff`), and it stays within the range. So a valid search
space says what random settings look like (`RandomSearch.suggestEach_follows_space`), but not that
there are any: ranges with infinite ends, or with ends that are too far apart, are valid as well.
-/

namespace Lockstep

open Lockstep.Random

/-! ## One draw -/

namespace ParameterRange

/-- The length of the range is a finite number, and on a logarithmic scale the ends are still in
order. -/
def Drawable : ParameterRange → Prop
  | .numbers low high => ((high - low) / greatestFraction).isFinite = true
  | .integers .. => True
  | .logarithmic low high =>
    low.log ≤ high.log ∧ ((high.log - low.log) / greatestFraction).isFinite = true
  | .choice _ => True

/-- The values in the range. -/
def Holds : ParameterRange → ParameterValue → Prop
  | .numbers low high, v => ∃ x, v = .number x ∧ low ≤ x ∧ x ≤ high
  | .integers low high, v => ∃ n, v = .integer n ∧ low ≤ n ∧ n ≤ high
  | .logarithmic low high, v => ∃ x : Float, v = .number x.exp ∧ low.log ≤ x ∧ x ≤ high.log
  | .choice values, v => ∃ x ∈ values, v = .number x

variable {range : ParameterRange} {g g' : Generator} {v : ParameterValue}

theorem exists_draw_iff (hvalid : range.isValid = true) :
    (∃ r, range.draw g = .ok r) ↔ range.Drawable := by
  cases range with
  | numbers low high =>
    refine Iff.trans (exists_bind_eq_ok_iff ?_) (Generator.exists_between_iff.trans ?_)
    · exact fun _ => ⟨_, rfl⟩
    · exact and_iff_right (of_decide_eq_true hvalid)
  | integers low high =>
    refine Iff.trans (exists_bind_eq_ok_iff ?_) (Generator.exists_betweenIntegers_iff.trans ?_)
    · exact fun _ => ⟨_, rfl⟩
    · exact iff_true_intro (of_decide_eq_true hvalid)
  | logarithmic low high =>
    refine Iff.trans (exists_bind_eq_ok_iff ?_) Generator.exists_between_iff
    exact fun _ => ⟨_, rfl⟩
  | choice values =>
    refine Iff.trans (exists_bind_eq_ok_iff ?_) (Generator.exists_item_iff.trans ?_)
    · exact fun _ => ⟨_, rfl⟩
    · refine iff_true_intro ?_
      rintro rfl
      cases hvalid

theorem holds_of_draw (h : range.draw g = .ok (v, g')) : range.Holds v := by
  cases range with
  | numbers low high =>
    obtain ⟨⟨x, _⟩, hx, h⟩ := exists_of_bind_eq_ok h
    obtain ⟨rfl, -⟩ := Prod.mk.inj (Except.ok.inj h)
    exact ⟨x, rfl, Generator.mem_of_between hx⟩
  | integers low high =>
    obtain ⟨⟨n, _⟩, hn, h⟩ := exists_of_bind_eq_ok h
    obtain ⟨rfl, -⟩ := Prod.mk.inj (Except.ok.inj h)
    exact ⟨n, rfl, Generator.mem_of_betweenIntegers hn⟩
  | logarithmic low high =>
    obtain ⟨⟨x, _⟩, hx, h⟩ := exists_of_bind_eq_ok h
    obtain ⟨rfl, -⟩ := Prod.mk.inj (Except.ok.inj h)
    exact ⟨x, rfl, Generator.mem_of_between hx⟩
  | choice values =>
    obtain ⟨⟨x, _⟩, hx, h⟩ := exists_of_bind_eq_ok h
    obtain ⟨rfl, -⟩ := Prod.mk.inj (Except.ok.inj h)
    exact ⟨x, Generator.mem_of_item hx, rfl⟩

end ParameterRange

/-! ## One setting -/

/-- Every declared path has a value in its range, the range that is declared last, and no other path
has a value. -/
def SearchSpace.Admits (space : SearchSpace) (setting : Setting) : Prop :=
  Table.Matching (fun v range => ParameterRange.Holds range v) setting (Table.ofList space)

theorem drawInto_cons_eq_ok {space : SearchSpace} {e : String × ParameterRange}
    {start setting : Setting} {g g' : Generator}
    (h : drawInto start g (e :: space) = .ok (setting, g')) :
    ∃ v between, e.2.draw g = .ok (v, between) ∧
      drawInto (Table.insert e.1 v start) between space = .ok (setting, g') := by
  obtain ⟨path, range⟩ := e
  obtain ⟨⟨v, between⟩, hv, h⟩ := exists_of_bind_eq_ok h
  exact ⟨v, between, hv, h⟩

theorem exists_drawInto_iff {space : SearchSpace} (hvalid : ∀ e ∈ space, e.2.isValid = true) :
    ∀ {start : Setting} {g : Generator},
      (∃ r, drawInto start g space = .ok r) ↔ ∀ e ∈ space, e.2.Drawable := by
  -- whether a draw succeeds depends on neither the stream nor the values before it
  induction space with
  | nil =>
    intro start g
    exact ⟨fun _ => nofun, fun _ => ⟨_, rfl⟩⟩
  | cons e space ih =>
    intro start g
    obtain ⟨hfirst, hrest⟩ := List.forall_mem_cons.1 hvalid
    rw [List.forall_mem_cons]
    constructor
    · rintro ⟨⟨setting, g'⟩, h⟩
      obtain ⟨v, between, hv, h⟩ := drawInto_cons_eq_ok h
      exact ⟨(ParameterRange.exists_draw_iff hfirst).1 ⟨_, hv⟩, (ih hrest).1 ⟨_, h⟩⟩
    · rintro ⟨hdraw, hall⟩
      obtain ⟨⟨v, between⟩, hv⟩ := (ParameterRange.exists_draw_iff (g := g) hfirst).2 hdraw
      obtain ⟨r, hr⟩ : ∃ r, drawInto (Table.insert e.1 v start) between space = .ok r :=
        (ih hrest).2 hall
      refine ⟨r, ?_⟩
      rw [drawInto, hv]
      exact hr

/-- Draws put values of their ranges beside those that are there. -/
theorem matching_of_drawInto {space : SearchSpace} :
    ∀ {start setting : Setting} {ranges : Table ParameterRange} {g g' : Generator},
      Table.Matching (fun v range => ParameterRange.Holds range v) start ranges →
      drawInto start g space = .ok (setting, g') →
      Table.Matching (fun v range => ParameterRange.Holds range v) setting
        (Table.union ranges space) := by
  induction space with
  | nil =>
    intro start setting ranges g g' hstart h
    obtain ⟨rfl, -⟩ := Prod.mk.inj (Except.ok.inj h)
    exact hstart
  | cons e space ih =>
    intro start setting ranges g g' hstart h
    obtain ⟨v, between, hv, h⟩ := drawInto_cons_eq_ok h
    exact ih (hstart.insert e.1 (ParameterRange.holds_of_draw hv)) h

theorem admits_of_drawInto {space : SearchSpace} {setting : Setting} {g g' : Generator}
    (h : drawInto [] g space = .ok (setting, g')) : space.Admits setting :=
  matching_of_drawInto .nil h

/-! ## Many settings -/

namespace RandomSearch

variable {r r' : RandomSearch} {settings : List Setting}

/-- A stream keeps its space, and gives settings of it. -/
theorem admits_of_suggest : ∀ {count : Nat} {r : RandomSearch} {settings : List Setting},
    r.suggest count = .ok (settings, r') →
      r'.space = r.space ∧ ∀ setting ∈ settings, r.space.Admits setting
  | 0, r, settings, h => by
    obtain ⟨rfl, rfl⟩ := Prod.mk.inj (Except.ok.inj h)
    exact ⟨rfl, nofun⟩
  | count + 1, r, settings, h => by
    obtain ⟨setting, g, rest, hdraw, hrest, rfl⟩ := suggest_succ_eq_ok h
    obtain ⟨hspace, hall⟩ := admits_of_suggest hrest
    exact ⟨hspace, List.forall_mem_cons.2 ⟨admits_of_drawInto hdraw, hall⟩⟩

/-- A request for no settings is always answered, and any other one if all ranges can be drawn
from. -/
theorem exists_suggest_iff : ∀ {count : Nat} {r : RandomSearch},
    (∀ e ∈ r.space, e.2.isValid = true) →
      ((∃ s, r.suggest count = .ok s) ↔ count = 0 ∨ ∀ e ∈ r.space, e.2.Drawable)
  | 0, r, _ => ⟨fun _ => .inl rfl, fun _ => ⟨_, rfl⟩⟩
  | count + 1, r, hvalid => by
    constructor
    · rintro ⟨⟨settings, r'⟩, h⟩
      obtain ⟨setting, g, rest, hdraw, -⟩ := suggest_succ_eq_ok h
      exact .inr ((exists_drawInto_iff hvalid).1 ⟨_, hdraw⟩)
    · intro h
      have hall := h.resolve_left (Nat.succ_ne_zero count)
      obtain ⟨⟨setting, g⟩, hdraw⟩ : ∃ s, drawInto [] r.generator r.space = .ok s :=
        (exists_drawInto_iff hvalid).2 hall
      obtain ⟨⟨rest, r'⟩, hrest⟩ : ∃ s, suggest count { r with generator := g } = .ok s :=
        (exists_suggest_iff (r := { r with generator := g }) hvalid).2 (.inr hall)
      refine ⟨(setting :: rest, r'), ?_⟩
      rw [suggest, hdraw]
      change (suggest count { r with generator := g } >>= _) = _
      rw [hrest]
      rfl

/-- The batches of several requests, each of them made where the one before ended. -/
def suggestEach : List Nat → RandomSearch → Except Abort (List (List Setting) × RandomSearch)
  | [], r => .ok ([], r)
  | count :: counts, r => do
    let (batch, r) ← r.suggest count
    let (batches, r) ← suggestEach counts r
    return (batch :: batches, r)

theorem suggestEach_cons_eq_ok {count : Nat} {counts : List Nat} {batches : List (List Setting)}
    (h : suggestEach (count :: counts) r = .ok (batches, r')) :
    ∃ batch between rest, r.suggest count = .ok (batch, between) ∧
      suggestEach counts between = .ok (rest, r') ∧ batches = batch :: rest := by
  obtain ⟨⟨batch, between⟩, hone, h⟩ := exists_of_bind_eq_ok h
  obtain ⟨⟨rest, last⟩, hrest, h⟩ := exists_of_bind_eq_ok h
  obtain ⟨rfl, rfl⟩ := Prod.mk.inj (Except.ok.inj h)
  exact ⟨batch, between, rest, hone, hrest, rfl⟩

/-- The batches have the sizes that were asked for, and together they are what one request for all
of them gives. -/
theorem suggest_of_suggestEach :
    ∀ {counts : List Nat} {r : RandomSearch} {batches : List (List Setting)},
      suggestEach counts r = .ok (batches, r') →
        batches.map List.length = counts ∧ r.suggest counts.sum = .ok (batches.flatten, r')
  | [], r, batches, h => by
    obtain ⟨rfl, rfl⟩ := Prod.mk.inj (Except.ok.inj h)
    exact ⟨rfl, rfl⟩
  | count :: counts, r, batches, h => by
    obtain ⟨batch, between, rest, hone, hrest, rfl⟩ := suggestEach_cons_eq_ok h
    obtain ⟨hlengths, hall⟩ := suggest_of_suggestEach hrest
    rw [List.map_cons, hlengths, length_suggest hone]
    exact ⟨rfl, suggest_add hone hall⟩

theorem exists_suggestEach_iff : ∀ {counts : List Nat} {r : RandomSearch},
    (∀ e ∈ r.space, e.2.isValid = true) →
      ((∃ s, suggestEach counts r = .ok s) ↔ counts.sum = 0 ∨ ∀ e ∈ r.space, e.2.Drawable)
  | [], r, _ => ⟨fun _ => .inl rfl, fun _ => ⟨_, rfl⟩⟩
  | count :: counts, r, hvalid => by
    rw [List.sum_cons, Nat.add_eq_zero_iff]
    constructor
    · rintro ⟨⟨batches, r'⟩, h⟩
      obtain ⟨batch, between, rest, hone, hrest, -⟩ := suggestEach_cons_eq_ok h
      obtain ⟨hspace, -⟩ := admits_of_suggest hone
      have hfirst := (exists_suggest_iff hvalid).1 ⟨_, hone⟩
      rw [← hspace] at hvalid hfirst ⊢
      have hlater := (exists_suggestEach_iff hvalid).1 ⟨_, hrest⟩
      tauto
    · intro h
      -- the stream that answers the next requests is another one, for the same space
      have hone : count = 0 ∨ ∀ e ∈ r.space, e.2.Drawable := h.imp_left And.left
      obtain ⟨⟨batch, between⟩, hone⟩ := (exists_suggest_iff hvalid).2 hone
      obtain ⟨hspace, -⟩ := admits_of_suggest hone
      rw [← hspace] at hvalid h
      obtain ⟨⟨rest, r'⟩, hrest⟩ : ∃ s, suggestEach counts between = .ok s :=
        (exists_suggestEach_iff hvalid).2 (h.imp_left And.right)
      refine ⟨(batch :: rest, r'), ?_⟩
      rw [suggestEach, hone]
      change (suggestEach counts between >>= _) = _
      rw [hrest]
      rfl

/-- **What random search suggests for a valid space.** Requests are answered exactly when they ask
for nothing or every range can be drawn from. Then each batch has as many settings as were asked
for, and each setting has exactly the declared paths, with an integer between the bounds, a number
between the bounds, the exponential of a number between the logarithms of the bounds, or one of the
listed numbers. Other requests for as many settings in all are answered with the same settings, and
leave the same stream. -/
theorem suggestEach_follows_space {space : SearchSpace} (hvalid : space.validate = .ok ())
    (seed : UInt64) (counts : List Nat) :
    ((∃ s, (RandomSearch.new space seed).suggestEach counts = .ok s) ↔
      counts.sum = 0 ∨ ∀ e ∈ space, e.2.Drawable) ∧
    ∀ batches r, suggestEach counts (.new space seed) = .ok (batches, r) →
      batches.map List.length = counts ∧
      (∀ batch ∈ batches, ∀ setting ∈ batch, space.Admits setting) ∧
      ∀ counts' : List Nat, counts'.sum = counts.sum → ∃ batches',
        suggestEach counts' (.new space seed) = .ok (batches', r) ∧
          batches'.flatten = batches.flatten := by
  have hranges : ∀ e ∈ (RandomSearch.new space seed).space, e.2.isValid = true :=
    (SearchSpace.validate_eq_ok_iff.1 hvalid).2
  refine ⟨exists_suggestEach_iff hranges, fun batches r h => ?_⟩
  obtain ⟨hlengths, hall⟩ := suggest_of_suggestEach h
  refine ⟨hlengths, fun batch hbatch setting hsetting => ?_, fun counts' hsum => ?_⟩
  · exact (admits_of_suggest hall).2 setting (List.mem_flatten.2 ⟨batch, hbatch, hsetting⟩)
  · have hanswered := (exists_suggestEach_iff hranges).1 ⟨_, h⟩
    rw [← hsum] at hanswered hall
    obtain ⟨⟨batches', r'⟩, h'⟩ := (exists_suggestEach_iff hranges).2 hanswered
    obtain ⟨-, hall'⟩ := suggest_of_suggestEach h'
    obtain ⟨hflatten, rfl⟩ := Prod.mk.inj (Except.ok.inj (hall'.symm.trans hall))
    exact ⟨batches', h', hflatten⟩

/-- All integers, some numbers and a choice. -/
def wideSpace : SearchSpace := [("size", .integers Int64.minValue Int64.maxValue),
  ("rate", .numbers (-1) 1), ("kind", .choice [2, 3])]

theorem suggestEach_follows_space_wideSpace :
    ∃ batches batches' r, suggestEach [2, 1] (.new wideSpace 7) = .ok (batches, r) ∧
      suggestEach [1, 0, 2] (.new wideSpace 7) = .ok (batches', r) ∧
      batches.map List.length = [2, 1] ∧ batches'.flatten = batches.flatten := by
  have hvalid : wideSpace.validate = .ok () := by decide +kernel
  obtain ⟨hanswered, hbatches⟩ := suggestEach_follows_space hvalid 7 [2, 1]
  have hdrawable : ∀ e ∈ wideSpace, e.2.Drawable := by
    simp only [wideSpace, List.forall_mem_cons, ParameterRange.Drawable, true_and]
    exact ⟨by decide +kernel, nofun⟩
  obtain ⟨⟨batches, r⟩, h⟩ := hanswered.2 (.inr hdrawable)
  obtain ⟨hlengths, -, hsplit⟩ := hbatches batches r h
  obtain ⟨batches', h', hflatten⟩ := hsplit [1, 0, 2] rfl
  exact ⟨batches, batches', r, h, h', hlengths, hflatten⟩

/-- Two numbers whose distance is beyond all doubles. -/
def vastSpace : SearchSpace := [("rate", .numbers (-1e308) 1e308)]

/-- The bounds of a valid space may be so far apart that there is no draw. -/
theorem validate_admits_undrawable :
    vastSpace.validate = .ok () ∧
      Prod.fst <$> suggestEach [1] (.new vastSpace 0) = .error .unboundedRange := by
  decide +kernel

end RandomSearch

end Lockstep
