import Lockstep.Proofs.Monitor.Summary
import Lockstep.Proofs.Workflow.Notes

/-!
# The events of the evaluation monitor

Which events the monitor sends when it is shown an evaluation is a function of the evaluations
before it (`sent`): a report of the rows that are not finite, and for a fitness with one number for
each candidate a new best number when the lowest number goes down, or else stagnation when it has
not gone down for just as long as configured (`events_of_run`). So the numbers that are sent as best
go down (`lt_of_sends_newBest`), and stagnation is sent once at most before the next one
(`exists_newBest_between`).
-/

namespace Lockstep

namespace EvaluationMonitor

/-! ## What is sent -/

instance (rs : List Evaluated) (j : Nat) : Decidable (Improves rs j) :=
  inferInstanceAs (Decidable (_ < _))

/-- How many of the first evaluations, as many as given, there are since the last improvement. -/
def streakAt (rs : List Evaluated) : Nat → Nat
  | 0 => 0
  | j + 1 => if Improves rs j then 0 else streakAt rs j + 1

/-- How many evaluations there are since the last improvement, or since the start. -/
def streak (rs : List Evaluated) : Nat := streakAt rs rs.length

/-- An event about an evaluation. -/
def Evaluated.event (e : Evaluated) (level : EventLevel) (kind : EventKind) : Event :=
  ⟨level, kind, e.context.node.displayPath, e.context.generation, e.context.lane⟩

/-- The count of rows with a number that is not finite. -/
def Evaluated.unusable (e : Evaluated) : Nat :=
  (e.fitness.rows.filter fun row => !isFiniteRow row.data).length

/-- The report of rows that are not finite, if there are any. -/
def usabilityEvents (e : Evaluated) : List Event :=
  if 0 < e.unusable then [e.event .warning (.nonFinite e.unusable e.fitness.rows.length)] else []

/-- The report of stagnation, if there is just as much of it as configured. -/
def stagnationEvents (c : EvaluationConfig) (rs : List Evaluated) (e : Evaluated) : List Event :=
  match c.stagnationWindow with
  | none => []
  | some window =>
    if streak (rs ++ [e]) = window.toNat then [e.event .warning (.stagnation window)] else []

/-- What is sent about an evaluation that is ranked after others. -/
def rankedEvents (c : EvaluationConfig) (rs : List Evaluated) (e : Evaluated) : List Event :=
  if lowestOf (rs ++ [e]) < lowestOf rs then
    [e.event .info (.newBest (lowestOf (rs ++ [e]))
      (if (lowestOf rs).isFinite then some (lowestOf rs) else none))]
  else stagnationEvents c rs e

/-- What is sent about an evaluation after others. -/
def eventsAfter (c : EvaluationConfig) (before : List Evaluated) (e : Evaluated) : List Event :=
  usabilityEvents e ++ if e.fitness.rank = 1 then rankedEvents c (ranked before) e else []

/-- What is sent about the evaluation with an index. -/
def sent (c : EvaluationConfig) (calls : List Evaluated) (j : Nat) : List Event :=
  calls[j]?.elim [] (eventsAfter c (calls.take j))

/-- The local state after the monitor was shown an evaluation, with its events. -/
def shown (c : EvaluationConfig) (l : LocalState) (e : Evaluated) : Traced LocalState := do
  let seen ← (Monitor.evaluation c true).observe e.context l (.postEval e.candidates e.fitness)
  return seen.getD l

/-- The local state after the monitor started and was shown some evaluations, with its events. -/
def watched (c : EvaluationConfig) (node : NodeContext) (g : Random.Generator)
    (calls : List Evaluated) : Traced LocalState := do
  calls.foldlM (shown c) (← (Monitor.evaluation c true).component.init node g)

variable {c : EvaluationConfig} {l l' : LocalState} {rs calls : List Evaluated} {e : Evaluated}
  {node : NodeContext} {g : Random.Generator}

/-! ## Streaks -/

/-- One more evaluation does not change the streaks before it. -/
theorem streakAt_snoc (rs : List Evaluated) (e : Evaluated) :
    ∀ {j}, j ≤ rs.length → streakAt (rs ++ [e]) j = streakAt rs j
  | 0, _ => rfl
  | j + 1, hj => by
    rw [streakAt, streakAt, streakAt_snoc rs e (Nat.le_of_lt hj)]
    simp only [improves_snoc_iff hj]

/-- It adds one to the streak, or starts it again. -/
theorem streak_snoc (rs : List Evaluated) (e : Evaluated) :
    streak (rs ++ [e]) = if lowestOf (rs ++ [e]) < lowestOf rs then 0 else streak rs + 1 := by
  rw [streak, List.length_append, List.length_singleton, streakAt,
    streakAt_snoc rs e (Nat.le_refl _)]
  simp only [improves_last_iff, streak]

theorem streak_le_length (rs : List Evaluated) : streak rs ≤ rs.length := by
  have hle : ∀ j, streakAt rs j ≤ j := by
    intro j
    induction j with
    | zero => exact Nat.le_refl 0
    | succ j ih =>
      rw [streakAt]
      split
      · exact Nat.zero_le _
      · exact Nat.succ_le_succ ih
  exact hle rs.length

/-- The streak is the count of evaluations since the last improvement. -/
theorem stagnated_streak (rs : List Evaluated) : Stagnated rs (streak rs) := by
  induction rs using List.reverseRecOn with
  | nil => exact .nil
  | append_singleton rs e ih =>
    rw [streak_snoc]
    split
    · next hlt => exact .snoc_of_improves (improves_last_iff.2 hlt)
    · next hnot => exact ih.snoc (mt improves_last_iff.1 hnot)

/-- There is one last improvement only. -/
theorem Stagnated.unique {k k' : Nat} (h : Stagnated rs k) (h' : Stagnated rs k') : k = k' := by
  have hle : ∀ {k k'}, Stagnated rs k → Stagnated rs k' → k ≤ k' := by
    rintro k k' ⟨m, hm, -, hsince⟩ ⟨m', hm', hlast, -⟩
    by_contra hlt
    rcases hlast with rfl | himproves
    · omega
    · exact hsince (m' - 1) (by omega) (by omega) himproves
  exact Nat.le_antisymm (hle h h') (hle h' h)

/-! ## One evaluation -/

theorem notes_report (ctx : HookContext) (level : EventLevel) (kind : EventKind) :
    (report true ctx level kind).notes =
      [.event ⟨level, kind, ctx.node.displayPath, ctx.generation, ctx.lane⟩] := rfl

/-- What is kept of the stagnation is the length of the streak. -/
theorem KeepsStagnation.number (h : KeepsStagnation rs l) :
    l.number "stagnation" = .ok (UInt64.ofNat (streak rs)).toFloat := by
  obtain ⟨k, hk, hnumber⟩ := h
  rwa [hk.unique (stagnated_streak rs)] at hnumber

/-- The window is compared to the streak, as long as this is short of all words. -/
theorem window_eq_iff {window : Option UInt64} {k : Nat} (hk : k < Nat.pow 2 53) :
    window = some (.ofNat k) ↔ ∃ w, window = some w ∧ k = w.toNat := by
  have hword := ofNat_toNat_of_lt hk
  constructor
  · exact fun h => ⟨.ofNat k, h, hword.symm⟩
  · rintro ⟨w, rfl, rfl⟩
    rw [UInt64.ofNat_toNat]

/-- A fitness that is ranked after others sends what the others ask for. -/
theorem notes_recordBest (h : Ranks c rs l) (hlength : rs.length + 1 < Nat.pow 2 53)
    (hl : (recordBest c true e.context l e.candidates e.fitness.data).outcome = .ok l') :
    (recordBest c true e.context l e.candidates e.fitness.data).notes =
      (rankedEvents c rs e).map Note.event := by
  obtain ⟨candidate, hbest, hfirst, -⟩ := id h.best
  rw [recordBest, Traced.liftM_bind_of_ok hbest] at hl ⊢
  rw [rankedEvents]
  split
  · next index f himprovement =>
    -- a new lowest fitness: the streak starts again and the improvement is reported
    rw [himprovement] at hl
    obtain ⟨hlower, hnext⟩ := isFirstLowest_of_improvement hfirst himprovement
    obtain rfl := eq_lowestOf hnext
    simp only [Traced.outcome_bind, Traced.outcome_liftM] at hl
    obtain ⟨improved, himproved, -⟩ := Outcome.bind_eq_ok_iff.1 hl
    rw [Traced.liftM_bind_of_ok himproved, if_pos hlower, Traced.notes_bind_of_ok (x := ()) rfl,
      Traced.notes_liftM, notes_report]
    rfl
  · next himprovement =>
    -- No new lowest fitness. The streak is kept as a number of 64 bits and compared as a word; both
    -- count it right as long as it is below `2 ^ 53`.
    obtain ⟨hsame, -⟩ := h.best.of_not_improved himprovement
    have hnot : ¬ lowestOf (rs ++ [e]) < lowestOf rs := by
      rw [hsame]
      exact Binary64.not_lt_self hfirst.number
    have hstreak : streak (rs ++ [e]) = streak rs + 1 := by rw [streak_snoc, if_neg hnot]
    have hle := streak_le_length rs
    have hword := ofNat_toNat_of_lt (n := streak rs) (by omega)
    have hnumber : (UInt64.ofNat (streak rs)).toFloat + 1 =
        (UInt64.ofNat (streak rs + 1)).toFloat := by
      rw [Binary64.toFloat_add_one (by rw [hword]; omega), UInt64.ofNat_add]
      rfl
    have hback : (UInt64.ofNat (streak rs + 1)).toFloat.toUInt64 = UInt64.ofNat (streak rs + 1) :=
      Binary64.toUInt64_toFloat (by rw [ofNat_toNat_of_lt (by omega)]; omega)
    rw [if_neg hnot, stagnationEvents, Traced.liftM_bind_of_ok h.stagnation.number]
    dsimp only
    rw [hnumber, hback, hstreak]
    by_cases hwindow : c.stagnationWindow = some (.ofNat (streak rs + 1))
    · obtain ⟨w, hw, hk⟩ := (window_eq_iff (by omega)).1 hwindow
      rw [if_pos hwindow, hw]
      dsimp only
      rw [if_pos hk, Traced.notes_bind_of_ok (x := ()) rfl, Traced.notes_liftM, notes_report, hk,
        UInt64.ofNat_toNat]
      rfl
    · rw [if_neg hwindow, Traced.notes_liftM]
      split
      · rfl
      · next w hw =>
        rw [if_neg fun hk => hwindow ((window_eq_iff (by omega)).2 ⟨w, hw, hk⟩)]
        rfl

/-- Recording an evaluation sends just what the evaluations before it ask for. -/
theorem notes_record (h : Ranks c (ranked calls) l)
    (hranked : (ranked (calls ++ [e])).length < Nat.pow 2 53)
    (hl : (record c true e.context l e.candidates e.fitness).outcome = .ok l') :
    (record c true e.context l e.candidates e.fitness).notes =
      (eventsAfter c calls e).map Note.event := by
  obtain ⟨count, after, hcount, hafter, hlast⟩ := record_eq_ok hl
  rw [record, Traced.liftM_bind_of_ok hcount] at hl ⊢
  dsimp only at hl ⊢
  rw [Traced.liftM_bind_of_ok (wordOf_eq_ok_iff.2 hafter)] at hl ⊢
  rw [headD_shape] at hl ⊢
  generalize after.toFloat = x at hl hlast ⊢
  rw [eventsAfter, List.map_append]
  -- what comes after the report of the rows that are not finite
  have hrest : (if e.fitness.rank = 1 then recordBest c true e.context (l.setNumber "evaluations" x)
      e.candidates e.fitness.data else pure (l.setNumber "evaluations" x)).notes =
        (if e.fitness.rank = 1 then rankedEvents c (ranked calls) e else []).map Note.event := by
    split
    · next hrank =>
      rw [if_pos hrank] at hlast
      rw [ranked_snoc, if_pos hrank, List.length_append, List.length_singleton] at hranked
      exact notes_recordBest (h.setEvaluations x) hranked hlast
    · rfl
  split at hl
  · cases hl
  · next hscalar =>
    rw [if_neg hscalar, usabilityEvents, Evaluated.unusable]
    split
    · rw [Traced.notes_bind_of_ok (x := ()) rfl, hrest]
      rfl
    · exact hrest

theorem outcome_shown (c : EvaluationConfig) (l : LocalState) (e : Evaluated) :
    (shown c l e).outcome = observed c true l e := Traced.outcome_bind _ _

/-- Showing an evaluation sends what recording it sends. -/
theorem notes_shown (c : EvaluationConfig) (l : LocalState) (e : Evaluated) :
    (shown c l e).notes = (record c true e.context l e.candidates e.fitness).notes := by
  rw [shown, Traced.notes_bind_pure]
  exact Traced.notes_bind_pure _ _

/-! ## A whole run -/

theorem watched_nil (c : EvaluationConfig) (node : NodeContext) (g : Random.Generator) :
    watched c node g [] = liftM (initialState c) := bind_pure _

/-- A run goes on from where an earlier one stopped. -/
theorem watched_append (c : EvaluationConfig) (node : NodeContext) (g : Random.Generator)
    (calls later : List Evaluated) :
    watched c node g (calls ++ later) = watched c node g calls >>= later.foldlM (shown c) := by
  simp only [watched, List.foldlM_append, bind_assoc]

theorem watched_snoc (c : EvaluationConfig) (node : NodeContext) (g : Random.Generator)
    (calls : List Evaluated) (e : Evaluated) :
    watched c node g (calls ++ [e]) = watched c node g calls >>= fun l => shown c l e := by
  simp only [watched_append, List.foldlM_cons, List.foldlM_nil, bind_pure]

/-- No evaluation takes away from those that are ranked. -/
theorem length_ranked_le (calls : List Evaluated) (e : Evaluated) :
    (ranked calls).length ≤ (ranked (calls ++ [e])).length := by
  rw [ranked, ranked, List.filter_append, List.length_append]
  exact Nat.le_add_right ..

/-- After every run the monitor knows how it ranked what it was shown. -/
theorem ranks_of_watched (h : (watched c node g calls).outcome = .ok l)
    (hranked : (ranked calls).length < Nat.pow 2 53) : Ranks c (ranked calls) l := by
  induction calls using List.reverseRecOn generalizing l with
  | nil =>
    rw [watched_nil] at h
    obtain ⟨-, rfl⟩ := initialState_eq_ok_iff.1 h
    exact .firstState c
  | append_singleton calls e ih =>
    rw [watched_snoc, Traced.outcome_bind] at h
    obtain ⟨before, hbefore, h⟩ := Outcome.bind_eq_ok_iff.1 h
    have hsame := ih hbefore (Nat.lt_of_le_of_lt (length_ranked_le calls e) hranked)
    rw [outcome_shown] at h
    exact hsame.record hranked (observed_eq_ok h)

/-- What is sent about one more evaluation depends on those before it. -/
theorem notes_shown_of_watched (h : (watched c node g calls).outcome = .ok l)
    (hl : (shown c l e).outcome = .ok l')
    (hranked : (ranked (calls ++ [e])).length < Nat.pow 2 53) :
    (shown c l e).notes = (eventsAfter c calls e).map Note.event := by
  rw [outcome_shown] at hl
  rw [notes_shown]
  exact notes_record (ranks_of_watched h (Nat.lt_of_le_of_lt (length_ranked_le calls e) hranked))
    hranked (observed_eq_ok hl)

/-! ## The indices of evaluations -/

theorem take_succ_of_getElem? {j : Nat} (h : calls[j]? = some e) :
    calls.take (j + 1) = calls.take j ++ [e] := by
  rw [List.take_add_one, h, Option.toList_some]

/-- What is sent about an evaluation, from the ones before it. -/
theorem sent_of_getElem? {j : Nat} (h : calls[j]? = some e) :
    sent c calls j = eventsAfter c (calls.take j) e := by
  rw [sent, h, Option.elim_some]

/-- Only an evaluation that was shown sends anything. -/
theorem exists_getElem?_of_mem_sent {j : Nat} {event : Event} (h : event ∈ sent c calls j) :
    ∃ e, calls[j]? = some e ∧ event ∈ eventsAfter c (calls.take j) e := by
  cases he : calls[j]? with
  | none =>
    rw [sent, he] at h
    cases h
  | some e => exact ⟨e, rfl, sent_of_getElem? he ▸ h⟩

/-- Later evaluations do not change what was sent about earlier ones. -/
theorem sent_snoc {j : Nat} (hj : j < calls.length) : sent c (calls ++ [e]) j = sent c calls j := by
  rw [sent, sent, List.getElem?_append_left hj, take_snoc (Nat.le_of_lt hj)]

/-- A run that succeeds sends the events about one evaluation after those about another. -/
theorem notes_watched (h : (watched c node g calls).outcome = .ok l)
    (hranked : (ranked calls).length < Nat.pow 2 53) :
    (watched c node g calls).notes =
      ((List.range calls.length).flatMap (sent c calls)).map Note.event := by
  induction calls using List.reverseRecOn generalizing l with
  | nil =>
    rw [watched_nil, Traced.notes_liftM]
    rfl
  | append_singleton calls e ih =>
    rw [watched_snoc, Traced.outcome_bind] at h
    obtain ⟨before, hbefore, h⟩ := Outcome.bind_eq_ok_iff.1 h
    have hlast : sent c (calls ++ [e]) calls.length = eventsAfter c calls e := by
      rw [sent_of_getElem? List.getElem?_concat_length, List.take_left]
    have hothers : (List.range calls.length).flatMap (sent c (calls ++ [e])) =
        (List.range calls.length).flatMap (sent c calls) :=
      List.flatMap_congr fun j hj => sent_snoc (List.mem_range.1 hj)
    rw [watched_snoc, Traced.notes_bind_of_ok hbefore,
      ih hbefore (Nat.lt_of_le_of_lt (length_ranked_le calls e) hranked),
      notes_shown_of_watched hbefore h hranked, List.length_append, List.length_singleton,
      List.range_succ, List.flatMap_append, List.flatMap_singleton, hothers, hlast, List.map_append]

/-- What runs, runs up to every evaluation and shows it. -/
theorem exists_watched_take (h : (watched c node g calls).outcome = .ok l) {j : Nat}
    (hj : calls[j]? = some e) :
    ∃ before after, (watched c node g (calls.take j)).outcome = .ok before ∧
      (shown c before e).outcome = .ok after := by
  have hsplit : calls = calls.take j ++ [e] ++ calls.drop (j + 1) := by
    rw [← take_succ_of_getElem? hj, List.take_append_drop]
  rw [hsplit, watched_append, Traced.outcome_bind] at h
  obtain ⟨after, hafter, -⟩ := Outcome.bind_eq_ok_iff.1 h
  rw [watched_snoc, Traced.outcome_bind] at hafter
  obtain ⟨before, hbefore, hafter⟩ := Outcome.bind_eq_ok_iff.1 hafter
  exact ⟨before, after, hbefore, hafter⟩

/-! ## Best numbers and stagnation -/

/-- A new best number is sent about the evaluation with an index. -/
def SendsNewBest (c : EvaluationConfig) (calls : List Evaluated) (j : Nat) (x : Float) : Prop :=
  ∃ previous, .newBest x previous ∈ (sent c calls j).map Event.kind

/-- Stagnation is sent about the evaluation with an index. -/
def SendsStagnation (c : EvaluationConfig) (calls : List Evaluated) (j : Nat) : Prop :=
  ∃ window, .stagnation window ∈ (sent c calls j).map Event.kind

/-- The lowest number of the first evaluations. -/
def lowestUpTo (calls : List Evaluated) (j : Nat) : Float := lowestOf (ranked (calls.take j))

/-- The length of the streak after the first evaluations. -/
def streakUpTo (calls : List Evaluated) (j : Nat) : Nat := streak (ranked (calls.take j))

variable {i j : Nat} {x y : Float}

theorem ranked_take_succ (h : calls[j]? = some e) :
    ranked (calls.take (j + 1)) =
      if e.fitness.rank = 1 then ranked (calls.take j) ++ [e] else ranked (calls.take j) := by
  rw [take_succ_of_getElem? h, ranked_snoc]

/-- Rows that are not finite are neither a new best number nor stagnation. -/
theorem kind_of_usability {kind : EventKind} (h : kind ∈ (usabilityEvents e).map Event.kind) :
    kind = .nonFinite e.unusable e.fitness.rows.length := by
  rw [usabilityEvents] at h
  split at h
  · exact List.mem_singleton.1 h
  · cases h

/-- Stagnation is sent when the streak is as long as the window. -/
theorem kind_of_stagnation {kind : EventKind}
    (h : kind ∈ (stagnationEvents c rs e).map Event.kind) :
    ∃ w, c.stagnationWindow = some w ∧ streak (rs ++ [e]) = w.toNat ∧ kind = .stagnation w := by
  rw [stagnationEvents] at h
  split at h
  · cases h
  · next w hw =>
    split at h
    · next hstreak => exact ⟨w, hw, hstreak, List.mem_singleton.1 h⟩
    · cases h

/-- What is sent, apart from rows that are not finite, is about an evaluation that is ranked. -/
theorem kind_of_sent {kind : EventKind} (h : kind ∈ (sent c calls j).map Event.kind)
    (hkind : ∀ count total, kind ≠ .nonFinite count total) :
    ∃ e, calls[j]? = some e ∧ e.fitness.rank = 1 ∧
      kind ∈ (rankedEvents c (ranked (calls.take j)) e).map Event.kind := by
  obtain ⟨event, hevent, rfl⟩ := List.mem_map.1 h
  obtain ⟨e, he, hevent⟩ := exists_getElem?_of_mem_sent hevent
  rw [eventsAfter, List.mem_append] at hevent
  rcases hevent with hevent | hevent
  · exact absurd (kind_of_usability (List.mem_map_of_mem hevent)) (hkind _ _)
  · split at hevent
    · next hrank => exact ⟨e, he, hrank, List.mem_map_of_mem hevent⟩
    · cases hevent

/-- A new best number is the lowest so far, and lower than the ones before. -/
theorem lower_of_sendsNewBest (h : SendsNewBest c calls j x) :
    x = lowestUpTo calls (j + 1) ∧ lowestUpTo calls (j + 1) < lowestUpTo calls j := by
  obtain ⟨previous, hmem⟩ := h
  obtain ⟨e, he, hrank, hmem⟩ := kind_of_sent hmem nofun
  rw [lowestUpTo, lowestUpTo, ranked_take_succ he, if_pos hrank]
  rw [rankedEvents] at hmem
  split at hmem
  · next hlower =>
    injection List.mem_singleton.1 hmem with hx
    exact ⟨hx, hlower⟩
  · obtain ⟨w, -, -, hkind⟩ := kind_of_stagnation hmem
    cases hkind

/-- The lowest number goes down only with a new best number. -/
theorem sendsNewBest_of_lower (h : lowestUpTo calls (j + 1) < lowestUpTo calls j) :
    SendsNewBest c calls j (lowestUpTo calls (j + 1)) := by
  have hirreflexive : ¬ lowestUpTo calls j < lowestUpTo calls j :=
    Binary64.not_lt_self (isLowest_smallest _).isNaN
  cases he : calls[j]? with
  | none =>
    have hlength := List.getElem?_eq_none_iff.1 he
    rw [lowestUpTo, lowestUpTo, List.take_of_length_le hlength,
      List.take_of_length_le (Nat.le_succ_of_le hlength)] at h
    exact absurd h (Binary64.not_lt_self (isLowest_smallest _).isNaN)
  | some e =>
    rw [lowestUpTo, ranked_take_succ he] at h ⊢
    split at h
    · next hrank =>
      have hlower : lowestOf (ranked (calls.take j) ++ [e]) < lowestOf (ranked (calls.take j)) := h
      refine ⟨if (lowestUpTo calls j).isFinite then some (lowestUpTo calls j) else none, ?_⟩
      rw [if_pos hrank, sent_of_getElem? he, eventsAfter, if_pos hrank, rankedEvents,
        if_pos hlower, List.map_append]
      exact List.mem_append_right _ (List.mem_singleton.2 rfl)
    · exact absurd h hirreflexive

/-- Stagnation is sent at the end of a streak that is as long as the window. -/
theorem stagnates_of_sends (h : SendsStagnation c calls j) :
    ∃ w, c.stagnationWindow = some w ∧ streakUpTo calls (j + 1) = w.toNat ∧
      streakUpTo calls (j + 1) = streakUpTo calls j + 1 := by
  obtain ⟨window, hmem⟩ := h
  obtain ⟨e, he, hrank, hmem⟩ := kind_of_sent hmem nofun
  rw [streakUpTo, streakUpTo, ranked_take_succ he, if_pos hrank]
  rw [rankedEvents] at hmem
  split at hmem
  · cases List.mem_singleton.1 hmem
  · next hnot =>
    obtain ⟨w, hw, hstreak, -⟩ := kind_of_stagnation hmem
    exact ⟨w, hw, hstreak, by rw [streak_snoc, if_neg hnot]⟩

/-- Without a new best number the streak does not end. -/
theorem streakUpTo_le_succ (h : ∀ x, ¬ SendsNewBest c calls j x) :
    streakUpTo calls j ≤ streakUpTo calls (j + 1) := by
  have hnot : ¬ lowestUpTo calls (j + 1) < lowestUpTo calls j :=
    fun hlower => h _ (sendsNewBest_of_lower hlower)
  cases he : calls[j]? with
  | none =>
    have hlength := List.getElem?_eq_none_iff.1 he
    rw [streakUpTo, streakUpTo, List.take_of_length_le hlength,
      List.take_of_length_le (Nat.le_succ_of_le hlength)]
  | some e =>
    rw [lowestUpTo, lowestUpTo, ranked_take_succ he] at hnot
    rw [streakUpTo, streakUpTo, ranked_take_succ he]
    split
    · next hrank =>
      rw [if_pos hrank] at hnot
      rw [streak_snoc, if_neg hnot]
      exact Nat.le_succ _
    · exact Nat.le_refl _

/-- As long as no new best number is sent, the streak does not become shorter. -/
theorem streakUpTo_le (hij : i ≤ j) (h : ∀ k x, i ≤ k → k < j → ¬ SendsNewBest c calls k x) :
    streakUpTo calls i ≤ streakUpTo calls j := by
  induction j, hij using Nat.le_induction with
  | base => exact Nat.le_refl _
  | succ j hij ih =>
    have hbefore := ih fun k x hik hkj => h k x hik (Nat.lt_succ_of_lt hkj)
    exact Nat.le_trans hbefore (streakUpTo_le_succ fun x => h j x hij (Nat.lt_succ_self j))

/-- More evaluations do not raise the lowest number. -/
theorem place_lowestUpTo_le (hij : i ≤ j) :
    Binary64.place (lowestUpTo calls j) ≤ Binary64.place (lowestUpTo calls i) := by
  have hsplit := (List.take_append_drop i (calls.take j)).symm
  rw [List.take_take, Nat.min_eq_left hij] at hsplit
  rw [lowestUpTo, lowestUpTo, hsplit, ranked, List.filter_append, ← ranked, lowestOf, lowestOf,
    List.flatMap_append]
  have hall := isLowest_smallest ((ranked (calls.take i)).flatMap (·.fitness.data) ++
    (((calls.take j).drop i).filter (·.fitness.rank = 1)).flatMap (·.fitness.data))
  have hsome := isLowest_smallest ((ranked (calls.take i)).flatMap (·.fitness.data))
  obtain ⟨y, hy, hequal⟩ := hsome.mem
  obtain ⟨hnumber, hynumber⟩ := Binary64.isNaN_of_beq hequal
  rw [Binary64.beq_iff_place hnumber hynumber] at hequal
  rw [hequal]
  refine hall.place_le ?_ hynumber
  rw [← List.cons_append]
  exact List.mem_append_left _ hy

/-- The numbers that are sent as best go down. -/
theorem lt_of_sends_newBest (hij : i < j) (hx : SendsNewBest c calls i x)
    (hy : SendsNewBest c calls j y) : y < x := by
  obtain ⟨rfl, -⟩ := lower_of_sendsNewBest hx
  obtain ⟨rfl, hlower⟩ := lower_of_sendsNewBest hy
  have hnumber : ∀ k, (lowestUpTo calls k).isNaN = false := fun k => (isLowest_smallest _).isNaN
  rw [Binary64.lt_iff (hnumber _) (hnumber _)] at hlower ⊢
  exact hlower.trans_le (place_lowestUpTo_le hij)

/-- Between two reports of stagnation the lowest number went down. -/
theorem exists_newBest_between (hij : i < j) (hi : SendsStagnation c calls i)
    (hj : SendsStagnation c calls j) : ∃ k x, i < k ∧ k < j ∧ SendsNewBest c calls k x := by
  obtain ⟨w, hw, hstreak, -⟩ := stagnates_of_sends hi
  obtain ⟨w', hw', hstreak', hnext⟩ := stagnates_of_sends hj
  obtain rfl := Option.some.inj (hw.symm.trans hw')
  by_contra hnone
  have hle : streakUpTo calls (i + 1) ≤ streakUpTo calls j :=
    streakUpTo_le hij fun k x hik hkj hk => hnone ⟨k, x, hik, hkj, hk⟩
  omega

/-- A window of no evaluations is never as long as a streak. -/
theorem not_sendsStagnation_of_zero (h : c.stagnationWindow = some 0) :
    ¬ SendsStagnation c calls j := by
  intro hsends
  obtain ⟨w, hw, hstreak, hnext⟩ := stagnates_of_sends hsends
  obtain rfl := Option.some.inj (h.symm.trans hw)
  rw [hnext] at hstreak
  cases hstreak

/-- What a run sends about each evaluation, and hence how best numbers and stagnation follow one
another. -/
theorem events_of_run (h : (watched c node g calls).outcome = .ok l)
    (hranked : (ranked calls).length < Nat.pow 2 53) :
    (∀ j e, calls[j]? = some e → ∃ before,
      (watched c node g (calls.take j)).outcome = .ok before ∧
        (shown c before e).notes = (eventsAfter c (calls.take j) e).map Note.event) ∧
      (watched c node g calls).notes =
        ((List.range calls.length).flatMap (sent c calls)).map Note.event ∧
      (∀ i j x y, i < j → SendsNewBest c calls i x → SendsNewBest c calls j y → y < x) ∧
      (∀ i j, i < j → SendsStagnation c calls i → SendsStagnation c calls j →
        ∃ k x, i < k ∧ k < j ∧ SendsNewBest c calls k x) ∧
      (c.stagnationWindow = some 0 → ∀ j, ¬ SendsStagnation c calls j) := by
  refine ⟨fun j e hj => ?_, notes_watched h hranked, fun _ _ _ _ => lt_of_sends_newBest,
    fun _ _ => exists_newBest_between, fun hzero _ => not_sendsStagnation_of_zero hzero⟩
  obtain ⟨before, after, hbefore, hafter⟩ := exists_watched_take h hj
  refine ⟨before, hbefore, notes_shown_of_watched hbefore hafter ?_⟩
  rw [← take_succ_of_getElem? hj]
  exact Nat.lt_of_le_of_lt ((List.take_sublist _ _).filter _).length_le hranked

/-- The monitor of the example reports stagnation of one evaluation. -/
def impatientConfig : EvaluationConfig where
  stagnationWindow := some 1

/-- The events of a run over three evaluations. -/
theorem events_of_run_threeEvaluations : ∃ l,
    (watched impatientConfig .root (.new 0 0) threeEvaluations).outcome = .ok l ∧
      (ranked threeEvaluations).length < Nat.pow 2 53 ∧
        (watched impatientConfig .root (.new 0 0) threeEvaluations).notes =
          ((List.range 3).flatMap (sent impatientConfig threeEvaluations)).map Note.event := by
  obtain ⟨l, hl⟩ := Outcome.exists_eq_ok
    (o := (watched impatientConfig .root (.new 0 0) threeEvaluations).outcome) (by decide +kernel)
  have hranked : (ranked threeEvaluations).length < Nat.pow 2 53 := by decide
  exact ⟨l, hl, hranked, (events_of_run hl hranked).2.1⟩

end EvaluationMonitor

end Lockstep
