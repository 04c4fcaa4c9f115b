import Lockstep.Proofs.Binary64.Counting
import Lockstep.Proofs.Monitor.Best
import Mathlib.Data.List.Induction

/-!
# The evaluation monitor sums up what it was shown

What the monitor keeps is a function of all evaluations it was shown (`Summarizes`): it counts them,
and of those with one number for each candidate, which are ranked, it keeps the first of the lowest
numbers with its candidate, how long ago this number went down, and the last values it had
(`Ranks`). Each evaluation takes one summary to the next one (`Ranks.recordBest`,
`Summarizes.observed`), so it holds after every run (`summarizes_of_run`).
-/

namespace Lockstep

open LocalState (Written)

namespace EvaluationMonitor

/-- Candidates that were evaluated, as a monitor is shown them. -/
structure Evaluated where
  context : HookContext
  candidates : Candidates
  fitness : Tensor

/-- The candidate with an index, if there is one. -/
def Evaluated.candidate (e : Evaluated) (index : Nat) : Option Tensor :=
  e.candidates.asDense.toOption.bind (·.rows[index]?)

/-- The numbers of a ranked fitness, each with its candidate. -/
def Evaluated.scored (e : Evaluated) : List (Float × Option Tensor) :=
  entriesOf e.candidate e.fitness.data

/-- The local state after the monitor was shown an evaluation. -/
def observed (c : EvaluationConfig) (listens : Bool) (l : LocalState) (e : Evaluated) :
    Outcome LocalState := do
  let seen ← ((Monitor.evaluation c listens).observe e.context l
    (.postEval e.candidates e.fitness)).outcome
  return seen.getD l

/-- The local state after the monitor started and was shown some evaluations. -/
def run (c : EvaluationConfig) (listens : Bool) (node : NodeContext) (g : Random.Generator)
    (calls : List Evaluated) : Outcome LocalState := do
  calls.foldlM (observed c listens) (← (Monitor.evaluation c listens).component.init node g)

/-! ## What there is to sum up -/

/-- The count of all candidates that were evaluated. -/
def total : List Evaluated → Nat
  | [] => 0
  | e :: calls => e.fitness.rows.length + total calls

/-- The evaluations with one number for each candidate. -/
def ranked (calls : List Evaluated) : List Evaluated := calls.filter (·.fitness.rank = 1)

/-- The lowest of all numbers that are below infinity, or infinity if there is none. -/
def lowestOf (rs : List Evaluated) : Float := smallest (rs.flatMap (·.fitness.data))

/-- All numbers with their candidates, after those that the monitor starts with. -/
def allScored (c : EvaluationConfig) (rs : List Evaluated) : List (Float × Option Tensor) :=
  (infinity, c.solutionDim.map fun dim => .constant [dim] unknown) :: rs.flatMap Evaluated.scored

/-- The evaluation with an index lowers the lowest number. -/
def Improves (rs : List Evaluated) (j : Nat) : Prop :=
  lowestOf (rs.take (j + 1)) < lowestOf (rs.take j)

/-- There are `k` evaluations since the last one that lowers the lowest number, or since the
start. -/
def Stagnated (rs : List Evaluated) (k : Nat) : Prop :=
  ∃ m, m + k = rs.length ∧ (m = 0 ∨ Improves rs (m - 1)) ∧
    ∀ j, m ≤ j → j < rs.length → ¬ Improves rs j

/-- The lowest number after each evaluation. -/
def bests (rs : List Evaluated) : List Float :=
  (List.range rs.length).map fun j => lowestOf (rs.take (j + 1))

/-- The last of the lowest numbers, as many as the history covers, with unknown ones in front if
there are not as many yet. -/
def window (length : Nat) (rs : List Evaluated) : List Float :=
  (List.replicate length unknown ++ bests rs).drop rs.length

/-- The first of the lowest numbers is kept, and its candidate if solutions are kept. If no number
is below infinity, these are infinity and a solution of unknown numbers, which are not numbers
(`isFirstLowest_cons_infinity_iff`, `isNaN_unknown`). -/
def KeepsBest (c : EvaluationConfig) (rs : List Evaluated) (l : LocalState) : Prop :=
  ∃ candidate, bestFitness l = .ok (lowestOf rs) ∧
    IsFirstLowest (lowestOf rs) candidate (allScored c rs) ∧
    (c.solutionDim ≠ none → ∃ t, candidate = some t ∧ l.tensor "best_solution" = .ok t)

/-- It is kept how many evaluations there are since the last improvement. -/
def KeepsStagnation (rs : List Evaluated) (l : LocalState) : Prop :=
  ∃ k, Stagnated rs k ∧ l.number "stagnation" = .ok (UInt64.ofNat k).toFloat

/-- The history is kept, if there is to be one. -/
def KeepsHistory (c : EvaluationConfig) (rs : List Evaluated) (l : LocalState) : Prop :=
  c.historyLength ≠ 0 → ∃ t, l.tensor "history" = .ok t ∧ t.shape = [c.historyLength] ∧
    t.data = window c.historyLength rs

/-- The local state sums up evaluations that were ranked. -/
structure Ranks (c : EvaluationConfig) (rs : List Evaluated) (l : LocalState) : Prop where
  best : KeepsBest c rs l
  stagnation : KeepsStagnation rs l
  history : KeepsHistory c rs l

/-- The local state sums up all evaluations. -/
structure Summarizes (c : EvaluationConfig) (calls : List Evaluated) (l : LocalState) : Prop where
  evaluations : l.number "evaluations" = .ok (UInt64.ofNat (total calls)).toFloat
  ranks : Ranks c (ranked calls) l

/-! ## One evaluation more -/

variable {c : EvaluationConfig} {listens : Bool} {l l' : LocalState} {rs calls : List Evaluated}
  {e : Evaluated}

/-- One more evaluation adds its candidates. -/
theorem total_snoc (calls : List Evaluated) (e : Evaluated) :
    total (calls ++ [e]) = total calls + e.fitness.rows.length := by
  induction calls with
  | nil => exact Nat.add_comm _ _
  | cons first calls ih => rw [List.cons_append, total, ih, total, Nat.add_assoc]

/-- One more evaluation is ranked if it has one number for each candidate. -/
theorem ranked_snoc (calls : List Evaluated) (e : Evaluated) :
    ranked (calls ++ [e]) = if e.fitness.rank = 1 then ranked calls ++ [e] else ranked calls := by
  rw [ranked, List.filter_append, ranked]
  by_cases h : e.fitness.rank = 1
  · simp [h]
  · simp [h]

/-- Its numbers come after all others. -/
theorem allScored_snoc (c : EvaluationConfig) (rs : List Evaluated) (e : Evaluated) :
    allScored c (rs ++ [e]) = allScored c rs ++ e.scored := by
  rw [allScored, List.flatMap_append, List.flatMap_singleton, allScored, List.cons_append]

/-- It is not among the first ones. -/
theorem take_snoc {j : Nat} (hj : j ≤ rs.length) : (rs ++ [e]).take j = rs.take j :=
  List.take_append_of_le_length hj

/-- It adds the lowest number of all. -/
theorem bests_snoc (rs : List Evaluated) (e : Evaluated) :
    bests (rs ++ [e]) = bests rs ++ [lowestOf (rs ++ [e])] := by
  have hbefore : (List.range rs.length).map (fun j => lowestOf ((rs ++ [e]).take (j + 1))) =
      bests rs := List.map_congr_left fun j hj => by
    rw [take_snoc (List.mem_range.1 hj)]
  rw [bests, List.length_append, List.length_singleton, List.range_succ, List.map_append, hbefore,
    List.map_singleton, List.take_of_length_le (by simp)]

/-- It leaves the improvements of the earlier evaluations as they are. -/
theorem improves_snoc_iff {j : Nat} (hj : j < rs.length) :
    Improves (rs ++ [e]) j ↔ Improves rs j := by
  rw [Improves, take_snoc hj, take_snoc (Nat.le_of_lt hj), Improves]

/-- The last evaluation improves if it lowers the lowest number. -/
theorem improves_last_iff : Improves (rs ++ [e]) rs.length ↔
    lowestOf (rs ++ [e]) < lowestOf rs := by
  rw [Improves, List.take_of_length_le (by simp), List.take_left]

namespace Stagnated

/-- Before the first evaluation the count is zero. -/
theorem nil : Stagnated [] 0 := ⟨0, rfl, Or.inl rfl, nofun⟩

/-- An improvement starts the count again. -/
theorem snoc_of_improves (h : Improves (rs ++ [e]) rs.length) : Stagnated (rs ++ [e]) 0 := by
  refine ⟨rs.length + 1, by simp, Or.inr h, fun j hle hlt => ?_⟩
  rw [List.length_append, List.length_singleton] at hlt
  omega

/-- Any other evaluation adds one to it. -/
theorem snoc {k : Nat} (h : Stagnated rs k) (hnot : ¬ Improves (rs ++ [e]) rs.length) :
    Stagnated (rs ++ [e]) (k + 1) := by
  obtain ⟨m, hm, hlast, hsince⟩ := h
  refine ⟨m, by simp; omega, ?_, fun j hle hlt => ?_⟩
  · rcases Nat.eq_zero_or_pos m with rfl | hpos
    · exact Or.inl rfl
    · rw [improves_snoc_iff (by omega)]
      exact hlast
  · rw [List.length_append, List.length_singleton] at hlt
    rcases Nat.lt_succ_iff_lt_or_eq.1 hlt with hlt | rfl
    · rw [improves_snoc_iff hlt]
      exact hsince j hle hlt
    · exact hnot

end Stagnated

/-- The history moves on by one number. -/
theorem window_snoc {length : Nat} (hlength : length ≠ 0) (rs : List Evaluated) (e : Evaluated) :
    window length (rs ++ [e]) = (window length rs).tail ++ [lowestOf (rs ++ [e])] := by
  have hbests : (bests rs).length = rs.length := by rw [bests, List.length_map, List.length_range]
  rw [window, bests_snoc, ← List.append_assoc, List.length_append, List.length_singleton,
    List.drop_append_of_le_length, window, List.tail_drop]
  rw [List.length_append, List.length_replicate, hbests]
  omega

/-- The first of the lowest numbers is the lowest number. -/
theorem eq_lowestOf {x : Float} {candidate : Option Tensor}
    (h : IsFirstLowest x candidate (allScored c rs)) : x = lowestOf rs := by
  have hnumbers : (rs.flatMap Evaluated.scored).map Prod.fst = rs.flatMap (·.fitness.data) := by
    rw [List.map_flatMap]
    simp only [Evaluated.scored, map_fst_entriesOf]
  rw [h.eq_smallest, hnumbers, lowestOf]

theorem ofNat_toNat_of_lt {n : Nat} (h : n < Nat.pow 2 53) : (UInt64.ofNat n).toNat = n :=
  UInt64.toNat_ofNat_of_lt' (Nat.lt_trans h (by decide))

/-- The solution that is kept is the candidate. -/
theorem candidate_of_solutionAt {dim index : Nat} {t : Tensor}
    (h : solutionAt dim index e.candidates = .ok t) : e.candidate index = some t := by
  obtain ⟨batch, hbatch, h⟩ := Outcome.bind_eq_ok_iff.1 h
  obtain ⟨m, hm, h⟩ := Outcome.bind_eq_ok_iff.1 h
  split at h
  · cases h
  · split at h
    · next row hrow =>
      rw [Evaluated.candidate, hbatch]
      change batch.rows[index]? = some t
      rw [Tensor.rows_of_asMatrix hm, List.getElem?_map, hrow, ← Except.ok.inj h]
      rfl
    · cases h

/-- An improvement is below all numbers before it, and the first of the lowest ones from then on. -/
theorem isFirstLowest_of_improvement {candidate : Option Tensor} {index : Nat} {f : Float}
    (hfirst : IsFirstLowest (lowestOf rs) candidate (allScored c rs))
    (h : improvement e.fitness.data (lowestOf rs) = some (index, f)) :
    f < lowestOf rs ∧ IsFirstLowest f (e.candidate index) (allScored c (rs ++ [e])) := by
  obtain ⟨hmin, hlt⟩ := Option.filter_eq_some_iff.1 h
  have hlower : f < lowestOf rs := of_decide_eq_true hlt
  refine ⟨hlower, ?_⟩
  rw [allScored_snoc]
  exact hfirst.append_argmin_of_lt hmin hlower

namespace KeepsBest

/-- Before the first evaluation there is no lowest number and no candidate. -/
theorem firstState (c : EvaluationConfig) : KeepsBest c [] (EvaluationMonitor.firstState c) := by
  refine ⟨c.solutionDim.map fun dim => .constant [dim] unknown, (best_firstState c).2,
    .singleton isNaN_infinity _, fun hsome => ?_⟩
  obtain ⟨dim, hdim⟩ := Option.ne_none_iff_exists'.1 hsome
  exact ⟨.constant [dim] unknown, by rw [hdim, Option.map_some],
    tensor_firstState (by simp [firstValues, extraShapes, hdim])⟩

/-- Writing other attributes does not change what is kept. -/
theorem of_written (h : KeepsBest c rs l) {names : List String} (hl : Written names l l')
    (hbest : "best_fitness" ∉ names) (hsolution : "best_solution" ∉ names) :
    KeepsBest c rs l' := by
  obtain ⟨candidate, hnumber, hfirst, hkept⟩ := h
  refine ⟨candidate, (hl.number hbest).trans hnumber, hfirst, fun hsome => ?_⟩
  obtain ⟨t, ht, hl'⟩ := hkept hsome
  exact ⟨t, ht, (hl.tensor hsolution).trans hl'⟩

/-- A lower number takes the place of the lowest one, with its candidate. -/
theorem improve (h : KeepsBest c rs l) {index : Nat} {f : Float}
    (himprovement : improvement e.fitness.data (lowestOf rs) = some (index, f))
    (himproved : EvaluationMonitor.improve c l e.candidates index f = .ok l') :
    lowestOf (rs ++ [e]) < lowestOf rs ∧ KeepsBest c (rs ++ [e]) l' := by
  obtain ⟨candidate, -, hfirst, -⟩ := h
  obtain ⟨hlower, hnext⟩ := isFirstLowest_of_improvement hfirst himprovement
  obtain rfl := eq_lowestOf hnext
  refine ⟨hlower, e.candidate index, ?_⟩
  rcases improve_eq_ok himproved with ⟨hnone, rfl⟩ | ⟨dim, solution, hdim, hsolution, rfl⟩
  · exact ⟨LocalState.number_setNumber _ _ _, hnext, fun hsome => absurd hnone hsome⟩
  · refine ⟨?_, hnext, fun _ => ⟨solution, candidate_of_solutionAt hsolution,
      LocalState.tensor_setTensor _ _ _⟩⟩
    rw [bestFitness, LocalState.number_setTensor_of_ne _ _ (by decide)]
    exact LocalState.number_setNumber _ _ _

/-- Without a lower number nothing changes. -/
theorem of_not_improved (h : KeepsBest c rs l)
    (hnone : improvement e.fitness.data (lowestOf rs) = none) :
    lowestOf (rs ++ [e]) = lowestOf rs ∧ KeepsBest c (rs ++ [e]) l := by
  obtain ⟨candidate, hbest, hfirst, hsolution⟩ := h
  have hnext : IsFirstLowest (lowestOf rs) candidate (allScored c (rs ++ [e])) := by
    rw [allScored_snoc]
    refine hfirst.append_argmin_of_not_lt fun r hr hlt => ?_
    rw [improvement, hr, Option.filter_some, if_pos (decide_eq_true hlt)] at hnone
    cases hnone
  have hsame := eq_lowestOf hnext
  rw [hsame] at hbest hnext
  exact ⟨hsame.symm, candidate, hbest, hnext, hsolution⟩

end KeepsBest

namespace KeepsStagnation

theorem firstState (c : EvaluationConfig) : KeepsStagnation [] (EvaluationMonitor.firstState c) :=
  ⟨0, .nil, number_firstState (x := 0) (by simp [firstValues])⟩

theorem of_written (h : KeepsStagnation rs l) {names : List String} (hl : Written names l l')
    (hnames : "stagnation" ∉ names) : KeepsStagnation rs l' := by
  obtain ⟨k, hk, hnumber⟩ := h
  exact ⟨k, hk, (hl.number hnames).trans hnumber⟩

/-- After an improvement there is none to count. -/
theorem of_improves (h : lowestOf (rs ++ [e]) < lowestOf rs) (l : LocalState) :
    KeepsStagnation (rs ++ [e]) (l.setNumber "stagnation" 0) :=
  ⟨0, .snoc_of_improves (improves_last_iff.2 h), LocalState.number_setNumber _ _ _⟩

/-- Without improvement there is one more. -/
theorem count (h : KeepsStagnation rs l) (hlength : rs.length + 1 < Nat.pow 2 53)
    (hnot : ¬ lowestOf (rs ++ [e]) < lowestOf rs) {stagnation : Float}
    (hl : l.number "stagnation" = .ok stagnation) :
    KeepsStagnation (rs ++ [e]) (l.setNumber "stagnation" (stagnation + 1)) := by
  obtain ⟨k, hk, hnumber⟩ := h
  obtain ⟨m, hm, -⟩ := id hk
  refine ⟨k + 1, hk.snoc (mt improves_last_iff.1 hnot), ?_⟩
  have hlt : (UInt64.ofNat k).toNat + 1 < Nat.pow 2 53 := by
    rw [ofNat_toNat_of_lt (by omega)]
    omega
  rw [hl] at hnumber
  rw [LocalState.number_setNumber, Except.ok.inj hnumber, Binary64.toFloat_add_one hlt,
    UInt64.ofNat_add]
  rfl

end KeepsStagnation

namespace KeepsHistory

theorem firstState (c : EvaluationConfig) : KeepsHistory c [] (EvaluationMonitor.firstState c) := by
  intro hsome
  refine ⟨.constant [c.historyLength] unknown,
    tensor_firstState (by simp [firstValues, extraShapes, Nat.pos_of_ne_zero hsome]), rfl, ?_⟩
  simp [Tensor.constant, window, bests]

theorem of_written (h : KeepsHistory c rs l) {names : List String} (hl : Written names l l')
    (hnames : "history" ∉ names) : KeepsHistory c rs l' := by
  intro hsome
  obtain ⟨t, ht, hwindow⟩ := h hsome
  exact ⟨t, (hl.tensor hnames).trans ht, hwindow⟩

/-- The history gets the best fitness at its end. -/
theorem recordHistory (h : KeepsHistory c rs l) (hbest : bestFitness l = .ok (lowestOf (rs ++ [e])))
    (hl : EvaluationMonitor.recordHistory c l = .ok l') : KeepsHistory c (rs ++ [e]) l' := by
  intro hsome
  obtain ⟨t, ht, hshape, hdata⟩ := h hsome
  rcases recordHistory_eq_ok hl with ⟨hnone, -⟩ | ⟨-, best, history, shifted, hnumber, hhistory,
    hshifted, rfl⟩
  · exact absurd hnone hsome
  · rw [hbest] at hnumber
    rw [ht] at hhistory
    obtain rfl := Except.ok.inj hnumber
    obtain rfl := Except.ok.inj hhistory
    refine ⟨shifted, LocalState.tensor_setTensor _ _ _, ?_⟩
    rw [shiftIn] at hshifted
    split at hshifted
    · cases hshifted
    · rw [← Except.ok.inj hshifted, window_snoc hsome, ← hdata]
      exact ⟨hshape, rfl⟩

end KeepsHistory

namespace Ranks

theorem firstState (c : EvaluationConfig) : Ranks c [] (EvaluationMonitor.firstState c) :=
  ⟨.firstState c, .firstState c, .firstState c⟩

/-- The count of evaluations can be written without changing the rest. -/
theorem setEvaluations (h : Ranks c rs l) (x : Float) :
    Ranks c rs (l.setNumber "evaluations" x) := by
  have hl : Written ["evaluations"] l (l.setNumber "evaluations" x) := .setNumber _ _ _
  exact ⟨h.best.of_written hl (by decide) (by decide), h.stagnation.of_written hl (by decide),
    h.history.of_written hl (by decide)⟩

/-- One more evaluation is ranked. -/
theorem recordBest (h : Ranks c rs l) (hlength : rs.length + 1 < Nat.pow 2 53)
    (hl : (EvaluationMonitor.recordBest c listens e.context l e.candidates e.fitness.data).outcome =
      .ok l') : Ranks c (rs ++ [e]) l' := by
  obtain ⟨previous, hprevious, hl⟩ := recordBest_eq_ok hl
  obtain ⟨-, hbest, -⟩ := id h.best
  rw [hbest] at hprevious
  obtain rfl := Except.ok.inj hprevious
  -- both ways end with the history, which leaves the rest as it is
  suffices hmiddle : ∃ middle, KeepsBest c (rs ++ [e]) middle ∧
      KeepsStagnation (rs ++ [e]) middle ∧ KeepsHistory c rs middle ∧
      EvaluationMonitor.recordHistory c middle = .ok l' by
    obtain ⟨middle, hbest, hstagnation, hhistory, hl⟩ := hmiddle
    have hwritten := written_recordHistory hl
    obtain ⟨-, hnumber, -⟩ := id hbest
    exact ⟨hbest.of_written hwritten (by decide) (by decide),
      hstagnation.of_written hwritten (by decide), hhistory.recordHistory hnumber hl⟩
  have hset : ∀ (m : LocalState) (x : Float),
      Written ["stagnation"] m (m.setNumber "stagnation" x) := fun m => .setNumber m "stagnation"
  rcases hl with ⟨index, f, improved, himprovement, himproved, hl⟩ |
    ⟨himprovement, stagnation, hstagnation, hl⟩
  · obtain ⟨hlower, hbest⟩ := h.best.improve himprovement himproved
    have hfirst : Written ["best_fitness"] l (l.setNumber "best_fitness" f) := .setNumber _ _ _
    have hhistory : KeepsHistory c rs improved :=
      (h.history.of_written hfirst (by decide)).of_written (written_improve himproved) (by decide)
    exact ⟨_, hbest.of_written (hset improved 0) (by decide) (by decide), .of_improves hlower _,
      hhistory.of_written (hset improved 0) (by decide), hl⟩
  · obtain ⟨hsame, hbest⟩ := h.best.of_not_improved himprovement
    have hnot : ¬ lowestOf (rs ++ [e]) < lowestOf rs := by
      obtain ⟨candidate, -, hfirst, -⟩ := id hbest
      rw [← hsame]
      exact Binary64.not_lt_self hfirst.number
    exact ⟨_, hbest.of_written (hset l _) (by decide) (by decide),
      h.stagnation.count hlength hnot hstagnation, h.history.of_written (hset l _) (by decide), hl⟩

/-- One more evaluation. -/
theorem record (h : Ranks c (ranked calls) l)
    (hranked : (ranked (calls ++ [e])).length < Nat.pow 2 53)
    (hl : (EvaluationMonitor.record c listens e.context l e.candidates e.fitness).outcome =
      .ok l') :
    Ranks c (ranked (calls ++ [e])) l' := by
  obtain ⟨count, after, -, -, hl⟩ := record_eq_ok hl
  rw [ranked_snoc] at hranked ⊢
  split at hl
  · next hrank =>
    rw [if_pos hrank, List.length_append, List.length_singleton] at hranked
    rw [if_pos hrank]
    exact (h.setEvaluations _).recordBest hranked hl
  · next hrank =>
    rw [if_neg hrank, hl]
    exact h.setEvaluations _

end Ranks

/-! ## A whole run -/

/-- The first axis of an array counts its rows. -/
theorem headD_shape (t : Tensor) : t.shape.headD 0 = t.rows.length := by
  obtain ⟨shape, data, hfill⟩ := t
  cases shape with
  | nil => rfl
  | cons n inner => exact Tensor.length_rowsOf.symm

/-- An evaluation that is observed is recorded. -/
theorem observed_eq_ok (h : observed c listens l e = .ok l') :
    (record c listens e.context l e.candidates e.fitness).outcome = .ok l' := by
  obtain ⟨seen, hseen, h⟩ := Outcome.bind_eq_ok_iff.1 h
  simp only [Monitor.evaluation, Traced.outcome_bind] at hseen
  obtain ⟨m, hm, hseen⟩ := Outcome.bind_eq_ok_iff.1 hseen
  rw [← Except.ok.inj hseen] at h
  rwa [← Except.ok.inj h]

namespace Summarizes

theorem firstState (c : EvaluationConfig) : Summarizes c [] (EvaluationMonitor.firstState c) :=
  ⟨number_firstState (x := 0) (by simp [firstValues]), .firstState c⟩

/-- The monitor is shown one more evaluation. -/
theorem observed (h : Summarizes c calls l) (htotal : total (calls ++ [e]) < Nat.pow 2 53)
    (hranked : (ranked (calls ++ [e])).length < Nat.pow 2 53)
    (hl : observed c listens l e = .ok l') : Summarizes c (calls ++ [e]) l' := by
  have hrecord := observed_eq_ok hl
  refine ⟨?_, h.ranks.record hranked hrecord⟩
  obtain ⟨count, after, hcount, hafter, hlast⟩ := record_eq_ok hrecord
  rw [total_snoc] at htotal
  have hbefore : count = UInt64.ofNat (total calls) := by
    rw [EvaluationMonitor.evaluations, h.evaluations, Outcome.ok_bind] at hcount
    rw [← Except.ok.inj hcount]
    refine Binary64.toUInt64_toFloat ?_
    rw [ofNat_toNat_of_lt (by omega)]
    omega
  have hlt : (UInt64.ofNat (total calls)).toNat = total calls := ofNat_toNat_of_lt (by omega)
  have hcounted : after = UInt64.ofNat (total (calls ++ [e])) := by
    rw [hbefore, hlt, headD_shape, ← total_snoc] at hafter
    rw [← hafter, UInt64.ofNat_toNat]
  rw [hcounted] at hlast
  -- the count is written before the batch is ranked, which leaves it as it is
  split at hlast
  · rw [(best_recordBest hlast).1.number (by decide)]
    exact LocalState.number_setNumber _ _ _
  · subst hlast
    exact LocalState.number_setNumber _ _ _

end Summarizes

/-- After every run from the start, the monitor sums up all that it was shown. -/
theorem summarizes_of_run {node : NodeContext} {g : Random.Generator}
    (h : run c listens node g calls = .ok l) (htotal : total calls < Nat.pow 2 53)
    (hranked : (ranked calls).length < Nat.pow 2 53) : Summarizes c calls l := by
  rw [run, Outcome.bind_eq_ok_iff] at h
  obtain ⟨first, hfirst, h⟩ := h
  obtain ⟨-, rfl⟩ := initialState_eq_ok_iff.1 hfirst
  induction calls using List.reverseRecOn generalizing l with
  | nil =>
    obtain rfl := Except.ok.inj h
    exact .firstState c
  | append_singleton calls e ih =>
    rw [List.foldlM_append] at h
    obtain ⟨middle, hmiddle, h⟩ := Outcome.bind_eq_ok_iff.1 h
    rw [List.foldlM_cons] at h
    obtain ⟨last, hlast, h⟩ := Outcome.bind_eq_ok_iff.1 h
    obtain rfl := Except.ok.inj h
    refine (ih ?_ ?_ hmiddle).observed htotal hranked hlast
    · rw [total_snoc] at htotal
      exact Nat.lt_of_le_of_lt (Nat.le_add_right ..) htotal
    · have hle : (ranked calls).length ≤ (ranked (calls ++ [e])).length := by
        rw [ranked, ranked, List.filter_append, List.length_append]
        exact Nat.le_add_right ..
      exact Nat.lt_of_le_of_lt hle hranked

/-- Two batches that are ranked, of which only the first one has a lower number, and one between
them that is only counted. -/
def threeEvaluations : List Evaluated :=
  [⟨⟨.root, {}, 0, 0⟩, .dense ⟨[2, 1], [3, 1], rfl⟩, .vector [0 / 0, 1]⟩,
    ⟨⟨.root, {}, 1, 0⟩, .dense ⟨[1, 1], [7], rfl⟩, ⟨[1, 2], [0, 0], rfl⟩⟩,
    ⟨⟨.root, {}, 2, 0⟩, .dense ⟨[2, 1], [4, 2], rfl⟩, .vector [1, 2]⟩]

/-- The monitor of the example keeps solutions and the last two best numbers. -/
def thoroughConfig : EvaluationConfig where
  solutionDim := some 1
  historyLength := 2

/-- A run over three evaluations, summed up. -/
theorem summarizes_of_run_threeEvaluations : ∃ l,
    run thoroughConfig false .root (.new 0 0) threeEvaluations = .ok l ∧
      total threeEvaluations < Nat.pow 2 53 ∧ (ranked threeEvaluations).length < Nat.pow 2 53 ∧
        Summarizes thoroughConfig threeEvaluations l := by
  obtain ⟨l, hl⟩ := Outcome.exists_eq_ok
    (o := run thoroughConfig false .root (.new 0 0) threeEvaluations) (by decide +kernel)
  have htotal : total threeEvaluations < Nat.pow 2 53 := by decide
  have hranked : (ranked threeEvaluations).length < Nat.pow 2 53 := by decide
  exact ⟨l, hl, htotal, hranked, summarizes_of_run hl htotal hranked⟩

end EvaluationMonitor

end Lockstep
