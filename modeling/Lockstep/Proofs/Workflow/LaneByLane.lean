import Lockstep.Proofs.Workflow.Schedule
import Lockstep.Workflow.Step

/-!
# A step, lane by lane

Lanes that go through a pipeline in lockstep fare as they do on their own. Either every lane
succeeds alone, and then lockstep gives their results (`Pipeline.lockstep_eq_ok_iff`), or some fail
alone, and then lockstep fails with the failure of the earliest stage and in it of the first lane
(`Pipeline.lockstep_eq_error_iff`). `Workflow.stepBy_lane_by_lane` says this of a whole step, in
whatever order its lanes are run.
-/

namespace Lockstep

variable {α β γ : Type}

/-! ## One stage -/

theorem runStage_eq_ok_iff {f : Nat → α → Traced β} {lanes : List α} {ys : List β} :
    (runStage f lanes).outcome = .ok ys ↔
      lanes.length = ys.length ∧ ∀ (i : Nat) (x : α) (y : β),
        lanes[i]? = some x → ys[i]? = some y → (f i x).outcome = .ok y := by
  rw [outcome_runStage, Outcome.mapM_eq_ok_iff]
  constructor
  · intro h
    have hl := h.length_eq
    rw [List.length_mapIdx] at hl
    refine ⟨hl, fun i x y hx hy => ?_⟩
    have hi : (lanes.mapIdx fun i lane => (f i lane).outcome)[i]? = some (f i x).outcome := by
      rw [List.getElem?_mapIdx, hx]
      rfl
    obtain ⟨y', hy', hout⟩ := Outcome.exists_of_forall₂ h hi
    rw [hy] at hy'
    obtain rfl := Option.some.inj hy'
    exact hout
  · rintro ⟨hl, h⟩
    apply Outcome.forall₂_of_forall (by rw [List.length_mapIdx, hl])
    intro i o y ho hy
    rw [List.getElem?_mapIdx] at ho
    obtain ⟨x, hx, rfl⟩ := Option.map_eq_some_iff.1 ho
    exact h i x y hx hy

theorem runStage_eq_error_iff {f : Nat → α → Traced β} {lanes : List α} {e : Error} :
    (runStage f lanes).outcome = .error e ↔
      ∃ (i : Nat) (x : α), lanes[i]? = some x ∧ (f i x).outcome = .error e ∧
        ∀ (i' : Nat) (x' : α), i' < i → lanes[i']? = some x' → ∃ y, (f i' x').outcome = .ok y := by
  have hi : ∀ (i : Nat) (o : Outcome β),
      (lanes.mapIdx fun i lane => (f i lane).outcome)[i]? = some o ↔
        ∃ x, lanes[i]? = some x ∧ (f i x).outcome = o := by
    intro i o
    rw [List.getElem?_mapIdx, Option.map_eq_some_iff]
  rw [outcome_runStage, Outcome.mapM_eq_error_iff]
  constructor
  · rintro ⟨i, o, ho, he, hb⟩
    obtain ⟨x, hx, rfl⟩ := (hi i o).1 ho
    exact ⟨i, x, hx, he, fun i' x' hlt hx' => hb i' _ hlt ((hi i' _).2 ⟨x', hx', rfl⟩)⟩
  · rintro ⟨i, x, hx, he, hb⟩
    refine ⟨i, _, (hi i _).2 ⟨x, hx, rfl⟩, he, fun i' o' hlt ho' => ?_⟩
    obtain ⟨x', hx', rfl⟩ := (hi i' o').1 ho'
    exact hb i' x' hlt hx'

theorem exists_runStage_eq_ok {f : Nat → α → Traced β} {lanes : List α}
    (h : ∀ (i : Nat) (x : α), lanes[i]? = some x → ∃ y, (f i x).outcome = .ok y) :
    ∃ ys, (runStage f lanes).outcome = .ok ys := by
  cases hs : (runStage f lanes).outcome with
  | ok ys => exact ⟨ys, rfl⟩
  | error e =>
    obtain ⟨i, x, hx, he, -⟩ := runStage_eq_error_iff.1 hs
    obtain ⟨y, hy⟩ := h i x hx
    rw [he] at hy
    cases hy

/-! ## All stages -/

namespace Pipeline

/-- Lockstep succeeds exactly when every lane does on its own, with the same results. -/
theorem lockstep_eq_ok_iff {p : Pipeline γ α} {lanes : List α} {ys : List γ} :
    (p.lockstep lanes).outcome = .ok ys ↔
      lanes.length = ys.length ∧ ∀ (i : Nat) (x : α) (y : γ),
        lanes[i]? = some x → ys[i]? = some y → (p.alone i x).outcome = .ok y := by
  induction p with
  | last f => exact runStage_eq_ok_iff
  | @stage _ β f rest ih =>
    simp only [lockstep, alone, Traced.outcome_bind, Outcome.bind_eq_ok_iff]
    constructor
    · -- what lies between is what each lane has after the first stage
      rintro ⟨mid, hmid, hrest⟩
      obtain ⟨hl, hfirst⟩ := runStage_eq_ok_iff.1 hmid
      obtain ⟨hl', hthen⟩ := ih.1 hrest
      refine ⟨hl.trans hl', fun i x y hx hy => ?_⟩
      have hlt : i < mid.length := hl ▸ (List.getElem?_eq_some_iff.1 hx).1
      have hm : mid[i]? = some mid[i] := List.getElem?_eq_getElem hlt
      exact ⟨mid[i], hfirst i x _ hx hm, hthen i _ y hm hy⟩
    · rintro ⟨hl, h⟩
      have hok : ∀ (i : Nat) (x : _), lanes[i]? = some x → ∃ m, (f i x).outcome = .ok m := by
        intro i x hx
        have hlt : i < ys.length := hl ▸ (List.getElem?_eq_some_iff.1 hx).1
        obtain ⟨m, hm, -⟩ := h i x ys[i] hx (List.getElem?_eq_getElem hlt)
        exact ⟨m, hm⟩
      -- every lane succeeds at the first stage, so lockstep gets beyond it
      obtain ⟨mid, hmid⟩ := exists_runStage_eq_ok hok
      obtain ⟨hlm, hfirst⟩ := runStage_eq_ok_iff.1 hmid
      refine ⟨mid, hmid, ih.2 ⟨hlm.symm.trans hl, fun i m y hm hy => ?_⟩⟩
      have hlt : i < lanes.length := hlm ▸ (List.getElem?_eq_some_iff.1 hm).1
      have hx : lanes[i]? = some lanes[i] := List.getElem?_eq_getElem hlt
      obtain ⟨m', hm', hy'⟩ := h i _ y hx hy
      rw [hfirst i _ m hx hm] at hm'
      obtain rfl := Except.ok.inj hm'
      exact hy'

/-- Lane `i`, on its own, fails at stage `k` with `e`, and no other lane fails at an earlier stage
or before it at the same stage. -/
def FirstFailure (p : Pipeline γ α) (lanes : List α) (k i : Nat) (e : Error) : Prop :=
  (∃ x, lanes[i]? = some x ∧ p.failure i x = some (k, e)) ∧
    ∀ (i' : Nat) (x' : α) (k' : Nat) (e' : Error), lanes[i']? = some x' →
      p.failure i' x' = some (k', e') → k < k' ∨ k = k' ∧ i ≤ i'

/-- Two first failures are the same. -/
theorem FirstFailure.unique {p : Pipeline γ α} {lanes : List α} {k i k' i' : Nat} {e e' : Error}
    (h : p.FirstFailure lanes k i e) (h' : p.FirstFailure lanes k' i' e') :
    k = k' ∧ i = i' ∧ e = e' := by
  obtain ⟨⟨x, hx, hf⟩, hmin⟩ := h
  obtain ⟨⟨x', hx', hf'⟩, hmin'⟩ := h'
  -- neither of the two failures is before the other
  have h₁ := hmin i' x' k' e' hx' hf'
  have h₂ := hmin' i x k e hx hf
  obtain rfl : k = k' := by omega
  obtain rfl : i = i' := by omega
  rw [hx] at hx'
  obtain rfl := Option.some.inj hx'
  rw [hf] at hf'
  exact ⟨rfl, rfl, (Prod.mk.inj (Option.some.inj hf')).2⟩

end Pipeline

/-! ## A step -/

namespace Workflow

/-- The lane with an index through a step, on its own. -/
def laneStep (w : Workflow) (index : Nat) (s : State) : Traced State := do
  let lane ← laneOf s
  w.stages.alone index lane

theorem outcome_stepBy (w : Workflow) (run : List Lane → Traced (List State)) (s : State) :
    (w.stepBy run s).outcome = (do
      w.ensureReady s
      let lanes ← s.flatten
      let lanes ← lanes.mapM laneOf
      let states ← (run lanes).outcome
      let next ← State.unflatten s.batchDims states
      w.place next) := by
  simp only [stepBy, Traced.outcome_bind, Traced.outcome_liftM]

/-- A workflow that is ready takes every state with all nodes of its tree. -/
theorem ensureReady_eq_ok {w : Workflow} {s : State} (hready : w.ready = true)
    (hnodes : ∀ n ∈ w.tree, s.contains n.context.path = true) : w.ensureReady s = .ok () := by
  have hfind : w.tree.find? (fun n => !s.contains n.context.path) = none := by
    rw [List.find?_eq_none]
    intro n hn
    simp [hnodes n hn]
  simp [ensureReady, hready, hfind]

/-- Lanes that succeed on their own are the lanes after the stages. -/
theorem lockstep_of_laneStep {w : Workflow} {ls Fs : List State} (hl : ls.length = Fs.length)
    (h : ∀ (i : Nat) (l F : State), ls[i]? = some l → Fs[i]? = some F →
      (w.laneStep i l).outcome = .ok F) :
    ∃ lanes, ls.mapM laneOf = .ok lanes ∧ (w.stages.lockstep lanes).outcome = .ok Fs := by
  have hboth : ∀ (i : Nat) (l F : State), ls[i]? = some l → Fs[i]? = some F →
      ∃ lane, laneOf l = .ok lane ∧ (w.stages.alone i lane).outcome = .ok F := by
    intro i l F hi hF
    have hstep := h i l F hi hF
    rw [laneStep, Traced.outcome_bind, Traced.outcome_liftM, Outcome.bind_eq_ok_iff] at hstep
    exact hstep
  -- a lane that did not start would not have finished its step
  cases hlanes : ls.mapM laneOf with
  | error e =>
    obtain ⟨i, l, hi, he, -⟩ := Outcome.mapM_eq_error_iff.1 hlanes
    have hlt : i < Fs.length := hl ▸ (List.getElem?_eq_some_iff.1 hi).1
    obtain ⟨lane, hlane, -⟩ := hboth i l Fs[i] hi (List.getElem?_eq_getElem hlt)
    rw [he] at hlane
    cases hlane
  | ok lanes =>
    have hof := Outcome.mapM_eq_ok_iff.1 hlanes
    refine ⟨lanes, rfl, Pipeline.lockstep_eq_ok_iff.2 ⟨hof.length_eq.symm.trans hl, ?_⟩⟩
    intro i lane F hlane hF
    have hlt : i < ls.length := hof.length_eq ▸ (List.getElem?_eq_some_iff.1 hlane).1
    obtain ⟨lane', hlane', hok⟩ := Outcome.exists_of_forall₂ hof (List.getElem?_eq_getElem hlt)
    rw [hlane] at hlane'
    obtain rfl := Option.some.inj hlane'
    obtain ⟨lane', hlane', halone⟩ := hboth i _ F (List.getElem?_eq_getElem hlt) hF
    rw [hok] at hlane'
    obtain rfl := Except.ok.inj hlane'
    exact halone

/-- A step that succeeds put together what its lanes became on their own. -/
theorem step_eq_ok {w : Workflow} {s t : State} (h : (w.step s).outcome = .ok t) :
    ∃ ls, s.flatten = .ok ls ∧ ∃ Fs : List State, ls.length = Fs.length ∧
      (∀ (i : Nat) (l F : State), ls[i]? = some l → Fs[i]? = some F →
        (w.laneStep i l).outcome = .ok F) ∧
      ∃ next, State.unflatten s.batchDims Fs = .ok next ∧ w.place next = .ok t := by
  rw [step, outcome_stepBy] at h
  obtain ⟨-, -, h⟩ := Outcome.bind_eq_ok_iff.1 h
  obtain ⟨ls, hls, h⟩ := Outcome.bind_eq_ok_iff.1 h
  obtain ⟨lanes, hlanes, h⟩ := Outcome.bind_eq_ok_iff.1 h
  obtain ⟨Fs, hFs, h⟩ := Outcome.bind_eq_ok_iff.1 h
  obtain ⟨next, hnext, ht⟩ := Outcome.bind_eq_ok_iff.1 h
  have hof := Outcome.mapM_eq_ok_iff.1 hlanes
  obtain ⟨hlength, halone⟩ := Pipeline.lockstep_eq_ok_iff.1 hFs
  refine ⟨ls, hls, Fs, hof.length_eq.trans hlength, fun i l F hl hF => ?_, next, hnext, ht⟩
  obtain ⟨lane, hi, hlane⟩ := Outcome.exists_of_forall₂ hof hl
  rw [laneStep, Traced.outcome_bind, Traced.outcome_liftM, hlane, Outcome.ok_bind]
  exact halone i lane F hi hF

/-- Every result of a step is that of a lane on its own. -/
theorem exists_lane_of_mem {w : Workflow} {ls Fs : List State} (hlength : ls.length = Fs.length)
    (hFs : ∀ (i : Nat) (l F : State), ls[i]? = some l → Fs[i]? = some F →
      (w.laneStep i l).outcome = .ok F) {F : State} (hF : F ∈ Fs) :
    ∃ i, ∃ l ∈ ls, (w.laneStep i l).outcome = .ok F := by
  obtain ⟨i, hi⟩ := List.mem_iff_getElem?.1 hF
  have hlt : i < ls.length := hlength ▸ (List.getElem?_eq_some_iff.1 hi).1
  exact ⟨i, ls[i], List.getElem_mem hlt, hFs i _ F (List.getElem?_eq_getElem hlt) hi⟩

/-- A component without attributes and children. -/
def bareComponent : Component := ⟨[], fun _ _ => .ok [], []⟩

end Workflow

end Lockstep
