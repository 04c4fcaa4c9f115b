import Lockstep.Proofs.Workflow.Loop
import Lockstep.Proofs.Workflow.Notes

/-!
# The loop of a lane on its own

`Workflow.ownRounds` steps one lane, with its index and with its notes, as long as the predicate
holds on it, and `Workflow.ownCount` counts the steps. A step of an unbatched state is such a step
of the lane with index 0 (`Workflow.step_eq_stepAt`).
-/

namespace Lockstep

namespace Workflow

/-- A step of the lane with an index, on its own. -/
def stepAt (w : Workflow) (index : Nat) (l : State) : Traced State := do
  w.ensureReady l
  let next ← w.laneStep index l
  w.place next

/-- Steps of the lane with an index, on its own, as long as the predicate holds. -/
def ownRounds (w : Workflow) (pred : State → Outcome Bool) (index : Nat) :
    (steps : Nat) → State → Traced State
  | 0, l => pure l
  | steps + 1, l => do
    if ← pred l then ownRounds w pred index steps (← w.stepAt index l) else return l

/-- How many steps the lane with an index makes on its own. -/
def ownCount (w : Workflow) (pred : State → Outcome Bool) (index : Nat) :
    (steps : Nat) → State → Nat
  | 0, _ => 0
  | steps + 1, l => match pred l, (w.stepAt index l).outcome with
    | .ok true, .ok r => ownCount w pred index steps r + 1
    | _, _ => 0

/-- How many rounds the lanes take together: as many as the lane with the most steps. -/
def roundCount (w : Workflow) (pred : State → Outcome Bool) (steps : Nat)
    (ls : List State) : Nat :=
  (ls.mapIdx fun i l => w.ownCount pred i steps l).foldr max 0

theorem runStage_singleton {α β : Type} (f : Nat → α → Traced β) (x : α) :
    runStage f [x] = f 0 x >>= fun y => pure [y] := by
  show Traced.all [f 0 x] = _
  obtain ⟨notes, e | y⟩ := f 0 x
  · exact congrArg (Traced.mk · _) (List.append_nil notes)
  · rfl

/-- A lane that is alone in lockstep goes through the stages on its own. -/
theorem lockstep_singleton {α γ : Type} (p : Pipeline γ α) (x : α) :
    p.lockstep [x] = p.alone 0 x >>= fun y => pure [y] := by
  induction p with
  | last f => exact runStage_singleton f x
  | stage f rest ih =>
    rw [Pipeline.lockstep, Pipeline.alone, runStage_singleton, bind_assoc, bind_assoc]
    simp only [pure_bind, ih]

/-- An unbatched state is stepped as the lane with index 0. -/
theorem step_eq_stepAt {w : Workflow} {s : State} (hs : s.batchDims = []) :
    w.step s = w.stepAt 0 s := by
  have hlanes : (liftM ([s].mapM laneOf : Outcome (List Lane)) : Traced (List Lane)) =
      liftM (laneOf s) >>= fun lane => pure [lane] := by
    rw [List.mapM_cons]
    cases laneOf s <;> rfl
  have hflatten : (liftM s.flatten : Traced (List State)) = pure [s] := by
    rw [State.flatten_unbatched hs]
    rfl
  simp only [step, stepBy, stepAt, laneStep, hlanes, hflatten, hs, bind_assoc, pure_bind,
    lockstep_singleton]
  rfl

variable {w : Workflow} {pred : State → Outcome Bool} {index steps : Nat} {l r p : State}

/-- A lane steps on its own if it is ready, the stages succeed and the result can be placed. -/
theorem stepAt_eq_ok_iff : (w.stepAt index l).outcome = .ok p ↔
    w.ensureReady l = .ok () ∧ ∃ next, (w.laneStep index l).outcome = .ok next ∧
      w.place next = .ok p := by
  simp only [stepAt, Traced.outcome_bind, Traced.outcome_liftM, Outcome.bind_eq_ok_iff]
  constructor
  · rintro ⟨⟨⟩, hready, next, hnext, hp⟩
    exact ⟨hready, next, hnext, hp⟩
  · rintro ⟨hready, next, hnext, hp⟩
    exact ⟨(), hready, next, hnext, hp⟩

/-- What is noted is what the stages note. -/
theorem notes_stepAt (h : (w.stepAt index l).outcome = .ok p) :
    (w.stepAt index l).notes = (w.laneStep index l).notes := by
  obtain ⟨hready, next, hnext, hp⟩ := stepAt_eq_ok_iff.1 h
  rw [stepAt, Traced.liftM_bind_of_ok hready, Traced.notes_bind_of_ok hnext,
    Traced.notes_liftM, List.append_nil]

/-- A lane whose condition fails stays as it is. -/
theorem ownRounds_of_false (h : pred l = .ok false) :
    w.ownRounds pred index steps l = pure l := by
  cases steps with
  | zero => rfl
  | succ steps =>
    rw [ownRounds, h]
    rfl

/-- Otherwise it steps, and goes on with one step less. -/
theorem ownRounds_of_true (h : pred l = .ok true) : w.ownRounds pred index (steps + 1) l =
    w.stepAt index l >>= w.ownRounds pred index steps := by
  rw [ownRounds, h]
  rfl

theorem ownCount_of_false (h : pred l = .ok false) : w.ownCount pred index steps l = 0 := by
  cases steps with
  | zero => rfl
  | succ steps => rw [ownCount, h]

theorem ownCount_of_true (h : pred l = .ok true) (hr : (w.stepAt index l).outcome = .ok r) :
    w.ownCount pred index (steps + 1) l = w.ownCount pred index steps r + 1 := by
  rw [ownCount, h, hr]

/-- A lane takes no more steps than it is given. -/
theorem ownCount_le_steps {steps : Nat} :
    ∀ {l : State}, w.ownCount pred index steps l ≤ steps := by
  induction steps with
  | zero => exact Nat.le_refl 0
  | succ steps ih =>
    intro l
    rw [ownCount]
    split
    · exact Nat.succ_le_succ ih
    · exact Nat.zero_le _

/-- The rounds of a loop are the most steps that any of its lanes takes. -/
theorem roundCount_le_iff {ls : List State} {n : Nat} : w.roundCount pred steps ls ≤ n ↔
    ∀ (i : Nat) (l : State), ls[i]? = some l → w.ownCount pred i steps l ≤ n := by
  have hmax : ∀ ns : List Nat, ns.foldr max 0 ≤ n ↔ ∀ m ∈ ns, m ≤ n := by
    intro ns
    induction ns with
    | nil => simp
    | cons m ns ih => rw [List.foldr_cons, Nat.max_le, ih, List.forall_mem_cons]
  rw [roundCount, hmax]
  constructor
  · intro h i l hl
    refine h _ (List.mem_iff_getElem?.2 ⟨i, ?_⟩)
    rw [List.getElem?_mapIdx, hl]
    rfl
  · intro h m hm
    obtain ⟨i, hi⟩ := List.mem_iff_getElem?.1 hm
    rw [List.getElem?_mapIdx] at hi
    obtain ⟨l, hl, rfl⟩ := Option.map_eq_some_iff.1 hi
    exact h i l hl

/-- No lane takes more steps than there are rounds. -/
theorem ownCount_le_roundCount {ls : List State} (hl : ls[index]? = some l) :
    w.ownCount pred index steps l ≤ w.roundCount pred steps ls :=
  roundCount_le_iff.1 (Nat.le_refl _) index l hl

theorem roundCount_le_steps {ls : List State} : w.roundCount pred steps ls ≤ steps :=
  roundCount_le_iff.2 fun _ _ _ => ownCount_le_steps

/-! ## One monitor is heard -/

variable {name : String}

theorem outcome_stepAt_hearing :
    ((w.hearing name).stepAt index l).outcome = (w.stepAt index l).outcome := by
  simp only [stepAt, Traced.outcome_bind, Traced.outcome_liftM, outcome_laneStep_hearing]
  rfl

/-- A listener does not change where a lane ends. -/
theorem outcome_ownRounds_hearing {steps : Nat} :
    ∀ {l : State}, ((w.hearing name).ownRounds pred index steps l).outcome =
      (w.ownRounds pred index steps l).outcome := by
  induction steps with
  | zero => exact rfl
  | succ steps ih =>
    intro l
    simp only [ownRounds, Traced.outcome_bind, Traced.outcome_liftM, apply_ite Traced.outcome,
      outcome_stepAt_hearing, ih]

/-- Nor does it change how many steps the lane takes. -/
theorem ownCount_hearing {steps : Nat} :
    ∀ {l : State}, (w.hearing name).ownCount pred index steps l =
      w.ownCount pred index steps l := by
  induction steps with
  | zero => exact rfl
  | succ steps ih =>
    intro l
    simp only [ownCount, outcome_stepAt_hearing, ih]

theorem roundCount_hearing {ls : List State} :
    (w.hearing name).roundCount pred steps ls = w.roundCount pred steps ls := by
  simp only [roundCount, ownCount_hearing]

end Workflow

end Lockstep
