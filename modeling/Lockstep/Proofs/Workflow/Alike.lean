import Lockstep.Proofs.Workflow.SideBySide

/-!
# Lanes that fare alike

`Workflow.Alike w R V` collects what makes a step succeed on one of two lanes that `R` relates when
it succeeds on the other, with related results (`Alike.laneStep`): related states have local states
that `V` relates, writing such ones keeps states related, and the components do not tell such local
states apart.
-/

namespace Lockstep

variable {α γ : Type}

namespace Pipeline

/-- Every stage takes related lanes to related lanes, and succeeds on the second of two related
lanes when it succeeds on the first. -/
inductive Respects (T : γ → γ → Prop) : {α : Type} → (α → α → Prop) → Pipeline γ α → Prop
  | last {α : Type} {S : α → α → Prop} {f : Nat → α → Traced γ} :
      (∀ i x x', S x x' → Outcome.Matches T (f i x).outcome (f i x').outcome) →
      Respects T S (.last f)
  | stage {α β : Type} {S : α → α → Prop} (S' : β → β → Prop) {f : Nat → α → Traced β}
      {rest : Pipeline γ β} :
      (∀ i x x', S x x' → Outcome.Matches S' (f i x).outcome (f i x').outcome) →
      Respects T S' rest → Respects T S (.stage f rest)

theorem Respects.alone {T : γ → γ → Prop} {S : α → α → Prop} {p : Pipeline γ α}
    (h : p.Respects T S) {i : Nat} {x x' : α} (hx : S x x') :
    Outcome.Matches T (p.alone i x).outcome (p.alone i x').outcome := by
  induction h with
  | last hf => exact hf i x x' hx
  | stage S' hf _ ih =>
    rw [Pipeline.alone, Pipeline.alone, Traced.outcome_bind, Traced.outcome_bind]
    exact (hf i x x' hx).bind fun y y' hy => ih hy

end Pipeline

namespace Workflow

open Outcome (Matches)

/-- Related states are read and written alike, and no component tells related local states apart. -/
structure Alike (w : Workflow) (R : State → State → Prop) (V : LocalState → LocalState → Prop) :
    Prop where
  resolve : ∀ {s s'} path, R s s' → Matches V (s.resolve path) (s'.resolve path)
  update : ∀ {s s' l l'} path, R s s' → V l l' → Matches R (s.update path l) (s'.update path l')
  tensor : ∀ {l l'} name, V l l' → l.tensor name = l'.tensor name
  setTensor : ∀ {l l'} name t, V l l' → V (l.setTensor name t) (l'.setTensor name t)
  ask : ∀ {ctx l l'}, V l l' → Matches (fun r r' => r'.1 = r.1 ∧ V r.2 r'.2)
    (w.algorithm.ask ctx l) (w.algorithm.ask ctx l')
  tell : ∀ {ctx l l' fitness}, V l l' →
    Matches V (w.algorithm.tell ctx l fitness) (w.algorithm.tell ctx l' fitness)
  evaluate : ∀ {ctx l l' candidates}, V l l' → Matches (fun r r' => r'.1 = r.1 ∧ V r.2 r'.2)
    (w.problem.evaluate ctx l candidates).outcome (w.problem.evaluate ctx l' candidates).outcome
  observe : ∀ {slot node s s' generation lane l l' call}, slot ∈ w.monitors → R s s' → V l l' →
    Matches (Option.Rel V) (slot.monitor.observe ⟨node, s, generation, lane⟩ l call).outcome
      (slot.monitor.observe ⟨node, s', generation, lane⟩ l' call).outcome

namespace Alike

variable {w : Workflow} {R : State → State → Prop} {V : LocalState → LocalState → Prop}

theorem dispatch (h : w.Alike R V) {call : HookCall} {generation : UInt64} {index : Nat} :
    ∀ {slots : List MonitorSlot} {s s' : State}, (∀ slot ∈ slots, slot ∈ w.monitors) → R s s' →
      Matches R (dispatch call generation index slots s).outcome
        (dispatch call generation index slots s').outcome
  | [], _, _, _, hs => .ok hs
  | slot :: rest, s, s', hslots, hs => by
    obtain ⟨hslot, hrest⟩ := List.forall_mem_cons.1 hslots
    rw [Workflow.dispatch, Workflow.dispatch]
    split
    · simp only [Traced.outcome_bind, Traced.outcome_liftM]
      refine (h.resolve _ hs).bind fun l l' hl =>
        (h.observe hslot hs hl).bind fun seen seen' hseen => ?_
      cases hseen with
      | none => exact h.dispatch hrest hs
      | some hlocal =>
        simp only [Traced.outcome_bind, Traced.outcome_liftM]
        exact (h.update _ hs hlocal).bind fun t t' ht => h.dispatch hrest ht
    · exact h.dispatch hrest hs

theorem laneOf (h : w.Alike R V) {s s' : State} (hs : R s s') :
    Matches (LaneRel R) (laneOf s) (Workflow.laneOf s') := by
  refine (h.resolve "" hs).bind fun root root' hroot => ?_
  rw [LocalState.number, LocalState.number, h.tensor _ hroot, h.tensor _ hroot]
  refine Matches.bind_same fun t => ?_
  refine Matches.bind_same fun key => ?_
  refine Matches.bind_same fun generation => ?_
  exact .ok ⟨hs, rfl, rfl⟩

theorem observed (h : w.Alike R V) {call : HookCall} {i : Nat} {x x' : Lane}
    (hx : LaneRel R x x') :
    Matches (LaneRel R) (w.observed call i x).outcome (w.observed call i x').outcome := by
  obtain ⟨hs, hkey, hgeneration⟩ := hx
  rw [Workflow.observed, Workflow.observed, Traced.outcome_bind, Traced.outcome_bind, hgeneration]
  exact (h.dispatch (fun _ => id) hs).bind fun t t' ht => .ok ⟨ht, hkey, rfl⟩

/-- Related lanes call a component with the same random stream. -/
theorem stepContext_eq {x x' : Lane} (hx : LaneRel R x x') (node : NodeContext) (i : Nat)
    (stream : UInt64) : stepContext node x' i stream = stepContext node x i stream := by
  rw [stepContext, stepContext, hx.2.1, hx.2.2]

theorem askLane (h : w.Alike R V) {i : Nat} {x x' : Lane} (hx : LaneRel R x x') :
    Matches (AskedRel R) (w.ask i x) (w.ask i x') := by
  refine (h.resolve _ hx.1).bind fun l l' hl => ?_
  rw [stepContext_eq hx]
  refine (h.ask hl).bind ?_
  rintro ⟨candidates, m⟩ ⟨candidates', m'⟩ ⟨hc, hm⟩
  obtain rfl : candidates = candidates' := hc.symm
  refine Matches.bind_same fun n => ?_
  -- how many candidates there should be is the same on both sides
  have hwrite : Matches (AskedRel R)
      (do return { x with state := ← x.state.update w.algorithmNode.path m, candidates })
      (do return { x' with state := ← x'.state.update w.algorithmNode.path m', candidates }) :=
    (h.update _ hx.1 hm).bind fun t t' ht => .ok ⟨⟨ht, hx.2⟩, rfl⟩
  dsimp only
  split
  · split
    · exact .error
    · exact hwrite
  · exact hwrite

theorem transformLane {x x' : AskedLane} (hx : AskedRel R x x') :
    Matches (AskedRel R) (w.transformLane x) (w.transformLane x') := by
  rw [Workflow.transformLane, Workflow.transformLane, hx.2]
  refine Matches.bind_same fun c => ?_
  exact Matches.bind_same fun _ => .ok ⟨hx.1, rfl⟩

theorem evaluateLane (h : w.Alike R V) {i : Nat} {x x' : AskedLane} (hx : AskedRel R x x') :
    Matches (EvaluatedRel R) (w.evaluate i x).outcome (w.evaluate i x').outcome := by
  simp only [Workflow.evaluate, Traced.outcome_bind, Traced.outcome_liftM, hx.2]
  refine Matches.bind_same fun n => ?_
  refine (h.resolve _ hx.1.1).bind fun l l' hl => ?_
  rw [stepContext_eq hx.1]
  refine (h.evaluate hl).bind ?_
  rintro ⟨fitness, m⟩ ⟨fitness', m'⟩ ⟨hf, hm⟩
  obtain rfl : fitness = fitness' := hf.symm
  dsimp only
  split
  · simp only [Traced.outcome_bind, Traced.outcome_liftM]
    exact (h.update _ hx.1.1 hm).bind fun t t' ht => .ok ⟨⟨⟨ht, hx.1.2⟩, rfl⟩, rfl⟩
  · exact .error

theorem tellLane (h : w.Alike R V) {i : Nat} {x x' : EvaluatedLane} (hx : EvaluatedRel R x x') :
    Matches (EvaluatedRel R) (w.tell i x) (w.tell i x') := by
  obtain ⟨⟨hlane, hcandidates⟩, hfitness⟩ := hx
  refine (h.resolve _ hlane.1).bind fun l l' hl => ?_
  rw [stepContext_eq hlane, hfitness]
  refine (h.tell hl).bind fun m m' hm => ?_
  exact (h.update _ hlane.1 hm).bind fun t t' ht => .ok ⟨⟨⟨ht, hlane.2⟩, hcandidates⟩, rfl⟩

theorem advance (h : w.Alike R V) {x x' : Lane} (hx : LaneRel R x x') :
    Matches R (advance x) (Workflow.advance x') := by
  obtain ⟨hs, -, hgeneration⟩ := hx
  rw [Workflow.advance, Workflow.advance, hgeneration]
  refine (h.resolve "" hs).bind fun root root' hroot => .bind_same fun next => ?_
  exact h.update "" hs (h.setTensor _ _ hroot)

theorem stages (h : w.Alike R V) : w.stages.Respects R (LaneRel R) := by
  refine .stage (LaneRel R) (fun i x x' hx => h.observed hx) ?_
  refine .stage (AskedRel R) (fun i x x' hx => h.askLane hx) ?_
  refine .stage (AskedRel R) (fun i x x' hx => ?_) ?_
  · rw [Traced.outcome_bind, Traced.outcome_bind, hx.2]
    exact (h.observed hx.1).bind fun y y' hy => .ok ⟨hy, rfl⟩
  refine .stage (AskedRel R) (fun i x x' hx => transformLane hx) ?_
  refine .stage (AskedRel R) (fun i x x' hx => ?_) ?_
  · rw [Traced.outcome_bind, Traced.outcome_bind, hx.2]
    exact (h.observed hx.1).bind fun y y' hy => .ok ⟨hy, rfl⟩
  refine .stage (EvaluatedRel R) (fun i x x' hx => h.evaluateLane hx) ?_
  refine .stage (EvaluatedRel R) (fun i x x' hx => ?_) ?_
  · rw [Traced.outcome_bind, Traced.outcome_bind, hx.1.2, hx.2]
    exact (h.observed hx.1.1).bind fun y y' hy => .ok ⟨⟨hy, rfl⟩, rfl⟩
  refine .stage (EvaluatedRel R) (fun i x x' hx => ?_) ?_
  · rw [Traced.outcome_bind, Traced.outcome_bind, hx.2]
    exact (h.observed hx.1.1).bind fun y y' hy => .ok ⟨⟨hy, hx.1.2⟩, rfl⟩
  refine .stage (EvaluatedRel R) (fun i x x' hx => h.tellLane hx) ?_
  refine .stage (LaneRel R) (fun i x x' hx => h.observed hx.1.1) ?_
  exact .last fun i x x' hx => h.advance hx

/-- Related lanes go through a step alike. -/
theorem laneStep (h : w.Alike R V) {i : Nat} {s s' : State} (hs : R s s') :
    Matches R (w.laneStep i s).outcome (w.laneStep i s').outcome := by
  rw [Workflow.laneStep, Workflow.laneStep, Traced.outcome_bind, Traced.outcome_bind]
  exact (h.laneOf hs).bind fun x x' hx => h.stages.alone hx

end Alike

end Workflow

end Lockstep
