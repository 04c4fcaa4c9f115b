import Lockstep.Proofs.State.Lanes
import Lockstep.Proofs.Workflow.LaneByLane
import Lockstep.Proofs.Workflow.Stages
import Lockstep.Workflow.Run

/-!
# Two workflows side by side

`Workflow.LaneKept w w' P R` collects what makes a relation `R` between states survive every stage
of two workflows with the same algorithm, problem and transform: related states agree on the nodes
that these read, writing the same local state there keeps them related, and so do hooks. If
stacking, taking apart and placing keep it too (`Workflow.Kept`), then runs from related states end
in related states (`Kept.run_related`).
-/

namespace Lockstep

variable {α γ : Type}

namespace Pipeline

/-- Two pipelines whose stages take related lanes to related lanes. -/
inductive Related (T : γ → γ → Prop) :
    {α : Type} → (α → α → Prop) → Pipeline γ α → Pipeline γ α → Prop
  | last {α : Type} {S : α → α → Prop} {f f' : Nat → α → Traced γ} :
      (∀ i x x' y y', S x x' → (f i x).outcome = .ok y → (f' i x').outcome = .ok y' → T y y') →
      Related T S (.last f) (.last f')
  | stage {α β : Type} {S : α → α → Prop} (S' : β → β → Prop) {f f' : Nat → α → Traced β}
      {rest rest' : Pipeline γ β} :
      (∀ i x x' y y', S x x' → (f i x).outcome = .ok y → (f' i x').outcome = .ok y' → S' y y') →
      Related T S' rest rest' → Related T S (.stage f rest) (.stage f' rest')

/-- Two pipelines that are related lead related lanes to related results. -/
theorem Related.alone {T : γ → γ → Prop} {S : α → α → Prop} {p p' : Pipeline γ α}
    (h : p.Related T S p') {i : Nat} {x x' : α} {y y' : γ} (hx : S x x')
    (hy : (p.alone i x).outcome = .ok y) (hy' : (p'.alone i x').outcome = .ok y') : T y y' := by
  induction h with
  | last hf => exact hf i x x' y y' hx hy hy'
  | stage S' hf _ ih =>
    simp only [Pipeline.alone, Traced.outcome_bind] at hy hy'
    obtain ⟨z, hz, hy⟩ := Outcome.bind_eq_ok_iff.1 hy
    obtain ⟨z', hz', hy'⟩ := Outcome.bind_eq_ok_iff.1 hy'
    exact ih (hf i x x' z z' hx hz hz') hy hy'

end Pipeline

namespace Workflow

/-- Two workflows that differ in their monitors at most. -/
structure SameCore (w w' : Workflow) : Prop where
  algorithm : w'.algorithm = w.algorithm
  problem : w'.problem = w.problem
  transform : w'.transform = w.transform
  algorithmNode : w'.algorithmNode = w.algorithmNode
  problemNode : w'.problemNode = w.problemNode

/-- The nodes that the stages of a step read and write, apart from those of monitors. -/
def readPaths (w : Workflow) : List String := ["", w.algorithmNode.path, w.problemNode.path]

/-- All that is done to the state of a lane in a step keeps a relation between states, where the
local states that components are given, and give back, have a property. -/
structure LaneKept (w w' : Workflow) (P : LocalState → Prop) (R : State → State → Prop) : Prop where
  same : SameCore w w'
  resolve : ∀ {s s' path}, R s s' → path ∈ w.readPaths → s'.resolve path = s.resolve path
  read : ∀ {s s' path l}, R s s' → s.resolve path = .ok l → P l
  update : ∀ {s s' t t' path l}, R s s' → path ∈ w.readPaths → P l → s.update path l = .ok t →
    s'.update path l = .ok t' → R t t'
  ask : ∀ {ctx l candidates l'}, P l → w.algorithm.ask ctx l = .ok (candidates, l') → P l'
  tell : ∀ {ctx l fitness l'}, P l → w.algorithm.tell ctx l fitness = .ok l' → P l'
  evaluate : ∀ {ctx l candidates fitness l'}, P l →
    (w.problem.evaluate ctx l candidates).outcome = .ok (fitness, l') → P l'
  advance : ∀ {l : LocalState} {x}, P l → P (l.setNumber generationAttribute x)
  dispatch : ∀ {call generation index s s' t t'}, R s s' →
    (dispatch call generation index w.monitors s).outcome = .ok t →
    (dispatch call generation index w'.monitors s').outcome = .ok t' → R t t'

/-- What is done to whole batches keeps the relation too. -/
structure Kept (w w' : Workflow) (P : LocalState → Prop) (R : State → State → Prop) : Prop
    extends LaneKept w w' P R where
  batchDims : ∀ {s s'}, R s s' → s'.batchDims = s.batchDims
  unstack : ∀ {s s' xs xs'}, R s s' → s.unstack = .ok xs → s'.unstack = .ok xs' →
    List.Forall₂ R xs xs'
  stack : ∀ {xs xs' s s'}, List.Forall₂ R xs xs' → State.stack xs = .ok s →
    State.stack xs' = .ok s' → R s s'
  place : ∀ {s s' t t'}, R s s' → w.place s = .ok t → w'.place s' = .ok t' → R t t'

/-- Lanes with related states at the same point of their random streams. -/
def LaneRel (R : State → State → Prop) (lane lane' : Lane) : Prop :=
  R lane.state lane'.state ∧ lane'.key = lane.key ∧ lane'.generation = lane.generation

def AskedRel (R : State → State → Prop) (lane lane' : AskedLane) : Prop :=
  LaneRel R lane.toLane lane'.toLane ∧ lane'.candidates = lane.candidates

def EvaluatedRel (R : State → State → Prop) (lane lane' : EvaluatedLane) : Prop :=
  AskedRel R lane.toAskedLane lane'.toAskedLane ∧ lane'.fitness = lane.fitness

theorem outcome_return_eq_ok {α β : Type} {t : Traced α} {f : α → β} {y : β} :
    (do return f (← t) : Traced β).outcome = .ok y ↔ ∃ x, t.outcome = .ok x ∧ y = f x := by
  rw [Traced.outcome_bind, Outcome.bind_eq_ok_iff]
  constructor
  · rintro ⟨x, hx, h⟩
    exact ⟨x, hx, (Except.ok.inj h).symm⟩
  · rintro ⟨x, hx, rfl⟩
    exact ⟨x, hx, rfl⟩

variable {w w' : Workflow} {P : LocalState → Prop} {R : State → State → Prop}

namespace LaneKept

theorem laneOf_related (h : LaneKept w w' P R) {s s' : State} {lane lane' : Lane} (hs : R s s')
    (hl : laneOf s = .ok lane) (hl' : laneOf s' = .ok lane') :
    LaneRel R lane lane' := by
  obtain ⟨-, root, hroot, key, generation, hkey, hgeneration, rfl⟩ := laneOf_eq_ok hl
  obtain ⟨-, root', hroot', key', generation', hkey', hgeneration', rfl⟩ := laneOf_eq_ok hl'
  rw [h.resolve hs List.mem_cons_self, hroot] at hroot'
  obtain rfl := Except.ok.inj hroot'
  rw [hkey] at hkey'
  rw [hgeneration] at hgeneration'
  obtain rfl := Except.ok.inj hkey'
  obtain rfl := Except.ok.inj hgeneration'
  exact ⟨hs, rfl, rfl⟩

/-- A call to the monitors keeps two lanes related. -/
theorem observed_related (h : LaneKept w w' P R) {call : HookCall} {i : Nat} {x x' y y' : Lane}
    (hx : LaneRel R x x') (hy : (w.observed call i x).outcome = .ok y)
    (hy' : (w'.observed call i x').outcome = .ok y') : LaneRel R y y' := by
  obtain ⟨hs, hkey, hgeneration⟩ := hx
  obtain ⟨t, ht, rfl⟩ := observed_eq_ok_iff.1 hy
  obtain ⟨t', ht', rfl⟩ := observed_eq_ok_iff.1 hy'
  rw [hgeneration] at ht'
  exact ⟨h.dispatch hs ht ht', hkey, hgeneration⟩

/-- A component that reads the same node in related states writes the same local state. -/
theorem ask_related (h : LaneKept w w' P R) {i : Nat} {x x' : Lane} {y y' : AskedLane}
    (hx : LaneRel R x x') (hy : w.ask i x = .ok y) (hy' : w'.ask i x' = .ok y') :
    AskedRel R y y' := by
  obtain ⟨hs, hkey, hgeneration⟩ := hx
  obtain ⟨l, hl, candidates, m, hask, t, ht, rfl⟩ := ask_eq_ok hy
  obtain ⟨l', hl', candidates', m', hask', t', ht', rfl⟩ := ask_eq_ok hy'
  -- both read the same local state, with the same random stream
  have hmem : w.algorithmNode.path ∈ w.readPaths := by simp [readPaths]
  rw [h.same.algorithmNode, h.resolve hs hmem, hl] at hl'
  obtain rfl := Except.ok.inj hl'
  simp only [stepContext, h.same.algorithm, h.same.algorithmNode, hkey, hgeneration] at hask hask'
  rw [hask] at hask'
  obtain ⟨rfl, rfl⟩ := Prod.mk.inj (Except.ok.inj hask')
  rw [h.same.algorithmNode] at ht'
  exact ⟨⟨h.update hs hmem (h.ask (h.read hs hl) hask) ht ht', hkey, hgeneration⟩, rfl⟩

/-- The transformation of the candidates keeps two lanes related. -/
theorem transformLane_related (h : LaneKept w w' P R) {x x' y y' : AskedLane}
    (hx : AskedRel R x x') (hy : w.transformLane x = .ok y) (hy' : w'.transformLane x' = .ok y') :
    AskedRel R y y' := by
  obtain ⟨hlane, hcandidates⟩ := hx
  obtain ⟨candidates, ht, rfl⟩ := transformLane_eq_ok hy
  obtain ⟨candidates', ht', rfl⟩ := transformLane_eq_ok hy'
  rw [transformed, h.same.transform, hcandidates, ← transformed, ht] at ht'
  obtain rfl := Except.ok.inj ht'
  exact ⟨hlane, rfl⟩

/-- So does their evaluation. -/
theorem evaluate_related (h : LaneKept w w' P R) {i : Nat} {x x' : AskedLane}
    {y y' : EvaluatedLane} (hx : AskedRel R x x') (hy : (w.evaluate i x).outcome = .ok y)
    (hy' : (w'.evaluate i x').outcome = .ok y') : EvaluatedRel R y y' := by
  obtain ⟨⟨hs, hkey, hgeneration⟩, hcandidates⟩ := hx
  obtain ⟨l, hl, fitness, m, heval, t, ht, rfl⟩ := evaluate_eq_ok hy
  obtain ⟨l', hl', fitness', m', heval', t', ht', rfl⟩ := evaluate_eq_ok hy'
  have hmem : w.problemNode.path ∈ w.readPaths := by simp [readPaths]
  rw [h.same.problemNode, h.resolve hs hmem, hl] at hl'
  obtain rfl := Except.ok.inj hl'
  simp only [stepContext, h.same.problem, h.same.problemNode, hkey, hgeneration, hcandidates]
    at heval heval'
  rw [heval] at heval'
  obtain ⟨rfl, rfl⟩ := Prod.mk.inj (Except.ok.inj heval')
  rw [h.same.problemNode] at ht'
  exact ⟨⟨⟨h.update hs hmem (h.evaluate (h.read hs hl) heval) ht ht', hkey, hgeneration⟩,
    hcandidates⟩, rfl⟩

/-- So does telling the fitness. -/
theorem tell_related (h : LaneKept w w' P R) {i : Nat} {x x' y y' : EvaluatedLane}
    (hx : EvaluatedRel R x x') (hy : w.tell i x = .ok y) (hy' : w'.tell i x' = .ok y') :
    EvaluatedRel R y y' := by
  obtain ⟨⟨⟨hs, hkey, hgeneration⟩, hcandidates⟩, hfitness⟩ := hx
  obtain ⟨l, hl, m, htell, t, ht, rfl⟩ := tell_eq_ok hy
  obtain ⟨l', hl', m', htell', t', ht', rfl⟩ := tell_eq_ok hy'
  have hmem : w.algorithmNode.path ∈ w.readPaths := by simp [readPaths]
  rw [h.same.algorithmNode, h.resolve hs hmem, hl] at hl'
  obtain rfl := Except.ok.inj hl'
  simp only [stepContext, h.same.algorithm, h.same.algorithmNode, hkey, hgeneration, hfitness]
    at htell htell'
  rw [htell] at htell'
  obtain rfl := Except.ok.inj htell'
  rw [h.same.algorithmNode] at ht'
  exact ⟨⟨⟨h.update hs hmem (h.tell (h.read hs hl) htell) ht ht', hkey, hgeneration⟩,
    hcandidates⟩, hfitness⟩

/-- So does the end of a step. -/
theorem advance_related (h : LaneKept w w' P R) {x x' : Lane} {t t' : State}
    (hx : LaneRel R x x') (ht : Workflow.advance x = .ok t)
    (ht' : Workflow.advance x' = .ok t') :
    R t t' := by
  obtain ⟨hs, -, hgeneration⟩ := hx
  obtain ⟨-, root, hroot, ht⟩ := advance_eq_ok ht
  obtain ⟨-, root', hroot', ht'⟩ := advance_eq_ok ht'
  have hmem : "" ∈ w.readPaths := List.mem_cons_self
  rw [h.resolve hs hmem, hroot] at hroot'
  obtain rfl := Except.ok.inj hroot'
  rw [hgeneration] at ht'
  exact h.update hs hmem (h.advance (h.read hs hroot)) ht ht'

/-- All stages of a step together keep two lanes related. -/
theorem stages_related (h : LaneKept w w' P R) :
    w.stages.Related R (LaneRel R) w'.stages := by
  -- the stages in their order: from asking on both lanes hold the same candidates, and from
  -- evaluating on the same fitness too
  refine .stage (LaneRel R) (fun i x x' y y' hx hy hy' => h.observed_related hx hy hy') ?_
  refine .stage (AskedRel R) (fun i x x' y y' hx hy hy' => h.ask_related hx hy hy') ?_
  refine .stage (AskedRel R) (fun i x x' y y' hx hy hy' => ?_) ?_
  · obtain ⟨z, hz, rfl⟩ := outcome_return_eq_ok.1 hy
    obtain ⟨z', hz', rfl⟩ := outcome_return_eq_ok.1 hy'
    rw [hx.2] at hz'
    exact ⟨h.observed_related hx.1 hz hz', hx.2⟩
  refine .stage (AskedRel R) (fun i x x' y y' hx hy hy' => h.transformLane_related hx hy hy') ?_
  refine .stage (AskedRel R) (fun i x x' y y' hx hy hy' => ?_) ?_
  · obtain ⟨z, hz, rfl⟩ := outcome_return_eq_ok.1 hy
    obtain ⟨z', hz', rfl⟩ := outcome_return_eq_ok.1 hy'
    rw [hx.2] at hz'
    exact ⟨h.observed_related hx.1 hz hz', hx.2⟩
  refine .stage (EvaluatedRel R) (fun i x x' y y' hx hy hy' => h.evaluate_related hx hy hy') ?_
  refine .stage (EvaluatedRel R) (fun i x x' y y' hx hy hy' => ?_) ?_
  · obtain ⟨z, hz, rfl⟩ := outcome_return_eq_ok.1 hy
    obtain ⟨z', hz', rfl⟩ := outcome_return_eq_ok.1 hy'
    rw [hx.1.2, hx.2] at hz'
    exact ⟨⟨h.observed_related hx.1.1 hz hz', hx.1.2⟩, hx.2⟩
  refine .stage (EvaluatedRel R) (fun i x x' y y' hx hy hy' => ?_) ?_
  · obtain ⟨z, hz, rfl⟩ := outcome_return_eq_ok.1 hy
    obtain ⟨z', hz', rfl⟩ := outcome_return_eq_ok.1 hy'
    rw [hx.2] at hz'
    exact ⟨⟨h.observed_related hx.1.1 hz hz', hx.1.2⟩, hx.2⟩
  refine .stage (EvaluatedRel R) (fun i x x' y y' hx hy hy' => h.tell_related hx hy hy') ?_
  refine .stage (LaneRel R) (fun i x x' y y' hx hy hy' => h.observed_related hx.1.1 hy hy') ?_
  exact .last fun i x x' y y' hx hy hy' => h.advance_related hx hy hy'

/-- Lanes on their own go from related states to related states. -/
theorem laneStep_related (h : LaneKept w w' P R) {i : Nat} {s s' t t' : State} (hs : R s s')
    (ht : (w.laneStep i s).outcome = .ok t) (ht' : (w'.laneStep i s').outcome = .ok t') :
    R t t' := by
  rw [laneStep, Traced.outcome_bind] at ht ht'
  obtain ⟨lane, hlane, ht⟩ := Outcome.bind_eq_ok_iff.1 ht
  obtain ⟨lane', hlane', ht'⟩ := Outcome.bind_eq_ok_iff.1 ht'
  exact h.stages_related.alone (h.laneOf_related hs hlane hlane') ht ht'

end LaneKept

namespace Kept

/-- A step takes related states to related states. -/
theorem step_related (h : Kept w w' P R) {s s' t t' : State} (hs : R s s')
    (ht : (w.step s).outcome = .ok t) (ht' : (w'.step s').outcome = .ok t') : R t t' := by
  obtain ⟨ls, hls, Fs, hlength, hFs, next, hnext, ht⟩ := step_eq_ok ht
  obtain ⟨ls', hls', Fs', hlength', hFs', next', hnext', ht'⟩ := step_eq_ok ht'
  -- related states have related lanes, and these have related results
  have hdims := h.batchDims hs
  have hlanes : List.Forall₂ R ls ls' :=
    State.forall₂_of_flatten (fun _ _ _ _ hx hy hy' => h.unstack hx hy hy') hs hdims hls hls'
  have hstates : List.Forall₂ R Fs Fs' := by
    refine Outcome.forall₂_of_forall (by rw [← hlength, ← hlength', hlanes.length_eq]) ?_
    intro i F F' hF hF'
    have hlt : i < ls.length := hlength ▸ (List.getElem?_eq_some_iff.1 hF).1
    have hlt' : i < ls'.length := hlength' ▸ (List.getElem?_eq_some_iff.1 hF').1
    exact h.laneStep_related (hlanes.get hlt hlt')
      (hFs i _ F (List.getElem?_eq_getElem hlt) hF)
      (hFs' i _ F' (List.getElem?_eq_getElem hlt') hF')
  rw [hdims] at hnext'
  have hput := State.rel_of_unflatten
    (fun _ _ _ _ hx hy hy' => h.stack hx hy hy') hstates hnext hnext'
  exact h.place hput ht ht'

/-- Runs from related states end in related states. -/
theorem run_related (h : Kept w w' P R) {steps : Nat} :
    ∀ {s s' t t' : State}, R s s' → (w.run steps s).outcome = .ok t →
      (w'.run steps s').outcome = .ok t' → R t t' := by
  induction steps with
  | zero =>
    intro s s' t t' hs ht ht'
    obtain rfl := Except.ok.inj ht
    obtain rfl := Except.ok.inj ht'
    exact hs
  | succ steps ih =>
    intro s s' t t' hs ht ht'
    rw [run, Traced.outcome_bind] at ht ht'
    obtain ⟨u, hu, ht⟩ := Outcome.bind_eq_ok_iff.1 ht
    obtain ⟨u', hu', ht'⟩ := Outcome.bind_eq_ok_iff.1 ht'
    exact ih (h.step_related hs hu hu') ht ht'

end Kept

/-! ## What components keep -/

/-- Hooks keep a property of states when monitors keep one of their local states. -/
theorem keeps_dispatch {Q : State → Prop} {P : LocalState → Prop}
    (hread : ∀ {s : State} {path : String} {l : LocalState}, Q s → s.resolve path = .ok l → P l)
    (hwrite : ∀ {s t : State} {path : String} {l : LocalState}, Q s → P l →
      s.update path l = .ok t → Q t)
    {call : HookCall} {generation : UInt64} {index : Nat} :
    ∀ {slots : List MonitorSlot} {s t : State},
      (∀ slot ∈ slots, ∀ {ctx l l'}, Q ctx.state → P l →
        (slot.monitor.observe ctx l call).outcome = .ok (some l') → P l') →
      Q s → (dispatch call generation index slots s).outcome = .ok t → Q t
  | [], s, t, _, hs, h => by
    obtain rfl := Except.ok.inj h
    exact hs
  | slot :: rest, s, t, hslots, hs, h => by
    obtain ⟨hslot, hrest⟩ := List.forall_mem_cons.1 hslots
    obtain ⟨u, hu, rfl | ⟨l, l', hl, hseen, hput⟩⟩ := dispatch_cons_eq_ok h
    · exact keeps_dispatch hread hwrite hrest hs hu
    · exact keeps_dispatch hread hwrite hrest (hwrite hs (hslot hs (hread hs hl) hseen) hput) hu

/-- The components keep a property of local states, and with it one of states. -/
structure Keeps (w : Workflow) (P : LocalState → Prop) (Q : State → Prop) : Prop where
  read : ∀ {s path l}, Q s → s.resolve path = .ok l → P l
  write : ∀ {s t path l}, Q s → P l → s.update path l = .ok t → Q t
  ask : ∀ {ctx l candidates l'}, P l → w.algorithm.ask ctx l = .ok (candidates, l') → P l'
  tell : ∀ {ctx l fitness l'}, P l → w.algorithm.tell ctx l fitness = .ok l' → P l'
  evaluate : ∀ {ctx l candidates fitness l'}, P l →
    (w.problem.evaluate ctx l candidates).outcome = .ok (fitness, l') → P l'
  advance : ∀ {l : LocalState} {x}, P l → P (l.setNumber generationAttribute x)
  observe : ∀ {slot ctx l call l'}, slot ∈ w.monitors → Q ctx.state → P l →
    (slot.monitor.observe ctx l call).outcome = .ok (some l') → P l'

namespace Keeps

variable {Q : State → Prop}

/-- A workflow beside itself: the same state on both sides. -/
theorem laneKept (h : w.Keeps P Q) : LaneKept w w P fun s s' => s' = s ∧ Q s where
  same := ⟨rfl, rfl, rfl, rfl, rfl⟩
  resolve := fun ⟨hs, _⟩ _ => by rw [hs]
  read := fun ⟨_, hs⟩ hl => h.read hs hl
  update := by
    rintro s _ t t' path l ⟨rfl, hs⟩ - hl ht ht'
    rw [ht] at ht'
    exact ⟨(Except.ok.inj ht').symm, h.write hs hl ht⟩
  ask := h.ask
  tell := h.tell
  evaluate := h.evaluate
  advance := h.advance
  dispatch := by
    rintro call generation index s _ t t' ⟨rfl, hs⟩ ht ht'
    rw [ht] at ht'
    exact ⟨(Except.ok.inj ht').symm,
      keeps_dispatch h.read h.write (fun _ hmem => h.observe hmem) hs ht⟩

/-- What a workflow keeps is kept by the step of a lane. -/
theorem laneStep (h : w.Keeps P Q) {i : Nat} {s t : State} (hs : Q s)
    (ht : (w.laneStep i s).outcome = .ok t) : Q t :=
  (h.laneKept.laneStep_related ⟨rfl, hs⟩ ht ht).2

end Keeps

/-! ## What every write keeps -/

/-- What writing a local state keeps is kept by a call to the monitors. -/
theorem of_dispatch {Q : State → Prop}
    (hQ : ∀ {s t : State} {path : String} {l : LocalState}, Q s → s.update path l = .ok t → Q t)
    {call : HookCall} {generation : UInt64} {index : Nat} {slots : List MonitorSlot} {s t : State}
    (hs : Q s) (h : (dispatch call generation index slots s).outcome = .ok t) : Q t :=
  keeps_dispatch (P := fun _ => True) (fun _ _ => trivial) (fun hs _ ht => hQ hs ht)
    (fun _ _ _ _ _ _ _ _ => trivial) hs h

/-- A lane on its own keeps what every write at a node keeps. -/
theorem of_laneStep {w : Workflow} {Q : State → Prop}
    (hQ : ∀ {s t : State} {path : String} {l : LocalState}, Q s → s.update path l = .ok t → Q t)
    {i : Nat} {s t : State} (hs : Q s) (ht : (w.laneStep i s).outcome = .ok t) : Q t := by
  have hkeeps : w.Keeps (fun _ => True) Q :=
    ⟨fun _ _ => trivial, fun hs _ ht => hQ hs ht, fun _ _ => trivial, fun _ _ => trivial,
      fun _ _ => trivial, fun _ => trivial, fun _ _ _ _ => trivial⟩
  exact hkeeps.laneStep hs ht

theorem batchDims_of_update {dims : List Nat} {s t : State} {path : String} {l : LocalState}
    (hs : s.batchDims = dims) (h : s.update path l = .ok t) : t.batchDims = dims := by
  obtain ⟨-, rfl⟩ := State.update_eq_ok_iff.1 h
  exact hs

theorem batchDims_of_dispatch {call : HookCall} {generation : UInt64} {index : Nat}
    {slots : List MonitorSlot} {s t : State}
    (h : (dispatch call generation index slots s).outcome = .ok t) : t.batchDims = s.batchDims :=
  of_dispatch (Q := fun t => t.batchDims = s.batchDims) batchDims_of_update rfl h

/-- A lane keeps its batch axes in a step. -/
theorem batchDims_of_laneStep {w : Workflow} {i : Nat} {s t : State}
    (h : (w.laneStep i s).outcome = .ok t) : t.batchDims = s.batchDims :=
  of_laneStep (Q := fun t => t.batchDims = s.batchDims) batchDims_of_update rfl h

end Workflow

end Lockstep
