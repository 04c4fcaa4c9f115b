import Lockstep.Proofs.State.Lanes
import Lockstep.Proofs.Workflow.Notes
import Lockstep.Workflow.Run

/-!
# Lanes with slots

A lane gains its candidates and its fitness on its way through a step. Here it has slots for them
instead, which are empty at first, and the stages are a list (`protocol`) of things done to such
lanes: whoever reads an empty slot fails, and so does a hook that is not shown what belongs to it
(`perform`). When a stage begins, all slots that it reads are filled (`available`), and so the lanes
fare as they do without slots, in a step (`slottedStep_eq`) and when a metric is read
(`slottedMetric_eq`).
-/

namespace Lockstep

/-! ## Two computations side by side -/

namespace Traced

variable {α β α' β' : Type}

theorem ofOutcome_bind (o : Outcome α) (f : α → Outcome β) :
    ofOutcome (o >>= f) = (liftM o : Traced α) >>= fun x => ofOutcome (f x) := by
  cases o <;> rfl

/-- The two note the same and end alike: in the same failure or with related results. -/
inductive Related (R : α → β → Prop) : Traced α → Traced β → Prop
  | ok {x : α} {y : β} (notes : List Note) : R x y → Related R ⟨notes, .ok x⟩ ⟨notes, .ok y⟩
  | error (notes : List Note) (e : Error) : Related R ⟨notes, .error e⟩ ⟨notes, .error e⟩

namespace Related

variable {R : α → β → Prop} {S : α' → β' → Prop}

theorem pure {x : α} {y : β} (h : R x y) : Related R (Pure.pure x) (Pure.pure y) := .ok [] h

theorem eq {t u : Traced α} (h : Related Eq t u) : t = u := by
  cases h with
  | ok notes hxy => rw [hxy]
  | error notes e => rfl

theorem bind {t : Traced α} {u : Traced β} {f : α → Traced α'} {g : β → Traced β'}
    (h : Related R t u) (hf : ∀ x y, R x y → Related S (f x) (g y)) :
    Related S (t >>= f) (u >>= g) := by
  cases h with
  | @ok x y notes hxy =>
    rw [bind_of_ok rfl, bind_of_ok rfl]
    generalize hfx : f x = a
    generalize hgy : g y = b
    have hab : Related S a b := hfx ▸ hgy ▸ hf x y hxy
    cases hab with
    | ok more hz => exact .ok (notes ++ more) hz
    | error more e => exact .error (notes ++ more) e
  | error notes e => exact .error notes e

/-- Two computations that begin in the same way. -/
theorem bind_same (t : Traced α) {f : α → Traced α'} {g : α → Traced β'}
    (hf : ∀ x, Related S (f x) (g x)) : Related S (t >>= f) (t >>= g) := by
  have ht : Related Eq t t := by
    obtain ⟨notes, e | x⟩ := t
    · exact .error notes e
    · exact .ok notes rfl
  exact ht.bind fun x _ hx => hx ▸ hf x

/-- A computation next to one that makes something else of its result. -/
theorem map_left {Q : β → α → Prop} {t : Traced α} {f : α → β}
    (hf : ∀ x, t.outcome = .ok x → Q (f x) x) : Related Q (t >>= fun x => Pure.pure (f x)) t := by
  obtain ⟨notes, e | x⟩ := t
  · exact .error notes e
  · have hbind : (⟨notes, .ok x⟩ >>= fun x => Pure.pure (f x) : Traced β) = ⟨notes, .ok (f x)⟩ :=
      (bind_of_ok rfl _).trans (congrArg (Traced.mk · _) (List.append_nil notes))
    rw [hbind]
    exact .ok notes (hf x rfl)

theorem all {ts : List (Traced α)} {us : List (Traced β)} (h : List.Forall₂ (Related R) ts us) :
    Related (List.Forall₂ R) (all ts) (all us) := by
  induction h with
  | nil => exact .pure .nil
  | @cons t u ts us hhead _ ih =>
    rw [Traced.all, Traced.all]
    generalize Traced.all ts = ts' at ih ⊢
    generalize Traced.all us = us' at ih ⊢
    cases hhead with
    | ok notes hxy =>
      cases ih with
      | ok more hrest => exact .ok (notes ++ more) (.cons hxy hrest)
      | error more e => exact .error (notes ++ more) e
    | error notes e =>
      cases ih with
      | ok more _ => exact .error (notes ++ more) e
      | error more _ => exact .error (notes ++ more) e

theorem runStage {f : Nat → α → Traced α'} {g : Nat → β → Traced β'}
    (hf : ∀ i x y, R x y → Related S (f i x) (g i y)) {xs : List α} {ys : List β}
    (hxs : List.Forall₂ R xs ys) : Related (List.Forall₂ S) (runStage f xs) (runStage g ys) := by
  refine all ?_
  induction hxs generalizing f g with
  | nil => exact .nil
  | cons hhead _ ih =>
    rw [List.mapIdx_cons, List.mapIdx_cons]
    exact .cons (hf 0 _ _ hhead) (ih fun i x y hxy => hf (i + 1) x y hxy)

end Related

end Traced

/-! ## Slots -/

/-- A lane with slots for its candidates and for their fitness. -/
structure Scratch extends Lane where
  candidates : Option Candidates := none
  fitness : Option Tensor := none

/-- What monitors are shown at a hook. -/
inductive HookArguments where
  | empty
  | candidates (candidates : Candidates)
  | fitness (fitness : Tensor)
  | evaluated (candidates : Candidates) (fitness : Tensor)

/-- What is done to all lanes before the step goes on. -/
inductive StepStage where
  | hooks (hook : Hook)
  | ask
  | transform
  | evaluate
  | tell
  | advance
deriving DecidableEq

namespace StepStage

/-- The stage reads the candidates of the lane. -/
def readsCandidates : StepStage → Bool
  | .hooks hook => hook = .postAsk || hook = .preEval || hook = .postEval
  | .transform => true
  | .evaluate => true
  | _ => false

/-- The stage reads the fitness of the candidates. -/
def readsFitness : StepStage → Bool
  | .hooks hook => hook = .postEval || hook = .preTell
  | .tell => true
  | _ => false

end StepStage

namespace Scratch

/-- The lane at the start of a step. -/
def ofLane (lane : Lane) : Scratch := { lane with }

def readCandidates (x : Scratch) : Outcome Candidates :=
  match x.candidates with
  | some candidates => .ok candidates
  | none => .error (.internal (.custom "candidates read before ask"))

def readFitness (x : Scratch) : Outcome Tensor :=
  match x.fitness with
  | some fitness => .ok fitness
  | none => .error (.internal (.custom "fitness read before evaluate"))

/-- What monitors are shown of a lane at a hook. -/
def arguments (x : Scratch) : Hook → Outcome HookArguments
  | .postAsk | .preEval => do return .candidates (← x.readCandidates)
  | .postEval => do return .evaluated (← x.readCandidates) (← x.readFitness)
  | .preTell => do return .fitness (← x.readFitness)
  | .setup | .preAsk | .postTell => .ok .empty

end Scratch

/-- A hook with what is shown there, which must be what belongs to the hook. -/
def HookArguments.call : Hook → HookArguments → Outcome HookCall
  | .setup, _ => .ok .setup
  | .preAsk, _ => .ok .preAsk
  | .postAsk, .candidates c => .ok (.postAsk c)
  | .preEval, .candidates c => .ok (.preEval c)
  | .postEval, .evaluated c f => .ok (.postEval c f)
  | .preTell, .fitness f => .ok (.preTell f)
  | .postTell, _ => .ok .postTell
  | hook, _ => .error (.internal (.custom s!"hook {hook.name} dispatched without its arguments"))

namespace Workflow

/-- Runs a hook on the monitors that subscribe to it, one after another. -/
def dispatchArguments (hook : Hook) (arguments : HookArguments) (generation : UInt64) (lane : Nat) :
    List MonitorSlot → State → Traced State
  | [], s => pure s
  | slot :: rest, s =>
    if slot.monitor.hooks.contains hook then do
      let l ← s.resolve slot.node.path
      let call ← arguments.call hook
      match ← slot.monitor.observe ⟨slot.node, s, generation, lane⟩ l call with
      | some l =>
        dispatchArguments hook arguments generation lane rest (← s.update slot.node.path l)
      | none => dispatchArguments hook arguments generation lane rest s
    else dispatchArguments hook arguments generation lane rest s

/-- The candidates are taken out of their slot and their transform is put in. -/
def transformSlot (w : Workflow) (x : Scratch) : Outcome Scratch :=
  match w.transform with
  | none => .ok x
  | some f => do
    let raw ← x.readCandidates
    let x := { x with candidates := none }
    let n ← raw.size
    let input ← f raw
    let m ← input.size
    if m ≠ n then InputFault.fail (.batchSizeChanged n m)
    else return { x with candidates := some input }

/-- A stage of a lane with slots. -/
def perform (w : Workflow) : StepStage → Nat → Scratch → Traced Scratch
  | .hooks hook, index, x => do
    let arguments ← x.arguments hook
    return { x with
      state := ← dispatchArguments hook arguments x.generation index w.monitors x.state }
  | .ask, index, x => do
    let asked ← w.ask index x.toLane
    return { x with toLane := asked.toLane, candidates := some asked.candidates }
  | .transform, _, x => do
    let x ← w.transformSlot x
    w.problem.spec.check (← x.readCandidates)
    return x
  | .evaluate, index, x => do
    let candidates ← x.readCandidates
    let evaluated ← w.evaluate index ⟨x.toLane, candidates⟩
    return { x with toLane := evaluated.toLane, fitness := some evaluated.fitness }
  | .tell, index, x => do
    let l ← x.state.resolve w.algorithmNode.path
    let fitness ← x.readFitness
    let l ← w.algorithm.tell (stepContext w.algorithmNode x.toLane index tellStream) l fitness
    return { x with state := ← x.state.update w.algorithmNode.path l }
  | .advance, _, x => do return { x with state := ← advance x.toLane }

/-- The stages of a step. -/
def protocol : List StepStage :=
  [.hooks .preAsk, .ask, .hooks .postAsk, .transform, .hooks .preEval, .evaluate, .hooks .postEval,
    .hooks .preTell, .tell, .hooks .postTell, .advance]

/-- Lanes with slots through some stages, in lockstep. -/
def performAll (w : Workflow) (stages : List StepStage) (lanes : List Scratch) :
    Traced (List Scratch) :=
  stages.foldlM (fun lanes stage => runStage (w.perform stage) lanes) lanes

/-- The lane with an index through some stages, on its own. -/
def performAlone (w : Workflow) (index : Nat) (stages : List StepStage) (x : Scratch) :
    Traced Scratch :=
  stages.foldlM (fun x stage => w.perform stage index x) x

/-- A step of lanes with slots. -/
def slottedStep (w : Workflow) (s : State) : Traced State :=
  w.stepBy (fun lanes => do
    let done ← w.performAll protocol (lanes.map Scratch.ofLane)
    return done.map fun x => x.state) s

/-- The metric of a monitor, where an unbatched state has that of the first of its lanes. -/
def slottedMetric (w : Workflow) (s : State) (name : String) : Outcome Tensor :=
  match w.monitors.find? fun slot => slot.name = name with
  | none => .error (.workflow (.missingMonitor name))
  | some slot => do
    let lanes ← s.flatten
    let values ← lanes.mapM (laneMetric slot)
    if s.isBatched then
      let stacked ← Tensor.stack values
      stacked.reshape (s.batchDims ++ stacked.shape.tail)
    else match values with
      | value :: _ => return value
      | [] => .error (.internal (.custom "unbatched state produced no lanes"))

variable {w : Workflow} {index : Nat} {x y : Scratch}

/-! ## Filled slots -/

/-- The slots that a stage reads are filled, with what belongs to the hook if it is one. -/
def Available : StepStage → Scratch → Prop
  | .hooks hook, x => ∃ arguments call, x.arguments hook = .ok arguments ∧
      arguments.call hook = .ok call ∧ call.hook = hook
  | .transform, x => x.candidates.isSome = true
  | .evaluate, x => x.candidates.isSome = true
  | .tell, x => x.fitness.isSome = true
  | .ask, _ => True
  | .advance, _ => True

theorem readCandidates_of_some {candidates : Candidates} (h : x.candidates = some candidates) :
    x.readCandidates = .ok candidates := by
  rw [Scratch.readCandidates, h]

theorem readFitness_of_some {fitness : Tensor} (h : x.fitness = some fitness) :
    x.readFitness = .ok fitness := by
  rw [Scratch.readFitness, h]

theorem readCandidates_eq_ok_iff {candidates : Candidates} :
    x.readCandidates = .ok candidates ↔ x.candidates = some candidates := by
  refine ⟨fun h => ?_, readCandidates_of_some⟩
  rw [Scratch.readCandidates] at h
  split at h
  · next hsome => rw [hsome, Except.ok.inj h]
  · cases h

theorem transformSlot_eq_ok (h : w.transformSlot x = .ok y) :
    y.toLane = x.toLane ∧ y.fitness = x.fitness ∧
      (x.candidates.isSome = true → y.candidates.isSome = true) := by
  rw [transformSlot] at h
  split at h
  · obtain rfl := Except.ok.inj h
    exact ⟨rfl, rfl, id⟩
  · obtain ⟨raw, -, h⟩ := Outcome.bind_eq_ok_iff.1 h
    obtain ⟨n, -, h⟩ := Outcome.bind_eq_ok_iff.1 h
    obtain ⟨input, -, h⟩ := Outcome.bind_eq_ok_iff.1 h
    obtain ⟨m, -, h⟩ := Outcome.bind_eq_ok_iff.1 h
    split at h
    · cases h
    · obtain rfl := Except.ok.inj h
      exact ⟨rfl, rfl, fun _ => rfl⟩

/-- No stage leaves a slot empty that was filled. Asking and evaluating fill theirs. -/
theorem filled_of_perform {stage : StepStage} (h : (w.perform stage index x).outcome = .ok y) :
    (x.candidates.isSome = true ∨ stage = .ask → y.candidates.isSome = true) ∧
      (x.fitness.isSome = true ∨ stage = .evaluate → y.fitness.isSome = true) := by
  -- a stage writes to its own slot only, and then something
  cases stage with
  | hooks hook =>
    simp only [perform, Traced.outcome_bind] at h
    obtain ⟨arguments, -, h⟩ := Outcome.bind_eq_ok_iff.1 h
    obtain ⟨s, -, h⟩ := Outcome.bind_eq_ok_iff.1 h
    obtain rfl := Except.ok.inj h
    exact ⟨fun h => h.resolve_right nofun, fun h => h.resolve_right nofun⟩
  | ask =>
    simp only [perform, Traced.outcome_bind] at h
    obtain ⟨asked, -, h⟩ := Outcome.bind_eq_ok_iff.1 h
    obtain rfl := Except.ok.inj h
    exact ⟨fun _ => rfl, fun h => h.resolve_right nofun⟩
  | transform =>
    simp only [perform, Traced.outcome_bind] at h
    obtain ⟨z, hz, h⟩ := Outcome.bind_eq_ok_iff.1 h
    obtain ⟨candidates, hcandidates, h⟩ := Outcome.bind_eq_ok_iff.1 h
    obtain ⟨-, -, h⟩ := Outcome.bind_eq_ok_iff.1 h
    obtain rfl := Except.ok.inj h
    obtain ⟨-, hfitness, -⟩ := transformSlot_eq_ok hz
    rw [readCandidates_eq_ok_iff.1 hcandidates, hfitness]
    exact ⟨fun _ => rfl, fun h => h.resolve_right nofun⟩
  | evaluate =>
    simp only [perform, Traced.outcome_bind] at h
    obtain ⟨candidates, hcandidates, h⟩ := Outcome.bind_eq_ok_iff.1 h
    obtain ⟨evaluated, -, h⟩ := Outcome.bind_eq_ok_iff.1 h
    obtain rfl := Except.ok.inj h
    exact ⟨fun h => h.resolve_right nofun, fun _ => rfl⟩
  | tell =>
    simp only [perform, Traced.outcome_bind] at h
    obtain ⟨l, -, h⟩ := Outcome.bind_eq_ok_iff.1 h
    obtain ⟨fitness, -, h⟩ := Outcome.bind_eq_ok_iff.1 h
    obtain ⟨l', -, h⟩ := Outcome.bind_eq_ok_iff.1 h
    obtain ⟨s, -, h⟩ := Outcome.bind_eq_ok_iff.1 h
    obtain rfl := Except.ok.inj h
    exact ⟨fun h => h.resolve_right nofun, fun h => h.resolve_right nofun⟩
  | advance =>
    simp only [perform, Traced.outcome_bind] at h
    obtain ⟨s, -, h⟩ := Outcome.bind_eq_ok_iff.1 h
    obtain rfl := Except.ok.inj h
    exact ⟨fun h => h.resolve_right nofun, fun h => h.resolve_right nofun⟩

/-- After asking the candidates are there, and after evaluating their fitness. -/
theorem filled_of_performAlone {stages : List StepStage}
    (h : (w.performAlone index stages x).outcome = .ok y) :
    (x.candidates.isSome = true ∨ .ask ∈ stages → y.candidates.isSome = true) ∧
      (x.fitness.isSome = true ∨ .evaluate ∈ stages → y.fitness.isSome = true) := by
  induction stages generalizing x with
  | nil =>
    obtain rfl := Except.ok.inj h
    exact ⟨fun h => h.resolve_right nofun, fun h => h.resolve_right nofun⟩
  | cons stage stages ih =>
    rw [performAlone, List.foldlM_cons, Traced.outcome_bind] at h
    obtain ⟨z, hz, h⟩ := Outcome.bind_eq_ok_iff.1 h
    obtain ⟨hcandidates, hfitness⟩ := filled_of_perform hz
    obtain ⟨hcandidates', hfitness'⟩ := ih h
    simp only [List.mem_cons, eq_comm (a := StepStage.ask), eq_comm (a := StepStage.evaluate)]
    tauto

/-- A stage whose slots are filled has what it needs. -/
theorem available_of_filled {stage : StepStage}
    (hc : stage.readsCandidates = true → x.candidates.isSome = true)
    (hf : stage.readsFitness = true → x.fitness.isSome = true) : Available stage x := by
  cases stage with
  | hooks hook =>
    cases hook with
    | setup => exact ⟨.empty, .setup, rfl, rfl, rfl⟩
    | preAsk => exact ⟨.empty, .preAsk, rfl, rfl, rfl⟩
    | postAsk =>
      obtain ⟨candidates, hcandidates⟩ := Option.isSome_iff_exists.1 (hc rfl)
      refine ⟨.candidates candidates, .postAsk candidates, ?_, rfl, rfl⟩
      rw [Scratch.arguments, readCandidates_of_some hcandidates]
      rfl
    | preEval =>
      obtain ⟨candidates, hcandidates⟩ := Option.isSome_iff_exists.1 (hc rfl)
      refine ⟨.candidates candidates, .preEval candidates, ?_, rfl, rfl⟩
      rw [Scratch.arguments, readCandidates_of_some hcandidates]
      rfl
    | postEval =>
      obtain ⟨candidates, hcandidates⟩ := Option.isSome_iff_exists.1 (hc rfl)
      obtain ⟨fitness, hfitness⟩ := Option.isSome_iff_exists.1 (hf rfl)
      refine ⟨.evaluated candidates fitness, .postEval candidates fitness, ?_, rfl, rfl⟩
      rw [Scratch.arguments, readCandidates_of_some hcandidates, readFitness_of_some hfitness]
      rfl
    | preTell =>
      obtain ⟨fitness, hfitness⟩ := Option.isSome_iff_exists.1 (hf rfl)
      refine ⟨.fitness fitness, .preTell fitness, ?_, rfl, rfl⟩
      rw [Scratch.arguments, readFitness_of_some hfitness]
      rfl
    | postTell => exact ⟨.empty, .postTell, rfl, rfl, rfl⟩
  | ask => trivial
  | transform => exact hc rfl
  | evaluate => exact hc rfl
  | tell => exact hf rfl
  | advance => trivial

/-- What a stage reads is what an earlier one fills. -/
theorem filled_before {k : Nat} {stage : StepStage} (h : protocol[k]? = some stage) :
    (stage.readsCandidates = true → .ask ∈ protocol.take k) ∧
      (stage.readsFitness = true → .evaluate ∈ protocol.take k) := by
  have hall : ∀ k : Fin protocol.length,
      (protocol[k].readsCandidates = true → .ask ∈ protocol.take k) ∧
        (protocol[k].readsFitness = true → .evaluate ∈ protocol.take k) := by
    decide
  obtain ⟨hlt, rfl⟩ := List.getElem?_eq_some_iff.1 h
  exact hall ⟨k, hlt⟩

/-- Every stage has what it needs when a lane arrives there. -/
theorem available {k : Nat} {stage : StepStage} {start : Scratch} (h : protocol[k]? = some stage)
    (hx : (w.performAlone index (protocol.take k) start).outcome = .ok x) : Available stage x := by
  obtain ⟨hcandidates, hfitness⟩ := filled_of_performAlone hx
  obtain ⟨hask, hevaluate⟩ := filled_before h
  exact available_of_filled (fun hreads => hcandidates (Or.inr (hask hreads)))
    fun hreads => hfitness (Or.inr (hevaluate hreads))

/-- In another order a stage finds its slot empty. -/
example (w : Workflow) (lane : Lane) :
    (w.performAlone 0 [.evaluate, .ask] (.ofLane lane)).outcome =
      .error (.internal (.custom "candidates read before ask")) := rfl

/-! ## Without slots -/

/-- The stages do to lanes with slots what a pipeline does to lanes without. -/
inductive Follows (w : Workflow) :
    {α : Type} → (Scratch → α → Prop) → List StepStage → Pipeline State α → Prop
  | last {α : Type} {R : Scratch → α → Prop} {stage : StepStage} {f : Nat → α → Traced State} :
      (∀ i x lane, R x lane →
        Traced.Related (fun y t => y.state = t) (w.perform stage i x) (f i lane)) →
      Follows w R [stage] (.last f)
  | stage {α β : Type} {R : Scratch → α → Prop} (S : Scratch → β → Prop) {stage : StepStage}
      {stages : List StepStage} {f : Nat → α → Traced β} {rest : Pipeline State β} :
      (∀ i x lane, R x lane → Traced.Related S (w.perform stage i x) (f i lane)) →
      Follows w S stages rest → Follows w R (stage :: stages) (.stage f rest)

theorem Follows.performAll {α : Type} {R : Scratch → α → Prop} {stages : List StepStage}
    {p : Pipeline State α} (h : w.Follows R stages p) {xs : List Scratch} {lanes : List α}
    (hx : List.Forall₂ R xs lanes) :
    Traced.Related (List.Forall₂ fun y t => y.state = t) (w.performAll stages xs)
      (p.lockstep lanes) := by
  induction h generalizing xs with
  | last hf =>
    simp only [Workflow.performAll, List.foldlM_cons, List.foldlM_nil, bind_pure,
      Pipeline.lockstep]
    exact .runStage hf hx
  | stage S hf _ ih =>
    rw [Workflow.performAll, List.foldlM_cons, Pipeline.lockstep]
    exact (Traced.Related.runStage hf hx).bind fun ys ms hys => ih hys

/-- With the arguments of a call its hook is run as the call is. -/
theorem dispatchArguments_eq {hook : Hook} {arguments : HookArguments} {call : HookCall}
    (hcall : arguments.call hook = .ok call) (hhook : call.hook = hook) (generation : UInt64) :
    ∀ (slots : List MonitorSlot) (s : State),
      dispatchArguments hook arguments generation index slots s =
        dispatch call generation index slots s
  | [], _ => rfl
  | slot :: rest, s => by
    have ih := dispatchArguments_eq hcall hhook generation rest
    rw [dispatchArguments, dispatch, hhook, hcall]
    split
    · refine bind_congr fun l => ?_
      rw [Traced.ok_bind]
      refine bind_congr fun seen => ?_
      cases seen with
      | none => exact ih s
      | some l' => exact bind_congr fun t => ih t
    · exact ih s

/-- A hook whose arguments are there is run on the lane. -/
theorem perform_hooks (hook : Hook) (call : HookCall) {arguments : HookArguments}
    (harguments : x.arguments hook = .ok arguments) (hcall : arguments.call hook = .ok call)
    (hhook : call.hook = hook) :
    w.perform (.hooks hook) index x =
      (do return { x with toLane := ← w.observed call index x.toLane }) := by
  rw [perform, harguments, Traced.ok_bind, dispatchArguments_eq hcall hhook, observed,
    Traced.bind_assoc]
  rfl

/-- A lane that has asked, with its candidates in their slot. -/
def Holds (x : Scratch) (lane : AskedLane) : Prop :=
  x.toLane = lane.toLane ∧ x.candidates = some lane.candidates

/-- A lane that was evaluated, with both in their slots. -/
def HoldsBoth (x : Scratch) (lane : EvaluatedLane) : Prop :=
  Holds x lane.toAskedLane ∧ x.fitness = some lane.fitness

theorem transformSlot_eq {candidates : Candidates} (h : x.candidates = some candidates) :
    w.transformSlot x =
      (do return { x with candidates := some (← w.transformed candidates) }) := by
  rw [transformSlot, transformed]
  cases w.transform with
  | none =>
    rw [Outcome.ok_bind, ← h]
    rfl
  | some f =>
    simp only [readCandidates_of_some h, Outcome.ok_bind, bind_assoc]
    refine bind_congr fun n => bind_congr fun input => bind_congr fun m => ?_
    split <;> rfl

theorem perform_transform {lane : AskedLane} (h : Holds x lane) :
    Traced.Related Holds (w.perform .transform index x) (.ofOutcome (w.transformLane lane)) := by
  rw [perform, transformSlot_eq h.2, transformLane]
  cases w.transformed lane.candidates with
  | error e => exact .error [] e
  | ok candidates =>
    have hread : ({ x with candidates := some candidates } : Scratch).readCandidates =
        .ok candidates := readCandidates_of_some rfl
    simp only [Outcome.ok_bind, Outcome.pure_eq_ok, Traced.ok_bind, hread]
    cases w.problem.spec.check candidates with
    | error e => exact .error [] e
    | ok _ => exact .ok [] ⟨h.1, rfl⟩

/-- Each stage is what it is for lanes without slots. -/
theorem follows_protocol (w : Workflow) : w.Follows (fun x lane => x.toLane = lane) protocol
    w.stages := by
  have hcandidates : ∀ {x lane}, Holds x lane → x.readCandidates = .ok lane.candidates :=
    fun hx => readCandidates_of_some hx.2
  have hfitness : ∀ {x lane}, HoldsBoth x lane → x.readFitness = .ok lane.fitness :=
    fun hx => readFitness_of_some hx.2
  -- One stage after the other, each from the relation the one before it ends in: nothing is asked
  -- of the slots, then they hold the candidates, then the fitness as well, and at the end nothing
  -- is asked of them again.
  refine .stage (fun x lane => x.toLane = lane) (fun i x lane hx => ?_) ?_
  · rw [perform_hooks .preAsk .preAsk rfl rfl rfl, hx]
    exact .map_left fun y _ => rfl
  refine .stage Holds (fun i x lane hx => ?_) ?_
  · rw [perform, hx]
    exact .map_left fun y _ => ⟨rfl, rfl⟩
  refine .stage Holds (fun i x lane hx => ?_) ?_
  · rw [perform_hooks .postAsk (.postAsk lane.candidates)
      (by rw [Scratch.arguments, hcandidates hx]; rfl) rfl rfl, hx.1]
    exact .bind_same _ fun y => .pure ⟨rfl, hx.2⟩
  refine .stage Holds (fun i x lane hx => perform_transform hx) ?_
  refine .stage Holds (fun i x lane hx => ?_) ?_
  · rw [perform_hooks .preEval (.preEval lane.candidates)
      (by rw [Scratch.arguments, hcandidates hx]; rfl) rfl rfl, hx.1]
    exact .bind_same _ fun y => .pure ⟨rfl, hx.2⟩
  refine .stage HoldsBoth (fun i x lane hx => ?_) ?_
  · rw [perform, hcandidates hx, Traced.ok_bind, hx.1]
    refine .map_left fun y hy => ⟨⟨rfl, ?_⟩, rfl⟩
    obtain ⟨-, -, -, -, -, -, -, rfl⟩ := evaluate_eq_ok hy
    exact hx.2
  refine .stage HoldsBoth (fun i x lane hx => ?_) ?_
  · rw [perform_hooks .postEval (.postEval lane.candidates lane.fitness)
      (by rw [Scratch.arguments, hcandidates hx.1, hfitness hx]; rfl) rfl rfl, hx.1.1]
    exact .bind_same _ fun y => .pure ⟨⟨rfl, hx.1.2⟩, hx.2⟩
  refine .stage HoldsBoth (fun i x lane hx => ?_) ?_
  · rw [perform_hooks .preTell (.preTell lane.fitness)
      (by rw [Scratch.arguments, hfitness hx]; rfl) rfl rfl, hx.1.1]
    exact .bind_same _ fun y => .pure ⟨⟨rfl, hx.1.2⟩, hx.2⟩
  refine .stage HoldsBoth (fun i x lane hx => ?_) ?_
  · have hlane : x.toLane = lane.toLane := hx.1.1
    rw [perform, hlane, hfitness hx, tell, Traced.ofOutcome_bind]
    refine .bind_same _ fun l => ?_
    rw [Traced.ok_bind, Traced.ofOutcome_bind]
    refine .bind_same _ fun l' => ?_
    rw [Traced.ofOutcome_bind]
    exact .bind_same _ fun t => .pure ⟨⟨rfl, hx.1.2⟩, hx.2⟩
  refine .stage (fun x lane => x.toLane = lane) (fun i x lane hx => ?_) ?_
  · rw [perform_hooks .postTell .postTell rfl rfl rfl, hx.1.1]
    exact .map_left fun y _ => rfl
  refine .last fun i x lane hx => ?_
  rw [perform, hx]
  exact .map_left fun t _ => rfl

/-- A step of lanes with slots is a step. -/
theorem slottedStep_eq (w : Workflow) (s : State) : w.slottedStep s = w.step s := by
  refine congrArg (fun run => w.stepBy run s) (funext fun lanes => Traced.Related.eq ?_)
  have hstart : List.Forall₂ (fun (x : Scratch) lane => x.toLane = lane)
      (lanes.map Scratch.ofLane) lanes :=
    List.forall₂_map_left_iff.2 (List.forall₂_same.2 fun _ _ => rfl)
  rw [← bind_pure (w.stages.lockstep lanes)]
  refine ((follows_protocol w).performAll hstart).bind fun ys ts hys => .pure ?_
  exact List.forall₂_eq_eq_eq ▸ List.forall₂_map_left_iff.2 hys

/-- An unbatched state has a lane to read the metric of. -/
theorem slottedMetric_eq (w : Workflow) (s : State) (name : String) :
    w.slottedMetric s name = w.metric s name := by
  rw [slottedMetric, metric]
  cases w.monitors.find? fun slot => slot.name = name with
  | none => rfl
  | some slot =>
    by_cases hbatched : s.isBatched = true
    · simp only [if_pos hbatched]
    · have hdims : s.batchDims = [] := by simpa [State.isBatched] using hbatched
      simp only [if_neg hbatched, State.flatten_unbatched hdims, Outcome.ok_bind, List.mapM_cons,
        List.mapM_nil]
      cases laneMetric slot s <;> rfl

end Workflow

end Lockstep
