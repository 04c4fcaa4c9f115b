import Lockstep.Proofs.Random.Key
import Lockstep.Proofs.State.Structure
import Lockstep.Proofs.Workflow.LaneByLane

/-!
# Steps that cannot fail

A `Contract` says which candidates an algorithm asks for and which fitness it can learn from. When
every component of a workflow keeps to one, and to a plan of its local state
(`Workflow.Progresses`), each stage of a step accepts what the stages before it give. So a step
succeeds from every state that follows the plan, and ends in one (`Progresses.step`). The same holds
of any series of steps and of writes to parameters (`Progresses.act`).
-/

namespace Lockstep

open Outcome (Gives)
open Lockstep.Random

/-! ## Pipelines -/

namespace Pipeline

variable {γ : Type}

/-- Every stage succeeds on lanes that have what it needs, and gives what the next one needs. -/
inductive Proceeds (T : γ → Prop) : {α : Type} → (α → Prop) → Pipeline γ α → Prop
  | last {α : Type} {S : α → Prop} {f : Nat → α → Traced γ} :
      (∀ i x, S x → Gives T (f i x).outcome) → Proceeds T S (.last f)
  | stage {α β : Type} {S : α → Prop} (S' : β → Prop) {f : Nat → α → Traced β}
      {rest : Pipeline γ β} :
      (∀ i x, S x → Gives S' (f i x).outcome) → Proceeds T S' rest → Proceeds T S (.stage f rest)

end Pipeline

theorem gives_runStage {α β : Type} {S : α → Prop} {T : β → Prop} {f : Nat → α → Traced β}
    (hf : ∀ i x, S x → Gives T (f i x).outcome) {lanes : List α} (h : ∀ x ∈ lanes, S x) :
    Gives (fun ys => ys.length = lanes.length ∧ ∀ y ∈ ys, T y) (runStage f lanes).outcome := by
  have hlane : ∀ (i : Nat) (x : α), lanes[i]? = some x → Gives T (f i x).outcome :=
    fun i x hx => hf i x (h x (List.mem_of_getElem? hx))
  have hsucceeds : ∀ (i : Nat) (x : α), lanes[i]? = some x → ∃ y, (f i x).outcome = .ok y := by
    intro i x hx
    obtain ⟨y, hy, -⟩ := hlane i x hx
    exact ⟨y, hy⟩
  obtain ⟨ys, hys⟩ := exists_runStage_eq_ok hsucceeds
  obtain ⟨hlength, hresult⟩ := runStage_eq_ok_iff.1 hys
  refine ⟨ys, hys, hlength.symm, fun y hy => ?_⟩
  obtain ⟨i, hi⟩ := List.mem_iff_getElem?.1 hy
  have hlt : i < lanes.length := hlength ▸ (List.getElem?_eq_some_iff.1 hi).1
  have hx := List.getElem?_eq_getElem hlt
  obtain ⟨y', hy', hT⟩ := hlane i _ hx
  rw [hresult i _ y hx hi] at hy'
  rwa [Except.ok.inj hy']

/-- Lanes that have what the first stage needs go through all of them. -/
theorem Pipeline.Proceeds.lockstep {γ α : Type} {T : γ → Prop} {S : α → Prop} {p : Pipeline γ α}
    (h : p.Proceeds T S) {lanes : List α} (hlanes : ∀ x ∈ lanes, S x) :
    Gives (fun ys => ys.length = lanes.length ∧ ∀ y ∈ ys, T y) (p.lockstep lanes).outcome := by
  induction h with
  | last hf => exact gives_runStage hf hlanes
  | stage S' hf _ ih =>
    rw [Pipeline.lockstep, Traced.outcome_bind]
    refine (gives_runStage hf hlanes).bind fun ys hys => ?_
    rw [← hys.1]
    exact ih hys.2

/-! ## What components keep to -/

/-- Which candidates are asked for and which fitness they get. -/
structure Contract where
  asked : Candidates → Prop
  judged : Tensor → Prop
  count : Nat
  size : ∀ {c : Candidates}, asked c → c.size = .ok count
  fits : ∀ {f : Tensor}, judged f → Workflow.fitnessFits f count = true

/-- One matrix with `count` rows of width `dim`, and one number for each row. -/
def Contract.dense (count dim : Nat) : Contract where
  asked c := ∃ t, c = .dense t ∧ t.shape = [count, dim]
  judged f := f.shape = [count]
  count := count
  size := by
    rintro _ ⟨⟨shape, data, hfill⟩, rfl, hshape⟩
    obtain rfl : shape = [count, dim] := hshape
    rfl
  fits := by
    rintro ⟨shape, data, hfill⟩ hshape
    obtain rfl : shape = [count] := hshape
    exact decide_eq_true rfl

/-- What a call shows is as the contract says. -/
def HookCall.Shows (K : Contract) : HookCall → Prop
  | .postAsk c => K.asked c
  | .preEval c => K.asked c
  | .postEval c f => K.asked c ∧ K.judged f
  | .preTell f => K.judged f
  | _ => True

/-- By how much counts may go up with a call: after an evaluation, by its candidates. -/
def HookCall.adds (K : Contract) : HookCall → Nat
  | .postEval _ _ => K.count
  | _ => 0

/-- The algorithm asks and learns as the contract says, and keeps to a plan of its local state. -/
structure Algorithm.Keeps (a : Algorithm) (K : Contract) (p : LocalPlan) : Prop where
  ask : ∀ {most : Nat} {ctx : StepContext} {l : LocalState}, p.Fits most [] l →
    Gives (fun r => K.asked r.1 ∧ p.Fits most [] r.2) (a.ask ctx l)
  tell : ∀ {most : Nat} {ctx : StepContext} {l : LocalState} {f : Tensor}, p.Fits most [] l →
    K.judged f → Gives (p.Fits most []) (a.tell ctx l f)
  popSize : ∀ n ∈ a.popSize, n = K.count

/-- The problem takes and evaluates what the contract says, and keeps to a plan of its local
state. -/
structure Problem.Keeps (b : Problem) (K : Contract) (p : LocalPlan) : Prop where
  check : ∀ {c : Candidates}, K.asked c → b.spec.check c = .ok ()
  evaluate : ∀ {most : Nat} {ctx : StepContext} {l : LocalState} {c : Candidates},
    p.Fits most [] l → K.asked c →
    Gives (fun r => K.judged r.1 ∧ p.Fits most [] r.2) (b.evaluate ctx l c).outcome

/-- The monitor accepts all that the contract says, and keeps to a plan of its local state. Its
counts go up by no more than what is evaluated, as long as they are exact. -/
def Monitor.Keeps (m : Monitor) (K : Contract) (p : LocalPlan) : Prop :=
  ∀ {most : Nat} {ctx : HookContext} {l : LocalState} {call : HookCall}, p.Fits most [] l →
    call.Shows K → most + call.adds K < 2 ^ 53 →
    Gives (fun seen => ∀ l' ∈ seen, p.Fits (most + call.adds K) [] l')
      (m.observe ctx l call).outcome

namespace Workflow

/-- The root has the count of steps and a key that does not change. -/
def rootPlan (key : Key) : LocalPlan :=
  .layered [] [(generationAttribute, .count), (keyAttribute, .fixed key.toTensor)]

/-- All components keep to one contract and to their parts of a plan. -/
structure Progresses (w : Workflow) (plan : Plan) (key : Key) (K : Contract) : Prop where
  ready : w.ready = true
  evaluates : 0 < K.count
  root : plan.get? "" = some (rootPlan key)
  nodes : ∀ n ∈ w.tree, ∃ p, plan.get? n.context.path = some p
  algorithm : ∃ p, plan.get? w.algorithmNode.path = some p ∧ w.algorithm.Keeps K p
  problem : ∃ p, plan.get? w.problemNode.path = some p ∧ w.problem.Keeps K p
  monitors : ∀ slot ∈ w.monitors, ∃ p, plan.get? slot.node.path = some p ∧ slot.monitor.Keeps K p
  distinct : (w.monitors.map fun slot => slot.node.path).Nodup
  transform : w.transform = none
  placement : ∀ spec ∈ w.placement, ∀ rank < UInt64.size, plan.Splits spec rank
  parameters : ∀ e ∈ w.parameters, ∃ p shape, plan.get? (Path.split e.1).1 = some p ∧
    p.get? (Path.split e.1).2 = some (.free shape)

/-! ## The stages of a lane -/

section

variable {plan : Plan} {key : Key} {K : Contract} {steps most : Nat} {placement : Table Directive}

/-- The lane's state follows the plan, and the lane has done at most so many steps. -/
def LaneFollows (plan : Plan) (steps most : Nat) (placement : Table Directive) (lane : Lane) :
    Prop := lane.state.Follows plan most [] placement ∧ lane.generation.toNat ≤ steps

/-- A lane that has asked follows the plan, and its candidates are as the contract says. -/
def AskedFollows (K : Contract) (plan : Plan) (steps most : Nat) (placement : Table Directive)
    (lane : AskedLane) : Prop :=
  LaneFollows plan steps most placement lane.toLane ∧ K.asked lane.candidates

/-- An evaluated lane follows the plan, and its candidates and fitness are as the contract says. -/
def EvaluatedFollows (K : Contract) (plan : Plan) (steps most : Nat) (placement : Table Directive)
    (lane : EvaluatedLane) : Prop :=
  AskedFollows K plan steps most placement lane.toAskedLane ∧ K.judged lane.fitness

theorem rootPlan_generation (key : Key) :
    (rootPlan key).get? generationAttribute = some .count :=
  LocalPlan.get?_layered_own (show [generationAttribute, keyAttribute].Nodup by decide)
    List.mem_cons_self

theorem rootPlan_key (key : Key) :
    (rootPlan key).get? keyAttribute = some (.fixed key.toTensor) :=
  LocalPlan.get?_layered_own (show [generationAttribute, keyAttribute].Nodup by decide)
    (List.mem_cons_of_mem _ List.mem_cons_self)

/-- The count of steps is read back from its number as long as that is exact. -/
theorem gives_laneOf (hroot : plan.get? "" = some (rootPlan key)) (hmost : most < 2 ^ 53)
    {s : State} (hs : s.Follows plan most [] placement) :
    Gives (LaneFollows plan most most placement) (laneOf s) := by
  refine (hs.resolve hroot).bind fun root hfits => ?_
  obtain ⟨n, hn, hgeneration⟩ := hfits.count (rootPlan_generation key)
  refine (hfits.tensor (rootPlan_key key)).bind fun t ht => ?_
  -- the key of every lane is the one of the start
  rw [LeafPlan.fits_fixed.1 ht, Key.ofTensor_toTensor, hgeneration]
  refine .ok ⟨hs, ?_⟩
  rw [Binary64.toUInt64_toFloat (Nat.lt_of_le_of_lt hn hmost)]
  exact hn

/-- Monitors that keep to the contract accept a call, and leave the state as the plan says. Every
monitor has a node of its own, so a count goes up once. -/
theorem gives_dispatch {call : HookCall} (hcall : call.Shows K)
    (hmost : most + call.adds K < 2 ^ 53) {generation : UInt64} {index : Nat}
    {slots : List MonitorSlot}
    (hslots : ∀ slot ∈ slots, ∃ p, plan.get? slot.node.path = some p ∧ slot.monitor.Keeps K p)
    (hdistinct : (slots.map fun slot => slot.node.path).Nodup) :
    ∀ {s : State}, s.Follows plan (most + call.adds K) [] placement →
      (∀ slot ∈ slots, ∀ p ∈ plan.get? slot.node.path,
        Gives (p.Fits most []) (s.resolve slot.node.path)) →
      Gives (State.Follows plan (most + call.adds K) [] placement)
        (dispatch call generation index slots s).outcome := by
  induction slots with
  | nil => exact fun hs _ => .ok hs
  | cons slot rest ih =>
    intro s hs hlocals
    obtain ⟨⟨p, hp, hkeeps⟩, hrest⟩ := List.forall_mem_cons.1 hslots
    obtain ⟨hlocal, hlocals⟩ := List.forall_mem_cons.1 hlocals
    obtain ⟨hother, hdistinct⟩ := List.nodup_cons.1 hdistinct
    rw [dispatch]
    split
    · simp only [Traced.outcome_bind, Traced.outcome_liftM]
      refine (hlocal p hp).bind fun l hl => (hkeeps hl hcall hmost).bind fun seen hseen => ?_
      cases seen with
      | none => exact ih hrest hdistinct hs hlocals
      | some l' =>
        simp only [Traced.outcome_bind, Traced.outcome_liftM]
        obtain ⟨t, ht, hfollows⟩ := hs.update hp (hseen l' rfl)
        rw [ht, Outcome.ok_bind]
        refine ih hrest hdistinct hfollows fun other hmem q hq => ?_
        -- the nodes of the monitors that come later are as they were
        rw [State.resolve_of_update ht]
        · exact hlocals other hmem q hq
        · exact fun he => hother (List.mem_map.2 ⟨other, hmem, he⟩)
    · exact ih hrest hdistinct hs hlocals

end

namespace Progresses

variable {w : Workflow} {plan : Plan} {key : Key} {K : Contract} {steps most : Nat}
  {placement : Table Directive}

/-- All monitors accept a call from a state that follows the plan. -/
theorem dispatch (h : w.Progresses plan key K) {call : HookCall} (hcall : call.Shows K)
    (hmost : most + call.adds K < 2 ^ 53) {generation : UInt64} {index : Nat} {s : State}
    (hs : s.Follows plan most [] placement) :
    Gives (State.Follows plan (most + call.adds K) [] placement)
      (dispatch call generation index w.monitors s).outcome :=
  gives_dispatch hcall hmost h.monitors h.distinct (hs.mono (Nat.le_add_right ..))
    fun _ _ _ hp => hs.resolve hp

theorem observed (h : w.Progresses plan key K) (call : HookCall) (hcall : call.Shows K)
    (hmost : most + call.adds K < 2 ^ 53) (i : Nat) {x : Lane}
    (hx : LaneFollows plan steps most placement x) :
    Gives (LaneFollows plan steps (most + call.adds K) placement)
      (w.observed call i x).outcome := by
  rw [Workflow.observed, Traced.outcome_bind]
  exact (h.dispatch hcall hmost hx.1).bind fun s hs => .ok ⟨hs, hx.2⟩

theorem askLane (h : w.Progresses plan key K) (i : Nat) {x : Lane}
    (hx : LaneFollows plan steps most placement x) :
    Gives (AskedFollows K plan steps most placement) (w.ask i x) := by
  obtain ⟨p, hp, hkeeps⟩ := h.algorithm
  refine (State.Follows.resolve hx.1 hp).bind fun l hl => (hkeeps.ask hl).bind ?_
  rintro ⟨candidates, l'⟩ ⟨hasked, hl'⟩
  have hwrite : Gives (AskedFollows K plan steps most placement)
      (do return { x with state := ← x.state.update w.algorithmNode.path l', candidates }) :=
    (State.Follows.update hx.1 hp hl').bind fun s hs => .ok ⟨⟨hs, hx.2⟩, hasked⟩
  -- there are as many candidates as the population has members, if that is fixed
  dsimp only
  rw [K.size hasked, Outcome.ok_bind]
  cases hsize : w.algorithm.popSize with
  | none => exact hwrite
  | some n =>
    dsimp only
    rw [if_neg (not_not.2 (hkeeps.popSize n hsize).symm)]
    exact hwrite

theorem transformLane (h : w.Progresses plan key K) {x : AskedLane}
    (hx : AskedFollows K plan steps most placement x) :
    Gives (AskedFollows K plan steps most placement) (w.transformLane x) := by
  obtain ⟨p, -, hkeeps⟩ := h.problem
  rw [Workflow.transformLane, transformed, h.transform, Outcome.ok_bind, hkeeps.check hx.2]
  exact .ok hx

theorem evaluateLane (h : w.Progresses plan key K) (i : Nat) {x : AskedLane}
    (hx : AskedFollows K plan steps most placement x) :
    Gives (EvaluatedFollows K plan steps most placement) (w.evaluate i x).outcome := by
  obtain ⟨p, hp, hkeeps⟩ := h.problem
  simp only [Workflow.evaluate, Traced.outcome_bind, Traced.outcome_liftM]
  rw [K.size hx.2, Outcome.ok_bind]
  refine (State.Follows.resolve hx.1.1 hp).bind fun l hl => (hkeeps.evaluate hl hx.2).bind ?_
  rintro ⟨fitness, l'⟩ ⟨hjudged, hl'⟩
  dsimp only
  rw [if_pos (K.fits hjudged)]
  simp only [Traced.outcome_bind, Traced.outcome_liftM]
  exact (State.Follows.update hx.1.1 hp hl').bind fun s hs =>
    .ok ⟨⟨⟨hs, hx.1.2⟩, hx.2⟩, hjudged⟩

theorem tellLane (h : w.Progresses plan key K) (i : Nat) {x : EvaluatedLane}
    (hx : EvaluatedFollows K plan steps most placement x) :
    Gives (EvaluatedFollows K plan steps most placement) (w.tell i x) := by
  obtain ⟨p, hp, hkeeps⟩ := h.algorithm
  refine (State.Follows.resolve hx.1.1.1 hp).bind fun l hl => (hkeeps.tell hl hx.2).bind ?_
  intro l' hl'
  exact (State.Follows.update hx.1.1.1 hp hl').bind fun s hs =>
    .ok ⟨⟨⟨hs, hx.1.1.2⟩, hx.1.2⟩, hx.2⟩

/-- One step more is counted, which stays below what may be counted. -/
theorem advance (h : w.Progresses plan key K) (hsteps : steps + 1 ≤ most) (hmost : most < 2 ^ 53)
    {x : Lane} (hx : LaneFollows plan steps most placement x) :
    Gives (State.Follows plan most [] placement) (advance x) := by
  refine (State.Follows.resolve hx.1 h.root).bind fun root hroot => ?_
  have hnext : x.generation.toNat + 1 ≤ most := (Nat.succ_le_succ hx.2).trans hsteps
  have hlt : x.generation.toNat + 1 < UInt64.size :=
    Nat.lt_of_le_of_lt hnext (hmost.trans (by decide))
  rw [wordOf_eq_ok hlt, Outcome.ok_bind]
  refine State.Follows.update hx.1 h.root (hroot.setCount (rootPlan_generation key) ?_)
  rw [UInt64.toNat_ofNat_of_lt' hlt]
  exact hnext

/-- Each stage accepts what the stages before it give. Counts go up with the evaluation. -/
theorem stages (h : w.Progresses plan key K) (hmost : most + K.count < 2 ^ 53) :
    w.stages.Proceeds (State.Follows plan (most + K.count) [] placement)
      (LaneFollows plan most most placement) := by
  have hbefore : most < 2 ^ 53 := Nat.lt_of_le_of_lt (Nat.le_add_right ..) hmost
  refine .stage (LaneFollows plan most most placement)
    (fun i x hx => h.observed .preAsk trivial hbefore i hx) ?_
  refine .stage (AskedFollows K plan most most placement) (fun i x hx => h.askLane i hx) ?_
  refine .stage (AskedFollows K plan most most placement) (fun i x hx => ?_) ?_
  · rw [Traced.outcome_bind]
    exact (h.observed (.postAsk _) hx.2 hbefore i hx.1).bind fun y hy => .ok ⟨hy, hx.2⟩
  refine .stage (AskedFollows K plan most most placement) (fun i x hx => h.transformLane hx) ?_
  refine .stage (AskedFollows K plan most most placement) (fun i x hx => ?_) ?_
  · rw [Traced.outcome_bind]
    exact (h.observed (.preEval _) hx.2 hbefore i hx.1).bind fun y hy => .ok ⟨hy, hx.2⟩
  refine .stage (EvaluatedFollows K plan most most placement)
    (fun i x hx => h.evaluateLane i hx) ?_
  refine .stage (EvaluatedFollows K plan most (most + K.count) placement) (fun i x hx => ?_) ?_
  · rw [Traced.outcome_bind]
    exact (h.observed (.postEval _ _) ⟨hx.1.2, hx.2⟩ hmost i hx.1.1).bind fun y hy =>
      .ok ⟨⟨hy, hx.1.2⟩, hx.2⟩
  refine .stage (EvaluatedFollows K plan most (most + K.count) placement) (fun i x hx => ?_) ?_
  · rw [Traced.outcome_bind]
    exact (h.observed (.preTell _) hx.2 hmost i hx.1.1).bind fun y hy =>
      .ok ⟨⟨hy, hx.1.2⟩, hx.2⟩
  refine .stage (EvaluatedFollows K plan most (most + K.count) placement)
    (fun i x hx => h.tellLane i hx) ?_
  refine .stage (LaneFollows plan most (most + K.count) placement)
    (fun i x hx => h.observed .postTell trivial hmost i hx.1.1) ?_
  exact .last fun i x hx => h.advance (Nat.add_le_add_left h.evaluates most) hmost hx

/-! ## A whole step -/

theorem ensureReady (h : w.Progresses plan key K) {dims : List Nat} {s : State}
    (hs : s.Follows plan most dims placement) : w.ensureReady s = .ok () := by
  have hnone : w.tree.find? (fun n => !s.contains n.context.path) = none := by
    refine List.find?_eq_none.2 fun n hn => ?_
    obtain ⟨p, hp⟩ := h.nodes n hn
    rw [hs.contains hp]
    decide
  rw [Workflow.ensureReady, h.ready, hnone]
  rfl

theorem place (h : w.Progresses plan key K) {dims : List Nat} (hrank : dims.length < UInt64.size)
    {s : State} (hs : s.Follows plan most dims placement) :
    Gives (fun t => ∃ placement', State.Follows plan most dims placement' t) (w.place s) := by
  rw [Workflow.place]
  cases hspec : w.placement with
  | none => exact .ok ⟨placement, hs⟩
  | some spec => exact hs.shard (h.placement spec hspec _ hrank)

/-- A count for each lane stands in an array at the root, so the lanes can be counted by words. -/
theorem volume_lt (h : w.Progresses plan key K) {dims : List Nat}
    (harrays : dims ≠ [] → plan.FitsArrays dims) : volume dims < UInt64.size := by
  cases dims with
  | nil => decide
  | cons count dims =>
    have hroot := Table.mem_of_get?_eq_some h.root
    have hgeneration := Table.mem_of_get?_eq_some (rootPlan_generation key)
    have harray := harrays (List.cons_ne_nil _ _) _ hroot _ hgeneration
    rw [LeafPlan.shape, List.append_nil] at harray
    exact harray.volume_lt

/-- A step from a state that follows the plan succeeds, and ends in a state that follows it. What is
counted goes up by no more than the candidates of the step. -/
theorem step (h : w.Progresses plan key K) {dims : List Nat} {s : State}
    (hs : s.Follows plan most dims placement) (hmost : most + K.count < 2 ^ 53)
    (hpos : 0 < volume dims) (harrays : dims ≠ [] → plan.FitsArrays dims)
    (hrank : dims.length < UInt64.size) :
    Gives (fun t => ∃ placement', State.Follows plan (most + K.count) dims placement' t)
      (w.step s).outcome := by
  simp only [Workflow.step, stepBy, Traced.outcome_bind, Traced.outcome_liftM]
  rw [h.ensureReady hs, Outcome.ok_bind, hs.batchDims]
  refine hs.flatten.bind fun ls hls => ?_
  have hbefore : most < 2 ^ 53 := Nat.lt_of_le_of_lt (Nat.le_add_right ..) hmost
  refine (Gives.mapM fun l hl => gives_laneOf h.root hbefore (hls.2 l hl)).bind
    fun lanes hlanes => ?_
  refine ((h.stages hmost).lockstep hlanes.2).bind fun states hstates => ?_
  have hlength : states.length = volume dims := by rw [hstates.1, hlanes.1, hls.1]
  refine (State.Follows.unflatten hlength hpos (h.volume_lt harrays) harrays ?_ hstates.2).bind
    fun next hnext => h.place hrank hnext
  -- a lane has lost the batch axes, so they can come back
  intro e he
  obtain ⟨e', -, rfl⟩ := List.mem_map.1 he
  exact Directive.fitsBehind_iterate_inward ..

end Progresses

/-! ## Steps and writes to parameters -/

/-- What is done to a state between its start and its end. -/
inductive Action where
  | step
  /-- another tensor at a leaf -/
  | overwrite (leaf : String) (value : Tensor)

def Action.isStep : Action → Bool
  | .step => true
  | .overwrite _ _ => false

/-- One action after another. -/
def act (w : Workflow) : List Action → State → Traced State
  | [], s => pure s
  | .step :: rest, s => do act w rest (← w.step s)
  | .overwrite leaf value :: rest, s => do act w rest (← s.withLeaf leaf value)

/-- Writes go to parameters, with tensors of the shape that the leaf has in the given state. -/
def Action.Allowed (w : Workflow) (s : State) : Action → Prop
  | .step => True
  | .overwrite leaf value => (∃ e ∈ w.parameters, e.1 = leaf) ∧
      ∀ old, s.leaf leaf = .ok old → value.shape = old.shape

/-- From a state that follows the plan, any series of actions succeeds and ends in a state that
follows the plan, as long as what is evaluated can be counted exactly. -/
theorem Progresses.act {w : Workflow} {plan : Plan} {key : Key} {K : Contract}
    (h : w.Progresses plan key K) {dims : List Nat} (hpos : 0 < volume dims)
    (harrays : dims ≠ [] → plan.FitsArrays dims) (hrank : dims.length < UInt64.size) {b : State}
    {start : Nat} {placement : Table Directive} (hb : b.Follows plan start dims placement)
    {actions : List Action} :
    ∀ {most : Nat} {placement' : Table Directive} {s : State}, (∀ a ∈ actions, a.Allowed w b) →
      most + actions.countP Action.isStep * K.count < 2 ^ 53 →
      s.Follows plan most dims placement' →
      Gives (fun t => ∃ most' placement'', State.Follows plan most' dims placement'' t)
        (w.act actions s).outcome := by
  -- the plan is kept by every action; a placement may change, and nothing depends on it
  induction actions with
  | nil => exact fun _ _ hs => .ok ⟨_, _, hs⟩
  | cons a rest ih =>
    intro most placement' s hallowed hmost hs
    obtain ⟨ha, hrest⟩ := List.forall_mem_cons.1 hallowed
    cases a with
    | step =>
      rw [List.countP_cons_of_pos rfl, Nat.succ_mul, Nat.add_comm _ K.count, ← Nat.add_assoc]
        at hmost
      rw [Workflow.act, Traced.outcome_bind]
      refine (h.step hs (Nat.lt_of_le_of_lt (Nat.le_add_right ..) hmost) hpos harrays hrank).bind
        fun t ht => ?_
      obtain ⟨placement'', ht⟩ := ht
      exact ih hrest hmost ht
    | overwrite leaf value =>
      rw [List.countP_cons_of_neg Bool.false_ne_true] at hmost
      obtain ⟨⟨e, he, rfl⟩, hshape⟩ := ha
      obtain ⟨p, shape, hp, hq⟩ := h.parameters e he
      obtain ⟨old, hold, hfits⟩ := hb.leaf hp hq
      simp only [Workflow.act, Traced.outcome_bind, Traced.outcome_liftM]
      exact (hs.withLeaf hp hq ((hshape old hold).trans hfits.shape)).bind fun t ht =>
        ih hrest hmost ht

end Workflow

end Lockstep
