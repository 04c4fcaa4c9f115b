import Lockstep.Proofs.Workflow.Assembled
import Lockstep.Proofs.Workflow.LaneByLane
import Lockstep.Proofs.Workflow.Monitors

/-!
# The way of a lane through a step

A lane's way through a step is laid down by what its components give and by its states before the
hooks (`Passage`, `laneStep_eq_ok`). The nodes of the root, the algorithm and the problem change
where their own stages write (`Passage.Of.core`), and a monitor's local state is threaded
through the calls that it subscribes to (`watch`, `Passage.Of.watched`).
-/

namespace Lockstep.Workflow

/-- What a lane is given on its way through a step, and its states before the hooks. -/
structure Passage where
  candidates : Candidates
  /-- the candidates after the transform -/
  input : Candidates
  fitness : Tensor
  /-- the algorithm's local state after asking -/
  asked : LocalState
  /-- the problem's local state after evaluating -/
  evaluated : LocalState
  /-- the algorithm's local state after telling -/
  told : LocalState
  atPreAsk : State
  atPostAsk : State
  atPreEval : State
  atPostEval : State
  atPreTell : State
  atPostTell : State

/-- The calls to the monitors in stage order, each with the lane's state before it. -/
def Passage.calls (p : Passage) : List (HookCall × State) :=
  [(.preAsk, p.atPreAsk), (.postAsk p.candidates, p.atPostAsk), (.preEval p.input, p.atPreEval),
    (.postEval p.input p.fitness, p.atPostEval), (.preTell p.fitness, p.atPreTell),
    (.postTell, p.atPostTell)]

/-- The state of a lane after a call to all monitors. -/
def hooked (w : Workflow) (index : Nat) (lane : Lane) (call : HookCall) (s : State) :
    Outcome State :=
  (dispatch call lane.generation index w.monitors s).outcome

/-- The passage is that of the lane with an index through a step, which ends in a state. -/
structure Passage.Of (p : Passage) (w : Workflow) (index : Nat) (lane : Lane) (after : State) :
    Prop where
  start : p.atPreAsk = lane.state
  ask : ∃ s l, w.hooked index lane .preAsk p.atPreAsk = .ok s ∧
    s.resolve w.algorithmNode.path = .ok l ∧
    w.algorithm.ask (stepContext w.algorithmNode lane index askStream) l =
      .ok (p.candidates, p.asked) ∧
    s.update w.algorithmNode.path p.asked = .ok p.atPostAsk
  transform : w.hooked index lane (.postAsk p.candidates) p.atPostAsk = .ok p.atPreEval ∧
    w.transformed p.candidates = .ok p.input
  evaluate : ∃ s l, w.hooked index lane (.preEval p.input) p.atPreEval = .ok s ∧
    s.resolve w.problemNode.path = .ok l ∧
    (w.problem.evaluate (stepContext w.problemNode lane index evaluateStream) l p.input).outcome =
      .ok (p.fitness, p.evaluated) ∧
    s.update w.problemNode.path p.evaluated = .ok p.atPostEval
  afterEval : w.hooked index lane (.postEval p.input p.fitness) p.atPostEval = .ok p.atPreTell
  tell : ∃ s l, w.hooked index lane (.preTell p.fitness) p.atPreTell = .ok s ∧
    s.resolve w.algorithmNode.path = .ok l ∧
    w.algorithm.tell (stepContext w.algorithmNode lane index tellStream) l p.fitness = .ok p.told ∧
    s.update w.algorithmNode.path p.told = .ok p.atPostTell
  advance : ∃ s root, w.hooked index lane .postTell p.atPostTell = .ok s ∧
    s.resolve "" = .ok root ∧
    s.update "" (root.setNumber generationAttribute (lane.generation + 1).toFloat) = .ok after

/-- A lane that gets through a step has a passage through it. -/
theorem laneStep_eq_ok {w : Workflow} {index : Nat} {l after : State}
    (h : (w.laneStep index l).outcome = .ok after) :
    ∃ lane, laneOf l = .ok lane ∧ ∃ p : Passage, p.Of w index lane after := by
  rw [laneStep, Traced.outcome_bind] at h
  obtain ⟨lane, hlane, h⟩ := Outcome.bind_eq_ok_iff.1 h
  refine ⟨lane, hlane, ?_⟩
  simp only [stages, Pipeline.alone, Traced.outcome_bind] at h
  obtain ⟨x₁, h₁, h⟩ := Outcome.bind_eq_ok_iff.1 h
  obtain ⟨x₂, h₂, h⟩ := Outcome.bind_eq_ok_iff.1 h
  obtain ⟨x₃, h₃, h⟩ := Outcome.bind_eq_ok_iff.1 h
  obtain ⟨x₄, h₄, h⟩ := Outcome.bind_eq_ok_iff.1 h
  obtain ⟨x₅, h₅, h⟩ := Outcome.bind_eq_ok_iff.1 h
  obtain ⟨x₆, h₆, h⟩ := Outcome.bind_eq_ok_iff.1 h
  obtain ⟨x₇, h₇, h⟩ := Outcome.bind_eq_ok_iff.1 h
  obtain ⟨x₈, h₈, h⟩ := Outcome.bind_eq_ok_iff.1 h
  obtain ⟨x₉, h₉, h⟩ := Outcome.bind_eq_ok_iff.1 h
  obtain ⟨x₁₀, h₁₀, hadvance⟩ := Outcome.bind_eq_ok_iff.1 h
  -- one stage after another, each from what the one before it left
  obtain ⟨s₁, hpreAsk, rfl⟩ := observed_eq_ok_iff.1 h₁
  obtain ⟨a, ha, candidates, asked, hask, atPostAsk, hasked, rfl⟩ := ask_eq_ok h₂
  obtain ⟨z₃, hz₃, hx⟩ := Outcome.bind_eq_ok_iff.1 h₃
  obtain rfl := Except.ok.inj hx
  obtain ⟨s₃, hpostAsk, rfl⟩ := observed_eq_ok_iff.1 hz₃
  obtain ⟨input, hinput, rfl⟩ := transformLane_eq_ok h₄
  obtain ⟨z₅, hz₅, hx⟩ := Outcome.bind_eq_ok_iff.1 h₅
  obtain rfl := Except.ok.inj hx
  obtain ⟨s₅, hpreEval, rfl⟩ := observed_eq_ok_iff.1 hz₅
  obtain ⟨e, he, fitness, evaluated, hevaluate, atPostEval, hevaluated, rfl⟩ := evaluate_eq_ok h₆
  obtain ⟨z₇, hz₇, hx⟩ := Outcome.bind_eq_ok_iff.1 h₇
  obtain rfl := Except.ok.inj hx
  obtain ⟨s₇, hpostEval, rfl⟩ := observed_eq_ok_iff.1 hz₇
  obtain ⟨z₈, hz₈, hx⟩ := Outcome.bind_eq_ok_iff.1 h₈
  obtain rfl := Except.ok.inj hx
  obtain ⟨s₈, hpreTell, rfl⟩ := observed_eq_ok_iff.1 hz₈
  obtain ⟨b, hb, told, htell, atPostTell, htold, rfl⟩ := tell_eq_ok h₉
  obtain ⟨s₁₀, hpostTell, rfl⟩ := observed_eq_ok_iff.1 h₁₀
  obtain ⟨-, root, hroot, hafter⟩ := advance_eq_ok hadvance
  exact ⟨⟨candidates, input, fitness, asked, evaluated, told, lane.state, atPostAsk, s₃, atPostEval,
    s₇, atPostTell⟩, rfl, ⟨s₁, a, hpreAsk, ha, hask, hasked⟩, ⟨hpostAsk, hinput⟩,
    ⟨s₅, e, hpreEval, he, hevaluate, hevaluated⟩, hpostEval, ⟨s₈, b, hpreTell, hb, htell, htold⟩,
    ⟨s₁₀, root, hpostTell, hroot, hafter⟩⟩

/-! ## Nodes apart from monitors -/

theorem get?_of_update {s t : State} {path : String} {l : LocalState} (h : s.update path l = .ok t)
    (other : String) :
    Table.get? other t.nodes = if other = path then some l else Table.get? other s.nodes := by
  obtain ⟨-, rfl⟩ := State.update_eq_ok_iff.1 h
  exact State.get?_withNode s path l other

/-- The path is not that of a monitor. -/
def ApartFromMonitors (w : Workflow) (path : String) : Prop :=
  ∀ slot ∈ w.monitors, slot.node.path ≠ path

theorem ApartFromMonitors.get?_hooked {w : Workflow} {path : String} (h : w.ApartFromMonitors path)
    {index : Nat} {lane : Lane} {call : HookCall} {s t : State}
    (ht : w.hooked index lane call s = .ok t) :
    Table.get? path t.nodes = Table.get? path s.nodes := get?_of_dispatch h ht

theorem ApartFromMonitors.resolve_hooked {w : Workflow} {path : String}
    (h : w.ApartFromMonitors path) {index : Nat} {lane : Lane} {call : HookCall} {s t : State}
    (ht : w.hooked index lane call s = .ok t) : t.resolve path = s.resolve path := by
  rw [State.resolve, State.resolve, h.get?_hooked ht]

namespace Planted

variable {w : Workflow}

/-- The root, the algorithm and the problem are apart from the monitors. -/
theorem apartFromMonitors (h : w.Planted) {path : String} (hpath : isCorePath path) :
    w.ApartFromMonitors path := by
  intro slot hslot he
  rw [h.path_monitorNode hslot] at he
  exact h.not_isCorePath_name hslot (he ▸ hpath)

end Planted

/-- What the algorithm and the problem are given comes from the lane's state at the start, and what
they give back is in the state at the end. -/
structure Passage.Core (p : Passage) (w : Workflow) (index : Nat) (lane : Lane) (after : State) :
    Prop where
  ask : ∃ l, lane.state.resolve "algorithm" = .ok l ∧
    w.algorithm.ask (stepContext w.algorithmNode lane index askStream) l =
      .ok (p.candidates, p.asked)
  evaluate : ∃ l, lane.state.resolve "problem" = .ok l ∧
    (w.problem.evaluate (stepContext w.problemNode lane index evaluateStream) l p.input).outcome =
      .ok (p.fitness, p.evaluated)
  tell : w.algorithm.tell (stepContext w.algorithmNode lane index tellStream) p.asked p.fitness =
    .ok p.told
  nodes : ∃ root, lane.state.resolve "" = .ok root ∧ ∀ path, w.ApartFromMonitors path →
    Table.get? path after.nodes =
      if path = "" then
        some (root.setNumber generationAttribute (lane.generation + 1).toFloat)
      else if path = "algorithm" then some p.told
      else if path = "problem" then some p.evaluated
      else Table.get? path lane.state.nodes

theorem Passage.Of.core {w : Workflow} (hw : w.Planted) {p : Passage} {index : Nat} {lane : Lane}
    {after : State} (h : p.Of w index lane after) : p.Core w index lane after := by
  obtain ⟨s₁, a, hpreAsk, ha, hask, hasked⟩ := h.ask
  obtain ⟨s₅, e, hpreEval, he, hevaluate, hevaluated⟩ := h.evaluate
  obtain ⟨s₈, b, hpreTell, hb, htell, htold⟩ := h.tell
  obtain ⟨s₁₀, root, hpostTell, hroot, hafter⟩ := h.advance
  have hrootApart : w.ApartFromMonitors "" := hw.apartFromMonitors (Or.inl rfl)
  have halgorithm := hw.apartFromMonitors hw.isCorePath_algorithmNode
  have hproblem := hw.apartFromMonitors hw.isCorePath_problemNode
  rw [hw.path_algorithmNode] at ha hasked hb htold halgorithm
  rw [hw.path_problemNode] at he hevaluated hproblem
  -- what a node apart from the monitors holds, from one write to the next
  have hasks : ∀ path, w.ApartFromMonitors path → Table.get? path s₅.nodes =
      if path = "algorithm" then some p.asked else Table.get? path lane.state.nodes := by
    intro path hpath
    rw [hpath.get?_hooked hpreEval, hpath.get?_hooked h.transform.1, get?_of_update hasked,
      hpath.get?_hooked hpreAsk, h.start]
  have hevaluates : ∀ path, w.ApartFromMonitors path → Table.get? path s₈.nodes =
      if path = "problem" then some p.evaluated
      else if path = "algorithm" then some p.asked else Table.get? path lane.state.nodes := by
    intro path hpath
    rw [hpath.get?_hooked hpreTell, hpath.get?_hooked h.afterEval, get?_of_update hevaluated,
      hasks path hpath]
  have htells : ∀ path, w.ApartFromMonitors path → Table.get? path s₁₀.nodes =
      if path = "algorithm" then some p.told
      else if path = "problem" then some p.evaluated else Table.get? path lane.state.nodes := by
    intro path hpath
    rw [hpath.get?_hooked hpostTell, get?_of_update htold, hevaluates path hpath]
    split
    · rfl
    · rfl
  have hb' : b = p.asked := by
    have hget := hevaluates "algorithm" halgorithm
    rw [State.resolve_eq_ok_iff.1 hb, if_neg (by decide), if_pos rfl] at hget
    exact Option.some.inj hget
  refine ⟨⟨a, ?_, hask⟩, ⟨e, ?_, hevaluate⟩, hb' ▸ htell, root, ?_, fun path hpath => ?_⟩
  · rw [halgorithm.resolve_hooked hpreAsk, h.start] at ha
    exact ha
  · have hget := hasks "problem" hproblem
    rw [State.resolve_eq_ok_iff.1 he, if_neg (by decide)] at hget
    exact State.resolve_eq_ok_iff.2 hget.symm
  · have hget := htells "" hrootApart
    rw [State.resolve_eq_ok_iff.1 hroot, if_neg (by decide), if_neg (by decide)] at hget
    exact State.resolve_eq_ok_iff.2 hget.symm
  · rw [get?_of_update hafter, htells path hpath]

/-! ## Monitors -/

/-- What a monitor, which comes after the first `before` ones, makes of its local state at a call
that is made in a state: nothing if it does not subscribe to the hook, else what it gives back for
the snapshot that the monitors before it left. -/
def watch (w : Workflow) (index : Nat) (generation : UInt64) (before : Nat) (slot : MonitorSlot)
    (l : LocalState) (shown : HookCall × State) : Outcome LocalState :=
  if slot.monitor.hooks.contains shown.1.hook then do
    let s ← (dispatch shown.1 generation index (w.monitors.take before) shown.2).outcome
    let seen ← (slot.monitor.observe ⟨slot.node, s, generation, index⟩ l shown.1).outcome
    return seen.getD l
  else .ok l

theorem dispatch_append {call : HookCall} {generation : UInt64} {index : Nat}
    {after : List MonitorSlot} :
    ∀ {before : List MonitorSlot} {s : State},
      (dispatch call generation index (before ++ after) s).outcome =
        (dispatch call generation index before s).outcome >>= fun u =>
          (dispatch call generation index after u).outcome
  | [], s => rfl
  | slot :: rest, s => by
    rw [List.cons_append, dispatch, dispatch]
    split
    · simp only [Traced.outcome_bind, Traced.outcome_liftM, bind_assoc]
      refine congrArg _ (funext fun l => congrArg _ (funext fun seen => ?_))
      cases seen with
      | none => exact dispatch_append
      | some l' =>
        simp only [Traced.outcome_bind, Traced.outcome_liftM, bind_assoc]
        exact congrArg _ (funext fun u => dispatch_append)
    · exact dispatch_append

/-- A call to all monitors threads the local state of each. -/
theorem watch_of_hooked {w : Workflow} (hw : (w.monitors.map fun slot => slot.node.path).Nodup)
    {index : Nat} {lane : Lane} {call : HookCall} {s t : State}
    (ht : w.hooked index lane call s = .ok t) {before : Nat} {slot : MonitorSlot}
    (hslot : w.monitors[before]? = some slot) {l : LocalState}
    (hl : Table.get? slot.node.path s.nodes = some l) :
    ∃ l', w.watch index lane.generation before slot l (call, s) = .ok l' ∧
      Table.get? slot.node.path t.nodes = some l' := by
  obtain ⟨hlt, rfl⟩ := List.getElem?_eq_some_iff.1 hslot
  have hsplit : w.monitors.take before ++ w.monitors[before] :: w.monitors.drop (before + 1) =
      w.monitors := by rw [List.cons_getElem_drop_succ, List.take_append_drop]
  rw [← hsplit, List.map_append, List.map_cons, List.nodup_append, List.nodup_cons] at hw
  obtain ⟨-, ⟨hafter, -⟩, hbefore⟩ := hw
  rw [hooked, ← hsplit, dispatch_append] at ht
  obtain ⟨u, hu, ht⟩ := Outcome.bind_eq_ok_iff.1 ht
  -- the monitors before and after this one write at other nodes
  have hul : Table.get? w.monitors[before].node.path u.nodes = some l := by
    rw [get?_of_dispatch (fun slot hslot he => ?_) hu, hl]
    exact hbefore _ (List.mem_map_of_mem hslot) _ List.mem_cons_self he
  have hrest : ∀ {v : State}, (dispatch call lane.generation index (w.monitors.drop (before + 1))
      v).outcome = .ok t → Table.get? w.monitors[before].node.path t.nodes =
        Table.get? w.monitors[before].node.path v.nodes := by
    refine fun hv => get?_of_dispatch (fun slot hslot he => hafter ?_) hv
    exact he ▸ List.mem_map_of_mem hslot
  rw [watch]
  rw [dispatch] at ht
  split at ht
  · next hhook =>
    simp only [Traced.outcome_bind, Traced.outcome_liftM, State.resolve_eq_ok_iff.2 hul,
      Outcome.ok_bind] at ht
    obtain ⟨seen, hseen, ht⟩ := Outcome.bind_eq_ok_iff.1 ht
    rw [if_pos hhook, hu, Outcome.ok_bind, hseen, Outcome.ok_bind]
    cases seen with
    | none => exact ⟨l, rfl, (hrest ht).trans hul⟩
    | some l' =>
      simp only [Traced.outcome_bind, Traced.outcome_liftM] at ht
      obtain ⟨v, hv, ht⟩ := Outcome.bind_eq_ok_iff.1 ht
      exact ⟨l', rfl, by rw [hrest ht, get?_of_update hv, if_pos rfl]⟩
  · next hhook => exact ⟨l, if_neg hhook, (hrest ht).trans hul⟩

/-- A monitor goes through all calls of a step with its local state. -/
theorem Passage.Of.watched {w : Workflow} (hw : w.Planted) {p : Passage} {index : Nat} {lane : Lane}
    {after : State} (h : p.Of w index lane after) {before : Nat} {slot : MonitorSlot}
    (hslot : w.monitors[before]? = some slot) {l : LocalState}
    (hl : Table.get? slot.name lane.state.nodes = some l) :
    ∃ l', p.calls.foldlM (w.watch index lane.generation before slot) l = .ok l' ∧
      Table.get? slot.name after.nodes = some l' := by
  have hmem := List.mem_of_getElem? hslot
  have hpaths : (w.monitors.map fun slot => slot.node.path).Nodup := by
    rw [List.map_congr_left fun slot hslot => hw.path_monitorNode hslot]
    exact hw.nodup_monitorNames
  have hcore := hw.not_isCorePath_name hmem
  -- the other writes of a step are at other nodes
  have hother : ∀ {s t : State} {path : String} {l : LocalState}, isCorePath path →
      s.update path l = .ok t → Table.get? slot.name t.nodes = Table.get? slot.name s.nodes := by
    intro s t path l hpath ht
    rw [get?_of_update ht, if_neg]
    rintro rfl
    exact hcore hpath
  have hwatch : ∀ {call : HookCall} {s t : State} {l : LocalState},
      w.hooked index lane call s = .ok t → Table.get? slot.name s.nodes = some l →
        ∃ l', w.watch index lane.generation before slot l (call, s) = .ok l' ∧
          Table.get? slot.name t.nodes = some l' := by
    intro call s t l ht hl
    rw [← hw.path_monitorNode hmem] at hl ⊢
    exact watch_of_hooked hpaths ht hslot hl
  obtain ⟨s₁, a, hpreAsk, -, -, hasked⟩ := h.ask
  obtain ⟨s₅, e, hpreEval, -, -, hevaluated⟩ := h.evaluate
  obtain ⟨s₈, b, hpreTell, -, -, htold⟩ := h.tell
  obtain ⟨s₁₀, root, hpostTell, -, hafter⟩ := h.advance
  obtain ⟨l₁, h₁, hl₁⟩ := hwatch hpreAsk (h.start ▸ hl)
  obtain ⟨l₂, h₂, hl₂⟩ := hwatch h.transform.1
    ((hother hw.isCorePath_algorithmNode hasked).trans hl₁)
  obtain ⟨l₃, h₃, hl₃⟩ := hwatch hpreEval hl₂
  obtain ⟨l₄, h₄, hl₄⟩ := hwatch h.afterEval
    ((hother hw.isCorePath_problemNode hevaluated).trans hl₃)
  obtain ⟨l₅, h₅, hl₅⟩ := hwatch hpreTell hl₄
  obtain ⟨l₆, h₆, hl₆⟩ := hwatch hpostTell
    ((hother hw.isCorePath_algorithmNode htold).trans hl₅)
  refine ⟨l₆, ?_, (hother (Or.inl rfl) hafter).trans hl₆⟩
  rw [Passage.calls, List.foldlM_cons, h₁, Outcome.ok_bind, List.foldlM_cons, h₂, Outcome.ok_bind,
    List.foldlM_cons, h₃, Outcome.ok_bind, List.foldlM_cons, h₄, Outcome.ok_bind, List.foldlM_cons,
    h₅, Outcome.ok_bind, List.foldlM_cons, h₆, Outcome.ok_bind, List.foldlM_nil]
  rfl

/-- A monitor without hooks in a step keeps its local state. -/
theorem foldlM_watch_of_idle {w : Workflow} {index : Nat} {generation : UInt64} {before : Nat}
    {slot : MonitorSlot} (hidle : ∀ hook ≠ Hook.setup, slot.monitor.hooks.contains hook = false)
    (p : Passage) (l : LocalState) :
    p.calls.foldlM (w.watch index generation before slot) l = .ok l := by
  have hkeep : ∀ shown ∈ p.calls, w.watch index generation before slot l shown = .ok l := by
    intro shown hshown
    have hhook : shown.1.hook ≠ .setup := by
      simp only [Passage.calls, List.mem_cons, List.not_mem_nil, or_false] at hshown
      rcases hshown with rfl | rfl | rfl | rfl | rfl | rfl
      all_goals exact Hook.noConfusion
    rw [watch, hidle _ hhook, if_neg Bool.false_ne_true]
  generalize p.calls = calls at hkeep
  induction calls with
  | nil => rfl
  | cons shown rest ih =>
    obtain ⟨hfirst, hrest⟩ := List.forall_mem_cons.1 hkeep
    rw [List.foldlM_cons, hfirst, Outcome.ok_bind, ih hrest]

end Lockstep.Workflow
