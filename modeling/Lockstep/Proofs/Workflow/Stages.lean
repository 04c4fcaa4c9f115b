import Lockstep.Proofs.Outcome
import Lockstep.Proofs.State.Ordered
import Lockstep.Workflow.Step

/-!
# What each stage does

For every stage of a step, what it read and wrote when it succeeds: which node it took a local state
from, what the component made of it, and where that was put.
-/

namespace Lockstep.Workflow

theorem laneOf_eq_ok {s : State} {lane : Lane} (h : laneOf s = .ok lane) :
    lane.state = s ∧ ∃ root, s.resolve "" = .ok root ∧
      ∃ key generation, root.tensor keyAttribute >>= Random.Key.ofTensor = .ok key ∧
        root.number generationAttribute = .ok generation ∧
        lane = ⟨s, key, generation.toUInt64⟩ := by
  obtain ⟨root, hroot, h⟩ := Outcome.bind_eq_ok_iff.1 h
  obtain ⟨t, ht, h⟩ := Outcome.bind_eq_ok_iff.1 h
  obtain ⟨key, hkey, h⟩ := Outcome.bind_eq_ok_iff.1 h
  obtain ⟨generation, hgeneration, h⟩ := Outcome.bind_eq_ok_iff.1 h
  obtain rfl := Except.ok.inj h
  exact ⟨rfl, root, hroot, key, generation, Outcome.bind_eq_ok_iff.2 ⟨t, ht, hkey⟩, hgeneration,
    rfl⟩

/-- What a call to the first monitor and then to the others does. -/
theorem dispatch_cons_eq_ok {call : HookCall} {generation : UInt64} {index : Nat}
    {slot : MonitorSlot} {rest : List MonitorSlot} {s t : State}
    (h : (dispatch call generation index (slot :: rest) s).outcome = .ok t) :
    ∃ u, (dispatch call generation index rest u).outcome = .ok t ∧
      (u = s ∨ ∃ l l', s.resolve slot.node.path = .ok l ∧
        (slot.monitor.observe ⟨slot.node, s, generation, index⟩ l call).outcome = .ok (some l') ∧
          s.update slot.node.path l' = .ok u) := by
  rw [dispatch] at h
  split at h
  · simp only [Traced.outcome_bind, Traced.outcome_liftM] at h
    obtain ⟨l, hl, h⟩ := Outcome.bind_eq_ok_iff.1 h
    obtain ⟨seen, hseen, h⟩ := Outcome.bind_eq_ok_iff.1 h
    cases seen with
    | none => exact ⟨s, h, Or.inl rfl⟩
    | some l' =>
      simp only [Traced.outcome_bind, Traced.outcome_liftM] at h
      obtain ⟨u, hu, h⟩ := Outcome.bind_eq_ok_iff.1 h
      exact ⟨u, h, Or.inr ⟨l, l', hl, hseen, hu⟩⟩
  · exact ⟨s, h, Or.inl rfl⟩

theorem observed_eq_ok_iff {w : Workflow} {call : HookCall} {index : Nat} {lane next : Lane} :
    (w.observed call index lane).outcome = .ok next ↔
      ∃ s, (dispatch call lane.generation index w.monitors lane.state).outcome = .ok s ∧
        next = { lane with state := s } := by
  rw [observed, Traced.outcome_bind, Outcome.bind_eq_ok_iff]
  constructor
  · rintro ⟨s, hs, h⟩
    exact ⟨s, hs, (Except.ok.inj h).symm⟩
  · rintro ⟨s, hs, rfl⟩
    exact ⟨s, hs, rfl⟩

theorem ask_eq_ok {w : Workflow} {index : Nat} {lane : Lane} {next : AskedLane}
    (h : w.ask index lane = .ok next) :
    ∃ l, lane.state.resolve w.algorithmNode.path = .ok l ∧
      ∃ candidates l', w.algorithm.ask (stepContext w.algorithmNode lane index askStream) l =
          .ok (candidates, l') ∧
        ∃ s, lane.state.update w.algorithmNode.path l' = .ok s ∧
          next = { lane with state := s, candidates } := by
  obtain ⟨l, hl, h⟩ := Outcome.bind_eq_ok_iff.1 h
  obtain ⟨⟨candidates, l'⟩, hask, h⟩ := Outcome.bind_eq_ok_iff.1 h
  obtain ⟨n, -, h⟩ := Outcome.bind_eq_ok_iff.1 h
  refine ⟨l, hl, candidates, l', hask, ?_⟩
  have hwrite : (do
      return { lane with
        state := ← lane.state.update w.algorithmNode.path l', candidates } : Outcome AskedLane) =
        .ok next := by
    split at h
    · split at h
      · cases h
      · exact h
    · exact h
  obtain ⟨s, hs, h⟩ := Outcome.bind_eq_ok_iff.1 hwrite
  exact ⟨s, hs, (Except.ok.inj h).symm⟩

theorem transformLane_eq_ok {w : Workflow} {lane next : AskedLane}
    (h : w.transformLane lane = .ok next) :
    ∃ candidates, w.transformed lane.candidates = .ok candidates ∧
      next = { lane with candidates } := by
  obtain ⟨candidates, hcandidates, h⟩ := Outcome.bind_eq_ok_iff.1 h
  obtain ⟨-, -, h⟩ := Outcome.bind_eq_ok_iff.1 h
  exact ⟨candidates, hcandidates, (Except.ok.inj h).symm⟩

theorem evaluate_eq_ok {w : Workflow} {index : Nat} {lane : AskedLane} {next : EvaluatedLane}
    (h : (w.evaluate index lane).outcome = .ok next) :
    ∃ l, lane.state.resolve w.problemNode.path = .ok l ∧
      ∃ fitness l', (w.problem.evaluate (stepContext w.problemNode lane.toLane index evaluateStream)
          l lane.candidates).outcome = .ok (fitness, l') ∧
        ∃ s, lane.state.update w.problemNode.path l' = .ok s ∧
          next = { lane with state := s, fitness } := by
  simp only [evaluate, Traced.outcome_bind, Traced.outcome_liftM] at h
  obtain ⟨n, -, h⟩ := Outcome.bind_eq_ok_iff.1 h
  obtain ⟨l, hl, h⟩ := Outcome.bind_eq_ok_iff.1 h
  obtain ⟨⟨fitness, l'⟩, heval, h⟩ := Outcome.bind_eq_ok_iff.1 h
  refine ⟨l, hl, fitness, l', heval, ?_⟩
  dsimp only at h
  split at h
  · simp only [Traced.outcome_bind, Traced.outcome_liftM, Traced.outcome_pure] at h
    obtain ⟨s, hs, h⟩ := Outcome.bind_eq_ok_iff.1 h
    exact ⟨s, hs, (Except.ok.inj h).symm⟩
  · cases h

theorem tell_eq_ok {w : Workflow} {index : Nat} {lane next : EvaluatedLane}
    (h : w.tell index lane = .ok next) :
    ∃ l, lane.state.resolve w.algorithmNode.path = .ok l ∧
      ∃ l', w.algorithm.tell (stepContext w.algorithmNode lane.toLane index tellStream) l
          lane.fitness = .ok l' ∧
        ∃ s, lane.state.update w.algorithmNode.path l' = .ok s ∧
          next = { lane with state := s } := by
  obtain ⟨l, hl, h⟩ := Outcome.bind_eq_ok_iff.1 h
  obtain ⟨l', htell, h⟩ := Outcome.bind_eq_ok_iff.1 h
  obtain ⟨s, hs, h⟩ := Outcome.bind_eq_ok_iff.1 h
  exact ⟨l, hl, l', htell, s, hs, (Except.ok.inj h).symm⟩

/-- The count of steps goes up as long as it stays a word. -/
theorem advance_eq_ok {lane : Lane} {s : State} (h : advance lane = .ok s) :
    lane.generation.toNat + 1 < UInt64.size ∧ ∃ root, lane.state.resolve "" = .ok root ∧
      lane.state.update "" (root.setNumber generationAttribute (lane.generation + 1).toFloat) =
        .ok s := by
  obtain ⟨root, hroot, h⟩ := Outcome.bind_eq_ok_iff.1 h
  obtain ⟨next, hnext, h⟩ := Outcome.bind_eq_ok_iff.1 h
  rw [wordOf_eq_ok_iff] at hnext
  have hlt : lane.generation.toNat + 1 < UInt64.size := hnext ▸ next.toNat_lt
  obtain rfl : next = lane.generation + 1 := by
    rw [← UInt64.toNat_inj, hnext, UInt64.toNat_add, UInt64.toNat_one, Nat.mod_eq_of_lt hlt]
  exact ⟨hlt, root, hroot, h⟩

end Lockstep.Workflow
