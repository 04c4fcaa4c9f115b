import Lockstep.Proofs.State.Shard
import Lockstep.Proofs.Workflow.SideBySide

/-!
# Steps keep tables ascending

Local states are tables, so a component is given ordered ones and gives ordered ones back
(`Workflow.KeepsOrder`). Then all states of a run from an ordered state are ordered
(`KeepsOrder.run`).
-/

namespace Lockstep

namespace Workflow

/-- The components give back ordered local states when they are given ordered ones. -/
structure KeepsOrder (w : Workflow) : Prop where
  ask : ∀ {ctx l candidates l'}, LocalState.Ordered l →
    w.algorithm.ask ctx l = .ok (candidates, l') → l'.Ordered
  tell : ∀ {ctx l fitness l'}, LocalState.Ordered l → w.algorithm.tell ctx l fitness = .ok l' →
    l'.Ordered
  evaluate : ∀ {ctx l candidates fitness l'}, LocalState.Ordered l →
    (w.problem.evaluate ctx l candidates).outcome = .ok (fitness, l') → l'.Ordered
  observe : ∀ {slot ctx l call l'}, slot ∈ w.monitors → ctx.state.Ordered → LocalState.Ordered l →
    (slot.monitor.observe ctx l call).outcome = .ok (some l') → l'.Ordered

theorem ordered_of_dispatch {call : HookCall} {generation : UInt64} {index : Nat}
    {slots : List MonitorSlot} {s t : State}
    (hslots : ∀ slot ∈ slots, ∀ {ctx l l'}, ctx.state.Ordered → LocalState.Ordered l →
      (slot.monitor.observe ctx l call).outcome = .ok (some l') → l'.Ordered)
    (hs : s.Ordered) (h : (dispatch call generation index slots s).outcome = .ok t) : t.Ordered :=
  keeps_dispatch (fun hs hl => hs.resolve hl) (fun hs hl ht => hs.update hl ht) hslots hs h

/-- A workflow places a state as it is. -/
theorem exists_of_place {w : Workflow} {s t : State} (h : w.place s = .ok t) :
    ∃ placement, t = { s with placement } := by
  rw [place] at h
  split at h
  · exact State.exists_of_shard h
  · obtain rfl := Except.ok.inj h
    obtain ⟨nodes, dims, placement⟩ := s
    exact ⟨placement, rfl⟩

theorem ordered_of_place {w : Workflow} {s t : State} (hs : s.Ordered) (h : w.place s = .ok t) :
    t.Ordered := by
  obtain ⟨placement, rfl⟩ := exists_of_place h
  exact hs.of_nodes_eq rfl

namespace KeepsOrder

variable {w : Workflow}

theorem keeps (h : w.KeepsOrder) : w.Keeps LocalState.Ordered State.Ordered where
  read := fun hs hl => hs.resolve hl
  write := fun hs hl ht => hs.update hl ht
  ask := h.ask
  tell := h.tell
  evaluate := h.evaluate
  advance := fun hl => State.LocalOrdered.insert hl _ trivial
  observe := h.observe

/-- A workflow beside itself: the same ordered state on both sides. -/
theorem kept (h : w.KeepsOrder) :
    Kept w w LocalState.Ordered fun s s' => s' = s ∧ s.Ordered where
  toLaneKept := h.keeps.laneKept
  batchDims := fun ⟨hs, _⟩ => by rw [hs]
  unstack := by
    rintro s _ xs xs' ⟨rfl, hs⟩ hxs hxs'
    rw [hxs] at hxs'
    obtain rfl := Except.ok.inj hxs'
    exact List.forall₂_same.2 fun x hx => ⟨rfl, hs.unstack hxs hx⟩
  stack := by
    intro xs xs' s s' hxs hs hs'
    have hsame : xs' = xs := by
      rw [← List.forall₂_eq_eq_eq]
      exact hxs.flip.imp fun x x' hx => hx.1.symm ▸ rfl
    subst hsame
    rw [hs] at hs'
    exact ⟨(Except.ok.inj hs').symm, State.Ordered.stack hs fun x hx =>
      (List.forall₂_same.1 hxs x hx).2⟩
  place := by
    rintro s _ t t' ⟨rfl, hs⟩ ht ht'
    rw [ht] at ht'
    exact ⟨(Except.ok.inj ht').symm, ordered_of_place hs ht⟩

theorem laneStep (h : w.KeepsOrder) {i : Nat} {s t : State} (hs : s.Ordered)
    (ht : (w.laneStep i s).outcome = .ok t) : t.Ordered :=
  h.keeps.laneStep hs ht

theorem step (h : w.KeepsOrder) {s t : State} (hs : s.Ordered) (ht : (w.step s).outcome = .ok t) :
    t.Ordered :=
  (h.kept.step_related ⟨rfl, hs⟩ ht ht).2

/-- A run from an ordered state ends in an ordered state. -/
theorem run (h : w.KeepsOrder) {steps : Nat} {s t : State} (hs : s.Ordered)
    (ht : (w.run steps s).outcome = .ok t) : t.Ordered :=
  (h.kept.run_related ⟨rfl, hs⟩ ht ht).2

end KeepsOrder

end Workflow

end Lockstep
