import Lockstep.Proofs.State.Inverse
import Lockstep.Proofs.State.Outline

/-!
# Placing commutes with stacking and taking apart

A request counts its axes from behind the batch axes, so what it has for a leaf moves with the leaf,
outward into a batch and inward out of it. A batch has the leaves of its parts, and its axes behind
the outermost one are theirs, so the batch can be placed exactly when its parts can
(`State.shard_stack_unstack`).
-/

namespace Lockstep

namespace State

variable {spec : PlacementSpec}

/-! ## Which states can be placed -/

/-- A part can be placed exactly when the batch can. -/
theorem exists_shard_of_unstack_iff {xs : List State} {s x : State} (h : s.unstack = .ok xs)
    (hfits : spec.AxesFit s.batchDims.length) (hx : x ∈ xs) :
    (∃ y, x.shard spec = .ok y) ↔ ∃ t, s.shard spec = .ok t := by
  obtain ⟨j, hj⟩ := List.mem_iff_getElem?.1 hx
  obtain ⟨hlt, rfl⟩ := (getElem?_of_unstack h).1 hj
  exact exists_shard_part_iff (unstack_eq_ok_iff_parts.1 h).1 hlt hfits

/-- What holds of a list when it holds of one member, and of every member then. -/
theorem forall_mem_iff_of_ne_nil {α : Type} {P : α → Prop} {Q : Prop} {xs : List α} (hne : xs ≠ [])
    (h : ∀ x ∈ xs, (P x ↔ Q)) : (∀ x ∈ xs, P x) ↔ Q := by
  obtain ⟨x, hx⟩ := List.exists_mem_of_ne_nil xs hne
  exact ⟨fun hall => (h x hx).1 (hall x hx), fun hq y hy => (h y hy).2 hq⟩

/-- **Placing commutes with stacking and taking apart**, for a request whose axes can be numbered
behind the batch axes. A batch can be placed exactly when all states that were stacked can, and the
placed states stack to the placed batch; it can be placed exactly when all its parts can, and the
placed batch is taken apart into the placed parts. -/
theorem shard_stack_unstack (spec : PlacementSpec) :
    (∀ (xs : List State) (s : State), (∀ x ∈ xs, x.Ordered) → stack xs = .ok s →
      spec.AxesFit s.batchDims.length →
      ((∀ x ∈ xs, ∃ y, x.shard spec = .ok y) ↔ ∃ t, s.shard spec = .ok t) ∧
      ∀ ys : List State, List.Forall₂ (fun x y => x.shard spec = .ok y) xs ys →
        stack ys = s.shard spec) ∧
    (∀ (s : State) (xs : List State), s.unstack = .ok xs → xs ≠ [] →
      spec.AxesFit s.batchDims.length →
      ((∃ t, s.shard spec = .ok t) ↔ ∀ x ∈ xs, ∃ y, x.shard spec = .ok y) ∧
      ∀ t, s.shard spec = .ok t → ∃ ys : List State,
        List.Forall₂ (fun x y => x.shard spec = .ok y) xs ys ∧ t.unstack = .ok ys) := by
  refine ⟨fun xs s hxs h hfits => ?_, fun s xs h hne hfits => ?_⟩
  · have hne : xs ≠ [] := by
      rintro rfl
      cases h
    have hunstack := unstack_stack hxs h
    have hall := forall_mem_iff_of_ne_nil hne fun x hx =>
      exists_shard_of_unstack_iff hunstack hfits hx
    refine ⟨hall, fun ys hys => ?_⟩
    obtain ⟨heach, rfl⟩ := forall₂_shard_iff.1 hys
    obtain ⟨t, ht⟩ := hall.1 heach
    rw [ht, eq_placed_of_shard ht]
    exact stack_placed (numbers_of_shard ht) h (leafNames_of_stack hxs h)
  · -- a part of the state is accepted exactly when the state is, as there is at least one
    have hall := forall_mem_iff_of_ne_nil hne fun x hx => exists_shard_of_unstack_iff h hfits hx
    refine ⟨hall.symm, fun t ht => ?_⟩
    refine ⟨_, forall₂_shard_iff.2 ⟨hall.2 ⟨t, ht⟩, rfl⟩, ?_⟩
    rw [eq_placed_of_shard ht]
    exact unstack_placed (numbers_of_shard ht) h

theorem shard_stack_unstack_specimen :
    ∃ s t, stack [specimen, specimen] = .ok s ∧ s.shard ⟨.gpus 2, [("p.x", 0)]⟩ = .ok t ∧
      stack [splitSpecimen 0, splitSpecimen 0] = .ok t ∧
      t.unstack = .ok [splitSpecimen 0, splitSpecimen 0] := by
  have hsplit : specimen.shard ⟨.gpus 2, [("p.x", 0)]⟩ = .ok (splitSpecimen 0) := rfl
  have hordered : ∀ x ∈ [specimen, specimen], x.Ordered := by simp [built_specimen.ordered]
  obtain ⟨s, hs⟩ : ∃ s, stack [specimen, specimen] = .ok s :=
    Outcome.exists_eq_ok (by decide +kernel)
  have hfits : PlacementSpec.AxesFit ⟨.gpus 2, [("p.x", 0)]⟩ s.batchDims.length := by
    rw [batchDims_of_stack hs List.mem_cons_self]
    exact List.forall_mem_singleton.2 (by decide)
  obtain ⟨hiff, hcommutes⟩ := (shard_stack_unstack _).1 _ s hordered hs hfits
  obtain ⟨t, ht⟩ := hiff.1 (by simp [hsplit])
  have hunstack : s.unstack = .ok [specimen, specimen] := unstack_stack hordered hs
  obtain ⟨ys, hys, hback⟩ :=
    ((shard_stack_unstack _).2 s _ hunstack (List.cons_ne_nil _ _) hfits).2 t ht
  obtain ⟨-, rfl⟩ := forall₂_shard_iff.1 hys
  exact ⟨s, t, hs, ht, (hcommutes _ (.cons hsplit (.cons hsplit .nil))).trans ht, hback⟩

end State

end Lockstep
