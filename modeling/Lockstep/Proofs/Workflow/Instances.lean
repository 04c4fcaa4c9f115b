import Lockstep.Proofs.State.Restack
import Lockstep.Proofs.Workflow.Ordered

/-!
# A batch, instance by instance

The instances of a batch are its parts along the outermost axis. A step of the batch does to each of
them what `Workflow.instanceStep` does to it alone, given its number (`step_instances`), and so does
a run (`run_instances`).
-/

namespace Lockstep

namespace Workflow

/-- The state with what the workflow requests for its leaves. -/
def placed (w : Workflow) (s : State) : State :=
  match w.placement with
  | some spec => s.placed spec
  | none => s

theorem eq_placed_of_place {w : Workflow} {s t : State} (h : w.place s = .ok t) :
    t = w.placed s := by
  rw [place] at h
  rw [placed]
  cases hspec : w.placement with
  | none =>
    rw [hspec] at h
    exact (Except.ok.inj h).symm
  | some spec =>
    rw [hspec] at h
    exact State.eq_placed_of_shard h

/-- The instance with a number through a step, on its own. -/
def instanceStep (w : Workflow) (number : Nat) (x : State) : Outcome State := do
  let ls ← x.flatten
  let Fs ← (ls.mapIdx fun i l => (w.laneStep (number * ls.length + i) l).outcome).mapM id
  let next ← State.unflatten x.batchDims Fs
  return w.placed next

/-- The instance with a number through a count of steps, on its own. -/
def instanceRun (w : Workflow) (number : Nat) : (steps : Nat) → State → Outcome State
  | 0, x => .ok x
  | steps + 1, x => do instanceRun w number steps (← w.instanceStep number x)

/-- What is placed as a batch is placed in all its parts. -/
theorem unstack_place {w : Workflow} {s t : State} {xs : List State} (h : s.unstack = .ok xs)
    (ht : w.place s = .ok t) : t.unstack = .ok (xs.map w.placed) := by
  rw [place] at ht
  unfold placed
  cases hspec : w.placement with
  | none =>
    rw [hspec] at ht
    obtain rfl := Except.ok.inj ht
    simp only [List.map_id']
    exact h
  | some spec =>
    rw [hspec] at ht
    rw [State.eq_placed_of_shard ht]
    exact State.unstack_placed (State.numbers_of_shard ht) h

/-- A step of a batch is a step of each of its instances. -/
theorem step_instances {w : Workflow} (hw : w.KeepsOrder) {s t : State} (hs : s.Ordered)
    {xs : List State} (hxs : s.unstack = .ok xs) (ht : (w.step s).outcome = .ok t) :
    ∃ ys, t.unstack = .ok ys ∧ ys.length = xs.length ∧
      ∀ (j : Nat) (x y : State), xs[j]? = some x → ys[j]? = some y →
        w.instanceStep j x = .ok y := by
  obtain ⟨ls, hls, Fs, hlength, hFs, next, hnext, ht⟩ := step_eq_ok ht
  have hordered := State.forall_of_flatten (fun h hs hx => State.Ordered.unstack hs h hx) hs hls
  have hFordered : ∀ F ∈ Fs, F.Ordered := by
    intro F hF
    obtain ⟨i, l, hl, hstep⟩ := exists_lane_of_mem hlength hFs hF
    exact hw.laneStep (hordered l hl) hstep
  have hdims := State.batchDims_of_unstack hxs
  have hparts : ∀ x ∈ xs, x.batchDims = s.batchDims.tail :=
    fun x hx => State.batchDims_of_mem_unstack hxs hx
  generalize s.batchDims.tail = dims at hdims hparts
  -- the lanes before the stages, instance by instance
  obtain ⟨lss, hlss, rfl⟩ := (State.flatten_eq_ok_iff hxs).1 hls
  have hlane := State.length_of_flatten_of_mem hparts hlss
  have hcount : Fs.length = lss.length * volume dims := by
    rw [← hlength, length_flatten_of_length hlane]
  -- the lanes after them, cut into one piece for each instance
  rw [hdims, hlss.length_eq] at hnext
  obtain ⟨-, -, -, gs, hgs, hstack⟩ := State.unflatten_cons_eq_ok_iff.1 hnext
  have hpieces := Outcome.mapM_eq_ok_iff.1 hgs
  have hgordered : ∀ g ∈ gs, g.Ordered := by
    intro g hg
    obtain ⟨p, hp, hput⟩ := Outcome.exists_left_of_mem hpieces hg
    refine State.of_unflatten (fun xs r hxs hr => State.Ordered.stack hr hxs) (fun F hF => ?_) hput
    refine hFordered F ?_
    rw [← flatten_pieces hcount]
    exact List.mem_flatten.2 ⟨p, hp, hF⟩
  have hunstack := unstack_place (State.unstack_stack hgordered hstack) ht
  refine ⟨_, hunstack, ?_, fun j x y hx hy => ?_⟩
  · rw [List.length_map, ← hpieces.length_eq, length_pieces, hlss.length_eq]
  · rw [List.getElem?_map] at hy
    obtain ⟨g, hg, rfl⟩ := Option.map_eq_some_iff.1 hy
    obtain ⟨l, hl, hflat⟩ := Outcome.exists_of_forall₂ hlss hx
    obtain ⟨p, hp, hput⟩ := Outcome.exists_of_forall₂ hpieces.flip hg
    have hstates := mapM_of_flatten (f := fun i l => (w.laneStep i l).outcome) hlane hcount hFs hl
      hp
    rw [instanceStep, hflat, Outcome.ok_bind, hstates, Outcome.ok_bind,
      hparts x (List.mem_of_getElem? hx), hput]
    rfl

/-- A run of a batch is a run of each of its instances. -/
theorem run_instances {w : Workflow} (hw : w.KeepsOrder) {steps : Nat} :
    ∀ {s t : State} {xs : List State}, s.Ordered → s.unstack = .ok xs →
      (w.run steps s).outcome = .ok t →
      ∃ ys, t.unstack = .ok ys ∧ ys.length = xs.length ∧
        ∀ (j : Nat) (x y : State), xs[j]? = some x → ys[j]? = some y →
          w.instanceRun j steps x = .ok y := by
  induction steps with
  | zero =>
    intro s t xs _ hxs ht
    obtain rfl := Except.ok.inj ht
    refine ⟨xs, hxs, rfl, fun j x y hx hy => ?_⟩
    rw [hx] at hy
    rw [instanceRun, Option.some.inj hy]
  | succ steps ih =>
    intro s t xs hs hxs ht
    rw [run, Traced.outcome_bind] at ht
    obtain ⟨u, hu, ht⟩ := Outcome.bind_eq_ok_iff.1 ht
    -- one step takes the instances to those of the next batch
    obtain ⟨zs, hzs, hlength, hstep⟩ := step_instances hw hs hxs hu
    obtain ⟨ys, hys, hlength', hrun⟩ := ih (hw.step hs hu) hzs ht
    refine ⟨ys, hys, hlength'.trans hlength, fun j x y hx hy => ?_⟩
    have hlt : j < zs.length := hlength ▸ (List.getElem?_eq_some_iff.1 hx).1
    have hz := List.getElem?_eq_getElem hlt
    rw [instanceRun, hstep j x _ hx hz, Outcome.ok_bind]
    exact hrun j _ y hz hy

end Workflow

end Lockstep
