import Lockstep.Proofs.Random.Key
import Lockstep.Proofs.Workflow.Loop
import Lockstep.Proofs.Workflow.Passage

/-!
# What a step may change

A step keeps the batch axes and the nodes of a state, and in every lane it writes what its passage
says and nothing else (`LaneFrame`, `step_frame`): the root's count of generations goes up by one,
the algorithm and the problem have what they gave back, every monitor has what it made of the calls
that it subscribes to, and all other nodes are as they were.
-/

namespace Lockstep

namespace State

theorem paths_of_mem_flatten {s : State} {ls : List State} (h : s.flatten = .ok ls) :
    ∀ l ∈ ls, l.paths = s.paths := by
  refine forall_of_flatten (P := fun l => l.paths = s.paths) ?_ rfl h
  intro x xs y hxs hx hy
  obtain ⟨j, hj⟩ := List.mem_iff_getElem?.1 hy
  rw [((getElem?_of_unstack hxs).1 hj).2, paths, nodes_part, Table.keys_mapValues]
  exact hx

theorem paths_of_unflatten {dims : List Nat} {lanes : List State} {r : State} {ps : List String}
    (hlanes : ∀ l ∈ lanes, l.paths = ps) (h : unflatten dims lanes = .ok r) : r.paths = ps := by
  refine of_unflatten (P := fun x => x.paths = ps) (fun xs x hxs hx => ?_) hlanes h
  obtain ⟨first, others, rfl, nodes, hnodes, moved, hmoved, rfl⟩ := stack_eq_ok hx
  exact (keys_of_stackNodes hnodes).trans (hxs first List.mem_cons_self)

theorem paths_of_update {s t : State} (hs : Table.Sorted s.nodes) {path : String} {l : LocalState}
    (h : s.update path l = .ok t) : Table.Sorted t.nodes ∧ t.paths = s.paths := by
  obtain ⟨hcontains, rfl⟩ := update_eq_ok_iff.1 h
  have hsorted := Table.Sorted.insert hs path l
  refine ⟨hsorted, Table.keys_eq_of_mem_iff hsorted hs fun key => ?_⟩
  refine Table.mem_keys_insert.trans ⟨?_, Or.inr⟩
  rintro (rfl | hkey)
  · exact Table.get?_isSome_iff.1 hcontains
  · exact hkey

end State

namespace Workflow

/-- Where a lane is placed has no part in its nodes. -/
theorem nodes_placed (w : Workflow) (l : State) : (w.placed l).nodes = l.nodes := by
  rw [placed]
  split
  · rw [State.placed]
    split <;> rfl
  · rfl

theorem paths_place {w : Workflow} {s t : State} (h : w.place s = .ok t) : t.paths = s.paths := by
  obtain ⟨placement, rfl⟩ := exists_of_place h
  rfl

theorem paths_of_laneStep {w : Workflow} {i : Nat} {s t : State} (hs : Table.Sorted s.nodes)
    (h : (w.laneStep i s).outcome = .ok t) : t.paths = s.paths := by
  refine (of_laneStep (Q := fun t => Table.Sorted t.nodes ∧ t.paths = s.paths) ?_ ⟨hs, rfl⟩ h).2
  rintro u v path l ⟨hu, hpaths⟩ hv
  obtain ⟨hsorted, heq⟩ := State.paths_of_update hu hv
  exact ⟨hsorted, heq.trans hpaths⟩

/-- A step keeps the nodes of a state. -/
theorem paths_of_step {w : Workflow} {s t : State} (hs : s.Ordered)
    (ht : (w.step s).outcome = .ok t) : t.paths = s.paths := by
  obtain ⟨ls, hls, Fs, hlength, hFs, next, hnext, ht⟩ := step_eq_ok ht
  rw [paths_place ht]
  refine State.paths_of_unflatten (fun F hF => ?_) hnext
  obtain ⟨i, l, hl, hstep⟩ := exists_lane_of_mem hlength hFs hF
  have hsorted := (State.ordered_iff.1 (lanes_of_flatten hs hls l hl).1).1
  rw [paths_of_laneStep hsorted hstep, State.paths_of_mem_flatten hls l hl]

/-! ## The frame of a lane -/

/-- What a step with a passage changes in a lane and what it keeps: `before` is the lane in the
batch at the start and `after` the one in the batch at the end. -/
structure LaneFrame (w : Workflow) (index : Nat) (lane : Lane) (p : Passage)
    (before after : State) : Prop where
  /-- every node but the root, the algorithm, the problem and the monitors is kept -/
  others : ∀ path, path ≠ "" → path ≠ "algorithm" → path ≠ "problem" → path ∉ w.monitorNames →
    Table.get? path after.nodes = Table.get? path before.nodes
  /-- in particular all nodes below these, as a path to them has a point -/
  below : ∀ path, '.' ∈ path.toList → Table.get? path after.nodes = Table.get? path before.nodes
  /-- the root keeps every attribute but the generation, which goes up by one -/
  root : ∃ root root' g, before.resolve "" = .ok root ∧ after.resolve "" = .ok root' ∧
    (∀ name ≠ generationAttribute, Table.get? name root' = Table.get? name root) ∧
    root.number generationAttribute = .ok g ∧
    root'.number generationAttribute = .ok (g.toUInt64 + 1).toFloat ∧
    ∀ n : UInt64, n.toNat < 2 ^ 53 → g = n.toFloat →
      root'.number generationAttribute = .ok (n + 1).toFloat ∧ (n + 1).toNat = n.toNat + 1
  /-- the algorithm has what tell made of what ask gave back -/
  algorithm : ∃ l, before.resolve "algorithm" = .ok l ∧
    w.algorithm.ask (stepContext w.algorithmNode lane index askStream) l =
      .ok (p.candidates, p.asked) ∧
    w.transformed p.candidates = .ok p.input ∧
    w.algorithm.tell (stepContext w.algorithmNode lane index tellStream) p.asked p.fitness =
      .ok p.told ∧
    after.resolve "algorithm" = .ok p.told
  /-- the problem has what evaluate gave back -/
  problem : ∃ l, before.resolve "problem" = .ok l ∧
    (w.problem.evaluate (stepContext w.problemNode lane index evaluateStream) l p.input).outcome =
      .ok (p.fitness, p.evaluated) ∧
    after.resolve "problem" = .ok p.evaluated
  /-- every monitor has what it made of the calls in stage order -/
  monitors : ∀ (j : Nat) (slot : MonitorSlot), w.monitors[j]? = some slot →
    ∃ l l', before.resolve slot.name = .ok l ∧
      p.calls.foldlM (w.watch index lane.generation j slot) l = .ok l' ∧
      after.resolve slot.name = .ok l'
  /-- a monitor without hooks in a step is left as it is -/
  idle : ∀ slot ∈ w.monitors, (∀ hook ≠ Hook.setup, slot.monitor.hooks.contains hook = false) →
    Table.get? slot.name after.nodes = Table.get? slot.name before.nodes

theorem toNat_add_one_of_lt {n : UInt64} (h : n.toNat < 2 ^ 53) : (n + 1).toNat = n.toNat + 1 := by
  rw [UInt64.toNat_add, UInt64.toNat_one]
  exact Nat.mod_eq_of_lt (by omega)

theorem laneFrame {w : Workflow} (hw : w.Planted) {index : Nat} {before after : State}
    (hmonitors : ∀ slot ∈ w.monitors, before.contains slot.name = true)
    (h : (w.laneStep index before).outcome = .ok after) :
    ∃ lane p, laneOf before = .ok lane ∧ p.Of w index lane after ∧
      w.LaneFrame index lane p before (w.placed after) := by
  obtain ⟨lane, hlane, p, hp⟩ := laneStep_eq_ok h
  obtain ⟨hstate, root₀, hroot₀, key, g, -, hg, hlaneEq⟩ := laneOf_eq_ok hlane
  have hcore := hp.core hw
  obtain ⟨a, ha, hask⟩ := hcore.ask
  obtain ⟨e, he, hevaluate⟩ := hcore.evaluate
  obtain ⟨root, hroot, hnodes⟩ := hcore.nodes
  rw [hstate] at ha he hroot hnodes
  rw [hroot₀] at hroot
  obtain rfl := Except.ok.inj hroot
  have hgeneration : lane.generation = g.toUInt64 := by rw [hlaneEq]
  have hget : ∀ path, Table.get? path (w.placed after).nodes = Table.get? path after.nodes :=
    fun path => by rw [nodes_placed]
  have hothers : ∀ path, path ≠ "" → path ≠ "algorithm" → path ≠ "problem" →
      path ∉ w.monitorNames →
      Table.get? path (w.placed after).nodes = Table.get? path before.nodes := by
    intro path hroot halgorithm hproblem hmonitor
    have hapart : w.ApartFromMonitors path := by
      intro slot hslot heq
      rw [hw.path_monitorNode hslot] at heq
      exact hmonitor (heq ▸ List.mem_map_of_mem hslot)
    rw [hget, hnodes path hapart, if_neg hroot, if_neg halgorithm, if_neg hproblem]
  have hmonitor : ∀ (j : Nat) (slot : MonitorSlot), w.monitors[j]? = some slot →
      ∃ l l', before.resolve slot.name = .ok l ∧
        p.calls.foldlM (w.watch index lane.generation j slot) l = .ok l' ∧
        (w.placed after).resolve slot.name = .ok l' := by
    intro j slot hslot
    obtain ⟨l, hl⟩ := Option.isSome_iff_exists.1 (hmonitors slot (List.mem_of_getElem? hslot))
    obtain ⟨l', hl', hget'⟩ := hp.watched hw hslot (hstate.symm ▸ hl)
    refine ⟨l, l', State.resolve_eq_ok_iff.2 hl, hl', State.resolve_eq_ok_iff.2 ?_⟩
    rw [hget, hget']
  refine ⟨lane, p, hlane, hp, hothers, ?below, ?root, ?algorithm, ?problem, hmonitor, ?idle⟩
  case below =>
    intro path hpoint
    -- no name has a point in it
    have hname : ∀ name, Path.isName name = true → path ≠ name := fun name hname he =>
      (Path.isName_iff.1 hname).2 (he ▸ hpoint)
    refine hothers path ?_ (hname _ (by decide)) (hname _ (by decide)) fun hmem => ?_
    · rintro rfl
      cases hpoint
    · obtain ⟨slot, hslot, he⟩ := List.mem_map.1 hmem
      exact hname slot.name (hw.isName_monitorName hslot) he.symm
  case root =>
    have hroot' : Table.get? "" (w.placed after).nodes =
        some (root₀.setNumber generationAttribute (g.toUInt64 + 1).toFloat) := by
      rw [hget, hnodes "" (hw.apartFromMonitors (Or.inl rfl)), if_pos rfl, hgeneration]
    refine ⟨root₀, _, g, hroot₀, State.resolve_eq_ok_iff.2 hroot', fun name hname => ?_, hg,
      LocalState.number_setNumber _ _ _, fun n hn hgn => ⟨?_, toNat_add_one_of_lt hn⟩⟩
    · exact Table.get?_insert_of_ne _ _ hname
    · rw [LocalState.number_setNumber, hgn, Binary64.toUInt64_toFloat hn]
  case algorithm =>
    refine ⟨a, ha, hask, hp.transform.2, hcore.tell, State.resolve_eq_ok_iff.2 ?_⟩
    have hapart := hw.path_algorithmNode ▸ hw.apartFromMonitors hw.isCorePath_algorithmNode
    rw [hget, hnodes _ hapart, if_neg (by decide), if_pos rfl]
  case problem =>
    refine ⟨e, he, hevaluate, State.resolve_eq_ok_iff.2 ?_⟩
    have hapart := hw.path_problemNode ▸ hw.apartFromMonitors hw.isCorePath_problemNode
    rw [hget, hnodes _ hapart, if_neg (by decide), if_neg (by decide), if_pos rfl]
  case idle =>
    intro slot hslot hidle
    obtain ⟨j, hj⟩ := List.mem_iff_getElem?.1 hslot
    obtain ⟨l, l', hl, hl', hafter⟩ := hmonitor j slot hj
    rw [foldlM_watch_of_idle hidle] at hl'
    obtain rfl := Except.ok.inj hl'
    rw [State.resolve_eq_ok_iff.1 hl, State.resolve_eq_ok_iff.1 hafter]

/-! ## The frame of a step -/

/-- A workflow that is ready for a state finds all nodes of its tree there. -/
theorem ready_of_ensureReady {w : Workflow} {s : State} (h : w.ensureReady s = .ok ()) :
    w.ready = true ∧ ∀ n ∈ w.tree, s.contains n.context.path = true := by
  rw [ensureReady] at h
  split at h
  · cases h
  · next hready =>
    split at h
    · cases h
    · next hnone =>
      refine ⟨by simpa using hready, fun n hn => ?_⟩
      simpa using List.find?_eq_none.1 hnone n hn

theorem ready_of_step {w : Workflow} {s t : State} (h : (w.step s).outcome = .ok t) :
    w.ready = true ∧ ∀ n ∈ w.tree, s.contains n.context.path = true := by
  rw [step, outcome_stepBy] at h
  obtain ⟨⟨⟩, hready, -⟩ := Outcome.bind_eq_ok_iff.1 h
  exact ready_of_ensureReady hready

/-- A step changes only what it may change. The batch axes and the nodes stay, and in every lane the
root, the algorithm, the problem and the monitors change as the passage of the lane says, and
nothing else does. -/
theorem step_frame {w : Workflow} (hw : w.Assembled) (hkeeps : w.KeepsOrder) {s t : State}
    (hs : s.Ordered) (ht : (w.step s).outcome = .ok t) :
    t.batchDims = s.batchDims ∧ t.paths = s.paths ∧
      ∃ ls ts, s.flatten = .ok ls ∧ t.flatten = .ok ts ∧ ls.length = ts.length ∧
        ∀ (i : Nat) (l r : State), ls[i]? = some l → ts[i]? = some r →
          ∃ lane p F, laneOf l = .ok lane ∧ p.Of w i lane F ∧
            w.LaneFrame i lane p l r := by
  obtain ⟨ls, hls, -⟩ := step_eq_ok ht
  obtain ⟨hdims, -, ts, hts, hlength, heffect⟩ := step_lanes hkeeps hs hls ht
  refine ⟨hdims, paths_of_step hs ht, ls, ts, hls, hts, hlength, fun i l r hl hr => ?_⟩
  obtain ⟨F, hF, hplaced⟩ := Outcome.bind_eq_ok_iff.1 (heffect i l r hl hr)
  have hmem := List.mem_of_getElem? hl
  have hmonitors : ∀ slot ∈ w.monitors, l.contains slot.name = true := by
    intro slot hslot
    obtain ⟨n, hn, hpath⟩ := hw.planted.exists_monitorNode hslot
    have hcontains := (ready_of_step ht).2 n hn
    rw [hpath, State.contains, Table.contains, Table.get?_isSome_iff] at hcontains
    rw [State.contains, Table.contains, Table.get?_isSome_iff]
    rw [← State.paths, State.paths_of_mem_flatten hls l hmem]
    exact hcontains
  obtain ⟨lane, p, hlane, hp, hframe⟩ := laneFrame hw.planted hmonitors hF
  exact ⟨lane, p, F, hlane, hp, Except.ok.inj hplaced ▸ hframe⟩

theorem assembled_echoWorkflow : TuningProblem.echoWorkflow.Assembled := by
  have hbuild := Outcome.eq_ok_get (o := TuningProblem.echoBuild) (by decide +kernel)
  obtain ⟨⟨v, s⟩, hinit⟩ := Outcome.exists_eq_ok
    (o := (TuningProblem.echoBuild.toOption.get (by decide +kernel)).init.outcome)
    (by decide +kernel)
  obtain rfl := init_eq_ready hinit
  exact ⟨_, _, _, _, _, _, .init (.build hbuild) hinit⟩

/-- Two lanes of the echo: what asks, evaluates and looks on is written, the rates stay. -/
theorem step_frame_echoPair :
    ∃ t ls ts, (TuningProblem.echoWorkflow.step echoPair).outcome = .ok t ∧ t.batchDims = [2] ∧
      t.paths = ["", "algorithm", "echo", "problem"] ∧ echoPair.flatten = .ok ls ∧
      t.flatten = .ok ts ∧ ls.length = ts.length ∧
      ∀ (i : Nat) (l r : State), ls[i]? = some l → ts[i]? = some r →
        ∃ lane p, TuningProblem.echoWorkflow.LaneFrame i lane p l r := by
  obtain ⟨t, ht⟩ := Outcome.exists_eq_ok
    (o := (TuningProblem.echoWorkflow.step echoPair).outcome) (by decide +kernel)
  obtain ⟨hdims, hpaths, ls, ts, hls, hts, hlength, hlanes⟩ :=
    step_frame assembled_echoWorkflow TuningProblem.keepsOrder_echoWorkflow ordered_echoPair ht
  have hrank : echoPair.batchDims = [2] := by decide +kernel
  have hechoPaths : echoPair.paths = ["", "algorithm", "echo", "problem"] := by decide +kernel
  refine ⟨t, ls, ts, ht, hdims.trans hrank, hpaths.trans hechoPaths, hls, hts, hlength,
    fun i l r hl hr => ?_⟩
  obtain ⟨lane, p, -, -, -, hframe⟩ := hlanes i l r hl hr
  exact ⟨lane, p, hframe⟩

end Workflow

end Lockstep
