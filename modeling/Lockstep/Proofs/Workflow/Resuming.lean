import Lockstep.Proofs.State.LaneOrder
import Lockstep.Proofs.Workflow.Devices
import Lockstep.Proofs.Workflow.FirstState
import Lockstep.Proofs.Workflow.Round

/-!
# Runs that are stopped and resumed

A loop whose predicate always holds does what the same count of steps does (`run_eq_runWhile`),
although it takes another way: after every step it takes the lanes of the old and of the new batch,
chooses the new ones, puts them together and places the batch again. That gives the batch that the
step gave (`select_step`), because the lanes of a placed batch are put together to the placed
batch (`unflatten_place`).
-/

namespace Lockstep

namespace Workflow

/-! ## Placing again -/

theorem place_place {w : Workflow} {s t : State} (h : w.place s = .ok t) : w.place t = .ok t := by
  rw [place] at h ⊢
  cases hspec : w.placement with
  | none => rfl
  | some spec =>
    rw [hspec] at h
    have h : s.shard spec = .ok t := h
    show t.shard spec = .ok t
    rcases State.shard_eq_ok_iff.1 h with ⟨-, rfl⟩ | ⟨hmany, -, placement, -, rfl⟩
    · exact h
    · exact (State.shard_of_placement hmany s placement).trans h

/-- Lanes that are placed are put together to the placed batch. -/
theorem unflatten_place {w : Workflow} {dims : List Nat} {lanes : List State} {next t : State}
    (hlanes : ∀ l ∈ lanes, l.Ordered) (hnext : State.unflatten dims lanes = .ok next)
    (ht : w.place next = .ok t) : State.unflatten dims (lanes.map w.placed) = .ok t := by
  rw [place] at ht
  unfold placed
  cases hspec : w.placement with
  | none =>
    rw [hspec] at ht
    obtain rfl := Except.ok.inj ht
    simp only [List.map_id']
    exact hnext
  | some spec =>
    rw [hspec] at ht
    rw [State.eq_placed_of_shard ht]
    exact State.unflatten_placed hlanes (State.numbers_of_shard ht) hnext

/-! ## One round -/

/-- Choosing the new state of every lane after a step, and placing the batch again, gives what the
step gave. -/
theorem select_step {w : Workflow} (hw : w.KeepsOrder) {s t : State} (hs : s.Ordered)
    {ls : List State} (hls : s.flatten = .ok ls) (ht : (w.step s).outcome = .ok t) :
    State.select (List.replicate ls.length true) t s = .ok t ∧ w.place t = .ok t := by
  obtain ⟨ls', hls', Fs, hlength, hFs, next, hnext, hplace⟩ := step_eq_ok ht
  obtain rfl := Except.ok.inj (hls.symm.trans hls')
  have hlanes : ∀ F ∈ Fs, F.Ordered ∧ F.batchDims = [] := by
    intro F hF
    obtain ⟨i, l, hl, hstep⟩ := exists_lane_of_mem hlength hFs hF
    obtain ⟨hordered, hdims⟩ := lanes_of_flatten hs hls l hl
    exact ⟨hw.laneStep hordered hstep, (batchDims_of_laneStep hstep).trans hdims⟩
  obtain ⟨hts, hdims, -⟩ := flatten_place_unflatten hlanes hnext hplace
  refine ⟨?_, place_place hplace⟩
  -- the mask is full, so every lane is the one of the new batch
  have hlength' : (Fs.map w.placed).length = ls.length := by rw [List.length_map, hlength]
  rw [select_eq hls hts hdims List.length_replicate.symm
    (hlength'.trans List.length_replicate.symm), Mask.choose_replicate_true hlength',
    unflatten_place (fun F hF => (hlanes F hF).1) hnext hplace]

/-- The predicate that holds of every state. -/
def always (_ : State) : Outcome Bool := .ok true

theorem mapM_always : ∀ ls : List State, ls.mapM always = .ok (List.replicate ls.length true)
  | [] => rfl
  | l :: ls => by
    rw [List.mapM_cons, mapM_always ls]
    rfl

/-- A round of a batched loop whose predicate always holds is a step. -/
theorem runBatched_always_succ {w : Workflow} (hw : w.KeepsOrder) {s : State} (hs : s.Ordered)
    (hne : ∀ d ∈ s.batchDims, d ≠ 0) {steps : Nat} {r : State} :
    (w.runBatched always (steps + 1) s).outcome = .ok r ↔
      ∃ t, (w.step s).outcome = .ok t ∧ (w.runBatched always steps t).outcome = .ok r := by
  simp only [runBatched, Traced.outcome_bind, Traced.outcome_liftM, Outcome.bind_eq_ok_iff,
    mapM_always]
  -- there is a lane, and on it the predicate holds
  have hany : ∀ {ls : List State}, s.flatten = .ok ls →
      (List.replicate ls.length true).any id = true := by
    intro ls hls
    have hpos : 0 < ls.length := by
      rw [State.length_of_flatten rfl hls]
      exact volume_pos hne
    rw [List.any_replicate, if_neg (Nat.ne_of_gt hpos)]
    rfl
  constructor
  · rintro ⟨ls, hls, mask, hmask, h⟩
    obtain rfl := Except.ok.inj hmask
    rw [if_pos (hany hls)] at h
    simp only [Traced.outcome_bind, Traced.outcome_liftM, Outcome.bind_eq_ok_iff] at h
    obtain ⟨t, ht, next, hnext, u, hu, h⟩ := h
    obtain ⟨hselect, hplace⟩ := select_step hw hs hls ht
    obtain rfl := Except.ok.inj (hnext.symm.trans hselect)
    obtain rfl := Except.ok.inj (hu.symm.trans hplace)
    exact ⟨u, ht, h⟩
  · rintro ⟨t, ht, h⟩
    obtain ⟨ls, hls, -⟩ := step_eq_ok ht
    obtain ⟨hselect, hplace⟩ := select_step hw hs hls ht
    refine ⟨ls, hls, _, rfl, ?_⟩
    rw [if_pos (hany hls)]
    simp only [Traced.outcome_bind, Traced.outcome_liftM, Outcome.bind_eq_ok_iff]
    exact ⟨t, ht, t, hselect, t, hplace, h⟩

/-! ## Both kinds of runs -/

theorem run_eq_runBatched {w : Workflow} (hw : w.KeepsOrder) {steps : Nat} {r : State} :
    ∀ {s : State}, s.Ordered → (∀ d ∈ s.batchDims, d ≠ 0) →
      ((w.run steps s).outcome = .ok r ↔ (w.runBatched always steps s).outcome = .ok r) := by
  induction steps with
  | zero => exact fun _ _ => Iff.rfl
  | succ steps ih =>
    intro s hs hne
    rw [runBatched_always_succ hw hs hne, run, Traced.outcome_bind, Outcome.bind_eq_ok_iff]
    refine exists_congr fun t => and_congr_right fun ht => ?_
    obtain ⟨ls, hls, -⟩ := step_eq_ok ht
    obtain ⟨hdims, hordered, -⟩ := step_lanes hw hs hls ht
    exact ih hordered (hdims ▸ hne)

theorem run_eq_runUnbatched (w : Workflow) {steps : Nat} :
    ∀ s : State, w.runUnbatched always steps s = w.run steps s := by
  induction steps with
  | zero => exact fun _ => rfl
  | succ steps ih =>
    intro s
    show (w.step s >>= fun t => w.runUnbatched always steps t) = w.step s >>= fun t => w.run steps t
    simp only [ih]

/-- Steps after steps. -/
theorem run_add (w : Workflow) {more : Nat} :
    ∀ (steps : Nat) (s : State), w.run (steps + more) s = w.run steps s >>= w.run more
  | 0, s => by
    rw [Nat.zero_add]
    exact (pure_bind s _).symm
  | steps + 1, s => by
    rw [Nat.succ_add, run, run, bind_assoc]
    refine Traced.bind_congr_of_outcome fun t _ => run_add w steps t

/-- A batched loop that is stopped and resumed. -/
theorem runBatched_add (w : Workflow) (pred : State → Outcome Bool) {more : Nat} :
    ∀ (steps : Nat) (s : State),
      w.runBatched pred (steps + more) s = w.runBatched pred steps s >>= w.runBatched pred more
  | 0, s => by
    rw [Nat.zero_add]
    exact (pure_bind s _).symm
  | steps + 1, s => by
    rw [Nat.succ_add, runBatched, runBatched, bind_assoc]
    refine Traced.bind_congr_of_outcome fun ls hls => ?_
    rw [bind_assoc]
    refine Traced.bind_congr_of_outcome fun mask hmask => ?_
    by_cases hany : mask.any id = true
    · simp only [if_pos hany, bind_assoc]
      refine Traced.bind_congr_of_outcome fun t _ => Traced.bind_congr_of_outcome fun next _ =>
        Traced.bind_congr_of_outcome fun u _ => runBatched_add w pred steps u
    · -- the loop had ended, and it ends at once when it is resumed
      simp only [if_neg hany, pure_bind]
      cases more with
      | zero => rfl
      | succ more =>
        rw [Traced.outcome_liftM] at hls hmask
        rw [runBatched, hls, Traced.ok_bind, hmask, Traced.ok_bind, if_neg hany]

/-- What a batched loop ends with was placed, when what it began with was. -/
theorem place_of_runBatched {w : Workflow} {pred : State → Outcome Bool} {steps : Nat} :
    ∀ {s t : State}, w.place s = .ok s → (w.runBatched pred steps s).outcome = .ok t →
      w.place t = .ok t := by
  induction steps with
  | zero =>
    intro s t hs h
    obtain rfl := Except.ok.inj h
    exact hs
  | succ steps ih =>
    intro s t hs h
    simp only [runBatched, Traced.outcome_bind, Traced.outcome_liftM, Outcome.bind_eq_ok_iff] at h
    obtain ⟨ls, -, mask, -, h⟩ := h
    split at h
    · simp only [Traced.outcome_bind, Traced.outcome_liftM, Outcome.bind_eq_ok_iff] at h
      obtain ⟨advanced, -, next, -, u, hu, h⟩ := h
      exact ih (place_place hu) h
    · obtain rfl := Except.ok.inj h
      exact hs

theorem batchDims_of_run {w : Workflow} (hw : w.KeepsOrder) {steps : Nat} :
    ∀ {s t : State}, s.Ordered → (w.run steps s).outcome = .ok t → t.batchDims = s.batchDims := by
  induction steps with
  | zero =>
    intro s t _ h
    rw [Except.ok.inj h]
  | succ steps ih =>
    intro s t hs h
    rw [run, Traced.outcome_bind] at h
    obtain ⟨u, hu, h⟩ := Outcome.bind_eq_ok_iff.1 h
    obtain ⟨ls, hls, -⟩ := step_eq_ok hu
    obtain ⟨hdims, hordered, -⟩ := step_lanes hw hs hls hu
    exact (ih hordered h).trans hdims

/-- A loop over a placed batch needs no placing at its start. -/
theorem runWhile_of_place {w : Workflow} {pred : State → Outcome Bool} {steps : Nat} {s : State}
    (hs : w.place s = .ok s) : w.runWhile pred steps s =
      if s.isBatched then w.runBatched pred steps s else w.runUnbatched pred steps s := by
  rw [runWhile, hs, Traced.ok_bind]

/-- **Runs can be stopped and resumed.** From a placed state that is not batched, or has no empty
batch axis, a loop whose predicate always holds ends with the state that the same count of steps
ends with. Both can be stopped after any count of steps and resumed. -/
theorem run_eq_runWhile (w : Workflow) (hw : w.KeepsOrder) (s : State)
    (hs : s.Ordered) (hne : ∀ d ∈ s.batchDims, d ≠ 0)
    (hplaced : w.place s = .ok s) :
    (∀ (steps : Nat) (r : State), (w.run steps s).outcome = .ok r ↔
      (w.runWhile always steps s).outcome = .ok r) ∧
    ∀ steps more : Nat, w.run (steps + more) s = w.run steps s >>= w.run more ∧
      w.runWhile always (steps + more) s =
        w.runWhile always steps s >>= w.runWhile always more := by
  have hboth : ∀ (steps : Nat) (r : State), (w.run steps s).outcome = .ok r ↔
      (w.runWhile always steps s).outcome = .ok r := by
    intro steps r
    rw [runWhile_of_place hplaced]
    split
    · exact run_eq_runBatched hw hs hne
    · rw [run_eq_runUnbatched]
  refine ⟨hboth, fun steps more => ⟨run_add w steps s, ?_⟩⟩
  have hdims : ∀ {t : State}, (w.runWhile always steps s).outcome = .ok t →
      t.batchDims = s.batchDims := fun ht => batchDims_of_run hw hs ((hboth steps _).2 ht)
  by_cases hbatched : s.isBatched = true
  · -- the state in between is placed, so that the second loop does not change it at its start
    have hrest : w.runWhile always steps s >>= w.runWhile always more =
        w.runWhile always steps s >>= w.runBatched always more := by
      refine Traced.bind_congr_of_outcome fun t ht => ?_
      have htplaced : w.place t = .ok t := by
        rw [runWhile_of_place hplaced, if_pos hbatched] at ht
        exact place_of_runBatched hplaced ht
      rw [runWhile_of_place htplaced, State.isBatched, hdims ht, ← State.isBatched, if_pos hbatched]
    rw [hrest, runWhile_of_place hplaced, runWhile_of_place hplaced, if_pos hbatched,
      if_pos hbatched, runBatched_add]
  · have hrest : w.runWhile always steps s >>= w.runWhile always more =
        w.runWhile always steps s >>= w.run more := by
      refine Traced.bind_congr_of_outcome fun t ht => ?_
      rw [runWhile, State.isBatched, hdims ht, ← State.isBatched, if_neg hbatched,
        run_eq_runUnbatched]
    rw [hrest, runWhile, runWhile, if_neg hbatched, if_neg hbatched, run_eq_runUnbatched,
      run_eq_runUnbatched, run_add]

/-! ## A population on two devices, resumed -/

/-- Two copies of the first state, placed on the devices. -/
def pairPlaced : State := (pairOnDevices.place pairState).toOption.get (by decide +kernel)

theorem assembly_pairOnDevices :
    Assembly pairAlgorithm pairProblem [(some "echo", echoMonitor)] none
      { devices := some (.gpus 2) } (some (.gpus 2)) pairOnDevices :=
  assembly_pair { devices := some (.gpus 2) } (by decide +kernel) (by decide +kernel)

theorem keepsOrder_pairAlgorithm : pairAlgorithm.KeepsOrder := by
  refine ⟨Component.startsOrdered_of_leaf rfl fun h => ?_, fun hl h => ?_, fun hl h => ?_⟩
  · obtain rfl := Except.ok.inj h
    exact ⟨List.pairwise_singleton _ _, trivial, trivial⟩
  · obtain ⟨-, rfl⟩ := Prod.mk.inj (Except.ok.inj h)
    exact hl
  · obtain rfl := Except.ok.inj h
    exact State.LocalOrdered.insert hl _ trivial

theorem keepsOrder_pairProblem : pairProblem.KeepsOrder := by
  refine ⟨Component.startsOrdered_of_leaf rfl fun h => ?_, fun hl h => ?_⟩
  · obtain rfl := Except.ok.inj h
    exact ⟨List.Pairwise.nil, trivial⟩
  · obtain ⟨-, rfl⟩ := Prod.mk.inj (Except.ok.inj h)
    exact hl

theorem keepsOrder_echoMonitor : echoMonitor.KeepsOrder := by
  refine ⟨Component.startsOrdered_of_leaf rfl fun h => ?_, ?_⟩
  · obtain rfl := Except.ok.inj h
    exact ⟨List.pairwise_singleton _ _, trivial, trivial⟩
  · intro ctx l call l' _ _ h
    cases call with
    | preTell fitness =>
      obtain rfl := Option.some.inj (Except.ok.inj h)
      exact ⟨List.pairwise_singleton _ _, trivial, trivial⟩
    | _ => cases h

/-- The components keep order, so the workflow does, and the placed state is ordered. -/
theorem keepsOrder_pairOnDevices : pairOnDevices.KeepsOrder ∧ pairPlaced.Ordered := by
  have hmonitors : ∀ m ∈ [(some "echo", echoMonitor)], m.2.KeepsOrder :=
    List.forall_mem_singleton.2 keepsOrder_echoMonitor
  refine ⟨assembly_pairOnDevices.keepsOrder keepsOrder_pairAlgorithm keepsOrder_pairProblem
    hmonitors, ?_⟩
  -- the state in front of the placing is a stack of two first states
  have hplain : Assembly pairAlgorithm pairProblem [(some "echo", echoMonitor)] none {} none
      pairWorkflow := assembly_pair {} (by decide +kernel) (by decide +kernel)
  have hpair := Outcome.eq_ok_get (o := do
    let first ← pairWorkflow.init.outcome
    State.stack [first.2, first.2]) (by decide +kernel)
  obtain ⟨⟨v, first⟩, hfirst, hstack⟩ := Outcome.bind_eq_ok_iff.1 hpair
  obtain ⟨hordered, -⟩ :=
    hplain.ordered_of_init keepsOrder_pairAlgorithm keepsOrder_pairProblem hmonitors hfirst
  exact ordered_of_place (State.Ordered.stack hstack (by simpa using hordered))
    (Outcome.eq_ok_get (o := pairOnDevices.place pairState) _)

/-- Two steps of a placed batch, and the loop that was stopped in between. -/
theorem run_eq_runWhile_pairPlaced :
    ∃ s r, (pairOnDevices.run 2 pairPlaced).outcome = .ok r ∧ r.placement ≠ [] ∧
      (pairOnDevices.runWhile always 1 pairPlaced).outcome = .ok s ∧
      (pairOnDevices.runWhile always 1 s).outcome = .ok r := by
  obtain ⟨hkeeps, hordered⟩ := keepsOrder_pairOnDevices
  have hrank : pairPlaced.batchDims = [2] := by decide +kernel
  have hplaced : pairOnDevices.place pairPlaced = .ok pairPlaced :=
    place_place (Outcome.eq_ok_get (o := pairOnDevices.place pairState) _)
  obtain ⟨hboth, hadd⟩ := run_eq_runWhile pairOnDevices hkeeps pairPlaced hordered
    (by rw [hrank]; decide) hplaced
  have hrun := Outcome.eq_ok_get (o := (pairOnDevices.run 2 pairPlaced).outcome) (by decide +kernel)
  have hloop := (hboth 2 _).1 hrun
  rw [(hadd 1 1).2, Traced.outcome_bind] at hloop
  obtain ⟨s, hs, hr⟩ := Outcome.bind_eq_ok_iff.1 hloop
  exact ⟨s, _, hrun, by decide +kernel, hs, hr⟩

end Workflow

end Lockstep
