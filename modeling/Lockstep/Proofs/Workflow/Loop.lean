import Lockstep.Proofs.State.Placements
import Lockstep.Proofs.Tuning.Instances
import Lockstep.Proofs.Workflow.Alike

/-!
# A batched loop, lane by lane

A step of a batch does to each lane what `Workflow.laneEffect` does to it alone (`step_lanes`), and
a loop over a batch steps each lane as long as its own predicate holds (`runWhile_lanes`). The batch
is placed before the first round, so that its lanes are placed as each of them would be on its own.
In every round a lane on which the predicate does not hold is taken out of the batch and put back,
which changes nothing of it.

When no component looks at placements (`Workflow.IgnoresPlacement`), a lane goes through a step in
the same way wherever its leaves are placed (`IgnoresPlacement.laneStep`).
-/

namespace Lockstep

namespace Workflow

/-! ## Components that do not look at placements -/

open State (SameLeaves)
open LocalState (SameValues)
open Outcome (Matches)

/-- No component looks at placements: given the same values it succeeds in the same cases, with the
same values. -/
structure IgnoresPlacement (w : Workflow) : Prop where
  ask : ∀ {ctx l l'}, SameValues l l' → Matches (fun r r' => r'.1 = r.1 ∧ SameValues r.2 r'.2)
    (w.algorithm.ask ctx l) (w.algorithm.ask ctx l')
  tell : ∀ {ctx l l' fitness}, SameValues l l' →
    Matches SameValues (w.algorithm.tell ctx l fitness) (w.algorithm.tell ctx l' fitness)
  evaluate : ∀ {ctx l l' candidates}, SameValues l l' →
    Matches (fun r r' => r'.1 = r.1 ∧ SameValues r.2 r'.2)
      (w.problem.evaluate ctx l candidates).outcome (w.problem.evaluate ctx l' candidates).outcome
  observe : ∀ {slot node s s' generation lane l l' call}, slot ∈ w.monitors → SameLeaves s s' →
    SameValues l l' → Matches (Option.Rel SameValues)
      (slot.monitor.observe ⟨node, s, generation, lane⟩ l call).outcome
      (slot.monitor.observe ⟨node, s', generation, lane⟩ l' call).outcome

namespace IgnoresPlacement

variable {w : Workflow}

theorem alike (h : w.IgnoresPlacement) : w.Alike SameLeaves SameValues where
  resolve path hs := hs.resolve path
  update path hs hl := hs.update hl path
  tensor name hl := hl.tensor name
  setTensor name t hl := hl.setTensor name t
  ask := h.ask
  tell := h.tell
  evaluate := h.evaluate
  observe := h.observe

/-- Lanes with the same leaves go through a step alike. -/
theorem laneStep (h : w.IgnoresPlacement) {i : Nat} {s s' : State} (hs : SameLeaves s s') :
    Matches SameLeaves (w.laneStep i s).outcome (w.laneStep i s').outcome := h.alike.laneStep hs

end IgnoresPlacement

/-! ## The lanes of a loop -/

/-- What a step of a batch does to the lane with an index. -/
def laneEffect (w : Workflow) (index : Nat) (l : State) : Outcome State := do
  return w.placed (← (w.laneStep index l).outcome)

/-- Steps of the lane with an index, on its own, as long as the predicate holds. -/
def laneRounds (w : Workflow) (pred : State → Outcome Bool) (index : Nat) :
    (steps : Nat) → State → Outcome State
  | 0, l => .ok l
  | steps + 1, l => do
    if ← pred l then laneRounds w pred index steps (← w.laneEffect index l) else return l

/-- The loop of the lane with an index, on its own. The lanes of a batch are placed first. -/
def laneWhile (w : Workflow) (pred : State → Outcome Bool) (batched : Bool) (index steps : Nat)
    (l : State) : Outcome State :=
  laneRounds w pred index steps (if batched then w.placed l else l)

/-- The loop of the lane with an index where placements play no part. -/
def laneLoop (w : Workflow) (pred : State → Outcome Bool) (index : Nat) :
    (steps : Nat) → State → Outcome State
  | 0, l => .ok l
  | steps + 1, l => do
    if ← pred l then laneLoop w pred index steps (← (w.laneStep index l).outcome) else return l

/-! ## Lanes that are placed -/

theorem sameLeaves_placed (w : Workflow) (l : State) : (w.placed l).SameLeaves l := by
  rw [placed]
  split
  · rw [State.placed]
    split
    · exact .refl l
    · exact State.sameLeaves_of_placement l _
  · exact .refl l

/-- Placing a state changes none of its leaves. -/
theorem sameLeaves_of_place {w : Workflow} {s t : State} (h : w.place s = .ok t) :
    t.SameLeaves s := by
  rw [eq_placed_of_place h]
  exact sameLeaves_placed w s

/-- What is placed stays as it is when it is placed again. -/
theorem placed_placed (w : Workflow) (l : State) : w.placed (w.placed l) = w.placed l := by
  unfold placed
  split
  · exact State.placed_placed _ l
  · rfl

/-- The lanes of a placed batch are placed. -/
theorem flatten_place {w : Workflow} {s t : State} {ls : List State} (h : s.flatten = .ok ls)
    (ht : w.place s = .ok t) : t.flatten = .ok (ls.map w.placed) := by
  rw [place] at ht
  unfold placed
  cases hspec : w.placement with
  | none =>
    rw [hspec] at ht
    obtain rfl := Except.ok.inj ht
    simp only [List.map_id']
    exact h
  | some spec =>
    rw [hspec] at ht
    rw [State.eq_placed_of_shard ht]
    exact State.flatten_placed (State.numbers_of_shard ht) h

theorem batchDims_place {w : Workflow} {s t : State} (ht : w.place s = .ok t) :
    t.batchDims = s.batchDims := by
  obtain ⟨placement, rfl⟩ := exists_of_place ht
  rfl

/-- Lanes that are put together and placed. -/
theorem flatten_place_unflatten {w : Workflow} {dims : List Nat} {lanes : List State}
    {next t : State} (hlanes : ∀ l ∈ lanes, l.Ordered ∧ l.batchDims = [])
    (hnext : State.unflatten dims lanes = .ok next) (ht : w.place next = .ok t) :
    t.flatten = .ok (lanes.map w.placed) ∧ t.batchDims = dims ∧ t.Ordered := by
  have hdims := State.batchDims_of_unflatten (fun l hl => (hlanes l hl).2) hnext
  have hordered := State.of_unflatten (fun xs r hxs hr => State.Ordered.stack hr hxs)
    (fun l hl => (hlanes l hl).1) hnext
  exact ⟨flatten_place (State.flatten_unflatten hlanes hnext) ht, (batchDims_place ht).trans hdims,
    ordered_of_place hordered ht⟩

/-! ## One step -/

/-- What a step needs of the lanes of a state, and gives of those of the next one. -/
theorem lanes_of_flatten {s : State} {ls : List State} (hs : s.Ordered) (h : s.flatten = .ok ls) :
    ∀ l ∈ ls, l.Ordered ∧ l.batchDims = [] := fun l hl =>
  ⟨State.forall_of_flatten (fun h hs hx => State.Ordered.unstack hs h hx) hs h l hl,
    State.batchDims_of_flatten rfl h l hl⟩

/-- A step of a batch is a step of each of its lanes. -/
theorem step_lanes {w : Workflow} (hw : w.KeepsOrder) {s t : State} (hs : s.Ordered)
    {ls : List State} (hls : s.flatten = .ok ls) (ht : (w.step s).outcome = .ok t) :
    t.batchDims = s.batchDims ∧ t.Ordered ∧ ∃ ts, t.flatten = .ok ts ∧ ls.length = ts.length ∧
      ∀ (i : Nat) (l r : State), ls[i]? = some l → ts[i]? = some r → w.laneEffect i l = .ok r := by
  obtain ⟨ls', hls', Fs, hlength, hFs, next, hnext, ht⟩ := step_eq_ok ht
  rw [hls] at hls'
  obtain rfl := Except.ok.inj hls'
  have hlanes : ∀ F ∈ Fs, F.Ordered ∧ F.batchDims = [] := by
    intro F hF
    obtain ⟨i, l, hl, hstep⟩ := exists_lane_of_mem hlength hFs hF
    obtain ⟨hordered, hdims⟩ := lanes_of_flatten hs hls l hl
    exact ⟨hw.laneStep hordered hstep, (batchDims_of_laneStep hstep).trans hdims⟩
  obtain ⟨hts, hdims, hordered⟩ := flatten_place_unflatten hlanes hnext ht
  refine ⟨hdims, hordered, _, hts, by rw [hlength, List.length_map], fun i l r hl hr => ?_⟩
  rw [List.getElem?_map] at hr
  obtain ⟨F, hF, rfl⟩ := Option.map_eq_some_iff.1 hr
  rw [laneEffect, hFs i l F hl hF]
  rfl

/-- What a step gives is placed. -/
theorem placed_of_laneEffect {w : Workflow} {index : Nat} {l r : State}
    (h : w.laneEffect index l = .ok r) : w.placed r = r := by
  obtain ⟨F, -, hr⟩ := Outcome.bind_eq_ok_iff.1 h
  obtain rfl := Except.ok.inj hr
  exact placed_placed w F

/-! ## One round of a loop -/

/-- When lanes of two states can be merged, and to what. -/
theorem select_eq_ok {mask : List Bool} {s t r : State} {ls ts : List State}
    (hls : s.flatten = .ok ls) (hts : t.flatten = .ok ts) (h : State.select mask t s = .ok r) :
    ts.length = mask.length ∧ ls.length = mask.length ∧
      State.unflatten t.batchDims (Mask.choose mask ts ls) = .ok r := by
  rw [State.select] at h
  split at h
  · cases h
  · rw [hts, hls, Outcome.ok_bind, Outcome.ok_bind] at h
    obtain ⟨chosen, hchosen, h⟩ := Outcome.bind_eq_ok_iff.1 h
    rw [selectLanes] at hchosen
    split at hchosen
    · next hlength =>
      simp only [Bool.and_eq_true, decide_eq_true_eq] at hlength
      obtain rfl := Except.ok.inj hchosen
      exact ⟨hlength.1, hlength.2, h⟩
    · cases hchosen

variable {pred : State → Outcome Bool}

theorem laneRounds_of_false {w : Workflow} {index steps : Nat} {l : State}
    (h : pred l = .ok false) : w.laneRounds pred index steps l = .ok l := by
  cases steps with
  | zero => rfl
  | succ steps => rw [laneRounds, h, Outcome.ok_bind, if_neg Bool.false_ne_true]; rfl

/-- A lane that goes on takes its step and then the rounds that are left. -/
theorem laneRounds_of_true {w : Workflow} {index steps : Nat} {l r : State}
    (h : pred l = .ok true) (hr : w.laneEffect index l = .ok r) :
    w.laneRounds pred index (steps + 1) l = w.laneRounds pred index steps r := by
  rw [laneRounds, h, Outcome.ok_bind, if_pos rfl, hr, Outcome.ok_bind]

/-- A round in which the predicate holds on some lane steps the lanes on which it holds, and leaves
the others as they are. -/
theorem runBatched_succ_eq_ok {w : Workflow} (hw : w.KeepsOrder) {steps : Nat} {s t : State}
    (hs : s.Ordered) {ls : List State} (hls : s.flatten = .ok ls)
    (hplaced : ∀ l ∈ ls, w.placed l = l)
    (h : (w.runBatched pred (steps + 1) s).outcome = .ok t) :
    ∃ mask, ls.mapM pred = .ok mask ∧ ((mask.any id = false ∧ t = s) ∨
      ∃ u us, (w.runBatched pred steps u).outcome = .ok t ∧ u.Ordered ∧ u.flatten = .ok us ∧
        us.length = ls.length ∧ (∀ l ∈ us, w.placed l = l) ∧
        ∀ (i : Nat) (l : State) (m : Bool), ls[i]? = some l → mask[i]? = some m →
          ∃ r, us[i]? = some r ∧ if m then w.laneEffect i l = .ok r else r = l) := by
  simp only [runBatched, Traced.outcome_bind, Traced.outcome_liftM, hls, Outcome.ok_bind] at h
  obtain ⟨mask, hmask, h⟩ := Outcome.bind_eq_ok_iff.1 h
  refine ⟨mask, hmask, ?_⟩
  by_cases hany : mask.any id = true
  · rw [if_pos hany] at h
    simp only [Traced.outcome_bind, Traced.outcome_liftM] at h
    obtain ⟨advanced, hstep, h⟩ := Outcome.bind_eq_ok_iff.1 h
    obtain ⟨next, hselect, h⟩ := Outcome.bind_eq_ok_iff.1 h
    obtain ⟨u, hplace, h⟩ := Outcome.bind_eq_ok_iff.1 h
    obtain ⟨-, hordered, ts, hts, hlength, heffect⟩ := step_lanes hw hs hls hstep
    obtain ⟨htmask, hlmask, hnext⟩ := select_eq_ok hls hts hselect
    -- every chosen lane is one of the batch before the step or of the batch after it, and placed
    have hchosen : ∀ l ∈ Mask.choose mask ts ls, l.Ordered ∧ l.batchDims = [] := by
      intro l hl
      rcases Mask.mem_of_mem_choose hl with hl | hl
      · exact lanes_of_flatten hordered hts l hl
      · exact lanes_of_flatten hs hls l hl
    have hstays : ∀ l ∈ Mask.choose mask ts ls, w.placed l = l := by
      intro l hl
      rcases Mask.mem_of_mem_choose hl with hl | hl
      · obtain ⟨i, hi⟩ := List.mem_iff_getElem?.1 hl
        have hlt : i < ls.length := hlength ▸ (List.getElem?_eq_some_iff.1 hi).1
        exact placed_of_laneEffect (heffect i _ l (List.getElem?_eq_getElem hlt) hi)
      · exact hplaced l hl
    obtain ⟨hus, -, huordered⟩ := flatten_place_unflatten hchosen hnext hplace
    rw [List.map_congr_left hstays, List.map_id'] at hus
    refine Or.inr ⟨u, _, h, huordered, hus, ?_, hstays, fun i l m hl hm => ?_⟩
    · rw [Mask.length_choose htmask hlmask, hlmask]
    · have hlt : i < ts.length := hlength ▸ (List.getElem?_eq_some_iff.1 hl).1
      have ht := List.getElem?_eq_getElem hlt
      refine ⟨_, Mask.getElem?_choose hm ht hl, ?_⟩
      cases m with
      | false => rfl
      | true => exact heffect i l _ hl ht
  · rw [if_neg hany] at h
    exact Or.inl ⟨Bool.eq_false_iff.2 hany, (Except.ok.inj h).symm⟩

/-- A loop over a batch is a loop over each of its lanes. -/
theorem runBatched_lanes {w : Workflow} (hw : w.KeepsOrder) {steps : Nat} :
    ∀ {s t : State} {ls : List State}, s.Ordered → s.flatten = .ok ls →
      (∀ l ∈ ls, w.placed l = l) → (w.runBatched pred steps s).outcome = .ok t →
      ∃ ts, t.flatten = .ok ts ∧ ts.length = ls.length ∧
        ∀ (i : Nat) (l r : State), ls[i]? = some l → ts[i]? = some r →
          w.laneRounds pred i steps l = .ok r := by
  induction steps with
  | zero =>
    intro s t ls _ hls _ h
    obtain rfl := Except.ok.inj h
    refine ⟨ls, hls, rfl, fun i l r hl hr => ?_⟩
    rw [hl] at hr
    exact congrArg Except.ok (Option.some.inj hr)
  | succ steps ih =>
    intro s t ls hs hls hplaced h
    obtain ⟨mask, hmask, ⟨hnone, rfl⟩ | ⟨u, us, h, hu, hus, hlength, hstays, hround⟩⟩ :=
      runBatched_succ_eq_ok hw hs hls hplaced h
    · -- the predicate holds on no lane
      refine ⟨ls, hls, rfl, fun i l r hl hr => ?_⟩
      rw [hl] at hr
      obtain ⟨m, hm, hp⟩ := Outcome.exists_of_forall₂ (Outcome.mapM_eq_ok_iff.1 hmask) hl
      have hfalse : m = false := by
        have hall := List.any_eq_false.1 hnone m (List.mem_of_getElem? hm)
        simpa using hall
      rw [hfalse] at hp
      exact Option.some.inj hr ▸ laneRounds_of_false hp
    · obtain ⟨ts, hts, hlength', hrest⟩ := ih hu hus hstays h
      refine ⟨ts, hts, hlength'.trans hlength, fun i l r hl hr => ?_⟩
      obtain ⟨m, hm, hp⟩ := Outcome.exists_of_forall₂ (Outcome.mapM_eq_ok_iff.1 hmask) hl
      obtain ⟨v, hv, hone⟩ := hround i l m hl hm
      have hnext := hrest i v r hv hr
      cases m with
      | true => exact (laneRounds_of_true hp hone).trans hnext
      | false =>
        -- the lane is as it was, so the predicate does not hold on it in later rounds either
        obtain rfl : v = l := hone
        rw [laneRounds_of_false hp] at hnext ⊢
        exact hnext

/-- A loop over an unbatched state is that of the first lane. -/
theorem runUnbatched_eq_ok {w : Workflow} (hw : w.KeepsOrder) {steps : Nat} :
    ∀ {s t : State}, s.Ordered → s.batchDims = [] →
      (w.runUnbatched pred steps s).outcome = .ok t →
        t.batchDims = [] ∧ w.laneRounds pred 0 steps s = .ok t := by
  induction steps with
  | zero =>
    intro s t _ hdims h
    obtain rfl := Except.ok.inj h
    exact ⟨hdims, rfl⟩
  | succ steps ih =>
    intro s t hs hdims h
    simp only [runUnbatched, Traced.outcome_bind, Traced.outcome_liftM] at h
    obtain ⟨holds, hholds, h⟩ := Outcome.bind_eq_ok_iff.1 h
    cases holds with
    | false =>
      obtain rfl := Except.ok.inj h
      exact ⟨hdims, laneRounds_of_false hholds⟩
    | true =>
      rw [if_pos rfl, Traced.outcome_bind] at h
      obtain ⟨u, hu, h⟩ := Outcome.bind_eq_ok_iff.1 h
      obtain ⟨hudims, hordered, us, hus, -, hone⟩ :=
        step_lanes hw hs (State.flatten_unbatched hdims) hu
      have hunbatched : u.batchDims = [] := hudims.trans hdims
      rw [State.flatten_unbatched hunbatched] at hus
      obtain rfl := Except.ok.inj hus
      -- the state is the lane with the index 0 of itself
      rw [laneRounds_of_true hholds (hone 0 s u rfl rfl)]
      exact ih hordered hunbatched h

/-! ## The loop -/

/-- Every lane of a loop ends where it ends alone. -/
theorem laneWhile_of_runWhile {w : Workflow} (hw : w.KeepsOrder) {steps : Nat} {s t : State}
    (hs : s.Ordered) {ls : List State} (hls : s.flatten = .ok ls)
    (h : (w.runWhile pred steps s).outcome = .ok t) :
    ∃ ts, t.flatten = .ok ts ∧ ts.length = ls.length ∧
      ∀ (i : Nat) (l r : State), ls[i]? = some l → ts[i]? = some r →
        w.laneWhile pred s.isBatched i steps l = .ok r := by
  rw [runWhile] at h
  -- a state that is not batched is its own only lane, and is neither placed nor put together
  by_cases hdims : s.batchDims = []
  · have hunbatched : s.isBatched = false := by simp [State.isBatched, hdims]
    rw [hunbatched, if_neg Bool.false_ne_true] at h
    rw [State.flatten_unbatched hdims] at hls
    obtain rfl := Except.ok.inj hls
    obtain ⟨htdims, hrounds⟩ := runUnbatched_eq_ok hw hs hdims h
    refine ⟨[t], State.flatten_unbatched htdims, rfl, fun i l r hl hr => ?_⟩
    cases i with
    | zero =>
      obtain rfl := Option.some.inj hl
      obtain rfl := Option.some.inj hr
      rw [hunbatched]
      exact hrounds
    | succ i => cases hl
  · have hbatched : s.isBatched = true := by simpa [State.isBatched] using hdims
    rw [hbatched, if_pos rfl, Traced.outcome_bind, Traced.outcome_liftM] at h
    obtain ⟨p, hp, h⟩ := Outcome.bind_eq_ok_iff.1 h
    have hplaced : ∀ l ∈ ls.map w.placed, w.placed l = l := by
      intro l hl
      obtain ⟨l', -, rfl⟩ := List.mem_map.1 hl
      exact placed_placed w l'
    obtain ⟨ts, hts, hlength, hlanes⟩ :=
      runBatched_lanes hw (ordered_of_place hs hp) (flatten_place hls hp) hplaced h
    rw [List.length_map] at hlength
    refine ⟨ts, hts, hlength, fun i l r hl hr => ?_⟩
    rw [hbatched]
    exact hlanes i _ r (by rw [List.getElem?_map, hl]; rfl) hr

theorem laneLoop_of_laneRounds {w : Workflow} (hw : w.IgnoresPlacement)
    (hpred : ∀ l l' : State, l.SameLeaves l' → pred l = pred l') {index steps : Nat} :
    ∀ {l l' : State}, l.SameLeaves l' →
      Outcome.Matches State.SameLeaves (w.laneRounds pred index steps l)
        (w.laneLoop pred index steps l') := by
  induction steps with
  | zero => exact fun hl => .ok hl
  | succ steps ih =>
    intro l l' hl
    rw [laneRounds, laneLoop, hpred l l' hl]
    refine Outcome.Matches.bind_same fun holds => ?_
    cases holds with
    | false => exact .ok hl
    | true =>
      rw [if_pos rfl, if_pos rfl, laneEffect, bind_assoc]
      refine (hw.laneStep hl).bind fun F F' hF => ?_
      exact ih ((sameLeaves_placed w F).trans hF)

theorem laneLoop_of_laneWhile {w : Workflow} (hw : w.IgnoresPlacement)
    (hpred : ∀ l l' : State, l.SameLeaves l' → pred l = pred l') {batched : Bool}
    {index steps : Nat} {l l' : State} (hl : l.SameLeaves l') :
    Outcome.Matches State.SameLeaves (w.laneWhile pred batched index steps l)
      (w.laneLoop pred index steps l') := by
  rw [laneWhile]
  cases batched with
  | false => exact laneLoop_of_laneRounds hw hpred hl
  | true => exact laneLoop_of_laneRounds hw hpred ((sameLeaves_placed w l).trans hl)

/-- The only lane of a batch of one. -/
theorem flatten_stack_singleton {s b : State} (hs : s.Ordered) (hdims : s.batchDims = [])
    (h : State.stack [s] = .ok b) : b.flatten = .ok [s] := by
  have hunstack := State.unstack_stack (by simpa using hs) h
  exact (State.flatten_eq_ok_iff hunstack).2
    ⟨[[s]], .cons (State.flatten_unbatched hdims) .nil, rfl⟩

/-- A loop over a batch of one state is that of its only lane. -/
theorem runWhile_singleton {w : Workflow} (hw : w.KeepsOrder) {steps : Nat} {s b tb : State}
    (hs : s.Ordered) (hdims : s.batchDims = []) (hb : State.stack [s] = .ok b)
    (h : (w.runWhile pred steps b).outcome = .ok tb) :
    ∃ r, tb.flatten = .ok [r] ∧ w.laneWhile pred true 0 steps s = .ok r := by
  have hordered : b.Ordered := State.Ordered.stack hb (by simpa using hs)
  have hbatched : b.isBatched = true := by
    rw [State.isBatched, State.batchDims_of_stack hb List.mem_cons_self]
    rfl
  obtain ⟨ts, hts, hlength, hlanes⟩ :=
    laneWhile_of_runWhile hw hordered (flatten_stack_singleton hs hdims hb) h
  obtain ⟨r, rfl⟩ := List.length_eq_one_iff.1 hlength
  exact ⟨r, hts, hbatched ▸ hlanes 0 _ r rfl rfl⟩

/-- A loop that succeeds gives every lane what the loop of this lane on its own gives it, where a
step of the lane is what a step of the batch does to it, and where the lanes of a batch are placed
first. When placements play no part that is, up to placements, the plain loop of the lane. An
unbatched state fares as the only lane of a batch of one when it is placed, or when placements play
no part. -/
theorem runWhile_lanes {w : Workflow} (hw : w.KeepsOrder) {steps : Nat} {s t : State}
    (hs : s.Ordered) {ls : List State} (hls : s.flatten = .ok ls)
    (h : (w.runWhile pred steps s).outcome = .ok t) :
    (∀ u : State, (w.step s).outcome = .ok u → ∃ us, u.flatten = .ok us ∧
      ∀ (i : Nat) (l r : State), ls[i]? = some l → us[i]? = some r → w.laneEffect i l = .ok r) ∧
    (∃ ts, t.flatten = .ok ts ∧ ts.length = ls.length ∧
      ∀ (i : Nat) (l r : State), ls[i]? = some l → ts[i]? = some r →
        w.laneWhile pred s.isBatched i steps l = .ok r ∧
        (w.IgnoresPlacement → (∀ l l' : State, l.SameLeaves l' → pred l = pred l') →
          ∃ y, w.laneLoop pred i steps l = .ok y ∧ r.SameLeaves y)) ∧
    (s.batchDims = [] → ∀ b tb : State, State.stack [s] = .ok b →
      (w.runWhile pred steps b).outcome = .ok tb → ∃ r, tb.flatten = .ok [r] ∧
        (w.placed s = s → r = t) ∧
        (w.IgnoresPlacement → (∀ l l' : State, l.SameLeaves l' → pred l = pred l') →
          r.SameLeaves t)) := by
  obtain ⟨ts, hts, hlength, hlanes⟩ := laneWhile_of_runWhile hw hs hls h
  refine ⟨fun u hu => ?_, ⟨ts, hts, hlength, fun i l r hl hr => ?_⟩,
    fun hdims b tb hb htb => ?_⟩
  · obtain ⟨-, -, us, hus, -, hone⟩ := step_lanes hw hs hls hu
    exact ⟨us, hus, hone⟩
  · have hr := hlanes i l r hl hr
    refine ⟨hr, fun hplacement hpred => ?_⟩
    exact laneLoop_of_laneWhile hplacement hpred (.refl l) r hr
  · obtain ⟨r, hr, hbatch⟩ := runWhile_singleton hw hs hdims hb htb
    -- without batch axes the loop is that of the only lane, which is not placed first
    have hunbatched : s.isBatched = false := by simp [State.isBatched, hdims]
    rw [runWhile, hunbatched, if_neg Bool.false_ne_true] at h
    have ht : w.laneWhile pred false 0 steps s = .ok t := (runUnbatched_eq_ok hw hs hdims h).2
    refine ⟨r, hr, fun hplaced => ?_, fun hplacement hpred => ?_⟩
    · rw [laneWhile, if_pos rfl, hplaced] at hbatch
      rw [laneWhile, if_neg Bool.false_ne_true, hbatch] at ht
      exact Except.ok.inj ht
    · obtain ⟨y, hy, hry⟩ := laneLoop_of_laneWhile hplacement hpred (.refl s) r hbatch
      obtain ⟨y', hy', hty⟩ := laneLoop_of_laneWhile hplacement hpred (.refl s) t ht
      rw [hy] at hy'
      obtain rfl := Except.ok.inj hy'
      exact hry.trans hty.symm

/-! ## Two lanes that stop at different times -/

open TuningProblem (echoWorkflow echoState ordered_echoState keepsOrder_echoWorkflow)

/-- Whether fewer steps were made than the parameter says. -/
def echoPending (s : State) : Outcome Bool := do
  let root ← s.resolve ""
  let generation ← root.number generationAttribute
  let l ← s.resolve "algorithm"
  let rate ← l.number "rate"
  return generation < rate

theorem echoPending_congr (l l' : State) (h : l.SameLeaves l') :
    echoPending l = echoPending l' := by
  have hrate : ∀ generation : Float,
      (l.resolve "algorithm" >>= fun m => m.number "rate" >>= fun rate =>
        (pure (decide (generation < rate)) : Outcome Bool)) =
      l'.resolve "algorithm" >>= fun m => m.number "rate" >>= fun rate =>
        pure (decide (generation < rate)) :=
    fun _ => h.resolve_bind "algorithm" fun m m' hm => by rw [hm.number]
  simp only [echoPending, hrate]
  exact h.resolve_bind "" fun root root' hroot => by rw [hroot.number]

/-- The first state of the echo with a parameter for each of two lanes. -/
def echoPair : State :=
  let stacked := do
    let s ← State.stack [echoState, echoState]
    s.withLeaf "algorithm.rate" (.vector [1, 3])
  stacked.toOption.get (by decide +kernel)

theorem ordered_echoPair : echoPair.Ordered := by
  have hpair := Outcome.eq_ok_get (o := do
    let s ← State.stack [echoState, echoState]
    s.withLeaf "algorithm.rate" (.vector [1, 3])) (by decide +kernel)
  obtain ⟨s, hs, hleaf⟩ := Outcome.bind_eq_ok_iff.1 hpair
  refine State.Ordered.withLeaf (State.Ordered.stack hs ?_) hleaf
  simp [ordered_echoState]

/-- The workflow of the examples reads no placement. -/
theorem ignoresPlacement_echoWorkflow : echoWorkflow.IgnoresPlacement where
  ask := by
    intro ctx l l' hl
    change Outcome.Matches _ (l.number "rate" >>= _) (l'.number "rate" >>= _)
    rw [hl.number]
    exact Outcome.Matches.bind_same fun _ => .ok ⟨rfl, hl⟩
  tell := fun hl => .ok hl
  evaluate := by
    intro ctx l l' candidates hl
    change Outcome.Matches _ (echoEvaluation.evaluate ctx l candidates).outcome
      (echoEvaluation.evaluate ctx l' candidates).outcome
    simp only [echoEvaluation, Traced.outcome_bind, Traced.outcome_liftM]
    exact Outcome.Matches.bind_same fun _ => .ok ⟨rfl, hl⟩
  observe := by
    intro slot node s s' generation lane l l' call hslot _ _
    rw [TuningProblem.monitor_of_echoWorkflow hslot]
    cases call with
    | preTell fitness => exact .ok (.some (.refl _))
    | _ => exact .ok .none

/-- The first lane stops after one step and the second one after three. -/
theorem runWhile_lanes_echoPair :
    ∃ t ls ts, (echoWorkflow.runWhile echoPending 5 echoPair).outcome = .ok t ∧
      echoPair.flatten = .ok ls ∧ t.flatten = .ok ts ∧ ts.length = ls.length ∧
      ∀ (i : Nat) (l r : State), ls[i]? = some l → ts[i]? = some r →
        ∃ y, echoWorkflow.laneLoop echoPending i 5 l = .ok y ∧ r.SameLeaves y := by
  obtain ⟨t, ht⟩ := Outcome.exists_eq_ok
    (o := (echoWorkflow.runWhile echoPending 5 echoPair).outcome) (by decide +kernel)
  obtain ⟨ls, hls⟩ := Outcome.exists_eq_ok (o := echoPair.flatten) (by decide +kernel)
  obtain ⟨-, ⟨ts, hts, hlength, hlanes⟩, -⟩ :=
    runWhile_lanes keepsOrder_echoWorkflow ordered_echoPair hls ht
  exact ⟨t, ls, ts, ht, hls, hts, hlength, fun i l r hl hr =>
    (hlanes i l r hl hr).2 ignoresPlacement_echoWorkflow echoPending_congr⟩

/-! ## Lanes that are not placed yet -/

/-- Lanes fare as they would on their own from where they are, and a state without batch axes as the
only lane of a batch of one. -/
structure LanesAlone (w : Workflow) (pred : State → Outcome Bool) (steps : Nat) (s : State) :
    Prop where
  lanes : ∀ (t : State) (ls ts : List State), (w.runWhile pred steps s).outcome = .ok t →
    s.flatten = .ok ls → t.flatten = .ok ts →
    ∀ (i : Nat) (l r : State), ls[i]? = some l → ts[i]? = some r →
      ∃ y, w.laneRounds pred i steps l = .ok y ∧ r.SameLeaves y
  single : s.batchDims = [] → ∀ t b : State, (w.runWhile pred steps s).outcome = .ok t →
    State.stack [s] = .ok b →
      ∃ tb r, (w.runWhile pred steps b).outcome = .ok tb ∧ tb.flatten = .ok [r] ∧ r.SameLeaves t

/-- Has its members spread over devices. -/
def spreadAlgorithm (members : List Float) : Algorithm where
  component := {
    schema := [.population "members"]
    init := fun _ _ => .ok [("members", .tensor (.vector members))]
    children := [] }
  ask _ l := .ok (.dense (.constant [1, 1] 0), l)
  tell _ l _ := .ok l
  popSize := none

/-- Keeps whether a leaf of what it is shown is placed. -/
def placementMonitor : Monitor where
  component := ⟨[.mutable "placed"], fun _ _ => .ok [("placed", .tensor (.scalar 0))], []⟩
  hooks := .ofList [.preAsk]
  observe ctx _ call := match call with
    | .preAsk =>
      let placed := if ctx.state.placement = [] then 0 else 1
      pure (some [("placed", .tensor (.scalar placed))])
    | _ => pure none
  providesMetric := false
  metric _ := return none

/-- A workflow that gets two devices after its first state was made, with this state. -/
def spreadStart (members : List Float) : Outcome (Workflow × State) := do
  let w ← build (spreadAlgorithm members) echoEvaluation [(some "watch", placementMonitor)] none {}
  let (w, s) ← w.init.outcome
  return (← w.enableDevices (.gpus 2), s)

/-- Two copies of the first state. -/
def spreadPair (members : List Float) : Outcome State := do
  let (_, s) ← spreadStart members
  State.stack [s, s]

/-- Whether the monitor of a lane was shown a leaf that is placed. -/
def sawPlacement (s : State) : Outcome Float := do
  let l ← s.resolve "watch"
  l.number "placed"

theorem sawPlacement_congr {l l' : State} (h : l.SameLeaves l') :
    sawPlacement l = sawPlacement l' :=
  h.resolve_bind "watch" fun _ _ hm => hm.number "placed"

def evenWorkflow : Workflow := ((spreadStart [1, 2]).toOption.get (by decide +kernel)).1

def evenPair : State := (spreadPair [1, 2]).toOption.get (by decide +kernel)

def evenResult : State :=
  (evenWorkflow.runWhile (fun _ => .ok true) 1 evenPair).outcome.toOption.get (by decide +kernel)

def evenLanes : List State := evenPair.flatten.toOption.get (by decide +kernel)

def evenResultLanes : List State := evenResult.flatten.toOption.get (by decide +kernel)

def oddWorkflow : Workflow := ((spreadStart [1]).toOption.get (by decide +kernel)).1

def oddState : State := ((spreadStart [1]).toOption.get (by decide +kernel)).2

/-- A batch is placed before its first round, which its lanes show. A single member cannot be spread
over two devices, which ends the loop of a batch of one although there is no step to make. -/
theorem not_lanesAlone :
    ¬ LanesAlone evenWorkflow (fun _ => .ok true) 1 evenPair ∧
      ¬ LanesAlone oddWorkflow (fun _ => .ok true) 0 oddState := by
  refine ⟨fun h => ?_, fun h => ?_⟩
  · obtain ⟨l, hl⟩ : ∃ l, evenLanes[0]? = some l := Option.isSome_iff_exists.1 (by decide +kernel)
    obtain ⟨r, hr⟩ : ∃ r, evenResultLanes[0]? = some r :=
      Option.isSome_iff_exists.1 (by decide +kernel)
    obtain ⟨y, hy, hry⟩ := h.lanes evenResult evenLanes evenResultLanes (Outcome.eq_ok_get _)
      (Outcome.eq_ok_get _) (Outcome.eq_ok_get _) 0 l r hl hr
    -- in its own loop the lane is not placed when the monitor looks at it
    have hlane : ∀ l ∈ evenLanes[0]?,
        ∀ y ∈ (evenWorkflow.laneRounds (fun _ => .ok true) 0 1 l).toOption,
          (sawPlacement y).toOption.any (· == 1) = false := by
      decide +kernel
    have hresult : ∀ r ∈ evenResultLanes[0]?, (sawPlacement r).toOption.any (· == 1) = true := by
      decide +kernel
    have hsaw := hresult r hr
    rw [sawPlacement_congr hry, hlane l hl y (by rw [hy]; rfl)] at hsaw
    cases hsaw
  · obtain ⟨b, hb⟩ : ∃ b, State.stack [oddState] = .ok b := Outcome.exists_eq_ok (by decide +kernel)
    obtain ⟨tb, r, htb, -⟩ := h.single (by decide +kernel) oddState b rfl hb
    have hfailed : ∀ b ∈ (State.stack [oddState]).toOption,
        (oddWorkflow.runWhile (fun _ => .ok true) 0 b).outcome.toOption.isNone = true := by
      decide +kernel
    have hnone := hfailed b (by rw [hb]; rfl)
    rw [htb] at hnone
    cases hnone

end Workflow

end Lockstep
