import Lockstep.Proofs.Workflow.Devices
import Lockstep.Proofs.Workflow.Round
import Lockstep.Proofs.Workflow.Trackers

/-!
# Lanes that are finished before others

As long as the predicate holds on some lane, a loop over a batch steps all lanes, those on which it
does not hold any more included, and throws away what these became. So the loop succeeds when the
own loop of every lane does, one more step of every lane that is finished before others, and the
lanes keep the same shapes, for which there is room behind the batch axes (`Workflow.LanesFit`).
Every lane is then what its own loop makes of it, and what is noted for it is what its own loop
notes, followed by the notes of the step that is thrown away, once for each round that it waits
(`Workflow.runWhile_waiting`). So lanes that are finished still show
(`Workflow.not_finishedLanesInert`).
-/

namespace Lockstep

namespace Workflow

/-- The own loop of every lane succeeds, and after each round the lanes have the same shapes. -/
structure OwnLoopsFit (w : Workflow) (pred : State → Outcome Bool) (steps : Nat)
    (ls : List State) : Prop where
  own : ∀ (i : Nat) (l : State), ls[i]? = some l →
    ∃ r, (w.ownRounds pred i steps l).outcome = .ok r
  kept : ∀ n ≤ steps, ∀ (i j : Nat) (l l' r r' : State), ls[i]? = some l → ls[j]? = some l' →
    (w.ownRounds pred i n l).outcome = .ok r →
    (w.ownRounds pred j n l').outcome = .ok r' → r.outline = r'.outline

/-- Besides, the lanes that wait for others can be stepped, to the same shapes as the others, arrays
can have these behind the batch axes, and every axis along which something in a lane is split has a
number behind these too. -/
structure LanesFit (w : Workflow) (pred : State → Outcome Bool) (dims : List Nat) (steps : Nat)
    (ls : List State) : Prop extends w.OwnLoopsFit pred steps ls where
  spare : ∀ (i : Nat) (l r : State), ls[i]? = some l →
    (w.ownRounds pred i steps l).outcome = .ok r →
    w.ownCount pred i steps l < w.roundCount pred steps ls →
    ∃ p, (w.stepAt i r).outcome = .ok p
  made : ∀ n < w.roundCount pred steps ls, ∀ (i j : Nat) (l l' r r' p p' : State),
    ls[i]? = some l → ls[j]? = some l' → (w.ownRounds pred i n l).outcome = .ok r →
    (w.ownRounds pred j n l').outcome = .ok r' → (w.stepAt i r).outcome = .ok p →
    (w.stepAt j r').outcome = .ok p' → p.outline = p'.outline
  arrays : ∀ n < w.roundCount pred steps ls, ∀ (i : Nat) (l r p : State),
    ls[i]? = some l → (w.ownRounds pred i n l).outcome = .ok r →
    (w.stepAt i r).outcome = .ok p → p.FitsArrays dims
  room : ∀ n < w.roundCount pred steps ls, ∀ (i : Nat) (l r p : State),
    ls[i]? = some l → (w.ownRounds pred i n l).outcome = .ok r →
    (w.stepAt i r).outcome = .ok p → p.FitsBatch dims.length

section

variable {w : Workflow} {pred : State → Outcome Bool} {dims : List Nat} {index steps : Nat}
  {l r p : State}

/-- Lanes fit whose steps all succeed and keep one outline. -/
theorem ownLoopsFit_of_outline {ls : List State} (shape : State)
    (h : ∀ (i : Nat) (l : State), ls[i]? = some l → ∀ n ≤ steps,
      Outcome.Gives (fun r => r.outline = shape.outline) (w.ownRounds pred i n l).outcome) :
    w.OwnLoopsFit pred steps ls where
  own := by
    intro i l hl
    obtain ⟨r, hr, -⟩ := h i l hl steps (Nat.le_refl _)
    exact ⟨r, hr⟩
  kept := by
    intro n hn i j l l' r r' hl hl' hr hr'
    obtain ⟨x, hx, hshape⟩ := h i l hl n hn
    obtain ⟨x', hx', hshape'⟩ := h j l' hl' n hn
    obtain rfl := Except.ok.inj (hr.symm.trans hx)
    obtain rfl := Except.ok.inj (hr'.symm.trans hx')
    exact hshape.trans hshape'.symm

theorem lanesFit_of_outline {ls : List State} (shape : State) (harrays : shape.FitsArrays dims)
    (hroom : shape.FitsBatch dims.length)
    (h : ∀ (i : Nat) (l : State), ls[i]? = some l → ∀ n ≤ steps,
      Outcome.Gives (fun r => r.outline = shape.outline ∧
        Outcome.Gives (fun p => p.outline = shape.outline) (w.stepAt i r).outcome)
        (w.ownRounds pred i n l).outcome) :
    w.LanesFit pred dims steps ls where
  toOwnLoopsFit :=
    ownLoopsFit_of_outline shape fun i l hl n hn => (h i l hl n hn).imp fun _ hr => hr.1
  -- each part compares what a lane is after some of its rounds with `shape`
  spare := by
    intro i l r hl hr _
    obtain ⟨x, hx, -, p, hp, -⟩ := h i l hl steps (Nat.le_refl _)
    obtain rfl := Except.ok.inj (hr.symm.trans hx)
    exact ⟨p, hp⟩
  made := by
    intro n hn i j l l' r r' p p' hl hl' hr hr' hp hp'
    have hle : n ≤ steps := Nat.le_of_lt (Nat.lt_of_lt_of_le hn roundCount_le_steps)
    obtain ⟨x, hx, -, y, hy, hshape⟩ := h i l hl n hle
    obtain ⟨x', hx', -, y', hy', hshape'⟩ := h j l' hl' n hle
    obtain rfl := Except.ok.inj (hr.symm.trans hx)
    obtain rfl := Except.ok.inj (hr'.symm.trans hx')
    obtain rfl := Except.ok.inj (hp.symm.trans hy)
    obtain rfl := Except.ok.inj (hp'.symm.trans hy')
    exact hshape.trans hshape'.symm
  arrays := by
    intro n hn i l r p hl hr hp
    have hle : n ≤ steps := Nat.le_of_lt (Nat.lt_of_lt_of_le hn roundCount_le_steps)
    obtain ⟨x, hx, -, y, hy, hshape⟩ := h i l hl n hle
    obtain rfl := Except.ok.inj (hr.symm.trans hx)
    obtain rfl := Except.ok.inj (hp.symm.trans hy)
    exact harrays.of_outline_eq hshape
  room := by
    intro n hn i l r p hl hr hp
    have hle : n ≤ steps := Nat.le_of_lt (Nat.lt_of_lt_of_le hn roundCount_le_steps)
    obtain ⟨x, hx, -, y, hy, hshape⟩ := h i l hl n hle
    obtain rfl := Except.ok.inj (hr.symm.trans hx)
    obtain rfl := Except.ok.inj (hp.symm.trans hy)
    exact hroom.of_outline_eq hshape

/-! ## The rounds of a loop -/

/-- What a round makes of the lane with an index. -/
def Advances (w : Workflow) (pred : State → Outcome Bool) (index : Nat) (l u : State) : Prop :=
  (pred l = .ok true ∧ (w.stepAt index l).outcome = .ok u) ∨ (pred l = .ok false ∧ u = l)

namespace Advances

variable {u : State}

theorem outcome (h : w.Advances pred index l u) (n : Nat) :
    (w.ownRounds pred index (n + 1) l).outcome =
      (w.ownRounds pred index n u).outcome := by
  rcases h with ⟨hpred, hu⟩ | ⟨hpred, rfl⟩
  · rw [ownRounds_of_true hpred, Traced.outcome_bind, hu, Outcome.ok_bind]
  · rw [ownRounds_of_false hpred, ownRounds_of_false hpred]

theorem count_le (h : w.Advances pred index l u) :
    w.ownCount pred index (steps + 1) l ≤ w.ownCount pred index steps u + 1 := by
  rcases h with ⟨hpred, hu⟩ | ⟨hpred, rfl⟩
  · rw [ownCount_of_true hpred hu]
  · rw [ownCount_of_false hpred]
    exact Nat.zero_le _

/-- All rounds of a lane are its first one and the others. -/
theorem notes (h : w.Advances pred index l u)
    (hr : (w.ownRounds pred index steps u).outcome = .ok r) (rounds : Nat) :
    (w.stepAt index l).notes ++ ((w.ownRounds pred index steps u).notes ++
        (List.replicate (rounds - w.ownCount pred index steps u)
          (w.stepAt index r).notes).flatten) =
      (w.ownRounds pred index (steps + 1) l).notes ++
        (List.replicate (rounds + 1 - w.ownCount pred index (steps + 1) l)
          (w.stepAt index r).notes).flatten := by
  rcases h with ⟨hpred, hu⟩ | ⟨hpred, rfl⟩
  · rw [ownRounds_of_true hpred, Traced.notes_bind_of_ok hu, ownCount_of_true hpred hu,
      Nat.add_sub_add_right, List.append_assoc]
  · -- the lane waits, and so it does in every later round
    rw [ownRounds_of_false hpred] at hr ⊢
    obtain rfl := Except.ok.inj hr
    rw [ownRounds_of_false hpred, ownCount_of_false hpred, ownCount_of_false hpred, Nat.sub_zero,
      Nat.sub_zero, List.replicate_succ, List.flatten_cons]
    rfl

end Advances

/-- What a round makes of all lanes. -/
def AdvancesAll (w : Workflow) (pred : State → Outcome Bool) (ls us : List State) :
    Prop :=
  us.length = ls.length ∧ ∀ (i : Nat) (l u : State), ls[i]? = some l → us[i]? = some u →
    w.Advances pred i l u

namespace AdvancesAll

variable {ls us : List State}

theorem exists_next (h : w.AdvancesAll pred ls us) (hl : ls[index]? = some l) :
    ∃ u, us[index]? = some u ∧ w.Advances pred index l u := by
  have hi : index < us.length := h.1 ▸ (List.getElem?_eq_some_iff.1 hl).1
  exact ⟨us[index], List.getElem?_eq_getElem hi, h.2 index l _ hl (List.getElem?_eq_getElem hi)⟩

theorem exists_before (h : w.AdvancesAll pred ls us) {u : State} (hu : us[index]? = some u) :
    ∃ l, ls[index]? = some l ∧ w.Advances pred index l u := by
  have hi : index < ls.length := h.1 ▸ (List.getElem?_eq_some_iff.1 hu).1
  exact ⟨ls[index], List.getElem?_eq_getElem hi, h.2 index _ u (List.getElem?_eq_getElem hi) hu⟩

/-- A round in which a lane is stepped is one of all rounds. -/
theorem roundCount_succ (h : w.AdvancesAll pred ls us)
    (hany : ∃ (i : Nat) (l : State), ls[i]? = some l ∧ pred l = .ok true) :
    w.roundCount pred (steps + 1) ls = w.roundCount pred steps us + 1 := by
  apply Nat.le_antisymm
  · -- a round takes at most one step from what each lane has left
    refine roundCount_le_iff.2 fun i l hl => ?_
    obtain ⟨u, hu, hone⟩ := h.exists_next hl
    exact hone.count_le.trans (Nat.succ_le_succ (ownCount_le_roundCount hu))
  · -- a lane that is stepped makes one step more than it has left
    have hstepped : ∀ {i : Nat} {l u : State}, ls[i]? = some l → pred l = .ok true →
        w.Advances pred i l u →
        w.ownCount pred i steps u + 1 ≤ w.roundCount pred (steps + 1) ls := by
      intro i l u hl hpred hone
      rcases hone with ⟨-, hu⟩ | ⟨hfalse, -⟩
      · rw [← ownCount_of_true hpred hu]
        exact ownCount_le_roundCount hl
      · rw [hpred] at hfalse
        cases hfalse
    obtain ⟨j, m, hm, htrue⟩ := hany
    obtain ⟨v, hv, hv'⟩ := h.exists_next hm
    have hpos := Nat.le_trans (Nat.le_add_left 1 _) (hstepped hm htrue hv')
    have hle : w.roundCount pred steps us ≤ w.roundCount pred (steps + 1) ls - 1 := by
      refine roundCount_le_iff.2 fun i u hu => ?_
      obtain ⟨l, hl, hone⟩ := h.exists_before hu
      rcases hone with ⟨hpred, hu'⟩ | ⟨hpred, rfl⟩
      · exact Nat.le_sub_of_add_le (hstepped hl hpred (Or.inl ⟨hpred, hu'⟩))
      · rw [ownCount_of_false hpred]
        exact Nat.zero_le _
    omega

/-- So the rounds that are left are all but the first one. -/
theorem succ_lt_roundCount (h : w.AdvancesAll pred ls us)
    (hany : ∃ (i : Nat) (l : State), ls[i]? = some l ∧ pred l = .ok true) {n : Nat}
    (hn : n < w.roundCount pred steps us) : n + 1 < w.roundCount pred (steps + 1) ls := by
  rw [h.roundCount_succ hany]
  exact Nat.succ_lt_succ hn

/-- Lanes that fit still do after a round. -/
theorem lanesFit (h : w.AdvancesAll pred ls us)
    (hany : ∃ (i : Nat) (l : State), ls[i]? = some l ∧ pred l = .ok true)
    (hfit : w.LanesFit pred dims (steps + 1) ls) : w.LanesFit pred dims steps us where
  own := by
    intro i u hu
    obtain ⟨l, hl, hone⟩ := h.exists_before hu
    obtain ⟨r, hr⟩ := hfit.own i l hl
    exact ⟨r, hone.outcome steps ▸ hr⟩
  spare := by
    intro i u r hu hr hlt
    obtain ⟨l, hl, hone⟩ := h.exists_before hu
    have hwaits : w.ownCount pred i (steps + 1) l < w.roundCount pred (steps + 1) ls :=
      Nat.lt_of_le_of_lt hone.count_le (h.succ_lt_roundCount hany hlt)
    exact hfit.spare i l r hl ((hone.outcome steps).trans hr) hwaits
  kept := by
    intro n hn i j u u' r r' hu hu' hr hr'
    obtain ⟨l, hl, hone⟩ := h.exists_before hu
    obtain ⟨l', hl', hone'⟩ := h.exists_before hu'
    exact hfit.kept (n + 1) (Nat.succ_le_succ hn) i j l l' r r' hl hl' ((hone.outcome n).trans hr)
      ((hone'.outcome n).trans hr')
  made := by
    intro n hn i j u u' r r' p p' hu hu' hr hr' hp hp'
    obtain ⟨l, hl, hone⟩ := h.exists_before hu
    obtain ⟨l', hl', hone'⟩ := h.exists_before hu'
    exact hfit.made (n + 1) (h.succ_lt_roundCount hany hn) i j l l' r r' p p' hl hl'
      ((hone.outcome n).trans hr) ((hone'.outcome n).trans hr') hp hp'
  arrays := by
    intro n hn i u r p hu hr hp
    obtain ⟨l, hl, hone⟩ := h.exists_before hu
    exact hfit.arrays (n + 1) (h.succ_lt_roundCount hany hn) i l r p hl ((hone.outcome n).trans hr)
      hp
  room := by
    intro n hn i u r p hu hr hp
    obtain ⟨l, hl, hone⟩ := h.exists_before hu
    exact hfit.room (n + 1) (h.succ_lt_roundCount hany hn) i l r p hl ((hone.outcome n).trans hr) hp

end AdvancesAll

theorem runBatched_of_round {s t next u : State} {ls : List State} {mask : List Bool}
    (hls : s.flatten = .ok ls) (hmask : ls.mapM pred = .ok mask) (hany : true ∈ mask)
    (ht : (w.step s).outcome = .ok t) (hnext : State.select mask t s = .ok next)
    (hu : w.place next = .ok u) : w.runBatched pred (steps + 1) s =
      ⟨(w.step s).notes ++ (w.runBatched pred steps u).notes,
        (w.runBatched pred steps u).outcome⟩ := by
  have hany : mask.any id = true := List.any_eq_true.2 ⟨true, hany, rfl⟩
  rw [runBatched, Traced.liftM_bind_of_ok hls, Traced.liftM_bind_of_ok hmask, if_pos hany,
    Traced.bind_of_ok ht, Traced.liftM_bind_of_ok hnext, Traced.liftM_bind_of_ok hu]

/-- In a round in which a lane is stepped, every lane can be. -/
theorem LanesFit.exists_stepAt {ls : List State} (hfit : w.LanesFit pred dims (steps + 1) ls)
    (hany : ∃ (i : Nat) (l : State), ls[i]? = some l ∧ pred l = .ok true) :
    0 < w.roundCount pred (steps + 1) ls ∧
      ∀ (i : Nat) (l : State), ls[i]? = some l → ∃ p, (w.stepAt i l).outcome = .ok p := by
  have hstep : ∀ {i : Nat} {l : State}, ls[i]? = some l → pred l = .ok true →
      ∃ u, (w.stepAt i l).outcome = .ok u := by
    intro i l hl hpred
    obtain ⟨r, hr⟩ := hfit.own i l hl
    rw [ownRounds_of_true hpred, Traced.outcome_bind] at hr
    obtain ⟨u, hu, -⟩ := Outcome.bind_eq_ok_iff.1 hr
    exact ⟨u, hu⟩
  -- a lane whose predicate holds takes a step in its own loop, so there is a round
  have hpos : 0 < w.roundCount pred (steps + 1) ls := by
    obtain ⟨j, m, hm, hpred⟩ := hany
    obtain ⟨u, hu⟩ := hstep hm hpred
    have hle : w.ownCount pred j (steps + 1) m ≤
        w.roundCount pred (steps + 1) ls := ownCount_le_roundCount hm
    rw [ownCount_of_true hpred hu] at hle
    omega
  refine ⟨hpos, fun i l hl => ?_⟩
  obtain ⟨r, hr⟩ := hfit.own i l hl
  cases hpred : pred l with
  | error e =>
    rw [ownRounds, hpred] at hr
    cases hr
  | ok holds =>
    cases holds with
    | true =>
      exact hstep hl hpred
    | false =>
      -- a finished lane waits in that round, and the step it is spared succeeds as well
      refine hfit.spare i l l hl (by rw [ownRounds_of_false hpred]; rfl) ?_
      rw [ownCount_of_false hpred]
      exact hpos

/-- A mask that holds somewhere comes from a lane on which the predicate holds. -/
theorem exists_of_mask {ls : List State} {mask : List Bool}
    (hmask : List.Forall₂ (fun l m => pred l = .ok m) ls mask) (hany : true ∈ mask) :
    ∃ (i : Nat) (l : State), ls[i]? = some l ∧ pred l = .ok true := by
  obtain ⟨i, hi⟩ := List.mem_iff_getElem?.1 hany
  have hlt : i < ls.length := hmask.length_eq ▸ (List.getElem?_eq_some_iff.1 hi).1
  obtain ⟨m, hm, hholds⟩ := Outcome.exists_of_forall₂ hmask (List.getElem?_eq_getElem hlt)
  obtain rfl := Option.some.inj (hi.symm.trans hm)
  exact ⟨i, _, List.getElem?_eq_getElem hlt, hholds⟩

/-- In a round in which a lane is stepped, all lanes can be, to leaves that could be arrays and to
states that have room for the batch axes. -/
theorem LanesFit.exists_stepsTo {ls : List State} (hfit : w.LanesFit pred dims (steps + 1) ls)
    (hany : ∃ (i : Nat) (l : State), ls[i]? = some l ∧ pred l = .ok true) :
    ∃ ps, w.StepsTo ls ps ∧ ∀ p ∈ ps, p.FitsArrays dims ∧ p.FitsBatch dims.length := by
  obtain ⟨hpos, hstep⟩ := hfit.exists_stepAt hany
  obtain ⟨ps, hps⟩ := exists_runStage_eq_ok (f := w.stepAt) hstep
  obtain ⟨hlength, hps⟩ := runStage_eq_ok_iff.1 hps
  have hlane : ∀ {i : Nat} {p : State}, ps[i]? = some p → ∃ l, ls[i]? = some l :=
    fun hp => ⟨_, List.getElem?_eq_getElem (hlength ▸ (List.getElem?_eq_some_iff.1 hp).1)⟩
  refine ⟨ps, ⟨hlength, hps, fun l hl l' hl' => ?_, fun p hp p' hp' => ?_⟩, fun p hp => ?_⟩
  · obtain ⟨i, hi⟩ := List.mem_iff_getElem?.1 hl
    obtain ⟨j, hj⟩ := List.mem_iff_getElem?.1 hl'
    exact hfit.kept 0 (Nat.zero_le _) i j l l' l l' hi hj rfl rfl
  · obtain ⟨i, hi⟩ := List.mem_iff_getElem?.1 hp
    obtain ⟨j, hj⟩ := List.mem_iff_getElem?.1 hp'
    obtain ⟨l, hl⟩ := hlane hi
    obtain ⟨l', hl'⟩ := hlane hj
    exact hfit.made 0 hpos i j l l' l l' p p' hl hl' rfl rfl (hps i l p hl hi) (hps j l' p' hl' hj)
  · obtain ⟨i, hi⟩ := List.mem_iff_getElem?.1 hp
    obtain ⟨l, hl⟩ := hlane hi
    have hp := hps i l p hl hi
    exact ⟨hfit.arrays 0 hpos i l l p hl rfl hp, hfit.room 0 hpos i l l p hl rfl hp⟩

/-- A round steps the lanes on which the predicate holds. -/
theorem advancesAll_choose {ls ps : List State} (h : w.StepsTo ls ps) {mask : List Bool}
    (hmask : List.Forall₂ (fun l m => pred l = .ok m) ls mask) :
    w.AdvancesAll pred ls (Mask.choose mask ps ls) := by
  have hlength : ps.length = mask.length := by rw [← h.length, hmask.length_eq]
  refine ⟨by rw [Mask.length_choose hlength hmask.length_eq, hmask.length_eq],
    fun i l u hl hu => ?_⟩
  obtain ⟨m, hm, hholds⟩ := Outcome.exists_of_forall₂ hmask hl
  obtain ⟨p, hp, hstep⟩ := h.exists_after hl
  rw [Mask.getElem?_choose hm hp hl] at hu
  obtain rfl := Option.some.inj hu
  cases m with
  | false => exact Or.inr ⟨hholds, rfl⟩
  | true => exact Or.inl ⟨hholds, hstep⟩

/-- The batch after a round in which a lane is stepped. -/
theorem exists_advanced (hw : w.KeepsOrder) {s : State} (hs : s.Ordered) {ls : List State}
    (hls : s.flatten = .ok ls) (hplaced : ∀ l ∈ ls, w.placed l = l)
    (hlt : volume s.batchDims < UInt64.size) (hfits : w.AxesFit s.batchDims.length)
    (hfit : w.LanesFit pred s.batchDims (steps + 1) ls) {mask : List Bool}
    (hmask : List.Forall₂ (fun l m => pred l = .ok m) ls mask) (hany : true ∈ mask) :
    ∃ t next u us, (w.step s).outcome = .ok t ∧ State.select mask t s = .ok next ∧
      w.place next = .ok u ∧ u.flatten = .ok us ∧ u.batchDims = s.batchDims ∧ u.Ordered ∧
      w.AdvancesAll pred ls us ∧
      ∀ v ∈ us, w.placed v = v := by
  -- all lanes are stepped, also those that have finished: the mask chooses afterwards
  obtain ⟨ps, hps, hfits'⟩ := hfit.exists_stepsTo (exists_of_mask hmask hany)
  obtain ⟨us, hus⟩ : ∃ us, us = Mask.choose mask ps ls := ⟨_, rfl⟩
  have hadvances : w.AdvancesAll pred ls us := hus ▸ advancesAll_choose hps hmask
  have hkept : ∀ u ∈ us, ∀ u' ∈ us, u.outline = u'.outline := by
    intro u hu u' hu'
    obtain ⟨i, hi⟩ := List.mem_iff_getElem?.1 hu
    obtain ⟨j, hj⟩ := List.mem_iff_getElem?.1 hu'
    obtain ⟨l, hl, hone⟩ := hadvances.exists_before hi
    obtain ⟨l', hl', hone'⟩ := hadvances.exists_before hj
    exact hfit.kept 1 (Nat.succ_le_succ (Nat.zero_le _)) i j l l' u u' hl hl' (hone.outcome 0)
      (hone'.outcome 0)
  obtain ⟨t, next, u, ht, hnext, hplace, hflatten, hdims, hordered⟩ :=
    hps.exists_round (fun p hp => (hfits' p hp).1) (fun p hp => (hfits' p hp).2) hw hs hls hplaced
      hlt hfits hmask.length_eq.symm hany hus hkept
  refine ⟨t, next, u, us, ht, hnext, hplace, hflatten, hdims, hordered, hadvances,
    fun v hv => ?_⟩
  rw [hus] at hv
  rcases Mask.mem_of_mem_choose hv with hv | hv
  · exact hps.placed_after hv
  · exact hplaced v hv

/-- A batch on none of whose lanes the predicate holds stays as it is. -/
theorem runBatched_of_none {s : State} {ls : List State} {mask : List Bool}
    (hls : s.flatten = .ok ls) (hmask : ls.mapM pred = .ok mask) (hnone : true ∉ mask) :
    w.runBatched pred (steps + 1) s = pure s := by
  have hany : ¬ mask.any id = true := by simpa using hnone
  rw [runBatched, Traced.liftM_bind_of_ok hls, Traced.liftM_bind_of_ok hmask, if_neg hany]

/-- On the lanes of a loop that can be run the predicate gives an answer. -/
theorem LanesFit.exists_mask {ls : List State} (hfit : w.LanesFit pred dims (steps + 1) ls) :
    ∃ mask, ls.mapM pred = .ok mask := by
  obtain ⟨mask, hmask⟩ := Outcome.exists_forall₂ (R := fun l m => pred l = .ok m) fun l hl => by
    obtain ⟨i, hi⟩ := List.mem_iff_getElem?.1 hl
    obtain ⟨r, hr⟩ := hfit.own i l hi
    rw [ownRounds, Traced.outcome_bind] at hr
    obtain ⟨m, hm, -⟩ := Outcome.bind_eq_ok_iff.1 hr
    exact ⟨m, hm⟩
  exact ⟨mask, Outcome.mapM_eq_ok_iff.2 hmask⟩

/-- What a loop makes of every lane, and what it notes for it. -/
def WaitsFor (w : Workflow) (pred : State → Outcome Bool) (steps : Nat) (ls ts : List State)
    (notes : List Note) : Prop :=
  ts.length = ls.length ∧ ∀ (i : Nat) (l : State), ls[i]? = some l → ∃ r, ts[i]? = some r ∧
    (w.ownRounds pred i steps l).outcome = .ok r ∧
    Note.ofLane i notes = (w.ownRounds pred i steps l).notes ++
      (List.replicate (w.roundCount pred steps ls - w.ownCount pred i steps l)
        (w.stepAt i r).notes).flatten

/-- Where no lane is stepped any more, none waits. -/
theorem waitsFor_nil {ls : List State}
    (hown : ∀ (i : Nat) (l : State), ls[i]? = some l → w.ownRounds pred i steps l = pure l ∧
      w.ownCount pred i steps l = 0) : w.WaitsFor pred steps ls ls [] := by
  have hrounds : w.roundCount pred steps ls = 0 :=
    Nat.le_zero.1 (roundCount_le_iff.2 fun i l hl => (hown i l hl).2.le)
  refine ⟨rfl, fun i l hl => ⟨l, hl, ?_, ?_⟩⟩
  · rw [(hown i l hl).1]
    rfl
  · rw [(hown i l hl).1, hrounds, Nat.zero_sub]
    rfl

/-- A loop over a batch whose lanes fit gives every lane what its own loop makes of it. -/
theorem runBatched_waiting (hw : w.KeepsOrder) (hsigns : w.Signs) {steps : Nat} :
    ∀ {s : State} {ls : List State}, s.Ordered → s.flatten = .ok ls →
      (∀ l ∈ ls, w.placed l = l) → volume s.batchDims < UInt64.size →
      w.AxesFit s.batchDims.length → w.LanesFit pred s.batchDims steps ls →
      ∃ t ts, (w.runBatched pred steps s).outcome = .ok t ∧ t.flatten = .ok ts ∧
        w.WaitsFor pred steps ls ts (w.runBatched pred steps s).notes := by
  induction steps with
  | zero =>
    intro s ls _ hls _ _ _ _
    exact ⟨s, ls, rfl, hls, waitsFor_nil fun i l _ => ⟨rfl, rfl⟩⟩
  | succ steps ih =>
    intro s ls hs hls hplaced hlt hfits hfit
    obtain ⟨mask, hmask⟩ := hfit.exists_mask
    have hpred := Outcome.mapM_eq_ok_iff.1 hmask
    by_cases hany : true ∈ mask
    -- a round: every lane advances or waits, and what comes then is the loop with one step less
    · obtain ⟨t, next, u, us, ht, hnext, hplace, hus, hdims, hordered, hadvances, hplaced'⟩ :=
        exists_advanced hw hs hls hplaced hlt hfits hfit hpred hany
      have hmember := exists_of_mask hpred hany
      obtain ⟨r, rs, hr, hrs, hlength, hrest⟩ := ih hordered hus hplaced'
        (hdims.symm ▸ hlt) (hdims.symm ▸ hfits) (hdims.symm ▸ hadvances.lanesFit hmember hfit)
      rw [runBatched_of_round hls hmask hany ht hnext hplace]
      refine ⟨r, rs, hr, hrs, hlength.trans hadvances.1, fun i l hl => ?_⟩
      obtain ⟨v, hv, hone⟩ := hadvances.exists_next hl
      obtain ⟨y, hy, hown, hnotes⟩ := hrest i v hv
      obtain ⟨p, hp⟩ := (hfit.exists_stepAt hmember).2 i l hl
      refine ⟨y, hy, (hone.outcome steps).trans hown, ?_⟩
      rw [Note.ofLane_append, lane_notes_of_step hsigns ht hls hl, ← notes_stepAt hp, hnotes,
        hadvances.roundCount_succ hmember, hone.notes hown]
    -- all lanes have finished
    · rw [runBatched_of_none hls hmask hany]
      refine ⟨s, ls, rfl, hls, waitsFor_nil fun i l hl => ?_⟩
      obtain ⟨m, hm, hholds⟩ := Outcome.exists_of_forall₂ hpred hl
      cases m with
      | true => exact absurd (List.mem_of_getElem? hm) hany
      | false => exact ⟨ownRounds_of_false hholds, ownCount_of_false hholds⟩

/-! ## The loop -/

variable {name : String}

/-- Who is heard makes no difference to whether the lanes fit. -/
theorem LanesFit.hearing {ls : List State} (h : w.LanesFit pred dims steps ls) (name : String) :
    (w.hearing name).LanesFit pred dims steps ls where
  own := by simpa only [outcome_ownRounds_hearing] using h.own
  spare := by
    simpa only [outcome_ownRounds_hearing, ownCount_hearing, roundCount_hearing,
      outcome_stepAt_hearing] using h.spare
  kept := by simpa only [outcome_ownRounds_hearing] using h.kept
  made := by
    simpa only [outcome_ownRounds_hearing, roundCount_hearing, outcome_stepAt_hearing] using h.made
  arrays := by
    simpa only [outcome_ownRounds_hearing, roundCount_hearing, outcome_stepAt_hearing] using
      h.arrays
  room := by
    simpa only [outcome_ownRounds_hearing, roundCount_hearing, outcome_stepAt_hearing] using h.room

/-- A loop over a batch that can be placed, and whose lanes fit, succeeds. Every lane becomes what
its own loop makes of it. The events of the evaluation monitor with a name that carry the index of a
lane are those of the lane's own loop, followed by those of one more step, once for each round in
which the lane waits for others. -/
theorem runWhile_waiting (hw : w.KeepsOrder)
    (hname : ∀ slot ∈ w.monitors, slot.name = name →
      ∃ c listens, slot.monitor = .evaluation c listens)
    {s placed : State} (hs : s.Ordered) (hbatched : s.isBatched = true) {ls : List State}
    (hls : s.flatten = .ok ls) (hlt : volume s.batchDims < UInt64.size)
    (hfits : w.AxesFit s.batchDims.length) (hplace : w.place s = .ok placed)
    (hfit : w.LanesFit pred s.batchDims steps (ls.map w.placed)) :
    ∃ t ts, (w.runWhile pred steps s).outcome = .ok t ∧ t.flatten = .ok ts ∧
      ts.length = ls.length ∧ ∀ (i : Nat) (l : State),
        (ls.map w.placed)[i]? = some l → ∃ r, ts[i]? = some r ∧
          (w.ownRounds pred i steps l).outcome = .ok r ∧
          Note.ofLane i ((w.hearing name).runWhile pred steps s).notes =
            ((w.hearing name).ownRounds pred i steps l).notes ++
              (List.replicate
                (w.roundCount pred steps (ls.map w.placed) - w.ownCount pred i steps l)
                ((w.hearing name).stepAt i r).notes).flatten := by
  have hdims := batchDims_place hplace
  have hplaced : (w.hearing name).place s = .ok placed := hplace
  -- The loop is that of the workflow in which only `name` is heard, from the placed batch on. Its
  -- lanes are placed already, and a step does not change that.
  have hstays : ∀ l ∈ ls.map w.placed, (w.hearing name).placed l = l := by
    intro l hl
    obtain ⟨m, hm, rfl⟩ := List.mem_map.1 hl
    exact placed_placed w m
  have hheard : (w.hearing name).LanesFit pred placed.batchDims steps (ls.map w.placed) := by
    rw [hdims]
    exact hfit.hearing name
  obtain ⟨t, ts, ht, hts, hlength, hlanes⟩ := runBatched_waiting (hw.hearing name)
    (signs_hearing hname) (ordered_of_place hs hplace) (flatten_place hls hplace) hstays
    (hdims.symm ▸ hlt) (hdims.symm ▸ hfits) hheard
  have hrun : (w.hearing name).runWhile pred steps s =
      (w.hearing name).runBatched pred steps placed := by
    rw [runWhile, if_pos hbatched, Traced.liftM_bind_of_ok hplaced]
  rw [← hrun] at ht hlanes
  rw [outcome_runWhile_hearing] at ht
  refine ⟨t, ts, ht, hts, hlength.trans (List.length_map _), fun i l hl => ?_⟩
  obtain ⟨r, hr, hown, hnotes⟩ := hlanes i l hl
  rw [outcome_ownRounds_hearing] at hown
  rw [roundCount_hearing, ownCount_hearing] at hnotes
  exact ⟨r, hr, hown, hnotes⟩

end

/-! ## Lanes that are not inert -/

open TuningProblem (keepsOrder_echoWorkflow)

/-- Finished lanes are inert: a loop succeeds when the own loops do, and sends the events of
these. -/
def FinishedLanesInert (w : Workflow) (pred : State → Outcome Bool) (steps : Nat) (name : String)
    (s : State) : Prop :=
  ∀ ls, w.ready = true → s.isBatched = true → s.flatten = .ok ls →
    w.OwnLoopsFit pred steps ls →
    (∃ t, (w.runWhile pred steps s).outcome = .ok t) ∧
      ∀ (i : Nat) (l : State), ls[i]? = some l →
        Note.ofLane i ((w.hearing name).runWhile pred steps s).notes =
          ((w.hearing name).ownRounds pred i steps l).notes

/-- Takes the candidate for its fitness, as long as it is greater than the generation. -/
def expiringEvaluation : Problem where
  component := echoEvaluation.component
  spec := .any
  evaluate ctx l candidates := do
    let (fitness, l) ← echoEvaluation.evaluate ctx l candidates
    if fitness.data.any fun x => x ≤ ctx.generation.toFloat then
      Traced.fail (.internal (.nodeCount 0 0))
    return (fitness, l)

/-- A workflow that reports when the best fitness did not improve, with its first state. -/
def reportingStart (problem : Problem) : Outcome (Workflow × State) := do
  let w ← build echoAlgorithm problem
    [(some "best", .evaluation { stagnationWindow := some 1 } true)] none {}
  w.init.outcome

def reportingWorkflow : Workflow :=
  ((reportingStart echoEvaluation).toOption.get (by decide +kernel)).1

def expiringWorkflow : Workflow :=
  ((reportingStart expiringEvaluation).toOption.get (by decide +kernel)).1

/-- Two lanes, one of which makes one step and the other one three. -/
def reportingStack : Outcome State := do
  let (_, s) ← reportingStart echoEvaluation
  let b ← State.stack [s, s]
  b.withLeaf "algorithm.rate" (.vector [1, 3])

def reportingPair : State := reportingStack.toOption.get (by decide +kernel)

def reportingLanes : List State := reportingPair.flatten.toOption.get (by decide +kernel)

/-- Two lanes with three members, which cannot be split over two devices. -/
def unevenPair : State :=
  (pairState.withLeaf "algorithm.members" (.constant [2, 3] 0)).toOption.get (by decide +kernel)

def unevenLanes : List State := unevenPair.flatten.toOption.get (by decide +kernel)

theorem forall_of_zipIdx {α : Type} {xs : List α} {P : Nat → α → Prop}
    (h : ∀ e ∈ xs.zipIdx, P e.2 e.1) (i : Nat) (x : α) (hx : xs[i]? = some x) : P i x :=
  h (x, i) (List.mem_zipIdx_iff_getElem?.2 hx)

theorem flatten_reportingPair : reportingPair.flatten = .ok reportingLanes := Outcome.eq_ok_get _

/-- Two lanes that finish at different times. The events of the discarded steps are sent, an error
in one ends the loop, and so does a batch that cannot be placed. -/
theorem not_finishedLanesInert :
    ¬ FinishedLanesInert reportingWorkflow echoPending 5 "best" reportingPair ∧
      ¬ FinishedLanesInert expiringWorkflow echoPending 5 "best" reportingPair ∧
      ¬ FinishedLanesInert pairOnDevices (fun _ => .ok false) 5 "best" unevenPair := by
  have hfailed : ∀ {o : Outcome State}, o.toOption.isNone = true → ¬ ∃ t, o = .ok t := by
    rintro _ h ⟨t, rfl⟩
    cases h
  -- the first lane has too many events, and the other two runs have an error
  refine ⟨fun h => ?_, fun h => ?_, fun h => ?_⟩
  · have hfit : reportingWorkflow.OwnLoopsFit echoPending 5
        reportingLanes := by
      exact ownLoopsFit_of_outline (reportingLanes.headD .empty)
        (forall_of_zipIdx (by decide +kernel))
    obtain ⟨-, hnotes⟩ := h reportingLanes (by decide +kernel) (by decide +kernel)
      flatten_reportingPair hfit
    have hfirst : ∃ l, reportingLanes[0]? = some l :=
      Option.isSome_iff_exists.1 (by decide +kernel)
    obtain ⟨l, hl⟩ := hfirst
    have hcount : ∀ l ∈ reportingLanes[0]?,
        (Note.ofLane 0 ((reportingWorkflow.hearing "best").runWhile echoPending 5
          reportingPair).notes).length ≠ ((reportingWorkflow.hearing "best").ownRounds echoPending
            0 5 l).notes.length := by decide +kernel
    exact hcount l hl (congrArg List.length (hnotes 0 l hl))
  · have hfit : expiringWorkflow.OwnLoopsFit echoPending 5
        reportingLanes := by
      exact ownLoopsFit_of_outline (reportingLanes.headD .empty)
        (forall_of_zipIdx (by decide +kernel))
    exact hfailed (by decide +kernel)
      (h reportingLanes (by decide +kernel) (by decide +kernel) flatten_reportingPair hfit).1
  · have hfit : pairOnDevices.OwnLoopsFit (fun _ => .ok false) 5
        unevenLanes := by
      exact ownLoopsFit_of_outline (unevenLanes.headD .empty)
        (forall_of_zipIdx (by decide +kernel))
    exact hfailed (by decide +kernel)
      (h unevenLanes rfl (by decide +kernel) (Outcome.eq_ok_get _) hfit).1

theorem assembly_reportingWorkflow : Assembly echoAlgorithm echoEvaluation
    [(some "best", .evaluation { stagnationWindow := some 1 } true)] none {} none
    reportingWorkflow := by
  have hstart : reportingStart echoEvaluation = .ok (reportingWorkflow, _) :=
    Outcome.eq_ok_get (by decide +kernel)
  obtain ⟨w, hw, hinit⟩ := Outcome.bind_eq_ok_iff.1 hstart
  exact .init (.build hw) hinit

/-- The components of the workflow keep order, so it does. The pair was stacked from its first
state, so it is ordered and its leaves could be arrays. -/
theorem keepsOrder_reportingWorkflow :
    reportingWorkflow.KeepsOrder ∧ reportingPair.Ordered ∧ reportingPair.HoldsArrays := by
  have hempty : LocalState.Ordered [] := ⟨List.Pairwise.nil, trivial⟩
  have halgorithm : echoAlgorithm.KeepsOrder :=
    ⟨Component.startsOrdered_of_leaf rfl fun h => by
      obtain rfl := Except.ok.inj h
      exact hempty, keepsOrder_echoWorkflow.ask, keepsOrder_echoWorkflow.tell⟩
  have hproblem : echoEvaluation.KeepsOrder :=
    ⟨Component.startsOrdered_of_leaf rfl fun h => by
      obtain rfl := Except.ok.inj h
      exact hempty, keepsOrder_echoWorkflow.evaluate⟩
  have hmonitors : ∀ m ∈ [(some "best", Monitor.evaluation { stagnationWindow := some 1 } true)],
      m.2.KeepsOrder := List.forall_mem_singleton.2 (EvaluationMonitor.tracks _ true).keepsOrder
  refine ⟨assembly_reportingWorkflow.keepsOrder halgorithm hproblem hmonitors, ?_⟩
  have hpair : reportingStack = .ok reportingPair := Outcome.eq_ok_get _
  obtain ⟨⟨v, s⟩, hstart, hpair⟩ := Outcome.bind_eq_ok_iff.1 hpair
  obtain ⟨b, hb, hleaf⟩ := Outcome.bind_eq_ok_iff.1 hpair
  obtain ⟨w, hw, hinit⟩ := Outcome.bind_eq_ok_iff.1 hstart
  obtain ⟨hs, -⟩ := (Assembly.build hw).ordered_of_init halgorithm hproblem hmonitors hinit
  have hordered : ∀ x ∈ [s, s], x.Ordered := by simpa using hs
  exact ⟨(State.Ordered.stack hb hordered).withLeaf hleaf,
    (State.holdsArrays_of_stack hordered hb).withLeaf (by decide) hleaf⟩

/-- The first lane waits for two rounds, and what it notes in these is noted twice. -/
theorem runWhile_waiting_reportingPair :
    ∃ t ts l r, (reportingWorkflow.runWhile echoPending 5 reportingPair).outcome = .ok t ∧
      t.flatten = .ok ts ∧ ts.length = 2 ∧ reportingLanes[0]? = some l ∧ ts[0]? = some r ∧
      Note.ofLane 0
          ((reportingWorkflow.hearing "best").runWhile echoPending 5 reportingPair).notes =
        ((reportingWorkflow.hearing "best").ownRounds echoPending 0 5 l).notes ++
          (List.replicate 2 ((reportingWorkflow.hearing "best").stepAt 0 r).notes).flatten := by
  have hplacement : reportingWorkflow.placement = none := by decide +kernel
  have hplaced : reportingWorkflow.placed = id := by
    funext l
    rw [Workflow.placed, hplacement]
    rfl
  obtain ⟨hkeeps, hordered, harrays⟩ := keepsOrder_reportingWorkflow
  have hfit : reportingWorkflow.LanesFit echoPending reportingPair.batchDims 5
      (reportingLanes.map reportingWorkflow.placed) := by
    rw [hplaced, List.map_id]
    have hfirst : reportingLanes.headD .empty ∈ reportingLanes := by
      obtain ⟨l, rest, hcons⟩ := List.exists_cons_of_length_pos
        (show 0 < reportingLanes.length by decide +kernel)
      rw [hcons]
      exact List.mem_cons_self
    have hroom := hordered.fitsBatch_zero.of_mem_flatten rfl flatten_reportingPair hfirst
    rw [Nat.zero_add] at hroom
    exact lanesFit_of_outline (reportingLanes.headD .empty)
      (harrays.of_mem_flatten rfl flatten_reportingPair hfirst) hroom
      (forall_of_zipIdx (by decide +kernel))
  have hname : ∀ slot ∈ reportingWorkflow.monitors, slot.name = "best" →
      ∃ c listens, slot.monitor = .evaluation c listens := by
    intro slot hslot _
    obtain ⟨m, hm, he⟩ := assembly_reportingWorkflow.mem_monitors hslot
    rw [List.mem_singleton.1 hm] at he
    exact ⟨_, true, he.symm⟩
  have hfits : reportingWorkflow.AxesFit reportingPair.batchDims.length := by
    intro spec h
    rw [hplacement] at h
    cases h
  have hplace : reportingWorkflow.place reportingPair = .ok reportingPair := by
    rw [place, hplacement]
  obtain ⟨t, ts, ht, hts, hlength, hlanes⟩ := runWhile_waiting hkeeps hname hordered
    (by decide +kernel) flatten_reportingPair (by decide +kernel) hfits hplace hfit
  rw [hplaced, List.map_id] at hlanes
  obtain ⟨l, hl⟩ : ∃ l, reportingLanes[0]? = some l :=
    Option.isSome_iff_exists.1 (by decide +kernel)
  obtain ⟨r, hr, -, hnotes⟩ := hlanes 0 l hl
  have hwaits : ∀ l ∈ reportingLanes[0]?,
      reportingWorkflow.roundCount echoPending 5 reportingLanes -
        reportingWorkflow.ownCount echoPending 0 5 l = 2 := by decide +kernel
  rw [hwaits l hl] at hnotes
  exact ⟨t, ts, l, r, ht, hts, hlength.trans (by decide +kernel), hl, hr, hnotes⟩

end Workflow

end Lockstep
