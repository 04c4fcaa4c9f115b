import Lockstep.Proofs.State.Outline
import Lockstep.Proofs.Workflow.Frame
import Lockstep.Proofs.Workflow.OwnLoop

/-!
# A round of a batch that cannot fail

When every lane of a batch can be stepped on its own, from the same shapes to the same shapes
(`Workflow.StepsTo`), and what the lanes become has room for the batch axes and leaves that could be
arrays behind these, the batch can be stepped (`StepsTo.exists_step`). When, besides, what a mask
chooses has the same shapes, what is chosen can be put together and placed, so that a round of a
loop succeeds (`StepsTo.exists_round`).
-/

namespace Lockstep

namespace Workflow

variable {w : Workflow} {index : Nat} {l p : State}

/-! ## Placing a batch -/

/-- Every axis that the placement lists can be numbered behind that many batch axes. -/
def AxesFit (w : Workflow) (rank : Nat) : Prop :=
  ∀ spec, w.placement = some spec → spec.AxesFit rank

theorem nodes_place {s t : State} (h : w.place s = .ok t) : t.nodes = s.nodes := by
  obtain ⟨placement, rfl⟩ := exists_of_place h
  rfl

theorem placement_of_laneStep {next : State} (h : (w.laneStep index l).outcome = .ok next) :
    next.placement = l.placement := by
  refine of_laneStep (Q := fun t => t.placement = l.placement) ?_ rfl h
  intro u v path m hu hv
  obtain ⟨-, rfl⟩ := State.update_eq_ok_iff.1 hv
  exact hu

/-- Lanes of the same shapes that have the same shapes after a step have them before the step places
them. -/
theorem outline_laneStep {j : Nat} {l' next next' p' : State} (hl : l.outline = l'.outline)
    (hnext : (w.laneStep index l).outcome = .ok next) (hp : w.place next = .ok p)
    (hnext' : (w.laneStep j l').outcome = .ok next') (hp' : w.place next' = .ok p')
    (h : p.outline = p'.outline) : next.outline = next'.outline := by
  obtain ⟨hnodes, hdims, -⟩ := State.outline_eq_iff.1 h
  rw [nodes_place hp, nodes_place hp'] at hnodes
  rw [batchDims_place hp, batchDims_place hp'] at hdims
  refine State.outline_eq_iff.2 ⟨hnodes, hdims, ?_⟩
  rw [placement_of_laneStep hnext, placement_of_laneStep hnext']
  exact (State.outline_eq_iff.1 hl).2.2

/-- A batch can be placed when what is one of its lanes, up to placements, can. -/
theorem exists_place_of_lane {s next : State} {ls : List State} (hls : s.flatten = .ok ls)
    (hfits : w.AxesFit s.batchDims.length) (hl : l ∈ ls) (hsame : next.SameLeaves l)
    (hp : w.place next = .ok p) : ∃ t, w.place s = .ok t := by
  rw [place] at hp ⊢
  cases hplacement : w.placement with
  | none => exact ⟨s, rfl⟩
  | some spec =>
    rw [hplacement] at hp
    exact State.exists_shard_of_lane rfl hls hl (hfits spec hplacement)
      (hsame.exists_shard ⟨p, hp⟩)

theorem ensureReady_of_lane {s : State} {ls : List State} (hls : s.flatten = .ok ls) (hl : l ∈ ls)
    (h : w.ensureReady l = .ok ()) : w.ensureReady s = .ok () := by
  have hcontains : ∀ path, s.contains path = l.contains path := by
    intro path
    have hpaths := State.paths_of_mem_flatten hls l hl
    rw [State.paths, State.paths] at hpaths
    rw [State.contains, State.contains, Table.contains, Table.contains, Bool.eq_iff_iff,
      Table.get?_isSome_iff, Table.get?_isSome_iff, hpaths]
  rw [ensureReady] at h ⊢
  simp only [hcontains]
  exact h

/-- Lanes of the same shapes can be put together and placed when there is room for the batch axes,
the leaves of one of them could be arrays behind these, and it can be placed. -/
theorem exists_placed {dims : List Nat} {lanes : List State} (hcount : lanes.length = volume dims)
    (hlt : volume dims < UInt64.size) (hfits : w.AxesFit dims.length)
    (hlanes : ∀ l ∈ lanes, l.Ordered ∧ l.batchDims = [])
    (hshape : ∀ l ∈ lanes, ∀ l' ∈ lanes, l.outline = l'.outline) {next : State} (hl : l ∈ lanes)
    (hroom : l.FitsBatch dims.length) (harrays : l.FitsArrays dims) (hsame : next.SameLeaves l)
    (hp : w.place next = .ok p) :
    ∃ b t, State.unflatten dims lanes = .ok b ∧ w.place b = .ok t ∧
      t.flatten = .ok (lanes.map w.placed) ∧ t.batchDims = dims ∧ t.Ordered := by
  obtain ⟨b, hb, -⟩ := State.exists_unflatten hcount (hcount ▸ List.length_pos_of_mem hl) hlt
    (fun _ => State.fitsArrays_outline_iff.2 harrays)
    fun m hm => ⟨(hlanes m hm).1, hroom.of_outline_eq (hshape m hm l hl), hshape m hm l hl⟩
  have hdims := State.batchDims_of_unflatten (fun m hm => (hlanes m hm).2) hb
  obtain ⟨t, ht⟩ := exists_place_of_lane (State.flatten_unflatten hlanes hb) (hdims.symm ▸ hfits) hl
    hsame hp
  obtain ⟨hts, htdims, hordered⟩ := flatten_place_unflatten hlanes hb ht
  exact ⟨b, t, hb, ht, hts, htdims, hordered⟩

/-! ## A step -/

/-- Every lane can be stepped on its own, from the same shapes to the same shapes. -/
structure StepsTo (w : Workflow) (ls ps : List State) : Prop where
  length : ls.length = ps.length
  step : ∀ (i : Nat) (l p : State), ls[i]? = some l → ps[i]? = some p →
    (w.stepAt i l).outcome = .ok p
  before : ∀ l ∈ ls, ∀ l' ∈ ls, l.outline = l'.outline
  after : ∀ p ∈ ps, ∀ p' ∈ ps, p.outline = p'.outline

namespace StepsTo

variable {s : State} {ls ps : List State}

theorem exists_after (h : w.StepsTo ls ps) (hl : ls[index]? = some l) :
    ∃ p, ps[index]? = some p ∧ (w.stepAt index l).outcome = .ok p := by
  have hi : index < ps.length := h.length ▸ (List.getElem?_eq_some_iff.1 hl).1
  exact ⟨ps[index], List.getElem?_eq_getElem hi, h.step index l _ hl (List.getElem?_eq_getElem hi)⟩

theorem exists_before (h : w.StepsTo ls ps) (hp : ps[index]? = some p) :
    ∃ l, ls[index]? = some l ∧ (w.stepAt index l).outcome = .ok p := by
  have hi : index < ls.length := h.length ▸ (List.getElem?_eq_some_iff.1 hp).1
  exact ⟨ls[index], List.getElem?_eq_getElem hi, h.step index _ p (List.getElem?_eq_getElem hi) hp⟩

/-- What the lanes become is placed. -/
theorem placed_after (h : w.StepsTo ls ps) (hp : p ∈ ps) : w.placed p = p := by
  obtain ⟨i, hi⟩ := List.mem_iff_getElem?.1 hp
  obtain ⟨l, -, hstep⟩ := h.exists_before hi
  obtain ⟨-, F, -, hput⟩ := stepAt_eq_ok_iff.1 hstep
  rw [eq_placed_of_place hput, placed_placed]

/-- What the stages make of the lanes, before they are placed, has the same shapes too. -/
theorem exists_stages (h : w.StepsTo ls ps) :
    ∃ Fs, ls.length = Fs.length ∧
      (∀ (i : Nat) (l F : State), ls[i]? = some l → Fs[i]? = some F →
        (w.laneStep i l).outcome = .ok F) ∧
      List.Forall₂ (fun F p => w.place F = .ok p) Fs ps ∧
      ∀ F ∈ Fs, ∀ F' ∈ Fs, F.outline = F'.outline := by
  obtain ⟨Fs, hFs⟩ := exists_runStage_eq_ok (f := w.laneStep) fun i l hl => by
    obtain ⟨p, -, hp⟩ := h.exists_after hl
    obtain ⟨-, next, hnext, -⟩ := stepAt_eq_ok_iff.1 hp
    exact ⟨next, hnext⟩
  obtain ⟨hlength, hFs⟩ := runStage_eq_ok_iff.1 hFs
  -- a lane is placed at the end of its step, so that `ps` is `Fs` placed
  have hone : ∀ {i : Nat} {F p : State}, Fs[i]? = some F → ps[i]? = some p →
      ∃ l, ls[i]? = some l ∧ (w.laneStep i l).outcome = .ok F ∧ w.place F = .ok p := by
    intro i F p hF hp
    obtain ⟨l, hl, hstep⟩ := h.exists_before hp
    obtain ⟨-, next, hnext, hplace⟩ := stepAt_eq_ok_iff.1 hstep
    obtain rfl := Except.ok.inj (hnext.symm.trans (hFs i l F hl hF))
    exact ⟨l, hl, hnext, hplace⟩
  have hplace : List.Forall₂ (fun F p => w.place F = .ok p) Fs ps := by
    refine Outcome.forall₂_of_forall (hlength.symm.trans h.length) fun i F p hF hp => ?_
    obtain ⟨l, -, -, hput⟩ := hone hF hp
    exact hput
  refine ⟨Fs, hlength, hFs, hplace, fun F hF F' hF' => ?_⟩
  obtain ⟨i, hi⟩ := List.mem_iff_getElem?.1 hF
  obtain ⟨j, hj⟩ := List.mem_iff_getElem?.1 hF'
  obtain ⟨p, hp, -⟩ := Outcome.exists_of_forall₂ hplace hi
  obtain ⟨p', hp', -⟩ := Outcome.exists_of_forall₂ hplace hj
  obtain ⟨l, hl, hstep, hput⟩ := hone hi hp
  obtain ⟨l', hl', hstep', hput'⟩ := hone hj hp'
  exact outline_laneStep (h.before l (List.mem_of_getElem? hl) l' (List.mem_of_getElem? hl')) hstep
    hput hstep' hput' (h.after p (List.mem_of_getElem? hp) p' (List.mem_of_getElem? hp'))

/-- A batch of lanes of the same shapes can be stepped when each lane can, to the same shapes, which
arrays can have behind the batch axes, and to states that have room for these axes. -/
theorem exists_step (h : w.StepsTo ls ps) (harrays : ∀ p ∈ ps, p.FitsArrays s.batchDims)
    (hroom : ∀ p ∈ ps, p.FitsBatch s.batchDims.length) (hw : w.KeepsOrder) (hs : s.Ordered)
    (hls : s.flatten = .ok ls)
    (hlt : volume s.batchDims < UInt64.size) (hfits : w.AxesFit s.batchDims.length)
    (hl : ls[index]? = some l) :
    ∃ t, (w.step s).outcome = .ok t ∧ t.flatten = .ok ps ∧
      t.batchDims = s.batchDims ∧ t.Ordered := by
  obtain ⟨Fs, hlength, hFs, hplace, hshape⟩ := h.exists_stages
  have hlanes : ∀ F ∈ Fs, F.Ordered ∧ F.batchDims = [] := by
    intro F hF
    obtain ⟨i, l, hl, hstep⟩ := exists_lane_of_mem hlength hFs hF
    obtain ⟨hordered, hdims⟩ := lanes_of_flatten hs hls l hl
    exact ⟨hw.laneStep hordered hstep, (batchDims_of_laneStep hstep).trans hdims⟩
  have hcount : Fs.length = volume s.batchDims := by
    rw [← hlength, State.length_of_flatten rfl hls]
  -- any lane shows that the batch is ready and that it can be placed
  obtain ⟨p, hp, hstep⟩ := h.exists_after hl
  obtain ⟨F, hF, hput⟩ := Outcome.exists_of_forall₂ hplace.flip hp
  have hpmem := List.mem_of_getElem? hp
  have hFfits : F.FitsArrays s.batchDims := (harrays p hpmem).of_nodes_eq (nodes_place hput).symm
  -- the stages leave the placement of a lane as it is, and a lane of a batch has room for its axes
  have hFroom : F.FitsBatch s.batchDims.length := by
    have hlroom := hs.fitsBatch_zero.of_mem_flatten rfl hls (List.mem_of_getElem? hl)
    rw [Nat.zero_add] at hlroom
    refine State.everywhere_iff.2 ⟨?_, ?_⟩
    · rw [placement_of_laneStep (hFs index l F hl hF)]
      exact (State.everywhere_iff.1 hlroom).1
    · rw [← nodes_place hput]
      exact (State.everywhere_iff.1 (hroom p hpmem)).2
  obtain ⟨b, t, hb, ht, hts, htdims, hordered⟩ := exists_placed hcount hlt hfits hlanes hshape
    (List.mem_of_getElem? hF) hFroom hFfits (.refl F) hput
  refine ⟨t, ?_, ?_, htdims, hordered⟩
  · have hready := ensureReady_of_lane hls (List.mem_of_getElem? hl) (stepAt_eq_ok_iff.1 hstep).1
    obtain ⟨lanes, hinput, hdone⟩ := lockstep_of_laneStep hlength hFs
    rw [Workflow.step, outcome_stepBy, hready, Outcome.ok_bind, hls, Outcome.ok_bind, hinput,
      Outcome.ok_bind, hdone, Outcome.ok_bind, hb, Outcome.ok_bind, ht]
  · have hplaced : List.Forall₂ (fun F p => w.placed F = p) Fs ps :=
      hplace.imp fun F p hput => (eq_placed_of_place hput).symm
    rw [hts]
    congr 1
    rwa [← List.forall₂_eq_eq_eq, List.forall₂_map_left_iff]

end StepsTo

/-! ## A round -/

theorem select_eq {mask : List Bool} {s t : State} {ls ts : List State} (hls : s.flatten = .ok ls)
    (hts : t.flatten = .ok ts) (hdims : t.batchDims = s.batchDims) (hl : ls.length = mask.length)
    (ht : ts.length = mask.length) :
    State.select mask t s = State.unflatten s.batchDims (Mask.choose mask ts ls) := by
  have hlanes : selectLanes mask ts ls = .ok (Mask.choose mask ts ls) := by
    rw [selectLanes, if_pos (by simp [hl, ht])]
  rw [State.select, if_neg (not_not.2 hdims), hls, hts, Outcome.ok_bind, Outcome.ok_bind, hlanes,
    Outcome.ok_bind, hdims]

/-- What a round makes of the lanes of a batch: those of which the mask says so are stepped, and the
others are as before. -/
theorem StepsTo.exists_round {s : State} {ls ps : List State} (h : w.StepsTo ls ps)
    (harrays : ∀ p ∈ ps, p.FitsArrays s.batchDims)
    (hroom : ∀ p ∈ ps, p.FitsBatch s.batchDims.length) (hw : w.KeepsOrder) (hs : s.Ordered)
    (hls : s.flatten = .ok ls) (hplaced : ∀ l ∈ ls, w.placed l = l)
    (hlt : volume s.batchDims < UInt64.size) (hfits : w.AxesFit s.batchDims.length)
    {mask : List Bool} (hmask : mask.length = ls.length) (hany : true ∈ mask) {us : List State}
    (hus : us = Mask.choose mask ps ls)
    (hkept : ∀ u ∈ us, ∀ u' ∈ us, u.outline = u'.outline) :
    ∃ t next u, (w.step s).outcome = .ok t ∧ State.select mask t s = .ok next ∧
      w.place next = .ok u ∧ u.flatten = .ok us ∧ u.batchDims = s.batchDims ∧ u.Ordered := by
  obtain ⟨i, hi⟩ := List.mem_iff_getElem?.1 hany
  obtain ⟨l, hl⟩ : ∃ l, ls[i]? = some l :=
    ⟨_, List.getElem?_eq_getElem (hmask ▸ (List.getElem?_eq_some_iff.1 hi).1)⟩
  obtain ⟨t, ht, hts, htdims, htordered⟩ := h.exists_step harrays hroom hw hs hls hlt hfits hl
  have htlength : ps.length = mask.length := by rw [hmask, h.length]
  have hcount : us.length = volume s.batchDims := by
    rw [hus, Mask.length_choose htlength hmask.symm, hmask, State.length_of_flatten rfl hls]
  have hlanes : ∀ u ∈ us, u.Ordered ∧ u.batchDims = [] := by
    intro u hu
    rw [hus] at hu
    rcases Mask.mem_of_mem_choose hu with hu | hu
    · exact lanes_of_flatten htordered hts u hu
    · exact lanes_of_flatten hs hls u hu
  -- a lane that was stepped can be placed, and there is room for the batch axes in front of it
  obtain ⟨p, hp, hstep⟩ := h.exists_after hl
  obtain ⟨-, F, -, hput⟩ := stepAt_eq_ok_iff.1 hstep
  have hpmem := List.mem_of_getElem? hp
  have hchosen : us[i]? = some p := by
    rw [hus, Mask.getElem?_choose hi hp hl]
    rfl
  have hsame : F.SameLeaves p := (sameLeaves_of_place hput).symm
  obtain ⟨next, u, hnext, hu, hflatten, hdims, hordered⟩ := exists_placed hcount hlt hfits hlanes
    hkept (List.mem_of_getElem? hchosen) (hroom p hpmem) (harrays p hpmem) hsame hput
  -- what is chosen is placed already
  have hstays : us.map w.placed = us := by
    rw [List.map_congr_left fun u hu => ?_, List.map_id']
    rw [hus] at hu
    rcases Mask.mem_of_mem_choose hu with hu | hu
    · exact h.placed_after hu
    · exact hplaced u hu
  rw [hstays] at hflatten
  refine ⟨t, next, u, ht, ?_, hu, hflatten, hdims, hordered⟩
  rw [select_eq hls hts htdims hmask.symm htlength, ← hus, hnext]

end Workflow

end Lockstep
