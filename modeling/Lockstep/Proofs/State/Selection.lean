import Lockstep.Control
import Lockstep.Proofs.State.Homogeneous
import Lockstep.Proofs.State.Inverse
import Lockstep.Tensor.Basic

/-!
# Choosing lanes by a mask

`State.select` takes two batches apart, chooses whole lanes and puts these together. Batches that
can be stacked have one outline, and so have all their lanes, so the chosen lanes fit together
(`State.exists_select`). Along one batch axis that no directive splits this is the same as choosing
rows: every leaf of the result, at any depth, is what `Tensor.select` gives for the leaves of the
two batches (`State.select_lanes_and_leaves`).
-/

namespace Lockstep

/-! ## Choosing rows -/

theorem Tensor.select_eq_ok_iff {mask : List Bool} {t u v : Tensor} :
    select mask t u = .ok v ↔ ∃ inner, t.shape = mask.length :: inner ∧ u.shape = t.shape ∧
      v.shape = t.shape ∧ v.rows = Mask.choose mask t.rows u.rows := by
  rw [select]
  -- the guards of a selection in the order of its checks: the shapes, a first axis, its length
  split
  · next hsame =>
    split
    · next hnil =>
      constructor
      · nofun
      · rintro ⟨inner, hshape, -⟩
        rw [hnil] at hshape
        cases hshape
    · next count inner hshape =>
      have hlength : ∀ {w : Tensor}, w.shape = t.shape → w.rows.length = count :=
        fun hw => length_rows (hw.trans hshape)
      split
      · next hcount =>
        subst hcount
        have hchosen : (Mask.choose mask t.rows u.rows).length = mask.length :=
          Mask.length_choose (hlength rfl) (hlength hsame.symm)
        have hfull : ∀ h, (ofRows inner (Mask.choose mask t.rows u.rows) h).shape =
            mask.length :: inner := fun _ => congrArg (· :: inner) hchosen
        constructor
        · intro h
          obtain rfl := Except.ok.inj h
          exact ⟨inner, hshape, hsame.symm, (hfull _).trans hshape.symm, rows_ofRows _⟩
        · rintro ⟨-, -, -, hv, hrows⟩
          exact congrArg Except.ok
            (eq_of_rows (hfull _) (hv.trans hshape) ((rows_ofRows _).trans hrows.symm))
      · next hcount =>
        constructor
        · nofun
        · rintro ⟨inner', hshape', -⟩
          rw [hshape] at hshape'
          exact absurd (List.cons.inj hshape').1 hcount
  · next hsame =>
    constructor
    · nofun
    · rintro ⟨inner, -, hu, -⟩
      exact absurd hu.symm hsame

namespace State

/-- A tensor is chosen from two others when each of its rows is the chosen one. -/
theorem select_eq_ok_of_row {mask : List Bool} {t u v : Tensor} {inner : List Nat}
    (ht : t.shape = mask.length :: inner) (hu : u.shape = t.shape) (hv : v.shape = t.shape)
    (hrow : ∀ (i : Nat) (m : Bool), mask[i]? = some m → row i v = if m then row i t else row i u) :
    Tensor.select mask t u = .ok v := by
  refine Tensor.select_eq_ok_iff.2 ⟨inner, ht, hu, hv, List.ext_getElem? fun i => ?_⟩
  by_cases hi : i < mask.length
  · have hm : mask[i]? = some mask[i] := List.getElem?_eq_getElem hi
    rw [getElem?_rows_row (hv.trans ht) hi, Mask.getElem?_choose hm (getElem?_rows_row ht hi)
      (getElem?_rows_row (hu.trans ht) hi), hrow i _ hm]
  · have hlength : v.rows.length = mask.length ∧
        (Mask.choose mask t.rows u.rows).length = mask.length :=
      ⟨Tensor.length_rows (hv.trans ht),
        Mask.length_choose (Tensor.length_rows ht) (Tensor.length_rows (hu.trans ht))⟩
    rw [List.getElem?_eq_none (hlength.1 ▸ not_lt.1 hi),
      List.getElem?_eq_none (hlength.2 ▸ not_lt.1 hi)]

/-! ## Choosing lanes -/

/-- States that can be stacked have one outline, and leaves that could be arrays. -/
theorem outline_eq_of_stack {a b r : State} (ha : a.Ordered) (hb : b.Ordered)
    (h : stack [a, b] = .ok r) : b.outline = a.outline ∧ a.HoldsArrays := by
  have hordered : ∀ x ∈ [a, b], x.Ordered :=
    List.forall_mem_cons.2 ⟨ha, List.forall_mem_singleton.2 hb⟩
  obtain ⟨hsame, hfits⟩ := (stack_ok_iff_homogeneous hordered).1 ⟨r, h⟩
  exact ⟨hsame.outline_eq hordered b (List.mem_cons_of_mem _ List.mem_cons_self) a
    List.mem_cons_self, (hfits a List.mem_cons_self).1.tail⟩

variable {mask : List Bool} {a b s : State} {la lb : List State}

/-- From batches of one outline lanes can be chosen, which are then the lanes of a batch. -/
theorem exists_select (ha : a.Ordered) (hb : b.Ordered) (hsame : b.outline = a.outline)
    (harrays : a.HoldsArrays) (hla : a.flatten = .ok la) (hlb : b.flatten = .ok lb)
    (hmask : mask.length = volume a.batchDims) (hpos : 0 < mask.length)
    (hlt : mask.length < UInt64.size) :
    ∃ s, select mask a b = .ok s ∧ s.batchDims = a.batchDims ∧
      s.outline = a.batchDims.foldr grown ((part 0)^[a.batchDims.length] a.outline) ∧
      s.flatten = .ok (Mask.choose mask la lb) := by
  have hdims : b.batchDims = a.batchDims := (outline_eq_iff.1 hsame).2.1
  have hlena : la.length = mask.length := (length_of_flatten rfl hla).trans hmask.symm
  have hlenb : lb.length = mask.length := (length_of_flatten hdims hlb).trans hmask.symm
  have hlength : (Mask.choose mask la lb).length = volume a.batchDims :=
    (Mask.length_choose hlena hlenb).trans hmask
  -- whatever all lanes of both batches have, the chosen ones have
  have hchosen : ∀ {P : State → Prop}, (∀ l ∈ la, P l) → (∀ l ∈ lb, P l) →
      ∀ l ∈ Mask.choose mask la lb, P l := fun hPa hPb l hl =>
    (Mask.mem_of_mem_choose hl).elim (hPa l) (hPb l)
  have hordered : ∀ l ∈ Mask.choose mask la lb, l.Ordered :=
    hchosen (forall_of_flatten (fun hxs hx hy => hx.unstack hxs hy) ha hla)
      (forall_of_flatten (fun hxs hx hy => hx.unstack hxs hy) hb hlb)
  have houtline : ∀ l ∈ Mask.choose mask la lb,
      l.outline = (part 0)^[a.batchDims.length] a.outline :=
    hchosen (outline_of_mem_flatten rfl hla) (hsame ▸ outline_of_mem_flatten hdims hlb)
  have hunbatched : ∀ l ∈ Mask.choose mask la lb, l.batchDims = [] :=
    hchosen (batchDims_of_flatten rfl hla) (batchDims_of_flatten hdims hlb)
  have hroom : ∀ l ∈ Mask.choose mask la lb, l.FitsBatch a.batchDims.length := by
    refine hchosen (fun l hl => ?_) fun l hl => ?_
    · exact (Nat.zero_add _).subst (motive := l.FitsBatch)
        (ha.fitsBatch_zero.of_mem_flatten rfl hla hl)
    · exact (Nat.zero_add _).subst (motive := l.FitsBatch)
        (hb.fitsBatch_zero.of_mem_flatten hdims hlb hl)
  have hfits : ((part 0)^[a.batchDims.length] a.outline).FitsArrays a.batchDims := by
    obtain ⟨l, hl⟩ := List.exists_mem_of_length_pos (hlena ▸ hpos)
    rw [← outline_of_mem_flatten rfl hla l hl, fitsArrays_outline_iff]
    exact FitsArrays.of_mem_flatten rfl hla harrays hl
  -- so they can be put together, and come out of the batch as they went into it
  obtain ⟨s, hs, hsoutline⟩ := exists_unflatten hlength (hmask ▸ hpos) (hmask ▸ hlt)
    (fun _ => hfits) fun l hl => ⟨hordered l hl, hroom l hl, houtline l hl⟩
  refine ⟨s, ?_, batchDims_of_unflatten hunbatched hs, hsoutline, ?_⟩
  · rw [select, if_neg (not_not.2 hdims.symm), hla, hlb, Outcome.ok_bind, Outcome.ok_bind,
      selectLanes, if_pos (by simp [hlena, hlenb]), Outcome.ok_bind]
    exact hs
  · exact flatten_unflatten (fun l hl => ⟨hordered l hl, hunbatched l hl⟩) hs

/-! ## Choosing rows of all leaves -/

/-- What two batches and a batch of lanes chosen from them have at the end of a trail: nothing in
all of them, tensors of which the third one has the chosen rows, or states of which the third one
has the batch axes, nodes, attributes and placement of the first one. -/
def SelectedAt (mask : List Bool) : Option Value → Option Value → Option Value → Prop
  | none, none, none => True
  | some (.tensor t), some (.tensor u), some (.tensor v) => Tensor.select mask t u = .ok v
  | some (.state x), some (.state _), some (.state z) =>
    z.batchDims = x.batchDims ∧ z.paths = x.paths ∧ z.placement = x.placement ∧
      ∀ path, z.attributeNames path = x.attributeNames path
  | _, _, _ => False

theorem names_of_outline_eq {x z : State} (h : z.outline = x.outline) :
    z.paths = x.paths ∧ ∀ path, z.attributeNames path = x.attributeNames path := by
  have hz := z.nodes_outline_eq_mapValues
  rw [h] at hz
  have hx := x.nodes_outline_eq_mapValues
  exact ⟨(paths_of_nodes hz).symm.trans (paths_of_nodes hx), fun path =>
    (attributeNames_of_nodes hz path).symm.trans (attributeNames_of_nodes hx path)⟩

/-- States of one outline have values of one outline at the end of a trail. -/
theorem follow_of_outline_eq {x z : State} (h : z.outline = x.outline)
    (trail : List (String × String)) :
    ((Value.state z).follow trail).map Value.outline =
      ((Value.state x).follow trail).map Value.outline := by
  rw [← Value.pointwise_outline.follow, ← Value.pointwise_outline.follow]
  exact congrArg (fun o => (Value.state o).follow trail) h

/-- A state of the same outline as two others, each part of which is a part of one of these. -/
theorem selectedAt_of_parts (hparts : a.HasParts mask.length) (hb : b.outline = a.outline)
    (hs : s.outline = a.outline)
    (hpart : ∀ (i : Nat) (m : Bool), mask[i]? = some m →
      s.part i = if m then a.part i else b.part i)
    (trail : List (String × String)) :
    SelectedAt mask ((Value.state a).follow trail) ((Value.state b).follow trail)
      ((Value.state s).follow trail) := by
  have hfollowb := follow_of_outline_eq hb trail
  have hfollows := follow_of_outline_eq hs trail
  -- as they have one outline, all three have nothing there, or a tensor of one shape, or a state
  cases ha : (Value.state a).follow trail with
  | none =>
    rw [ha, Option.map_none, Option.map_eq_none_iff] at hfollowb hfollows
    rw [hfollowb, hfollows]
    trivial
  | some va =>
    rw [ha, Option.map_some] at hfollowb hfollows
    obtain ⟨vb, hvb, hob⟩ := Option.map_eq_some_iff.1 hfollowb
    obtain ⟨vs, hvs, hos⟩ := Option.map_eq_some_iff.1 hfollows
    rw [hvb, hvs]
    cases va with
    | state x =>
      obtain ⟨y, rfl, -⟩ := outline_eq_state hob
      obtain ⟨z, rfl, hz⟩ := outline_eq_state hos
      obtain ⟨-, hdims, hplacement⟩ := outline_eq_iff.1 hz
      obtain ⟨hpaths, hnames⟩ := names_of_outline_eq hz
      exact ⟨hdims, hpaths, hplacement, hnames⟩
    | tensor t =>
      obtain ⟨u, rfl, hu⟩ := outline_eq_tensor hob
      obtain ⟨v, rfl, hv⟩ := outline_eq_tensor hos
      obtain ⟨inner, hshape⟩ : (Value.tensor t).HasParts mask.length :=
        Value.HasParts.follow (v := .state a) hparts ha
      refine select_eq_ok_of_row hshape hu hv fun i m hm => ?_
      have hrow : ∀ {x : State} {w : Tensor}, (Value.state x).follow trail = some (.tensor w) →
          (Value.state (x.part i)).follow trail = some (.tensor (row i w)) := by
        intro x w hw
        have hfollow := (Value.pointwise_part i).follow trail (.state x)
        rwa [hw] at hfollow
      -- part `i` of the third state is that of the first or the second one, and so is its row
      have hone := hrow hvs
      rw [hpart i m hm] at hone
      cases m with
      | true => exact Value.tensor.inj (Option.some.inj (hone.symm.trans (hrow ha)))
      | false => exact Value.tensor.inj (Option.some.inj (hone.symm.trans (hrow hvb)))

/-- A batch, no outermost batch axis in which is split, has the outline of its parts behind that
axis. -/
theorem outline_of_outermostWhole {xs : List State} (ha : a.Ordered)
    (hwhole : a.Everywhere outermostWhole) (harrays : a.HoldsArrays) (hxs : a.unstack = .ok xs)
    (hne : xs ≠ []) : a.outline = (a.outline.part 0).grown xs.length := by
  have hpart : ∀ x ∈ xs, x.Everywhere stackable ∧ x.outline = a.outline.part 0 := by
    intro x hx
    obtain ⟨j, hj⟩ := List.mem_iff_getElem?.1 hx
    obtain ⟨hlt, hxj⟩ := (getElem?_of_unstack hxs).1 hj
    exact ⟨(ha.unstack hxs hx).and (ha.fitsBatch_zero.unstack hxs hx),
      hxj ▸ outline_part hlt (unstack_eq_ok_iff_parts.1 hxs).1⟩
  -- the parts stack to the batch again, because no split is lost
  have hstack := stack_of_unstack ha hwhole harrays hxs hne
  have hfits := FitsArrays.of_stack (fun x hx => ha.unstack hxs hx) hstack
  cases xs with
  | nil => exact absurd rfl hne
  | cons x others =>
    obtain ⟨⟨hx, hxo⟩, hothers⟩ := List.forall_mem_cons.1 hpart
    obtain ⟨r, hr, houtline⟩ := exists_stackOnto hx (hfits x List.mem_cons_self) fun o ho =>
      (hothers o ho).2.trans hxo.symm
    obtain rfl : r = a := Except.ok.inj (hr.symm.trans hstack)
    rw [hxo] at houtline
    exact houtline

/-- **Choosing lanes and choosing rows agree.** From two batches that can be stacked and a mask of
as many places as they have lanes, lane by lane one of them is chosen, along any number of batch
axes. Along one axis, of which no state in the first batch splits the outermost one, the result has
the nodes, attributes, batch axes and placement of the first batch at every depth, and in every leaf
the rows that the mask chooses. The places of a mask are numbered by words. -/
theorem select_lanes_and_leaves (mask : List Bool) (a b r : State) (la lb : List State)
    (ha : a.Ordered) (hb : b.Ordered) (hr : stack [a, b] = .ok r) (hla : a.flatten = .ok la)
    (hlb : b.flatten = .ok lb) (hmask : mask.length = volume a.batchDims) (hpos : 0 < mask.length)
    (hlt : mask.length < UInt64.size) :
    ∃ s ls, select mask a b = .ok s ∧ s.batchDims = a.batchDims ∧ s.flatten = .ok ls ∧
      ls.length = mask.length ∧
      (∀ (i : Nat) (m : Bool) (l l' : State), mask[i]? = some m → la[i]? = some l →
        lb[i]? = some l' → ls[i]? = some (if m then l else l')) ∧
      ∀ n, a.batchDims = [n] → a.Everywhere outermostWhole → ∀ trail,
        SelectedAt mask ((Value.state a).follow trail) ((Value.state b).follow trail)
          ((Value.state s).follow trail) := by
  obtain ⟨hsame, harrays⟩ := outline_eq_of_stack ha hb hr
  have hdims : b.batchDims = a.batchDims := (outline_eq_iff.1 hsame).2.1
  have hlena : la.length = mask.length := (length_of_flatten rfl hla).trans hmask.symm
  have hlenb : lb.length = mask.length := (length_of_flatten hdims hlb).trans hmask.symm
  obtain ⟨s, hs, hsdims, hsoutline, hls⟩ := exists_select ha hb hsame harrays hla hlb hmask hpos hlt
  refine ⟨s, _, hs, hsdims, hls, Mask.length_choose hlena hlenb,
    fun i m l l' hm hl hl' => Mask.getElem?_choose hm hl hl', fun n hn hwhole trail => ?_⟩
  -- along one batch axis the lanes are the parts
  have hunstack : ∀ {x : State} {ls : List State}, x.batchDims = a.batchDims → x.flatten = .ok ls →
      x.unstack = .ok ls := by
    intro x ls hx h
    obtain ⟨xs, hxs, hdone⟩ := (flatten_cons_eq_ok_iff (hx.trans hn)).1 h
    rwa [Except.ok.inj hdone] at hxs
  have ha' := hunstack rfl hla
  have hb' := hunstack hdims hlb
  have hs' := hunstack hsdims hls
  have hparts : a.HasParts mask.length := hlena ▸ (unstack_eq_ok_iff_parts.1 ha').1
  -- nothing of the outline is lost when the first batch is taken apart and put together
  have houtline : s.outline = a.outline := by
    have hcount : la.length = n := by
      rw [length_of_flatten hn hla, volume_cons, volume_nil, Nat.mul_one]
    have hne : la ≠ [] := List.length_pos_iff.1 (hlena ▸ hpos)
    rw [hsoutline, hn]
    exact hcount ▸ (outline_of_outermostWhole ha hwhole harrays ha' hne).symm
  refine selectedAt_of_parts hparts hsame houtline (fun i m hm => ?_) trail
  have hi : i < mask.length := (List.getElem?_eq_some_iff.1 hm).1
  have hchosen := Mask.getElem?_choose hm ((getElem?_of_unstack ha').2 ⟨hlena ▸ hi, rfl⟩)
    ((getElem?_of_unstack hb').2 ⟨hlenb ▸ hi, rfl⟩)
  exact ((getElem?_of_unstack hs').1 hchosen).2.symm

/-- The first lane of one batch and the second one of another, in which a leaf has other numbers. -/
theorem select_lanes_and_leaves_splitSpecimen :
    ∃ l a b s x y x' y', (splitSpecimen 0).withLeaf "p.x" (.vector [3, 4]) = .ok l ∧
      stack [splitSpecimen 0, splitSpecimen 0] = .ok a ∧ stack [l, l] = .ok b ∧
      select [true, false] a b = .ok s ∧ a.flatten = .ok [x, y] ∧ b.flatten = .ok [x', y'] ∧
      s.flatten = .ok [x, y'] ∧
      ∀ trail, SelectedAt [true, false] ((Value.state a).follow trail)
        ((Value.state b).follow trail)
        ((Value.state s).follow trail) := by
  obtain ⟨rest, h⟩ := Outcome.exists_eq_ok (o := do
    let l ← (splitSpecimen 0).withLeaf "p.x" (.vector [3, 4])
    let a ← stack [splitSpecimen 0, splitSpecimen 0]
    let b ← stack [l, l]
    let r ← stack [a, b]
    return (r, ← a.flatten, ← b.flatten)) (by decide +kernel)
  obtain ⟨l, hl, h⟩ := Outcome.bind_eq_ok_iff.1 h
  obtain ⟨a, ha, h⟩ := Outcome.bind_eq_ok_iff.1 h
  obtain ⟨b, hb, h⟩ := Outcome.bind_eq_ok_iff.1 h
  obtain ⟨r, hr, h⟩ := Outcome.bind_eq_ok_iff.1 h
  obtain ⟨la, hla, h⟩ := Outcome.bind_eq_ok_iff.1 h
  obtain ⟨lb, hlb, -⟩ := Outcome.bind_eq_ok_iff.1 h
  have hbuilt : Built a := .stack (by simp [built_splitSpecimen]) ha
  have hordered : b.Ordered :=
    Ordered.stack hb (by simp [((ordered_splitSpecimen 0).withLeaf hl)])
  have hdims : a.batchDims = [2] := batchDims_of_stack ha List.mem_cons_self
  have hdimsb : b.batchDims = [2] :=
    (outline_eq_iff.1 (outline_eq_of_stack hbuilt.ordered hordered hr).1).2.1.trans hdims
  obtain ⟨x, y, rfl⟩ := List.length_eq_two.1 (length_of_flatten hdims hla)
  obtain ⟨x', y', rfl⟩ := List.length_eq_two.1 (length_of_flatten hdimsb hlb)
  obtain ⟨s, ls, hs, -, hls, hlength, hlanes, hleaves⟩ :=
    select_lanes_and_leaves [true, false] a b r _ _ hbuilt.ordered hordered hr hla hlb
      (by rw [hdims]; rfl) (by decide) (by decide)
  obtain ⟨z, z', rfl⟩ := List.length_eq_two.1 hlength
  obtain rfl : z = x := Option.some.inj (hlanes 0 true x x' rfl rfl rfl)
  obtain rfl : z' = y' := Option.some.inj (hlanes 1 false y y' rfl rfl rfl)
  exact ⟨l, a, b, s, z, y, x', z', hl, ha, hb, hs, hla, hlb, hls,
    hleaves 2 hdims (hbuilt.splitsInside.imp fun _ => splitsInside.outermostWhole)⟩

end State

end Lockstep
