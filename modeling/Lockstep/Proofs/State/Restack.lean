import Lockstep.Proofs.State.Ordered

/-!
# Taking apart what was stacked

Taking a stacked batch apart gives the states back as they were, at every depth, placements included
(`unstack_stack`): what stacking adds in front of the tensors, the axes and the directives, taking
apart removes, and a directive that could not be moved would have ended the stacking.
-/

namespace Lockstep

namespace State

/-! ## Local states that were stacked have the same attributes -/

theorem mem_keys_of_stackLocal {path : String} :
    ∀ {l : List (String × Value)} {others : List LocalState} {r : List (String × Value)},
      stackLocal path l others = .ok r →
        ∀ other ∈ others, ∀ name ∈ Table.keys l, name ∈ Table.keys other
  | [], _, _, _, _, _, _, hname => by cases hname
  | (n, v) :: rest, others, r, h, other, hother, name, hname => by
    obtain ⟨vs, hvs, -, -, more, hmore, -⟩ := stackLocal_cons_eq_ok_iff.1 h
    rcases List.mem_cons.1 hname with rfl | hname
    · obtain ⟨u, -, hu⟩ := Outcome.exists_left_of_mem hvs.flip hother
      exact Table.mem_keys_of_mem (Table.mem_of_get?_eq_some hu)
    · exact mem_keys_of_stackLocal hmore other hother name hname

/-- A local state that was stacked onto another one of its length has its attributes. -/
theorem keys_eq_of_stackLocal {path : String} {l : LocalState} {others : List LocalState}
    {r : List (String × Value)} (h : stackLocal path l others = .ok r) (hl : Table.Sorted l)
    {other : LocalState} (hmem : other ∈ others) (hother : Table.Sorted other)
    (hlen : other.length = l.length) : Table.keys other = Table.keys l :=
  Table.keys_eq_of_subset hl hother hlen (mem_keys_of_stackLocal h other hmem)

theorem pick_of_stackLocal {path : String} {l : LocalState} {others : List LocalState}
    {r : List (String × Value)} (h : stackLocal path l others = .ok r) (hl : Table.Sorted l)
    {other : LocalState} (hmem : other ∈ others) (hother : Table.Sorted other)
    (hlen : other.length = l.length) : Table.pick (Table.keys l) other = other := by
  rw [← keys_eq_of_stackLocal h hl hmem hother hlen]
  exact Table.pick_keys hother.nodup

theorem ordered_of_mem_localsAt {path : String} {others : List State}
    (hpaths : ∀ o ∈ others, path ∈ o.paths) (hothers : ∀ o ∈ others, o.Ordered) :
    ∀ other ∈ localsAt path others, LocalState.Ordered other := by
  intro other hother
  obtain ⟨o, ho, rfl⟩ := List.mem_map.1 hother
  obtain ⟨l, hl⟩ := Option.isSome_iff_exists.1 (Table.get?_isSome_iff.2 (hpaths o ho))
  rw [hl]
  exact (hothers o ho).resolve (resolve_eq_ok_iff.2 hl)

/-- Attributes put in front of parts, one value for each. -/
theorem zipWith_pick {name : String} {names : List String} {others : List LocalState}
    {vs : List Value}
    (h : List.Forall₂ (fun (l : LocalState) v => Table.get? name l = some v) others vs) :
    List.zipWith (fun v l => (name, v) :: l) vs (others.map (Table.pick names)) =
      others.map (Table.pick (name :: names)) := by
  induction h with
  | nil => rfl
  | @cons l v others vs hget _ ih =>
    rw [List.map_cons, List.map_cons, List.zipWith_cons_cons, ih, Table.pick_cons hget]

theorem localsAt_pick {path : String} {paths : List String} {others : List State}
    (h : ∀ o ∈ others, path ∈ o.paths) :
    List.zipWith (fun l nodes => (path, l) :: nodes) (localsAt path others)
        (others.map fun o => Table.pick paths o.nodes) =
      others.map fun o => Table.pick (path :: paths) o.nodes := by
  induction others with
  | nil => rfl
  | cons o others ih =>
    obtain ⟨ho, hothers⟩ := List.forall_mem_cons.1 h
    obtain ⟨l, hl⟩ := Option.isSome_iff_exists.1 (Table.get?_isSome_iff.2 ho)
    have hrest := ih hothers
    simp only [localsAt, List.map_cons, List.zipWith_cons_cons, List.cons.injEq] at hrest ⊢
    refine ⟨?_, hrest⟩
    rw [Table.pick_cons hl, hl, Option.getD_some]

/-- A part of a stacked state, made of the nodes that come back. -/
theorem partWith_outward (nodes' nodes : List (String × List (String × Value))) (count : Nat)
    (dims : List Nat) {placement moved : List (String × Directive)}
    (h : placementOutward placement = .ok moved) :
    partWith ⟨nodes', count :: dims, moved⟩ nodes = ⟨nodes, dims, placement⟩ := by
  rw [partWith, mapValues_inward_of_outward h, List.tail_cons]

/-! ## The states come back -/

mutual

theorem unstackValue_stackValue :
    ∀ {v : Value} {qualified : String} {vs : List Value} {r : Value},
      stackValue qualified v vs = .ok r → v.Everywhere tablesAscend →
        (∀ u ∈ vs, u.Everywhere tablesAscend) →
        unstackValue r = .ok (v :: vs)
  | .tensor t, qualified, vs, r, h, _, _ => by
    obtain ⟨ts, rfl, hshape, -, rfl⟩ := stackValue_tensor_eq_ok_iff.1 h
    refine unstackValue_tensor_eq_ok_iff.2 ⟨⟨_, _, rfl⟩, ?_⟩
    rw [Tensor.rows_ofRows, List.map_cons]
  | .state s, qualified, vs, r, h, hs, hvs => by
    obtain ⟨ss, rfl, x, hx, rfl⟩ := stackValue_state_eq_ok_iff.1 h
    have hunstack := unstack_stackOnto hx hs fun o ho => hvs (.state o) (List.mem_map_of_mem ho)
    exact unstackValue_state_eq_ok_iff.2 ⟨_, hunstack, (List.map_cons ..).symm⟩

/-- Taking apart what was stacked. -/
theorem unstack_stackOnto :
    ∀ {s : State} {others : List State} {r : State},
      stackOnto s others = .ok r → s.Ordered → (∀ o ∈ others, o.Ordered) →
        r.unstack = .ok (s :: others)
  | ⟨nodes, dims, placement⟩, others, r, h, hs, hothers => by
    obtain ⟨hcheck, nodes', hstack, moved, hmoved, rfl⟩ := stackOnto_eq_ok_iff.1 h
    obtain ⟨⟨hnodes, hlocals⟩, heverywhere⟩ := hs
    have hunstack := unstackNodes_stackNodes hstack hlocals heverywhere
      (fun o ho path hpath => (hcheck o ho).2.1 ▸ hpath) hothers
    -- the others have the same paths in the same order, so picking these changes nothing
    have hpick : (others.map fun o => Table.pick (Table.keys nodes) o.nodes) =
        others.map State.nodes := by
      refine List.map_congr_left fun o ho => ?_
      have hkeys : Table.keys o.nodes = Table.keys nodes := (hcheck o ho).2.1
      rw [← hkeys]
      exact Table.pick_keys (ordered_iff.1 (hothers o ho)).1.nodup
    refine unstack_eq_ok_iff.2 ⟨_, _, rfl, _, hunstack, ?_⟩
    rw [hpick, List.map_cons, partWith_outward _ _ _ _ hmoved, List.map_map]
    congr 1
    refine (List.map_id others).symm.trans (List.map_congr_left fun o ho => ?_)
    -- every other state has the axes and the placement of the first one
    obtain ⟨hdims, -, hplacement⟩ := hcheck o ho
    obtain ⟨nodes'', dims', placement'⟩ := o
    obtain rfl : dims' = dims := hdims
    obtain rfl : placement' = placement := hplacement
    exact (partWith_outward _ _ _ _ hmoved).symm

theorem unstackNodes_stackNodes :
    ∀ {nodes : List (String × List (String × Value))} {others : List State}
      {r : List (String × List (String × Value))},
      stackNodes nodes others = .ok r → (∀ e ∈ nodes, Table.Sorted e.2) →
        nodesEverywhere tablesAscend nodes →
        (∀ o ∈ others, ∀ path ∈ Table.keys nodes, path ∈ o.paths) → (∀ o ∈ others, o.Ordered) →
        unstackNodes (others.length + 1) r =
          .ok (nodes :: others.map fun o => Table.pick (Table.keys nodes) o.nodes)
  | [], others, r, h, _, _, _, _ => by
    rw [stackNodes] at h
    rw [← Except.ok.inj h, unstackNodes]
    congr 1
    exact (List.eq_replicate_iff.2 ⟨by simp, by simp [Table.pick]⟩).symm
  | (path, l) :: rest, others, r, h, hsorted, ⟨hl, hrest⟩, hpaths, hothers => by
    obtain ⟨stacked, hstacked, hlen, more, hmore, rfl⟩ := stackNodes_cons_eq_ok_iff.1 h
    obtain ⟨hlsorted, hsorted⟩ := List.forall_mem_cons.1 hsorted
    -- the paths agree, so each of the others has a node here
    have hlocals :=
      ordered_of_mem_localsAt (fun o ho => hpaths o ho path List.mem_cons_self) hothers
    have hlocal := unstackLocal_stackLocal hstacked hl fun other ho => (hlocals other ho).2
    have hnodes := unstackNodes_stackNodes hmore hsorted hrest
      (fun o ho p hp => hpaths o ho p (List.mem_cons_of_mem _ hp)) hothers
    -- and as many attributes there, so these are the same ones
    have hpick : (localsAt path others).map (Table.pick (Table.keys l)) = localsAt path others := by
      rw [List.map_congr_left fun other ho =>
        pick_of_stackLocal hstacked hlsorted ho (hlocals other ho).1 (hlen other ho)]
      exact List.map_id'' (fun _ => rfl) _
    rw [localsAt, List.length_map, ← localsAt, hpick] at hlocal
    refine unstackNodes_cons_eq_ok_iff.2 ⟨_, hlocal, _, hnodes, ?_⟩
    rw [List.zipWith_cons_cons, localsAt_pick fun o ho => hpaths o ho path List.mem_cons_self]
    rfl

theorem unstackLocal_stackLocal :
    ∀ {l : List (String × Value)} {path : String} {others : List LocalState}
      {r : List (String × Value)},
      stackLocal path l others = .ok r → localEverywhere tablesAscend l →
        (∀ o ∈ others, localEverywhere tablesAscend o) →
        unstackLocal (others.length + 1) path r =
          .ok (l :: others.map (Table.pick (Table.keys l)))
  | [], path, others, r, h, _, _ => by
    rw [stackLocal] at h
    rw [← Except.ok.inj h, unstackLocal]
    congr 1
    exact (List.eq_replicate_iff.2 ⟨by simp, by simp [Table.pick]⟩).symm
  | (name, v) :: rest, path, others, r, h, ⟨hv, hrest⟩, hothers => by
    obtain ⟨vs, hvs, w, hw, more, hmore, rfl⟩ := stackLocal_cons_eq_ok_iff.1 h
    -- a column takes one value from each of the other local states
    have hvalues : ∀ u ∈ vs, u.Everywhere tablesAscend := by
      intro u hu
      obtain ⟨o, ho, hget⟩ := Outcome.exists_left_of_mem hvs hu
      exact localEverywhere_iff.1 (hothers o ho) (name, u) (Table.mem_of_get?_eq_some hget)
    have hvalue := unstackValue_stackValue hw hv hvalues
    have hlocal := unstackLocal_stackLocal hmore hrest hothers
    have hlength : (v :: vs).length = others.length + 1 := by
      rw [List.length_cons, hvs.length_eq]
    refine unstackLocal_cons_eq_ok_iff.2 ⟨_, hvalue, hlength, _, hlocal, ?_⟩
    rw [List.zipWith_cons_cons, zipWith_pick hvs]
    rfl

end

/-- **Taking apart what was stacked gives the states back.** -/
theorem unstack_stack {xs : List State} {s : State} (hxs : ∀ x ∈ xs, x.Ordered)
    (h : stack xs = .ok s) : s.unstack = .ok xs := by
  cases xs with
  | nil => cases h
  | cons x others =>
    obtain ⟨hx, hothers⟩ := List.forall_mem_cons.1 hxs
    exact unstack_stackOnto h hx hothers

end State

end Lockstep
