import Lockstep.Proofs.State.Arrays
import Lockstep.Proofs.State.Restack
import Lockstep.Proofs.State.Shard

/-!
# Stacking what was taken apart

A split of the batch axis is lost when a batch is taken apart, so stacking the parts gives the batch
back only when none of its directives has one (`stack_of_unstack`). No state that the operations on
states build has one: every split axis comes after all batch axes (`Built.splitsInside`), at every
depth. Hence stacking and taking apart undo each other on these states (`stack_unstack_inverse`).
-/

namespace Lockstep.State

/-! ## Split axes come after all batch axes -/

/-- The directive does not split one of the first axes. -/
def splitsAfter (rank : Nat) : Directive → Prop
  | .replicated => True
  | .split axis _ => rank ≤ axis.toNat

/-- No directive of a state splits a batch axis. -/
def splitsInside (s : State) : Prop := ∀ e ∈ s.placement, splitsAfter s.batchDims.length e.2

/-- No directive of a state splits its outermost batch axis, if it has one. -/
def outermostWhole (s : State) : Prop := s.batchDims ≠ [] → ∀ e ∈ s.placement, splitsAfter 1 e.2

/-- If no batch axis is split, the outermost one is not. -/
theorem splitsInside.outermostWhole {s : State} (h : splitsInside s) : outermostWhole s := by
  intro hbatched e he
  have hone : 1 ≤ s.batchDims.length := List.length_pos_iff.2 hbatched
  have hsplits := h e he
  cases hd : e.2 with
  | replicated => trivial
  | split axis devices =>
    rw [hd] at hsplits
    exact hone.trans hsplits

/-- A directive that moves outward goes behind one more axis. -/
theorem splitsAfter_outward {rank : Nat} {d d' : Directive} (h : splitsAfter rank d)
    (hd : d.outward = .ok d') : splitsAfter (rank + 1) d' := by
  cases d with
  | replicated =>
    obtain rfl := Except.ok.inj hd
    trivial
  | split axis devices =>
    obtain ⟨next, hnext, rfl⟩ := Directive.outward_eq_ok_split_iff.1 hd
    simp only [splitsAfter] at h ⊢
    omega

/-- One that moves inward loses an axis in front of it. -/
theorem splitsAfter_inward {rank : Nat} {d : Directive} (h : splitsAfter rank d) :
    splitsAfter (rank - 1) d.inward := by
  cases d with
  | replicated => trivial
  | split axis devices =>
    rw [Directive.inward]
    -- a split of the axis that is taken away becomes no split at all
    by_cases haxis : axis = 0
    · rw [if_pos haxis]
      trivial
    · rw [if_neg haxis]
      have hnat := Directive.toNat_pred haxis
      simp only [splitsAfter] at h ⊢
      omega

/-- A directive that splits no batch axis moves inward and back again. -/
theorem outward_inward_of_splitsAfter {rank : Nat} {d : Directive} (h : splitsAfter rank d)
    (hrank : rank ≠ 0) : d.inward.outward = .ok d := by
  cases d with
  | replicated => rfl
  | split axis devices =>
    -- axis 0 is a batch axis, which is not split
    refine Directive.outward_inward fun haxis => hrank ?_
    simpa [splitsAfter, haxis] using h

/-- Stacking splits no batch axis. -/
theorem stackGives_splitsInside : StackGives splitsInside splitsInside := by
  intro s others r h hinside _
  obtain ⟨-, nodes, -, moved, hmoved, rfl⟩ := stackOnto_eq_ok_iff.1 h
  intro e he
  obtain ⟨e', he', -, hd⟩ := Outcome.exists_left_of_mem (placementOutward_eq_ok_iff.1 hmoved) he
  exact splitsAfter_outward (hinside e' he') hd

/-- Taking apart splits none either. -/
theorem unstackKeeps_splitsInside : UnstackKeeps splitsInside := by
  intro s xs x h hinside hx
  obtain ⟨count, dims, hdims, lanes, -, rfl⟩ := unstack_eq_ok_iff.1 h
  obtain ⟨lane, -, rfl⟩ := List.mem_map.1 hx
  intro e he
  obtain ⟨e', he', rfl⟩ := List.mem_map.1 he
  rw [partWith, List.length_tail]
  exact splitsAfter_inward (hinside e' he')

/-! ## Parts stacked again -/

/-- What stacking the parts of a batch relies on: the tables ascend, no directive is lost with the
outermost axis, and the leaves could be arrays. -/
def restackable (s : State) : Prop := s.tablesAscend ∧ s.outermostWhole ∧ s.leavesFit []

/-- A table has all the given entries. -/
def holdsAll {α : Type} (t : Table α) (entries : Table α) : Prop :=
  ∀ e ∈ entries, Table.get? e.1 t = some e.2

/-- A sorted table has all its entries. -/
theorem holdsAll_self {α : Type} {t : Table α} (h : t.Sorted) : holdsAll t t :=
  fun _ he => Table.get?_eq_some_of_mem h.nodup he

/-- Entries that were put in front of lists are found with the lists. -/
theorem forall₂_zipWith_cons {α β : Type} {find : β → Table α} {key : String} :
    ∀ {others : List β} {vs : List α} {rests : List (Table α)}, vs.length = rests.length →
      List.Forall₂ (fun o lane => holdsAll (find o) lane) others
        (List.zipWith (fun v rest => (key, v) :: rest) vs rests) →
      List.Forall₂ (fun o v => Table.get? key (find o) = some v) others vs ∧
        List.Forall₂ (fun o rest => holdsAll (find o) rest) others rests
  | others, [], rests, hl, h => by
    obtain rfl := List.eq_nil_of_length_eq_zero hl.symm
    cases h
    exact ⟨.nil, .nil⟩
  | others, v :: vs, [], hl, _ => by cases hl
  | others, v :: vs, rest :: rests, hl, h => by
    rw [List.zipWith_cons_cons] at h
    cases h with
    | cons ho hothers =>
      obtain ⟨hv, hrest⟩ := List.forall_mem_cons.1 ho
      obtain ⟨hvs, hrests⟩ := forall₂_zipWith_cons (Nat.succ.inj hl) hothers
      exact ⟨.cons hv hvs, .cons hrest hrests⟩

mutual

/-- A value that came apart is stacked to what it was, whatever it contains. -/
theorem stackValue_unstackValue :
    ∀ {v : Value} {part : Value} {parts : List Value}, unstackValue v = .ok (part :: parts) →
      v.LeafFits [] → v.Everywhere restackable →
        ∀ qualified, stackValue qualified part parts = .ok v
  | .tensor t, part, parts, h, harray, _, qualified => by
    obtain ⟨⟨count, inner, hshape⟩, hparts⟩ := unstackValue_tensor_eq_ok_iff.1 h
    have hinner := Tensor.shape_mem_rows hshape
    -- there is a first part, so there is a first row
    cases hrows : t.rows with
    | nil => rw [hrows] at hparts; cases hparts
    | cons r rs =>
      rw [hrows, List.map_cons] at hparts
      obtain ⟨rfl, rfl⟩ := List.cons.inj hparts
      have hr : r.shape = inner := hinner r (hrows ▸ List.mem_cons_self)
      refine stackValue_tensor_eq_ok_iff.2 ⟨rs, rfl, fun u hu => ?_, ?_, ?_⟩
      · rw [hr]
        exact hinner u (hrows ▸ hu)
      · have hlength := Tensor.length_rows hshape
        rw [hrows, List.length_cons] at hlength
        rw [Value.LeafFits, hshape, ← hlength] at harray
        rw [hr]
        exact harray
      · have hback := Tensor.ofRows_rows hshape hinner
        simp only [hrows] at hback
        subst hr
        rw [hback]
  | .state s, part, parts, h, _, hs, qualified => by
    obtain ⟨ss, hss, hparts⟩ := unstackValue_state_eq_ok_iff.1 h
    cases ss with
    | nil => cases hparts
    | cons x others =>
      rw [List.map_cons] at hparts
      obtain ⟨rfl, rfl⟩ := List.cons.inj hparts
      exact stackValue_state_eq_ok_iff.2 ⟨others, rfl, s, stackOnto_unstack hss hs, rfl⟩

/-- Stacking the parts of a batch. -/
theorem stackOnto_unstack :
    ∀ {s : State} {x : State} {others : List State}, s.unstack = .ok (x :: others) →
      s.Everywhere restackable → stackOnto x others = .ok s
  | ⟨nodes, dims, placement⟩, x, others, h, ⟨⟨⟨hnodes, hlocals⟩, hsplits, harrays⟩, hinside⟩ => by
    obtain ⟨count, dims', rfl, lanes, hlanes, hparts⟩ := unstack_eq_ok_iff.1 h
    obtain rfl := length_of_unstackNodes hlanes
    cases lanes with
    | nil => cases hparts
    | cons lane lanes =>
      rw [List.map_cons] at hparts
      obtain ⟨rfl, rfl⟩ := List.cons.inj hparts
      have hkeys := fun {lane'} (hmem : lane' ∈ lane :: lanes) => keys_of_unstackNodes hlanes hmem
      -- each part finds its own entries, because its tables ascend
      have hheld : List.Forall₂ (fun (o : State) entries => holdsAll o.nodes entries)
          (lanes.map (partWith ⟨nodes, (lane :: lanes).length :: dims', placement⟩)) lanes := by
        rw [List.forall₂_map_left_iff, List.forall₂_same]
        intro lane' hmem
        exact holdsAll_self (hnodes.of_keys (hkeys (List.mem_cons_of_mem _ hmem)))
      have hstack := stackNodes_unstackNodes hlanes (fun e he => ⟨hlocals e he, harrays e he⟩)
        hinside hheld
      refine stackOnto_eq_ok_iff.2 ⟨fun o ho => ?_, nodes, hstack, placement, ?_, ?_⟩
      · obtain ⟨lane', hmem, rfl⟩ := List.mem_map.1 ho
        refine ⟨rfl, ?_, rfl⟩
        exact (hkeys (List.mem_cons_of_mem _ hmem)).trans (hkeys List.mem_cons_self).symm
      · -- no directive was lost: none of them splits the axis that was taken away
        refine placementOutward_mapValues_inward fun e he => ⟨e.2.inward, ?_⟩
        exact outward_inward_of_splitsAfter (hsplits (List.cons_ne_nil _ _) e he) Nat.one_ne_zero
      · rw [List.length_map]
        rfl

/-- Stacking the parts of nodes. -/
theorem stackNodes_unstackNodes :
    ∀ {nodes : List (String × List (String × Value))} {count : Nat}
      {lane : List (String × List (String × Value))}
      {lanes : List (List (String × List (String × Value)))} {others : List State},
      unstackNodes count nodes = .ok (lane :: lanes) →
        (∀ e ∈ nodes, Table.Sorted e.2 ∧ ∀ a ∈ e.2, a.2.LeafFits []) →
        nodesEverywhere restackable nodes →
        List.Forall₂ (fun (o : State) entries => holdsAll o.nodes entries) others lanes →
        stackNodes lane others = .ok nodes
  | [], count, lane, lanes, others, h, _, _, _ => by
    rw [unstackNodes] at h
    have hlane : lane ∈ List.replicate count [] := by
      rw [Except.ok.inj h]
      exact List.mem_cons_self
    rw [List.eq_of_mem_replicate hlane, stackNodes]
  | (path, l) :: rest, count, lane, lanes, others, h, hnodes, ⟨hl, hrest⟩, hothers => by
    obtain ⟨ls, hlocal, more, hmore, hzip⟩ := unstackNodes_cons_eq_ok_iff.1 h
    obtain ⟨⟨hlsorted, hlarrays⟩, hnodes⟩ := List.forall_mem_cons.1 hnodes
    have hlength : ls.length = more.length := by
      rw [length_of_unstackLocal hlocal, length_of_unstackNodes hmore]
    cases ls with
    | nil => cases hzip
    | cons first ls =>
      cases more with
      | nil => cases hlength
      | cons nodes more =>
        rw [List.zipWith_cons_cons] at hzip
        obtain ⟨rfl, rfl⟩ := List.cons.inj hzip
        obtain ⟨hfound, hheld⟩ :=
          @forall₂_zipWith_cons _ _ State.nodes _ _ _ _ (Nat.succ.inj hlength) hothers
        -- what stacking finds under the path is what taking apart put there
        have hat : localsAt path others = ls := by
          rw [localsAt, ← List.forall₂_eq_eq_eq, List.forall₂_map_left_iff]
          exact hfound.imp fun o l hget => by rw [hget, Option.getD_some]
        have hkeys := fun {l'} (hmem : l' ∈ first :: ls) => keys_of_unstackLocal hlocal hmem
        have hstack : stackLocal path first ls = .ok l := by
          refine stackLocal_unstackLocal hlocal hlarrays hl ?_
          rw [List.forall₂_same]
          intro l' hmem
          exact holdsAll_self (hlsorted.of_keys (hkeys (List.mem_cons_of_mem _ hmem)))
        have hmores := stackNodes_unstackNodes hmore hnodes hrest hheld
        refine stackNodes_cons_eq_ok_iff.2 ⟨l, hat ▸ hstack, fun other hother => ?_, rest,
          hmores, rfl⟩
        rw [hat] at hother
        -- all parts have the attributes of the batch, so equally many
        rw [← Table.length_keys, ← Table.length_keys, hkeys (List.mem_cons_of_mem _ hother),
          hkeys List.mem_cons_self]

/-- Stacking the parts of a local state. -/
theorem stackLocal_unstackLocal :
    ∀ {l : List (String × Value)} {count : Nat} {path : String} {lane : List (String × Value)}
      {lanes : List (List (String × Value))} {others : List LocalState},
      unstackLocal count path l = .ok (lane :: lanes) → (∀ a ∈ l, a.2.LeafFits []) →
        localEverywhere restackable l →
        List.Forall₂ (fun (o : LocalState) entries => holdsAll o entries) others lanes →
        stackLocal path lane others = .ok l
  | [], count, path, lane, lanes, others, h, _, _, _ => by
    rw [unstackLocal] at h
    have hlane : lane ∈ List.replicate count [] := by
      rw [Except.ok.inj h]
      exact List.mem_cons_self
    rw [List.eq_of_mem_replicate hlane, stackLocal]
  | (name, v) :: rest, count, path, lane, lanes, others, h, harrays, ⟨hv, hrest⟩, hothers => by
    obtain ⟨hvarray, harrays⟩ := List.forall_mem_cons.1 harrays
    obtain ⟨parts, hparts, hlen, more, hmore, hzip⟩ := unstackLocal_cons_eq_ok_iff.1 h
    have hlength : parts.length = more.length := by rw [hlen, length_of_unstackLocal hmore]
    cases parts with
    | nil => cases hzip
    | cons part parts =>
      cases more with
      | nil => cases hlength
      | cons l more =>
        rw [List.zipWith_cons_cons] at hzip
        obtain ⟨rfl, rfl⟩ := List.cons.inj hzip
        -- the other lanes hold the other parts of the value under its name
        obtain ⟨hfound, hheld⟩ :=
          @forall₂_zipWith_cons _ _ (fun l : LocalState => l) _ _ _ _ (Nat.succ.inj hlength) hothers
        have hvalue := stackValue_unstackValue hparts hvarray hv (Path.qualify path name)
        have hlocal := stackLocal_unstackLocal hmore harrays hrest hheld
        exact stackLocal_cons_eq_ok_iff.2 ⟨parts, hfound, v, hvalue, rest, hlocal, rfl⟩

end

/-- The lanes of a state are stacked to the state. -/
theorem stack_of_unstack {s : State} {xs : List State} (hs : s.Ordered)
    (hwhole : s.Everywhere outermostWhole) (harrays : s.HoldsArrays) (h : s.unstack = .ok xs)
    (hne : xs ≠ []) : stack xs = .ok s := by
  cases xs with
  | nil => exact absurd rfl hne
  | cons x others => exact stackOnto_unstack h (hs.and (hwhole.and harrays))

/-! ## States that are built by the operations -/

/-- A request splits an axis behind all batch axes. -/
theorem splitsAfter_directiveFor {spec : PlacementSpec} {leaf : String} {rank : Nat} {d : Directive}
    (h : spec.directiveFor leaf rank = .ok d) : splitsAfter rank d := by
  cases hget : spec.splitAxes.get? leaf with
  | none =>
    obtain rfl := Except.ok.inj (h.symm.trans (PlacementSpec.directiveFor_of_none rank hget))
    trivial
  | some axis =>
    by_cases htrivial : spec.isTrivial = true
    · obtain rfl := Except.ok.inj
        (h.symm.trans (PlacementSpec.directiveFor_of_trivial htrivial leaf rank))
      trivial
    · obtain ⟨hlt, rfl⟩ := (PlacementSpec.directiveFor_of_get? htrivial hget).1 h
      rw [splitsAfter, UInt64.toNat_ofNat_of_lt' hlt]
      exact Nat.le_add_left ..

/-- The states that the operations build from the empty one, with tensors that could be arrays.
States inside a node are built the same way. -/
inductive Built : State → Prop
  | empty : Built State.empty
  | withNode {s : State} {l : LocalState} (path : String) : Built s → Table.Sorted l →
      (∀ a ∈ l, a.2.LeafFits []) →
      (∀ name inner, (name, Value.state inner) ∈ l → Built inner) → Built (s.withNode path l)
  | update {s s' : State} {l : LocalState} {path : String} : Built s → Table.Sorted l →
      (∀ a ∈ l, a.2.LeafFits []) →
      (∀ name inner, (name, Value.state inner) ∈ l → Built inner) →
      s.update path l = .ok s' → Built s'
  | withLeaf {s s' : State} {qualified : String} {t : Tensor} : Built s →
      Tensor.IsArrayShape t.shape → s.withLeaf qualified t = .ok s' → Built s'
  | stack {xs : List State} {s : State} : (∀ x ∈ xs, Built x) → stack xs = .ok s → Built s
  | unstack {s : State} {xs : List State} {x : State} : Built s → s.unstack = .ok xs → x ∈ xs →
      Built x
  | shard {s s' : State} {spec : PlacementSpec} : Built s → s.shard spec = .ok s' → Built s'

theorem localEverywhere_of_states {P : State → Prop} {l : LocalState}
    (h : ∀ name inner, (name, Value.state inner) ∈ l → inner.Everywhere P) :
    localEverywhere P l := by
  refine localEverywhere_iff.2 fun ⟨name, v⟩ hmem => ?_
  cases v with
  | tensor t => trivial
  | state inner => exact h name inner hmem

/-- What the operations build is in order. -/
theorem Built.ordered {s : State} (h : Built s) : s.Ordered := by
  induction h with
  | empty => exact ordered_empty
  | withNode path _ hl _ _ ih ihl => exact ih.withNode path ⟨hl, localEverywhere_of_states ihl⟩
  | update _ hl _ _ hu ih ihl => exact ih.update ⟨hl, localEverywhere_of_states ihl⟩ hu
  | withLeaf _ _ hw ih => exact ih.withLeaf hw
  | stack _ hstack ih => exact Ordered.stack hstack ih
  | unstack _ hunstack hmem ih => exact ih.unstack hunstack hmem
  | shard _ hshard ih =>
    obtain ⟨placement, rfl⟩ := exists_of_shard hshard
    exact ih.of_nodes_eq rfl

theorem everywhere_splitsInside_withNode {s : State} {l : LocalState} (path : String)
    (h : s.Everywhere splitsInside) (hl : localEverywhere splitsInside l) :
    (s.withNode path l).Everywhere splitsInside := by
  obtain ⟨nodes, dims, placement⟩ := s
  exact ⟨h.1, nodesEverywhere_insert h.2 hl⟩

/-- No state that the operations build has a split of a batch axis, at any depth. -/
theorem Built.splitsInside {s : State} (h : Built s) : s.Everywhere State.splitsInside := by
  induction h with
  | empty => exact ⟨fun e he => absurd he (List.not_mem_nil), trivial⟩
  | withNode path _ _ _ _ ih ihl =>
    exact everywhere_splitsInside_withNode path ih (localEverywhere_of_states ihl)
  | update _ _ _ _ hu ih ihl =>
    obtain ⟨-, rfl⟩ := update_eq_ok_iff.1 hu
    exact everywhere_splitsInside_withNode _ ih (localEverywhere_of_states ihl)
  | withLeaf _ _ hw ih =>
    obtain ⟨-, -, l, hl, rfl⟩ := withLeaf_eq_ok_iff.1 hw
    have hlocal := (everywhere_iff.1 ih).2 _ (Table.mem_of_get?_eq_some (resolve_eq_ok_iff.1 hl))
    exact everywhere_splitsInside_withNode _ ih (localEverywhere_insert hlocal trivial)
  | @stack xs s _ hstack ih =>
    cases xs with
    | nil => cases hstack
    | cons x others =>
      obtain ⟨hx, hothers⟩ := List.forall_mem_cons.1 ih
      exact Everywhere.stackOnto stackGives_splitsInside hstack hx hothers
  | unstack _ hunstack hmem ih =>
    exact Everywhere.unstack unstackKeeps_splitsInside hunstack ih hmem
  | @shard s s' spec _ hshard ih =>
    rcases shard_eq_ok_iff.1 hshard with ⟨-, rfl⟩ | ⟨-, -, placement, hplace, rfl⟩
    · exact ih
    · refine everywhere_iff.2 ⟨fun e he => ?_, (everywhere_iff.1 ih).2⟩
      -- a request counts its axes from behind the batch axes
      obtain ⟨hnumbers, rfl⟩ := placeLeaves_eq_ok hplace
      obtain ⟨leaf, hleaf, hd⟩ :=
        (exists_of_mem_placementFor he).resolve_left List.not_mem_nil
      obtain ⟨d, hd'⟩ := hnumbers leaf hleaf
      rw [hd, ← PlacementSpec.eq_directive_of_directiveFor hd']
      exact splitsAfter_directiveFor hd'

/-- The leaves of a state that the operations build could be arrays, at every depth. -/
theorem Built.holdsArrays {s : State} (h : Built s) : s.HoldsArrays := by
  induction h with
  | empty => exact holdsArrays_empty
  | withNode path _ _ harrays _ ih ihl =>
    exact ih.withNode path harrays (localEverywhere_of_states ihl)
  | update _ _ harrays _ hu ih ihl =>
    obtain ⟨-, rfl⟩ := update_eq_ok_iff.1 hu
    exact ih.withNode _ harrays (localEverywhere_of_states ihl)
  | withLeaf _ harray hw ih => exact ih.withLeaf harray hw
  | stack hxs hstack _ => exact holdsArrays_of_stack (fun x hx => (hxs x hx).ordered) hstack
  | unstack _ hunstack hmem ih => exact ih.unstack hunstack hmem
  | shard _ hshard ih =>
    obtain ⟨placement, rfl⟩ := exists_of_shard hshard
    exact ih.of_nodes_eq rfl

/-- Stacking the parts of a batch that the operations built gives the batch back. -/
theorem Built.stack_unstack {s : State} {xs : List State} (hs : Built s)
    (h : s.unstack = .ok xs) (hne : xs ≠ []) : State.stack xs = .ok s :=
  stack_of_unstack hs.ordered (hs.splitsInside.imp fun _ => splitsInside.outermostWhole)
    hs.holdsArrays h hne

/-! ## Both directions -/

/-- **Stacking and taking apart undo each other.** States that were stacked come back as they were,
with all that is inside them and with their placements. The parts of a batch that the operations
built stack to that batch. -/
theorem stack_unstack_inverse (xs : List State) (s : State) :
    ((∀ x ∈ xs, x.Ordered) → stack xs = .ok s → s.unstack = .ok xs) ∧
    (Built s → s.unstack = .ok xs → xs ≠ [] → stack xs = .ok s) :=
  ⟨unstack_stack, Built.stack_unstack⟩

/-- A state inside a state, beside a leaf. -/
def specimen : State :=
  State.empty.withNode "p"
    [("inner", .state (State.empty.withNode "q" [("y", .tensor (.scalar 3))])),
      ("x", .tensor (.vector [1, 2]))]

/-- The specimen with its leaf split along an axis. -/
def splitSpecimen (axis : UInt64) : State :=
  { specimen with placement := [("p.x", .split axis [⟨.gpu, 0⟩, ⟨.gpu, 1⟩])] }

theorem built_specimen : Built specimen := by
  have hinner : Built (State.empty.withNode "q" [("y", .tensor (.scalar 3))]) := by
    refine .withNode "q" .empty (by decide) (by decide) fun name inner hmem => ?_
    simp at hmem
  refine .withNode "p" .empty (by decide) (by decide) fun name inner hmem => ?_
  simp only [List.mem_cons, Prod.mk.injEq, Value.state.injEq, reduceCtorEq, and_false,
    List.not_mem_nil, or_false] at hmem
  rw [hmem.2]
  exact hinner

theorem built_splitSpecimen : Built (splitSpecimen 0) := by
  have hshard : specimen.shard ⟨.gpus 2, [("p.x", 0)]⟩ = .ok (splitSpecimen 0) := by
    rfl
  exact .shard built_specimen hshard

theorem ordered_splitSpecimen (axis : UInt64) : (splitSpecimen axis).Ordered :=
  built_specimen.ordered.of_nodes_eq rfl

/-- Both ways at a state with a nested one, which is split along its first axis. -/
theorem stack_unstack_inverse_specimen :
    (∃ s, stack [splitSpecimen 0, splitSpecimen 0] = .ok s ∧
      s.unstack = .ok [splitSpecimen 0, splitSpecimen 0]) ∧
    ∃ s xs, Built s ∧ s.unstack = .ok xs ∧ xs.length = 2 ∧ stack xs = .ok s := by
  have hsplit := Outcome.eq_ok_get (o := stack [splitSpecimen 0, splitSpecimen 0])
    (by decide +kernel)
  have hordered : ∀ x ∈ [splitSpecimen 0, splitSpecimen 0], x.Ordered := by
    simp [ordered_splitSpecimen]
  have hback := (stack_unstack_inverse _ _).1 hordered hsplit
  have hbuilt : Built _ := .stack (by simp [built_splitSpecimen]) hsplit
  refine ⟨⟨_, hsplit, hback⟩, _, _, hbuilt, hback, rfl, ?_⟩
  exact (stack_unstack_inverse _ _).2 hbuilt hback (by simp)

end Lockstep.State
