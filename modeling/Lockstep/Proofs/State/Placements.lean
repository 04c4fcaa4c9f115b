import Lockstep.Proofs.State.Lanes
import Lockstep.Proofs.State.Restack
import Lockstep.Proofs.State.Shard

/-!
# Lanes and their placements

Lanes that were put into a batch come back as they were (`flatten_unflatten`), and in a batch that
is placed every lane is placed as it would be on its own (`flatten_placed`, `unflatten_placed`).
Placing touches nothing but placements: `State.SameLeaves` is equality of states up to these, at
every depth. A state can get more axes in front as long as the numbers of its split axes stay words,
at every depth (`State.FitsBatch`).
-/

namespace Lockstep

mutual

/-- A value without the placements in it. -/
def Value.bare : Value → Value
  | .tensor t => .tensor t
  | .state s => .state s.bare

/-- A state without its placement and those of the states inside it. -/
def State.bare : State → State
  | ⟨nodes, dims, _⟩ => ⟨nodesBare nodes, dims, []⟩

/-- Nodes without the placements in them. -/
def nodesBare : List (String × List (String × Value)) → List (String × List (String × Value))
  | [] => []
  | (path, l) :: rest => (path, localBare l) :: nodesBare rest

/-- A local state without the placements in it. -/
def localBare : List (String × Value) → List (String × Value)
  | [] => []
  | (name, v) :: rest => (name, v.bare) :: localBare rest

end

/-- A local state loses the placements inside it value by value. -/
theorem localBare_eq_mapValues {l : List (String × Value)} :
    localBare l = Table.mapValues Value.bare l := by
  induction l with
  | nil => rfl
  | cons entry rest ih =>
    rw [localBare, ih]
    rfl

theorem nodesBare_eq_mapValues {nodes : List (String × List (String × Value))} :
    nodesBare nodes = Table.mapValues localBare nodes := by
  induction nodes with
  | nil => rfl
  | cons entry rest ih =>
    rw [nodesBare, ih]
    rfl

/-! ## Equal up to placements -/

/-- The states have the same nodes, attributes, batch axes and tensors, at every depth. -/
def State.SameLeaves (s s' : State) : Prop :=
  s.bare = s'.bare

/-- The local states have the same attributes and tensors, at every depth. -/
def LocalState.SameValues (l l' : LocalState) : Prop :=
  localBare l = localBare l'

namespace LocalState

theorem SameValues.refl (l : LocalState) : SameValues l l := rfl

/-- Local states with the same values read alike. -/
theorem SameValues.tensor {l l' : LocalState} (h : SameValues l l') (name : String) :
    l.tensor name = l'.tensor name := by
  have hforget : ∀ l : LocalState,
      l.tensor name = LocalState.tensor (localBare l) name := by
    intro l
    rw [LocalState.tensor, LocalState.tensor, value, value, localBare_eq_mapValues,
      Table.get?_mapValues]
    cases Table.get? name l with
    | none => rfl
    | some v =>
      cases v with
      | tensor t => rfl
      | state s => rfl
  rw [hforget l, hforget l', h]

theorem SameValues.number {l l' : LocalState} (h : SameValues l l') (name : String) :
    l.number name = l'.number name := by
  rw [LocalState.number, LocalState.number, h.tensor name]

/-- They stay so when both are written alike. -/
theorem SameValues.setTensor {l l' : LocalState} (h : SameValues l l') (name : String)
    (t : Tensor) : SameValues (l.setTensor name t) (l'.setTensor name t) := by
  rw [SameValues, LocalState.setTensor, LocalState.setTensor, localBare_eq_mapValues,
    localBare_eq_mapValues, Table.mapValues_insert, Table.mapValues_insert,
    ← localBare_eq_mapValues, ← localBare_eq_mapValues, h]

end LocalState

namespace State

@[simp] theorem batchDims_bare (s : State) : s.bare.batchDims = s.batchDims := by
  obtain ⟨nodes, dims, placement⟩ := s
  rfl

@[simp] theorem nodes_bare (s : State) : s.bare.nodes = nodesBare s.nodes := by
  obtain ⟨nodes, dims, placement⟩ := s
  rfl

/-- A state has the leaves that it has without placements. -/
theorem leaf_bare_eq_ok_iff {s : State} {qualified : String} {t : Tensor} :
    s.bare.leaf qualified = .ok t ↔ s.leaf qualified = .ok t := by
  rw [leaf_eq_ok_iff, leaf_eq_ok_iff]
  constructor
  · rintro ⟨l, hl, hget⟩
    rw [resolve_eq_ok_iff, nodes_bare, nodesBare_eq_mapValues,
      Table.get?_mapValues] at hl
    obtain ⟨l', hl', rfl⟩ := Option.map_eq_some_iff.1 hl
    rw [localBare_eq_mapValues, Table.get?_mapValues] at hget
    obtain ⟨v, hv, hvalue⟩ := Option.map_eq_some_iff.1 hget
    cases v with
    | tensor u => exact ⟨l', resolve_eq_ok_iff.2 hl', hvalue ▸ hv⟩
    | state inner => cases hvalue
  · rintro ⟨l, hl, hget⟩
    refine ⟨localBare l, ?_, ?_⟩
    · rw [resolve_eq_ok_iff, nodes_bare, nodesBare_eq_mapValues,
        Table.get?_mapValues, resolve_eq_ok_iff.1 hl]
      rfl
    · rw [localBare_eq_mapValues, Table.get?_mapValues, hget]
      rfl

namespace SameLeaves

theorem refl (s : State) : s.SameLeaves s := rfl

theorem symm {s s' : State} (h : s.SameLeaves s') : s'.SameLeaves s := Eq.symm h

theorem trans {s s' s'' : State} (h : s.SameLeaves s') (h' : s'.SameLeaves s'') :
    s.SameLeaves s'' := Eq.trans h h'

end SameLeaves

/-- Another placement leaves the leaves as they are. -/
theorem sameLeaves_of_placement (s : State) (placement : Table Directive) :
    SameLeaves { s with placement } s := by
  obtain ⟨nodes, dims, placement'⟩ := s
  rfl

/-- States with the same leaves hold the same values at every path. -/
theorem SameLeaves.get? {s s' : State} (h : s.SameLeaves s') (path : String) :
    (Table.get? path s.nodes).map localBare = (Table.get? path s'.nodes).map localBare := by
  have hnodes := congrArg State.nodes h
  rw [nodes_bare, nodes_bare, nodesBare_eq_mapValues,
    nodesBare_eq_mapValues] at hnodes
  rw [← Table.get?_mapValues, ← Table.get?_mapValues, hnodes]

/-- States with the same leaves have nodes with the same values. -/
theorem SameLeaves.resolve {s s' : State} (h : s.SameLeaves s') (path : String) :
    Outcome.Matches LocalState.SameValues (s.resolve path) (s'.resolve path) := by
  intro l hl
  have hget := h.get? path
  rw [resolve_eq_ok_iff.1 hl, Option.map_some] at hget
  obtain ⟨l', hl', hsame⟩ := Option.map_eq_some_iff.1 hget.symm
  exact ⟨l', resolve_eq_ok_iff.2 hl', hsame.symm⟩

/-- What is read from a node without a look at placements is the same in states with the same
leaves. -/
theorem SameLeaves.resolve_bind {β : Type} {s s' : State} (h : s.SameLeaves s') (path : String)
    {f : LocalState → Outcome β} (hf : ∀ l l', LocalState.SameValues l l' → f l = f l') :
    s.resolve path >>= f = s'.resolve path >>= f := by
  have hget := h.get? path
  rw [State.resolve, State.resolve]
  cases hl : Table.get? path s.nodes with
  | none =>
    rw [hl, Option.map_none] at hget
    rw [Option.map_eq_none_iff.1 hget.symm]
  | some l =>
    rw [hl, Option.map_some] at hget
    obtain ⟨l', hl', hsame⟩ := Option.map_eq_some_iff.1 hget.symm
    rw [hl', Outcome.ok_bind, Outcome.ok_bind]
    exact hf l l' hsame.symm

/-- Writing the same values into states with the same leaves. -/
theorem SameLeaves.update {s s' : State} (h : s.SameLeaves s') {l l' : LocalState}
    (hl : LocalState.SameValues l l') (path : String) :
    Outcome.Matches SameLeaves (s.update path l) (s'.update path l') := by
  intro t ht
  obtain ⟨hcontains, rfl⟩ := update_eq_ok_iff.1 ht
  obtain ⟨old, hold⟩ := Option.isSome_iff_exists.1 hcontains
  obtain ⟨old', hold', -⟩ := h.resolve path old (resolve_eq_ok_iff.2 hold)
  have hcontains' : s'.contains path = true := by
    rw [contains, Table.contains, resolve_eq_ok_iff.1 hold']
    rfl
  refine ⟨_, update_eq_ok_iff.2 ⟨hcontains', rfl⟩, ?_⟩
  obtain ⟨nodes, dims, placement⟩ := s
  obtain ⟨nodes', dims', placement'⟩ := s'
  obtain ⟨hnodes, hdims, -⟩ := State.mk.inj h
  rw [SameLeaves, withNode, withNode, bare, bare, State.mk.injEq]
  refine ⟨?_, hdims, rfl⟩
  rw [nodesBare_eq_mapValues, nodesBare_eq_mapValues] at hnodes ⊢
  rw [Table.mapValues_insert, Table.mapValues_insert, hnodes, hl]

end State

/-! ## Behind batch axes -/

namespace State

/-- A state can get so many more axes in front: the number of every split axis in it stays a word,
at every depth. -/
def FitsBatch (axes : Nat) (s : State) : Prop :=
  s.Everywhere fun s => PlacementFitsBehind axes s.placement

/-- A state in order fits as it is, behind no further axis. -/
theorem Ordered.fitsBatch_zero {s : State} (h : s.Ordered) : s.FitsBatch 0 :=
  Everywhere.imp h fun _ _ e _ => e.2.fitsBehind_zero

/-- A state that fits behind some axes fits behind fewer. -/
theorem FitsBatch.mono {m n : Nat} (hle : m ≤ n) {s : State} (h : s.FitsBatch n) :
    s.FitsBatch m := h.imp fun _ hs => hs.mono hle

/-- A batch has room for one axis less than the states that were stacked. -/
theorem FitsBatch.stack {axes : Nat} {xs : List State} {r : State}
    (hxs : ∀ x ∈ xs, x.FitsBatch (axes + 1)) (h : stack xs = .ok r) : r.FitsBatch axes := by
  cases xs with
  | nil => cases h
  | cons x others =>
    obtain ⟨hx, hothers⟩ := List.forall_mem_cons.1 hxs
    refine Everywhere.stackOnto ?_ h hx hothers
    intro s others r h hs _
    obtain ⟨-, nodes, -, moved, hmoved, rfl⟩ := stackOnto_eq_ok_iff.1 h
    exact (fitsBehind_of_placementOutward hmoved axes).2 hs

/-- A part has room for one axis more. -/
theorem FitsBatch.unstack {axes : Nat} {s x : State} {xs : List State} (hs : s.FitsBatch axes)
    (h : s.unstack = .ok xs) (hx : x ∈ xs) : x.FitsBatch (axes + 1) := by
  refine Everywhere.unstack ?_ h hs hx
  intro s xs x h hs hx
  obtain ⟨count, dims, -, lanes, -, rfl⟩ := unstack_eq_ok_iff.1 h
  obtain ⟨lane, -, rfl⟩ := List.mem_map.1 hx
  exact fitsBehind_mapValues_inward hs

/-- States that were stacked had room for one more axis. -/
theorem FitsBatch.of_stack {xs : List State} {r : State} (hxs : ∀ x ∈ xs, x.Ordered)
    (h : State.stack xs = .ok r) : ∀ x ∈ xs, x.FitsBatch 1 :=
  fun _ hx => (Ordered.stack h hxs).fitsBatch_zero.unstack (unstack_stack hxs h) hx

/-- A lane has room for the axes of the batch. -/
theorem FitsBatch.of_mem_flatten {dims : List Nat} :
    ∀ {s l : State} {ls : List State} {axes : Nat}, s.batchDims = dims → s.flatten = .ok ls →
      s.FitsBatch axes → l ∈ ls → l.FitsBatch (axes + dims.length) := by
  induction dims with
  | nil =>
    intro s l ls axes hdims h hs hl
    rw [flatten_unbatched hdims, Except.ok.injEq] at h
    rw [← h, List.mem_singleton] at hl
    exact hl ▸ hs
  | cons count dims ih =>
    intro s l ls axes hdims h hs hl
    obtain ⟨xs, lss, hxs, -, hxdims, hlss, rfl⟩ := parts_of_flatten hdims h
    obtain ⟨part, hpart, hl⟩ := List.mem_flatten.1 hl
    obtain ⟨x, hx, hflat⟩ := Outcome.exists_left_of_mem hlss hpart
    have hlane := ih (hxdims x hx) hflat (hs.unstack hxs hx) hl
    rwa [Nat.add_assoc, Nat.add_comm 1] at hlane

/-- A batch has room for the axes that its lanes have left. -/
theorem FitsBatch.of_unflatten {dims : List Nat} :
    ∀ {lanes : List State} {r : State} {axes : Nat},
      (∀ l ∈ lanes, l.FitsBatch (axes + dims.length)) → unflatten dims lanes = .ok r →
        r.FitsBatch axes := by
  induction dims with
  | nil =>
    intro lanes r axes hlanes h
    obtain rfl := unflatten_nil_eq_ok_iff.1 h
    exact hlanes r List.mem_cons_self
  | cons count inner ih =>
    intro lanes r axes hlanes h
    obtain ⟨-, hlength, -, xs, hxs, hr⟩ := unflatten_cons_eq_ok_iff.1 h
    refine FitsBatch.stack (fun x hx => ?_) hr
    obtain ⟨p, hp, hput⟩ := Outcome.exists_left_of_mem (Outcome.mapM_eq_ok_iff.1 hxs) hx
    refine ih (fun l hl => ?_) hput
    rw [Nat.add_assoc, Nat.add_comm 1]
    exact hlanes l (flatten_pieces hlength ▸ List.mem_flatten.2 ⟨p, hp, hl⟩)

/-! ## Into a batch and out again -/

/-- Lanes without batch dimensions are put together to the dimensions that are given. -/
theorem batchDims_of_unflatten {dims : List Nat} :
    ∀ {lanes : List State} {r : State}, (∀ l ∈ lanes, l.batchDims = []) →
      unflatten dims lanes = .ok r → r.batchDims = dims := by
  induction dims with
  | nil =>
    intro lanes r hlanes h
    obtain rfl := unflatten_nil_eq_ok_iff.1 h
    exact hlanes r List.mem_cons_self
  | cons count inner ih =>
    intro lanes r hlanes h
    obtain ⟨-, hlength, -, xs, hxs, hr⟩ := unflatten_cons_eq_ok_iff.1 h
    have hpieces := Outcome.mapM_eq_ok_iff.1 hxs
    obtain ⟨x, others, rfl, -⟩ := stack_eq_ok hr
    obtain ⟨p, hp, hx⟩ := Outcome.exists_left_of_mem hpieces (y := x) List.mem_cons_self
    have hmem : ∀ l ∈ p, l.batchDims = [] := by
      intro l hl
      refine hlanes l ?_
      rw [← flatten_pieces hlength]
      exact List.mem_flatten.2 ⟨p, hp, hl⟩
    rw [batchDims_of_stack hr List.mem_cons_self, ← hpieces.length_eq, length_pieces, ih hmem hx]

/-- **Lanes that are put together to a batch are its lanes.** -/
theorem flatten_unflatten {dims : List Nat} :
    ∀ {lanes : List State} {r : State}, (∀ l ∈ lanes, l.Ordered ∧ l.batchDims = []) →
      unflatten dims lanes = .ok r → r.flatten = .ok lanes := by
  induction dims with
  | nil =>
    intro lanes r hlanes h
    obtain rfl := unflatten_nil_eq_ok_iff.1 h
    exact flatten_unbatched (hlanes r List.mem_cons_self).2
  | cons count inner ih =>
    intro lanes r hlanes h
    obtain ⟨-, hlength, -, xs, hxs, hr⟩ := unflatten_cons_eq_ok_iff.1 h
    have hpieces := Outcome.mapM_eq_ok_iff.1 hxs
    have hmem : ∀ p ∈ pieces (volume inner) count lanes, ∀ l ∈ p, l.Ordered ∧ l.batchDims = [] := by
      intro p hp l hl
      refine hlanes l ?_
      rw [← flatten_pieces hlength]
      exact List.mem_flatten.2 ⟨p, hp, hl⟩
    have hordered : ∀ x ∈ xs, x.Ordered := by
      intro x hx
      obtain ⟨p, hp, hput⟩ := Outcome.exists_left_of_mem hpieces hx
      exact of_unflatten (fun xs r hxs hr => Ordered.stack hr hxs)
        (fun l hl => (hmem p hp l hl).1) hput
    -- the parts of the batch are the smaller batches, and their lanes are the pieces
    refine (flatten_eq_ok_iff (unstack_stack hordered hr)).2
      ⟨pieces (volume inner) count lanes, ?_, (flatten_pieces hlength).symm⟩
    refine Outcome.forall₂_of_forall hpieces.length_eq.symm fun i x p hx hp => ?_
    obtain ⟨x', hx', hput⟩ := Outcome.exists_of_forall₂ hpieces hp
    obtain rfl := Option.some.inj (hx.symm.trans hx')
    exact ih (hmem p (List.mem_of_getElem? hp)) hput

/-! ## What commutes with taking apart and stacking -/

section

variable {F : State → State} {P Q : State → Prop}

/-- A function of states that commutes with taking apart acts on the lanes of a batch. -/
theorem flatten_map (hdims : ∀ s, (F s).batchDims = s.batchDims)
    (hF : ∀ s xs, P s → s.unstack = .ok xs → (F s).unstack = .ok (xs.map F) ∧ ∀ x ∈ xs, P x)
    {dims : List Nat} :
    ∀ {s : State} {ls : List State}, P s → s.batchDims = dims → s.flatten = .ok ls →
      (F s).flatten = .ok (ls.map F) := by
  induction dims with
  | nil =>
    intro s ls _ hbatch h
    rw [flatten_unbatched hbatch, Except.ok.injEq] at h
    rw [← h, flatten_unbatched ((hdims s).trans hbatch), List.map_singleton]
  | cons count dims ih =>
    intro s ls hs hbatch h
    obtain ⟨xs, lss, hxs, -, hxdims, hlss, rfl⟩ := parts_of_flatten hbatch h
    obtain ⟨hmap, hparts⟩ := hF s xs hs hxs
    refine (flatten_eq_ok_iff hmap).2 ⟨lss.map (List.map F), ?_, List.map_flatten⟩
    rw [List.forall₂_map_left_iff, List.forall₂_map_right_iff]
    refine Outcome.forall₂_of_forall hlss.length_eq fun i x l hx hl => ?_
    obtain ⟨l', hl', hflat⟩ := Outcome.exists_of_forall₂ hlss hx
    obtain rfl := Option.some.inj (hl.symm.trans hl')
    have hmem := List.mem_of_getElem? hx
    exact ih (hparts x hmem) (hxdims x hmem) hflat

/-- A function of states that commutes with stacking commutes with putting lanes together. -/
theorem unflatten_map (hQ : ∀ xs r, (∀ x ∈ xs, Q x) → stack xs = .ok r → Q r)
    (hF : ∀ xs r, (∀ x ∈ xs, Q x) → P r → stack xs = .ok r →
      stack (xs.map F) = .ok (F r) ∧ ∀ x ∈ xs, P x)
    {dims : List Nat} :
    ∀ {lanes : List State} {r : State}, (∀ l ∈ lanes, Q l) → P r → unflatten dims lanes = .ok r →
      unflatten dims (lanes.map F) = .ok (F r) := by
  induction dims with
  | nil =>
    intro lanes r _ _ h
    obtain rfl := unflatten_nil_eq_ok_iff.1 h
    exact unflatten_nil_eq_ok_iff.2 rfl
  | cons count inner ih =>
    intro lanes r hlanes hr h
    obtain ⟨hne, hlength, hlt, xs, hxs, hstack⟩ := unflatten_cons_eq_ok_iff.1 h
    have hpieces := Outcome.mapM_eq_ok_iff.1 hxs
    have hmem : ∀ p ∈ pieces (volume inner) count lanes, ∀ l ∈ p, Q l := by
      intro p hp l hl
      refine hlanes l ?_
      rw [← flatten_pieces hlength]
      exact List.mem_flatten.2 ⟨p, hp, hl⟩
    have hxQ : ∀ x ∈ xs, Q x := by
      intro x hx
      obtain ⟨p, hp, hput⟩ := Outcome.exists_left_of_mem hpieces hx
      exact of_unflatten hQ (hmem p hp) hput
    -- the law is applied from the outermost axis inward, since `P` is known of the result only
    obtain ⟨hmap, hparts⟩ := hF xs r hxQ hr hstack
    refine unflatten_cons_eq_ok_iff.2
      ⟨by simpa using hne, by rw [List.length_map]; exact hlength, hlt, xs.map F, ?_, hmap⟩
    rw [pieces_map, Outcome.mapM_eq_ok_iff, List.forall₂_map_left_iff, List.forall₂_map_right_iff]
    refine Outcome.forall₂_of_forall hpieces.length_eq fun i p x hp hx => ?_
    obtain ⟨x', hx', hput⟩ := Outcome.exists_of_forall₂ hpieces hp
    obtain rfl := Option.some.inj (hx.symm.trans hx')
    exact ih (hmem p (List.mem_of_getElem? hp)) (hparts x (List.mem_of_getElem? hx)) hput

end

/-! ## Lanes of a placed batch -/

theorem leavesAt_localBare (path : String) (l : LocalState) :
    leavesAt path (localBare l) = leavesAt path l := by
  induction l with
  | nil => rfl
  | cons e rest ih =>
    obtain ⟨name, v⟩ := e
    simp only [leavesAt, localBare] at ih ⊢
    cases v with
    | tensor t =>
      rw [List.filterMap_cons, List.filterMap_cons, ih]
      rfl
    | state s =>
      rw [List.filterMap_cons, List.filterMap_cons, ih]
      rfl

/-- The leaves have nothing to do with placements. -/
theorem leaves_bare (s : State) : s.bare.leaves = s.leaves := by
  rw [leaves, leaves, nodes_bare, nodesBare_eq_mapValues, Table.mapValues]
  simp only [List.flatMap_map, leavesAt_localBare]

/-- Stacking keeps the names of the leaves. -/
theorem leafNames_of_stack {xs : List State} {s : State} (hxs : ∀ x ∈ xs, x.Ordered)
    (h : stack xs = .ok s) : ∀ x ∈ xs, x.leafNames = s.leafNames :=
  fun _ hx => leafNames_of_mem_unstack (unstack_stack hxs h) hx

/-- In a placed batch every lane is placed as it would be on its own. -/
theorem flatten_placed {spec : PlacementSpec} {s : State} {ls : List State}
    (hnumbers : spec.Numbers s) (h : s.flatten = .ok ls) :
    (s.placed spec).flatten = .ok (ls.map (placed spec)) :=
  flatten_map (batchDims_placed spec)
    (fun _ _ hs hxs => ⟨unstack_placed hs hxs, fun _ hx => numbers_of_mem_unstack hs hxs hx⟩)
      hnumbers rfl h

/-- Placed lanes are put together to the placed batch. -/
theorem unflatten_placed {spec : PlacementSpec} {dims : List Nat} {lanes : List State} {r : State}
    (hlanes : ∀ l ∈ lanes, l.Ordered) (hnumbers : spec.Numbers r)
    (h : unflatten dims lanes = .ok r) :
    unflatten dims (lanes.map (placed spec)) = .ok (r.placed spec) := by
  refine unflatten_map (fun _ _ hxs hr => Ordered.stack hr hxs) ?_ hlanes hnumbers h
  intro xs r hxs hr hstack
  exact ⟨stack_placed hr hstack (leafNames_of_stack hxs hstack),
    fun x hx => numbers_of_mem_unstack hr (unstack_stack hxs hstack) hx⟩

end State

end Lockstep
