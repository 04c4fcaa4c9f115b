import Lockstep.Proofs.State.Outline

/-!
# Homogeneous states

States can be stacked exactly when they are homogeneous, what their leaves become could be arrays
and their split axes have a number behind one more axis (`State.stack_ok_iff_homogeneous`). They are
homogeneous when they have the same batch axes, nodes, attributes and placement, and under each
attribute either tensors of one shape or states that are homogeneous again. `State.Homogeneous` says
so by recursion on the states inside, and comes down to all states having one outline. Leaves
without numbers can be too large for a stack (`State.vast_homogeneous_not_stacked`).

What is found in a stack, at any depth, is found in each of the states too
(`State.stackedAt_of_stack`): a tensor has in its rows the tensors that these have there. A place
inside a state is a trail of attributes, each of a node of the state that the attributes before it
lead to (`Value.follow`).
-/

namespace Lockstep

/-! ## Attributes -/

namespace State

/-- The value of an attribute of a node. -/
def attribute? (s : State) (path name : String) : Option Value :=
  (Table.get? path s.nodes).bind (Table.get? name)

/-- The names of the attributes of a node. -/
def attributeNames (s : State) (path : String) : Option (List String) :=
  (Table.get? path s.nodes).map Table.keys

theorem attribute?_eq_some_iff {s : State} {path name : String} {v : Value} :
    s.attribute? path name = some v ↔
      ∃ l, Table.get? path s.nodes = some l ∧ Table.get? name l = some v := Option.bind_eq_some_iff

theorem everywhere_of_attribute? {P : State → Prop} {s : State} (hs : s.Everywhere P)
    {path name : String} {v : Value} (h : s.attribute? path name = some v) : v.Everywhere P := by
  obtain ⟨l, hl, hv⟩ := attribute?_eq_some_iff.1 h
  have hlocal := (everywhere_iff.1 hs).2 _ (Table.mem_of_get?_eq_some hl)
  exact localEverywhere_iff.1 hlocal _ (Table.mem_of_get?_eq_some hv)

/-- The values of an attribute in several states are those in the local states of its node. -/
theorem forall₂_localsAt {path name : String} {xs : List State} {vs : List Value}
    (h : List.Forall₂ (fun (x : State) v => x.attribute? path name = some v) xs vs) :
    List.Forall₂ (fun (l : LocalState) v => Table.get? name l = some v) (localsAt path xs) vs := by
  rw [localsAt, List.forall₂_map_left_iff]
  refine h.imp fun x v hv => ?_
  obtain ⟨l, hl, hget⟩ := attribute?_eq_some_iff.1 hv
  rw [hl]
  exact hget

/-- A state with the given paths has the given names of attributes when its nodes have them. -/
theorem attributeNames_of_paths {nodes : List (String × List (String × Value))} {o : State}
    (hpaths : o.paths = Table.keys nodes)
    (hkeys : ∀ e ∈ nodes, ∀ l, Table.get? e.1 o.nodes = some l → Table.keys l = Table.keys e.2)
    (path : String) : o.attributeNames path = (Table.get? path nodes).map Table.keys := by
  have hmem : path ∈ Table.keys o.nodes ↔ path ∈ Table.keys nodes := by
    rw [show Table.keys o.nodes = Table.keys nodes from hpaths]
  rw [attributeNames]
  cases hl : Table.get? path nodes with
  | none => rw [Table.get?_eq_none_iff.2 fun h => Table.get?_eq_none_iff.1 hl (hmem.1 h)]
  | some l =>
    have he := Table.mem_of_get?_eq_some hl
    obtain ⟨l', hl'⟩ := Option.isSome_iff_exists.1
      (Table.get?_isSome_iff.2 (hmem.2 (Table.mem_keys_of_mem he)))
    rw [hl', Option.map_some, Option.map_some, hkeys _ he l' hl']

/-- States with the same names of attributes all have an attribute when one of them has it. -/
theorem exists_attributes {xs : List State} {x : State} {path name : String} {v : Value}
    (hnames : ∀ z ∈ xs, z.attributeNames path = x.attributeNames path)
    (hv : x.attribute? path name = some v) :
    ∃ vs, List.Forall₂ (fun (z : State) v => z.attribute? path name = some v) xs vs := by
  obtain ⟨l, hl, hget⟩ := attribute?_eq_some_iff.1 hv
  refine Outcome.exists_forall₂ fun z hz => ?_
  have hz := hnames z hz
  rw [attributeNames, attributeNames, hl, Option.map_some] at hz
  obtain ⟨lz, hlz, hkeys⟩ := Option.map_eq_some_iff.1 hz
  have hmem : name ∈ Table.keys lz := hkeys ▸ Table.mem_keys_of_mem (Table.mem_of_get?_eq_some hget)
  obtain ⟨vz, hvz⟩ := Option.isSome_iff_exists.1 (Table.get?_isSome_iff.2 hmem)
  exact ⟨vz, attribute?_eq_some_iff.2 ⟨lz, hlz, hvz⟩⟩

theorem mem_attributes {xs : List State} {vs : List Value} {path name : String}
    (h : List.Forall₂ (fun (z : State) v => z.attribute? path name = some v) xs vs) {z : State}
    (hz : z ∈ xs) {v : Value} (hv : z.attribute? path name = some v) : v ∈ vs := by
  obtain ⟨u, hu, hget⟩ := Outcome.exists_left_of_mem h.flip hz
  rw [hv] at hget
  exact Option.some.inj hget ▸ hu

end State

/-! ## Homogeneous lists -/

mutual

/-- The states have the same batch axes, nodes, attributes and placement, and homogeneous values
under every attribute. There is at least one. -/
inductive State.Homogeneous : List State → Prop
  | intro {xs : List State} (nonempty : xs ≠ [])
      (level : ∀ x ∈ xs, ∀ y ∈ xs,
        x.batchDims = y.batchDims ∧ x.paths = y.paths ∧ x.placement = y.placement)
      (names : ∀ x ∈ xs, ∀ y ∈ xs, ∀ path, x.attributeNames path = y.attributeNames path)
      (values : ∀ path name vs,
        List.Forall₂ (fun (x : State) v => x.attribute? path name = some v) xs vs →
        Value.Homogeneous vs) :
      State.Homogeneous xs

/-- The values are tensors of one shape, or they are states that are homogeneous. -/
inductive Value.Homogeneous : List Value → Prop
  | tensors (ts : List Tensor) (shape : List Nat) (shapes : ∀ t ∈ ts, t.shape = shape) :
      Value.Homogeneous (ts.map Value.tensor)
  | states (ss : List State) (nested : State.Homogeneous ss) :
      Value.Homogeneous (ss.map Value.state)

end

namespace State

/-! ## What can be stacked is homogeneous -/

mutual

theorem homogeneous_of_stackValue :
    ∀ {v : Value} {qualified : String} {vs : List Value} {r : Value},
      stackValue qualified v vs = .ok r → v.Everywhere tablesAscend →
        (∀ u ∈ vs, u.Everywhere tablesAscend) → Value.Homogeneous (v :: vs)
  | .tensor t, qualified, vs, r, h, _, _ => by
    obtain ⟨ts, rfl, hshape, -⟩ := stackValue_tensor_eq_ok_iff.1 h
    exact .tensors (t :: ts) t.shape hshape
  | .state s, qualified, vs, r, h, hs, hvs => by
    obtain ⟨ss, rfl, x, hx, -⟩ := stackValue_state_eq_ok_iff.1 h
    exact .states (s :: ss)
      (homogeneous_of_stackOnto hx hs fun o ho => hvs (.state o) (List.mem_map_of_mem ho))

theorem homogeneous_of_stackOnto :
    ∀ {s : State} {others : List State} {r : State},
      stackOnto s others = .ok r → s.Everywhere tablesAscend → (∀ o ∈ others, o.Ordered) →
        Homogeneous (s :: others)
  | ⟨nodes, dims, placement⟩, others, r, h, ⟨⟨hnodes, hlocals⟩, hinside⟩, hothers => by
    obtain ⟨hcheck, nodes', hstack, -⟩ := stackOnto_eq_ok_iff.1 h
    have hlevel : ∀ x ∈ ⟨nodes, dims, placement⟩ :: others,
        x.batchDims = dims ∧ x.paths = Table.keys nodes ∧ x.placement = placement :=
      List.forall_mem_cons.2 ⟨⟨rfl, rfl, rfl⟩, hcheck⟩
    have hall := homogeneous_of_stackNodes hstack hlocals hinside hothers
      fun o ho path hpath => (hcheck o ho).2.1 ▸ hpath
    -- every state has the attributes of the first one
    have hnames : ∀ x ∈ ⟨nodes, dims, placement⟩ :: others, ∀ path,
        x.attributeNames path = (Table.get? path nodes).map Table.keys := by
      refine List.forall_mem_cons.2 ⟨fun path => rfl, fun o ho path => ?_⟩
      refine attributeNames_of_paths (hcheck o ho).2.1 (fun e he l hl => ?_) path
      exact (hall e he).1 l (List.mem_map.2 ⟨o, ho, by rw [hl]; rfl⟩)
    refine .intro (List.cons_ne_nil _ _) (fun x hx y hy => ?_) (fun x hx y hy path => ?_)
      fun path name vs hvs => ?_
    · obtain ⟨hxd, hxp, hxl⟩ := hlevel x hx
      obtain ⟨hyd, hyp, hyl⟩ := hlevel y hy
      exact ⟨hxd.trans hyd.symm, hxp.trans hyp.symm, hxl.trans hyl.symm⟩
    · rw [hnames x hx, hnames y hy]
    · cases hvs with
      | cons hv hrest =>
        obtain ⟨l, hl, hget⟩ := attribute?_eq_some_iff.1 hv
        exact (hall _ (Table.mem_of_get?_eq_some hl)).2 _ (Table.mem_of_get?_eq_some hget) _
          (forall₂_localsAt hrest)

theorem homogeneous_of_stackNodes :
    ∀ {nodes : List (String × List (String × Value))} {others : List State}
      {r : List (String × List (String × Value))},
      stackNodes nodes others = .ok r → (∀ e ∈ nodes, Table.Sorted e.2) →
        nodesEverywhere tablesAscend nodes → (∀ o ∈ others, o.Ordered) →
        (∀ o ∈ others, ∀ path ∈ Table.keys nodes, path ∈ o.paths) →
        ∀ e ∈ nodes, (∀ other ∈ localsAt e.1 others, Table.keys other = Table.keys e.2) ∧
          ∀ a ∈ e.2, ∀ vs : List Value,
            List.Forall₂ (fun (l : LocalState) v => Table.get? a.1 l = some v)
              (localsAt e.1 others) vs → Value.Homogeneous (a.2 :: vs)
  | [], _, _, _, _, _, _, _ => nofun
  | (path, l) :: rest, others, r, h, hsorted, ⟨hl, hrest⟩, hothers, hpaths => by
    obtain ⟨stacked, hstacked, hlen, more, hmore, -⟩ := stackNodes_cons_eq_ok_iff.1 h
    obtain ⟨hlsorted, hsorted⟩ := List.forall_mem_cons.1 hsorted
    have hlocals :=
      ordered_of_mem_localsAt (fun o ho => hpaths o ho path List.mem_cons_self) hothers
    have hvalues := homogeneous_of_stackLocal hstacked hl fun other ho => (hlocals other ho).2
    have hmore := homogeneous_of_stackNodes hmore hsorted hrest hothers
      fun o ho p hp => hpaths o ho p (List.mem_cons_of_mem _ hp)
    refine List.forall_mem_cons.2 ⟨⟨fun other hother => ?_, hvalues⟩, hmore⟩
    exact keys_eq_of_stackLocal hstacked hlsorted hother (hlocals other hother).1
      (hlen other hother)

theorem homogeneous_of_stackLocal :
    ∀ {l : List (String × Value)} {path : String} {others : List LocalState}
      {r : List (String × Value)},
      stackLocal path l others = .ok r → localEverywhere tablesAscend l →
        (∀ o ∈ others, localEverywhere tablesAscend o) →
        ∀ a ∈ l, ∀ vs : List Value,
          List.Forall₂ (fun (l : LocalState) v => Table.get? a.1 l = some v) others vs →
            Value.Homogeneous (a.2 :: vs)
  | [], _, _, _, _, _, _ => nofun
  | (name, v) :: rest, path, others, r, h, ⟨hv, hrest⟩, hothers => by
    obtain ⟨vs, hvs, w, hw, more, hmore, -⟩ := stackLocal_cons_eq_ok_iff.1 h
    have hvalues : ∀ u ∈ vs, u.Everywhere tablesAscend := by
      intro u hu
      obtain ⟨o, ho, hget⟩ := Outcome.exists_left_of_mem hvs hu
      exact localEverywhere_iff.1 (hothers o ho) (name, u) (Table.mem_of_get?_eq_some hget)
    have hfirst := homogeneous_of_stackValue hw hv hvalues
    have hmore := homogeneous_of_stackLocal hmore hrest hothers
    refine List.forall_mem_cons.2 ⟨fun vs' hvs' => ?_, hmore⟩
    -- a column is determined by the local states
    have hcolumn := (@column_eq_ok_iff path name others vs').2 hvs'
    rw [column_eq_ok_iff.2 hvs] at hcolumn
    exact Except.ok.inj hcolumn ▸ hfirst

end

end State

/-! ## Homogeneous states have one outline -/

mutual

theorem Value.Homogeneous.outline_eq : ∀ {vs : List Value}, Value.Homogeneous vs →
    (∀ v ∈ vs, v.Everywhere State.tablesAscend) → ∀ v ∈ vs, ∀ w ∈ vs, v.outline = w.outline
  | _, .tensors ts shape shapes, _, v, hv, w, hw => by
    obtain ⟨t, ht, rfl⟩ := List.mem_map.1 hv
    obtain ⟨u, hu, rfl⟩ := List.mem_map.1 hw
    rw [Value.outline, Value.outline, shapes t ht, shapes u hu]
  | _, .states ss nested, hordered, v, hv, w, hw => by
    obtain ⟨s, hs, rfl⟩ := List.mem_map.1 hv
    obtain ⟨s', hs', rfl⟩ := List.mem_map.1 hw
    have hsame := State.Homogeneous.outline_eq nested
      (fun x hx => hordered (.state x) (List.mem_map_of_mem hx)) s hs s' hs'
    exact congrArg Value.state hsame

theorem State.Homogeneous.outline_eq : ∀ {xs : List State}, State.Homogeneous xs →
    (∀ x ∈ xs, x.Everywhere State.tablesAscend) → ∀ x ∈ xs, ∀ y ∈ xs, x.outline = y.outline
  | xs, .intro _ level names values, hordered, x, hx, y, hy => by
    obtain ⟨hdims, hpaths, hplacement⟩ := level x hx y hy
    obtain ⟨hsorted, hlocals⟩ := State.ordered_iff.1 (hordered x hx)
    refine State.outline_eq_iff.2 ⟨?_, hdims, hplacement⟩
    rw [nodesOutline_eq_mapValues, nodesOutline_eq_mapValues]
    refine Table.mapValues_eq_of_get? hsorted.nodup hpaths fun path l l' hl hl' => ?_
    rw [localOutline_eq_mapValues, localOutline_eq_mapValues]
    have hkeys : Table.keys l = Table.keys l' := by
      have hnames := names x hx y hy path
      rw [State.attributeNames, State.attributeNames, hl, hl'] at hnames
      exact Option.some.inj hnames
    have hlsorted := (hlocals _ (Table.mem_of_get?_eq_some hl)).1
    refine Table.mapValues_eq_of_get? hlsorted.nodup hkeys fun name v v' hv hv' => ?_
    -- every state has the attribute, so its values are homogeneous
    have hvx := State.attribute?_eq_some_iff.2 ⟨l, hl, hv⟩
    have hvy := State.attribute?_eq_some_iff.2 ⟨l', hl', hv'⟩
    obtain ⟨vs, hvs⟩ := State.exists_attributes (fun z hz => names z hz x hx path) hvx
    refine Value.Homogeneous.outline_eq (values path name vs hvs) (fun u hu => ?_)
      v (State.mem_attributes hvs hx hvx) v' (State.mem_attributes hvs hy hvy)
    obtain ⟨z, hz, hget⟩ := Outcome.exists_left_of_mem hvs hu
    exact State.everywhere_of_attribute? (hordered z hz) hget

end

namespace State

/-- Ordered states can be stacked exactly when they are homogeneous, and behind one more axis their
leaves could be arrays and their split axes have a number. -/
theorem stack_ok_iff_homogeneous {xs : List State} (hxs : ∀ x ∈ xs, x.Ordered) :
    (∃ r, stack xs = .ok r) ↔
      Homogeneous xs ∧ ∀ x ∈ xs, x.FitsArrays [xs.length] ∧ x.FitsBatch 1 := by
  cases xs with
  | nil =>
    constructor
    · rintro ⟨r, h⟩
      cases h
    · rintro ⟨⟨hne⟩, -⟩
      exact absurd rfl hne
  | cons x others =>
    obtain ⟨hx, hothers⟩ := List.forall_mem_cons.1 hxs
    constructor
    · rintro ⟨r, h⟩
      exact ⟨homogeneous_of_stackOnto h hx hothers,
        fun y hy => ⟨FitsArrays.of_stack hxs h y hy, FitsBatch.of_stack hxs h y hy⟩⟩
    · rintro ⟨h, hfits⟩
      obtain ⟨harrays, hroom⟩ := hfits x List.mem_cons_self
      obtain ⟨r, hr, -⟩ := exists_stackOnto (Everywhere.and hx hroom) harrays fun o ho =>
        h.outline_eq hxs o (List.mem_cons_of_mem _ ho) x List.mem_cons_self
      exact ⟨r, hr⟩

end State

/-! ## What a trail of attributes leads to -/

/-- The value that a trail of attributes leads to. -/
def Value.follow : List (String × String) → Value → Option Value
  | [], v => some v
  | (path, name) :: trail, .state s => (s.attribute? path name).bind (follow trail)
  | _ :: _, .tensor _ => none

namespace State

variable {F : Value → Value} {s s' : State}

theorem attribute?_of_nodes (h : s'.nodes = Table.mapValues (Table.mapValues F) s.nodes)
    (path name : String) : s'.attribute? path name = (s.attribute? path name).map F := by
  rw [attribute?, attribute?, h, Table.get?_mapValues]
  cases Table.get? path s.nodes with
  | none => rfl
  | some l => rw [Option.map_some, Option.bind_some, Option.bind_some, Table.get?_mapValues]

theorem paths_of_nodes (h : s'.nodes = Table.mapValues (Table.mapValues F) s.nodes) :
    s'.paths = s.paths := by
  rw [paths, paths, h, Table.keys_mapValues]

theorem attributeNames_of_nodes (h : s'.nodes = Table.mapValues (Table.mapValues F) s.nodes)
    (path : String) : s'.attributeNames path = s.attributeNames path := by
  rw [attributeNames, attributeNames, h, Table.get?_mapValues, Option.map_map]
  congr 1
  funext l
  exact Table.keys_mapValues ..

end State

namespace Value

/-- Such a function can be applied before or after a trail is followed. -/
theorem Pointwise.follow {F : Value → Value} (hF : Pointwise F) :
    ∀ (trail : List (String × String)) (v : Value),
      (F v).follow trail = (v.follow trail).map F
  | [], _ => rfl
  | _ :: _, .tensor t => by
    obtain ⟨u, hu⟩ := hF.tensor t
    rw [hu]
    rfl
  | (path, name) :: trail, .state s => by
    obtain ⟨s', hs', hnodes⟩ := hF.state s
    rw [hs', Value.follow, Value.follow, State.attribute?_of_nodes hnodes]
    cases s.attribute? path name with
    | none => rfl
    | some v => exact hF.follow trail v

end Value

/-- What is found inside a value that can be taken apart can be taken apart. -/
theorem Value.HasParts.follow {count : Nat} :
    ∀ {trail : List (String × String)} {v u : Value},
      v.HasParts count → v.follow trail = some u → u.HasParts count
  | [], _, _, hv, h => Option.some.inj h ▸ hv
  | _ :: _, .tensor _, _, _, h => by cases h
  | (path, name) :: trail, .state s, u, hs, h => by
    obtain ⟨v, hv, h⟩ := Option.bind_eq_some_iff.1 h
    obtain ⟨l, hl, hget⟩ := State.attribute?_eq_some_iff.1 hv
    have hlocal := (State.hasParts_iff.1 hs).2 _ (Table.mem_of_get?_eq_some hl)
    exact HasParts.follow (localHasParts_iff.1 hlocal _ (Table.mem_of_get?_eq_some hget)) h

namespace State

/-- What stacked states have at the end of a trail, given what their stack has there: nothing where
it has nothing, the rows of a tensor, and inside a state the nodes and attributes of that state
behind one batch axis less. -/
def StackedAt (xs : List State) (trail : List (String × String)) : Option Value → Prop
  | none => ∀ x ∈ xs, (Value.state x).follow trail = none
  | some (.tensor u) => ∃ shape, u.shape = xs.length :: shape ∧
      ∀ (i : Nat) (x : State), xs[i]? = some x →
        ∃ t, (Value.state x).follow trail = some (.tensor t) ∧ t.shape = shape ∧
          u.rows[i]? = some t
  | some (.state s) => ∀ x ∈ xs, ∃ y, (Value.state x).follow trail = some (.state y) ∧
      s.batchDims = xs.length :: y.batchDims ∧ s.paths = y.paths ∧
        ∀ path, s.attributeNames path = y.attributeNames path

/-- What a stacked state has at the end of a trail is a part of what the stack has there. -/
theorem follow_of_stack {xs : List State} {r : State} (hxs : ∀ x ∈ xs, x.Ordered)
    (h : stack xs = .ok r) {i : Nat} {x : State} (hx : xs[i]? = some x)
    (trail : List (String × String)) :
    (Value.state x).follow trail = ((Value.state r).follow trail).map (Value.part i) := by
  obtain ⟨-, rfl⟩ := (getElem?_of_unstack (unstack_stack hxs h)).1 hx
  exact (Value.pointwise_part i).follow trail (.state r)

/-- A part of a state has one batch axis less, and the same nodes and attributes. -/
theorem outside_of_part {count : Nat} {s : State} (hs : s.HasParts count) (i : Nat) :
    s.batchDims = count :: (s.part i).batchDims ∧ s.paths = (s.part i).paths ∧
      ∀ path, s.attributeNames path = (s.part i).attributeNames path := by
  obtain ⟨dims, hdims⟩ := List.head?_eq_some_iff.1 (hasParts_iff.1 hs).1
  have hpart := s.nodes_part_eq_mapValues i
  exact ⟨by rw [batchDims_part, hdims, List.tail_cons], (paths_of_nodes hpart).symm,
    fun path => (attributeNames_of_nodes hpart path).symm⟩

theorem stackedAt_of_stack {xs : List State} {r : State} (hxs : ∀ x ∈ xs, x.Ordered)
    (h : stack xs = .ok r) (trail : List (String × String)) :
    StackedAt xs trail ((Value.state r).follow trail) := by
  have hparts : (Value.state r).HasParts xs.length :=
    (unstack_eq_ok_iff_parts.1 (unstack_stack hxs h)).1
  cases hr : (Value.state r).follow trail with
  | none =>
    intro x hx
    obtain ⟨i, hi⟩ := List.mem_iff_getElem?.1 hx
    have hone := follow_of_stack hxs h hi trail
    rwa [hr] at hone
  | some u =>
    have hu := hparts.follow hr
    have hone : ∀ {i : Nat} {x : State}, xs[i]? = some x →
        (Value.state x).follow trail = some (u.part i) := by
      intro i x hx
      rw [follow_of_stack hxs h hx trail, hr]
      rfl
    -- what a state of the list has at the place is a part of `u`, and so of the same kind
    cases u with
    | tensor u =>
      obtain ⟨shape, hshape⟩ := hu
      refine ⟨shape, hshape, fun i x hx => ?_⟩
      obtain ⟨row, hrow, hrowshape, -⟩ :=
        Tensor.getElem?_rows hshape (List.getElem?_eq_some_iff.1 hx).1
      have hv := hone hx
      rw [Value.part, hrow, Option.getD_some] at hv
      exact ⟨row, hv, hrowshape, hrow⟩
    | state s =>
      intro x hx
      obtain ⟨i, hi⟩ := List.mem_iff_getElem?.1 hx
      exact ⟨s.part i, hone hi, outside_of_part hu i⟩

/-- **Stacking accepts exactly homogeneous lists**, as long as what the leaves become could be
arrays and the split axes have a number behind one more axis, at every depth. What it gives has one
more axis in front everywhere: at every depth it has the nodes and attributes of the states, behind
one more batch axis, and in the rows of every tensor the tensors of the states. -/
theorem stack_homogeneous (xs : List State) (hxs : ∀ x ∈ xs, x.Ordered) :
    ((∃ r, stack xs = .ok r) ↔
      Homogeneous xs ∧ ∀ x ∈ xs, x.FitsArrays [xs.length] ∧ x.FitsBatch 1) ∧
    ∀ r, stack xs = .ok r → ∀ trail, StackedAt xs trail ((Value.state r).follow trail) :=
  ⟨stack_ok_iff_homogeneous hxs, fun _ h trail => stackedAt_of_stack hxs h trail⟩

/-- A state with a state inside, which has a leaf of the given numbers. -/
def wrapping (data : List Float) : State :=
  { nodes := [("w", [("inner", .state { nodes := [("p", [("x", .tensor (.vector data))])] })])] }

theorem ordered_wrapping (data : List Float) : (wrapping data).Ordered := by
  have hinner : ∀ e ∈ [("x", Value.tensor (.vector data))], e.2.Everywhere tablesAscend :=
    List.forall_mem_singleton.2 trivial
  refine ordered_iff.2 ⟨List.pairwise_singleton _ _, List.forall_mem_singleton.2
    ⟨List.pairwise_singleton _ _, localEverywhere_iff.2 (List.forall_mem_singleton.2 ?_)⟩⟩
  exact ordered_iff.2 ⟨List.pairwise_singleton _ _, List.forall_mem_singleton.2
    ⟨List.pairwise_singleton _ _, localEverywhere_iff.2 hinner⟩⟩

theorem fitsArrays_wrapping {dims : List Nat} {data : List Float}
    (h : Tensor.IsArrayShape (dims ++ [data.length])) : (wrapping data).FitsArrays dims := by
  have hleaf : ∀ a ∈ [("x", Value.tensor (.vector data))], a.2.LeafFits dims :=
    List.forall_mem_singleton.2 h
  have hinner : FitsArrays dims { nodes := [("p", [("x", .tensor (.vector data))])] } :=
    ⟨List.forall_mem_singleton.2 hleaf, ⟨trivial, trivial⟩, trivial⟩
  exact ⟨List.forall_mem_singleton.2 (List.forall_mem_singleton.2 trivial), ⟨hinner, trivial⟩,
    trivial⟩

/-- Nothing is split in it. -/
theorem fitsBatch_wrapping (axes : Nat) (data : List Float) : (wrapping data).FitsBatch axes :=
  ⟨nofun, ⟨⟨nofun, ⟨trivial, trivial⟩, trivial⟩, trivial⟩, trivial⟩

/-- Leaves inside have to agree in their shapes, but not in their numbers. -/
theorem stack_homogeneous_wrapping :
    Homogeneous [wrapping [1, 2], wrapping [3, 4]] ∧
      ¬ Homogeneous [wrapping [1, 2], wrapping [3, 4, 5]] ∧
      ∃ r, stack [wrapping [1, 2], wrapping [3, 4]] = .ok r ∧
        StackedAt [wrapping [1, 2], wrapping [3, 4]] [("w", "inner"), ("p", "x")]
          ((Value.state r).follow [("w", "inner"), ("p", "x")]) := by
  obtain ⟨hiff, hstacked⟩ := stack_homogeneous [wrapping [1, 2], wrapping [3, 4]]
    (by simp [ordered_wrapping])
  obtain ⟨hother, -⟩ := stack_homogeneous [wrapping [1, 2], wrapping [3, 4, 5]]
    (by simp [ordered_wrapping])
  have hok := Outcome.exists_eq_ok (o := stack [wrapping [1, 2], wrapping [3, 4]])
    (by decide +kernel)
  obtain ⟨r, hr⟩ := hok
  refine ⟨(hiff.1 ⟨r, hr⟩).1, fun h => ?_, r, hr, hstacked r hr _⟩
  have hfits : ∀ x ∈ [wrapping [1, 2], wrapping [3, 4, 5]], x.FitsArrays [2] ∧ x.FitsBatch 1 :=
    List.forall_mem_cons.2 ⟨⟨fitsArrays_wrapping (by decide), fitsBatch_wrapping 1 _⟩,
      List.forall_mem_singleton.2 ⟨fitsArrays_wrapping (by decide), fitsBatch_wrapping 1 _⟩⟩
  obtain ⟨r', hr'⟩ := hother.2 ⟨h, hfits⟩
  have hnone : (stack [wrapping [1, 2], wrapping [3, 4, 5]]).toOption.isSome = false := by
    decide +kernel
  rw [hr'] at hnone
  cases hnone

/-- A state with a leaf that has no numbers and is as long as an array can be alone. -/
def vast : State := { nodes := [("p", [("x", .tensor (.constant [2 ^ 62, 0] 0))])] }

/-- Two states are homogeneous because they are the same one, and their leaf could be an array. They
cannot be stacked, because two such leaves together could not. -/
theorem vast_homogeneous_not_stacked :
    vast.Ordered ∧ vast.HoldsArrays ∧ Homogeneous [vast, vast] ∧
      stack [vast, vast] = .error (.shape .overflow) := by
  have hleaf : ∀ {path name : String} {v : Value}, vast.attribute? path name = some v →
      v = .tensor (.constant [2 ^ 62, 0] 0) := by
    intro path name v h
    obtain ⟨l, hl, hget⟩ := attribute?_eq_some_iff.1 h
    obtain ⟨-, rfl⟩ := Prod.mk.inj (List.mem_singleton.1 (Table.mem_of_get?_eq_some hl))
    exact (Prod.mk.inj (List.mem_singleton.1 (Table.mem_of_get?_eq_some hget))).2
  have hsame : ∀ x ∈ [vast, vast], x = vast := by simp
  have harray : (Value.tensor (.constant [2 ^ 62, 0] 0)).LeafFits [] := by decide
  have hordered : vast.Ordered := ordered_iff.2 ⟨List.pairwise_singleton _ _,
    List.forall_mem_singleton.2 ⟨List.pairwise_singleton _ _, trivial, trivial⟩⟩
  refine ⟨hordered, ⟨List.forall_mem_singleton.2 (List.forall_mem_singleton.2 harray),
    ⟨trivial, trivial⟩, trivial⟩, ?_, rfl⟩
  refine .intro (List.cons_ne_nil _ _) (fun x hx y hy => ?_) (fun x hx y hy path => ?_)
    fun path name vs hvs => ?_
  · rw [hsame x hx, hsame y hy]
    exact ⟨rfl, rfl, rfl⟩
  · rw [hsame x hx, hsame y hy]
  · cases hvs with
    | cons hv hvs =>
      cases hvs with
      | cons hv' hvs =>
        cases hvs
        rw [hleaf hv, hleaf hv']
        exact .tensors [.constant [2 ^ 62, 0] 0, .constant [2 ^ 62, 0] 0] [2 ^ 62, 0]
          (by simp [Tensor.constant])

end State

end Lockstep
