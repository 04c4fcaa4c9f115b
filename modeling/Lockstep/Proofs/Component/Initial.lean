import Lockstep.Proofs.Component.Preorder
import Lockstep.Proofs.State.Ordered

/-!
# First states of trees

A tree and its component are walked side by side: a node stands where the walk has the component
whose schema it carries (`Component.Places`, `Tree.exists_node_of_places`). So a first state exists
exactly when every component of the walk, at the place of its node, returns what its schema still
lacks (`Tree.initialState_ok_iff`), and the local state at a node comes from the component there,
its place and the key, and from nothing else (`Tree.resolve_of_initialState`).

The tables of a first state ascend when the components start with ordered local states
(`State.ordered_of_initialState`).
-/

namespace Lockstep

open Lockstep.Random

/-! ## What a schema asks for -/

namespace Schema

theorem mem_statefulNames {s : Schema} {name : String} :
    name ∈ s.statefulNames ↔ ∃ a ∈ s.stateful, a.name = name := by
  rw [statefulNames, Table.mem_keys_ofList, List.map_map, List.mem_map]
  rfl

/-- What a component returns and the parameters with a default are together the stateful
attributes. -/
def PopulatedBy (s : Schema) (own : LocalState) : Prop :=
  ∀ name, (name ∈ Table.keys own ∨
    ∃ a ∈ s.parameters, a.default.isSome = true ∧ a.name = name) ↔ ∃ a ∈ s.stateful, a.name = name

end Schema

namespace Tree

/-- The defaults are for the parameters that have one. -/
theorem mem_keys_parameterDefaults {s : Schema} {name : String} :
    name ∈ Table.keys (parameterDefaults s) ↔
      ∃ a ∈ s.parameters, a.default.isSome = true ∧ a.name = name := by
  rw [parameterDefaults, Table.mem_keys_ofList]
  constructor
  · intro h
    obtain ⟨e, he, rfl⟩ := List.mem_map.1 h
    obtain ⟨a, ha, he⟩ := List.mem_filterMap.1 he
    obtain ⟨t, ht, rfl⟩ := Option.map_eq_some_iff.1 he
    exact ⟨a, ha, Option.isSome_of_eq_some ht, rfl⟩
  · rintro ⟨a, ha, hsome, rfl⟩
    obtain ⟨t, ht⟩ := Option.isSome_iff_exists.1 hsome
    exact List.mem_map.2 ⟨(a.name, .tensor t), List.mem_filterMap.2 ⟨a, ha, by rw [ht]; rfl⟩, rfl⟩

/-- The default of a parameter, if it has one. -/
theorem get?_parameterDefaults {s : Schema} (hs : Path.NamesFit (s.map Attribute.name))
    {a : Attribute} (ha : a ∈ s.parameters) :
    Table.get? a.name (parameterDefaults s) = a.default.map Value.tensor := by
  have hnodup : (s.parameters.map Attribute.name).Nodup :=
    hs.2.sublist (List.filter_sublist.map _)
  cases hdefault : a.default with
  | none =>
    -- a default under this name would be that of another parameter
    refine Table.get?_eq_none_iff.2 fun hmem => ?_
    obtain ⟨b, hb, hsome, hname⟩ := mem_keys_parameterDefaults.1 hmem
    obtain rfl := List.inj_on_of_nodup_map hnodup hb ha hname
    rw [hdefault] at hsome
    cases hsome
  | some t =>
    refine Table.get?_ofList_of_mem (hnodup.sublist (Table.sublist_keys_filterMap ..))
      (List.mem_filterMap.2 ⟨a, ha, ?_⟩)
    rw [hdefault]
    rfl

/-- A value that the component returned hides the default of a parameter. -/
theorem get?_union_parameterDefaults {s : Schema} (hs : Path.NamesFit (s.map Attribute.name))
    {own : LocalState} (hown : Table.Sorted own) {a : Attribute} (ha : a ∈ s.parameters) :
    Table.get? a.name (Table.union (parameterDefaults s) own) =
      (Table.get? a.name own).or (a.default.map Value.tensor) := by
  cases hget : Table.get? a.name own with
  | none =>
    rw [Table.get?_union_of_not_mem (Table.get?_eq_none_iff.1 hget), get?_parameterDefaults hs ha]
    rfl
  | some v =>
    rw [Table.get?_union_of_mem hown.nodup (Table.mem_of_get?_eq_some hget)]
    rfl

/-- A local state at the start has the component's own attributes and the parameters with a default.
-/
theorem mem_keys_union_parameterDefaults {s : Schema} {own : LocalState} {name : String} :
    name ∈ Table.keys (Table.union (parameterDefaults s) own) ↔ name ∈ Table.keys own ∨
      ∃ a ∈ s.parameters, a.default.isSome = true ∧ a.name = name := by
  rw [Table.mem_keys_union, mem_keys_parameterDefaults, or_comm]
  rfl

end Tree

/-- The attributes at the start are those that are declared as stateful, each once. -/
theorem Schema.populatedBy_iff {s : Schema} {own : LocalState} :
    s.PopulatedBy own ↔
      s.statefulNames = Table.keys (Table.union (Tree.parameterDefaults s) own) := by
  constructor
  · intro h
    refine Table.keys_eq_of_mem_iff (Table.sorted_ofList _)
      (Table.sorted_union (Table.sorted_ofList _) own) fun name => ?_
    exact mem_statefulNames.trans
      ((h name).symm.trans Tree.mem_keys_union_parameterDefaults.symm)
  · intro h name
    rw [← Tree.mem_keys_union_parameterDefaults, ← h, mem_statefulNames]

/-! ## Components at the places of nodes -/

namespace Component

/-- What a component returns at a place. -/
def drawn (c : Component) (node : NodeContext) (key : Key) : Outcome LocalState :=
  c.init node ((key.fold (.ofNat node.id)).generator initialStream)

/-- The walk of `root` has a component at the place of a node. -/
def Places (root : Component) (node : NodeContext) (c : Component) : Prop :=
  ∃ names, (root.walk [])[node.id]? = some (names, c) ∧ node.path = Path.join names

/-- Where the component and those below it return parameters, these are tensors. -/
def ReturnsTensors (c : Component) : Prop :=
  ∀ x ∈ c.preorder, ∀ {node g l}, x.init node g = .ok l →
    ∀ a ∈ x.schema.parameters, ∀ v, Table.get? a.name l = some v → ∃ u, v = .tensor u

/-- The component and all below it start with ordered local states. -/
def StartsOrdered (c : Component) : Prop :=
  ∀ x ∈ c.preorder, ∀ {node g l}, x.init node g = .ok l → LocalState.Ordered l

/-- A component without children. -/
theorem startsOrdered_of_leaf {c : Component} (hc : c.children = [])
    (h : ∀ {node g l}, c.init node g = .ok l → LocalState.Ordered l) : c.StartsOrdered := by
  obtain ⟨schema, init, children⟩ := c
  obtain rfl : children = [] := hc
  rw [StartsOrdered, preorder, preorderList]
  exact List.forall_mem_singleton.2 h

theorem Places.mem_preorder {root c : Component} {node : NodeContext} (h : root.Places node c) :
    c ∈ root.preorder := by
  obtain ⟨names, hplace, -⟩ := h
  rw [← map_snd_walk []]
  exact List.mem_map_of_mem (f := Prod.snd) (List.mem_of_getElem? hplace)

/-- A child of the root stands at the path of its name. -/
theorem exists_places_of_mem_children {root c : Component} {name : String}
    (hc : (name, c) ∈ root.children) : ∃ id, root.Places ⟨id, name⟩ c := by
  have hbelow : ∀ {children : List (String × Component)}, (name, c) ∈ children →
      ([name], c) ∈ walkList [] children := by
    intro children hmem
    induction children with
    | nil => cases hmem
    | cons e rest ih =>
      rw [walkList, List.nil_append, walk_eq]
      rcases List.mem_cons.1 hmem with rfl | hmem
      · exact List.mem_cons_self
      · exact List.mem_append_right _ (ih hmem)
  have hwalk : ([name], c) ∈ root.walk [] := by
    rw [walk_eq]
    exact List.mem_cons_of_mem _ (hbelow hc)
  obtain ⟨id, hplace⟩ := List.mem_iff_getElem?.1 hwalk
  exact ⟨id, [name], hplace, String.intercalate_singleton.symm⟩

end Component

namespace Tree

variable {key : Key} {root c : Component} {t : Tree} {s : State}

/-- A node stands beside the component that it was made for. -/
theorem represents_of_mem_zip {w es : List (List String × Component)} {n : TreeNode}
    (h : List.Forall₂ (Represents w) es t) (hmem : (n, c) ∈ t.zip (es.map Prod.snd)) :
    ∃ names, Represents w (names, c) n := by
  induction h with
  | nil => cases hmem
  | @cons e n' es ns he _ ih =>
    rw [List.map_cons, List.zip_cons_cons] at hmem
    rcases List.mem_cons.1 hmem with hsame | hmem
    · obtain ⟨rfl, rfl⟩ := Prod.mk.inj hsame
      exact ⟨e.1, he⟩
    · exact ih hmem

/-- Every component has the node that was made for it. -/
theorem exists_mem_zip {w es : List (List String × Component)} {e : List String × Component}
    (h : List.Forall₂ (Represents w) es t) (he : e ∈ es) :
    ∃ n, (n, e.2) ∈ t.zip (es.map Prod.snd) ∧ Represents w e n := by
  induction h with
  | nil => cases he
  | @cons e' n es ns hn _ ih =>
    rw [List.map_cons, List.zip_cons_cons]
    rcases List.mem_cons.1 he with rfl | he
    · exact ⟨n, List.mem_cons_self, hn⟩
    · obtain ⟨n', hmem, hn'⟩ := ih he
      exact ⟨n', List.mem_cons_of_mem _ hmem, hn'⟩

/-- A node stands beside the component at its place. -/
theorem places_of_mem_zip (h : build root = .ok t) {n : TreeNode}
    (hmem : (n, c) ∈ t.zip root.preorder) : root.Places n.context c ∧ n.schema = c.schema := by
  rw [← Component.map_snd_walk []] at hmem
  obtain ⟨names, hn⟩ := represents_of_mem_zip (represents_of_build h).1 hmem
  exact ⟨⟨names, hn.place, hn.path⟩, hn.schema⟩

/-- Where a component is placed, there is a node with its context and schema. -/
theorem exists_node_of_places (h : build root = .ok t) {node : NodeContext}
    (hplaces : root.Places node c) :
    ∃ n, (n, c) ∈ t.zip root.preorder ∧ n.context = node ∧ n.schema = c.schema := by
  obtain ⟨names, hplace, hpath⟩ := hplaces
  obtain ⟨n, hmem, hn⟩ := exists_mem_zip (represents_of_build h).1 (List.mem_of_getElem? hplace)
  rw [Component.map_snd_walk] at hmem
  have hid : n.context.id = node.id := place_unique h hn.place hplace
  have hsame : n.context.path = node.path := hn.path.trans hpath.symm
  exact ⟨n, hmem, congrArg₂ NodeContext.mk hid hsame, hn.schema⟩

/-! ## Filling a state -/

/-- The local state of a node holds what its component returned over the defaults. -/
theorem initialLocal_eq_ok_iff {n : TreeNode} {l : LocalState} :
    initialLocal key n c = .ok l ↔ ∃ own, c.drawn n.context key = .ok own ∧
      n.schema.PopulatedBy own ∧ l = Table.union (parameterDefaults n.schema) own := by
  rw [initialLocal, Outcome.bind_eq_ok_iff]
  refine exists_congr fun own => and_congr_right fun _ => ?_
  dsimp only
  rw [Outcome.bind_eq_ok_iff, Schema.populatedBy_iff, Schema.checkLocal]
  constructor
  · rintro ⟨_, hcheck, hl⟩
    split at hcheck
    · next hnames => exact ⟨hnames, (Except.ok.inj hl).symm⟩
    · cases hcheck
  · rintro ⟨hnames, rfl⟩
    exact ⟨(), if_pos hnames, rfl⟩

/-- The nodes are filled if each component gives its local state. -/
theorem fill_ok_iff {xs : List (TreeNode × Component)} :
    ∀ {s : State}, (∃ u, fill key xs s = .ok u) ↔
      ∀ e ∈ xs, ∃ l, initialLocal key e.1 e.2 = .ok l := by
  induction xs with
  | nil => exact fun {s} => ⟨fun _ => nofun, fun _ => ⟨s, rfl⟩⟩
  | cons e rest ih =>
    intro s
    rw [List.forall_mem_cons]
    constructor
    · rintro ⟨u, h⟩
      obtain ⟨l, hl, h⟩ := fill_cons_eq_ok_iff.1 h
      exact ⟨⟨l, hl⟩, ih.1 ⟨u, h⟩⟩
    · rintro ⟨⟨l, hl⟩, hrest⟩
      obtain ⟨u, hu⟩ := ih.2 hrest
      exact ⟨u, fill_cons_eq_ok_iff.2 ⟨l, hl, hu⟩⟩

/-- Filling puts the initial local state of a component at its node. -/
theorem get?_of_fill_of_mem {n : TreeNode} :
    ∀ {xs : List (TreeNode × Component)} {s t : State}, fill key xs s = .ok t →
      (xs.map fun e => e.1.context.path).Nodup → (n, c) ∈ xs →
        ∃ l, initialLocal key n c = .ok l ∧ Table.get? n.context.path t.nodes = some l
  | [], s, t, _, _, hmem => by cases hmem
  | (n', c') :: rest, s, t, h, hnodup, hmem => by
    obtain ⟨hfirst, hrest⟩ := List.nodup_cons.1 hnodup
    obtain ⟨l, hl, hfill⟩ := fill_cons_eq_ok_iff.1 h
    rcases List.mem_cons.1 hmem with he | hmem
    · obtain ⟨rfl, rfl⟩ := Prod.mk.inj he
      -- no later node has this path
      have hlater : ∀ e ∈ rest, e.1.context.path ≠ n.context.path := by
        intro e he heq
        exact hfirst (List.mem_map.2 ⟨e, he, heq⟩)
      refine ⟨l, hl, ?_⟩
      rw [get?_of_fill hfill hlater]
      exact Table.get?_insert_self s.nodes n.context.path l
    · exact get?_of_fill_of_mem hfill hrest hmem

theorem ordered_parameterDefaults (s : Schema) : LocalState.Ordered (parameterDefaults s) := by
  refine LocalState.ordered_ofList fun e he => ?_
  obtain ⟨a, -, ha⟩ := List.mem_filterMap.1 he
  obtain ⟨t, -, rfl⟩ := Option.map_eq_some_iff.1 ha
  trivial

/-- A local state at the start is in order if the component's own one is. -/
theorem ordered_initialLocal {n : TreeNode} {l : LocalState}
    (hc : ∀ {node g l}, c.init node g = .ok l → LocalState.Ordered l)
    (h : initialLocal key n c = .ok l) : l.Ordered := by
  obtain ⟨own, hown, -, rfl⟩ := initialLocal_eq_ok_iff.1 h
  obtain ⟨hsorted, hdefaults⟩ := ordered_parameterDefaults n.schema
  refine ⟨Table.sorted_union hsorted own, localEverywhere_iff.2 fun e he => ?_⟩
  rcases Table.mem_of_mem_union he with he | he
  · exact localEverywhere_iff.1 hdefaults e he
  · exact localEverywhere_iff.1 (hc hown).2 e he

/-- Filling the nodes keeps a state in order. -/
theorem ordered_of_fill :
    ∀ {xs : List (TreeNode × Component)} {s t : State},
      (∀ e ∈ xs, ∀ {node g l}, e.2.init node g = .ok l → LocalState.Ordered l) → s.Ordered →
        fill key xs s = .ok t → t.Ordered
  | [], s, t, _, hs, h => by
    obtain rfl := Except.ok.inj h
    exact hs
  | (n, c) :: rest, s, t, hxs, hs, h => by
    obtain ⟨hc, hrest⟩ := List.forall_mem_cons.1 hxs
    obtain ⟨l, hl, h⟩ := fill_cons_eq_ok_iff.1 h
    exact ordered_of_fill hrest (hs.withNode _ (ordered_initialLocal hc hl)) h

end Tree

/-- A state at the start is in order if the components start so. -/
theorem State.ordered_of_initialState {root : Component} {tree : Tree} {key : Key} {s : State}
    (h : tree.initialState root key = .ok s) (hroot : root.StartsOrdered) : s.Ordered :=
  Tree.ordered_of_fill (fun _ he => hroot _ (List.of_mem_zip he).2) ordered_empty
    (Tree.initialState_eq_ok h).2

/-! ## The first state of a tree -/

namespace Tree

variable {key : Key} {root c : Component} {t : Tree} {s : State}

/-- A state at the start exists if every component draws what its schema declares. -/
theorem initialState_ok_iff (h : build root = .ok t) :
    (∃ s, t.initialState root key = .ok s) ↔ ∀ node c, root.Places node c →
      ∃ own, c.drawn node key = .ok own ∧ c.schema.PopulatedBy own := by
  have hlength : ¬ root.preorder.length ≠ t.length := not_not.2 (Component.length_of_nodes h).symm
  have hfill : t.initialState root key = fill key (t.zip root.preorder) .empty := if_neg hlength
  rw [hfill, fill_ok_iff]
  constructor
  · intro hall node c hplaces
    obtain ⟨n, hmem, rfl, hschema⟩ := exists_node_of_places h hplaces
    obtain ⟨l, hl⟩ := hall _ hmem
    obtain ⟨own, hown, hpopulated, -⟩ := initialLocal_eq_ok_iff.1 hl
    exact ⟨own, hown, hschema ▸ hpopulated⟩
  · rintro hall ⟨n, c⟩ hmem
    obtain ⟨hplaces, hschema⟩ := places_of_mem_zip h hmem
    obtain ⟨own, hown, hpopulated⟩ := hall _ _ hplaces
    exact ⟨_, initialLocal_eq_ok_iff.2 ⟨own, hown, hschema ▸ hpopulated, rfl⟩⟩

/-- The local state at the place of a component. -/
theorem resolve_of_initialState (h : build root = .ok t) (hs : t.initialState root key = .ok s)
    {node : NodeContext} (hplaces : root.Places node c) :
    ∃ own, c.drawn node key = .ok own ∧ c.schema.PopulatedBy own ∧
      s.resolve node.path = .ok (Table.union (parameterDefaults c.schema) own) := by
  obtain ⟨hlength, hfill⟩ := initialState_eq_ok hs
  have hpaths : (t.zip root.preorder).map (fun e => e.1.context.path) = t.paths := by
    have hfst := congrArg Tree.paths (List.map_fst_zip hlength.ge)
    rwa [Tree.paths, List.map_map] at hfst
  obtain ⟨n, hmem, rfl, hschema⟩ := exists_node_of_places h hplaces
  obtain ⟨l, hl, hget⟩ := get?_of_fill_of_mem hfill (hpaths ▸ nodup_paths_of_build h) hmem
  obtain ⟨own, hown, hpopulated, rfl⟩ := initialLocal_eq_ok_iff.1 hl
  rw [hschema] at hpopulated hget
  exact ⟨own, hown, hpopulated, State.resolve_eq_ok_iff.2 hget⟩

/-- A state at the start has the paths of the tree and no others. -/
theorem contains_initialState_iff (hs : t.initialState root key = .ok s) {path : String} :
    s.contains path = true ↔ path ∈ t.paths := by
  constructor
  · intro hcontains
    by_contra hpath
    -- a node at another path would have been there from the start
    have hget : Table.get? path s.nodes = Table.get? path State.empty.nodes :=
      get?_of_fill (initialState_eq_ok hs).2 fun e he heq =>
        hpath (List.mem_map.2 ⟨e.1, (List.of_mem_zip he).1, heq⟩)
    rw [State.contains, Table.contains, hget] at hcontains
    cases hcontains
  · intro hpath
    obtain ⟨n, hn, rfl⟩ := List.mem_map.1 hpath
    exact contains_of_initialState hs hn

/-- Every node of the tree is where some component is placed. -/
theorem exists_places_of_mem (h : build root = .ok t) {n : TreeNode} (hn : n ∈ t) :
    ∃ c, root.Places n.context c ∧ n.schema = c.schema := by
  obtain ⟨⟨names, c⟩, hrepr⟩ := exists_represents h hn
  exact ⟨c, ⟨names, hrepr.place, hrepr.path⟩, hrepr.schema⟩

/-- A parameter is a leaf of the first state. -/
theorem leaf_of_initialState (h : build root = .ok t) (hs : t.initialState root key = .ok s)
    (hordered : root.StartsOrdered) (htensors : root.ReturnsTensors) {node : NodeContext}
    (hplaces : root.Places node c) {a : Attribute} (ha : a ∈ c.schema.parameters) :
    ∃ own u, c.drawn node key = .ok own ∧ s.leaf (node.qualify a.name) = .ok u ∧
      (Table.get? a.name own).or (a.default.map Value.tensor) = some (.tensor u) := by
  obtain ⟨own, hown, hpopulated, hresolve⟩ := resolve_of_initialState h hs hplaces
  obtain ⟨n, hmem, -, hschema⟩ := exists_node_of_places h hplaces
  have hfit : Path.NamesFit (c.schema.map Attribute.name) :=
    hschema ▸ namesFit_of_build h n (List.of_mem_zip hmem).1
  have hname : Path.isName a.name = true :=
    hfit.1 _ (List.mem_map_of_mem (List.mem_filter.1 ha).1)
  have hget := get?_union_parameterDefaults hfit (hordered c hplaces.mem_preorder hown).1 ha
  -- what was returned is a tensor, a default is one, and one of the two is there
  obtain ⟨u, hu⟩ : ∃ u, (Table.get? a.name own).or (a.default.map Value.tensor) =
      some (.tensor u) := by
    cases hreturned : Table.get? a.name own with
    | some v =>
      obtain ⟨u, rfl⟩ := htensors c hplaces.mem_preorder hown a ha v hreturned
      exact ⟨u, rfl⟩
    | none =>
      have hstateful : a ∈ c.schema.stateful := by
        obtain ⟨hmem, hrole⟩ := List.mem_filter.1 ha
        exact List.mem_filter.2 ⟨hmem, by simp [of_decide_eq_true hrole, Role.isStateful]⟩
      have hkey := mem_keys_union_parameterDefaults.2 ((hpopulated a.name).2 ⟨a, hstateful, rfl⟩)
      rw [← Table.get?_isSome_iff, hget, hreturned, Option.none_or, Option.isSome_map] at hkey
      obtain ⟨u, hu⟩ := Option.isSome_iff_exists.1 hkey
      exact ⟨u, by rw [hu]; rfl⟩
  refine ⟨own, u, hown, State.leaf_eq_ok_iff.2 ?_, hu⟩
  rw [NodeContext.qualify, Path.split_qualify _ hname]
  exact ⟨_, hresolve, hget.trans hu⟩

/-- **First states hold what is declared.** The nodes of a tree are the places of the walk. The
first state exists exactly when every component returns, at its place, what its schema has no
default for. It has the paths of the tree, and at each of them the stateful attributes of the
component there, whose values come from the component, its place and the key; a parameter has the
tensor that was returned, or else its default. -/
theorem initialState_holds_declared (h : build root = .ok t) (key : Key) :
    (∀ node schema, (∃ n ∈ t, n.context = node ∧ n.schema = schema) ↔
      ∃ c, root.Places node c ∧ c.schema = schema) ∧
    ((∃ s, t.initialState root key = .ok s) ↔ ∀ node c, root.Places node c →
      ∃ own, c.drawn node key = .ok own ∧ c.schema.PopulatedBy own) ∧
    ∀ s, t.initialState root key = .ok s →
      (∀ path, s.contains path = true ↔ path ∈ t.paths) ∧
      (∀ node c, root.Places node c → ∃ own l, c.drawn node key = .ok own ∧
        l = Table.union (parameterDefaults c.schema) own ∧ s.resolve node.path = .ok l ∧
        ∀ name, name ∈ Table.keys l ↔ ∃ a ∈ c.schema.stateful, a.name = name) ∧
      (root.StartsOrdered → root.ReturnsTensors → ∀ e ∈ t.parameters,
        ∃ node c own u, root.Places node c ∧ e.2 ∈ c.schema.parameters ∧
          e.1 = node.qualify e.2.name ∧ c.drawn node key = .ok own ∧ s.leaf e.1 = .ok u ∧
          (Table.get? e.2.name own).or (e.2.default.map Value.tensor) = some (.tensor u)) ∧
      ∀ root' t' s', build root' = .ok t' → t'.initialState root' key = .ok s' →
        ∀ node c c', root.Places node c → root'.Places node c' → c'.schema = c.schema →
          c'.init = c.init → s'.resolve node.path = s.resolve node.path := by
  refine ⟨fun node schema => ⟨?_, ?_⟩, initialState_ok_iff h, fun s hs =>
    ⟨fun path => contains_initialState_iff hs, fun node c hplaces => ?_,
      fun hordered htensors e he => ?_,
      fun root' t' s' h' hs' node c c' hplaces hplaces' hschema hinit => ?_⟩⟩
  · -- nodes and places: the tree is the walk with a schema and a number at every place
    rintro ⟨n, hn, rfl, rfl⟩
    obtain ⟨c, hplaces, hschema⟩ := exists_places_of_mem h hn
    exact ⟨c, hplaces, hschema.symm⟩
  · rintro ⟨c, hplaces, rfl⟩
    obtain ⟨n, hmem, hcontext, hschema⟩ := exists_node_of_places h hplaces
    exact ⟨n, (List.of_mem_zip hmem).1, hcontext, hschema⟩
  · obtain ⟨own, hown, hpopulated, hresolve⟩ := resolve_of_initialState h hs hplaces
    exact ⟨own, _, hown, rfl, hresolve, fun name =>
      mem_keys_union_parameterDefaults.trans (hpopulated name)⟩
  · -- a parameter of the tree is one of a node, so that there is a component to start
    obtain ⟨n, hn, he⟩ := List.mem_flatMap.1 he
    obtain ⟨a, ha, rfl⟩ := List.mem_map.1 he
    obtain ⟨c, hplaces, hschema⟩ := exists_places_of_mem h hn
    rw [hschema] at ha
    obtain ⟨own, u, hown, hleaf, hu⟩ := leaf_of_initialState h hs hordered htensors hplaces ha
    exact ⟨n.context, c, own, u, hplaces, ha, rfl, hown, hleaf, hu⟩
  · -- a component sees its place and the key only, and both runs give it the same
    obtain ⟨own, hown, -, hresolve⟩ := resolve_of_initialState h hs hplaces
    obtain ⟨own', hown', -, hresolve'⟩ := resolve_of_initialState h' hs' hplaces'
    rw [Component.drawn, hinit] at hown'
    obtain rfl := Except.ok.inj (hown.symm.trans hown')
    rw [hresolve, hresolve', hschema]

/-- A part that returns another value for its parameter than the default, and draws a number. -/
def drawingPart : Component :=
  ⟨[.parameter "size" (.scalar 1), .mutable "x"],
    fun _ g => .ok (.ofList [("size", .tensor (.scalar 2)),
      ("x", .tensor (.scalar g.nextUnit.1))]), []⟩

/-- The part below a root that keeps the default of its parameter. -/
def defaultSpecimen (rate : Tensor) : Component :=
  ⟨[.parameter "rate" rate], fun _ _ => .ok [], [("a", drawingPart)]⟩

/-- Two trees that differ in a default, and both of their states at the start. -/
theorem initialState_holds_declared_defaultSpecimen :
    ∃ t t' s s', build (defaultSpecimen (.scalar 1)) = .ok t ∧
      t.initialState (defaultSpecimen (.scalar 1)) (Key.ofSeed 3) = .ok s ∧
      build (defaultSpecimen (.scalar 5)) = .ok t' ∧
      t'.initialState (defaultSpecimen (.scalar 5)) (Key.ofSeed 3) = .ok s' ∧
      (∀ path, s.contains path = true ↔ path ∈ ["", "a"]) ∧
      t.parameters.map Prod.fst = ["rate", "a.size"] ∧
      (∀ e ∈ t.parameters, ∃ u, s.leaf e.1 = .ok u) ∧ s'.resolve "a" = s.resolve "a" := by
  obtain ⟨t, s, ht, hs⟩ : ∃ t s, build (defaultSpecimen (.scalar 1)) = .ok t ∧
      t.initialState (defaultSpecimen (.scalar 1)) (Key.ofSeed 3) = .ok s := ⟨_, _, rfl, rfl⟩
  obtain ⟨t', s', ht', hs'⟩ : ∃ t' s', build (defaultSpecimen (.scalar 5)) = .ok t' ∧
      t'.initialState (defaultSpecimen (.scalar 5)) (Key.ofSeed 3) = .ok s' := ⟨_, _, rfl, rfl⟩
  obtain ⟨-, -, hstate⟩ := initialState_holds_declared ht (Key.ofSeed 3)
  obtain ⟨hpaths, -, hparameters, hruns⟩ := hstate s hs
  have hpart : ∀ rate, (defaultSpecimen rate).Places ⟨1, "a"⟩ drawingPart := fun rate =>
    ⟨["a"], rfl, String.intercalate_singleton.symm⟩
  have hordered : (defaultSpecimen (.scalar 1)).StartsOrdered := by
    refine List.forall_mem_cons.2 ⟨fun h => ?_, List.forall_mem_singleton.2 fun h => ?_⟩
    · obtain rfl := Except.ok.inj h
      exact ⟨List.Pairwise.nil, trivial⟩
    · obtain rfl := Except.ok.inj h
      exact LocalState.ordered_ofList
        (List.forall_mem_cons.2 ⟨trivial, List.forall_mem_singleton.2 trivial⟩)
  have htensors : (defaultSpecimen (.scalar 1)).ReturnsTensors := by
    refine List.forall_mem_cons.2 ⟨fun h => ?_, List.forall_mem_singleton.2 fun h => ?_⟩
    · obtain rfl := Except.ok.inj h
      exact fun a _ => nofun
    · obtain rfl := Except.ok.inj h
      intro a _ v hv
      have hmem := Table.mem_of_mem_ofList (Table.mem_of_get?_eq_some hv)
      rcases List.mem_pair.1 hmem with he | he
      · exact ⟨_, (Prod.mk.inj he).2⟩
      · exact ⟨_, (Prod.mk.inj he).2⟩
  have hparts := hruns _ t' s' ht' hs' _ _ _ (hpart _) (hpart _) rfl rfl
  obtain rfl := Except.ok.inj ht
  refine ⟨_, t', s, s', rfl, hs, ht', hs', hpaths, by decide, fun e he => ?_, hparts⟩
  obtain ⟨node, c, own, u, -, -, -, -, hleaf, -⟩ := hparameters hordered htensors e he
  exact ⟨u, hleaf⟩

end Tree

end Lockstep
