import Lockstep.Proofs.Component.Tree
import Lockstep.Proofs.State.Structure
import Mathlib.Data.List.TakeDrop

/-!
# First states that follow a plan

A schema declares what a plan of a local state says (`Schema.Declares`), and a component starts as
the plan says (`Component.Starts`). A root above named parts can be built to a tree
(`Tree.build_parts`), and its first state follows the plan that is made of the plans of the root and
the parts (`Tree.gives_initialState`). What the nodes of a tree declare says where states can be
split (`Tree.Declares.splits`).
-/

namespace Lockstep

open Outcome (Gives)
open Lockstep.Random

namespace Path

theorem span_of_all {cs : List Char} (h : '.' ∉ cs) (ds : List Char) :
    (cs ++ '.' :: ds).span (· ≠ '.') = (cs, '.' :: ds) ∧ cs.span (· ≠ '.') = (cs, []) := by
  have hall : ∀ c ∈ cs, decide (c ≠ '.') = true := by
    intro c hc
    refine decide_eq_true fun he => h ?_
    rw [← he]
    exact hc
  rw [List.span_eq_takeWhile_dropWhile, List.span_eq_takeWhile_dropWhile,
    List.takeWhile_append_of_pos hall, List.dropWhile_append_of_pos hall,
    List.takeWhile_eq_self_iff.2 hall, List.dropWhile_eq_nil_iff.2 hall]
  simp

/-- The last point of a leaf stands before the attribute. -/
theorem split_qualify (path : String) {name : String} (h : isName name = true) :
    split (qualify path name) = (path, name) := by
  have hname : '.' ∉ name.toList.reverse := by
    rw [List.mem_reverse]
    exact (isName_iff.1 h).2
  by_cases hpath : path = ""
  · subst hpath
    rw [qualify, if_pos rfl, split, (span_of_all hname []).2]
  · have hlist : (qualify path name).toList.reverse =
        name.toList.reverse ++ '.' :: path.toList.reverse := by
      rw [qualify, if_neg hpath, String.toList_append, String.toList_append,
        show (".".toList : List Char) = ['.'] from rfl]
      simp
    rw [split, hlist, (span_of_all hname _).1]
    simp only [List.reverse_reverse, String.ofList_toList]

/-- The names may stand in paths, and are different. -/
def NamesFit (names : List String) : Prop :=
  (∀ name ∈ names, isName name = true) ∧ names.Nodup

instance (names : List String) : Decidable (NamesFit names) :=
  inferInstanceAs (Decidable (_ ∧ _))

theorem NamesFit.sublist {names others : List String} (h : NamesFit names)
    (hothers : others.Sublist names) : NamesFit others :=
  ⟨fun name hname => h.1 name (hothers.subset hname), h.2.sublist hothers⟩

end Path

/-! ## Schemas -/

namespace Schema

theorem namesFit_of_validateFrom {s : Schema} :
    ∀ {seen : List String}, validateFrom seen s = .ok () →
      Path.NamesFit (s.map Attribute.name) ∧ ∀ a ∈ s, a.name ∉ seen := by
  induction s with
  | nil => exact fun _ => ⟨⟨nofun, List.nodup_nil⟩, nofun⟩
  | cons a rest ih =>
    intro seen h
    rw [validateFrom] at h
    split at h
    · cases h
    · next hname =>
      split at h
      · cases h
      · next hseen =>
        obtain ⟨⟨hnames, hnodup⟩, hrest⟩ := ih h
        refine ⟨⟨List.forall_mem_cons.2 ⟨by simpa using hname, hnames⟩, ?_⟩,
          List.forall_mem_cons.2 ⟨hseen, fun b hb hmem => ?_⟩⟩
        · refine List.nodup_cons.2 ⟨fun hmem => ?_, hnodup⟩
          obtain ⟨b, hb, heq⟩ := List.mem_map.1 hmem
          exact hrest b hb (heq ▸ List.mem_cons_self)
        · exact hrest b hb (List.mem_cons_of_mem _ hmem)

/-- The attributes of a valid schema have different names that may stand between points. -/
theorem namesFit_of_validate {s : Schema} (h : s.validate = .ok ()) :
    Path.NamesFit (s.map Attribute.name) := (namesFit_of_validateFrom h).1

theorem isName_of_validate {s : Schema} (h : s.validate = .ok ()) {a : Attribute} (ha : a ∈ s) :
    Path.isName a.name = true := (namesFit_of_validate h).1 _ (List.mem_map_of_mem ha)

theorem validateFrom_eq_ok {s : Schema} :
    ∀ {seen : List String}, Path.NamesFit (s.map Attribute.name) → (∀ a ∈ s, a.name ∉ seen) →
      validateFrom seen s = .ok () := by
  induction s with
  | nil => exact fun _ _ => rfl
  | cons a rest ih =>
    intro seen ⟨hnames, hnodup⟩ hseen
    obtain ⟨hname, hnames⟩ := List.forall_mem_cons.1 hnames
    obtain ⟨hfirst, hnodup⟩ := List.nodup_cons.1 hnodup
    obtain ⟨haseen, hseen⟩ := List.forall_mem_cons.1 hseen
    have hother : ∀ b ∈ rest, b.name ∉ a.name :: seen := by
      intro b hb hmem
      rcases List.mem_cons.1 hmem with he | hmem
      · exact hfirst (he ▸ List.mem_map_of_mem hb)
      · exact hseen b hb hmem
    rw [validateFrom, hname, if_neg (by decide), if_neg haseen]
    exact ih ⟨hnames, hnodup⟩ hother

/-- Attributes with names that fit make a valid schema. -/
theorem validate_eq_ok {s : Schema} (h : Path.NamesFit (s.map Attribute.name)) :
    s.validate = .ok () := validateFrom_eq_ok h fun _ _ => List.not_mem_nil

/-- A schema declares what a plan says: the stateful attributes are those of the plan, a parameter
may have any numbers, and an attribute with a population axis has `n` entries along its first
axis. -/
structure Declares (s : Schema) (p : LocalPlan) (n : Nat) : Prop where
  valid : s.validate = .ok ()
  names : s.statefulNames = Table.keys p.leaves
  parameters : ∀ a ∈ s.parameters, ∃ shape, p.get? a.name = some (.free shape)
  population : ∀ a ∈ s.stateful, ∀ axis ∈ a.populationAxis,
    axis = 0 ∧ ∃ shape, p.get? a.name = some (.free (n :: shape))

variable {s : Schema} {p : LocalPlan} {n : Nat}

/-- The names in a state are those of the plan as soon as they are the same set. -/
theorem statefulNames_eq
    (h : ∀ name, name ∈ s.stateful.map Attribute.name ↔ name ∈ Table.keys p.leaves) :
    s.statefulNames = Table.keys p.leaves := by
  refine Table.keys_eq_of_mem_iff (Table.sorted_ofList _) p.ascends fun name => ?_
  rw [← h name, Table.mem_keys_ofList, List.map_map]
  rfl

/-- What is planned is declared. -/
theorem Declares.isName (h : s.Declares p n) {name : String} {q : LeafPlan}
    (hq : p.get? name = some q) : Path.isName name = true := by
  have hkey : name ∈ s.statefulNames := by
    rw [h.names, ← Table.get?_isSome_iff]
    exact Option.isSome_of_eq_some hq
  obtain ⟨e, he, rfl⟩ := List.mem_map.1 (Table.mem_keys_ofList.1 hkey)
  obtain ⟨a, ha, rfl⟩ := List.mem_map.1 he
  exact isName_of_validate h.valid (List.mem_filter.1 ha).1

end Schema

/-- A component that starts as a plan says. -/
structure Component.Starts (c : Component) (p : LocalPlan) (n : Nat) : Prop where
  declares : c.schema.Declares p n
  init : ∀ {node : NodeContext} {g : Generator},
    Gives (fun own => p.Fits 0 [] (Table.union (Tree.parameterDefaults c.schema) own))
      (c.init node g)

/-- A component without constants and parameters starts as a plan says when its own first values
do. -/
theorem Component.starts_of_mutable {c : Component} {entries : List (String × LeafPlan)} {n : Nat}
    (hmutable : ∀ a ∈ c.schema, a.role = .mutable)
    (hnames : c.schema.map Attribute.name = entries.map Prod.fst)
    (hfit : Path.NamesFit (entries.map Prod.fst))
    (hpopulation : ∀ a ∈ c.schema, ∀ axis ∈ a.populationAxis,
      axis = 0 ∧ ∃ shape, (a.name, .free (n :: shape)) ∈ entries)
    (hinit : ∀ node g, ∃ us, c.init node g = .ok (Table.ofList us) ∧
      Table.Matching (LeafPlan.FitsValue 0 []) us entries) : c.Starts (.layered [] entries) n := by
  have hstateful : c.schema.stateful = c.schema :=
    List.filter_eq_self.2 fun a ha => by rw [hmutable a ha]; rfl
  have hparameters : c.schema.parameters = [] :=
    List.filter_eq_nil_iff.2 fun a ha => by rw [hmutable a ha]; decide
  have hnodup : (entries.map Prod.fst).Nodup := hfit.2
  refine ⟨⟨?_, ?_, ?_, ?_⟩, fun {node g} => ?_⟩
  · exact Schema.validate_eq_ok (hnames ▸ hfit)
  · refine Schema.statefulNames_eq fun name => ?_
    rw [hstateful, hnames, LocalPlan.mem_keys_layered]
    simp
  · rw [hparameters]
    nofun
  · rw [hstateful]
    intro a ha axis haxis
    obtain ⟨hzero, shape, hshape⟩ := hpopulation a ha axis haxis
    exact ⟨hzero, shape, LocalPlan.get?_layered_own hnodup hshape⟩
  · obtain ⟨us, hus, hmatching⟩ := hinit node g
    rw [hus, Tree.parameterDefaults, hparameters]
    exact .ok (LocalPlan.fits_layered .nil hmatching)

/-- The first local state of a component is accepted by its schema. -/
theorem Component.Starts.gives_initialLocal {c : Component} {p : LocalPlan} {n : Nat}
    (h : c.Starts p n) (key : Key) {node : TreeNode} (hschema : node.schema = c.schema) :
    Gives (p.Fits 0 []) (Tree.initialLocal key node c) := by
  refine h.init.bind fun own hown => ?_
  have hcheck : ∀ path, c.schema.checkLocal path
      (Table.union (Tree.parameterDefaults c.schema) own) = .ok () := fun _ =>
    if_pos (h.declares.names.trans (Table.Matching.keys hown).symm)
  dsimp only
  rw [hschema, hcheck]
  exact .ok hown

/-- A component without children that starts as a plan says, which has `q`. -/
def Component.Joins (c : Component) (n : Nat) (q : LocalPlan → Prop) : Prop :=
  c.children = [] ∧ ∃ p, c.Starts p n ∧ q p

/-- A component with a name below the root, and without children of its own. -/
structure Part (n : Nat) where
  name : String
  component : Component
  plan : LocalPlan
  childless : component.children = []
  starts : component.Starts plan n

namespace Part

variable {n : Nat}

/-- The part as a child of the root. -/
def child (x : Part n) : String × Component := (x.name, x.component)

/-- The nodes of parts, numbered from `next` on. -/
def nodes (parent : Nat) : (next : Nat) → List (Part n) → List TreeNode
  | _, [] => []
  | next, x :: rest =>
    ⟨⟨next, x.name⟩, x.name, some parent, [], x.component.schema⟩ :: nodes parent (next + 1) rest

theorem length_nodes (parent : Nat) {parts : List (Part n)} :
    ∀ {next : Nat}, (nodes parent next parts).length = parts.length := by
  induction parts with
  | nil => exact rfl
  | cons x parts ih => exact congrArg (· + 1) ih

/-- A node of a part has its name for a path, and its schema. -/
theorem exists_of_mem_nodes {parent : Nat} {parts : List (Part n)} {node : TreeNode} :
    ∀ {next : Nat}, node ∈ nodes parent next parts →
      ∃ x ∈ parts, node.context.path = x.name ∧ node.schema = x.component.schema := by
  induction parts with
  | nil => nofun
  | cons x parts ih =>
    intro next h
    rcases List.mem_cons.1 h with rfl | h
    · exact ⟨x, List.mem_cons_self, rfl, rfl⟩
    · obtain ⟨y, hy, hpath⟩ := ih h
      exact ⟨y, List.mem_cons_of_mem _ hy, hpath⟩

theorem exists_mem_nodes {parent : Nat} {parts : List (Part n)} {x : Part n} :
    ∀ {next : Nat}, x ∈ parts → ∃ node ∈ nodes parent next parts, node.context.path = x.name := by
  induction parts with
  | nil => nofun
  | cons y parts ih =>
    intro next h
    rcases List.mem_cons.1 h with rfl | h
    · exact ⟨_, List.mem_cons_self, rfl⟩
    · obtain ⟨node, hnode, hpath⟩ := ih h
      exact ⟨node, List.mem_cons_of_mem _ hnode, hpath⟩

theorem nodes_eq (x : Part n) {parent : Option Nat} {id : Nat} :
    x.component.nodes x.name x.name parent id =
      .ok [⟨⟨id, x.name⟩, x.name, parent, [], x.component.schema⟩] := by
  obtain ⟨name, ⟨schema, init, children⟩, plan, hchildren, hstarts⟩ := x
  obtain rfl : children = [] := hchildren
  have hvalid : schema.validate = .ok () := hstarts.declares.valid
  rw [Component.nodes, hvalid, Component.childNodes]
  rfl

/-- Parts with different names become the children of a node. -/
theorem childNodes_eq {parent : Nat} {parts : List (Part n)} :
    ∀ {next : Nat} {seen : List String}, Path.NamesFit (parts.map Part.name) →
      (∀ x ∈ parts, x.name ∉ seen) →
      ∃ ids, Component.childNodes "" parent next seen (parts.map child) =
        .ok (ids, nodes parent next parts) := by
  induction parts with
  | nil =>
    intro next seen _ _
    exact ⟨[], by rw [List.map_nil, Component.childNodes]; rfl⟩
  | cons x parts ih =>
    intro next seen ⟨hnames, hnodup⟩ hseen
    obtain ⟨hname, hnames⟩ := List.forall_mem_cons.1 hnames
    obtain ⟨hfirst, hnodup⟩ := List.nodup_cons.1 hnodup
    obtain ⟨hxseen, hseen⟩ := List.forall_mem_cons.1 hseen
    -- the others are different from this one too
    have hother : ∀ y ∈ parts, y.name ∉ x.name :: seen := by
      intro y hy hmem
      rcases List.mem_cons.1 hmem with he | hmem
      · exact hfirst (he ▸ List.mem_map_of_mem hy)
      · exact hseen y hy hmem
    obtain ⟨ids, hids⟩ := @ih (next + 1) _ ⟨hnames, hnodup⟩ hother
    refine ⟨next :: ids, ?_⟩
    rw [List.map_cons, child, Component.childNodes, hname, if_neg (by decide), if_neg hxseen,
      Path.qualify_root, nodes_eq, Outcome.ok_bind, List.length_singleton, hids]
    rfl

theorem preorderList_eq {parts : List (Part n)} :
    Component.preorderList (parts.map child) = parts.map Part.component := by
  induction parts with
  | nil => rfl
  | cons x parts ih =>
    obtain ⟨name, ⟨schema, init, children⟩, plan, hchildren, hstarts⟩ := x
    obtain rfl : children = [] := hchildren
    rw [List.map_cons, child, Component.preorderList, ih, Component.preorder,
      Component.preorderList]
    rfl

/-- The part's name and plan. -/
def entry (x : Part n) : String × LocalPlan := (x.name, x.plan)

/-- The plan of a root above parts. -/
def planBelow (root : LocalPlan) (parts : List (Part n)) : Plan :=
  .ofList (("", root) :: parts.map entry)

theorem nodup_keys_entries {root : LocalPlan} {parts : List (Part n)}
    (h : Path.NamesFit (parts.map Part.name)) :
    ((("", root) :: parts.map entry).map Prod.fst).Nodup := by
  have hnames : (parts.map entry).map Prod.fst = parts.map Part.name := List.map_map ..
  rw [List.map_cons, hnames]
  refine List.nodup_cons.2 ⟨fun hroot => ?_, h.2⟩
  obtain ⟨x, hx, hname⟩ := List.mem_map.1 hroot
  exact (Path.isName_iff.1 (h.1 _ (List.mem_map_of_mem hx))).1 hname

theorem get?_planBelow_root (root : LocalPlan) {parts : List (Part n)}
    (h : Path.NamesFit (parts.map Part.name)) : (planBelow root parts).get? "" = some root :=
  Table.get?_ofList_of_mem (nodup_keys_entries h) List.mem_cons_self

theorem get?_planBelow (root : LocalPlan) {parts : List (Part n)}
    (h : Path.NamesFit (parts.map Part.name)) {x : Part n} (hx : x ∈ parts) :
    (planBelow root parts).get? x.name = some x.plan :=
  Table.get?_ofList_of_mem (nodup_keys_entries h)
    (List.mem_cons_of_mem _ (List.mem_map_of_mem (f := entry) hx))

/-- Local states put in for parts, one after another. -/
theorem gives_fill (key : Key) {parent : Nat} {parts : List (Part n)} :
    ∀ {next : Nat} {s : State} {ps : Table LocalPlan}, s.batchDims = [] → s.placement = [] →
      Table.Matching (LocalPlan.Fits 0 []) s.nodes ps →
      Gives (fun t => t.batchDims = [] ∧ t.placement = [] ∧
          Table.Matching (LocalPlan.Fits 0 []) t.nodes (Table.union ps (parts.map entry)))
        (Tree.fill key ((nodes parent next parts).zip (parts.map Part.component)) s) := by
  induction parts with
  | nil => exact fun hdims hplacement hnodes => .ok ⟨hdims, hplacement, hnodes⟩
  | cons x parts ih =>
    intro next s ps hdims hplacement hnodes
    exact (x.starts.gives_initialLocal key rfl).bind fun l hl =>
      @ih (next + 1) (s.withNode x.name l) _ hdims hplacement (hnodes.insert x.name hl)

end Part

/-! ## Trees -/

namespace Tree

/-- The nodes of a tree declare what a plan says, and nothing else is planned. -/
structure Declares (t : Tree) (plan : Plan) (n : Nat) : Prop where
  planned : ∀ node ∈ t, ∃ p, plan.get? node.context.path = some p ∧ node.schema.Declares p n
  covers : ∀ {path : String} {p : LocalPlan}, plan.get? path = some p →
    ∃ node ∈ t, node.context.path = path

variable {n : Nat}

/-- There is a context for every path in a tree. -/
theorem gives_context {t : Tree} {path : String} (h : ∃ node ∈ t, node.context.path = path) :
    Gives (fun c => c.path = path) (t.context path) := by
  obtain ⟨node, hnode, hpath⟩ := h
  have hsome : (List.find? (fun m : TreeNode => m.context.path = path) t).isSome := by
    rw [List.find?_isSome]
    exact ⟨node, hnode, decide_eq_true hpath⟩
  obtain ⟨m, hm⟩ := Option.isSome_iff_exists.1 hsome
  have hfound := List.find?_some hm
  refine ⟨m.context, ?_, of_decide_eq_true hfound⟩
  rw [context, find, hm]
  rfl

/-- A root above parts with different names. -/
theorem build_parts {root : Component} {parts : List (Part n)}
    (hchildren : root.children = parts.map Part.child) (hvalid : root.schema.validate = .ok ())
    (h : Path.NamesFit (parts.map Part.name)) :
    ∃ ids, build root =
      .ok (⟨⟨0, ""⟩, "", none, ids, root.schema⟩ :: Part.nodes 0 1 parts) := by
  obtain ⟨schema, init, children⟩ := root
  obtain rfl : children = parts.map Part.child := hchildren
  obtain ⟨ids, hids⟩ := @Part.childNodes_eq n 0 parts 1 [] h fun _ _ => List.not_mem_nil
  refine ⟨ids, ?_⟩
  rw [build, Component.nodes, show schema.validate = .ok () from hvalid, Outcome.ok_bind,
    show 0 + 1 = 1 from rfl, hids]
  rfl

theorem declares_parts {root : TreeNode} {p : LocalPlan} {parts : List (Part n)}
    (hroot : root.context.path = "") (hp : root.schema.Declares p n)
    (h : Path.NamesFit (parts.map Part.name)) :
    Declares (root :: Part.nodes 0 1 parts) (Part.planBelow p parts) n where
  planned := by
    refine List.forall_mem_cons.2 ⟨⟨p, ?_, hp⟩, fun node hnode => ?_⟩
    · rw [hroot]
      exact Part.get?_planBelow_root p h
    · obtain ⟨x, hx, hpath, hschema⟩ := Part.exists_of_mem_nodes hnode
      rw [hpath, hschema]
      exact ⟨x.plan, Part.get?_planBelow p h hx, x.starts.declares⟩
  covers := by
    intro path q hq
    rcases List.mem_cons.1 (Table.mem_of_mem_ofList (Table.mem_of_get?_eq_some hq)) with he | he
    · exact ⟨root, List.mem_cons_self, hroot.trans (congrArg Prod.fst he).symm⟩
    · obtain ⟨x, hx, he⟩ := List.mem_map.1 he
      obtain ⟨node, hnode, hpath⟩ := @Part.exists_mem_nodes n 0 parts x 1 hx
      exact ⟨node, List.mem_cons_of_mem _ hnode, hpath.trans (congrArg Prod.fst he)⟩

/-- The first state of a root above parts follows the plan made of their plans. -/
theorem gives_initialState {root : Component} {p : LocalPlan} {parts : List (Part n)}
    {ids : List Nat} (hchildren : root.children = parts.map Part.child) (hroot : root.Starts p n)
    (key : Key) :
    Gives (State.Follows (Part.planBelow p parts) 0 [] [])
      (initialState (⟨⟨0, ""⟩, "", none, ids, root.schema⟩ :: Part.nodes 0 1 parts) root key) := by
  have hpreorder : root.preorder = root :: parts.map Part.component := by
    obtain ⟨schema, init, children⟩ := root
    obtain rfl : children = parts.map Part.child := hchildren
    rw [Component.preorder, Part.preorderList_eq]
  have hlength : (parts.map Part.component).length = (Part.nodes 0 1 parts).length := by
    rw [List.length_map, Part.length_nodes]
  rw [initialState, hpreorder, List.length_cons, List.length_cons, hlength,
    if_neg (not_not.2 rfl), List.zip_cons_cons, fill]
  refine (hroot.gives_initialLocal key rfl).bind fun l hl => ?_
  have hfirst : Table.Matching (LocalPlan.Fits 0 []) (State.empty.withNode "" l).nodes [("", p)] :=
    .cons ⟨rfl, hl⟩ .nil
  refine (Part.gives_fill key rfl rfl hfirst).imp fun s hs => ?_
  exact ⟨hs.1, hs.2.2, hs.2.1⟩

/-- A component that is to be put below a root under a name, with what its plan must have. -/
structure Child where
  name : String
  component : Component
  expected : LocalPlan → Prop

/-- The tree of a root and of the components below it, with what is planned for all of them. -/
structure Carries (t : Tree) (root : Component) (p : LocalPlan) (children : List Child) (n : Nat)
    (plan : Plan) : Prop where
  top : plan.get? "" = some p
  declares : t.Declares plan n
  initial : ∀ key, Gives (State.Follows plan 0 [] []) (t.initialState root key)
  context : ∀ c ∈ children, Gives (fun node => node.path = c.name) (t.context c.name)
  children : ∀ c ∈ children, ∃ q, plan.get? c.name = some q ∧ c.expected q

/-- A part for each of the components below a root. -/
theorem exists_parts {children : List Child} (h : ∀ c ∈ children, c.component.Joins n c.expected) :
    ∃ parts : List (Part n), parts.map Part.child = children.map (fun c => (c.name, c.component)) ∧
      ∀ c ∈ children, ∃ x ∈ parts, x.name = c.name ∧ c.expected x.plan := by
  induction children with
  | nil => exact ⟨[], rfl, nofun⟩
  | cons c children ih =>
    obtain ⟨⟨hchildless, p, hstarts, hp⟩, hrest⟩ := List.forall_mem_cons.1 h
    obtain ⟨parts, hmap, hparts⟩ := ih hrest
    refine ⟨⟨c.name, c.component, p, hchildless, hstarts⟩ :: parts, congrArg (List.cons _) hmap,
      List.forall_mem_cons.2 ⟨⟨_, List.mem_cons_self, rfl, hp⟩, fun c' hc' => ?_⟩⟩
    obtain ⟨x, hx, hname⟩ := hparts c' hc'
    exact ⟨x, List.mem_cons_of_mem _ hx, hname⟩

/-- Components that start as plans say can be put below a root under names that fit. -/
theorem gives_build {root : Component} {p : LocalPlan} {children : List Child}
    (hchildren : root.children = children.map fun c => (c.name, c.component))
    (hroot : root.Starts p n) (hjoins : ∀ c ∈ children, c.component.Joins n c.expected)
    (hnames : Path.NamesFit (children.map Child.name)) :
    Gives (fun t => ∃ plan, t.Carries root p children n plan) (build root) := by
  -- a part is a child together with the plan it starts with, which joining gives
  obtain ⟨parts, hmap, hparts⟩ := exists_parts hjoins
  have hfit : Path.NamesFit (parts.map Part.name) := by
    have hsame := congrArg (List.map Prod.fst) hmap
    rw [List.map_map, List.map_map] at hsame
    exact hsame ▸ hnames
  rw [← hmap] at hchildren
  obtain ⟨ids, hbuild⟩ := build_parts hchildren hroot.declares.valid hfit
  have hdeclares := @declares_parts n ⟨⟨0, ""⟩, "", none, ids, root.schema⟩ p parts rfl
    hroot.declares hfit
  refine ⟨_, hbuild, Part.planBelow p parts, ?_⟩
  exact {
    top := Part.get?_planBelow_root p hfit
    declares := hdeclares
    initial := gives_initialState hchildren hroot
    context := fun c hc => by
      obtain ⟨x, hx, hname, -⟩ := hparts c hc
      obtain ⟨node, hnode, hpath⟩ := @Part.exists_mem_nodes n 0 parts x 1 hx
      exact gives_context ⟨node, List.mem_cons_of_mem _ hnode, hpath.trans hname⟩
    children := fun c hc => by
      obtain ⟨x, hx, hname, hexpected⟩ := hparts c hc
      exact ⟨x.plan, hname ▸ Part.get?_planBelow p hfit hx, hexpected⟩ }

variable {t : Tree} {plan : Plan}

theorem Declares.schema (h : t.Declares plan n) {path : String} {p : LocalPlan}
    (hp : plan.get? path = some p) :
    ∃ node ∈ t, node.context.path = path ∧ node.schema.Declares p n := by
  obtain ⟨node, hnode, rfl⟩ := h.covers hp
  obtain ⟨q, hq, hdeclares⟩ := h.planned node hnode
  obtain rfl := Option.some.inj (hp.symm.trans hq)
  exact ⟨node, hnode, rfl, hdeclares⟩

/-- Parameters are leaves of the plan that may have any numbers. -/
theorem Declares.parameters (h : t.Declares plan n) :
    ∀ e ∈ t.parameters, ∃ p shape, plan.get? (Path.split e.1).1 = some p ∧
      p.get? (Path.split e.1).2 = some (.free shape) := by
  intro e he
  obtain ⟨node, hnode, he⟩ := List.mem_flatMap.1 he
  obtain ⟨a, ha, rfl⟩ := List.mem_map.1 he
  obtain ⟨p, hp, hdeclares⟩ := h.planned node hnode
  obtain ⟨shape, hshape⟩ := hdeclares.parameters a ha
  rw [NodeContext.qualify, Path.split_qualify _ (hdeclares.isName hshape)]
  exact ⟨p, shape, hp, hshape⟩

/-- A leaf with a population axis has it in front, as long as the plan says. -/
theorem Declares.population (h : t.Declares plan n) :
    ∀ e ∈ t.populationLeaves, e.2 = 0 ∧ ∃ p shape, plan.get? (Path.split e.1).1 = some p ∧
      p.get? (Path.split e.1).2 = some (.free (n :: shape)) := by
  intro e he
  obtain ⟨node, hnode, he⟩ := List.mem_flatMap.1 he
  obtain ⟨a, ha, he⟩ := List.mem_filterMap.1 he
  obtain ⟨axis, haxis, rfl⟩ := Option.map_eq_some_iff.1 he
  obtain ⟨p, hp, hdeclares⟩ := h.planned node hnode
  obtain ⟨rfl, shape, hshape⟩ := hdeclares.population a ha axis haxis
  rw [NodeContext.qualify, Path.split_qualify _ (hdeclares.isName hshape)]
  exact ⟨rfl, p, shape, hp, hshape⟩

/-- Devices whose count divides `n` can share everything along its population axis. -/
theorem Declares.splits (h : t.Declares plan n) {mesh : Mesh} (hdvd : mesh.devices.length ∣ n)
    {rank : Nat} (hrank : rank < UInt64.size) :
    plan.Splits ⟨mesh, .ofList t.populationLeaves⟩ rank where
  listed := by
    intro e he
    obtain ⟨-, p, shape, hp, hq⟩ := h.population e (Table.mem_of_mem_ofList he)
    exact ⟨p, _, hp, hq⟩
  even := by
    intro path name p q axis hp hq haxis
    obtain ⟨rfl, p', shape, hp', hq'⟩ :=
      h.population _ (Table.mem_of_mem_ofList (Table.mem_of_get?_eq_some haxis))
    obtain ⟨node, -, -, hdeclares⟩ := h.schema hp
    rw [Path.split_qualify _ (hdeclares.isName hq)] at hp' hq'
    obtain rfl := Option.some.inj (hp.symm.trans hp')
    obtain rfl := Option.some.inj (hq.symm.trans hq')
    exact ⟨by simpa using hrank, n, rfl, hdvd⟩

end Tree

end Lockstep
