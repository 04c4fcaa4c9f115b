import Lockstep.Proofs.Component.Paths
import Mathlib.Data.List.Forall2

/-!
# A tree numbers the walk of its component

The nodes of a tree stand for the places of the pre-order walk of the component
(`Component.walk`), one for one. A place is given by the names on the way to it, and `Represents`
says what its node is: the number is the position in the walk, the path joins the names, and the
links to children and parent are those of the component. A component can be built exactly when all
names in it fit (`Component.WellNamed`), and then every node is found at its path.
-/

namespace Lockstep

namespace Path

/-- The names joined by points. -/
def join (names : List String) : String := ".".intercalate names

theorem join_nil : join [] = "" := String.intercalate_nil

/-- The names below a place that is not the root, unless there are none above it. -/
theorem join_snoc {names : List String} (h : join names = "" → names = []) (name : String) :
    join (names ++ [name]) = qualify (join names) name := by
  rw [qualify]
  split
  · next hroot =>
    obtain rfl := h hroot
    exact String.intercalate_singleton
  · next hbelow =>
    have hne : names ≠ [] := by
      rintro rfl
      exact hbelow join_nil
    rw [join, String.intercalate_append_of_ne_nil hne (List.cons_ne_nil _ _),
      String.intercalate_singleton]
    rfl

end Path

namespace Component

mutual

/-- The component and all below it in pre-order, each with the names on the way to it. -/
def walk (names : List String) : Component → List (List String × Component)
  | ⟨schema, init, children⟩ => (names, ⟨schema, init, children⟩) :: walkList names children

/-- The children and all below them in pre-order, each with the names on the way to it. -/
def walkList (names : List String) : List (String × Component) → List (List String × Component)
  | [] => []
  | (name, c) :: rest => c.walk (names ++ [name]) ++ walkList names rest

end

theorem walk_eq (names : List String) (c : Component) :
    c.walk names = (names, c) :: walkList names c.children := by
  obtain ⟨schema, init, children⟩ := c
  rw [walk]

mutual

/-- The walk visits the components in pre-order. -/
theorem map_snd_walk : ∀ (names : List String) (c : Component),
    (c.walk names).map Prod.snd = c.preorder
  | names, ⟨schema, init, children⟩ => by
    rw [walk, preorder, List.map_cons, map_snd_walkList]

theorem map_snd_walkList : ∀ (names : List String) (children : List (String × Component)),
    (walkList names children).map Prod.snd = preorderList children
  | names, [] => by
    rw [walkList, preorderList]
    rfl
  | names, (name, c) :: rest => by
    rw [walkList, preorderList, List.map_append, map_snd_walk, map_snd_walkList]

end

/-! ## Components that can be built -/

/-- The names of the attributes, and those of the children, may stand in paths and are
different. -/
def NamesFit (c : Component) : Prop :=
  Path.NamesFit (c.schema.map Attribute.name) ∧ Path.NamesFit (c.children.map Prod.fst)

/-- All names in the component and below it fit. -/
def WellNamed (c : Component) : Prop := ∀ d ∈ c.preorder, d.NamesFit

mutual

/-- A component has nodes, whatever its place, exactly when it is well named. -/
theorem nodes_ok_iff : ∀ {c : Component} {name path : String} {parent : Option Nat} {id : Nat},
    (∃ ns, c.nodes name path parent id = .ok ns) ↔ c.WellNamed
  | ⟨schema, init, children⟩, name, path, parent, id => by
    have hchildren := @childNodes_ok_iff children path id (id + 1) []
    rw [WellNamed, preorder, List.forall_mem_cons]
    constructor
    · rintro ⟨ns, h⟩
      obtain ⟨hvalid, ids, below, hbelow, -⟩ := nodes_eq_ok_iff.1 h
      obtain ⟨hnames, -, hrest⟩ := hchildren.1 ⟨_, hbelow⟩
      exact ⟨⟨Schema.namesFit_of_validate hvalid, hnames⟩, hrest⟩
    · rintro ⟨⟨hschema, hnames⟩, hrest⟩
      obtain ⟨⟨ids, below⟩, hbelow⟩ := hchildren.2 ⟨hnames, fun _ _ => List.not_mem_nil, hrest⟩
      exact ⟨_, nodes_eq_ok_iff.2 ⟨Schema.validate_eq_ok hschema, ids, below, hbelow, rfl⟩⟩

theorem childNodes_ok_iff :
    ∀ {children : List (String × Component)} {path : String} {parent next : Nat}
      {seen : List String}, (∃ r, childNodes path parent next seen children = .ok r) ↔
        Path.NamesFit (children.map Prod.fst) ∧ (∀ e ∈ children, e.1 ∉ seen) ∧
          ∀ d ∈ preorderList children, d.NamesFit
  | [], path, parent, next, seen => by
    rw [childNodes, preorderList]
    exact ⟨fun _ => ⟨⟨nofun, List.nodup_nil⟩, nofun, nofun⟩, fun _ => ⟨_, rfl⟩⟩
  | (name, c) :: rest, path, parent, next, seen => by
    rw [preorderList, List.forall_mem_append, List.forall_mem_cons, List.map_cons]
    constructor
    · rintro ⟨⟨ids, ns⟩, h⟩
      obtain ⟨hname, hseen, first, hfirst, ids', more, hmore, -⟩ := childNodes_cons_eq_ok_iff.1 h
      obtain ⟨hnames, hother, hrest⟩ := childNodes_ok_iff.1 ⟨_, hmore⟩
      refine ⟨⟨List.forall_mem_cons.2 ⟨hname, hnames.1⟩, List.nodup_cons.2 ⟨?_, hnames.2⟩⟩,
        ⟨hseen, fun e he hmem => hother e he (List.mem_cons_of_mem _ hmem)⟩,
        nodes_ok_iff.1 ⟨_, hfirst⟩, hrest⟩
      intro hmem
      obtain ⟨e, he, rfl⟩ := List.mem_map.1 hmem
      exact hother e he List.mem_cons_self
    · rintro ⟨⟨hnames, hnodup⟩, ⟨hseen, hother⟩, hc, hrest⟩
      obtain ⟨hname, hnames⟩ := List.forall_mem_cons.1 hnames
      obtain ⟨hfresh, hnodup⟩ := List.nodup_cons.1 hnodup
      obtain ⟨first, hfirst⟩ := nodes_ok_iff.2 hc
      -- the other children differ from this one and from those before it
      have hunseen : ∀ e ∈ rest, e.1 ∉ name :: seen := by
        intro e he hmem
        rcases List.mem_cons.1 hmem with hsame | hmem
        · exact hfresh (List.mem_map.2 ⟨e, he, hsame⟩)
        · exact hother e he hmem
      obtain ⟨⟨ids, more⟩, hmore⟩ := childNodes_ok_iff.2 ⟨⟨hnames, hnodup⟩, hunseen, hrest⟩
      exact ⟨_, childNodes_cons_eq_ok_iff.2 ⟨hname, hseen, first, hfirst, ids, more, hmore, rfl,
        rfl⟩⟩

end

end Component

/-! ## What a node stands for -/

/-- The link to the parent of a place of a walk: the first place has none, and any other place is
that of a child of the component to which the link leads. -/
def ParentLink (w : List (List String × Component)) (id : Nat) (e : List String × Component) :
    Option Nat → Prop
  | none => id = 0 ∧ e.1 = []
  | some j => j < id ∧ ∃ above name p, w[j]? = some (above, p) ∧ (name, e.2) ∈ p.children ∧
      e.1 = above ++ [name]

/-- The node stands for a place of the walk `w`. -/
structure Represents (w : List (List String × Component)) (e : List String × Component)
    (n : TreeNode) : Prop where
  place : w[n.context.id]? = some e
  path : n.context.path = Path.join e.1
  name : n.name = e.1.getLastD ""
  schema : n.schema = e.2.schema
  /-- the children of the node are, in order, the places of the children of the component -/
  children : (n.children.map fun j => w[j]?) =
    e.2.children.map fun child => some (e.1 ++ [child.1], child.2)
  parent : ParentLink w n.context.id e n.parent

namespace Component

variable {w : List (List String × Component)}

mutual

/-- If the walk of a component stands in `w` from `id` on, so do its nodes. -/
theorem represents_of_nodes :
    ∀ {c : Component} {names : List String} {name path : String} {parent : Option Nat} {id : Nat}
      {ns : List TreeNode}, c.nodes name path parent id = .ok ns →
        c.walk names <+: w.drop id → path = Path.join names → (path = "" → names = []) →
        name = names.getLastD "" → ParentLink w id (names, c) parent →
        List.Forall₂ (Represents w) (c.walk names) ns ∧
          ns.map (fun n => n.context.id) = List.range' id ns.length
  | ⟨schema, init, children⟩, names, name, path, parent, id, ns, h, hw, hpath, hroot, hname,
      hparent => by
    obtain ⟨-, ids, below, hbelow, rfl⟩ := nodes_eq_ok_iff.1 h
    rw [walk] at hw ⊢
    -- the component stands at its number, and what is below it stands after it
    have hplace : w[id]? = some (names, ⟨schema, init, children⟩) := by
      obtain ⟨back, hback⟩ := hw
      rw [← Nat.add_zero id, ← List.getElem?_drop, ← hback]
      rfl
    have hafter : walkList names children <+: w.drop (id + 1) := by
      obtain ⟨back, hback⟩ := hw
      refine ⟨back, ?_⟩
      rw [← List.drop_drop, ← hback]
      rfl
    obtain ⟨hnodes, hids, hnumbers⟩ := represents_of_childNodes hbelow hafter hpath hroot hplace
      (Nat.lt_succ_self id) fun _ he => he
    refine ⟨List.Forall₂.cons ⟨hplace, hpath, hname, rfl, hids, hparent⟩ hnodes, ?_⟩
    rw [List.map_cons, hnumbers, List.length_cons, List.range'_succ]

/-- The same of the nodes of children of the component that stands at `parent`. -/
theorem represents_of_childNodes :
    ∀ {children : List (String × Component)} {names : List String} {path : String}
      {parent next : Nat} {seen : List String} {ids : List Nat} {ns : List TreeNode}
      {p : Component}, childNodes path parent next seen children = .ok (ids, ns) →
        walkList names children <+: w.drop next → path = Path.join names →
        (path = "" → names = []) → w[parent]? = some (names, p) → parent < next →
        (∀ e ∈ children, e ∈ p.children) →
        List.Forall₂ (Represents w) (walkList names children) ns ∧
          (ids.map fun j => w[j]?) = (children.map fun e => some (names ++ [e.1], e.2)) ∧
          ns.map (fun n => n.context.id) = List.range' next ns.length
  | [], names, path, parent, next, seen, ids, ns, p, h, _, _, _, _, _, _ => by
    rw [childNodes] at h
    obtain ⟨rfl, rfl⟩ := Prod.mk.inj (Except.ok.inj h)
    rw [walkList]
    exact ⟨List.Forall₂.nil, rfl, rfl⟩
  | (name, c) :: rest, names, path, parent, next, seen, ids, ns, p, h, hw, hpath, hroot, hplace,
      hlt, hchildren => by
    obtain ⟨hname, -, first, hfirst, ids', more, hmore, rfl, rfl⟩ := childNodes_cons_eq_ok_iff.1 h
    obtain ⟨hmem, hother⟩ := List.forall_mem_cons.1 hchildren
    rw [walkList] at hw ⊢
    -- The walk of the first child comes first in what is left of `w`. The nodes of its siblings are
    -- numbered from behind it, which is where their own walk starts.
    have hlength : first.length = (c.walk (names ++ [name])).length := by
      rw [length_of_nodes hfirst, ← map_snd_walk (names ++ [name]), List.length_map]
    have hhere : c.walk (names ++ [name]) <+: w.drop next := (List.prefix_append _ _).trans hw
    have hafter : walkList names rest <+: w.drop (next + first.length) := by
      obtain ⟨back, hback⟩ := hw
      refine ⟨back, ?_⟩
      rw [← List.drop_drop, ← hback, hlength, List.append_assoc, List.drop_left]
    have hbelow : Path.qualify path name = Path.join (names ++ [name]) := by
      rw [Path.join_snoc (by rwa [← hpath]), hpath]
    obtain ⟨hnodes, hnumbers⟩ := represents_of_nodes hfirst hhere hbelow
      (fun he => absurd he (Path.qualify_ne_root_of_isName path hname)) (by simp)
      ⟨hlt, names, name, p, hplace, hmem, rfl⟩
    obtain ⟨hnodes', hids, hnumbers'⟩ := represents_of_childNodes hmore hafter hpath hroot hplace
      (by omega) hother
    have hfirstPlace : w[next]? = some (names ++ [name], c) := by
      obtain ⟨back, hback⟩ := hhere
      rw [← Nat.add_zero next, ← List.getElem?_drop, ← hback, walk_eq]
      rfl
    refine ⟨List.rel_append hnodes hnodes', ?_, ?_⟩
    · rw [List.map_cons, List.map_cons, hids, hfirstPlace]
    · rw [List.map_append, hnumbers, hnumbers', List.length_append, List.range'_append_1]

end

end Component

namespace Tree

variable {root : Component} {t : Tree}

/-- The nodes of a tree stand for the places of the walk of its component, in order. -/
theorem represents_of_build (h : build root = .ok t) :
    List.Forall₂ (Represents (root.walk [])) (root.walk []) t ∧
      t.map (fun n => n.context.id) = List.range t.length := by
  rw [List.range_eq_range']
  exact Component.represents_of_nodes h (List.prefix_refl _) Path.join_nil.symm (fun _ => rfl) rfl
    ⟨rfl, rfl⟩

theorem exists_represents (h : build root = .ok t) {n : TreeNode} (hn : n ∈ t) :
    ∃ e, Represents (root.walk []) e n := by
  obtain ⟨e, -, he⟩ := Outcome.exists_left_of_mem (represents_of_build h).1 hn
  exact ⟨e, he⟩

/-- Different places of the walk are reached by different names. -/
theorem nodup_names_walk (h : build root = .ok t) : ((root.walk []).map Prod.fst).Nodup := by
  obtain ⟨hnodes, -⟩ := represents_of_build h
  have hpaths : ((root.walk []).map Prod.fst).map Path.join = t.paths := by
    rw [paths, List.map_map]
    refine List.forall₂_eq_eq_eq ▸ List.forall₂_map_left_iff.2 (List.forall₂_map_right_iff.2 ?_)
    exact hnodes.imp fun _ _ he => he.path.symm
  refine List.Nodup.of_map Path.join ?_
  rw [hpaths]
  exact nodup_paths_of_build h

theorem place_unique (h : build root = .ok t) {names : List String} {c d : Component} {i j : Nat}
    (hi : (root.walk [])[i]? = some (names, c)) (hj : (root.walk [])[j]? = some (names, d)) :
    i = j := by
  have hlength : i < ((root.walk []).map Prod.fst).length := by
    rw [List.length_map]
    exact (List.getElem?_eq_some_iff.1 hi).1
  refine (List.getElem?_inj hlength (nodup_names_walk h)).1 ?_
  rw [List.getElem?_map, List.getElem?_map, hi, hj]
  rfl

theorem lt_of_parent (h : build root = .ok t) {n : TreeNode} (hn : n ∈ t) {j : Nat}
    (hparent : n.parent = some j) : j < n.context.id := by
  obtain ⟨e, he⟩ := exists_represents h hn
  have hlink := he.parent
  rw [hparent] at hlink
  exact hlink.1

/-- Links to parents and links to children say the same. -/
theorem parent_iff_mem_children (h : build root = .ok t) {n m : TreeNode} (hn : n ∈ t)
    (hm : m ∈ t) : m.parent = some n.context.id ↔ m.context.id ∈ n.children := by
  obtain ⟨⟨names, c⟩, hrepr⟩ := exists_represents h hn
  obtain ⟨⟨names', d⟩, hrepr'⟩ := exists_represents h hm
  have hlink := hrepr'.parent
  constructor
  · intro hparent
    rw [hparent] at hlink
    obtain ⟨-, above, name, p, hplace, hchild, hnames⟩ := hlink
    -- the parent's place is that of `n`, and `m` is reached by one more name
    obtain ⟨rfl, rfl⟩ := Prod.mk.inj (Option.some.inj (hplace.symm.trans hrepr.place))
    have hmem := List.mem_map_of_mem (f := fun e => some (above ++ [e.1], e.2)) hchild
    rw [← hrepr.children] at hmem
    obtain ⟨j, hj, hplace'⟩ := List.mem_map.1 hmem
    obtain rfl : names' = above ++ [name] := hnames
    rwa [place_unique h hrepr'.place hplace']
  · intro hmem
    have hplace := List.mem_map_of_mem (f := fun j => (root.walk [])[j]?) hmem
    rw [hrepr.children, hrepr'.place] at hplace
    obtain ⟨⟨name, c'⟩, -, hplace⟩ := List.mem_map.1 hplace
    obtain ⟨rfl, rfl⟩ := Prod.mk.inj (Option.some.inj hplace)
    cases hparent : m.parent with
    | none =>
      rw [hparent] at hlink
      exact absurd hlink.2 (by simp)
    | some j =>
      rw [hparent] at hlink
      obtain ⟨-, above, name', p, hplace', -, hnames⟩ := hlink
      -- the names above `m` are those of `n`, and so is the place
      obtain rfl : names = above := (List.append_inj' hnames rfl).1
      rw [place_unique h hplace' hrepr.place]

/-- A node is found at its path. -/
theorem find_of_mem (h : build root = .ok t) {n : TreeNode} (hn : n ∈ t) :
    t.find n.context.path = .ok n := by
  cases hfind : t.find n.context.path with
  | ok m =>
    obtain ⟨hm, hpath⟩ := find_eq_ok hfind
    rw [List.inj_on_of_nodup_map (nodup_paths_of_build h) hm hn hpath]
  | error e =>
    rw [find] at hfind
    split at hfind
    · cases hfind
    · next hnone => simpa using List.find?_eq_none.1 hnone n hn

/-- **Building numbers the walk.** A component can be built exactly when all names in it fit. The
nodes of its tree then stand for the places of its walk, in order; the links between them are those
of the component; every node is found at a path of its own, and every attribute at a leaf of its
own, which tells path and name. -/
theorem build_preorder (root : Component) :
    ((∃ t, build root = .ok t) ↔ root.WellNamed) ∧
      ∀ t, build root = .ok t →
        (root.walk []).map Prod.snd = root.preorder ∧
        List.Forall₂ (Represents (root.walk [])) (root.walk []) t ∧
        t.map (fun n => n.context.id) = List.range t.length ∧
        (∀ n ∈ t, ∀ j, n.parent = some j → j < n.context.id) ∧
        (∀ n ∈ t, ∀ m ∈ t, m.parent = some n.context.id ↔ m.context.id ∈ n.children) ∧
        t.paths.Nodup ∧ (∀ n ∈ t, t.find n.context.path = .ok n) ∧
        t.leaves.Nodup ∧ ∀ n ∈ t, ∀ a ∈ n.schema,
          Path.split (n.context.qualify a.name) = (n.context.path, a.name) := by
  refine ⟨Component.nodes_ok_iff, fun t h => ?_⟩
  obtain ⟨hnodes, hids⟩ := represents_of_build h
  refine ⟨Component.map_snd_walk [] root, hnodes, hids, fun n hn j => lt_of_parent h hn,
    fun n hn m hm => parent_iff_mem_children h hn hm, nodup_paths_of_build h,
    fun n hn => find_of_mem h hn, nodup_leaves h, fun n hn a ha => ?_⟩
  have hname := (namesFit_of_build h n hn).1 _ (List.mem_map_of_mem ha)
  exact Path.split_qualify n.context.path hname

/-- A component with a child, a child of that child, and another child. -/
def nestedSpecimen : Component :=
  ⟨[], fun _ _ => .ok [], [
    ("a", ⟨[.mutable "x"], fun _ _ => .ok [], [("b", ⟨[.mutable "x"], fun _ _ => .ok [], []⟩)]⟩),
    ("c", ⟨[], fun _ _ => .ok [], []⟩)]⟩

theorem build_preorder_nestedSpecimen :
    nestedSpecimen.WellNamed ∧ ∃ t, build nestedSpecimen = .ok t ∧
      t.paths = ["", "a", "a.b", "c"] ∧ t.map TreeNode.parent = [none, some 0, some 1, some 0] ∧
      t.leaves = ["a.x", "a.b.x"] ∧
      List.Forall₂ (Represents (nestedSpecimen.walk [])) (nestedSpecimen.walk []) t := by
  obtain ⟨hbuilt, hnumbers⟩ := build_preorder nestedSpecimen
  obtain ⟨t, ht⟩ : ∃ t, build nestedSpecimen = .ok t := ⟨_, rfl⟩
  have hnodes := (hnumbers t ht).2.1
  refine ⟨hbuilt.1 ⟨t, ht⟩, t, ht, ?_⟩
  obtain rfl := Except.ok.inj ht
  exact ⟨by decide, by decide, by decide, hnodes⟩

end Tree

end Lockstep
