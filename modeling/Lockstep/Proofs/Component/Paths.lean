import Lockstep.Proofs.Component.Start
import Mathlib.Data.List.Flatten
import Mathlib.Data.List.Nodup

/-!
# Different nodes have different paths

All paths of a component's nodes are at or below its own (`Path.Below`), and below children of
different names there are no common paths (`Path.eq_of_below_children`). So no two nodes of a tree
share a path (`Component.nodup_paths_of_nodes`), and no two attributes of a tree share a leaf
(`Tree.nodup_leaves`).
-/

namespace Lockstep

namespace Path

/-- The second path is the first one, or goes on below it. -/
def Below (base path : String) : Prop :=
  ∃ rest : List Char, path.toList = base.toList ++ rest ∧ (rest = [] ∨ ∃ cs, rest = '.' :: cs)

theorem below_self (path : String) : Below path path := ⟨[], by simp, Or.inl rfl⟩

/-- What stands before the names of children. -/
def front (base : String) : List Char := if base = "" then [] else base.toList ++ ['.']

theorem toList_qualify (base name : String) :
    (qualify base name).toList = front base ++ name.toList := by
  rw [qualify, front]
  split
  · rfl
  · rw [String.toList_append, String.toList_append]
    rfl

theorem below_of_child {base name path : String} (h : base ≠ "")
    (hpath : Below (qualify base name) path) : Below base path := by
  obtain ⟨rest, hrest, -⟩ := hpath
  rw [toList_qualify, front, if_neg h, List.append_assoc, List.append_assoc] at hrest
  exact ⟨_, hrest, Or.inr ⟨_, rfl⟩⟩

theorem ne_of_below_child {base name path : String} (hname : isName name = true)
    (hpath : Below (qualify base name) path) : path ≠ base := by
  rintro rfl
  obtain ⟨rest, hrest, -⟩ := hpath
  have hpos : 0 < name.toList.length :=
    List.length_pos_iff.2 fun h => (isName_iff.1 hname).1 (String.toList_injective h)
  have hfront : path.toList.length ≤ (front path).length := by
    rw [front]
    split
    · next h => rw [h]; exact Nat.le_refl 0
    · simp
  have hlength := congrArg List.length hrest
  rw [toList_qualify, List.length_append, List.length_append] at hlength
  omega

theorem takeWhile_of_isName {name : String} (hname : isName name = true) {rest : List Char}
    (hrest : rest = [] ∨ ∃ cs, rest = '.' :: cs) :
    (name.toList ++ rest).takeWhile (· ≠ '.') = name.toList := by
  have hself : name.toList.takeWhile (· ≠ '.') = name.toList := by
    refine List.takeWhile_eq_self_iff.2 fun c hc => decide_eq_true fun he => ?_
    exact (isName_iff.1 hname).2 (he ▸ hc)
  rcases hrest with rfl | ⟨cs, rfl⟩
  · rw [List.append_nil, hself]
  · rw [takeWhile_append_point, hself]

/-- Children with a path in common are the same child. -/
theorem eq_of_below_children {base a b path : String} (ha : isName a = true) (hb : isName b = true)
    (hpa : Below (qualify base a) path) (hpb : Below (qualify base b) path) : a = b := by
  obtain ⟨rest, hrest, hend⟩ := hpa
  obtain ⟨rest', hrest', hend'⟩ := hpb
  rw [toList_qualify, List.append_assoc] at hrest hrest'
  have hnames := List.append_cancel_left (hrest.symm.trans hrest')
  have hfirst := congrArg (List.takeWhile (· ≠ '.')) hnames
  rw [takeWhile_of_isName ha hend, takeWhile_of_isName hb hend'] at hfirst
  exact String.toList_injective hfirst

/-- A leaf says at which node it is and which attribute it holds. -/
theorem qualify_inj {path path' name name' : String} (hname : isName name = true)
    (hname' : isName name' = true) :
    qualify path name = qualify path' name' ↔ path = path' ∧ name = name' := by
  constructor
  · intro heq
    have hsplit := congrArg split heq
    rw [split_qualify _ hname, split_qualify _ hname'] at hsplit
    exact Prod.mk.inj hsplit
  · rintro ⟨rfl, rfl⟩
    rfl

end Path

namespace Component

theorem validate_of_nodes {name path : String} {parent : Option Nat} {id : Nat} {c : Component}
    {ns : List TreeNode} (h : c.nodes name path parent id = .ok ns) :
    c.schema.validate = .ok () := (nodes_eq_ok_iff.1 h).1

/-- The children of a node have different names. -/
theorem nodup_names_of_childNodes {path : String} {parent : Nat} :
    ∀ {children : List (String × Component)} {next : Nat} {seen : List String} {ids : List Nat}
      {ns : List TreeNode}, childNodes path parent next seen children = .ok (ids, ns) →
        (children.map Prod.fst).Nodup
  | [], next, seen, ids, ns, _ => List.nodup_nil
  | (name, c) :: rest, next, seen, ids, ns, h => by
    obtain ⟨-, -, first, -, ids', more, hmore, -⟩ := childNodes_cons_eq_ok h
    refine List.nodup_cons.2 ⟨fun hmem => ?_, nodup_names_of_childNodes hmore⟩
    obtain ⟨e, he, hname⟩ := List.mem_map.1 hmem
    exact (isName_of_childNodes hmore e he).2 (hname ▸ List.mem_cons_self)

mutual

/-- The schemas of all nodes are valid. -/
theorem forall_validate_of_nodes :
    ∀ {c : Component} {name path : String} {parent : Option Nat} {id : Nat} {ns : List TreeNode},
      c.nodes name path parent id = .ok ns → ∀ n ∈ ns, n.schema.validate = .ok ()
  | ⟨schema, init, children⟩, name, path, parent, id, ns, h => by
    have hvalid := validate_of_nodes h
    obtain ⟨ids, below, hbelow, hns⟩ := nodes_eq_ok h
    rw [hns]
    exact List.forall_mem_cons.2 ⟨hvalid, forall_validate_of_childNodes hbelow⟩

theorem forall_validate_of_childNodes :
    ∀ {children : List (String × Component)} {path : String} {parent next : Nat}
      {seen : List String} {ids : List Nat} {ns : List TreeNode},
      childNodes path parent next seen children = .ok (ids, ns) →
        ∀ n ∈ ns, n.schema.validate = .ok ()
  | [], path, parent, next, seen, ids, ns, h => by
    rw [childNodes] at h
    obtain ⟨rfl, rfl⟩ := Prod.mk.inj (Except.ok.inj h)
    nofun
  | (name, c) :: rest, path, parent, next, seen, ids, ns, h => by
    obtain ⟨-, -, first, hfirst, ids', more, hmore, rfl⟩ := childNodes_cons_eq_ok h
    exact List.forall_mem_append.2
      ⟨forall_validate_of_nodes hfirst, forall_validate_of_childNodes hmore⟩

end

mutual

/-- The nodes of a component are at or below its path, each at a path of its own. -/
theorem nodup_paths_of_nodes :
    ∀ {c : Component} {name path : String} {parent : Option Nat} {id : Nat} {ns : List TreeNode},
      c.nodes name path parent id = .ok ns →
        (path ≠ "" → ∀ n ∈ ns, Path.Below path n.context.path) ∧ (Tree.paths ns).Nodup
  | ⟨schema, init, children⟩, name, path, parent, id, ns, h => by
    obtain ⟨ids, below, hbelow, rfl⟩ := nodes_eq_ok h
    obtain ⟨hchildren, hnodup⟩ := nodup_paths_of_childNodes hbelow
    have hnames := isName_of_childNodes hbelow
    refine ⟨fun hpath => List.forall_mem_cons.2 ⟨Path.below_self path, fun n hn => ?_⟩,
      List.nodup_cons.2 ⟨fun hmem => ?_, hnodup⟩⟩
    · obtain ⟨e, -, hn⟩ := hchildren n hn
      exact Path.below_of_child hpath hn
    · obtain ⟨n, hn, heq⟩ := List.mem_map.1 hmem
      obtain ⟨e, he, hn⟩ := hchildren n hn
      exact Path.ne_of_below_child (hnames e he).1 hn heq

theorem nodup_paths_of_childNodes :
    ∀ {children : List (String × Component)} {path : String} {parent next : Nat}
      {seen : List String} {ids : List Nat} {ns : List TreeNode},
      childNodes path parent next seen children = .ok (ids, ns) →
        (∀ n ∈ ns, ∃ e ∈ children, Path.Below (Path.qualify path e.1) n.context.path) ∧
          (Tree.paths ns).Nodup
  | [], path, parent, next, seen, ids, ns, h => by
    rw [childNodes] at h
    obtain ⟨rfl, rfl⟩ := Prod.mk.inj (Except.ok.inj h)
    exact ⟨nofun, List.nodup_nil⟩
  | (name, c) :: rest, path, parent, next, seen, ids, ns, h => by
    obtain ⟨hname, -, first, hfirst, ids', more, hmore, rfl⟩ := childNodes_cons_eq_ok h
    have hother := isName_of_childNodes hmore
    obtain ⟨hbelow, hnodup⟩ := nodup_paths_of_nodes hfirst
    obtain ⟨hrest, hnodup'⟩ := nodup_paths_of_childNodes hmore
    have hne := Path.qualify_ne_root_of_isName path hname
    refine ⟨List.forall_mem_append.2 ⟨fun n hn => ?_, fun n hn => ?_⟩, ?_⟩
    · exact ⟨(name, c), List.mem_cons_self, hbelow hne n hn⟩
    · obtain ⟨e, he, hn⟩ := hrest n hn
      exact ⟨e, List.mem_cons_of_mem _ he, hn⟩
    · rw [Tree.paths, List.map_append]
      refine List.nodup_append.2 ⟨hnodup, hnodup', ?_⟩
      -- a path in both would be below two children, but their names differ
      rintro _ hp _ hp' rfl
      obtain ⟨n, hn, rfl⟩ := List.mem_map.1 hp
      obtain ⟨n', hn', heq⟩ := List.mem_map.1 hp'
      obtain ⟨e, he, hbelow'⟩ := hrest n' hn'
      rw [heq] at hbelow'
      obtain ⟨hename, heseen⟩ := hother e he
      have hsame := Path.eq_of_below_children hname hename (hbelow hne n hn) hbelow'
      exact heseen (hsame ▸ List.mem_cons_self)

end

end Component

namespace Tree

theorem nodup_paths_of_build {root : Component} {tree : Tree} (h : build root = .ok tree) :
    tree.paths.Nodup := (Component.nodup_paths_of_nodes h).2

theorem namesFit_of_build {root : Component} {tree : Tree} (h : build root = .ok tree) :
    ∀ n ∈ tree, Path.NamesFit (n.schema.map Attribute.name) := fun n hn =>
  Schema.namesFit_of_validate (Component.forall_validate_of_nodes h n hn)

/-- The leaves of all attributes, in the order of nodes. -/
def leaves (t : Tree) : List String :=
  t.flatMap fun n => n.schema.map fun a => n.context.qualify a.name

/-- No two attributes of a tree share a leaf. -/
theorem nodup_leaves {root : Component} {tree : Tree} (h : build root = .ok tree) :
    tree.leaves.Nodup := by
  have hfit := namesFit_of_build h
  have hname : ∀ n ∈ tree, ∀ a ∈ n.schema, Path.isName a.name = true :=
    fun n hn a ha => (hfit n hn).1 _ (List.mem_map_of_mem ha)
  rw [leaves, List.nodup_flatMap]
  refine ⟨fun n hn => List.pairwise_map.2 ?_, ?_⟩
  · -- the leaves of one node differ by the names of its attributes
    refine (List.pairwise_map.1 (hfit n hn).2).imp_of_mem fun {a b} ha hb hne heq => hne ?_
    exact ((Path.qualify_inj (hname n hn a ha) (hname n hn b hb)).1 heq).2
  · have hpaths := List.pairwise_map.1 (nodup_paths_of_build h)
    refine hpaths.imp_of_mem fun {n n'} hn hn' hne leaf hl hl' => hne ?_
    obtain ⟨a, ha, rfl⟩ := List.mem_map.1 hl
    obtain ⟨b, hb, heq⟩ := List.mem_map.1 hl'
    exact ((Path.qualify_inj (hname n' hn' b hb) (hname n hn a ha)).1 heq).1.symm

theorem sublist_populationLeaves (tree : Tree) :
    (tree.populationLeaves.map Prod.fst).Sublist tree.leaves := by
  rw [populationLeaves, leaves, List.map_flatMap]
  refine List.Sublist.flatMap_right _ fun n _ => ?_
  have hstateful : n.schema.stateful.Sublist n.schema := List.filter_sublist
  exact (Table.sublist_keys_filterMap ..).trans (hstateful.map _)

/-- No two attributes of a tree with a population axis share a leaf. -/
theorem nodup_populationLeaves {root : Component} {tree : Tree} (h : build root = .ok tree) :
    (tree.populationLeaves.map Prod.fst).Nodup :=
  (nodup_leaves h).sublist (sublist_populationLeaves tree)

theorem sublist_parameters (tree : Tree) :
    (tree.parameters.map Prod.fst).Sublist tree.leaves := by
  rw [parameters, leaves, List.map_flatMap]
  refine List.Sublist.flatMap_right _ fun n _ => ?_
  have hparameters : n.schema.parameters.Sublist n.schema := List.filter_sublist
  rw [List.map_map]
  exact hparameters.map _

/-- No two parameters of a tree share a leaf. -/
theorem nodup_parameters {root : Component} {tree : Tree} (h : build root = .ok tree) :
    (tree.parameters.map Prod.fst).Nodup :=
  (nodup_leaves h).sublist (sublist_parameters tree)

end Tree

end Lockstep
