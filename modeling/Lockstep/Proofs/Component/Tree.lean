import Lockstep.Component.Tree
import Lockstep.Proofs.State.Basic
import Mathlib.Data.List.TakeWhile

/-!
# Nodes below a node

All nodes below a child of the root have the child's name as the first name of their paths
(`first_of_nodes`). A component and its nodes are walked in the same order
(`length_of_nodes`), and filling a state writes the paths of the given nodes and nothing else
(`get?_of_fill`, `contains_of_fill`).
-/

namespace Lockstep

namespace Path

/-- The first name on a path. -/
def first (path : String) : String := String.ofList (path.toList.takeWhile (· ≠ '.'))

theorem isName_iff {name : String} : isName name = true ↔ name ≠ "" ∧ '.' ∉ name.toList := by
  simp [isName]

theorem first_of_isName {name : String} (h : isName name = true) : first name = name := by
  have hall : ∀ c ∈ name.toList, decide (c ≠ '.') = true := by
    intro c hc
    refine decide_eq_true fun he => (isName_iff.1 h).2 ?_
    rw [← he]
    exact hc
  rw [first, List.takeWhile_eq_self_iff.2 hall, String.ofList_toList]

theorem takeWhile_append_point (cs ds : List Char) :
    (cs ++ '.' :: ds).takeWhile (· ≠ '.') = cs.takeWhile (· ≠ '.') := by
  induction cs with
  | nil => simp
  | cons c cs ih =>
    rw [List.cons_append, List.takeWhile_cons, List.takeWhile_cons, ih]

/-- A child has the first name of its parent, unless that is the root. -/
theorem first_qualify {path : String} (h : path ≠ "") (name : String) :
    first (qualify path name) = first path := by
  rw [qualify, if_neg h, first, first, String.toList_append, String.toList_append]
  rw [show (".".toList : List Char) = ['.'] from rfl, List.append_assoc, List.singleton_append,
    takeWhile_append_point]

theorem qualify_root (name : String) : qualify "" name = name := if_pos rfl

/-- Only the root has the empty path. -/
theorem qualify_ne_root_of_isName (path : String) {name : String} (h : isName name = true) :
    qualify path name ≠ "" := by
  rw [qualify]
  split
  · exact (isName_iff.1 h).1
  · intro he
    have hlist := congrArg String.toList he
    rw [String.toList_append, String.toList_append] at hlist
    simp at hlist

theorem qualify_ne_root {path : String} (h : path ≠ "") (name : String) :
    qualify path name ≠ "" := by
  rw [qualify, if_neg h]
  intro he
  refine h (String.toList_injective ?_)
  have hlist := congrArg String.toList he
  rw [String.toList_append, String.toList_append] at hlist
  simp at hlist

end Path

namespace Component

/-! ## Walking a component -/

/-- A component whose schema is valid has its node first and then those of its children. -/
theorem nodes_eq_ok_iff {name path : String} {parent : Option Nat} {id : Nat} {c : Component}
    {ns : List TreeNode} :
    c.nodes name path parent id = .ok ns ↔ c.schema.validate = .ok () ∧
      ∃ ids below, childNodes path id (id + 1) [] c.children = .ok (ids, below) ∧
        ns = ⟨⟨id, path⟩, name, parent, ids, c.schema⟩ :: below := by
  obtain ⟨schema, init, children⟩ := c
  rw [nodes, Outcome.bind_eq_ok_iff]
  constructor
  · rintro ⟨⟨⟩, hvalid, h⟩
    obtain ⟨⟨ids, below⟩, hbelow, h⟩ := Outcome.bind_eq_ok_iff.1 h
    exact ⟨hvalid, ids, below, hbelow, (Except.ok.inj h).symm⟩
  · rintro ⟨hvalid, ids, below, hbelow, rfl⟩
    exact ⟨(), hvalid, Outcome.bind_eq_ok_iff.2 ⟨(ids, below), hbelow, rfl⟩⟩

theorem nodes_eq_ok {name path : String} {parent : Option Nat} {id : Nat} {c : Component}
    {ns : List TreeNode} (h : c.nodes name path parent id = .ok ns) :
    ∃ ids below, childNodes path id (id + 1) [] c.children = .ok (ids, below) ∧
      ns = ⟨⟨id, path⟩, name, parent, ids, c.schema⟩ :: below := (nodes_eq_ok_iff.1 h).2

/-- The first child has the next number, and the other children the numbers after its nodes. -/
theorem childNodes_cons_eq_ok_iff {path : String} {parent next : Nat} {seen : List String}
    {name : String} {c : Component} {rest : List (String × Component)} {ids : List Nat}
    {ns : List TreeNode} :
    childNodes path parent next seen ((name, c) :: rest) = .ok (ids, ns) ↔
      Path.isName name = true ∧ name ∉ seen ∧
        ∃ first, c.nodes name (Path.qualify path name) (some parent) next = .ok first ∧
          ∃ ids' more, childNodes path parent (next + first.length) (name :: seen) rest =
              .ok (ids', more) ∧ ids = next :: ids' ∧ ns = first ++ more := by
  rw [childNodes]
  split
  · next hname => simp_all
  · next hname =>
    split
    · next hseen => simp [hseen]
    · next hseen =>
      rw [Outcome.bind_eq_ok_iff]
      constructor
      · rintro ⟨first, hfirst, h⟩
        obtain ⟨⟨ids', more⟩, hmore, h⟩ := Outcome.bind_eq_ok_iff.1 h
        obtain ⟨rfl, rfl⟩ := Prod.mk.inj (Except.ok.inj h)
        exact ⟨by simpa using hname, hseen, first, hfirst, ids', more, hmore, rfl, rfl⟩
      · rintro ⟨-, -, first, hfirst, ids', more, hmore, rfl, rfl⟩
        exact ⟨first, hfirst, Outcome.bind_eq_ok_iff.2 ⟨(ids', more), hmore, rfl⟩⟩

theorem childNodes_cons_eq_ok {path : String} {parent next : Nat} {seen : List String}
    {name : String} {c : Component} {rest : List (String × Component)} {ids : List Nat}
    {ns : List TreeNode}
    (h : childNodes path parent next seen ((name, c) :: rest) = .ok (ids, ns)) :
    Path.isName name = true ∧ name ∉ seen ∧
      ∃ first, c.nodes name (Path.qualify path name) (some parent) next = .ok first ∧
        ∃ ids' more, childNodes path parent (next + first.length) (name :: seen) rest =
            .ok (ids', more) ∧ ns = first ++ more := by
  obtain ⟨hname, hseen, first, hfirst, ids', more, hmore, -, hns⟩ := childNodes_cons_eq_ok_iff.1 h
  exact ⟨hname, hseen, first, hfirst, ids', more, hmore, hns⟩

mutual

/-- A component has as many nodes as there are components in it. -/
theorem length_of_nodes :
    ∀ {c : Component} {name path : String} {parent : Option Nat} {id : Nat} {ns : List TreeNode},
      c.nodes name path parent id = .ok ns → ns.length = c.preorder.length
  | ⟨schema, init, children⟩, name, path, parent, id, ns, h => by
    obtain ⟨ids, below, hbelow, rfl⟩ := nodes_eq_ok h
    rw [preorder, List.length_cons, List.length_cons, length_of_childNodes hbelow]

theorem length_of_childNodes :
    ∀ {children : List (String × Component)} {path : String} {parent next : Nat}
      {seen : List String} {ids : List Nat} {ns : List TreeNode},
      childNodes path parent next seen children = .ok (ids, ns) →
        ns.length = (preorderList children).length
  | [], path, parent, next, seen, ids, ns, h => by
    rw [childNodes] at h
    obtain ⟨rfl, rfl⟩ := Prod.mk.inj (Except.ok.inj h)
    rw [preorderList]
    rfl
  | (name, c) :: rest, path, parent, next, seen, ids, ns, h => by
    obtain ⟨-, -, first, hfirst, ids', more, hmore, rfl⟩ := childNodes_cons_eq_ok h
    rw [preorderList, List.length_append, List.length_append, length_of_nodes hfirst,
      length_of_childNodes hmore]

end

mutual

/-- A node and all below it share the first name of their paths. -/
theorem first_of_nodes :
    ∀ {c : Component} {name path : String} {parent : Option Nat} {id : Nat} {ns : List TreeNode},
      path ≠ "" → c.nodes name path parent id = .ok ns →
        ∀ n ∈ ns, Path.first n.context.path = Path.first path
  | ⟨schema, init, children⟩, name, path, parent, id, ns, hpath, h => by
    obtain ⟨ids, below, hbelow, rfl⟩ := nodes_eq_ok h
    exact List.forall_mem_cons.2 ⟨rfl, first_of_childNodes hpath hbelow⟩

theorem first_of_childNodes :
    ∀ {children : List (String × Component)} {path : String} {parent next : Nat}
      {seen : List String} {ids : List Nat} {ns : List TreeNode},
      path ≠ "" → childNodes path parent next seen children = .ok (ids, ns) →
        ∀ n ∈ ns, Path.first n.context.path = Path.first path
  | [], path, parent, next, seen, ids, ns, hpath, h => by
    rw [childNodes] at h
    obtain ⟨rfl, rfl⟩ := Prod.mk.inj (Except.ok.inj h)
    nofun
  | (name, c) :: rest, path, parent, next, seen, ids, ns, hpath, h => by
    obtain ⟨-, -, first, hfirst, ids', more, hmore, rfl⟩ := childNodes_cons_eq_ok h
    intro n hn
    rcases List.mem_append.1 hn with hn | hn
    · -- a child's path is that of its parent and one more name
      rw [first_of_nodes (Path.qualify_ne_root hpath name) hfirst n hn,
        Path.first_qualify hpath]
    · -- the other children are below the same parent
      exact first_of_childNodes hpath hmore n hn

end

/-- The children of the root have names that were not seen before. -/
theorem isName_of_childNodes {path : String} {parent : Nat} :
    ∀ {children : List (String × Component)} {next : Nat} {seen : List String} {ids : List Nat}
      {ns : List TreeNode}, childNodes path parent next seen children = .ok (ids, ns) →
        ∀ e ∈ children, Path.isName e.1 = true ∧ e.1 ∉ seen
  | [], next, seen, ids, ns, _ => nofun
  | (name, c) :: rest, next, seen, ids, ns, h => by
    obtain ⟨hname, hseen, first, -, ids', more, hmore, -⟩ := childNodes_cons_eq_ok h
    refine List.forall_mem_cons.2 ⟨⟨hname, hseen⟩, fun e he => ?_⟩
    obtain ⟨hename, heseen⟩ := isName_of_childNodes hmore e he
    exact ⟨hename, fun hmem => heseen (List.mem_cons_of_mem _ hmem)⟩

/-- Every node below the root has a child's name as its first name. -/
theorem first_mem_of_childNodes {parent : Nat} :
    ∀ {children : List (String × Component)} {next : Nat} {seen : List String} {ids : List Nat}
      {ns : List TreeNode}, childNodes "" parent next seen children = .ok (ids, ns) →
        ∀ n ∈ ns, ∃ e ∈ children, Path.first n.context.path = e.1
  | [], next, seen, ids, ns, h => by
    rw [childNodes] at h
    obtain ⟨rfl, rfl⟩ := Prod.mk.inj (Except.ok.inj h)
    nofun
  | (name, c) :: rest, next, seen, ids, ns, h => by
    obtain ⟨hname, -, first, hfirst, ids', more, hmore, rfl⟩ := childNodes_cons_eq_ok h
    intro n hn
    rcases List.mem_append.1 hn with hn | hn
    · refine ⟨(name, c), List.mem_cons_self, ?_⟩
      rw [Path.qualify_root] at hfirst
      rw [first_of_nodes (Path.isName_iff.1 hname).1 hfirst n hn, Path.first_of_isName hname]
    · obtain ⟨e, he, hfirst'⟩ := first_mem_of_childNodes hmore n hn
      exact ⟨e, List.mem_cons_of_mem _ he, hfirst'⟩

end Component

namespace Tree

/-! ## Filling a state -/

/-- The node that is found at a path is in the tree and has that path. -/
theorem find_eq_ok {t : Tree} {path : String} {n : TreeNode} (h : t.find path = .ok n) :
    n ∈ t ∧ n.context.path = path := by
  rw [find] at h
  split at h
  · next n' hfind =>
    obtain rfl := Except.ok.inj h
    exact ⟨List.mem_of_find?_eq_some hfind, by simpa using List.find?_some hfind⟩
  · cases h

theorem context_eq_ok {t : Tree} {path : String} {node : NodeContext}
    (h : t.context path = .ok node) : node.path = path ∧ ∃ n ∈ t, n.context = node := by
  obtain ⟨n, hn, h⟩ := Outcome.bind_eq_ok_iff.1 h
  obtain rfl := Except.ok.inj h
  obtain ⟨hmem, hpath⟩ := find_eq_ok hn
  exact ⟨hpath, n, hmem, rfl⟩

theorem fill_cons_eq_ok_iff {key : Random.Key} {n : TreeNode} {c : Component}
    {rest : List (TreeNode × Component)} {s t : State} :
    fill key ((n, c) :: rest) s = .ok t ↔
      ∃ l, initialLocal key n c = .ok l ∧ fill key rest (s.withNode n.context.path l) = .ok t := by
  rw [fill, Outcome.bind_eq_ok_iff]

theorem fill_append_eq_ok_iff {key : Random.Key} {ys : List (TreeNode × Component)} {t : State} :
    ∀ {xs : List (TreeNode × Component)} {s : State},
      fill key (xs ++ ys) s = .ok t ↔ ∃ u, fill key xs s = .ok u ∧ fill key ys u = .ok t
  | [], s => by simp [fill]
  | (n, c) :: rest, s => by
    rw [List.cons_append, fill_cons_eq_ok_iff]
    simp only [fill_append_eq_ok_iff, fill_cons_eq_ok_iff]
    constructor
    · rintro ⟨l, hl, u, hu, ht⟩
      exact ⟨u, ⟨l, hl, hu⟩, ht⟩
    · rintro ⟨u, ⟨l, hl, hu⟩, ht⟩
      exact ⟨l, hl, u, hu, ht⟩

theorem batchDims_of_fill {key : Random.Key} :
    ∀ {xs : List (TreeNode × Component)} {s t : State}, fill key xs s = .ok t →
      t.batchDims = s.batchDims
  | [], s, t, h => by
    obtain rfl := Except.ok.inj h
    rfl
  | (n, c) :: rest, s, t, h => by
    obtain ⟨l, -, h⟩ := fill_cons_eq_ok_iff.1 h
    rw [batchDims_of_fill h]
    rfl

/-- Filling leaves all other nodes as they are. -/
theorem get?_of_fill {key : Random.Key} {path : String} :
    ∀ {xs : List (TreeNode × Component)} {s t : State}, fill key xs s = .ok t →
      (∀ e ∈ xs, e.1.context.path ≠ path) → Table.get? path t.nodes = Table.get? path s.nodes
  | [], s, t, h, _ => by
    obtain rfl := Except.ok.inj h
    rfl
  | (n, c) :: rest, s, t, h, hne => by
    obtain ⟨hn, hrest⟩ := List.forall_mem_cons.1 hne
    obtain ⟨l, -, h⟩ := fill_cons_eq_ok_iff.1 h
    rw [get?_of_fill h hrest]
    exact Table.get?_insert_of_ne _ _ hn.symm

/-- Filling keeps the nodes that are there and adds the given ones. -/
theorem contains_of_fill {key : Random.Key} {path : String} :
    ∀ {xs : List (TreeNode × Component)} {s t : State}, fill key xs s = .ok t →
      (s.contains path = true ∨ ∃ e ∈ xs, e.1.context.path = path) → t.contains path = true
  | [], s, t, h, hs => by
    obtain rfl := Except.ok.inj h
    rcases hs with hs | ⟨e, he, -⟩
    · exact hs
    · cases he
  | (n, c) :: rest, s, t, h, hs => by
    obtain ⟨l, -, h⟩ := fill_cons_eq_ok_iff.1 h
    refine contains_of_fill h ?_
    -- what is there stays, and the first of the given nodes is put in
    rcases hs with hs | ⟨e, he, hpath⟩
    · exact Or.inl (State.contains_withNode.2 (Or.inr hs))
    · rcases List.mem_cons.1 he with rfl | he
      · exact Or.inl (State.contains_withNode.2 (Or.inl hpath.symm))
      · exact Or.inr ⟨e, he, hpath⟩

theorem initialState_eq_ok {t : Tree} {root : Component} {key : Random.Key} {s : State}
    (h : initialState t root key = .ok s) :
    root.preorder.length = t.length ∧ fill key (t.zip root.preorder) .empty = .ok s := by
  rw [initialState] at h
  split at h
  · cases h
  · next hlength => exact ⟨not_not.1 hlength, h⟩

/-- A first state is not batched and has all nodes of the tree. -/
theorem batchDims_of_initialState {t : Tree} {root : Component} {key : Random.Key} {s : State}
    (h : initialState t root key = .ok s) : s.batchDims = [] :=
  batchDims_of_fill (initialState_eq_ok h).2

theorem contains_of_initialState {t : Tree} {root : Component} {key : Random.Key} {s : State}
    (h : initialState t root key = .ok s) {n : TreeNode} (hn : n ∈ t) :
    s.contains n.context.path = true := by
  obtain ⟨hlength, hfill⟩ := initialState_eq_ok h
  refine contains_of_fill hfill (Or.inr ?_)
  rw [← @List.map_fst_zip _ _ t root.preorder (by omega)] at hn
  obtain ⟨e, he, rfl⟩ := List.mem_map.1 hn
  exact ⟨e, he, rfl⟩

end Tree

end Lockstep
