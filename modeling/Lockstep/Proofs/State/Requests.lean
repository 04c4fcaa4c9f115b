import Lockstep.Proofs.Component.Start
import Lockstep.Proofs.State.Sharding

/-!
# What a placed state records of a request

A request names leaves. That a named leaf is in the state is checked after its name was split into
node and attribute, but directives are given under the names that nodes and attributes make
together. The two differ for names of one kind only: a point in front of an attribute of the root
(`Path.canonical_iff`). Such a request is accepted and leaves no trace. All other requests are
recorded, along the axis that was asked for (`State.shard_records_requests`).
-/

namespace Lockstep

namespace Path

/-- A name of a leaf is split at its last point, if it has one. -/
theorem split_cases (leaf : String) :
    ('.' ∉ leaf.toList ∧ split leaf = ("", leaf)) ∨
      ∃ path name, '.' ∉ name.toList ∧ leaf = path ++ "." ++ name ∧ split leaf = (path, name) := by
  by_cases hpoint : '.' ∈ leaf.toList
  · obtain ⟨back, front, hlist, hback⟩ := List.eq_append_cons_of_mem (List.mem_reverse.2 hpoint)
    refine .inr ⟨String.ofList front.reverse, String.ofList back.reverse, ?_, ?_, ?_⟩
    · rwa [String.toList_ofList, List.mem_reverse]
    · refine String.toList_injective (List.reverse_injective ?_)
      rw [hlist]
      simp
    · rw [split, hlist, (span_of_all hback front).1]
  · refine .inl ⟨hpoint, ?_⟩
    have hback : '.' ∉ leaf.toList.reverse := by rwa [List.mem_reverse]
    rw [split, (span_of_all hback []).2]

/-- The name that node and attribute of the leaf make together. -/
def Canonical (leaf : String) : Prop := qualify (split leaf).1 (split leaf).2 = leaf

instance (leaf : String) : Decidable (Canonical leaf) := inferInstanceAs (Decidable (_ = _))

/-- All names are canonical but those with a point in front of an attribute of the root. -/
theorem canonical_iff {leaf : String} :
    Canonical leaf ↔ ¬ ∃ name, '.' ∉ name.toList ∧ leaf = "." ++ name := by
  have hlist : ∀ name : String, ("." ++ name).toList = '.' :: name.toList := by simp
  rw [Canonical]
  rcases split_cases leaf with ⟨hpoint, hsplit⟩ | ⟨path, name, hname, rfl, hsplit⟩
  · -- without a point there is nothing in front
    rw [hsplit, qualify_root]
    refine ⟨fun _ hnone => ?_, fun _ => rfl⟩
    obtain ⟨name, -, rfl⟩ := hnone
    exact hpoint (hlist name ▸ List.mem_cons_self)
  · rw [hsplit]
    by_cases hroot : path = ""
    · subst hroot
      rw [qualify_root]
      refine ⟨fun heq => ?_, fun hnone => absurd ⟨name, hname, rfl⟩ hnone⟩
      have hlength := congrArg (fun s : String => s.toList.length) heq
      simp at hlength
    · rw [qualify, if_neg hroot]
      refine ⟨fun _ hnone => ?_, fun _ => rfl⟩
      obtain ⟨other, hother, heq⟩ := hnone
      -- the point before the name is not the first character, so it stands in the other name
      have hpath : path.toList ≠ [] := fun hnil => hroot (String.toList_injective hnil)
      obtain ⟨c, cs, hcs⟩ := List.exists_cons_of_ne_nil hpath
      have hchars := congrArg String.toList heq
      rw [String.append_assoc, String.toList_append, hlist, hlist, hcs, List.cons_append] at hchars
      rw [← (List.cons.inj hchars).2] at hother
      exact hother (List.mem_append_right _ List.mem_cons_self)

theorem canonical_qualify (path : String) {name : String} (h : isName name = true) :
    Canonical (qualify path name) := by
  rw [Canonical, split_qualify path h]

end Path

namespace State

variable {spec : PlacementSpec} {s s' : State}

theorem mem_leaves_of_leaf {qualified : String} {t : Tensor} (h : s.leaf qualified = .ok t) :
    (Path.qualify (Path.split qualified).1 (Path.split qualified).2, t) ∈ s.leaves := by
  obtain ⟨l, hl, hget⟩ := leaf_eq_ok_iff.1 h
  refine List.mem_flatMap.2 ⟨_, Table.mem_of_get?_eq_some (resolve_eq_ok_iff.1 hl), ?_⟩
  exact List.mem_filterMap.2 ⟨_, Table.mem_of_get?_eq_some hget, rfl⟩

/-- The attributes at this level have names that fit. -/
def NamesFit (s : State) : Prop :=
  ∀ e ∈ s.nodes, ∀ name ∈ Table.keys e.2, Path.isName name = true

instance (s : State) : Decidable s.NamesFit :=
  inferInstanceAs (Decidable (∀ e ∈ s.nodes, ∀ name ∈ Table.keys e.2, Path.isName name = true))

theorem canonical_of_mem_leafNames (h : s.NamesFit) {leaf : String} (hleaf : leaf ∈ s.leafNames) :
    Path.Canonical leaf := by
  obtain ⟨e, he, rfl⟩ := List.mem_map.1 hleaf
  obtain ⟨⟨path, l⟩, hl, hmem⟩ := List.mem_flatMap.1 he
  obtain ⟨⟨name, v⟩, hv, heq⟩ := List.mem_filterMap.1 hmem
  have hname := h _ hl name (Table.mem_keys_of_mem hv)
  cases v with
  | state inner => cases heq
  | tensor t =>
    obtain rfl := Option.some.inj heq
    exact Path.canonical_qualify path hname

/-- **What is recorded.** A request for several devices that is accepted changes the placement only,
and gives directives to the leaves of the state only. A leaf that is not listed is copied. A listed
leaf is in the state; it is split evenly along the axis that is listed, counted behind the batch
axes, or it gets no directive, which happens to the names with a point in front of an attribute of
the root. -/
theorem shard_records_requests (hnames : s.NamesFit) (hmany : 2 ≤ spec.mesh.devices.length)
    (h : s.shard spec = .ok s') :
    s'.nodes = s.nodes ∧ s'.batchDims = s.batchDims ∧
    (∀ leaf d, Table.get? leaf s'.placement = some d → ∃ t, (leaf, t) ∈ s.leaves) ∧
    (∀ leaf t, (leaf, t) ∈ s.leaves → Table.get? leaf spec.splitAxes = none →
      Table.get? leaf s'.placement = some .replicated) ∧
    ∀ leaf axis, Table.get? leaf spec.splitAxes = some axis → ∃ t, s.leaf leaf = .ok t ∧
      ((¬ ∃ name, '.' ∉ name.toList ∧ leaf = "." ++ name) →
        ∃ number : UInt64, number.toNat = axis.toNat + s.batchDims.length ∧
          Table.get? leaf s'.placement = some (.split number spec.mesh.devices) ∧
          ∃ length, t.shape[number.toNat]? = some length ∧ spec.mesh.devices.length ∣ length) ∧
      (Table.get? leaf s'.placement = none ↔
        ∃ name, '.' ∉ name.toList ∧ leaf = "." ++ name) := by
  have htrivial := PlacementSpec.not_isTrivial_iff.2 hmany
  have hplacement := get?_placement_of_shard htrivial h
  obtain ⟨hlisted, hplaced⟩ := (exists_shard_iff htrivial).1 ⟨s', h⟩
  have hmem : ∀ {leaf t}, (leaf, t) ∈ s.leaves → leaf ∈ s.leafNames := fun hleaf =>
    List.mem_map_of_mem (f := Prod.fst) hleaf
  -- every leaf of the state has the directive that the request has for it
  have hdirective : ∀ {leaf t}, (leaf, t) ∈ s.leaves → ∃ d,
      spec.directiveFor leaf s.batchDims.length = .ok d ∧
        Table.get? leaf s'.placement = some d := by
    intro leaf t hleaf
    obtain ⟨d, hd⟩ := numbers_of_shard h leaf (hmem hleaf)
    refine ⟨d, hd, ?_⟩
    rw [hplacement, if_pos (hmem hleaf), PlacementSpec.eq_directive_of_directiveFor hd]
  obtain ⟨placement, rfl⟩ := exists_of_shard h
  refine ⟨rfl, rfl, fun leaf d hd => ?_, fun leaf t hleaf hnone => ?_, fun leaf axis haxis => ?_⟩
  · rw [hplacement] at hd
    split at hd
    · next hleaf =>
      obtain ⟨e, he, rfl⟩ := List.mem_map.1 hleaf
      exact ⟨e.2, he⟩
    · cases hd
  · obtain ⟨d, hd, hget⟩ := hdirective hleaf
    rw [PlacementSpec.directiveFor_of_none _ hnone] at hd
    exact Except.ok.inj hd ▸ hget
  · obtain ⟨t, ht⟩ := hlisted _ (Table.mem_of_get?_eq_some haxis)
    refine ⟨t, ht, fun hcanonical => ?_, fun hnone => ?_, fun hpoint => ?_⟩
    · have hleaf := mem_leaves_of_leaf ht
      rw [Path.canonical_iff.2 hcanonical] at hleaf
      obtain ⟨d, hd, hget⟩ := hdirective hleaf
      obtain ⟨hfits, rfl⟩ := (PlacementSpec.directiveFor_of_get? htrivial haxis).1 hd
      obtain ⟨-, length, hlength, hdvd⟩ :=
        (placeLeaf_ok_iff htrivial).1 (hplaced _ hleaf) axis haxis
      have hnumber := UInt64.toNat_ofNat_of_lt' hfits
      refine ⟨_, hnumber, hget, length, ?_, hdvd⟩
      rw [hnumber]
      exact hlength
    · by_contra hcanonical
      have hleaf := mem_leaves_of_leaf ht
      rw [Path.canonical_iff.2 hcanonical] at hleaf
      obtain ⟨d, -, hget⟩ := hdirective hleaf
      rw [hnone] at hget
      cases hget
    · refine (hplacement leaf).trans (if_neg fun hleaf => ?_)
      exact Path.canonical_iff.1 (canonical_of_mem_leafNames hnames hleaf) hpoint

theorem shard_records_requests_specimen :
    specimen.NamesFit ∧ specimen.shard ⟨.gpus 2, [("p.x", 0)]⟩ = .ok (splitSpecimen 0) ∧
      ∃ number : UInt64, number.toNat = 0 ∧ Table.get? "p.x" (splitSpecimen 0).placement =
        some (.split number (Mesh.gpus 2).devices) := by
  have hfit : specimen.NamesFit := by decide
  have hsplit : specimen.shard ⟨.gpus 2, [("p.x", 0)]⟩ = .ok (splitSpecimen 0) := rfl
  have hpoint : ¬ ∃ name, '.' ∉ name.toList ∧ "p.x" = "." ++ name :=
    Path.canonical_iff.1 (by decide)
  obtain ⟨t, -, hrecorded, -⟩ :=
    (shard_records_requests hfit (by decide) hsplit).2.2.2.2 "p.x" 0 (by decide)
  obtain ⟨number, hnumber, hget, -⟩ := hrecorded hpoint
  exact ⟨hfit, hsplit, number, hnumber, hget⟩

/-- A request for a leaf of the root with a point in front is dropped: the leaf is copied. -/
theorem shard_drops_requests :
    State.NamesFit (State.empty.withNode "" [("x", .tensor (.vector [1, 2]))]) ∧
    ∃ t, State.shard (State.empty.withNode "" [("x", .tensor (.vector [1, 2]))])
        ⟨.gpus 2, [(".x", 0)]⟩ = .ok t ∧
      Table.get? ".x" t.placement = none ∧ Table.get? "x" t.placement = some .replicated :=
  ⟨by decide, _, rfl, by decide, by decide⟩

end State

end Lockstep
