import Lockstep.Proofs.State.Arrays
import Lockstep.Proofs.State.Leaf
import Lockstep.Proofs.State.Placements
import Lockstep.Proofs.State.Structure

/-!
# States of the same shapes

The outline of a state is what is left of it when its numbers are taken away: nodes, attributes, the
shapes of the leaves, batch axes and placements, of the states inside it too. Lanes of one outline
can be put together (`State.exists_unflatten`), and a batch can be placed when one of its lanes can
(`State.exists_shard_of_lane`).
-/

namespace Lockstep

mutual

/-- A value with zeros in place of its numbers. -/
def Value.outline : Value → Value
  | .tensor t => .tensor (.constant t.shape 0)
  | .state s => .state s.outline

/-- A state with zeros in place of its numbers. -/
def State.outline : State → State
  | ⟨nodes, dims, placement⟩ => ⟨nodesOutline nodes, dims, placement⟩

/-- Nodes with zeros in place of their numbers. -/
def nodesOutline : List (String × List (String × Value)) → List (String × List (String × Value))
  | [] => []
  | (path, l) :: rest => (path, localOutline l) :: nodesOutline rest

/-- A local state with zeros in place of its numbers. -/
def localOutline : List (String × Value) → List (String × Value)
  | [] => []
  | (name, v) :: rest => (name, v.outline) :: localOutline rest

end

mutual

/-- A value of zeros behind one more axis. -/
def Value.grown (count : Nat) : Value → Value
  | .tensor t => .tensor (.constant (count :: t.shape) 0)
  | .state s => .state (s.grown count)

/-- A state of zeros behind one more batch axis. -/
def State.grown (count : Nat) : State → State
  | ⟨nodes, dims, placement⟩ =>
    ⟨nodesGrown count nodes, count :: dims, Table.mapValues Directive.next placement⟩

/-- Nodes of zeros behind one more batch axis. -/
def nodesGrown (count : Nat) :
    List (String × List (String × Value)) → List (String × List (String × Value))
  | [] => []
  | (path, l) :: rest => (path, localGrown count l) :: nodesGrown count rest

/-- A local state of zeros behind one more batch axis. -/
def localGrown (count : Nat) : List (String × Value) → List (String × Value)
  | [] => []
  | (name, v) :: rest => (name, v.grown count) :: localGrown count rest

end

theorem localOutline_eq_mapValues {l : List (String × Value)} :
    localOutline l = Table.mapValues Value.outline l := by
  induction l with
  | nil => rfl
  | cons e rest ih =>
    obtain ⟨name, v⟩ := e
    rw [localOutline, ih]
    rfl

theorem nodesOutline_eq_mapValues {nodes : List (String × List (String × Value))} :
    nodesOutline nodes = Table.mapValues localOutline nodes := by
  induction nodes with
  | nil => rfl
  | cons e rest ih =>
    obtain ⟨path, l⟩ := e
    rw [nodesOutline, ih]
    rfl

/-- States have one outline if their nodes have, in the same batch dimensions and placement. -/
theorem State.outline_eq_iff {s t : State} : s.outline = t.outline ↔
    nodesOutline s.nodes = nodesOutline t.nodes ∧ s.batchDims = t.batchDims ∧
      s.placement = t.placement := by
  obtain ⟨nodes, dims, placement⟩ := s
  obtain ⟨nodes', dims', placement'⟩ := t
  rw [State.outline, State.outline, State.mk.injEq]

mutual

/-- The check of two outlines decides whether they are equal. -/
theorem Value.agrees_outline_iff :
    ∀ {v v' : Value}, v.outline.agrees v'.outline = true ↔ v.outline = v'.outline
  | .tensor t, .tensor t' => by
    have hzero : ((0 : Float) == 0) = true := by decide +kernel
    have hsame : (Tensor.constant t.shape 0).agrees (.constant t.shape 0) = true := by
      rw [Tensor.agrees, Tensor.constant, List.zip_replicate']
      simp [hzero]
    rw [Value.outline, Value.outline, Value.agrees, Value.tensor.injEq]
    constructor
    · intro h
      rw [Tensor.agrees, Bool.and_eq_true, decide_eq_true_eq] at h
      exact congrArg (Tensor.constant · 0) h.1
    · intro h
      rw [← h, hsame]
  | .state s, .state s' => by
    rw [Value.outline, Value.outline, Value.agrees, Value.state.injEq, State.agrees_outline_iff]
  | .tensor _, .state _ | .state _, .tensor _ => by simp [Value.outline, Value.agrees]

/-- Whether outlines are equal can be seen from their numbers. -/
theorem State.agrees_outline_iff :
    ∀ {s s' : State}, s.outline.agrees s'.outline = true ↔ s.outline = s'.outline
  | ⟨nodes, dims, placement⟩, ⟨nodes', dims', placement'⟩ => by
    rw [State.outline, State.outline, State.agrees, State.mk.injEq, Bool.and_eq_true,
      Bool.and_eq_true, decide_eq_true_eq, decide_eq_true_eq, nodesAgree_outline_iff, and_assoc]

theorem nodesAgree_outline_iff : ∀ {nodes nodes' : List (String × List (String × Value))},
    nodesAgree (nodesOutline nodes) (nodesOutline nodes') = true ↔
      nodesOutline nodes = nodesOutline nodes'
  | [], [] => by simp [nodesOutline, nodesAgree]
  | (path, l) :: rest, (path', l') :: rest' => by
    rw [nodesOutline, nodesOutline, nodesAgree, Bool.and_eq_true, Bool.and_eq_true,
      decide_eq_true_eq, localAgree_outline_iff, nodesAgree_outline_iff, List.cons.injEq,
      Prod.mk.injEq]
  | [], _ :: _ | _ :: _, [] => by simp [nodesOutline, nodesAgree]

theorem localAgree_outline_iff : ∀ {l l' : List (String × Value)},
    localAgrees (localOutline l) (localOutline l') = true ↔ localOutline l = localOutline l'
  | [], [] => by simp [localOutline, localAgrees]
  | (name, v) :: rest, (name', v') :: rest' => by
    rw [localOutline, localOutline, localAgrees, Bool.and_eq_true, Bool.and_eq_true,
      decide_eq_true_eq, Value.agrees_outline_iff, localAgree_outline_iff, List.cons.injEq,
      Prod.mk.injEq]
  | [], _ :: _ | _ :: _, [] => by simp [localOutline, localAgrees]

end

instance State.decidableOutlineEq (s s' : State) : Decidable (s.outline = s'.outline) :=
  decidable_of_iff _ State.agrees_outline_iff

theorem localGrown_eq_mapValues {count : Nat} {l : List (String × Value)} :
    localGrown count l = Table.mapValues (Value.grown count) l := by
  induction l with
  | nil => rfl
  | cons e rest ih =>
    obtain ⟨name, v⟩ := e
    rw [localGrown, ih]
    rfl

theorem nodesGrown_eq_mapValues {count : Nat} {nodes : List (String × List (String × Value))} :
    nodesGrown count nodes = Table.mapValues (localGrown count) nodes := by
  induction nodes with
  | nil => rfl
  | cons e rest ih =>
    obtain ⟨path, l⟩ := e
    rw [nodesGrown, ih]
    rfl

/-! ## Shapes that arrays can have -/

section

variable {dims : List Nat} {count : Nat}

/-- The outline of a state keeps its tables and maps the values. -/
theorem State.nodes_outline_eq_mapValues (s : State) :
    s.outline.nodes = Table.mapValues (Table.mapValues Value.outline) s.nodes := by
  obtain ⟨nodes, dims, placement⟩ := s
  rw [State.outline, nodesOutline_eq_mapValues,
    show localOutline = Table.mapValues Value.outline from
    funext fun _ => localOutline_eq_mapValues]

/-- Growing a state keeps its tables as well. -/
theorem State.nodes_grown_eq_mapValues (count : Nat) (s : State) :
    (s.grown count).nodes = Table.mapValues (Table.mapValues (Value.grown count)) s.nodes := by
  obtain ⟨nodes, dims, placement⟩ := s
  rw [State.grown, nodesGrown_eq_mapValues,
    show localGrown count = Table.mapValues (Value.grown count)
    from funext fun _ => localGrown_eq_mapValues]

/-- The outline of a value is made leaf by leaf. -/
theorem Value.pointwise_outline : Pointwise outline where
  tensor := fun _ => ⟨_, rfl⟩
  state := fun s => ⟨_, rfl, s.nodes_outline_eq_mapValues⟩

/-- So is a value with one more axis. -/
theorem Value.pointwise_grown (count : Nat) : Pointwise (grown count) where
  tensor := fun _ => ⟨_, rfl⟩
  state := fun s => ⟨_, rfl, s.nodes_grown_eq_mapValues count⟩

/-- Whether the leaves of a state could be arrays can be seen from its outline. -/
theorem State.fitsArrays_outline_iff {s : State} : s.outline.FitsArrays dims ↔ s.FitsArrays dims :=
  Value.pointwise_outline.fitsArrays_iff (fun v => by cases v <;> rfl) rfl

/-- An axis that a state grew by counts as one of the axes in front. -/
theorem State.fitsArrays_grown_iff {s : State} :
    (s.grown count).FitsArrays dims ↔ s.FitsArrays (dims ++ [count]) := by
  refine (Value.pointwise_grown count).fitsArrays_iff (fun v => ?_) rfl
  cases v with
  | tensor t =>
    show Tensor.IsArrayShape (dims ++ count :: t.shape) ↔
      Tensor.IsArrayShape ((dims ++ [count]) ++ t.shape)
    rw [List.append_assoc, List.singleton_append]
  | state s => rfl

end

/-- Axes that are put in front are axes that the leaves have to fit with. -/
theorem State.fitsArrays_foldr_grown_iff {inner : List Nat} {o : State} :
    ∀ {dims : List Nat},
      (inner.foldr State.grown o).FitsArrays dims ↔ o.FitsArrays (dims ++ inner) := by
  induction inner with
  | nil =>
    intro dims
    rw [List.foldr_nil, List.append_nil]
  | cons count inner ih =>
    intro dims
    rw [List.foldr_cons, State.fitsArrays_grown_iff, ih, List.append_assoc, List.singleton_append]

/-- States of one outline have leaves of the same shapes. -/
theorem State.FitsArrays.of_outline_eq {dims : List Nat} {s s' : State} (h : s.FitsArrays dims)
    (hsame : s'.outline = s.outline) : s'.FitsArrays dims := by
  rw [← State.fitsArrays_outline_iff, hsame, State.fitsArrays_outline_iff]
  exact h

/-- Whether there is room for batch axes can be seen from the outline. -/
theorem State.fitsBatch_outline_iff {axes : Nat} {s : State} :
    s.outline.FitsBatch axes ↔ s.FitsBatch axes := by
  refine Value.pointwise_outline.everywhere_iff (H := fun _ => True)
    (fun _ _ _ _ _ _ => trivial) (fun s s' _ h => ?_) (v := .state s) trivial
  obtain ⟨nodes, dims, placement⟩ := s
  obtain rfl := Value.state.inj h
  rfl

/-- So states of one outline have the same room. -/
theorem State.FitsBatch.of_outline_eq {axes : Nat} {s s' : State} (h : s.FitsBatch axes)
    (hsame : s'.outline = s.outline) : s'.FitsBatch axes := by
  rw [← State.fitsBatch_outline_iff, hsame, State.fitsBatch_outline_iff]
  exact h

/-- An entry of a table of one outline has a counterpart in the other one. -/
theorem exists_get?_of_mapValues_eq {α β : Type} {f : α → β} {t u : Table α}
    (ht : t.keys.Nodup) (h : u.mapValues f = t.mapValues f) {key : String} {v : α}
    (hv : (key, v) ∈ t) : ∃ v', u.get? key = some v' ∧ f v' = f v := by
  have hget := Table.get?_mapValues f u key
  rw [h, Table.get?_mapValues, Table.get?_eq_some_of_mem ht hv, Option.map_some] at hget
  exact Option.map_eq_some_iff.1 hget.symm

/-- A value with the outline of a tensor is one of that shape. -/
theorem outline_eq_tensor {v : Value} {shape : List Nat}
    (h : v.outline = .tensor (.constant shape 0)) : ∃ t, v = .tensor t ∧ t.shape = shape := by
  cases v with
  | tensor t => exact ⟨t, rfl, congrArg Tensor.shape (Value.tensor.inj h)⟩
  | state s => cases h

/-- A value with the outline of a nested state is a nested state with that outline. -/
theorem outline_eq_state {v : Value} {o : State} (h : v.outline = .state o) :
    ∃ s, v = .state s ∧ s.outline = o := by
  cases v with
  | tensor t => cases h
  | state s => exact ⟨s, rfl, Value.state.inj h⟩

/-- Values that all have what makes them a value of one kind are values of that kind. -/
theorem exists_map_eq {α β : Type} {f : α → β} {P : α → Prop} :
    ∀ {vs : List β}, (∀ v ∈ vs, ∃ x, v = f x ∧ P x) →
      ∃ xs : List α, vs = xs.map f ∧ ∀ x ∈ xs, P x
  | [], _ => ⟨[], rfl, nofun⟩
  | v :: vs, h => by
    obtain ⟨⟨x, rfl, hx⟩, hrest⟩ := List.forall_mem_cons.1 h
    obtain ⟨xs, rfl, hxs⟩ := exists_map_eq hrest
    exact ⟨x :: xs, rfl, List.forall_mem_cons.2 ⟨hx, hxs⟩⟩

namespace PlacementSpec

/-- Every axis that a request lists is numbered by a word behind that many batch axes. -/
def AxesFit (spec : PlacementSpec) (rank : Nat) : Prop :=
  ∀ e ∈ spec.splitAxes, e.2.toNat + rank < UInt64.size

/-- Axes that fit behind a batch fit behind a smaller one. -/
theorem AxesFit.le {spec : PlacementSpec} {m n : Nat} (h : spec.AxesFit n) (hle : m ≤ n) :
    spec.AxesFit m := fun e he => Nat.lt_of_le_of_lt (Nat.add_le_add_left hle _) (h e he)

end PlacementSpec

/-! ## Parts -/

theorem Tensor.getElem?_rows_constant {count j : Nat} (hj : j < count) (inner : List Nat)
    (x : Float) :
    (constant (count :: inner) x).rows[j]? = some (constant inner x) := by
  obtain ⟨r, hr, hshape, hdata⟩ := getElem?_rows (t := constant (count :: inner) x) rfl hj
  rw [hr, Option.some.injEq, eq_iff_shape_data]
  refine ⟨hshape, hdata.trans ?_⟩
  -- there are enough numbers behind the rows in front
  have hle : (j + 1) * volume inner ≤ count * volume inner := Nat.mul_le_mul_right _ hj
  rw [Nat.succ_mul] at hle
  change ((List.replicate (count * volume inner) x).drop (j * volume inner)).take (volume inner) =
    List.replicate (volume inner) x
  rw [List.drop_replicate, List.take_replicate]
  congr 1
  omega

mutual

/-- All parts of a value have one outline. -/
theorem Value.outline_part {count j : Nat} (hj : j < count) : ∀ {v : Value}, v.HasParts count →
    (v.part j).outline = v.outline.part 0
  | .tensor t, ⟨inner, hshape⟩ => by
    obtain ⟨r, hr, hrshape, -⟩ := Tensor.getElem?_rows hshape hj
    have hzero := Tensor.getElem?_rows_constant (Nat.zero_lt_of_lt hj) inner 0
    rw [Value.part, hr, Option.getD_some, Value.outline, Value.outline, hrshape, hshape, Value.part,
      hzero, Option.getD_some]
  | .state s, hs => congrArg Value.state (State.outline_part hj hs)

/-- All parts of a state have one outline. -/
theorem State.outline_part {count j : Nat} (hj : j < count) : ∀ {s : State}, s.HasParts count →
    (s.part j).outline = s.outline.part 0
  | ⟨nodes, dims, placement⟩, ⟨_, hnodes⟩ => by
    rw [State.part, State.outline, State.outline, State.part, nodesOutline_part hj hnodes]

/-- The outline of a lane is a lane of the outline, for all nodes. -/
theorem nodesOutline_part {count j : Nat} (hj : j < count) :
    ∀ {nodes : List (String × List (String × Value))}, nodesHaveParts count nodes →
      nodesOutline (nodesPart j nodes) = nodesPart 0 (nodesOutline nodes)
  | [], _ => rfl
  | (path, l) :: rest, ⟨hl, hrest⟩ => by
    rw [nodesPart, nodesOutline, nodesOutline, nodesPart, localOutline_part hj hl,
      nodesOutline_part hj hrest]

/-- The same for the values of a local state. -/
theorem localOutline_part {count j : Nat} (hj : j < count) :
    ∀ {l : List (String × Value)}, localHasParts count l →
      localOutline (localPart j l) = localPart 0 (localOutline l)
  | [], _ => rfl
  | (name, v) :: rest, ⟨hv, hrest⟩ => by
    rw [localPart, localOutline, localOutline, localPart, Value.outline_part hj hv,
      localOutline_part hj hrest]

end

/-- All lanes of a batch have one outline, which that of the batch determines. -/
theorem State.outline_of_mem_flatten {dims : List Nat} :
    ∀ {s : State} {ls : List State}, s.batchDims = dims → s.flatten = .ok ls →
      ∀ l ∈ ls, l.outline = (State.part 0)^[dims.length] s.outline := by
  induction dims with
  | nil =>
    intro s ls hdims h l hl
    rw [flatten_unbatched hdims, Except.ok.injEq] at h
    rw [← h, List.mem_singleton] at hl
    rw [hl]
    rfl
  | cons count dims ih =>
    intro s ls hdims h l hl
    obtain ⟨hparts, j, hj, hpdims, part, hflat, hl⟩ := exists_part_of_mem_flatten hdims h hl
    rw [ih hpdims hflat l hl, outline_part hj hparts, List.length_cons, Function.iterate_succ_apply]

namespace State

/-! ## Stacking -/

/-- What stacking relies on, beside equal outlines and arrays: the tables ascend, and the axes of
the placement have a number behind one more. -/
def stackable (s : State) : Prop := s.tablesAscend ∧ PlacementFitsBehind 1 s.placement

mutual

/-- Values of one outline are stacked if their leaves fit, and the outline grows by an axis. -/
theorem exists_stackValue (qualified : String) : ∀ {v : Value} {vs : List Value},
    v.Everywhere stackable → v.LeafFits [vs.length + 1] →
      v.Everywhere (leavesFit [vs.length + 1]) → (∀ u ∈ vs, u.outline = v.outline) →
      ∃ r, stackValue qualified v vs = .ok r ∧ r.outline = v.outline.grown (vs.length + 1)
  | .tensor t, vs, _, harray, _, h => by
    obtain ⟨ts, rfl, hts⟩ := exists_map_eq fun u hu => outline_eq_tensor (h u hu)
    have hshape : ∀ u ∈ t :: ts, u.shape = t.shape := List.forall_mem_cons.2 ⟨rfl, hts⟩
    rw [List.length_map] at harray
    refine ⟨_, stackValue_tensor_eq_ok_iff.2 ⟨ts, rfl, hshape, harray, rfl⟩, ?_⟩
    rw [List.length_map]
    rfl
  | .state s, vs, hs, _, harrays, h => by
    obtain ⟨ss, rfl, hss⟩ := exists_map_eq fun u hu => outline_eq_state (h u hu)
    rw [List.length_map] at harrays
    obtain ⟨r, hr, houtline⟩ := exists_stackOnto hs harrays hss
    refine ⟨_, stackValue_state_eq_ok_iff.2 ⟨ss, rfl, r, hr, rfl⟩, ?_⟩
    rw [List.length_map]
    exact congrArg Value.state houtline

/-- States of one outline can be stacked. -/
theorem exists_stackOnto : ∀ {s : State} {others : List State},
    s.Everywhere stackable → s.FitsArrays [others.length + 1] →
      (∀ o ∈ others, o.outline = s.outline) →
      ∃ r, stackOnto s others = .ok r ∧ r.outline = s.outline.grown (others.length + 1)
  | ⟨nodes, dims, placement⟩, others, ⟨⟨⟨hsorted, hlocals⟩, hroom⟩, hinside⟩, ⟨harrays, hfits⟩,
      h => by
    obtain ⟨nodes', hnodes', houtline⟩ := exists_stackNodes
      (fun e he => ⟨hlocals e he, harrays e he⟩) hinside hfits fun o ho e he => by
        have hsame := (outline_eq_iff.1 (h o ho)).1
        rw [nodesOutline_eq_mapValues, nodesOutline_eq_mapValues] at hsame
        exact exists_get?_of_mapValues_eq hsorted.nodup hsame he
    refine ⟨_, stackOnto_eq_ok_iff.2
      ⟨fun o ho => ?_, nodes', hnodes', _, placementOutward_eq_next hroom, rfl⟩, ?_⟩
    · obtain ⟨hsame, hdims, hplacement⟩ := outline_eq_iff.1 (h o ho)
      have hkeys := congrArg Table.keys hsame
      rw [nodesOutline_eq_mapValues, nodesOutline_eq_mapValues, Table.keys_mapValues,
        Table.keys_mapValues] at hkeys
      exact ⟨hdims, hkeys, hplacement⟩
    · rw [State.outline, houtline]
      rfl

/-- So can their nodes. -/
theorem exists_stackNodes :
    ∀ {nodes : List (String × List (String × Value))} {others : List State},
      (∀ e ∈ nodes, Table.Sorted e.2 ∧ ∀ a ∈ e.2, a.2.LeafFits [others.length + 1]) →
      nodesEverywhere stackable nodes →
      nodesEverywhere (leavesFit [others.length + 1]) nodes →
      (∀ o ∈ others, ∀ e ∈ nodes,
        ∃ l, Table.get? e.1 o.nodes = some l ∧ localOutline l = localOutline e.2) →
      ∃ r, stackNodes nodes others = .ok r ∧
        nodesOutline r = nodesGrown (others.length + 1) (nodesOutline nodes)
  | [], others, _, _, _, _ => ⟨[], by rw [stackNodes], rfl⟩
  | (path, l) :: rest, others, hnodes, ⟨hl, hrest⟩, ⟨hlfits, hrestfits⟩, h => by
    obtain ⟨⟨hlsorted, hlarrays⟩, hrestnodes⟩ := List.forall_mem_cons.1 hnodes
    -- equal outlines are equal names, in tables that ascend: what stacking looks for is there
    have hlocals : ∀ o ∈ localsAt path others, localOutline o = localOutline l := by
      intro o ho
      obtain ⟨s, hs, rfl⟩ := List.mem_map.1 ho
      obtain ⟨l', hl', hsame⟩ := h s hs (path, l) List.mem_cons_self
      rw [hl']
      exact hsame
    have hcount : (localsAt path others).length = others.length := List.length_map ..
    rw [← hcount] at hlarrays hlfits
    obtain ⟨stacked, hstacked, hone⟩ :=
      exists_stackLocal path hl hlarrays hlfits fun o ho e he => by
      have hsame := hlocals o ho
      rw [localOutline_eq_mapValues, localOutline_eq_mapValues] at hsame
      exact exists_get?_of_mapValues_eq hlsorted.nodup hsame he
    obtain ⟨more, hmore, hall⟩ := exists_stackNodes hrestnodes hrest hrestfits fun o ho e he =>
      h o ho e (List.mem_cons_of_mem _ he)
    refine ⟨_, stackNodes_cons_eq_ok_iff.2 ⟨stacked, hstacked, fun o ho => ?_, more, hmore, rfl⟩,
      ?_⟩
    · have hlength := congrArg List.length (hlocals o ho)
      rw [localOutline_eq_mapValues, localOutline_eq_mapValues] at hlength
      simpa only [Table.mapValues, List.length_map] using hlength
    · rw [hcount] at hone
      rw [nodesOutline, nodesOutline, nodesGrown, hone, hall]

/-- So can their local states. -/
theorem exists_stackLocal (path : String) : ∀ {l : List (String × Value)}
    {others : List LocalState}, localEverywhere stackable l →
      (∀ a ∈ l, a.2.LeafFits [others.length + 1]) →
      localEverywhere (leavesFit [others.length + 1]) l →
      (∀ o ∈ others, ∀ e ∈ l, ∃ v, Table.get? e.1 o = some v ∧ v.outline = e.2.outline) →
      ∃ r, stackLocal path l others = .ok r ∧
        localOutline r = localGrown (others.length + 1) (localOutline l)
  | [], others, _, _, _, _ => ⟨[], by rw [stackLocal], rfl⟩
  | (name, v) :: rest, others, ⟨hv, hrest⟩, harrays, ⟨hvfits, hrestfits⟩, h => by
    obtain ⟨hvarray, hrestarrays⟩ := List.forall_mem_cons.1 harrays
    obtain ⟨vs, hvs⟩ := Outcome.exists_forall₂ fun o ho => h o ho (name, v) List.mem_cons_self
    have hsame : ∀ u ∈ vs, u.outline = v.outline := by
      intro u hu
      obtain ⟨o, -, -, hone⟩ := Outcome.exists_left_of_mem hvs hu
      exact hone
    rw [hvs.length_eq] at hvarray hvfits
    obtain ⟨stacked, hstacked, hone⟩ :=
      exists_stackValue (Path.qualify path name) hv hvarray hvfits hsame
    obtain ⟨more, hmore, hall⟩ := exists_stackLocal path hrest hrestarrays hrestfits
      fun o ho e he => h o ho e (List.mem_cons_of_mem _ he)
    refine ⟨_, stackLocal_cons_eq_ok_iff.2
      ⟨vs, hvs.imp fun o u hu => hu.1, stacked, hstacked, more, hmore, rfl⟩, ?_⟩
    rw [localOutline, localOutline, localGrown, hone, hall, hvs.length_eq]

end

/-- Lanes of one outline that fill batch axes can be put together, when their leaves could be arrays
behind these axes and there is room for these. A lane that gets no batch axes need not hold
arrays. -/
theorem exists_unflatten {o : State} {dims : List Nat} : ∀ {lanes : List State},
    lanes.length = volume dims → 0 < volume dims → volume dims < UInt64.size →
      (dims ≠ [] → o.FitsArrays dims) →
      (∀ l ∈ lanes, l.Ordered ∧ l.FitsBatch dims.length ∧ l.outline = o) →
      ∃ r, unflatten dims lanes = .ok r ∧ r.outline = dims.foldr State.grown o := by
  induction dims with
  | nil =>
    intro lanes hlength _ _ _ h
    obtain ⟨lane, rfl⟩ := List.length_eq_one_iff.1 hlength
    exact ⟨lane, unflatten_nil_eq_ok_iff.2 rfl, (h lane List.mem_cons_self).2.2⟩
  | cons count inner ih =>
    intro lanes hlength hpos hlt harrays h
    rw [volume_cons] at hlength hpos hlt
    have hcount : 0 < count := Nat.pos_of_mul_pos_right hpos
    have hinner : volume inner < UInt64.size :=
      Nat.lt_of_le_of_lt (Nat.le_mul_of_pos_left _ hcount) hlt
    -- every piece of the lanes is put together to one part
    have hpieces : ∀ p ∈ pieces (volume inner) count lanes, Outcome.Gives
        (fun x => x.Ordered ∧ x.FitsBatch 1 ∧ x.outline = inner.foldr State.grown o)
          (unflatten inner p) := by
      intro p hp
      have hmem : ∀ l ∈ p, l.Ordered ∧ l.FitsBatch (inner.length + 1) ∧ l.outline = o := fun l hl =>
        h l (flatten_pieces hlength ▸ List.mem_flatten.2 ⟨p, hp, hl⟩)
      obtain ⟨x, hx, houtline⟩ := ih (length_of_mem_pieces hlength p hp)
        (Nat.pos_of_mul_pos_left hpos) hinner (fun _ => (harrays (List.cons_ne_nil _ _)).tail)
        fun l hl => ⟨(hmem l hl).1, (hmem l hl).2.1.mono (Nat.le_succ _), (hmem l hl).2.2⟩
      refine ⟨x, hx, ?_, FitsBatch.of_unflatten (fun l hl => ?_) hx, houtline⟩
      · exact of_unflatten (fun xs r hxs hr => Ordered.stack hr hxs) (fun l hl => (hmem l hl).1) hx
      · exact Nat.add_comm .. ▸ (hmem l hl).2.1
    obtain ⟨xs, hxs, hlengthxs, hall⟩ := Outcome.Gives.mapM hpieces
    rw [length_pieces] at hlengthxs
    obtain ⟨x, others, rfl⟩ : ∃ x others, xs = x :: others :=
      List.exists_cons_of_length_pos (hlengthxs ▸ hcount)
    obtain ⟨⟨hordered, hroom, hx⟩, hothers⟩ := List.forall_mem_cons.1 hall
    have hfits : x.FitsArrays [others.length + 1] := by
      rw [← fitsArrays_outline_iff, hx, fitsArrays_foldr_grown_iff, ← List.length_cons, hlengthxs]
      exact harrays (List.cons_ne_nil _ _)
    obtain ⟨r, hr, houtline⟩ := exists_stackOnto (Everywhere.and hordered hroom) hfits
      fun y hy => (hothers y hy).2.2.trans hx.symm
    refine ⟨r, (unflatten_eq_of_length hlength hpos hlt).2 ⟨_, hxs, hr⟩, ?_⟩
    rw [houtline, hx, ← hlengthxs]
    rfl

/-! ## Placing a batch -/

/-- A leaf of a part is a leaf of the whole. -/
theorem exists_leaf_of_part {s : State} {j : Nat} {qualified : String} {t : Tensor}
    (h : (s.part j).leaf qualified = .ok t) : ∃ u, s.leaf qualified = .ok u := by
  obtain ⟨l, hl, hget⟩ := leaf_eq_ok_iff.1 h
  rw [resolve_eq_ok_iff, get?_nodes_part] at hl
  obtain ⟨l', hl', rfl⟩ := Option.map_eq_some_iff.1 hl
  rw [localPart_eq_mapValues, Table.get?_mapValues] at hget
  obtain ⟨v, hv, hpart⟩ := Option.map_eq_some_iff.1 hget
  cases v with
  | tensor u => exact ⟨u, leaf_eq_ok_iff.2 ⟨l', resolve_eq_ok_iff.2 hl', hv⟩⟩
  | state inner => cases hpart

variable {spec : PlacementSpec}

/-- When all leaves are placed, every one of them is. -/
theorem placeLeaf_of_placeLeaves {rank : Nat} :
    ∀ {leaves : List (String × Tensor)} {before after : Table Directive},
      placeLeaves spec rank leaves before = .ok after →
        ∀ e ∈ leaves, ∃ d, placeLeaf spec rank e.1 e.2 = .ok d
  | [], _, _, _ => nofun
  | (qualified, t) :: rest, before, after, h => by
    rw [placeLeaves] at h
    obtain ⟨d, hd, h⟩ := Outcome.bind_eq_ok_iff.1 h
    exact List.forall_mem_cons.2 ⟨⟨d, hd⟩, placeLeaf_of_placeLeaves h⟩

/-- Placing looks at the leaves that are listed and at the directive of each leaf. -/
theorem exists_shard_iff {s : State} (htrivial : ¬ spec.isTrivial = true) :
    (∃ t, s.shard spec = .ok t) ↔ (∀ e ∈ spec.splitAxes, ∃ t, s.leaf e.1 = .ok t) ∧
      ∀ e ∈ s.leaves, ∃ d, placeLeaf spec s.batchDims.length e.1 e.2 = .ok d := by
  constructor
  · rintro ⟨t, ht⟩
    obtain ⟨-, hlisted, placement, hplacement, -⟩ :=
      (shard_eq_ok_iff.1 ht).resolve_left fun h => htrivial h.1
    exact ⟨hlisted, placeLeaf_of_placeLeaves hplacement⟩
  · rintro ⟨hlisted, hleaves⟩
    obtain ⟨after, hafter⟩ := placeLeaves_succeeds [] hleaves
    exact ⟨_, shard_eq_ok_iff.2 (Or.inr ⟨htrivial, hlisted, after, hafter, rfl⟩)⟩

/-- A leaf can be split behind one more batch axis exactly when its rows can. -/
theorem placeLeaf_row_iff {rank : Nat} (hfits : spec.AxesFit (rank + 1)) {qualified : String}
    {t : Tensor} {count j : Nat} {inner : List Nat} (ht : t.shape = count :: inner)
    (hj : j < count) :
    (∃ d, placeLeaf spec rank qualified (row j t) = .ok d) ↔
      ∃ d, placeLeaf spec (rank + 1) qualified t = .ok d := by
  by_cases htrivial : spec.isTrivial = true
  · exact ⟨fun _ => ⟨_, placeLeaf_of_trivial htrivial ..⟩,
      fun _ => ⟨_, placeLeaf_of_trivial htrivial ..⟩⟩
  · rw [placeLeaf_ok_iff htrivial, placeLeaf_ok_iff htrivial]
    refine forall₂_congr fun axis hget => ?_
    have hlt : axis.toNat + (rank + 1) < UInt64.size :=
      hfits (qualified, axis) (Table.mem_of_get?_eq_some hget)
    have hrank : axis.toNat + rank < UInt64.size := Nat.lt_of_succ_lt hlt
    -- the axis of the rows is the next axis of the leaf
    rw [and_iff_right hrank, and_iff_right hlt, shape_row ht hj, ht, ← Nat.add_assoc,
      List.getElem?_cons_succ]

/-- The leaves of a state that is taken apart have the outermost axis. -/
theorem shape_of_mem_leaves {s : State} {count : Nat} (h : s.HasParts count) {e : String × Tensor}
    (he : e ∈ s.leaves) : ∃ inner, e.2.shape = count :: inner := by
  obtain ⟨⟨path, l⟩, hl, hmem⟩ := List.mem_flatMap.1 he
  obtain ⟨⟨name, v⟩, hv, heq⟩ := List.mem_filterMap.1 hmem
  have hshape := localHasParts_iff.1 ((hasParts_iff.1 h).2 _ hl) _ hv
  cases v with
  | state inner => cases heq
  | tensor u =>
    obtain rfl := Option.some.inj heq
    exact hshape

/-- A batch can be placed exactly when any one of its parts can. -/
theorem exists_shard_part_iff {s : State} {count j : Nat} (hparts : s.HasParts count)
    (hj : j < count) (hfits : spec.AxesFit s.batchDims.length) :
    (∃ t, (s.part j).shard spec = .ok t) ↔ ∃ t, s.shard spec = .ok t := by
  by_cases htrivial : spec.isTrivial = true
  · exact ⟨fun _ => ⟨_, by rw [shard, if_pos htrivial]⟩,
      fun _ => ⟨_, by rw [shard, if_pos htrivial]⟩⟩
  · obtain ⟨dims, hdims⟩ := List.head?_eq_some_iff.1 (hasParts_iff.1 hparts).1
    rw [exists_shard_iff htrivial, exists_shard_iff htrivial, leaves_part, batchDims_part,
      List.forall_mem_map]
    rw [hdims] at hfits ⊢
    refine and_congr (forall₂_congr fun e _ => ⟨?_, ?_⟩) (forall₂_congr fun e he => ?_)
    · rintro ⟨t, ht⟩
      exact exists_leaf_of_part ht
    · rintro ⟨t, ht⟩
      exact ⟨_, leaf_part ht j⟩
    · obtain ⟨inner, hinner⟩ := shape_of_mem_leaves hparts he
      exact placeLeaf_row_iff hfits hinner hj

/-- What placements a state has plays no part in whether it can be placed. -/
theorem exists_shard_bare {s : State} :
    (∃ t, s.bare.shard spec = .ok t) ↔ ∃ t, s.shard spec = .ok t := by
  by_cases htrivial : spec.isTrivial = true
  · exact ⟨fun _ => ⟨s, by rw [shard, if_pos htrivial]⟩,
      fun _ => ⟨_, by rw [shard, if_pos htrivial]⟩⟩
  · rw [exists_shard_iff htrivial, exists_shard_iff htrivial, leaves_bare, batchDims_bare]
    simp only [leaf_bare_eq_ok_iff]

/-- Whether a request can be met depends only on the shapes of the leaves. -/
theorem SameLeaves.exists_shard {s s' : State} (h : s.SameLeaves s')
    (hs : ∃ t, s.shard spec = .ok t) : ∃ t, s'.shard spec = .ok t := by
  have hbare := exists_shard_bare.2 hs
  rw [show s.bare = s'.bare from h] at hbare
  exact exists_shard_bare.1 hbare

/-- A batch can be placed when one of its lanes can. -/
theorem exists_shard_of_lane {dims : List Nat} : ∀ {s l : State} {ls : List State},
    s.batchDims = dims → s.flatten = .ok ls → l ∈ ls → spec.AxesFit dims.length →
      (∃ t, l.shard spec = .ok t) → ∃ t, s.shard spec = .ok t := by
  induction dims with
  | nil =>
    intro s l ls hdims hls hl _ h
    rw [flatten_unbatched hdims, Except.ok.injEq] at hls
    rw [← hls, List.mem_singleton] at hl
    exact hl ▸ h
  | cons count dims ih =>
    intro s l ls hdims hls hl hfits h
    obtain ⟨hparts, j, hj, hpdims, part, hflat, hl⟩ := exists_part_of_mem_flatten hdims hls hl
    have hplaced := ih hpdims hflat hl (hfits.le (Nat.le_succ _)) h
    exact (exists_shard_part_iff hparts hj (hdims ▸ hfits)).1 hplaced

end State

end Lockstep
