import Lockstep.Proofs.Placement
import Lockstep.Proofs.State.Basic
import Lockstep.State.Stack

/-!
# When stacking and taking apart succeed

For each of the functions behind `State.stack` and `State.unstack`, the condition under which it
succeeds and the result it then gives. All later facts about the two are derived from these.
-/

namespace Lockstep

namespace Tensor

/-- The slices along the first axis have the shape behind it. -/
theorem shape_mem_rows {t : Tensor} {count : Nat} {inner : List Nat}
    (ht : t.shape = count :: inner) :
    ∀ r ∈ t.rows, r.shape = inner := by
  obtain ⟨shape, data, hf⟩ := t
  subst ht
  exact fun r hr => shape_mem_rowsOf hr

/-- There are as many of them as the first axis is long. -/
theorem length_rows {t : Tensor} {count : Nat} {inner : List Nat} (ht : t.shape = count :: inner) :
    t.rows.length = count := by
  obtain ⟨shape, data, hf⟩ := t
  subst ht
  exact length_rowsOf

/-- One after another, the slices hold the numbers of the array. -/
theorem flatMap_data_rows {t : Tensor} {count : Nat} {inner : List Nat}
    (ht : t.shape = count :: inner) : t.rows.flatMap data = t.data := by
  obtain ⟨shape, data, hf⟩ := t
  subst ht
  exact flatMap_data_rowsOf

/-- Tensors with one shape and the same numbers. -/
theorem eq_iff_shape_data {t u : Tensor} : t = u ↔ t.shape = u.shape ∧ t.data = u.data := by
  constructor
  · rintro rfl
    exact ⟨rfl, rfl⟩
  · obtain ⟨shape, data, hf⟩ := t
    obtain ⟨shape', data', hf'⟩ := u
    rintro ⟨rfl, rfl⟩
    rfl

/-- A tensor with axes is known by its rows. -/
theorem eq_of_rows {t u : Tensor} {count : Nat} {inner : List Nat} (ht : t.shape = count :: inner)
    (hu : u.shape = count :: inner) (hrows : t.rows = u.rows) : t = u := by
  refine eq_iff_shape_data.2 ⟨ht.trans hu.symm, ?_⟩
  rw [← flatMap_data_rows ht, hrows, flatMap_data_rows hu]

theorem getElem?_rowsOf {inner : List Nat} :
    ∀ {count : Nat} {data : List Float} {h : data.length = count * volume inner} {j : Nat},
      j < count → ∃ r, (rowsOf inner count data h)[j]? = some r ∧ r.shape = inner ∧
        r.data = (data.drop (j * volume inner)).take (volume inner)
  | 0, _, _, _, hj => absurd hj (Nat.not_lt_zero _)
  | count + 1, data, h, j, hj => by
    rw [rowsOf]
    cases j with
    | zero => exact ⟨_, rfl, rfl, by rw [Nat.zero_mul, List.drop_zero]⟩
    | succ j =>
      have hdrop : (data.drop (volume inner)).length = count * volume inner := by
        rw [List.length_drop, h, Nat.succ_mul, Nat.add_sub_cancel]
      obtain ⟨r, hr, hshape, hdata⟩ := getElem?_rowsOf (h := hdrop) (Nat.lt_of_succ_lt_succ hj)
      refine ⟨r, hr, hshape, ?_⟩
      rw [hdata, List.drop_drop, Nat.succ_mul, Nat.add_comm]

/-- A row has the numbers that stand at its place. -/
theorem getElem?_rows {t : Tensor} {count : Nat} {inner : List Nat} (ht : t.shape = count :: inner)
    {j : Nat} (hj : j < count) :
    ∃ r, t.rows[j]? = some r ∧ r.shape = inner ∧
      r.data = (t.data.drop (j * volume inner)).take (volume inner) := by
  obtain ⟨shape, data, hf⟩ := t
  subst ht
  exact getElem?_rowsOf hj

/-- What an array can have behind an axis it can have on its own. -/
theorem IsArrayShape.tail {count : Nat} {shape : List Nat} (h : IsArrayShape (count :: shape)) :
    IsArrayShape shape := by
  rw [IsArrayShape, List.filter_cons] at h
  split at h
  · next hcount =>
    refine Nat.le_trans (Nat.le_mul_of_pos_left _ ?_) h
    exact Nat.pos_of_ne_zero (of_decide_eq_true hcount)
  · exact h

/-- Without its empty axes a shape holds something. -/
theorem volume_filter_pos (shape : List Nat) : 0 < volume (shape.filter (· ≠ 0)) := by
  induction shape with
  | nil => exact Nat.one_pos
  | cons count shape ih =>
    rw [List.filter_cons]
    split
    · next hcount =>
      exact Nat.mul_pos (Nat.pos_of_ne_zero (of_decide_eq_true hcount)) ih
    · exact ih

/-- What an array can have in front of other axes. -/
theorem IsArrayShape.init {outer inner : List Nat} (h : IsArrayShape (outer ++ inner)) :
    IsArrayShape outer := by
  rw [IsArrayShape, List.filter_append, volume_append] at h
  refine Nat.le_trans (Nat.le_mul_of_pos_right _ ?_) h
  exact volume_filter_pos inner

/-- A shape with room for numbers has no axis of length zero to leave out. -/
theorem volume_filter {shape : List Nat} (hpos : 0 < volume shape) :
    volume (shape.filter (· ≠ 0)) = volume shape := by
  induction shape with
  | nil => rfl
  | cons count shape ih =>
    have hcount : decide (count ≠ 0) = true :=
      decide_eq_true (Nat.ne_of_gt (Nat.pos_of_mul_pos_right hpos))
    rw [List.filter_cons, if_pos hcount, volume_cons, volume_cons,
      ih (Nat.pos_of_mul_pos_left hpos)]

/-- The numbers of an array can be counted by words. -/
theorem IsArrayShape.volume_lt {shape : List Nat} (h : IsArrayShape shape) :
    volume shape < UInt64.size := by
  rcases Nat.eq_zero_or_pos (volume shape) with hzero | hpos
  · rw [hzero]
    decide
  · rw [IsArrayShape, volume_filter hpos] at h
    exact Nat.lt_of_le_of_lt h (by decide)

/-- Axes that are not empty can be joined to one. -/
theorem isArrayShape_volume_cons_iff {dims shape : List Nat} (hpos : 0 < volume dims) :
    IsArrayShape (volume dims :: shape) ↔ IsArrayShape (dims ++ shape) := by
  rw [IsArrayShape, IsArrayShape, List.filter_append, volume_append, volume_filter hpos,
    List.filter_cons, if_pos (decide_eq_true (Nat.ne_of_gt hpos)), volume_cons]

/-- Arrays are stacked if their shapes agree and the result is an array, and then slice by slice. -/
theorem stackNamed_eq_ok_iff {context : String} {t : Tensor} {ts : List Tensor} {u : Tensor} :
    stackNamed context (t :: ts) = .ok u ↔
      ∃ h : ∀ r ∈ t :: ts, r.shape = t.shape,
        IsArrayShape ((ts.length + 1) :: t.shape) ∧ u = ofRows t.shape (t :: ts) h := by
  rw [stackNamed]
  split
  · next r hr =>
    have hne := List.find?_some hr
    have hmem := List.mem_of_find?_eq_some hr
    constructor
    · intro h
      cases h
    · rintro ⟨h, -⟩
      simp [h r (List.mem_cons_of_mem _ hmem)] at hne
  · next hnone =>
    -- no array differs in shape from the first one
    have hall : ∀ r ∈ t :: ts, r.shape = t.shape := by
      intro r hr
      rcases List.mem_cons.1 hr with rfl | hr
      · rfl
      · simpa using List.find?_eq_none.1 hnone r hr
    by_cases harray : IsArrayShape ((ts.length + 1) :: t.shape)
    · rw [if_pos harray]
      constructor
      · intro h
        exact ⟨hall, harray, (Except.ok.inj h).symm⟩
      · rintro ⟨-, -, rfl⟩
        rfl
    · rw [if_neg harray]
      exact ⟨nofun, fun ⟨_, h, _⟩ => absurd h harray⟩

/-- A stack has the stacked tensors as its rows. -/
theorem stack_eq_ok_iff {ts : List Tensor} {u : Tensor} :
    stack ts = .ok u ↔
      ts ≠ [] ∧ IsArrayShape u.shape ∧ (∃ inner, u.shape = ts.length :: inner) ∧ u.rows = ts := by
  cases ts with
  | nil => exact ⟨nofun, fun h => absurd rfl h.1⟩
  | cons t ts =>
    rw [stack, stackNamed_eq_ok_iff]
    constructor
    · rintro ⟨hshape, harray, rfl⟩
      exact ⟨List.cons_ne_nil _ _, harray, ⟨t.shape, rfl⟩, rows_ofRows hshape⟩
    · rintro ⟨-, harray, ⟨inner, hu⟩, hrows⟩
      have hinner := shape_mem_rows hu
      rw [hrows] at hinner
      obtain rfl := hinner t List.mem_cons_self
      exact ⟨hinner, hu ▸ harray, eq_of_rows hu rfl (hrows.trans (rows_ofRows hinner).symm)⟩

/-- Which lists of arrays can be stacked. -/
theorem exists_stack_iff {ts : List Tensor} :
    (∃ u, stack ts = .ok u) ↔
      ts ≠ [] ∧ ∃ shape, (∀ t ∈ ts, t.shape = shape) ∧ IsArrayShape (ts.length :: shape) := by
  constructor
  · rintro ⟨u, hu⟩
    obtain ⟨hne, harray, ⟨inner, hshape⟩, hrows⟩ := stack_eq_ok_iff.1 hu
    exact ⟨hne, inner, hrows ▸ shape_mem_rows hshape, hshape ▸ harray⟩
  · rintro ⟨hne, shape, hshape, harray⟩
    exact ⟨ofRows shape ts hshape,
      stack_eq_ok_iff.2 ⟨hne, harray, ⟨shape, rfl⟩, rows_ofRows hshape⟩⟩

/-- An array with an axis comes apart into its slices. -/
theorem unstack_eq_ok_iff {t : Tensor} {ts : List Tensor} :
    t.unstack = .ok ts ↔ (∃ count inner, t.shape = count :: inner) ∧ ts = t.rows := by
  rw [unstack, rank]
  cases hs : t.shape with
  | nil => simp
  | cons count inner =>
    simp only [List.length_cons, Nat.add_eq_zero_iff, Nat.one_ne_zero, and_false, if_false,
      Except.ok.injEq]
    exact ⟨fun h => ⟨⟨count, inner, rfl⟩, h.symm⟩, fun h => h.2.symm⟩

end Tensor

namespace State

/-! ## Columns -/

/-- A column has the value of every one of the other local states, in their order. -/
theorem column_eq_ok_iff {qualified name : String} {others : List LocalState} {vs : List Value} :
    column qualified name others = .ok vs ↔
      List.Forall₂ (fun (l : LocalState) v => Table.get? name l = some v) others vs := by
  rw [column, Outcome.mapM_eq_ok_iff]
  constructor
  · intro h
    refine h.imp fun l v hv => ?_
    cases hget : Table.get? name l with
    | none => simp [hget] at hv
    | some u =>
      simp only [hget, Except.ok.injEq] at hv
      rw [hv]
  · intro h
    refine h.imp fun l v hv => ?_
    rw [hv]

/-- Beside a tensor of some shape, a column holds only tensors of that shape. -/
theorem tensorColumn_eq_ok_iff {qualified : String} {shape : List Nat} {vs : List Value}
    {ts : List Tensor} :
    tensorColumn qualified shape vs = .ok ts ↔
      vs = ts.map Value.tensor ∧ ∀ t ∈ ts, t.shape = shape := by
  rw [tensorColumn, Outcome.mapM_eq_ok_iff]
  constructor
  · intro h
    induction h with
    | nil => exact ⟨rfl, by simp⟩
    | @cons v t vs ts hv hrest ih =>
      obtain ⟨rfl, hts⟩ := ih
      cases v with
      | state s => cases hv
      | tensor u =>
        dsimp only at hv
        by_cases hu : u.shape = shape
        · rw [if_pos hu] at hv
          obtain rfl := Except.ok.inj hv
          refine ⟨rfl, fun r hr => ?_⟩
          rcases List.mem_cons.1 hr with rfl | hr
          · exact hu
          · exact hts r hr
        · rw [if_neg hu] at hv
          cases hv
  · rintro ⟨rfl, hts⟩
    rw [List.forall₂_map_left_iff, List.forall₂_same]
    intro t ht
    exact if_pos (hts t ht)

/-- Beside a nested state, a column holds only nested states. -/
theorem stateColumn_eq_ok_iff {qualified : String} {vs : List Value} {ss : List State} :
    stateColumn qualified vs = .ok ss ↔ vs = ss.map Value.state := by
  rw [stateColumn, Outcome.mapM_eq_ok_iff]
  constructor
  · intro h
    induction h with
    | nil => rfl
    | @cons v s vs ss hv hrest ih =>
      cases v with
      | tensor t => cases hv
      | state s' =>
        obtain rfl := Except.ok.inj hv
        rw [ih]
        rfl
  · rintro rfl
    rw [List.forall₂_map_left_iff, List.forall₂_same]
    exact fun s _ => rfl

/-- States go together if they agree in batch dimensions, paths and placement. -/
theorem checkStackable_eq_ok_iff {dims : List Nat} {paths : List String}
    {placement : List (String × Directive)} :
    ∀ {index : Nat} {others : List State},
      checkStackable dims paths placement index others = .ok () ↔
        ∀ s ∈ others, s.batchDims = dims ∧ s.paths = paths ∧ s.placement = placement
  | _, [] => by simp [checkStackable]
  | index, s :: rest => by
    rw [checkStackable, List.forall_mem_cons]
    by_cases hd : s.batchDims = dims
    · by_cases hp : s.paths = paths
      · by_cases hl : s.placement = placement
        · simp only [hd, hp, hl, ne_eq, not_true_eq_false, if_false, and_self, true_and]
          exact checkStackable_eq_ok_iff
        · simp [hd, hp, hl]
      · simp [hd, hp]
    · simp [hd]

/-! ## Stacking -/

/-- A tensor is stacked with tensors of its shape, as long as the result is an array. -/
theorem stackValue_tensor_eq_ok_iff {qualified : String} {t : Tensor} {vs : List Value}
    {r : Value} :
    stackValue qualified (.tensor t) vs = .ok r ↔
      ∃ ts : List Tensor, vs = ts.map Value.tensor ∧
        ∃ h : ∀ u ∈ t :: ts, u.shape = t.shape,
          Tensor.IsArrayShape ((ts.length + 1) :: t.shape) ∧
            r = .tensor (Tensor.ofRows t.shape (t :: ts) h) := by
  rw [stackValue, Outcome.bind_eq_ok_iff]
  constructor
  · rintro ⟨ts, hts, h⟩
    obtain ⟨u, hu, h⟩ := Outcome.bind_eq_ok_iff.1 h
    obtain ⟨hshape, harray, rfl⟩ := Tensor.stackNamed_eq_ok_iff.1 hu
    exact ⟨ts, (tensorColumn_eq_ok_iff.1 hts).1, hshape, harray, (Except.ok.inj h).symm⟩
  · rintro ⟨ts, hvs, hshape, harray, rfl⟩
    refine ⟨ts, tensorColumn_eq_ok_iff.2 ⟨hvs, fun u hu => hshape u (List.mem_cons_of_mem _ hu)⟩,
      ?_⟩
    rw [Tensor.stackNamed_eq_ok_iff.2 ⟨hshape, harray, rfl⟩]
    rfl

/-- A nested state is stacked with nested states, as a state is with states. -/
theorem stackValue_state_eq_ok_iff {qualified : String} {s : State} {vs : List Value} {r : Value} :
    stackValue qualified (.state s) vs = .ok r ↔
      ∃ ss : List State, vs = ss.map Value.state ∧
        ∃ x, stackOnto s ss = .ok x ∧ r = .state x := by
  rw [stackValue, Outcome.bind_eq_ok_iff]
  constructor
  · rintro ⟨ss, hss, h⟩
    obtain ⟨x, hx, h⟩ := Outcome.bind_eq_ok_iff.1 h
    exact ⟨ss, stateColumn_eq_ok_iff.1 hss, x, hx, (Except.ok.inj h).symm⟩
  · rintro ⟨ss, hvs, x, hx, rfl⟩
    refine ⟨ss, stateColumn_eq_ok_iff.2 hvs, ?_⟩
    rw [hx]
    rfl

/-- A local state is stacked value by value: the first of its values, and then the rest. -/
theorem stackLocal_cons_eq_ok_iff {path name : String} {v : Value} {rest : List (String × Value)}
    {others : List LocalState} {r : List (String × Value)} :
    stackLocal path ((name, v) :: rest) others = .ok r ↔
      ∃ vs, List.Forall₂ (fun (l : LocalState) v => Table.get? name l = some v) others vs ∧
        ∃ w, stackValue (Path.qualify path name) v vs = .ok w ∧
          ∃ more, stackLocal path rest others = .ok more ∧ r = (name, w) :: more := by
  rw [stackLocal, Outcome.bind_eq_ok_iff]
  constructor
  · rintro ⟨vs, hvs, h⟩
    obtain ⟨w, hw, h⟩ := Outcome.bind_eq_ok_iff.1 h
    obtain ⟨more, hmore, h⟩ := Outcome.bind_eq_ok_iff.1 h
    exact ⟨vs, column_eq_ok_iff.1 hvs, w, hw, more, hmore, (Except.ok.inj h).symm⟩
  · rintro ⟨vs, hvs, w, hw, more, hmore, rfl⟩
    refine ⟨vs, column_eq_ok_iff.2 hvs, ?_⟩
    rw [hw, Outcome.ok_bind, hmore]
    rfl

/-- The local states of one node in several states. -/
def localsAt (path : String) (states : List State) : List LocalState :=
  states.map fun s => (Table.get? path s.nodes).getD []

/-- The nodes are stacked one by one, and no other state may have more or fewer values there. -/
theorem stackNodes_cons_eq_ok_iff {path : String} {l : List (String × Value)}
    {rest : List (String × List (String × Value))} {others : List State}
    {r : List (String × List (String × Value))} :
    stackNodes ((path, l) :: rest) others = .ok r ↔
      ∃ stacked, stackLocal path l (localsAt path others) = .ok stacked ∧
        (∀ other ∈ localsAt path others, other.length = l.length) ∧
        ∃ more, stackNodes rest others = .ok more ∧ r = (path, stacked) :: more := by
  rw [stackNodes, Outcome.bind_eq_ok_iff]
  constructor
  · rintro ⟨stacked, hstacked, h⟩
    split at h
    · cases h
    · next hlen =>
      obtain ⟨more, hmore, h⟩ := Outcome.bind_eq_ok_iff.1 h
      refine ⟨stacked, hstacked, fun other hmem => ?_, more, hmore, (Except.ok.inj h).symm⟩
      by_contra hne
      exact hlen (List.any_eq_true.2 ⟨other, hmem, by simpa using hne⟩)
  · rintro ⟨stacked, hstacked, hlen, more, hmore, rfl⟩
    refine ⟨stacked, hstacked, ?_⟩
    -- no other local state has more or fewer attributes
    have hany : ¬ (localsAt path others).any (fun other => other.length ≠ l.length) = true := by
      intro hany
      obtain ⟨other, hmem, hne⟩ := List.any_eq_true.1 hany
      simp [hlen other hmem] at hne
    rw [localsAt] at hany
    rw [if_neg hany, hmore]
    rfl

/-- States are stacked if they go together, their nodes do and the placement can move outward. -/
theorem stackOnto_eq_ok_iff {s : State} {others : List State} {r : State} :
    stackOnto s others = .ok r ↔
      (∀ o ∈ others, o.batchDims = s.batchDims ∧ o.paths = s.paths ∧ o.placement = s.placement) ∧
        ∃ nodes, stackNodes s.nodes others = .ok nodes ∧
          ∃ moved, placementOutward s.placement = .ok moved ∧
            r = ⟨nodes, (others.length + 1) :: s.batchDims, moved⟩ := by
  obtain ⟨nodes, dims, placement⟩ := s
  rw [stackOnto, Outcome.bind_eq_ok_iff]
  constructor
  · rintro ⟨⟨⟩, hcheck, h⟩
    obtain ⟨nodes', hnodes, h⟩ := Outcome.bind_eq_ok_iff.1 h
    obtain ⟨moved, hmoved, h⟩ := Outcome.bind_eq_ok_iff.1 h
    exact ⟨checkStackable_eq_ok_iff.1 hcheck, nodes', hnodes, moved, hmoved,
      (Except.ok.inj h).symm⟩
  · rintro ⟨hcheck, nodes', hnodes, moved, hmoved, rfl⟩
    refine ⟨(), checkStackable_eq_ok_iff.2 hcheck, ?_⟩
    rw [hnodes, Outcome.ok_bind, hmoved]
    rfl

/-! ## Taking apart -/

/-- A tensor comes apart into its slices. -/
theorem unstackValue_tensor_eq_ok_iff {t : Tensor} {parts : List Value} :
    unstackValue (.tensor t) = .ok parts ↔
      (∃ count inner, t.shape = count :: inner) ∧ parts = t.rows.map Value.tensor := by
  rw [unstackValue, Outcome.bind_eq_ok_iff]
  constructor
  · rintro ⟨ts, hts, h⟩
    obtain ⟨hshape, rfl⟩ := Tensor.unstack_eq_ok_iff.1 hts
    exact ⟨hshape, (Except.ok.inj h).symm⟩
  · rintro ⟨hshape, rfl⟩
    exact ⟨t.rows, Tensor.unstack_eq_ok_iff.2 ⟨hshape, rfl⟩, rfl⟩

/-- A nested state comes apart as a state does. -/
theorem unstackValue_state_eq_ok_iff {s : State} {parts : List Value} :
    unstackValue (.state s) = .ok parts ↔
      ∃ ss, s.unstack = .ok ss ∧ parts = ss.map Value.state := by
  rw [unstackValue, Outcome.bind_eq_ok_iff]
  constructor
  · rintro ⟨ss, hss, h⟩
    exact ⟨ss, hss, (Except.ok.inj h).symm⟩
  · rintro ⟨ss, hss, rfl⟩
    exact ⟨ss, hss, rfl⟩

/-- A local state comes apart value by value, each into as many parts as there are lanes. -/
theorem unstackLocal_cons_eq_ok_iff {count : Nat} {path name : String} {v : Value}
    {rest : List (String × Value)} {lanes : List (List (String × Value))} :
    unstackLocal count path ((name, v) :: rest) = .ok lanes ↔
      ∃ parts, unstackValue v = .ok parts ∧ parts.length = count ∧
        ∃ more, unstackLocal count path rest = .ok more ∧
          lanes = List.zipWith (fun v l => (name, v) :: l) parts more := by
  rw [unstackLocal, Outcome.bind_eq_ok_iff]
  constructor
  · rintro ⟨parts, hparts, h⟩
    split at h
    · cases h
    · next hlen =>
      obtain ⟨more, hmore, h⟩ := Outcome.bind_eq_ok_iff.1 h
      exact ⟨parts, hparts, not_not.1 hlen, more, hmore, (Except.ok.inj h).symm⟩
  · rintro ⟨parts, hparts, hlen, more, hmore, rfl⟩
    refine ⟨parts, hparts, ?_⟩
    rw [if_neg (not_not.2 hlen), hmore]
    rfl

/-- The nodes come apart one by one. -/
theorem unstackNodes_cons_eq_ok_iff {count : Nat} {path : String} {l : List (String × Value)}
    {rest : List (String × List (String × Value))}
    {lanes : List (List (String × List (String × Value)))} :
    unstackNodes count ((path, l) :: rest) = .ok lanes ↔
      ∃ ls, unstackLocal count path l = .ok ls ∧
        ∃ more, unstackNodes count rest = .ok more ∧
          lanes = List.zipWith (fun l nodes => (path, l) :: nodes) ls more := by
  rw [unstackNodes, Outcome.bind_eq_ok_iff]
  constructor
  · rintro ⟨ls, hls, h⟩
    obtain ⟨more, hmore, h⟩ := Outcome.bind_eq_ok_iff.1 h
    exact ⟨ls, hls, more, hmore, (Except.ok.inj h).symm⟩
  · rintro ⟨ls, hls, more, hmore, rfl⟩
    refine ⟨ls, hls, ?_⟩
    rw [hmore]
    rfl

/-- The part of a state along its outermost axis that has the given nodes. -/
def partWith (s : State) (nodes : List (String × List (String × Value))) : State :=
  ⟨nodes, s.batchDims.tail, Table.mapValues Directive.inward s.placement⟩

/-- A state with a batch dimension comes apart into lanes, whose placement moves inward. -/
theorem unstack_eq_ok_iff {s : State} {xs : List State} :
    s.unstack = .ok xs ↔
      ∃ count dims, s.batchDims = count :: dims ∧
        ∃ lanes, unstackNodes count s.nodes = .ok lanes ∧ xs = lanes.map s.partWith := by
  obtain ⟨nodes, batchDims, placement⟩ := s
  cases batchDims with
  | nil => simp [unstack]
  | cons count dims =>
    rw [unstack, Outcome.bind_eq_ok_iff]
    constructor
    · rintro ⟨lanes, hlanes, h⟩
      exact ⟨count, dims, rfl, lanes, hlanes, (Except.ok.inj h).symm⟩
    · rintro ⟨count', dims', hdims, lanes, hlanes, rfl⟩
      obtain ⟨rfl, rfl⟩ := List.cons.inj hdims
      exact ⟨lanes, hlanes, rfl⟩

/-- A local state comes apart into as many lanes as it is asked for. -/
theorem length_of_unstackLocal {count : Nat} {path : String} :
    ∀ {l : List (String × Value)} {lanes : List (List (String × Value))},
      unstackLocal count path l = .ok lanes → lanes.length = count
  | [], lanes, h => by
    rw [unstackLocal] at h
    rw [← Except.ok.inj h, List.length_replicate]
  | (name, v) :: rest, lanes, h => by
    obtain ⟨parts, -, hlen, more, hmore, rfl⟩ := unstackLocal_cons_eq_ok_iff.1 h
    rw [List.length_zipWith, hlen, length_of_unstackLocal hmore, Nat.min_self]

theorem length_of_unstackNodes {count : Nat} :
    ∀ {nodes : List (String × List (String × Value))}
      {lanes : List (List (String × List (String × Value)))},
      unstackNodes count nodes = .ok lanes → lanes.length = count
  | [], lanes, h => by
    rw [unstackNodes] at h
    rw [← Except.ok.inj h, List.length_replicate]
  | (path, l) :: rest, lanes, h => by
    obtain ⟨ls, hls, more, hmore, rfl⟩ := unstackNodes_cons_eq_ok_iff.1 h
    rw [List.length_zipWith, length_of_unstackLocal hls, length_of_unstackNodes hmore, Nat.min_self]

/-! ## Names -/

/-- Stacked local states have the names of the first one, in its order. -/
theorem keys_of_stackLocal {path : String} :
    ∀ {l : List (String × Value)} {others : List LocalState} {r : List (String × Value)},
      stackLocal path l others = .ok r → Table.keys r = Table.keys l
  | [], others, r, h => by
    rw [stackLocal] at h
    rw [← Except.ok.inj h]
  | (name, v) :: rest, others, r, h => by
    obtain ⟨vs, -, w, -, more, hmore, rfl⟩ := stackLocal_cons_eq_ok_iff.1 h
    rw [Table.keys_cons, Table.keys_cons, keys_of_stackLocal hmore]

/-- Stacked nodes have the paths of the first state, in its order. -/
theorem keys_of_stackNodes :
    ∀ {nodes : List (String × List (String × Value))} {others : List State}
      {r : List (String × List (String × Value))},
      stackNodes nodes others = .ok r → Table.keys r = Table.keys nodes
  | [], others, r, h => by
    rw [stackNodes] at h
    rw [← Except.ok.inj h]
  | (path, l) :: rest, others, r, h => by
    obtain ⟨stacked, -, -, more, hmore, rfl⟩ := stackNodes_cons_eq_ok_iff.1 h
    rw [Table.keys_cons, Table.keys_cons, keys_of_stackNodes hmore]

/-- Every node of stacked nodes has the attributes of the node in the first state. -/
theorem exists_of_mem_stackNodes :
    ∀ {nodes : List (String × List (String × Value))} {others : List State}
      {r : List (String × List (String × Value))} {e : String × List (String × Value)},
      stackNodes nodes others = .ok r → e ∈ r → ∃ e' ∈ nodes, Table.keys e.2 = Table.keys e'.2
  | [], others, r, e, h, he => by
    rw [stackNodes] at h
    rw [← Except.ok.inj h] at he
    cases he
  | (path, l) :: rest, others, r, e, h, he => by
    obtain ⟨stacked, hstacked, -, more, hmore, rfl⟩ := stackNodes_cons_eq_ok_iff.1 h
    rcases List.mem_cons.1 he with rfl | he
    · exact ⟨(path, l), List.mem_cons_self, keys_of_stackLocal hstacked⟩
    · obtain ⟨e', he', hkeys⟩ := exists_of_mem_stackNodes hmore he
      exact ⟨e', List.mem_cons_of_mem _ he', hkeys⟩

/-- Every lane of a local state has its names. -/
theorem keys_of_unstackLocal {count : Nat} {path : String} :
    ∀ {l : List (String × Value)} {lanes : List (List (String × Value))}
      {lane : List (String × Value)},
      unstackLocal count path l = .ok lanes → lane ∈ lanes → Table.keys lane = Table.keys l
  | [], lanes, lane, h, hlane => by
    rw [unstackLocal] at h
    rw [← Except.ok.inj h] at hlane
    rw [List.eq_of_mem_replicate hlane]
  | (name, v) :: rest, lanes, lane, h, hlane => by
    obtain ⟨parts, -, -, more, hmore, rfl⟩ := unstackLocal_cons_eq_ok_iff.1 h
    obtain ⟨part, -, l', hl', rfl⟩ := Outcome.exists_of_mem_zipWith hlane
    rw [Table.keys_cons, Table.keys_cons, keys_of_unstackLocal hmore hl']

/-- Every lane of the nodes has their paths. -/
theorem keys_of_unstackNodes {count : Nat} :
    ∀ {nodes : List (String × List (String × Value))}
      {lanes : List (List (String × List (String × Value)))}
      {lane : List (String × List (String × Value))},
      unstackNodes count nodes = .ok lanes → lane ∈ lanes → Table.keys lane = Table.keys nodes
  | [], lanes, lane, h, hlane => by
    rw [unstackNodes] at h
    rw [← Except.ok.inj h] at hlane
    rw [List.eq_of_mem_replicate hlane]
  | (path, l) :: rest, lanes, lane, h, hlane => by
    obtain ⟨ls, -, more, hmore, rfl⟩ := unstackNodes_cons_eq_ok_iff.1 h
    obtain ⟨l', -, nodes', hnodes', rfl⟩ := Outcome.exists_of_mem_zipWith hlane
    rw [Table.keys_cons, Table.keys_cons, keys_of_unstackNodes hmore hnodes']

/-- Every node of a part has the attributes of the node in the whole. -/
theorem exists_of_mem_unstackNodes {count : Nat} :
    ∀ {nodes : List (String × List (String × Value))}
      {lanes : List (List (String × List (String × Value)))}
      {lane : List (String × List (String × Value))} {e : String × List (String × Value)},
      unstackNodes count nodes = .ok lanes → lane ∈ lanes → e ∈ lane →
        ∃ e' ∈ nodes, Table.keys e.2 = Table.keys e'.2
  | [], lanes, lane, e, h, hlane, he => by
    rw [unstackNodes] at h
    rw [← Except.ok.inj h] at hlane
    rw [List.eq_of_mem_replicate hlane] at he
    cases he
  | (path, l) :: rest, lanes, lane, e, h, hlane, he => by
    obtain ⟨ls, hls, more, hmore, rfl⟩ := unstackNodes_cons_eq_ok_iff.1 h
    obtain ⟨l', hl', nodes', hnodes', rfl⟩ := Outcome.exists_of_mem_zipWith hlane
    rcases List.mem_cons.1 he with rfl | he
    · exact ⟨(path, l), List.mem_cons_self, keys_of_unstackLocal hls hl'⟩
    · obtain ⟨e', he', hkeys⟩ := exists_of_mem_unstackNodes hmore hnodes' he
      exact ⟨e', List.mem_cons_of_mem _ he', hkeys⟩

/-! ## One node of a stack -/

/-- What is stacked under a path are the local states under that path. -/
theorem get?_of_stackNodes {path : String} :
    ∀ {nodes : List (String × List (String × Value))} {others : List State}
      {r : List (String × List (String × Value))}, stackNodes nodes others = .ok r →
        (Table.get? path nodes = none ∧ Table.get? path r = none) ∨
          ∃ l stacked, Table.get? path nodes = some l ∧
            stackLocal path l (localsAt path others) = .ok stacked ∧
              Table.get? path r = some stacked
  | [], others, r, h => by
    rw [stackNodes] at h
    rw [← Except.ok.inj h]
    exact Or.inl ⟨rfl, rfl⟩
  | (path', l) :: rest, others, r, h => by
    obtain ⟨stacked, hstacked, -, more, hmore, rfl⟩ := stackNodes_cons_eq_ok_iff.1 h
    by_cases hp : path' = path
    · subst hp
      exact Or.inr ⟨l, stacked, by rw [Table.get?, if_pos rfl], hstacked,
        by rw [Table.get?, if_pos rfl]⟩
    · rw [Table.get?, if_neg hp, Table.get?, if_neg hp]
      exact get?_of_stackNodes hmore

/-- What a stacked state consists of. -/
theorem stack_eq_ok {xs : List State} {r : State} (h : stack xs = .ok r) :
    ∃ x others, xs = x :: others ∧ ∃ nodes, stackNodes x.nodes others = .ok nodes ∧
      ∃ moved, placementOutward x.placement = .ok moved ∧
        r = ⟨nodes, xs.length :: x.batchDims, moved⟩ := by
  cases xs with
  | nil => cases h
  | cons x others =>
    obtain ⟨-, nodes, hnodes, moved, hmoved, rfl⟩ := stackOnto_eq_ok_iff.1 h
    exact ⟨x, others, rfl, nodes, hnodes, moved, hmoved, rfl⟩

/-- The local states at a path depend only on what the states hold there. -/
theorem localsAt_eq_of_forall₂ {path : String} {xs xs' : List State}
    (h : List.Forall₂ (fun x x' : State =>
      Table.get? path x'.nodes = Table.get? path x.nodes) xs xs') :
    localsAt path xs' = localsAt path xs := by
  induction h with
  | nil => rfl
  | cons hx _ ih =>
    rw [localsAt, localsAt, List.map_cons, List.map_cons, hx]
    exact congrArg _ ih

/-- States that agree on a path are stacked to states that agree on it. -/
theorem get?_of_stack {path : String} {xs xs' : List State} {r r' : State}
    (h : List.Forall₂ (fun x x' : State =>
      Table.get? path x'.nodes = Table.get? path x.nodes) xs xs')
    (hr : stack xs = .ok r) (hr' : stack xs' = .ok r') :
    Table.get? path r'.nodes = Table.get? path r.nodes := by
  obtain ⟨x, others, rfl, nodes, hnodes, moved, -, rfl⟩ := stack_eq_ok hr
  obtain ⟨x', others', rfl, nodes', hnodes', -, -, rfl⟩ := stack_eq_ok hr'
  obtain ⟨hx, hothers⟩ := List.forall₂_cons.1 h
  rcases @get?_of_stackNodes path _ _ _ hnodes with ⟨hnone, hr⟩ | ⟨l, stacked, hl, hst, hr⟩
  · -- the first states agree on whether there is such a node at all
    rcases @get?_of_stackNodes path _ _ _ hnodes' with ⟨-, hr'⟩ | ⟨l', -, hl', -⟩
    · exact hr'.trans hr.symm
    · rw [hx, hnone] at hl'
      cases hl'
  · rcases @get?_of_stackNodes path _ _ _ hnodes' with ⟨hnone, -⟩ | ⟨l', stacked', hl', hst', hr'⟩
    · rw [hx, hl] at hnone
      cases hnone
    · rw [hx, hl] at hl'
      obtain rfl := Option.some.inj hl'
      rw [localsAt_eq_of_forall₂ hothers, hst] at hst'
      exact hr'.trans ((congrArg some (Except.ok.inj hst').symm).trans hr.symm)

/-! ## Axes -/

/-- Stacking adds an axis in front. -/
theorem batchDims_of_stack {xs : List State} {r : State} (h : stack xs = .ok r) {x : State}
    (hx : x ∈ xs) : r.batchDims = xs.length :: x.batchDims := by
  cases xs with
  | nil => cases hx
  | cons first others =>
    obtain ⟨hcheck, nodes, -, moved, -, rfl⟩ := stackOnto_eq_ok_iff.1 h
    rcases List.mem_cons.1 hx with rfl | hx
    · rfl
    · rw [(hcheck x hx).1]
      rfl

/-- A state has as many parts as its outermost axis is long. -/
theorem batchDims_of_unstack {s : State} {xs : List State} (h : s.unstack = .ok xs) :
    s.batchDims = xs.length :: s.batchDims.tail := by
  obtain ⟨count, dims, hdims, lanes, hlanes, rfl⟩ := unstack_eq_ok_iff.1 h
  rw [List.length_map, length_of_unstackNodes hlanes, hdims]
  rfl

/-- Every part keeps the inner axes. -/
theorem batchDims_of_mem_unstack {s : State} {xs : List State} (h : s.unstack = .ok xs) {x : State}
    (hx : x ∈ xs) : x.batchDims = s.batchDims.tail := by
  obtain ⟨count, dims, hdims, lanes, hlanes, rfl⟩ := unstack_eq_ok_iff.1 h
  obtain ⟨nodes, -, rfl⟩ := List.mem_map.1 hx
  rfl

end State

end Lockstep
