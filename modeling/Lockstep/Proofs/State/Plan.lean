import Lockstep.Proofs.State.Arrays

/-!
# States that follow a plan

A plan lists the nodes of a state with their attributes and the shape of each leaf; for some leaves
it knows the numbers too. A state follows a plan behind batch axes when it has exactly these leaves
with the batch axes in front (`State.Follows`). States that follow a plan can be stacked, taken
apart, split into lanes, put together, read, written and placed, and what comes out follows the plan
again. They can be stacked as long as arrays can have the shapes of the leaves (`Plan.FitsArrays`).
-/

namespace Lockstep

/-- What is known of a leaf. -/
inductive LeafPlan where
  /-- any numbers that fill a shape -/
  | free (shape : List Nat)
  /-- always the same numbers -/
  | fixed (t : Tensor)
  /-- a count in every lane -/
  | count

namespace LeafPlan

/-- The shape of the leaf in a lane. -/
def shape : LeafPlan → List Nat
  | .free shape => shape
  | .fixed t => t.shape
  | .count => []

/-- A tensor behind batch axes is as the plan says, in every lane. No count exceeds `most`. -/
structure Fits (most : Nat) (dims : List Nat) (p : LeafPlan) (u : Tensor) : Prop where
  shape : u.shape = dims ++ p.shape
  fixed : ∀ t, p = .fixed t → u.data = (List.replicate (volume dims) t.data).flatten
  count : p = .count → ∀ x ∈ u.data, ∃ n : UInt64, n.toNat ≤ most ∧ x = n.toFloat

/-- The value is a tensor that is as the plan says. -/
def FitsValue (most : Nat) (dims : List Nat) (v : Value) (p : LeafPlan) : Prop :=
  ∃ u, v = .tensor u ∧ p.Fits most dims u

variable {most : Nat}

/-- A free leaf has its shape, behind the batch dimensions. -/
theorem fits_free {dims shape : List Nat} {u : Tensor} :
    (free shape).Fits most dims u ↔ u.shape = dims ++ shape :=
  ⟨Fits.shape, fun h => ⟨h, nofun, nofun⟩⟩

/-- A named tensor of the planned shape. -/
theorem fits_entry {name : String} {t : Tensor} {shape : List Nat} (h : t.shape = shape) :
    (name, Value.tensor t).1 = (name, free shape).1 ∧
      (free shape).FitsValue most [] (.tensor t) :=
  ⟨rfl, t, rfl, fits_free.2 h⟩

/-- Without batch dimensions, a fixed leaf is the tensor that the plan gives. -/
theorem fits_fixed {t : Tensor} {u : Tensor} : (fixed t).Fits most [] u ↔ u = t := by
  rw [Tensor.eq_iff_shape_data]
  constructor
  · rintro ⟨hshape, hdata, -⟩
    refine ⟨hshape, ?_⟩
    simpa using hdata t rfl
  · rintro ⟨hshape, hdata⟩
    refine ⟨hshape, ?_, nofun⟩
    rintro _ ⟨⟩
    simpa using hdata

/-- A count is a scalar that stands for a word. -/
theorem fits_count {u : Tensor} :
    count.Fits most [] u ↔ ∃ n : UInt64, n.toNat ≤ most ∧ u = .scalar n.toFloat := by
  constructor
  · rintro ⟨hshape, -, hcount⟩
    obtain ⟨shape, data, hfill⟩ := u
    obtain rfl : shape = [] := hshape
    obtain ⟨x, rfl⟩ := List.length_eq_one_iff.1 hfill
    obtain ⟨n, hn, rfl⟩ := hcount rfl x (List.mem_singleton_self x)
    exact ⟨n, hn, rfl⟩
  · rintro ⟨n, hn, rfl⟩
    exact ⟨rfl, nofun, fun _ x hx => ⟨n, hn, List.mem_singleton.1 hx⟩⟩

/-- A count that starts at zero. -/
theorem fits_zero {name : String} :
    (name, Value.tensor (.scalar 0)).1 = (name, count).1 ∧
      count.FitsValue most [] (.tensor (.scalar 0)) :=
  ⟨rfl, _, rfl, fits_count.2 ⟨0, Nat.zero_le _, by decide +kernel⟩⟩

/-- A count that stays below a bound stays below a larger one. -/
theorem Fits.mono {most' : Nat} {dims : List Nat} {p : LeafPlan} {u : Tensor}
    (h : p.Fits most dims u) (hle : most ≤ most') : p.Fits most' dims u where
  shape := h.shape
  fixed := h.fixed
  count hp x hx := by
    obtain ⟨n, hn, hxn⟩ := h.count hp x hx
    exact ⟨n, hn.trans hle, hxn⟩

theorem FitsValue.mono {most' : Nat} {dims : List Nat} {p : LeafPlan} {v : Value}
    (h : p.FitsValue most dims v) (hle : most ≤ most') : p.FitsValue most' dims v := by
  obtain ⟨u, hv, hu⟩ := h
  exact ⟨u, hv, hu.mono hle⟩

end LeafPlan

/-- The attributes of a node with what is known of them. -/
structure LocalPlan where
  leaves : Table LeafPlan
  ascends : leaves.Sorted

/-- The nodes of a state with what is known of them. -/
structure Plan where
  nodes : Table LocalPlan
  ascends : nodes.Sorted

namespace LocalPlan

/-- The plan with some attributes, and with others put over them. -/
def layered (defaults own : List (String × LeafPlan)) : LocalPlan :=
  ⟨Table.union (Table.ofList defaults) (Table.ofList own),
    Table.sorted_union (Table.sorted_ofList defaults) _⟩

/-- What is known of an attribute. -/
def get? (p : LocalPlan) (name : String) : Option LeafPlan := Table.get? name p.leaves

/-- The local state has the attributes of the plan, with tensors that are as it says and no count
above `most`. -/
def Fits (most : Nat) (dims : List Nat) (l : LocalState) (p : LocalPlan) : Prop :=
  Table.Matching (LeafPlan.FitsValue most dims) l p.leaves

end LocalPlan

namespace Plan

/-- The plan with the given nodes. -/
def ofList (entries : List (String × LocalPlan)) : Plan :=
  ⟨Table.ofList entries, Table.sorted_ofList entries⟩

/-- What is known of a node. -/
def get? (plan : Plan) (path : String) : Option LocalPlan := Table.get? path plan.nodes

/-- Arrays can have the shapes of the leaves behind the batch axes. -/
def FitsArrays (plan : Plan) (dims : List Nat) : Prop :=
  ∀ e ∈ plan.nodes, ∀ q ∈ e.2.leaves, Tensor.IsArrayShape (dims ++ q.2.shape)

/-- With fewer batch dimensions the leaves are arrays all the more. -/
theorem FitsArrays.tail {plan : Plan} {count : Nat} {dims : List Nat}
    (h : plan.FitsArrays (count :: dims)) : plan.FitsArrays dims :=
  fun e he q hq => (h e he q hq).tail

end Plan

/-- The state has the batch axes, the nodes of the plan and the placement, and no count above
`most`. -/
structure State.Follows (plan : Plan) (most : Nat) (dims : List Nat) (placement : Table Directive)
    (s : State) : Prop where
  batchDims : s.batchDims = dims
  nodes : Table.Matching (LocalPlan.Fits most dims) s.nodes plan.nodes
  placement : s.placement = placement

open Outcome (Gives)

variable {most : Nat}

namespace LocalPlan

variable {defaults own : List (String × LeafPlan)} {name : String} {q : LeafPlan}

/-- Two layers of leaves have the names of both. -/
theorem mem_keys_layered : name ∈ Table.keys (layered defaults own).leaves ↔
    name ∈ defaults.map Prod.fst ∨ name ∈ own.map Prod.fst := by
  rw [layered, Table.mem_keys_union, Table.mem_keys_ofList]
  exact or_congr_right Table.mem_keys_ofList

/-- The upper layer decides about its own names. -/
theorem get?_layered_own (hown : (own.map Prod.fst).Nodup) (h : (name, q) ∈ own) :
    (layered defaults own).get? name = some q :=
  Table.get?_union_of_mem (Table.sorted_ofList own).nodup
    (Table.mem_of_get?_eq_some (Table.get?_ofList_of_mem hown h))

/-- The lower layer decides about a name that the upper one lacks. -/
theorem get?_layered_default (hdefaults : (defaults.map Prod.fst).Nodup) (h : (name, q) ∈ defaults)
    (hown : name ∉ own.map Prod.fst) : (layered defaults own).get? name = some q := by
  rw [get?, layered, Table.get?_union_of_not_mem fun hname => hown (Table.mem_keys_ofList.1 hname)]
  exact Table.get?_ofList_of_mem hdefaults h

/-- Tables that fit the layers give a table that fits both, the upper one on top of the lower one.
-/
theorem fits_layered {dims : List Nat} {us vs : List (String × Value)}
    (hus : Table.Matching (LeafPlan.FitsValue most dims) us defaults)
    (hvs : Table.Matching (LeafPlan.FitsValue most dims) vs own) :
    (layered defaults own).Fits most dims (Table.union (Table.ofList us) (Table.ofList vs)) :=
  hus.ofList.union hvs.ofList

end LocalPlan

/-! ## Reading and writing an attribute -/

namespace LocalPlan.Fits

variable {dims : List Nat} {l : LocalState} {p : LocalPlan}

/-- A leaf of the plan can be read, and fits. -/
theorem tensor (h : p.Fits most dims l) {name : String} {q : LeafPlan} (hq : p.get? name = some q) :
    Gives (q.Fits most dims) (l.tensor name) := by
  obtain ⟨v, hv, u, rfl, hu⟩ := Table.Matching.get? h hq
  refine ⟨u, ?_, hu⟩
  rw [LocalState.tensor, LocalState.value, hv]
  rfl

/-- A leaf without axes is a number in every lane. -/
theorem number (h : p.Fits most [] l) {name : String} (hq : p.get? name = some (.free [])) :
    ∃ x, l.number name = .ok x := by
  obtain ⟨u, hu, hfits⟩ := h.tensor hq
  rw [LeafPlan.fits_free] at hfits
  obtain ⟨shape, data, hfill⟩ := u
  obtain rfl : shape = [] := hfits
  obtain ⟨x, rfl⟩ := List.length_eq_one_iff.1 hfill
  exact ⟨x, by rw [LocalState.number, hu]; rfl⟩

/-- A leaf is written, and the plan still holds. -/
theorem setTensor (h : p.Fits most dims l) {name : String} {q : LeafPlan}
    (hq : p.get? name = some q)
    {t : Tensor} (ht : q.Fits most dims t) : p.Fits most dims (l.setTensor name t) :=
  Table.Matching.insert_of_get? h p.ascends hq ⟨t, rfl, ht⟩

theorem setShape (h : p.Fits most dims l) {name : String} {shape : List Nat}
    (hq : p.get? name = some (.free shape)) {t : Tensor} (ht : t.shape = dims ++ shape) :
    p.Fits most dims (l.setTensor name t) := h.setTensor hq (LeafPlan.fits_free.2 ht)

theorem setNumber (h : p.Fits most [] l) {name : String} (hq : p.get? name = some (.free []))
    (x : Float) : p.Fits most [] (l.setNumber name x) := h.setShape hq rfl

/-- A count is a word that was made a number. -/
theorem count (h : p.Fits most [] l) {name : String} (hq : p.get? name = some .count) :
    ∃ n : UInt64, n.toNat ≤ most ∧ l.number name = .ok n.toFloat := by
  obtain ⟨u, hu, hfits⟩ := h.tensor hq
  obtain ⟨n, hn, rfl⟩ := LeafPlan.fits_count.1 hfits
  exact ⟨n, hn, by rw [LocalState.number, hu]; rfl⟩

theorem setCount (h : p.Fits most [] l) {name : String} (hq : p.get? name = some .count)
    {n : UInt64} (hn : n.toNat ≤ most) : p.Fits most [] (l.setNumber name n.toFloat) :=
  h.setTensor hq (LeafPlan.fits_count.2 ⟨n, hn, rfl⟩)

/-- Counts may be allowed to be higher. -/
theorem mono {most' : Nat} (h : p.Fits most dims l) (hle : most ≤ most') : p.Fits most' dims l :=
  Table.Matching.imp h fun _ _ hv => hv.mono hle

end LocalPlan.Fits

/-! ## Numbers that do not change -/

/-- Numbers that are repeated in every lane, as they are repeated in every part. -/
theorem flatten_replicate_mul (n count : Nat) (xs : List Float) :
    (List.replicate (n * count) xs).flatten =
      (List.replicate n (List.replicate count xs).flatten).flatten := by
  induction n with
  | zero => rw [Nat.zero_mul]; rfl
  | succ n ih =>
    rw [Nat.succ_mul, Nat.add_comm, List.replicate_add, List.flatten_append, ih,
      List.replicate_succ, List.flatten_cons]

namespace LeafPlan

variable {dims : List Nat} {p : LeafPlan}

/-- A lane of a leaf fits the leaf without the batch dimension. -/
theorem Fits.row {count : Nat} {u : Tensor} (h : p.Fits most (count :: dims) u) {j : Nat}
    (hj : j < count) : ∃ r, u.rows[j]? = some r ∧ p.Fits most dims r := by
  obtain ⟨hshape, hfixed, hcount⟩ := h
  obtain ⟨r, hr, hrshape, hrdata⟩ := Tensor.getElem?_rows hshape hj
  refine ⟨r, hr, hrshape, fun t ht => ?_, fun hp x hx => hcount hp x ?_⟩
  · have hlength : (List.replicate (volume dims) t.data).flatten.length =
        volume (dims ++ p.shape) := by
      rw [List.length_flatten, List.map_replicate, List.sum_replicate_nat, t.fills, volume_append,
        ht]
      rfl
    rw [hrdata, hfixed t ht, volume_cons, flatten_replicate_mul]
    refine take_drop_flatten_of_length (fun xs hxs => ?_) ?_
    · rw [List.eq_of_mem_replicate hxs]
      exact hlength
    · rw [List.getElem?_replicate_of_lt hj]
  · rw [hrdata] at hx
    exact List.mem_of_mem_drop (List.mem_of_mem_take hx)

/-- Leaves of the lanes, stacked, fit the leaf with one more batch dimension. -/
theorem Fits.ofRows {u : Tensor} {us : List Tensor} (h : ∀ t ∈ u :: us, p.Fits most dims t)
    (hshape : ∀ t ∈ u :: us, t.shape = u.shape) :
    p.Fits most ((us.length + 1) :: dims) (Tensor.ofRows u.shape (u :: us) hshape) where
  shape := congrArg (List.cons _) (h u List.mem_cons_self).shape
  fixed t ht := by
    have hall : (u :: us).map Tensor.data =
        List.replicate (us.length + 1) (List.replicate (volume dims) t.data).flatten := by
      refine List.eq_replicate_iff.2 ⟨by rw [List.length_map, List.length_cons], fun xs hxs => ?_⟩
      obtain ⟨v, hv, rfl⟩ := List.mem_map.1 hxs
      exact (h v hv).fixed t ht
    rw [volume_cons, flatten_replicate_mul, ← hall]
    rfl
  count hp x hx := by
    obtain ⟨xs, hxs, hx⟩ := List.mem_flatten.1
      (show x ∈ ((u :: us).map Tensor.data).flatten from hx)
    obtain ⟨v, hv, rfl⟩ := List.mem_map.1 hxs
    exact (h v hv).count hp x hx

theorem FitsValue.hasParts {count : Nat} {v : Value} (h : p.FitsValue most (count :: dims) v) :
    v.HasParts count := by
  obtain ⟨u, rfl, hfits⟩ := h
  exact ⟨_, hfits.shape⟩

theorem FitsValue.part {count : Nat} {v : Value} (h : p.FitsValue most (count :: dims) v) {j : Nat}
    (hj : j < count) : p.FitsValue most dims (v.part j) := by
  obtain ⟨u, rfl, hfits⟩ := h
  obtain ⟨r, hr, hrfits⟩ := hfits.row hj
  exact ⟨r, by rw [Value.part, hr]; rfl, hrfits⟩

end LeafPlan

namespace State

variable {plan : Plan} {dims : List Nat} {placement : Table Directive}

/-! ## Taking apart -/

/-- A state that follows a plan comes apart along its first batch dimension. -/
theorem Follows.hasParts {count : Nat} {s : State}
    (h : s.Follows plan most (count :: dims) placement) :
    s.HasParts count := by
  refine hasParts_iff.2 ⟨by rw [h.batchDims]; rfl, fun e he => ?_⟩
  obtain ⟨p, -, hp⟩ := h.nodes.of_mem he
  refine localHasParts_iff.2 fun e' he' => ?_
  obtain ⟨q, -, hq⟩ := Table.Matching.of_mem hp he'
  exact hq.hasParts

/-- Every lane of it follows the plan, with the placement moved inward. -/
theorem Follows.part {count : Nat} {s : State} (h : s.Follows plan most (count :: dims) placement)
    {j : Nat} (hj : j < count) :
    (s.part j).Follows plan most dims (placement.mapValues Directive.inward) where
  batchDims := by rw [batchDims_part, h.batchDims, List.tail_cons]
  nodes := by
    rw [nodes_part]
    refine h.nodes.mapValues fun l p hl => ?_
    rw [localPart_eq_mapValues]
    exact Table.Matching.mapValues hl fun v q hv => hv.part hj
  placement := by rw [placement_part, h.placement]

/-- Taking a state apart gives lanes that follow the plan. -/
theorem Follows.unstack {count : Nat} {s : State}
    (h : s.Follows plan most (count :: dims) placement) :
    Gives (fun xs => xs.length = count ∧
      ∀ x ∈ xs, x.Follows plan most dims (placement.mapValues Directive.inward)) s.unstack := by
  obtain ⟨hxs, hlength⟩ := unstack_eq_ok_iff_hasParts.2 ⟨h.hasParts, rfl⟩
  refine ⟨_, hxs, hlength, fun x hx => ?_⟩
  obtain ⟨j, hj, rfl⟩ := List.mem_map.1 hx
  exact h.part (List.mem_range.1 hj)

/-- A state that follows a plan is split into lanes that follow it, all placed alike. -/
theorem Follows.flatten :
    ∀ {dims : List Nat} {placement : Table Directive} {s : State},
      s.Follows plan most dims placement →
      Gives (fun ls => ls.length = volume dims ∧ ∀ l ∈ ls, l.Follows plan most []
        (placement.mapValues (Nat.iterate Directive.inward dims.length))) s.flatten := by
  intro dims
  -- one batch axis after the other: the parts of a state follow the plan along the inner axes
  induction dims with
  | nil =>
    intro placement s h
    refine ⟨[s], flatten_unbatched h.batchDims, rfl, List.forall_mem_singleton.2 ?_⟩
    have hid : placement.mapValues (Nat.iterate Directive.inward 0) = placement :=
      Table.mapValues_eq_self_iff.2 fun _ _ => rfl
    exact ⟨h.batchDims, h.nodes, h.placement.trans hid.symm⟩
  | cons count dims ih =>
    intro placement s h
    obtain ⟨xs, hxs, hlength, hparts⟩ := h.unstack
    obtain ⟨lss, hlss⟩ := Outcome.exists_forall₂ fun x hx => ih (hparts x hx)
    refine ⟨lss.flatten, (flatten_eq_ok_iff hxs).2 ⟨lss, hlss.imp fun x l hl => hl.1, rfl⟩, ?_, ?_⟩
    · have hcounts : ∀ ls ∈ lss, ls.length = volume dims := by
        intro ls hls
        obtain ⟨x, -, -, hcount, -⟩ := Outcome.exists_left_of_mem hlss hls
        exact hcount
      rw [length_flatten_of_length hcounts, ← hlss.length_eq, hlength, volume_cons]
    · intro l hl
      obtain ⟨ls, hls, hl⟩ := List.mem_flatten.1 hl
      obtain ⟨x, -, -, -, hall⟩ := Outcome.exists_left_of_mem hlss hls
      have hlane := hall l hl
      rw [Table.mapValues_mapValues] at hlane
      exact hlane

/-! ## Stacking -/

/-- Local states that fit a plan are stacked to one that fits it, as long as its leaves are arrays.
-/
theorem stackLocal_fits (path : String) {l : LocalState} {qs : Table LeafPlan}
    (hl : Table.Matching (LeafPlan.FitsValue most dims) l qs) {others : List LocalState}
    (hothers : ∀ o ∈ others, ∀ e ∈ qs, ∃ v, Table.get? e.1 o = some v ∧ e.2.FitsValue most dims v)
    (harrays : ∀ e ∈ qs, Tensor.IsArrayShape ((others.length + 1) :: (dims ++ e.2.shape))) :
    Gives (fun r => Table.Matching (LeafPlan.FitsValue most ((others.length + 1) :: dims)) r qs)
      (stackLocal path l others) := by
  induction hl with
  | nil => exact ⟨[], by rw [stackLocal], .nil⟩
  | @cons e e' l qs he _ ih =>
    obtain ⟨name, v⟩ := e
    obtain ⟨name', q⟩ := e'
    obtain ⟨rfl, u, rfl, hu⟩ := he
    -- the attribute of each of the other local states
    have hcolumn : ∀ o ∈ others,
        ∃ t, Table.get? name o = some (.tensor t) ∧ q.Fits most dims t := by
      intro o ho
      obtain ⟨v, hv, t, rfl, ht⟩ := hothers o ho (name, q) List.mem_cons_self
      exact ⟨t, hv, ht⟩
    obtain ⟨ts, hts⟩ := Outcome.exists_forall₂ hcolumn
    have hfits : ∀ t ∈ u :: ts, q.Fits most dims t := by
      refine List.forall_mem_cons.2 ⟨hu, fun t ht => ?_⟩
      obtain ⟨o, -, -, hfit⟩ := Outcome.exists_left_of_mem hts ht
      exact hfit
    have hshape : ∀ t ∈ u :: ts, t.shape = u.shape :=
      fun t ht => (hfits t ht).1.trans hu.1.symm
    obtain ⟨harray, harrays⟩ := List.forall_mem_cons.1 harrays
    rw [← hu.1, hts.length_eq] at harray
    obtain ⟨more, hmore, hrest⟩ :=
      ih (fun o ho e he => hothers o ho e (List.mem_cons_of_mem _ he)) harrays
    refine ⟨(name, .tensor (Tensor.ofRows u.shape (u :: ts) hshape)) :: more,
      stackLocal_cons_eq_ok_iff.2 ⟨ts.map Value.tensor, ?_, _,
        stackValue_tensor_eq_ok_iff.2 ⟨ts, rfl, hshape, harray, rfl⟩, more, hmore, rfl⟩,
      .cons ⟨rfl, _, rfl, ?_⟩ hrest⟩
    · rw [List.forall₂_map_right_iff]
      exact hts.imp fun o t ht => ht.1
    · rw [hts.length_eq]
      exact LeafPlan.Fits.ofRows hfits hshape

/-- So are the nodes of states. -/
theorem stackNodes_fits {nodes : List (String × LocalState)} {ps : Table LocalPlan}
    (hnodes : Table.Matching (LocalPlan.Fits most dims) nodes ps) (others : List State)
    (hothers : ∀ o ∈ others, ∀ e ∈ ps, ∃ l, Table.get? e.1 o.nodes = some l ∧ e.2.Fits most dims l)
    (harrays : ∀ e ∈ ps, ∀ q ∈ e.2.leaves,
      Tensor.IsArrayShape ((others.length + 1) :: (dims ++ q.2.shape))) :
    Gives (fun r => Table.Matching (LocalPlan.Fits most ((others.length + 1) :: dims)) r ps)
      (stackNodes nodes others) := by
  induction hnodes with
  | nil => exact ⟨[], by rw [stackNodes], .nil⟩
  | @cons e e' nodes ps he _ ih =>
    obtain ⟨path, l⟩ := e
    obtain ⟨path', p⟩ := e'
    obtain ⟨rfl, hl⟩ := he
    -- the induction is on the nodes of the first state; the others have them at the same paths
    have hlocals : ∀ o ∈ localsAt path others, p.Fits most dims o := by
      intro o ho
      obtain ⟨s, hs, rfl⟩ := List.mem_map.1 ho
      obtain ⟨l', hl', hfits⟩ := hothers s hs (path, p) List.mem_cons_self
      rw [hl', Option.getD_some]
      exact hfits
    obtain ⟨harray, harrays⟩ := List.forall_mem_cons.1 harrays
    have hcount : (localsAt path others).length = others.length := List.length_map ..
    rw [← hcount] at harray
    obtain ⟨stacked, hstacked, hfits⟩ := stackLocal_fits path hl (fun o ho e he =>
      Table.Matching.get? (hlocals o ho) (Table.get?_eq_some_of_mem p.ascends.nodup he)) harray
    rw [hcount] at hfits
    obtain ⟨more, hmore, hrest⟩ :=
      ih (fun o ho e he => hothers o ho e (List.mem_cons_of_mem _ he)) harrays
    refine ⟨(path, stacked) :: more,
      stackNodes_cons_eq_ok_iff.2 ⟨stacked, hstacked, fun o ho => ?_, more, hmore, rfl⟩,
      .cons ⟨rfl, hfits⟩ hrest⟩
    rw [List.Forall₂.length_eq (hlocals o ho), List.Forall₂.length_eq hl]

/-- A state that follows a plan is ordered, because the plan is. -/
theorem Follows.ordered {s : State} (h : s.Follows plan most dims placement) : s.Ordered := by
  refine ordered_iff.2 ⟨h.nodes.sorted plan.ascends, fun e he => ?_⟩
  obtain ⟨p, -, hfits⟩ := h.nodes.of_mem he
  refine ⟨Table.Matching.sorted hfits p.ascends, localEverywhere_iff.2 fun a ha => ?_⟩
  obtain ⟨q, -, u, hu, -⟩ := Table.Matching.of_mem hfits ha
  rw [hu]
  trivial

/-- Arrays can have the shapes of a plan when the leaves of a state that follows it could be
arrays. -/
theorem Follows.fitsArrays {s : State} {outer : List Nat} (h : s.Follows plan most dims placement)
    (hs : s.leavesFit outer) : plan.FitsArrays (outer ++ dims) := by
  intro e he q hq
  obtain ⟨n, hn, -, hlocal⟩ := Outcome.exists_left_of_mem h.nodes he
  obtain ⟨a, ha, -, u, hu, hfits⟩ := Outcome.exists_left_of_mem hlocal hq
  have harray := hs n hn a ha
  rw [hu, Value.LeafFits, hfits.1, ← List.append_assoc] at harray
  exact harray

/-- States that follow a plan are stacked to a state that follows it, when arrays can have the
shapes of its leaves and the axes of its placement have a number behind one more. -/
theorem Follows.stack {xs : List State} (hne : xs ≠ [])
    (harrays : plan.FitsArrays (xs.length :: dims)) (hfits : PlacementFitsBehind 1 placement)
    (h : ∀ x ∈ xs, x.Follows plan most dims placement) :
    Gives (State.Follows plan most (xs.length :: dims) (placement.mapValues Directive.next))
      (State.stack xs) := by
  cases xs with
  | nil => exact absurd rfl hne
  | cons x others =>
    obtain ⟨hx, hothers⟩ := List.forall_mem_cons.1 h
    obtain ⟨nodes, hnodes, hmatching⟩ := stackNodes_fits hx.nodes others (fun o ho e he =>
      (hothers o ho).nodes.get? (Table.get?_eq_some_of_mem plan.ascends.nodup he)) harrays
    have hmoved := placementOutward_eq_next (hx.placement ▸ hfits)
    refine ⟨_, stackOnto_eq_ok_iff.2 ⟨fun o ho => ?_, nodes, hnodes, _, hmoved, rfl⟩,
      congrArg (List.cons _) hx.batchDims, hmatching, congrArg (Table.mapValues _) hx.placement⟩
    have ho := hothers o ho
    exact ⟨ho.batchDims.trans hx.batchDims.symm, ho.nodes.keys.trans hx.nodes.keys.symm,
      ho.placement.trans hx.placement.symm⟩

/-- Lanes that follow a plan are put together to a state that follows it. Lanes that get no batch
axes need not be arrays. -/
theorem Follows.unflatten :
    ∀ {dims : List Nat} {lanes : List State}, lanes.length = volume dims → 0 < volume dims →
      volume dims < UInt64.size → (dims ≠ [] → plan.FitsArrays dims) →
      PlacementFitsBehind dims.length placement → (∀ l ∈ lanes, l.Follows plan most [] placement) →
      Gives (State.Follows plan most dims
        (placement.mapValues (Nat.iterate Directive.next dims.length)))
        (State.unflatten dims lanes) := by
  intro dims
  induction dims with
  | nil =>
    intro lanes hlength _ _ _ _ h
    obtain ⟨lane, rfl⟩ := List.length_eq_one_iff.1 hlength
    have hlane := h lane List.mem_cons_self
    have hid : placement.mapValues (Nat.iterate Directive.next 0) = placement :=
      Table.mapValues_eq_self_iff.2 fun _ _ => rfl
    exact ⟨lane, unflatten_nil_eq_ok_iff.2 rfl, hlane.batchDims, hlane.nodes,
      hlane.placement.trans hid.symm⟩
  | cons count inner ih =>
    intro lanes hlength hpos hlt harrays hfits h
    rw [volume_cons] at hlength hpos hlt
    have hcount : 0 < count := Nat.pos_of_mul_pos_right hpos
    have hinner : 0 < volume inner := Nat.pos_of_mul_pos_left hpos
    have hinnerlt : volume inner < UInt64.size :=
      Nat.lt_of_le_of_lt (Nat.le_mul_of_pos_left _ hcount) hlt
    -- every piece of the lanes is put together to one part
    have hpieces : ∀ p ∈ pieces (volume inner) count lanes, Gives (State.Follows plan most inner
        (placement.mapValues (Nat.iterate Directive.next inner.length)))
        (State.unflatten inner p) := by
      intro p hp
      refine ih (length_of_mem_pieces hlength p hp) hinner hinnerlt
        (fun _ => (harrays (List.cons_ne_nil _ _)).tail) (hfits.mono (Nat.le_succ _))
        fun l hl => h l ?_
      rw [← flatten_pieces hlength]
      exact List.mem_flatten.2 ⟨p, hp, hl⟩
    obtain ⟨xs, hxs, hxslength, hxsfollow⟩ := Gives.mapM hpieces
    rw [length_pieces] at hxslength
    have hone : PlacementFitsBehind 1
        (placement.mapValues (Nat.iterate Directive.next inner.length)) := by
      rw [List.length_cons, Nat.add_comm] at hfits
      exact fitsBehind_iterate_next hfits
    obtain ⟨r, hr, hfollows⟩ := Follows.stack (List.ne_nil_of_length_pos (hxslength ▸ hcount))
      (hxslength ▸ harrays (List.cons_ne_nil _ _)) hone hxsfollow
    refine ⟨r, (unflatten_eq_of_length hlength hpos hlt).2 ⟨xs, hxs, hr⟩, ?_⟩
    rw [hxslength, Table.mapValues_mapValues] at hfollows
    simp only [List.length_cons, Function.iterate_succ', Function.comp_def]
    exact hfollows

theorem Follows.mono {most' : Nat} {s : State} (h : s.Follows plan most dims placement)
    (hle : most ≤ most') : s.Follows plan most' dims placement :=
  ⟨h.batchDims, h.nodes.imp fun _ _ hl => hl.mono hle, h.placement⟩

/-! ## Reading and writing a node -/

/-- The node of a plan is there, and its local state fits. -/
theorem Follows.resolve {s : State} (h : s.Follows plan most dims placement) {path : String}
    {p : LocalPlan} (hp : plan.get? path = some p) : Gives (p.Fits most dims) (s.resolve path) := by
  obtain ⟨l, hl, hfits⟩ := h.nodes.get? hp
  exact ⟨l, resolve_eq_ok_iff.2 hl, hfits⟩

theorem Follows.contains {s : State} (h : s.Follows plan most dims placement) {path : String}
    {p : LocalPlan} (hp : plan.get? path = some p) : s.contains path = true := by
  obtain ⟨l, hl, -⟩ := h.nodes.get? hp
  rw [State.contains, Table.contains, hl]
  rfl

/-- Writing a local state that fits back to its node keeps the plan. -/
theorem Follows.update {s : State} (h : s.Follows plan most dims placement) {path : String}
    {p : LocalPlan} (hp : plan.get? path = some p) {l : LocalState} (hl : p.Fits most dims l) :
    Gives (State.Follows plan most dims placement) (s.update path l) :=
  ⟨_, update_eq_ok_iff.2 ⟨h.contains hp, rfl⟩, h.batchDims,
    h.nodes.insert_of_get? plan.ascends hp hl, h.placement⟩

/-- Writing a leaf whose numbers may change, with a tensor of its shape. -/
theorem Follows.withLeaf {s : State} (h : s.Follows plan most dims placement) {qualified : String}
    {p : LocalPlan} {shape : List Nat} (hp : plan.get? (Path.split qualified).1 = some p)
    (hq : p.get? (Path.split qualified).2 = some (.free shape)) {t : Tensor}
    (ht : t.shape = dims ++ shape) :
    Gives (State.Follows plan most dims placement) (s.withLeaf qualified t) := by
  obtain ⟨l, hl, hfits⟩ := h.resolve hp
  obtain ⟨v, hv, u, rfl, -⟩ := Table.Matching.get? hfits hq
  obtain ⟨s', hs', hfollows⟩ := h.update hp (hfits.setShape hq ht)
  refine ⟨s', withLeaf_eq_ok_iff.2 ⟨u, leaf_eq_ok_iff.2 ⟨l, hl, hv⟩, l, hl, ?_⟩, hfollows⟩
  exact (update_eq_ok_iff.1 hs').2

end State

end Lockstep
