import Lockstep.Proofs.Decimal.Layout
import Lockstep.Proofs.Json.Reading
import Lockstep.Proofs.Json.RoundTrip
import Lockstep.Proofs.State.Everywhere
import Lockstep.Proofs.State.Parts
import Lockstep.State.Checkpoint

/-!
# What a checkpoint restores

A stored state is read back exactly when all its numbers are finite and its text is not nested
deeper than a reader enters (`ofText_toText`); otherwise reading it fails. The reason is that a
number that is not finite is written as null (`reads_ofFloat`), and null is no number.
-/

namespace Lockstep

open Json.Read (Reads)

/-! ## Devices and directives -/

/-- A word is read back from the digits that are written for it. -/
theorem reads_nat {n : Nat} (h : n < Nat.pow 2 64) (bound : Nat) :
    Reads bound Json.Read.nat (.ofNat n) (some n) :=
  Json.Read.reads_scalar rfl (Json.nat_ofNat h)

/-- The kind of a device is read back from its tag. -/
theorem reads_kind (k : DeviceKind) (bound : Nat) :
    Reads bound DeviceKind.reader (.text k.tag) (some k) :=
  Json.Read.reads_scalar rfl fun _ => by cases k <;> rfl

theorem reads_device {d : Device} (h : d.ordinal < Nat.pow 2 64) (bound : Nat) :
    Reads bound Device.reader d.toJson (some d) := by
  refine Json.Read.reads_fields ["kind", "ordinal"] rfl (by decide) fun depth hdepth => ?_
  have hkind := Json.Read.required_some (reads_kind d.kind bound) hdepth
  have hordinal := Json.Read.required_some (reads_nat h bound) hdepth
  simp [hkind, hordinal]

/-- The ordinals of the devices of a directive fit into a word. -/
def Directive.Storable : Directive → Prop
  | .replicated => True
  | .split _ devices => ∀ d ∈ devices, d.ordinal < Nat.pow 2 64

theorem reads_split {axis : UInt64} {devices : List Device}
    (h : ∀ d ∈ devices, d.ordinal < Nat.pow 2 64) (bound : Nat) :
    Reads bound Directive.splitReader
      (.record [("axis", .ofNat axis.toNat), ("devices", .array (devices.map Device.toJson))])
      (some (.split axis devices)) := by
  refine Json.Read.reads_fields ["axis", "devices"] rfl (by decide) fun depth hdepth => ?_
  have haxis := Json.Read.required_some
    (Json.Read.reads_scalar rfl (Json.word_ofNat axis) : Reads bound _ _ _) hdepth
  have hdevices := Json.Read.required_some
    (Json.Read.reads_list_some fun d hd => reads_device (h d hd) bound) hdepth
  simp [haxis, hdevices, Json.Read.bind_guard_left]

/-- A directive whose devices have words for ordinals is read back. -/
theorem reads_directive {dir : Directive} (h : dir.Storable) (bound : Nat) :
    Reads bound Directive.reader dir.toJson (some dir) := by
  cases dir with
  | replicated => exact Json.Read.reads_scalar rfl fun _ => rfl
  | split axis devices =>
    intro depth hdepth
    cases depth with
    | zero => rfl
    | succ depth =>
      have hsplit := @reads_split axis devices h bound depth (by omega)
      rw [Directive.reader, Directive.toJson, Json.Read.tagged_record]
      show Directive.splitReader depth _ = _
      rw [hsplit]
      simp only [Json.Read.depth_record, List.forall_mem_singleton]

/-! ## Tensors -/

/-- A finite number is read back; what is not finite was written as null. -/
theorem reads_ofFloat {x : Float}
    (h : x.isFinite = true → Json.Read.float 0 (.ofFloat x) = some x) (bound : Nat) :
    Reads bound Json.Read.float (.ofFloat x) (if x.isFinite then some x else none) := by
  refine Json.Read.reads_scalar (Json.depth_ofFloat x) fun depth => ?_
  rw [Json.ofFloat] at h ⊢
  split
  · next hx =>
    rw [if_pos hx] at h
    exact h hx
  · rfl

/-- The lengths of the axes fit into words, and those that are not zero multiply to at most the
greatest size. -/
structure Tensor.Storable (t : Tensor) : Prop where
  axes : ∀ n ∈ t.shape, n < Nat.pow 2 64
  size : volume (t.shape.filter (· ≠ 0)) ≤ Tensor.maxSize

/-- The members of a written tensor, which stand in their order, are its parts. -/
theorem reader_record (depth : Nat) (dim data : Json) :
    Tensor.reader (depth + 1) (.record [("v", .ofNat 1), ("dim", dim), ("data", data)]) =
      (Json.Read.list Json.Read.nat depth dim).bind fun shape =>
        (Json.Read.list Json.Read.float depth data).bind fun xs =>
          (Tensor.ofData shape xs).toOption := by
  have hversion : ∀ low high : Int, low ≤ 1 → 1 ≤ high →
      Json.Read.int low high depth (.ofNat 1) = some 1 := fun low high hlow hhigh =>
    Json.int_ofNat (by simpa using hlow) (by simpa using hhigh) depth
  -- every member is looked at twice: on the walk over all members, and as a part
  cases hdim : Json.Read.list Json.Read.nat depth dim with
  | none =>
    simp [Tensor.reader, Json.record, hversion, hdim]
    rfl
  | some shape =>
    cases hdata : Json.Read.list Json.Read.float depth data with
    | none =>
      simp [Tensor.reader, Json.record, hversion, hdim, hdata]
      rfl
    | some xs =>
      have hparts : Tensor.ofParts (depth + 1) (some (.ofNat 1)) (some dim) (some data) =
          (Tensor.ofData shape xs).toOption := by
        simp [Tensor.ofParts, Json.Read.required, hversion, hdim, hdata]
      simp [Tensor.reader, Json.record, hversion, hdim, hdata]
      exact hparts

/-- A tensor is read back if all its numbers are finite, and is refused if one is not. -/
theorem reads_tensor {t : Tensor} (ht : t.Storable)
    (h : ∀ x ∈ t.data, x.isFinite = true → Json.Read.float 0 (.ofFloat x) = some x) (bound : Nat) :
    Reads bound Tensor.reader t.toJson (if ∀ x ∈ t.data, x.isFinite then some t else none) := by
  have hdim := Json.Read.reads_list_some fun n hn => reads_nat (ht.axes n hn) bound
  have hdata := Json.Read.reads_list fun x hx => reads_ofFloat (h x hx) bound
  rw [Json.Read.mapM_guarded some, Json.Read.mapM_some] at hdata
  have hfills : Tensor.ofData t.shape t.data = .ok t := by
    rw [Tensor.ofData, if_neg (Nat.not_lt.2 ht.size), dif_pos t.fills]
  intro depth hdepth
  cases depth with
  | zero => rfl
  | succ depth =>
    rw [Tensor.toJson, reader_record, hdim depth (by omega), hdata depth (by omega)]
    simp only [Json.Read.depth_record, List.forall_mem_cons, List.not_mem_nil, false_imp_iff,
      implies_true, and_true, ite_and, Json.Read.bind_guard_left, Option.bind_some, hfills,
      Json.depth_ofNat, Nat.zero_le, if_true]
    rfl

/-! ## States -/

mutual

/-- All numbers of a value. -/
def Value.numbers : Value → List Float
  | .tensor t => t.data
  | .state s => s.numbers

/-- All numbers of a state, those of the states inside it too. -/
def State.numbers : State → List Float
  | ⟨nodes, _, _⟩ => nodesNumbers nodes

def nodesNumbers : List (String × List (String × Value)) → List Float
  | [] => []
  | (_, l) :: rest => localNumbers l ++ nodesNumbers rest

def localNumbers : List (String × Value) → List Float
  | [] => []
  | (_, v) :: rest => v.numbers ++ localNumbers rest

end

/-- The value is a state, or a tensor in the range of the machine. -/
def Value.LeafStorable : Value → Prop
  | .tensor t => t.Storable
  | .state _ => True

/-- The tables of a state ascend, and its numbers of axes, of devices and of elements are in the
range of the machine. -/
structure State.Writable (s : State) : Prop where
  nodes : Table.Sorted s.nodes
  attributes : ∀ e ∈ s.nodes, Table.Sorted e.2
  placement : Table.Sorted s.placement
  batchDims : ∀ n ∈ s.batchDims, n < Nat.pow 2 64
  directives : ∀ e ∈ s.placement, e.2.Storable
  leaves : ∀ e ∈ s.nodes, ∀ a ∈ e.2, a.2.LeafStorable

/-- The state can be written at every depth. -/
def State.Storable (s : State) : Prop := s.Everywhere State.Writable

/-- The numbers of a list are read back if they are finite. -/
def ReadBack (xs : List Float) : Prop :=
  ∀ x ∈ xs, x.isFinite = true → Json.Read.float 0 (.ofFloat x) = some x

/-- A value as far as it is read back: itself, unless it has a number that is not finite. -/
def ifFinite {α : Type} (numbers : List Float) (x : α) : Option α :=
  if ∀ y ∈ numbers, y.isFinite then some x else none

/-- A local state is written as a record of its values. -/
theorem object_localToJson (l : List (String × Value)) :
    Json.object (localToJson l) = .record (l.map fun e => (e.1, e.2.toJson)) := by
  rw [Json.record]
  congr 1
  induction l with
  | nil => rfl
  | cons e rest ih => rw [localToJson, ih, List.map_cons, List.map_cons]

/-- The nodes are written as a record of their local states. -/
theorem object_nodesToJson (nodes : List (String × List (String × Value))) :
    Json.object (nodesToJson nodes) =
      .record (nodes.map fun e => (e.1, .record [("values", .object (localToJson e.2))])) := by
  rw [Json.record]
  congr 1
  induction nodes with
  | nil => rfl
  | cons e rest ih => rw [nodesToJson, ih, List.map_cons, List.map_cons]

theorem forall_mem_localNumbers {P : Float → Prop} {l : List (String × Value)} :
    (∀ x ∈ localNumbers l, P x) ↔ ∀ e ∈ l, ∀ x ∈ e.2.numbers, P x := by
  induction l with
  | nil => simp [localNumbers]
  | cons e rest ih => rw [localNumbers, List.forall_mem_append, List.forall_mem_cons, ih]

theorem forall_mem_nodesNumbers {P : Float → Prop}
    {nodes : List (String × List (String × Value))} :
    (∀ x ∈ nodesNumbers nodes, P x) ↔ ∀ e ∈ nodes, ∀ x ∈ localNumbers e.2, P x := by
  induction nodes with
  | nil => simp [nodesNumbers]
  | cons e rest ih => rw [nodesNumbers, List.forall_mem_append, List.forall_mem_cons, ih]

/-- A list of entries is read if the numbers of each one are finite. -/
theorem mapM_ifFinite {α : Type} (numbers : α → List Float) (es : List (String × α)) :
    (es.mapM fun e => (ifFinite (numbers e.2) e.2).map (e.1, ·)) =
      if ∀ e ∈ es, ∀ x ∈ numbers e.2, x.isFinite then some es else none := by
  rw [← Json.Read.mapM_some es, ← Json.Read.mapM_guarded]
  refine Json.Read.mapM_congr fun e _ => ?_
  rw [ifFinite]
  split
  · rfl
  · rfl

/-- The local state of a node is read back when its values are. -/
theorem reads_local {bound : Nat} {value : Json.Read.Reader Value} {l : LocalState}
    (hsorted : Table.Sorted l)
    (h : ∀ e ∈ l, Reads bound value e.2.toJson (ifFinite e.2.numbers e.2)) :
    Reads bound (localReader value) (.record [("values", .object (localToJson l))])
      (ifFinite (localNumbers l) l) := by
  have hentries := Json.Read.reads_entries (f := fun e : String × Value => (e.1, e.2.toJson)) h
  rw [mapM_ifFinite] at hentries
  rw [← object_localToJson] at hentries
  refine Json.Read.reads_fields ["values"] rfl (by decide) fun depth hdepth => ?_
  have hvalues := Json.Read.required_some hentries hdepth
  have hfinite : ifFinite (localNumbers l) l =
      if ∀ e ∈ l, ∀ x ∈ e.2.numbers, x.isFinite then some l else none := by
    simp only [ifFinite, forall_mem_localNumbers]
  simp only [List.map_cons, List.map_nil, hvalues, hfinite, Option.bind_eq_bind,
    Json.Read.bind_guard_left, Option.bind_some, List.forall_mem_singleton,
    Table.ofList_of_sorted hsorted]
  rfl

/-- A state is read back if its values are, at the nesting that is left for them. -/
theorem reads_state {bound : Nat} {value : Json.Read.Reader Value} {s : State}
    (hs : s.Writable)
    (h : ∀ n ∈ s.nodes, ∀ e ∈ n.2, Reads bound value e.2.toJson (ifFinite e.2.numbers e.2)) :
    Reads bound (stateReader value) s.toJson (ifFinite s.numbers s) := by
  obtain ⟨nodes, dims, placement⟩ := s
  have hnodes := Json.Read.reads_entries
    (f := fun n : String × List (String × Value) =>
      (n.1, .record [("values", .object (localToJson n.2))]))
    fun n hn => reads_local (hs.attributes n hn) (h n hn)
  rw [mapM_ifFinite] at hnodes
  have hdims := Json.Read.reads_list_some fun n hn => reads_nat (hs.batchDims n hn) bound
  have hplacement := Json.Read.reads_entries
    (f := fun e : String × Directive => (e.1, e.2.toJson))
    fun e he => reads_directive (hs.directives e he) bound
  rw [← object_nodesToJson] at hnodes
  have hsome : (placement.mapM fun e => (some e.2).map (e.1, ·)) = some placement :=
    Json.Read.mapM_some placement
  rw [hsome] at hplacement
  have hfinite : ifFinite (nodesNumbers nodes) (State.mk nodes dims placement) =
      if ∀ n ∈ nodes, ∀ x ∈ localNumbers n.2, x.isFinite then some ⟨nodes, dims, placement⟩
      else none := by
    simp only [ifFinite, forall_mem_nodesNumbers]
  refine Json.Read.reads_fields ["nodes", "batch_dims", "placement"] rfl (by decide)
    fun depth hdepth => ?_
  have hnodes := Json.Read.required_some hnodes hdepth
  have hdims := Json.Read.required_some hdims hdepth
  have hplacement := Json.Read.required_some hplacement hdepth
  rw [State.numbers, hfinite]
  simp only [List.map_cons, List.map_nil, hnodes, hdims, hplacement, Option.bind_eq_bind,
    Json.Read.bind_guard_left, Json.Read.bind_guard_right, Option.bind_some, List.forall_mem_cons,
    List.not_mem_nil, false_imp_iff, implies_true, and_true, ite_and,
    Table.ofList_of_sorted hs.nodes, Table.ofList_of_sorted hs.placement]
  -- the guards stand in the order in which the fields are read
  by_cases hn : (Json.object (nodesToJson nodes)).depth ≤ depth
  · by_cases hp : (Json.record (placement.map fun e => (e.1, e.2.toJson))).depth ≤ depth
    · simp only [if_pos hn, if_pos hp]
      rfl
    · simp only [if_neg hp, ite_self]
  · simp only [if_neg hn, ite_self]

mutual

/-- A value is read back at any nesting, as far as its numbers are finite. -/
theorem reads_value : ∀ {v : Value} (nesting : Nat), v.Everywhere State.Writable →
    v.LeafStorable → ReadBack v.numbers →
      Reads nesting (Value.reader nesting) v.toJson (ifFinite v.numbers v)
  | v, 0, _, _, _ => fun d hd => absurd hd (Nat.not_lt_zero d)
  | .tensor t, nesting + 1, _, ht, hread => by
    have htensor := reads_tensor ht hread (nesting + 1)
    intro depth hdepth
    cases depth with
    | zero => rfl
    | succ depth =>
      rw [Value.reader, Value.toJson, Json.Read.tagged_record]
      have hpayload := Json.Read.required_some htensor hdepth
      simp only [Json.Read.payload, Option.bind_eq_bind, Option.bind_some, hpayload,
        Json.Read.bind_guard_left, Json.Read.depth_record, List.forall_mem_singleton]
      rfl
  | .state s, nesting + 1, hs, _, hread => by
    have hnested := reads_nested nesting hs hread
    intro depth hdepth
    cases depth with
    | zero => rfl
    | succ depth =>
      -- a nested state is read with less nesting, and entered one object deeper
      have hstate : stateReader (Value.reader nesting) depth s.toJson = _ :=
        hnested depth (by omega)
      rw [Value.reader, Value.toJson, Json.Read.tagged_record]
      simp only [Json.Read.payload, Json.Read.required, Option.bind_eq_bind, Option.bind_some,
        Nat.add_sub_cancel, hstate, ifFinite, Json.Read.bind_guard_left, Json.Read.depth_record,
        List.forall_mem_singleton]
      rfl

/-- So is a nested state. -/
theorem reads_nested : ∀ {s : State} (nesting : Nat), s.Everywhere State.Writable →
    ReadBack s.numbers →
      Reads nesting (stateReader (Value.reader nesting)) s.toJson (ifFinite s.numbers s)
  | ⟨_, _, _⟩, nesting, ⟨hs, hnodes⟩, hread =>
    reads_state hs fun n hn =>
      reads_nodes nesting hnodes hread hs.leaves n hn

/-- So are the values at its nodes. -/
theorem reads_nodes : ∀ {nodes : List (String × List (String × Value))} (nesting : Nat),
    nodesEverywhere State.Writable nodes → ReadBack (nodesNumbers nodes) →
    (∀ n ∈ nodes, ∀ e ∈ n.2, e.2.LeafStorable) → ∀ n ∈ nodes, ∀ e ∈ n.2,
      Reads nesting (Value.reader nesting) e.2.toJson (ifFinite e.2.numbers e.2)
  | [], _, _, _, _ => nofun
  | (path, l) :: rest, nesting, ⟨hl, hrest⟩, hread, ht => by
    obtain ⟨hreadl, hreadr⟩ := List.forall_mem_append.1 hread
    obtain ⟨htl, htr⟩ := List.forall_mem_cons.1 ht
    exact List.forall_mem_cons.2
      ⟨reads_values nesting hl hreadl htl, reads_nodes nesting hrest hreadr htr⟩

theorem reads_values : ∀ {l : List (String × Value)} (nesting : Nat),
    localEverywhere State.Writable l → ReadBack (localNumbers l) →
    (∀ e ∈ l, e.2.LeafStorable) → ∀ e ∈ l,
      Reads nesting (Value.reader nesting) e.2.toJson (ifFinite e.2.numbers e.2)
  | [], _, _, _, _ => nofun
  | (name, v) :: rest, nesting, ⟨hv, hrest⟩, hread, ht => by
    obtain ⟨hreadv, hreadr⟩ := List.forall_mem_append.1 hread
    obtain ⟨htv, htr⟩ := List.forall_mem_cons.1 ht
    exact List.forall_mem_cons.2
      ⟨reads_value nesting hv htv hreadv, reads_values nesting hrest hreadr htr⟩

end

/-! ## Texts -/

theorem legible_ofNat (n : Nat) : (Json.ofNat n).Legible := by
  show Json.IsLiteral (Nat.repr n).toList
  rw [Nat.toList_repr]
  exact Json.isLiteral_toDigits n

theorem legible_ofFloat (x : Float) : (Json.ofFloat x).Legible := by
  rw [Json.ofFloat]
  split
  · next hx => exact Decimal.isLiteral_write hx
  · trivial

theorem legible_array {items : List Json} (h : ∀ item ∈ items, item.Legible) :
    (Json.array items).Legible := by
  show Json.itemsLegible items
  induction items with
  | nil => trivial
  | cons item rest ih =>
    obtain ⟨hitem, hrest⟩ := List.forall_mem_cons.1 h
    exact ⟨hitem, ih hrest⟩

theorem legible_record {entries : List (String × Json)} (h : ∀ e ∈ entries, e.2.Legible) :
    (Json.record entries).Legible := by
  show Json.membersLegible (entries.map fun e => (some e.1, e.2))
  induction entries with
  | nil => trivial
  | cons e rest ih =>
    obtain ⟨he, hrest⟩ := List.forall_mem_cons.1 h
    exact ⟨rfl, he, ih hrest⟩

/-- The text of a device is legible. -/
theorem legible_device (d : Device) : d.toJson.Legible :=
  legible_record (by simp [Json.text, Json.Legible, legible_ofNat])

theorem legible_directive (dir : Directive) : dir.toJson.Legible := by
  cases dir with
  | replicated => rfl
  | split axis devices =>
    have hdevices : (Json.array (devices.map Device.toJson)).Legible :=
      legible_array (List.forall_mem_map.2 fun d _ => legible_device d)
    exact legible_record (List.forall_mem_singleton.2
      (legible_record (by simp [legible_ofNat, hdevices])))

/-- A tensor is written as legible text. -/
theorem legible_tensor (t : Tensor) : t.toJson.Legible := by
  have hdim : (Json.array (t.shape.map Json.ofNat)).Legible :=
    legible_array (List.forall_mem_map.2 fun n _ => legible_ofNat n)
  have hdata : (Json.array (t.data.map Json.ofFloat)).Legible :=
    legible_array (List.forall_mem_map.2 fun x _ => legible_ofFloat x)
  exact legible_record (by simp [legible_ofNat, hdim, hdata])

mutual

/-- So is a value, however deep it is nested. -/
theorem legible_value : ∀ v : Value, v.toJson.Legible
  | .tensor t => legible_record (List.forall_mem_singleton.2 (legible_tensor t))
  | .state s => legible_record (List.forall_mem_singleton.2 (legible_state s))

/-- A state is written as legible text. -/
theorem legible_state : ∀ s : State, s.toJson.Legible
  | ⟨nodes, dims, placement⟩ => by
    have hdims : (Json.array (dims.map Json.ofNat)).Legible :=
      legible_array (List.forall_mem_map.2 fun n _ => legible_ofNat n)
    have hplacement : (Json.record (placement.map fun e => (e.1, e.2.toJson))).Legible :=
      legible_record (List.forall_mem_map.2 fun e _ => legible_directive e.2)
    exact legible_record (by simp [legible_nodes nodes, hdims, hplacement])

theorem legible_nodes : ∀ nodes : List (String × List (String × Value)),
    (Json.object (nodesToJson nodes)).Legible
  | [] => trivial
  | (_, l) :: rest =>
    ⟨rfl, legible_record (List.forall_mem_singleton.2 (legible_local l)), legible_nodes rest⟩

theorem legible_local : ∀ l : List (String × Value), (Json.object (localToJson l)).Legible
  | [] => trivial
  | (_, v) :: rest => ⟨rfl, legible_value v, legible_local rest⟩

end

/-- A state comes back from its text, whole, exactly when all its numbers are finite and the text
is not nested too deep; reading it fails otherwise. -/
theorem ofText_toText {s : State} (hs : s.Storable) (hread : ReadBack s.numbers) :
    State.ofText s.toText =
      if (∀ x ∈ s.numbers, x.isFinite) ∧ s.toJson.depth ≤ Json.Read.maxDepth then .ok s
      else .error .serialization := by
  have hreader : State.reader Json.Read.maxDepth s.toJson = _ :=
    reads_nested (Json.Read.maxDepth + 1) hs hread Json.Read.maxDepth (Nat.lt_succ_self _)
  rw [State.ofText, Json.readText, State.toText, Json.parse_render (legible_state s),
    Option.bind_some, hreader, ifFinite]
  by_cases hdepth : s.toJson.depth ≤ Json.Read.maxDepth
  · by_cases hfinite : ∀ x ∈ s.numbers, x.isFinite
    · rw [if_pos hdepth, if_pos hfinite, if_pos ⟨hfinite, hdepth⟩]
    · rw [if_pos hdepth, if_neg hfinite, if_neg fun h => hfinite h.1]
  · rw [if_neg hdepth, if_neg fun h => hdepth h.2]

/-- A batch of two with a nested state and a split leaf. -/
def snapshot : State where
  nodes := [
    ("", [("generation", .tensor (.vector [3, 4]))]),
    ("algorithm", [
      ("inner", .state ⟨[("a", [("x", .tensor (.vector [0.1, -1.5e-7]))])], [2], []⟩),
      ("population", .tensor (.constant [2, 4] 2.5))])]
  batchDims := [2]
  placement := [("algorithm.population", .split 1 [⟨.gpu, 0⟩, ⟨.gpu, 1⟩])]

/-- A state with a number, a list and a nested state comes back as it was. -/
theorem ofText_toText_snapshot : State.ofText snapshot.toText = .ok snapshot := by
  have hstorable : snapshot.Storable := by
    refine ⟨⟨by decide, by decide, by decide, by decide, ?_, ?_⟩, ⟨trivial, trivial⟩,
      ⟨⟨⟨by decide, by decide, by decide, by decide, nofun, ?_⟩, ⟨trivial, trivial⟩, trivial⟩,
        trivial, trivial⟩, trivial⟩
    · simp [Directive.Storable]
    · simp only [List.forall_mem_cons, List.not_mem_nil, false_imp_iff, implies_true, and_true]
      exact ⟨⟨by decide, by decide⟩, trivial, ⟨by decide, by decide⟩⟩
    · simp only [List.forall_mem_cons, List.not_mem_nil, false_imp_iff, implies_true, and_true]
      exact ⟨by decide, by decide⟩
  have hread : ReadBack snapshot.numbers := by
    unfold ReadBack
    decide +kernel
  rw [ofText_toText hstorable hread, if_pos (by decide +kernel)]

/-- A monitor that has not evaluated anything yet. -/
def unevaluated : State := ⟨[("monitor", [("best", .tensor (.scalar (1 / 0)))])], [], []⟩

/-- The first state of a monitor is written, but not read back. -/
theorem ofText_toText_unevaluated : State.ofText unevaluated.toText ≠ .ok unevaluated := by
  have hfails : (State.ofText unevaluated.toText).toOption.isNone = true := by decide +kernel
  intro h
  rw [h] at hfails
  cases hfails

end Lockstep
