import Lockstep.Proofs.Outcome
import Lockstep.Workflow.Run

/-!
# No internal errors

An internal error says that an expectation inside the library is broken. Nothing that a step does
with states, keys and candidates between the calls to its components fails in that way
(`Outcome.External`): lanes are taken apart and put together, local states read and written, and
leaves placed without one.
-/

namespace Lockstep

variable {α β : Type}

/-- The error is an internal one. -/
def Error.isInternal : Error → Bool
  | .internal _ => true
  | _ => false

namespace Outcome

/-- The computation breaks no expectation inside the library: if it fails, then not with an internal
error. -/
def External (o : Outcome α) : Prop := ∀ fault, o ≠ .error (.internal fault)

namespace External

/-- A result is no failure. -/
theorem ok (x : α) : External (.ok x) := nofun

/-- An error of another kind is not an internal one. -/
theorem error {e : Error} (h : e.isInternal = false) : External (.error e : Outcome α) := by
  rintro fault ⟨⟩
  cases h

/-- A sequence of computations that break no expectation breaks none. -/
theorem bind {o : Outcome α} {f : α → Outcome β} (ho : External o) (hf : ∀ x, External (f x)) :
    External (o >>= f) := by
  cases o with
  | ok x => exact hf x
  | error e => exact fun fault h => ho fault (congrArg Except.error (Except.error.inj h))

/-- Going through a list breaks no expectation if none of the calls does. -/
theorem mapM {f : α → Outcome β} (hf : ∀ x, External (f x)) (xs : List α) :
    External (xs.mapM f) := by
  intro fault h
  obtain ⟨i, x, -, hx, -⟩ := mapM_eq_error_iff.1 h
  exact hf x fault hx

/-- The same where the calls return nothing. -/
theorem forM {f : α → Outcome Unit} (hf : ∀ x, External (f x)) (xs : List α) :
    External (xs.forM f) := by
  induction xs with
  | nil => exact .ok _
  | cons x xs ih => exact (hf x).bind fun _ => ih

/-- A fold breaks no expectation if none of its steps does. -/
theorem foldlM {f : β → α → Outcome β} (hf : ∀ y x, External (f y x)) :
    ∀ (xs : List α) (y : β), External (xs.foldlM f y)
  | [], _ => .ok _
  | x :: xs, y => (hf y x).bind fun next => foldlM hf xs next

/-- An internal error after something that has none comes from what follows. -/
theorem of_bind {o : Outcome α} {f : α → Outcome β} {fault : InternalFault} (ho : External o)
    (h : o >>= f = .error (.internal fault)) :
    ∃ x, o = .ok x ∧ f x = .error (.internal fault) := by
  cases o with
  | ok x => exact ⟨x, rfl, h⟩
  | error e => exact absurd (congrArg Except.error (Except.error.inj h)) (ho fault)

end External

end Outcome

open Outcome (External)

theorem external_wordOf (n : Nat) : External (wordOf n) := by
  rw [wordOf]
  split
  · exact .ok _
  · exact .error rfl

/-! ## Tensors and candidates -/

namespace Tensor

/-- An array that is no scalar is refused with the caller's fault, not with an internal one. -/
theorem external_scalarValue (t : Tensor) : External t.scalarValue := by
  rw [scalarValue]
  split
  · exact .ok _
  · exact .error rfl

/-- Arrays of different shapes are refused with a message for the caller. -/
theorem external_stackNamed (context : String) : ∀ ts, External (stackNamed context ts)
  | [] => .error rfl
  | first :: rest => by
    rw [stackNamed]
    split
    · exact .error rfl
    · split
      · exact .ok _
      · exact .error rfl

/-- An array without axes has no lanes, which is the caller's fault. -/
theorem external_unstack (t : Tensor) : External t.unstack := by
  rw [unstack]
  split
  · exact .error rfl
  · exact .ok _

theorem external_reshape (t : Tensor) (shape : List Nat) : External (t.reshape shape) := by
  rw [reshape]
  split
  · exact .ok _
  · exact .error rfl

end Tensor

/-- A fault of the input is reported as such. -/
theorem InputFault.external_fail (fault : InputFault) : External (fail fault : Outcome α) :=
  .error rfl

namespace Candidates

theorem external_fieldSize (field : String × Tensor) : External (fieldSize field) := by
  rw [fieldSize]
  split
  · exact InputFault.external_fail _
  · exact .ok _

theorem external_checkSizes (first : Nat) : ∀ fields, External (checkSizes first fields)
  | [] => .ok _
  | field :: rest => by
    refine (external_fieldSize field).bind fun n => ?_
    split
    · exact InputFault.external_fail _
    · exact external_checkSizes first rest

/-- Candidates of different sizes, or of none, are refused with a message for the caller. -/
theorem external_size (c : Candidates) : External c.size := by
  rw [size.eq_def]
  split
  · split
    · exact InputFault.external_fail _
    · exact .ok _
  · exact .ok _
  · next field rest =>
    exact (external_fieldSize field).bind fun n =>
      (external_checkSizes n rest).bind fun _ => .ok _

end Candidates

namespace InputSpec

theorem external_checkExpected (shapes : Table (List Nat)) :
    ∀ fields, External (checkExpected shapes fields)
  | [] => .ok _
  | (name, _) :: rest => by
    rw [checkExpected]
    split
    · exact external_checkExpected shapes rest
    · exact InputFault.external_fail _

theorem external_checkShapes (fields : Table Tensor) :
    ∀ shapes, External (checkShapes fields shapes)
  | [] => .ok _
  | (name, shape) :: rest => by
    rw [checkShapes]
    split
    · exact InputFault.external_fail _
    · split
      · exact InputFault.external_fail _
      · exact external_checkShapes fields rest

/-- The check of candidates blames the candidates only. -/
theorem external_check (spec : InputSpec) (c : Candidates) : External (spec.check c) := by
  rw [check.eq_def]
  split
  · exact .ok _
  · repeat' split
    all_goals first | exact .ok _ | exact InputFault.external_fail _
  · exact (external_checkExpected _ _).bind fun _ => (external_checkShapes _ _).bind fun _ =>
      (Candidates.external_size _).bind fun _ => .ok _
  · exact InputFault.external_fail _
  · exact InputFault.external_fail _

end InputSpec

/-! ## Local states and keys -/

namespace LocalState

/-- A local state without the tensor is reported as one. -/
theorem external_tensor (l : LocalState) (name : String) : External (l.tensor name) := by
  refine External.bind ?_ fun v => ?_
  · rw [value]
    split
    · exact .ok _
    · exact .error rfl
  · cases v with
    | tensor t => exact .ok _
    | state s => exact .error rfl

theorem external_number (l : LocalState) (name : String) : External (l.number name) :=
  (l.external_tensor name).bind Tensor.external_scalarValue

end LocalState

namespace Random.Key

/-- Only a half that is no word is refused, as a key that does not decode. -/
theorem external_half (x : Float) : External (half x) := by
  rw [half]
  split
  · exact .ok _
  · exact .error rfl

/-- A tensor that holds no key is refused as such. -/
theorem external_ofTensor (t : Tensor) : External (ofTensor t) := by
  rw [ofTensor]
  split
  · exact (external_half _).bind fun _ => (external_half _).bind fun _ => .ok _
  · exact .error rfl

end Random.Key

/-! ## States -/

/-- An axis that does not fit into a word aborts the call, which is no internal error. -/
theorem external_placementOutward (placement : List (String × Directive)) :
    External (placementOutward placement) := by
  refine .mapM (fun e => External.bind ?_ fun _ => .ok _) placement
  cases e.2 with
  | replicated => exact .ok _
  | split axis devices => exact (external_wordOf _).bind fun _ => .ok _

/-- So does a number of lanes that does not fit. -/
theorem external_wordVolume (dims : List Nat) : External (wordVolume dims) :=
  External.foldlM (fun _ _ => external_wordOf _) dims _

theorem PlacementSpec.external_directiveFor (spec : PlacementSpec) (qualified : String)
    (batchRank : Nat) : External (spec.directiveFor qualified batchRank) := by
  rw [directiveFor]
  split
  · split
    · exact .ok _
    · exact (external_wordOf _).bind fun _ => .ok _
  · exact .ok _

namespace State

/-- A path that leads nowhere is reported as missing. -/
theorem external_resolve (s : State) (path : String) : External (s.resolve path) := by
  rw [resolve]
  split
  · exact .ok _
  · exact .error rfl

/-- A local state is written back at the path at which it was read, or the path is missing. -/
theorem external_update (s : State) (path : String) (l : LocalState) :
    External (s.update path l) := by
  rw [update]
  split
  · exact .ok _
  · exact .error rfl

theorem external_leaf (s : State) (qualified : String) : External (s.leaf qualified) := by
  refine (s.external_resolve _).bind fun l => ?_
  split
  · exact .ok _
  · exact .error rfl
  · exact .error rfl

mutual

/-- A value is taken apart lane by lane, at any depth of nested states. -/
theorem external_unstackValue : ∀ v : Value, External (unstackValue v)
  | .tensor t => by
    rw [unstackValue]
    exact t.external_unstack.bind fun _ => .ok _
  | .state s => by
    rw [unstackValue]
    exact (external_unstack s).bind fun _ => .ok _

theorem external_unstack : ∀ s : State, External s.unstack
  | ⟨_, [], _⟩ => by
    rw [unstack]
    exact .error rfl
  | ⟨nodes, count :: _, _⟩ => by
    rw [unstack]
    exact (external_unstackNodes count nodes).bind fun _ => .ok _

theorem external_unstackNodes (count : Nat) : ∀ nodes, External (unstackNodes count nodes)
  | [] => by
    rw [unstackNodes]
    exact .ok _
  | (path, l) :: rest => by
    rw [unstackNodes]
    exact (external_unstackLocal count path l).bind fun _ =>
      (external_unstackNodes count rest).bind fun _ => .ok _

theorem external_unstackLocal (count : Nat) (path : String) :
    ∀ l, External (unstackLocal count path l)
  | [] => by
    rw [unstackLocal]
    exact .ok _
  | (name, v) :: rest => by
    rw [unstackLocal]
    refine (external_unstackValue v).bind fun parts => ?_
    split
    · exact .error rfl
    · exact (external_unstackLocal count path rest).bind fun _ => .ok _

end

/-- Taking a state apart once for every batch dimension breaks no expectation. -/
theorem external_unstackTimes : ∀ (n : Nat) (lanes : List State), External (unstackTimes n lanes)
  | 0, _ => .ok _
  | n + 1, lanes =>
    (External.mapM external_unstack lanes).bind fun parts => external_unstackTimes n parts.flatten

theorem external_flatten (s : State) : External s.flatten := external_unstackTimes _ _

/-- States that do not go together are refused with what differs. -/
theorem external_checkStackable (dims : List Nat) (paths : List String)
    (placement : List (String × Directive)) :
    ∀ index states, External (checkStackable dims paths placement index states)
  | _, [] => .ok _
  | index, s :: rest => by
    rw [checkStackable]
    split
    · exact .error rfl
    split
    · exact .error rfl
    split
    · exact .error rfl
    · exact external_checkStackable dims paths placement (index + 1) rest

theorem external_column (qualified name : String) (others : List LocalState) :
    External (column qualified name others) := by
  refine .mapM (fun l => ?_) others
  split
  · exact .ok _
  · exact .error rfl

theorem external_tensorColumn (qualified : String) (shape : List Nat) (values : List Value) :
    External (tensorColumn qualified shape values) := by
  refine .mapM (fun v => ?_) values
  cases v with
  | tensor t =>
    dsimp only
    split
    · exact .ok _
    · exact .error rfl
  | state s => exact .error rfl

theorem external_stateColumn (qualified : String) (values : List Value) :
    External (stateColumn qualified values) := by
  refine .mapM (fun v => ?_) values
  cases v with
  | tensor t => exact .error rfl
  | state s => exact .ok _

mutual

/-- Values are stacked, or refused, at any depth of nested states. -/
theorem external_stackValue (qualified : String) :
    ∀ (v : Value) (others : List Value), External (stackValue qualified v others)
  | .tensor head, others => by
    rw [stackValue]
    exact (external_tensorColumn _ _ _).bind fun _ =>
      (Tensor.external_stackNamed _ _).bind fun _ => .ok _
  | .state head, others => by
    rw [stackValue]
    exact (external_stateColumn _ _).bind fun states =>
      (external_stackOnto head states).bind fun _ => .ok _

theorem external_stackOnto : ∀ (s : State) (others : List State), External (stackOnto s others)
  | ⟨nodes, dims, placement⟩, others => by
    rw [stackOnto]
    exact (external_checkStackable _ _ _ _ _).bind fun _ =>
      (external_stackNodes nodes others).bind fun _ =>
        (external_placementOutward placement).bind fun _ => .ok _

theorem external_stackNodes : ∀ (nodes : List (String × List (String × Value)))
    (others : List State), External (stackNodes nodes others)
  | [], _ => by
    rw [stackNodes]
    exact .ok _
  | (path, l) :: rest, others => by
    rw [stackNodes]
    refine (external_stackLocal path l _).bind fun stacked => ?_
    split
    · exact .error rfl
    · exact (external_stackNodes rest others).bind fun _ => .ok _

theorem external_stackLocal (path : String) : ∀ (l : List (String × Value))
    (others : List LocalState), External (stackLocal path l others)
  | [], _ => by
    rw [stackLocal]
    exact .ok _
  | (name, v) :: rest, others => by
    rw [stackLocal]
    exact (external_column _ _ _).bind fun values =>
      (external_stackValue _ v values).bind fun _ =>
        (external_stackLocal path rest others).bind fun _ => .ok _

end

/-- States are stacked, or refused with what keeps them apart. -/
theorem external_stack : ∀ states : List State, External (stack states)
  | [] => .error rfl
  | first :: rest => external_stackOnto first rest

theorem external_checkLanes (dims : List Nat) (lanes : List State) :
    External (checkLanes dims lanes) := by
  refine (external_wordVolume dims).bind fun n => ?_
  split
  · exact .error rfl
  split
  · exact .error rfl
  · exact .ok _

/-- Lanes are put together, or refused, for every list of batch dimensions. -/
theorem external_unflatten : ∀ (dims : List Nat) (lanes : List State),
    External (unflatten dims lanes)
  | [], lanes => (external_checkLanes [] lanes).bind fun _ => .ok _
  | count :: inner, lanes =>
    (external_checkLanes (count :: inner) lanes).bind fun _ =>
      (external_wordVolume inner).bind fun _ =>
        (External.mapM (external_unflatten inner) _).bind external_stack

/-- The placement of a leaf breaks no expectation, whatever is asked for it. -/
theorem external_placeLeaf (spec : PlacementSpec) (batchRank : Nat) (qualified : String)
    (t : Tensor) : External (placeLeaf spec batchRank qualified t) := by
  refine (spec.external_directiveFor qualified batchRank).bind fun directive => ?_
  split
  · exact .ok _
  · split
    · exact .error rfl
    · refine External.bind ?_ fun _ => .ok _
      rw [Directive.slices]
      split
      · exact .error rfl
      split
      · exact .error rfl
      · exact .ok _

theorem external_placeLeaves (spec : PlacementSpec) (batchRank : Nat) :
    ∀ leaves placement, External (placeLeaves spec batchRank leaves placement)
  | [], _ => .ok _
  | (qualified, t) :: rest, _ =>
    (external_placeLeaf spec batchRank qualified t).bind fun _ =>
      external_placeLeaves spec batchRank rest _

/-- No request of a placement is met with an internal error. -/
theorem external_shard (s : State) (spec : PlacementSpec) : External (s.shard spec) := by
  rw [shard]
  split
  · exact .ok _
  · refine External.bind (.forM (fun e => ?_) spec.splitAxes) fun _ =>
      (external_placeLeaves _ _ _ _).bind fun _ => .ok _
    exact (s.external_leaf e.1).bind fun _ => .ok _

end State

/-! ## Around the stages of a step -/

namespace Workflow

variable {w : Workflow}

/-- A state that lacks what the workflow needs is refused as not initialised. -/
theorem external_ensureReady (s : State) : External (w.ensureReady s) := by
  rw [ensureReady]
  split
  · exact .error rfl
  split
  · exact .error rfl
  · exact .ok _

/-- What a step reads to start a lane is there, or reported as missing. -/
theorem external_laneOf (s : State) : External (laneOf s) :=
  (s.external_resolve _).bind fun root => (root.external_tensor _).bind fun t =>
    (Random.Key.external_ofTensor t).bind fun _ => (root.external_number _).bind fun _ => .ok _

/-- The placement that a step begins with breaks no expectation. -/
theorem external_place (s : State) : External (w.place s) := by
  rw [place]
  split
  · exact s.external_shard _
  · exact .ok _

/-- A lane that moves on to its next generation breaks no expectation. -/
theorem external_advance (lane : Lane) : External (advance lane) :=
  (lane.state.external_resolve _).bind fun _ => (external_wordOf _).bind fun _ =>
    lane.state.external_update _ _

end Workflow

end Lockstep
