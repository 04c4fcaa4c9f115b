import Lockstep.Text.Names
import Lockstep.Decimal.Layout

/-!
# Errors

Every way in which an operation can fail, as a cause with its data. The wording of a cause stands in
the `message` of its type; `Error.message` puts the area of the failure in front.
-/

namespace Lockstep

open Text

/-- Why states do not combine into one batch. -/
inductive StackConflict where
  | batchDims (index : Nat) (actual expected : List Nat)
  | paths (index : Nat) (actual expected : List String)
  | placement (index : Nat)
  | missingAttribute (leaf : String)
  | tensorMeetsState (leaf : String)
  | stateMeetsTensor (leaf : String)
  | attributeNames (node : String)
  | laneCount (lanes : Nat) (dims : List Nat)
  | selection (onTrue onFalse : List Nat)
deriving DecidableEq

def StackConflict.message : StackConflict → String
  | .batchDims i actual expected =>
    s!"state {i} has batch dims {axes actual}, expected {axes expected}"
  | .paths i actual expected =>
    s!"state {i} has paths {nameSet actual}, expected {nameSet expected}"
  | .placement i => s!"state {i} has a different placement"
  | .missingAttribute leaf => s!"attribute {leaf} missing in some states"
  | .tensorMeetsState leaf => s!"{leaf} mixes tensor and state values"
  | .stateMeetsTensor leaf => s!"{leaf} mixes state and tensor values"
  | .attributeNames node => s!"node {node} has differing attribute names"
  | .laneCount lanes dims => s!"{lanes} lanes cannot fill batch dims {axes dims}"
  | .selection onTrue onFalse =>
    s!"cannot select between batch dims {axes onTrue} and {axes onFalse}"

/-- Why a leaf cannot be divided among devices. -/
inductive PlacementFault where
  | axisOutOfRange (axis rank : Nat)
  | noDevices
  | uneven (length devices : Nat)
deriving DecidableEq

def PlacementFault.message : PlacementFault → String
  | .axisOutOfRange axis rank => s!"axis {axis} out of range for rank {rank}"
  | .noDevices => "split over an empty device list"
  | .uneven length devices => s!"axis length {length} is not divisible by {devices} devices"

/-- What a name that was refused would have named. -/
inductive NameRole where
  | attribute
  | child
deriving DecidableEq

def NameRole.message : NameRole → String
  | .attribute => "attribute names must be non-empty and contain no '.'"
  | .child => "child names must be non-empty and contain no '.'"

/-- The two kinds of attribute values. -/
inductive ValueKind where
  | tensor
  | nestedState
deriving DecidableEq

def ValueKind.name : ValueKind → String
  | .tensor => "tensor"
  | .nestedState => "nested state"

/-- Failures in the shape of a module tree, a state or a tensor. -/
inductive StructureError where
  | pathNotFound (path : String)
  | attributeNotFound (path name : String)
  | missingAttribute (name : String)
  | duplicateChild (parent name : String)
  | duplicateAttribute (name : String)
  | invalidName (name : String) (role : NameRole)
  | schemaMismatch (path : String) (missing unexpected : List String)
  | stackMismatch (conflict : StackConflict)
  | emptyStack
  | notBatched
  | shapeMismatch (context : String) (expected actual : List Nat)
  | valueKind (name : String) (expected : ValueKind)
  | invalidPlacement (path : String) (fault : PlacementFault)
deriving DecidableEq

def StructureError.message : StructureError → String
  | .pathNotFound path => s!"Path not found in state: {path}"
  | .attributeNotFound path name => s!"Attribute {name} not found at {path}"
  | .missingAttribute name => s!"Local state has no attribute named {name}"
  | .duplicateChild parent name => s!"Duplicate child name {name} under {parent}"
  | .duplicateAttribute name => s!"Duplicate attribute {name} in schema"
  | .invalidName name role => s!"Invalid node name {quoted name}: {role.message}"
  | .schemaMismatch path missing unexpected =>
    s!"State at {path} does not match its schema (missing: {names missing}, " ++
      s!"unexpected: {names unexpected})"
  | .stackMismatch conflict => s!"Cannot stack states: {conflict.message}"
  | .emptyStack => "Cannot stack an empty list of states"
  | .notBatched => "State has no batch dimension to unstack"
  | .shapeMismatch context expected actual =>
    s!"Shape mismatch for {context}: expected {axes expected}, got {axes actual}"
  | .valueKind name expected => s!"Value {name} is not a {expected.name}"
  | .invalidPlacement path fault => s!"Invalid placement for {path}: {fault.message}"

/-- The two forms of a candidate batch. -/
inductive CandidateKind where
  | dense
  | named
deriving DecidableEq

def CandidateKind.name : CandidateKind → String
  | .dense => "dense"
  | .named => "named"

/-- Why a candidate batch is refused. -/
inductive InputFault where
  | denseRank
  | fieldRank (field : String)
  | fieldSizes (first other : Nat)
  | notMatrix (shape : List Nat)
  | width (expected : Nat) (shape : List Nat)
  | unexpectedField (field : String)
  | missingField (field : String)
  | fieldShape (field : String) (actual expected : List Nat)
  | kind (expected actual : CandidateKind)
  | batchSizeChanged (before after : Nat)
  | missingParameter (path : String)
deriving DecidableEq

def InputFault.message : InputFault → String
  | .denseRank => "dense candidates need a leading batch axis"
  | .fieldRank field => s!"candidate field {field} has no batch axis"
  | .fieldSizes first other =>
    s!"candidate fields disagree on batch size ({first} vs {other})"
  | .notMatrix shape => s!"expected a (n, dim) batch, got shape {axes shape}"
  | .width expected shape => s!"expected candidates of width {expected}, got shape {axes shape}"
  | .unexpectedField field => s!"unexpected candidate field {field}"
  | .missingField field => s!"missing candidate field {field}"
  | .fieldShape field actual expected =>
    s!"field {field} has shape {axes actual}, expected (n, {axes expected})"
  | .kind expected actual => s!"expected {expected.name} candidates, got {actual.name}"
  | .batchSizeChanged before after =>
    s!"solution transform changed batch size from {before} to {after}"
  | .missingParameter path => s!"missing parameter {path}"

/-- Failures of the step protocol. -/
inductive WorkflowError where
  | notInitialized (path : String)
  | inputMismatch (fault : InputFault)
  | fitnessShape (candidates : Nat) (actual : List Nat)
  | candidateKind (expected actual : CandidateKind)
  | component (path message : String)
  | missingMonitor (name : String)
  | noMetric (path : String)
deriving DecidableEq

def WorkflowError.message : WorkflowError → String
  | .notInitialized path => s!"Workflow not initialized: {path}"
  | .inputMismatch fault =>
    s!"Candidate batch rejected by problem input contract: {fault.message}"
  | .fitnessShape candidates actual =>
    s!"Fitness shape {axes actual} does not match candidate batch of {candidates}"
  | .candidateKind expected actual => s!"Expected {expected.name} candidates, got {actual.name}"
  | .component path message => s!"Component at {path} failed: {message}"
  | .missingMonitor name => s!"No monitor named {name}"
  | .noMetric path => s!"Monitor at {path} does not expose a metric"

/-- Why the tuning of a workflow cannot be set up. -/
inductive TuningFault where
  | iterations
  | instances
  | batchedState
  | noMetric (workflow : String)
deriving DecidableEq

def TuningFault.message : TuningFault → String
  | .iterations => "iterations must be positive"
  | .instances => "num_instances must be positive"
  | .batchedState => "initial state must not carry a batch dimension"
  | .noMetric workflow => s!"workflow {workflow} has no monitor exposing a metric"

/-- Failures around hyper-parameters. -/
inductive HpoError where
  | instanceCount (path : String) (expected actual : Nat)
  | unknownParameter (path : String)
  | parameterShape (path : String) (expected actual : List Nat)
  | invalidConfig (fault : TuningFault)
  | workflowNotReady
deriving DecidableEq

def HpoError.message : HpoError → String
  | .instanceCount path expected actual =>
    s!"Parameter {path} has leading dimension {actual}, expected {expected} instances"
  | .unknownParameter path => s!"Unknown hyper-parameter path: {path}"
  | .parameterShape path expected actual =>
    s!"Hyper-parameter {path} has shape {axes actual}, expected {axes expected}"
  | .invalidConfig fault => s!"Invalid HPO configuration: {fault.message}"
  | .workflowNotReady => "Inner workflow must be initialized before wrapping"

/-- Why a configuration is refused. -/
inductive ConfigFault where
  | blankName
  | emptyMesh (workflow : String)
  | placement (workflow : String)
  | noTrials (run : String)
deriving DecidableEq

def ConfigFault.message : ConfigFault → String
  | .blankName => "workflow name must not be empty"
  | .emptyMesh workflow => s!"device mesh for {workflow} has no devices"
  | .placement workflow => s!"cannot place {workflow} on an empty device mesh"
  | .noTrials run => s!"tuning run {run} needs max_trials > 0"

/-- Why data do not fill a shape. -/
inductive ShapeFault where
  | tooFew
  | tooMany
  | overflow
deriving DecidableEq

def ShapeFault.message : ShapeFault → String
  | .tooFew => "ShapeError/OutOfBounds: out of bounds indexing"
  | .tooMany => "ShapeError/IncompatibleShape: incompatible shapes"
  | .overflow => "ShapeError/Overflow: arithmetic overflow"

/-- Values that are refused. -/
inductive ValidationFault where
  | keyHalf (value : Float)
  | boundCount (lower upper : Nat)
  | boundOrder (lower upper : Float) (index : Nat)
  | populationSize
  | emptyFront
  | nonFiniteFront
  | emptySpace
  | range (path description : String)
  | noInstanceAxis (path : String)
  | noDefault (path : String)
  | custom (text : String)
deriving DecidableEq

def ValidationFault.message : ValidationFault → String
  | .keyHalf value => s!"rng key half {Decimal.plain.write value} is not a 32-bit integer"
  | .boundCount lower upper =>
    s!"bounds must be non-empty and equally long (lb: {lower}, ub: {upper})"
  | .boundOrder lower upper index =>
    s!"lower bound {Decimal.plain.write lower} must be below upper bound " ++
      s!"{Decimal.plain.write upper} at index {index}"
  | .populationSize => "population size must be positive"
  | .emptyFront => "reference front must be non-empty"
  | .nonFiniteFront => "reference front must be finite"
  | .emptySpace => "search space is empty"
  | .range path description => s!"invalid range for {path}: {description}"
  | .noInstanceAxis path => s!"parameter {path} has no instance axis"
  | .noDefault path => s!"parameter {path} has no default value"
  | .custom text => text

/-- Broken expectations inside the library. -/
inductive InternalFault where
  | nodeCount (tree definition : Nat)
  | custom (text : String)
deriving DecidableEq

def InternalFault.message : InternalFault → String
  | .nodeCount tree definition =>
    s!"module tree has {tree} nodes but definition yields {definition}"
  | .custom text => text

/-- Situations that no caller may bring about: the operation gives no answer at all. -/
inductive Abort where
  | scalarFitness
  | emptyHistory
  | arrayShapes
  | emptyRange
  | unboundedRange
  | emptyChoice
  | countOverflow
  | arraySize
  | tooManySettings
  | missingRow
deriving DecidableEq

def Abort.message : Abort → String
  | .scalarFitness => "fitness without a candidate axis"
  | .emptyHistory => "history without entries"
  | .arrayShapes => "arrays of incompatible shapes"
  | .emptyRange => "range without members"
  | .unboundedRange => "range without finite length"
  | .emptyChoice => "choice without members"
  | .countOverflow => "count beyond 64 bits"
  | .arraySize => "array beyond the size limit"
  | .tooManySettings => "more settings than instances"
  | .missingRow => "metric without a row for a setting"

/-- All failures. -/
inductive Error where
  | structural (e : StructureError)
  | workflow (e : WorkflowError)
  | hpo (e : HpoError)
  | config (e : ConfigFault)
  | shape (e : ShapeFault)
  | internal (e : InternalFault)
  | validation (e : ValidationFault)
  | serialization
  | unreadable
  | abort (e : Abort)
deriving DecidableEq

def Error.message : Error → String
  | .structural e => "Structure error: " ++ e.message
  | .workflow e => "Workflow error: " ++ e.message
  | .hpo e => "HPO error: " ++ e.message
  | .config e => "Configuration error: " ++ e.message
  | .shape e => "Array shape error: " ++ e.message
  | .internal e => "Internal error: " ++ e.message
  | .validation e => "Validation error: " ++ e.message
  | .serialization => "Serialization error"
  | .unreadable => "IO error"
  | .abort e => e.message

/-- The outcome of an operation that can fail. -/
abbrev Outcome (α : Type) := Except Error α

/-- The failure to refuse a candidate batch. -/
def InputFault.fail {α : Type} (fault : InputFault) : Outcome α :=
  .error (.workflow (.inputMismatch fault))

/-- The failure of a tensor or a list that has another shape than the context needs. -/
def shapeMismatch {α : Type} (context : String) (expected actual : List Nat) : Outcome α :=
  .error (.structural (.shapeMismatch context expected actual))

/-! ## Counts in words -/

/-- A count as a word of 64 bits. A count that does not fit ends the operation: counting never wraps
around. -/
def wordOf (n : Nat) : Outcome UInt64 :=
  if n < UInt64.size then .ok (.ofNat n) else .error (.abort .countOverflow)

theorem wordOf_eq_ok_iff {n : Nat} {w : UInt64} : wordOf n = .ok w ↔ w.toNat = n := by
  unfold wordOf
  split
  · next h =>
    rw [Except.ok.injEq]
    constructor
    · rintro rfl
      exact UInt64.toNat_ofNat_of_lt' h
    · rintro rfl
      exact UInt64.ofNat_toNat
  · next h => exact ⟨nofun, fun hw => absurd (hw ▸ w.toNat_lt) h⟩

theorem wordOf_eq_ok {n : Nat} (h : n < UInt64.size) : wordOf n = .ok (.ofNat n) := if_pos h

end Lockstep
