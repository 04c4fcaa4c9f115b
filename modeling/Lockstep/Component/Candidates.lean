import Lockstep.Table
import Lockstep.Tensor.Basic

/-!
# Candidate batches

A batch of candidates is one tensor, or named tensors that share their leading axis. An `InputSpec`
says which batches a problem takes, and `InputSpec.check` refuses all others with the first fault.
-/

namespace Lockstep

/-- A batch of candidate solutions; axis 0 counts the candidates. -/
inductive Candidates where
  | dense (t : Tensor)
  | named (fields : Table Tensor)

namespace Candidates

def kind : Candidates → CandidateKind
  | .dense _ => .dense
  | .named _ => .named

/-- The leading axis of a field. -/
def fieldSize (field : String × Tensor) : Outcome Nat :=
  match field.2.shape with
  | [] => InputFault.fail (.fieldRank field.1)
  | n :: _ => .ok n

/-- All fields have a leading axis of the given length. -/
def checkSizes (first : Nat) : List (String × Tensor) → Outcome Unit
  | [] => .ok ()
  | field :: rest => do
    let n ← fieldSize field
    if n ≠ first then InputFault.fail (.fieldSizes first n) else checkSizes first rest

/-- The count of candidates; a batch without fields has none. -/
def size : Candidates → Outcome Nat
  | .dense t => match t.shape with
    | [] => InputFault.fail .denseRank
    | n :: _ => .ok n
  | .named [] => .ok 0
  | .named (field :: rest) => do
    let n ← fieldSize field
    checkSizes n rest
    return n

/-- There are no candidates. -/
def isEmpty (c : Candidates) : Outcome Bool := do return (← c.size) = 0

/-- The tensor of a dense batch. -/
def asDense : Candidates → Outcome Tensor
  | .dense t => .ok t
  | .named _ => .error (.workflow (.candidateKind .dense .named))

/-- The fields of a named batch. -/
def asNamed : Candidates → Outcome (Table Tensor)
  | .named fields => .ok fields
  | .dense _ => .error (.workflow (.candidateKind .named .dense))

end Candidates

/-- What a problem takes as input. -/
inductive InputSpec where
  | any
  /-- a matrix with one row for each candidate, of the given width if there is one -/
  | dense (width : Option Nat)
  /-- exactly these fields, with the given shape for each candidate -/
  | named (shapes : Table (List Nat))
deriving DecidableEq

namespace InputSpec

/-- No field is in the batch that the spec does not name. -/
def checkExpected (shapes : Table (List Nat)) : List (String × Tensor) → Outcome Unit
  | [] => .ok ()
  | (name, _) :: rest =>
    if shapes.contains name then checkExpected shapes rest
    else InputFault.fail (.unexpectedField name)

/-- Every field of the spec is in the batch with its shape. -/
def checkShapes (fields : Table Tensor) : List (String × List Nat) → Outcome Unit
  | [] => .ok ()
  | (name, shape) :: rest =>
    match fields.get? name with
    | none => InputFault.fail (.missingField name)
    | some t =>
      if t.shape.isEmpty || t.shape.tail ≠ shape then
        InputFault.fail (.fieldShape name t.shape shape)
      else checkShapes fields rest

/-- The batch is one that the problem takes. -/
def check : InputSpec → Candidates → Outcome Unit
  | .any, _ => .ok ()
  | .dense width, .dense t =>
    match t.shape with
    | [_, cols] => match width with
      | some w => if cols = w then .ok () else InputFault.fail (.width w t.shape)
      | none => .ok ()
    | _ => InputFault.fail (.notMatrix t.shape)
  | .named shapes, .named fields => do
    checkExpected shapes fields
    checkShapes fields shapes
    let _ ← (Candidates.named fields).size
  | .dense _, c => InputFault.fail (.kind .dense c.kind)
  | .named _, c => InputFault.fail (.kind .named c.kind)

end InputSpec

end Lockstep
