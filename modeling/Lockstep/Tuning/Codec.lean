import Lockstep.Component.Roles
import Lockstep.Tensor.Matrix

/-!
# Parameters as columns

A codec lays the parameters of every instance out in one row: parameter after parameter in the order
of their leaves, each in row-major order. So an algorithm on vectors can drive a problem that takes
named parameters.

Rows may lie in memory column by column instead. A parameter that is cut out of them is then read in
that order, so that the entries of a parameter with two axes or more come out in another order.
-/

namespace Lockstep

/-- Values of parameters by leaf, each with a leading axis of instances. -/
abbrev ParameterBatch := Table Tensor

/-- The shapes of the parameters of one instance, by leaf. -/
structure ParameterCodec where
  shapes : Table (List Nat)

/-- How the numbers of rows lie in memory: one row after another, or one column after another. -/
inductive Layout where
  | rowMajor
  | columnMajor
deriving DecidableEq

/-- The place of a parameter in a row. -/
structure ParameterField where
  path : String
  /-- the shape of the parameter of one instance -/
  shape : List Nat
  /-- the first column -/
  offset : Nat

namespace ParameterField

/-- The count of columns. -/
def size (f : ParameterField) : Nat := volume f.shape

/-- The count of columns of some parameters. -/
def widthOf : List ParameterField → Nat
  | [] => 0
  | f :: rest => f.size + widthOf rest

/-- What a row holds in the columns of the parameter. -/
def cut (f : ParameterField) (row : List Float) : List Float := (row.drop f.offset).take f.size

/-- A row with other numbers in the columns of the parameter. -/
def put (f : ParameterField) (row part : List Float) : List Float :=
  row.take f.offset ++ part ++ row.drop (f.offset + f.size)

theorem length_cut {f : ParameterField} {row : List Float} (h : f.offset + f.size ≤ row.length) :
    (f.cut row).length = f.size := by
  rw [cut, List.length_take, List.length_drop]
  omega

theorem length_put {f : ParameterField} {row part : List Float}
    (h : f.offset + f.size ≤ row.length) (hpart : part.length = f.size) :
    (f.put row part).length = row.length := by
  rw [put, List.length_append, List.length_append, List.length_take, List.length_drop, hpart]
  omega

/-- The columns of the parameter in every row. -/
def read (f : ParameterField) (m : Matrix) : Outcome Matrix :=
  if h : f.offset + f.size ≤ m.cols then
    .ok ⟨f.size, m.rows.map f.cut, fun r hr => by
      obtain ⟨s, hs, rfl⟩ := List.mem_map.1 hr
      exact length_cut (by rwa [m.full s hs])⟩
  else .error (.abort .arrayShapes)

/-- Every row with a row of the block in the columns of the parameter. -/
def write (f : ParameterField) (block m : Matrix) : Outcome Matrix :=
  if h : (f.offset + f.size ≤ m.cols ∧ block.cols = f.size) ∧
      block.rows.length = m.rows.length then
    .ok ⟨m.cols, List.zipWith f.put m.rows block.rows, fun r hr => by
      rw [← List.map_uncurry_zip_eq_zipWith] at hr
      obtain ⟨⟨row, part⟩, hmem, rfl⟩ := List.mem_map.1 hr
      have hrow := m.full row (List.of_mem_zip hmem).1
      have hpart := block.full part (List.of_mem_zip hmem).2
      exact (length_put (by rw [hrow]; exact h.1.1) (hpart.trans h.1.2)).trans hrow⟩
  else .error (.abort .arrayShapes)

end ParameterField

namespace Matrix

/-- Rows of zeros. -/
def zeros (rows cols : Nat) : Matrix :=
  .ofData rows cols (List.replicate (rows * cols) 0) List.length_replicate

/-- So many numbers of a row, from one place on and each a step after the one before. -/
def strided (row : List Float) (start step : Nat) (count : Nat) : List Float :=
  (List.range count).map fun k => row.getD (start + step * k) 0

/-- The numbers of a shape in row-major order, given with the first axis running fastest. -/
def fromColumnMajor : (shape : List Nat) → List Float → List Float
  | [], row => strided row 0 1 1
  | n :: shape, row =>
    (List.range n).flatMap fun j => fromColumnMajor shape (strided row j n (volume shape))

theorem length_fromColumnMajor :
    ∀ (shape : List Nat) (row : List Float), (fromColumnMajor shape row).length = volume shape
  | [], row => by simp [fromColumnMajor, strided]
  | n :: shape, row => by
    rw [fromColumnMajor, List.length_flatMap, volume_cons]
    simp only [length_fromColumnMajor shape]
    rw [List.map_const', List.length_range, List.sum_replicate_nat]

/-- A row of a matrix with `count` rows in the order in which a shape takes it up. A single row lies
in memory in the same way under both layouts. -/
def reorder (layout : Layout) (count : Nat) (shape : List Nat) (row : List Float) : List Float :=
  if layout = .columnMajor ∧ 1 < count then fromColumnMajor shape row else row

theorem length_reorder {layout : Layout} {count : Nat} {shape : List Nat} {row : List Float}
    (h : row.length = volume shape) : (reorder layout count shape row).length = volume shape := by
  unfold reorder
  split
  · exact length_fromColumnMajor shape row
  · exact h

/-- Every row in a shape of its size. -/
def shapeRows (layout : Layout) (m : Matrix) (shape : List Nat) (h : m.cols = volume shape) :
    Tensor :=
  ⟨m.rows.length :: shape, (m.rows.map (reorder layout m.rows.length shape)).flatten, by
    have hfull : ∀ r ∈ m.rows.map (reorder layout m.rows.length shape),
      r.length = volume shape := by
      intro r hr
      obtain ⟨row, hrow, rfl⟩ := List.mem_map.1 hr
      exact length_reorder ((m.full row hrow).trans h)
    rw [length_flatten hfull, List.length_map, volume_cons]⟩

end Matrix

namespace ParameterCodec

/-- The count of columns for parameters of the given shapes, after so many columns. -/
def countColumns (before : UInt64) (shapes : List (String × List Nat)) : Outcome UInt64 :=
  shapes.foldlM (fun columns e => do wordOf (columns.toNat + (← wordVolume e.2).toNat)) before

/-- The codec for parameters of the given shapes. Its columns are counted. -/
def new (shapes : Table (List Nat)) : Outcome ParameterCodec := do
  let _ ← countColumns 0 shapes
  return ⟨shapes⟩

/-- The codec for the parameters in a batch. -/
def ofBatch (batch : ParameterBatch) : Outcome ParameterCodec := do
  let shapes ← batch.mapM fun (path, t) => match t.shape with
    | [] => shapeMismatch path [0] []
    | _ :: shape => .ok (path, shape)
  new shapes

/-- Parameters of the given shapes side by side, from a column on. -/
def fieldsFrom (offset : Nat) : List (String × List Nat) → List ParameterField
  | [] => []
  | (path, shape) :: rest => ⟨path, shape, offset⟩ :: fieldsFrom (offset + volume shape) rest

/-- The places of the parameters, in the order of their columns. -/
def fields (c : ParameterCodec) : List ParameterField := fieldsFrom 0 c.shapes

/-- The count of columns. -/
def dim (c : ParameterCodec) : Nat := ParameterField.widthOf c.fields

/-- The leaves, in the order of their columns. -/
def paths (c : ParameterCodec) : List String := c.fields.map ParameterField.path

/-- The value of a parameter and its count of instances. -/
def lookup (batch : ParameterBatch) (path : String) : Outcome (Tensor × Nat) :=
  match Table.get? path batch with
  | none => InputFault.fail (.missingParameter path)
  | some t => match t.shape with
    | [] => .error (.validation (.noInstanceAxis path))
    | n :: _ => .ok (t, n)

/-- The values of a parameter, a row for every instance. -/
def block (batch : ParameterBatch) (instances : Nat) (f : ParameterField) : Outcome Matrix := do
  let (t, _) ← lookup batch f.path
  if h : t.shape = instances :: f.shape then
    return .ofData instances f.size t.data (by rw [t.fills, h, volume_cons]; rfl)
  else shapeMismatch f.path (instances :: f.shape) t.shape

/-- The count of instances, read off the first parameter. -/
def instanceCount (c : ParameterCodec) (batch : ParameterBatch) : Outcome Nat :=
  match c.fields with
  | [] => .ok 0
  | f :: _ => Prod.snd <$> lookup batch f.path

/-- The parameters of every instance as rows. -/
def encode (c : ParameterCodec) (batch : ParameterBatch) : Outcome Tensor := do
  let instances ← c.instanceCount batch
  if Tensor.IsArrayShape [instances, c.dim] then
    let blocks ← c.fields.mapM (block batch instances)
    let dense ← (c.fields.zip blocks).foldlM (fun m e => e.1.write e.2 m) (.zeros instances c.dim)
    return dense.toTensor
  else .error (.abort .arraySize)

/-- The values of a parameter for all instances from rows in a layout. -/
def decodeField (layout : Layout) (m : Matrix) (f : ParameterField) :
    Outcome (String × Tensor) := do
  let block ← f.read m
  if h : block.cols = volume f.shape ∧ Tensor.IsArrayShape (block.rows.length :: f.shape) then
    return (f.path, block.shapeRows layout f.shape h.1)
  else .error (.shape .tooMany)

/-- The parameters of every instance from rows in a layout. -/
def decode (c : ParameterCodec) (layout : Layout) (t : Tensor) : Outcome ParameterBatch := do
  let m ← t.asMatrix "encoded parameters"
  if m.cols = c.dim then c.fields.mapM (decodeField layout m)
  else shapeMismatch "encoded parameters" [m.rows.length, c.dim] [m.rows.length, m.cols]

/-- The codec as a transform of candidates, whose rows lie one after another. -/
def transform (c : ParameterCodec) : SolutionTransform := fun candidates => do
  return .named (← c.decode .rowMajor (← candidates.asDense))

end ParameterCodec

end Lockstep
