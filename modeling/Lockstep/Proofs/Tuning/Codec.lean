import Lockstep.Proofs.State.Stack
import Lockstep.Proofs.Table
import Lockstep.Proofs.Tensor.Matrix
import Lockstep.Tuning.Codec

/-!
# Encoding and decoding of parameters

The columns of a codec follow each other without a gap (`Consecutive`), so writing one parameter
leaves the columns of the others alone (`ParameterField.gives_write`), and a row is determined by
its parts (`Consecutive.flatMap_cut`). `encode_eq_ok_iff` and `decode_eq_ok_iff` say what encoding
and decoding find and when; that they undo each other (`encode_decode`) follows by comparing the
two. All this is about rows that lie one after another. What is cut out of rows that lie column by
column can come out in another order (`vast_shapes_are_refused`).
-/

namespace Lockstep

open Outcome (Gives)
open ParameterField (widthOf)

/-! ## Rows of tensors -/

namespace Tensor

variable {n : Nat} {inner : List Nat} {t u : Tensor}

/-- The rows of an array, one after another, are its numbers. -/
theorem flatten_map_data_rows (h : t.shape = n :: inner) : (t.rows.map data).flatten = t.data := by
  obtain ⟨shape, data, hfills⟩ := t
  subst h
  exact (List.flatMap_def ..).symm.trans flatMap_data_rowsOf

/-- The rows of an array are its numbers in pieces of one length. -/
theorem map_data_rows (h : t.shape = n :: inner) :
    t.rows.map data = pieces (volume inner) n t.data := by
  have hlength : ∀ row ∈ t.rows.map data, row.length = volume inner := by
    intro row hrow
    obtain ⟨r, hr, rfl⟩ := List.mem_map.1 hrow
    rw [r.fills, shape_mem_rows h r hr]
  have hcount : (t.rows.map data).length = n := (List.length_map _).trans (length_rows h)
  have hpieces := pieces_flatten_of_length hlength
  rw [hcount, flatten_map_data_rows h] at hpieces
  exact hpieces.symm

/-- A tensor is determined by its shape and the numbers in its rows. -/
theorem eq_of_map_data_rows (ht : t.shape = n :: inner) (hu : u.shape = n :: inner)
    (h : t.rows.map data = u.rows.map data) : t = u := by
  refine eq_iff_shape_data.2 ⟨ht.trans hu.symm, ?_⟩
  rw [← flatten_map_data_rows ht, h, flatten_map_data_rows hu]

/-- Rows in one shape with the same numbers are equal. -/
theorem row_eq_of_data {n' : Nat} {i : Nat} (ht : t.shape = n :: inner) (hu : u.shape = n' :: inner)
    (h : (t.rows[i]?).map data = (u.rows[i]?).map data) : t.rows[i]? = u.rows[i]? := by
  cases hr : t.rows[i]? with
  | none =>
    rw [hr] at h
    exact (Option.map_eq_none_iff.1 h.symm).symm
  | some r =>
    rw [hr] at h
    obtain ⟨r', hr', hdata⟩ := Option.map_eq_some_iff.1 h.symm
    have hshape := shape_mem_rows ht r (List.mem_of_getElem? hr)
    have hshape' := shape_mem_rows hu r' (List.mem_of_getElem? hr')
    rw [hr', eq_iff_shape_data.2 ⟨hshape.trans hshape'.symm, hdata.symm⟩]

/-- Only an array of two axes is taken for a matrix. -/
theorem asMatrix_eq_ok_iff {context : String} {m : Matrix} :
    t.asMatrix context = .ok m ↔ t = m.toTensor := by
  constructor
  · intro h
    unfold asMatrix at h
    split at h
    · next rows cols data hfill =>
      obtain rfl := Except.ok.inj h
      have hdata : data.length = rows * cols := by
        simpa [volume_cons, volume_nil] using hfill
      exact eq_iff_shape_data.2 ⟨(Matrix.hasSize_ofData hdata).shape_toTensor.symm,
        (flatten_pieces hdata).symm⟩
    · cases h
  · rintro rfl
    exact m.asMatrix_toTensor context

end Tensor

namespace Matrix

/-- A matrix and its array have the same rows. -/
theorem map_data_rows_toTensor (m : Matrix) : m.toTensor.rows.map Tensor.data = m.rows := by
  rw [Tensor.rows_of_asMatrix (m.asMatrix_toTensor ""), List.map_map]
  exact List.map_id _

/-- Rows that lie one after another keep their order in every shape. -/
theorem reorder_rowMajor (count : Nat) (shape : List Nat) (row : List Float) :
    reorder .rowMajor count shape row = row := if_neg fun h => nomatch h.1

/-- A row keeps its numbers in their order, whatever shape it is given. -/
theorem map_data_rows_shapeRows {m : Matrix} {shape : List Nat} (h : m.cols = volume shape) :
    (m.shapeRows .rowMajor shape h).rows.map Tensor.data = m.rows := by
  have hshape : (m.shapeRows .rowMajor shape h).shape = m.rows.length :: shape := rfl
  have hsame : m.rows.map (reorder .rowMajor m.rows.length shape) = m.rows := by
    rw [List.map_congr_left fun row _ => reorder_rowMajor _ _ row, List.map_id']
  have hdata : (m.shapeRows .rowMajor shape h).data = m.rows.flatten := congrArg List.flatten hsame
  rw [Tensor.map_data_rows hshape, hdata]
  exact pieces_flatten_of_length fun r hr => (m.full r hr).trans h

end Matrix

/-! ## Columns of a parameter -/

namespace ParameterField

variable {f g : ParameterField}

/-- The numbers of the columns of a parameter. -/
def columns (f : ParameterField) : List Nat := List.range' f.offset f.size

/-- The columns of two parameters lie apart. -/
def Apart (f g : ParameterField) : Prop :=
  f.offset + f.size ≤ g.offset ∨ g.offset + g.size ≤ f.offset

/-- What is put into the columns of a parameter stands there. -/
theorem cut_put {row part : List Float} (h : f.offset + f.size ≤ row.length)
    (hpart : part.length = f.size) : f.cut (f.put row part) = part := by
  have hfront : (row.take f.offset).length = f.offset := by
    rw [List.length_take]
    omega
  rw [cut, put, List.append_assoc, List.drop_left' hfront, List.take_left' hpart]

/-- What is put into the columns of a parameter leaves other columns alone. -/
theorem cut_put_of_apart {row part : List Float} (h : f.offset + f.size ≤ row.length)
    (hpart : part.length = f.size) (hapart : Apart f g) :
    g.cut (f.put row part) = g.cut row := by
  apply List.ext_getElem?
  intro i
  rw [cut, cut, List.getElem?_take, List.getElem?_take]
  split
  · next hi =>
    have hfront : (row.take f.offset).length = f.offset := by
      rw [List.length_take]
      omega
    rw [List.getElem?_drop, List.getElem?_drop, put]
    rcases hapart with hafter | hbefore
    -- behind the new part the row goes on with the same numbers, because the part has their count
    · have hlength : (row.take f.offset ++ part).length = f.offset + f.size := by
        rw [List.length_append, hfront, hpart]
      rw [List.getElem?_append_right (by omega), List.getElem?_drop, hlength]
      congr 1
      omega
    · rw [List.append_assoc, List.getElem?_append_left (by omega),
        List.getElem?_take_of_lt (by omega)]
  · rfl

variable {n d : Nat} {b m : Matrix}

/-- Writing a parameter changes its columns and no others. -/
theorem gives_write (hf : f.offset + f.size ≤ d) (hm : m.HasSize n d) (hb : b.HasSize n f.size) :
    Gives (fun r => r.HasSize n d ∧ r.rows.map f.cut = b.rows ∧
      ∀ g, Apart f g → r.rows.map g.cut = m.rows.map g.cut) (f.write b m) := by
  have hlength : b.rows.length = m.rows.length := hb.1.trans hm.1.symm
  have hrow : ∀ row ∈ m.rows, f.offset + f.size ≤ row.length := fun row h => by
    rwa [hm.length_row h]
  have hpart : ∀ part ∈ b.rows, part.length = f.size := fun part h => hb.length_row h
  rw [write, dif_pos ⟨⟨hm.2.symm ▸ hf, hb.2⟩, hlength⟩]
  refine .ok ⟨⟨?_, hm.2⟩, ?_, fun g hapart => ?_⟩
  · rw [List.length_zipWith, hlength, Nat.min_self, hm.1]
  · refine List.ext_getElem (by simp [hlength]) fun i hi hi' => ?_
    rw [List.getElem_map, List.getElem_zipWith]
    exact cut_put (hrow _ (List.getElem_mem _)) (hpart _ (List.getElem_mem _))
  · refine List.ext_getElem (by simp [hlength]) fun i hi hi' => ?_
    rw [List.getElem_map, List.getElem_zipWith, List.getElem_map]
    exact cut_put_of_apart (hrow _ (List.getElem_mem _)) (hpart _ (List.getElem_mem _)) hapart

/-- A field reads its columns of every row. -/
theorem read_eq (hf : f.offset + f.size ≤ m.cols) :
    ∃ r, f.read m = .ok r ∧ r.cols = f.size ∧ r.rows = m.rows.map f.cut :=
  ⟨_, dif_pos hf, rfl, rfl⟩

end ParameterField

/-! ## Parameters side by side -/

/-- The columns of the parameters begin at a column and follow each other without a gap. -/
def Consecutive : Nat → List ParameterField → Prop
  | _, [] => True
  | k, f :: rest => f.offset = k ∧ Consecutive (k + f.size) rest

namespace Consecutive

/-- Fields that follow one another lie between their first column and their last one. -/
theorem bounds {fields : List ParameterField} :
    ∀ {k : Nat}, Consecutive k fields → ∀ f ∈ fields,
      k ≤ f.offset ∧ f.offset + f.size ≤ k + widthOf fields := by
  induction fields with
  | nil => exact fun _ f hf => absurd hf List.not_mem_nil
  | cons f fields ih =>
    rintro k ⟨rfl, hrest⟩ g hg
    rw [widthOf]
    rcases List.mem_cons.1 hg with rfl | hg
    · omega
    · have hbounds := ih hrest g hg
      omega

/-- The columns are all numbers from the first column on, each once. -/
theorem flatMap_columns {fields : List ParameterField} :
    ∀ {k : Nat}, Consecutive k fields →
      fields.flatMap ParameterField.columns = List.range' k (widthOf fields) := by
  induction fields with
  | nil => exact fun _ => rfl
  | cons f fields ih =>
    rintro k ⟨rfl, hrest⟩
    rw [List.flatMap_cons, ih hrest, widthOf, ParameterField.columns, List.range'_append_1]

/-- A row is the parts that stand in the columns, one after another. -/
theorem flatMap_cut {fields : List ParameterField} {row : List Float} :
    ∀ {k : Nat}, Consecutive k fields → row.length = k + widthOf fields →
      fields.flatMap (fun f => f.cut row) = row.drop k := by
  induction fields with
  | nil =>
    intro k _ hlength
    exact (List.drop_of_length_le (le_of_eq hlength)).symm
  | cons f fields ih =>
    rintro k ⟨rfl, hrest⟩ hlength
    rw [widthOf, ← Nat.add_assoc] at hlength
    rw [List.flatMap_cons, ih hrest hlength, ParameterField.cut, ← List.drop_drop,
      List.take_append_drop]

/-- Matrices of one size with the same numbers in all columns are equal. -/
theorem matrix_ext {n : Nat} {fields : List ParameterField} {a b : Matrix}
    (h : Consecutive 0 fields) (ha : a.HasSize n (widthOf fields))
    (hb : b.HasSize n (widthOf fields))
    (hcut : ∀ f ∈ fields, a.rows.map f.cut = b.rows.map f.cut) : a = b := by
  have hjoined : ∀ m : Matrix, m.HasSize n (widthOf fields) → ∀ row ∈ m.rows,
      fields.flatMap (fun f => f.cut row) = row := fun m hm row hrow =>
    h.flatMap_cut (by rw [hm.length_row hrow, Nat.zero_add])
  have hrows : a.rows = b.rows := by
    refine List.ext_getElem (ha.1.trans hb.1.symm) fun i hi hi' => ?_
    rw [← hjoined a ha _ (List.getElem_mem hi), ← hjoined b hb _ (List.getElem_mem hi')]
    -- the two rows have the same parts
    refine List.flatMap_congr fun f hf => ?_
    have hget : (a.rows.map f.cut)[i]? = (b.rows.map f.cut)[i]? := by
      rw [hcut f hf]
    simpa [hi, hi'] using hget
  obtain ⟨acols, arows, afull⟩ := a
  obtain ⟨bcols, brows, bfull⟩ := b
  obtain rfl : arows = brows := hrows
  obtain rfl : acols = bcols := ha.2.trans hb.2.symm
  rfl

/-- Blocks that are written one after another all stand in the end, and the columns before them are
as they were. -/
theorem gives_write {n d : Nat} {fields : List ParameterField} :
    ∀ {k : Nat} {blocks : List Matrix} {m : Matrix}, Consecutive k fields →
      k + widthOf fields ≤ d → m.HasSize n d →
      List.Forall₂ (fun f b => Matrix.HasSize n f.size b) fields blocks →
      Gives (fun r => r.HasSize n d ∧
          List.Forall₂ (fun f b => r.rows.map f.cut = b.rows) fields blocks ∧
          ∀ g : ParameterField, g.offset + g.size ≤ k → r.rows.map g.cut = m.rows.map g.cut)
        ((fields.zip blocks).foldlM (fun m e => e.1.write e.2 m) m) := by
  induction fields with
  | nil =>
    intro k blocks m _ _ hm hblocks
    cases hblocks
    exact .ok ⟨hm, .nil, fun _ _ => rfl⟩
  | cons f fields ih =>
    rintro k blocks m ⟨rfl, hrest⟩ hd hm hblocks
    obtain _ | ⟨hb, hblocks⟩ := hblocks
    rw [widthOf] at hd
    rw [List.zip_cons_cons, List.foldlM_cons]
    refine (ParameterField.gives_write (by omega) hm hb).bind fun m₁ ⟨hm₁, hf, hframe⟩ => ?_
    refine (ih hrest (by omega) hm₁ hblocks).imp fun r ⟨hr, hlater, hbefore⟩ => ?_
    -- the columns of the first block lie before all later ones
    refine ⟨hr, .cons ((hbefore f le_rfl).trans hf) hlater, fun g hg => ?_⟩
    rw [hbefore g (by omega), hframe g (.inr hg)]

end Consecutive

namespace ParameterCodec

variable {c : ParameterCodec} {batch : ParameterBatch} {dense : Tensor}

/-- The fields of a codec follow one another without gaps. -/
theorem consecutive_fieldsFrom (shapes : List (String × List Nat)) :
    ∀ k : Nat, Consecutive k (fieldsFrom k shapes) := by
  induction shapes with
  | nil => exact fun _ => trivial
  | cons e shapes ih => exact fun k => ⟨rfl, ih (k + volume e.2)⟩

/-- They have the paths and the shapes that they were made for. -/
theorem map_fieldsFrom (shapes : List (String × List Nat)) :
    ∀ k : Nat, (fieldsFrom k shapes).map (fun f => (f.path, f.shape)) = shapes := by
  induction shapes with
  | nil => exact fun _ => rfl
  | cons e shapes ih => exact fun k => congrArg _ (ih (k + volume e.2))

theorem consecutive_fields (c : ParameterCodec) : Consecutive 0 c.fields :=
  consecutive_fieldsFrom c.shapes 0

theorem paths_eq (c : ParameterCodec) : c.paths = Table.keys c.shapes := by
  rw [paths, Table.keys, ← map_fieldsFrom c.shapes 0, List.map_map]
  rfl

/-- No field ends behind the last column. -/
theorem bound_of_mem_fields {f : ParameterField} (hf : f ∈ c.fields) :
    f.offset + f.size ≤ c.dim := by
  have hbounds := (c.consecutive_fields.bounds f hf).2
  rwa [Nat.zero_add] at hbounds

/-! ## When encoding and decoding succeed -/

/-- A parameter is found if the batch has it with an axis for the instances. -/
theorem lookup_eq_ok_iff {path : String} {r : Tensor × Nat} :
    lookup batch path = .ok r ↔
      Table.get? path batch = some r.1 ∧ ∃ inner, r.1.shape = r.2 :: inner := by
  rw [lookup]
  cases hget : Table.get? path batch with
  | none => simp [InputFault.fail]
  | some t =>
    obtain ⟨u, n⟩ := r
    dsimp only
    split
    · next hshape =>
      constructor
      · nofun
      · rintro ⟨⟨⟩, inner, h⟩
        rw [hshape] at h
        cases h
    · next k inner hshape =>
      constructor
      · rintro ⟨⟩
        exact ⟨rfl, inner, hshape⟩
      · rintro ⟨⟨⟩, inner', h⟩
        rw [hshape] at h
        cases h
        rfl

/-- A parameter is there, in the shape for a count of instances. -/
def Supplied (batch : ParameterBatch) (n : Nat) (f : ParameterField) (t : Tensor) : Prop :=
  Table.get? f.path batch = some t ∧ t.shape = n :: f.shape

/-- A block holds the rows of a parameter that is there for every instance. -/
theorem block_eq_ok_iff {n : Nat} {f : ParameterField} {b : Matrix} :
    block batch n f = .ok b ↔
      ∃ t, Supplied batch n f t ∧ b.HasSize n f.size ∧ b.rows = t.rows.map Tensor.data := by
  rw [block, Outcome.bind_eq_ok_iff]
  constructor
  · rintro ⟨⟨t, k⟩, hlookup, h⟩
    dsimp only at h
    split at h
    · next hshape =>
      obtain rfl := Except.ok.inj h
      exact ⟨t, ⟨(lookup_eq_ok_iff.1 hlookup).1, hshape⟩, Matrix.hasSize_ofData _,
        (Tensor.map_data_rows hshape).symm⟩
    · cases h
  · rintro ⟨t, ⟨hget, hshape⟩, hsize, hrows⟩
    refine ⟨(t, n), lookup_eq_ok_iff.2 ⟨hget, f.shape, hshape⟩, ?_⟩
    dsimp only
    rw [dif_pos hshape]
    obtain ⟨cols, rows, full⟩ := b
    obtain rfl : cols = f.size := hsize.2
    obtain rfl : rows = _ := hrows.trans (Tensor.map_data_rows hshape)
    rfl

/-- A matrix holds the parameters of a batch in their columns, a row for each instance. -/
def Encodes (c : ParameterCodec) (batch : ParameterBatch) (n : Nat) (m : Matrix) : Prop :=
  m.HasSize n c.dim ∧ ∀ f ∈ c.fields, ∃ t, Supplied batch n f t ∧
    t.rows.map Tensor.data = m.rows.map f.cut

/-- There is one matrix at most that holds a batch. -/
theorem Encodes.unique {n : Nat} {m m' : Matrix} (h : c.Encodes batch n m)
    (h' : c.Encodes batch n m') : m = m' := by
  refine c.consecutive_fields.matrix_ext h.1 h'.1 fun f hf => ?_
  obtain ⟨t, ht, hm⟩ := h.2 f hf
  obtain ⟨t', ht', hm'⟩ := h'.2 f hf
  obtain rfl := Option.some.inj (ht.1.symm.trans ht'.1)
  exact hm.symm.trans hm'

/-- A batch that supplies every field tells how many instances there are. -/
theorem instanceCount_of_supplied {n : Nat} (hnone : c.fields = [] → n = 0)
    (h : ∀ f ∈ c.fields, ∃ t, Supplied batch n f t) : c.instanceCount batch = .ok n := by
  rw [instanceCount]
  split
  · next hfields => rw [hnone hfields]
  · next f rest hfields =>
    obtain ⟨t, hget, hshape⟩ := h f (hfields ▸ List.mem_cons_self)
    have hlookup : lookup batch f.path = .ok (t, n) :=
      lookup_eq_ok_iff.2 ⟨hget, f.shape, hshape⟩
    rw [hlookup]
    rfl

/-- Every field that is supplied gives a block. -/
theorem exists_blocks {n : Nat} (h : ∀ f ∈ c.fields, ∃ t, Supplied batch n f t) :
    ∃ blocks, c.fields.mapM (block batch n) = .ok blocks := by
  have hblock : ∀ f ∈ c.fields, ∃ b, block batch n f = .ok b := fun f hf => by
    obtain ⟨t, ht⟩ := h f hf
    have hfills : t.data.length = n * f.size := by
      rw [t.fills, ht.2]
      rfl
    exact ⟨.ofData n f.size t.data hfills,
      block_eq_ok_iff.2 ⟨t, ht, Matrix.hasSize_ofData _, (Tensor.map_data_rows ht.2).symm⟩⟩
  obtain ⟨blocks, hblocks⟩ := Outcome.exists_forall₂ hblock
  exact ⟨blocks, Outcome.mapM_eq_ok_iff.2 hblocks⟩

/-- The blocks of all parameters, written into zeros, encode the batch. -/
theorem gives_encodes {n : Nat} {blocks : List Matrix}
    (h : c.fields.mapM (block batch n) = .ok blocks) :
    Gives (c.Encodes batch n)
      ((c.fields.zip blocks).foldlM (fun m e => e.1.write e.2 m) (.zeros n c.dim)) := by
  have hblocks := (Outcome.mapM_eq_ok_iff.1 h).imp fun f b hb => block_eq_ok_iff.1 hb
  have hsizes := hblocks.imp fun f b ⟨_, _, hsize, _⟩ => hsize
  refine (c.consecutive_fields.gives_write (le_of_eq (Nat.zero_add _))
    (Matrix.hasSize_ofData _) hsizes).imp ?_
  rintro m ⟨hm, hcut, -⟩
  refine ⟨hm, fun f hf => ?_⟩
  obtain ⟨i, hi⟩ := List.mem_iff_getElem?.1 hf
  obtain ⟨b, hb, hrows⟩ := Outcome.exists_of_forall₂ hcut hi
  obtain ⟨b', hb', t, ht, -, hrows'⟩ := Outcome.exists_of_forall₂ hblocks hi
  obtain rfl := Option.some.inj (hb.symm.trans hb')
  exact ⟨t, ht, hrows'.symm.trans hrows.symm⟩

/-- A batch that supplies every field is held by a matrix. -/
theorem exists_encodes {n : Nat} (h : ∀ f ∈ c.fields, ∃ t, Supplied batch n f t) :
    ∃ m, c.Encodes batch n m := by
  obtain ⟨blocks, hblocks⟩ := exists_blocks h
  obtain ⟨m, -, hm⟩ := gives_encodes hblocks
  exact ⟨m, hm⟩

/-- Encoding gives the matrix that holds the parameters, when they are all there for one count of
instances and the matrix can be an array. -/
theorem encode_eq_ok_iff :
    c.encode batch = .ok dense ↔
      ∃ n m, (c.fields = [] → n = 0) ∧ Tensor.IsArrayShape [n, c.dim] ∧ c.Encodes batch n m ∧
        dense = m.toTensor := by
  rw [encode, Outcome.bind_eq_ok_iff]
  constructor
  · rintro ⟨n, hcount, h⟩
    split at h
    · next hshape =>
      obtain ⟨blocks, hblocks, h⟩ := Outcome.bind_eq_ok_iff.1 h
      obtain ⟨m, hm, h⟩ := Outcome.bind_eq_ok_iff.1 h
      obtain ⟨m', hm', hencodes⟩ := gives_encodes hblocks
      obtain rfl := Except.ok.inj (hm.symm.trans hm')
      refine ⟨n, m, fun hnil => ?_, hshape, hencodes, (Except.ok.inj h).symm⟩
      rw [instanceCount, hnil] at hcount
      exact (Except.ok.inj hcount).symm
    · cases h
  · rintro ⟨n, m, hnone, hshape, hencodes, rfl⟩
    have hsupplied : ∀ f ∈ c.fields, ∃ t, Supplied batch n f t := fun f hf =>
      (hencodes.2 f hf).imp fun t ht => ht.1
    refine ⟨n, instanceCount_of_supplied hnone hsupplied, ?_⟩
    obtain ⟨blocks, hblocks⟩ := exists_blocks hsupplied
    -- what is written encodes the same batch, so it is the given matrix
    obtain ⟨m', hm', hencodes'⟩ := gives_encodes hblocks
    rw [if_pos hshape, hblocks, Outcome.ok_bind, hm', hencodes'.unique hencodes]
    rfl

/-- An entry of a decoded batch holds the columns of its parameter, in the parameter's shape. -/
def Decoded (m : Matrix) (f : ParameterField) (e : String × Tensor) : Prop :=
  e.1 = f.path ∧ e.2.shape = m.rows.length :: f.shape ∧
    e.2.rows.map Tensor.data = m.rows.map f.cut

/-- A field of a matrix stands for one array at most. -/
theorem Decoded.unique {m : Matrix} {f : ParameterField} {e e' : String × Tensor}
    (h : Decoded m f e) (h' : Decoded m f e') : e = e' :=
  Prod.ext (h.1.trans h'.1.symm)
    (Tensor.eq_of_map_data_rows h.2.1 h'.2.1 (h.2.2.trans h'.2.2.symm))

/-- A field that lies within a matrix is decoded, unless what it stands for is no array. -/
theorem exists_decoded {m : Matrix} {f : ParameterField} (hf : f.offset + f.size ≤ m.cols) :
    ∃ e, Decoded m f e ∧ decodeField .rowMajor m f =
      if Tensor.IsArrayShape (m.rows.length :: f.shape) then .ok e
      else .error (.shape .tooMany) := by
  obtain ⟨r, hread, hcols, hrows⟩ := ParameterField.read_eq hf
  have hlength : r.rows.length = m.rows.length := by
    rw [hrows, List.length_map]
  refine ⟨(f.path, r.shapeRows .rowMajor f.shape hcols), ⟨rfl, congrArg (· :: f.shape) hlength,
    (Matrix.map_data_rows_shapeRows hcols).trans hrows⟩, ?_⟩
  rw [decodeField, hread, Outcome.ok_bind, ← hlength]
  split
  · next h =>
    rw [if_pos h.2]
    rfl
  · next h => rw [if_neg fun hshape => h ⟨hcols, hshape⟩]

/-- When a field is decoded, and to what. -/
theorem decodeField_eq_ok_iff {m : Matrix} {f : ParameterField} {e : String × Tensor}
    (hf : f.offset + f.size ≤ m.cols) :
    decodeField .rowMajor m f = .ok e ↔
      Tensor.IsArrayShape (m.rows.length :: f.shape) ∧ Decoded m f e := by
  obtain ⟨e', he', heq⟩ := exists_decoded hf
  rw [heq]
  split
  · next hshape =>
    constructor
    · intro h
      exact ⟨hshape, Except.ok.inj h ▸ he'⟩
    · rintro ⟨-, h⟩
      rw [h.unique he']
  · next hshape =>
    constructor
    · nofun
    · exact fun h => absurd h.1 hshape

/-- Decoding succeeds on a matrix of the right width when the parameters can be arrays. -/
theorem decode_eq_ok_iff :
    c.decode .rowMajor dense = .ok batch ↔
      ∃ m : Matrix, dense = m.toTensor ∧ m.cols = c.dim ∧
        (∀ f ∈ c.fields, Tensor.IsArrayShape (m.rows.length :: f.shape)) ∧
        List.Forall₂ (Decoded m) c.fields batch := by
  have hfields : ∀ {m : Matrix}, m.cols = c.dim →
    (c.fields.mapM (decodeField .rowMajor m) = .ok batch ↔
      (∀ f ∈ c.fields, Tensor.IsArrayShape (m.rows.length :: f.shape)) ∧
        List.Forall₂ (Decoded m) c.fields batch) := by
    intro m hcols
    rw [Outcome.mapM_eq_ok_iff, Outcome.forall₂_congr_of_mem fun f hf e =>
      decodeField_eq_ok_iff (hcols.symm ▸ bound_of_mem_fields hf), List.forall₂_and_left]
  rw [decode, Outcome.bind_eq_ok_iff]
  constructor
  · rintro ⟨m, hm, h⟩
    split at h
    · next hcols =>
      exact ⟨m, Tensor.asMatrix_eq_ok_iff.1 hm, hcols, (hfields hcols).1 h⟩
    · cases h
  · rintro ⟨m, rfl, hcols, h⟩
    refine ⟨m, m.asMatrix_toTensor _, ?_⟩
    rw [if_pos hcols]
    exact (hfields hcols).2 h

/-! ## Encoding and decoding undo each other -/

/-- What is decoded has the paths of the codec, in their order. -/
theorem keys_of_decoded {m : Matrix} (h : List.Forall₂ (Decoded m) c.fields batch) :
    Table.keys batch = c.paths := by
  refine Eq.symm ?_
  rw [Table.keys, paths, ← List.forall₂_eq_eq_eq, List.forall₂_map_left_iff,
    List.forall₂_map_right_iff]
  exact h.imp fun f e hdecoded => hdecoded.1.symm

/-- A matrix encodes what is decoded from it. -/
theorem encodes_of_decoded {m : Matrix} (hpaths : c.paths.Nodup) (hcols : m.cols = c.dim)
    (h : List.Forall₂ (Decoded m) c.fields batch) : c.Encodes batch m.rows.length m := by
  refine ⟨⟨rfl, hcols⟩, fun f hf => ?_⟩
  obtain ⟨i, hi⟩ := List.mem_iff_getElem?.1 hf
  obtain ⟨⟨path, t⟩, he, rfl, hshape, hdata⟩ := Outcome.exists_of_forall₂ h hi
  have hget := Table.get?_eq_some_of_mem (keys_of_decoded h ▸ hpaths) (List.mem_of_getElem? he)
  exact ⟨t, ⟨hget, hshape⟩, hdata⟩

/-- What is decoded from an encoded batch is its entries for the parameters of the codec. -/
theorem decoded_of_encodes {n : Nat} {m : Matrix} (hc : Table.Sorted c.shapes)
    (hbatch : Table.Sorted batch) (h : c.Encodes batch n m) :
    List.Forall₂ (Decoded m) c.fields (batch.filter fun e => e.1 ∈ c.paths) := by
  have hentry : ∀ f ∈ c.fields, ∃ e : String × Tensor,
      Table.get? e.1 batch = some e.2 ∧ Decoded m f e := fun f hf => by
    obtain ⟨t, ⟨hget, hshape⟩, hdata⟩ := h.2 f hf
    exact ⟨(f.path, t), hget, rfl, h.1.1.symm ▸ hshape, hdata⟩
  obtain ⟨entries, hentries⟩ := Outcome.exists_forall₂ hentry
  have hdecoded : List.Forall₂ (Decoded m) c.fields entries := hentries.imp fun _ _ he => he.2
  have hkeys : Table.keys entries = Table.keys c.shapes :=
    (keys_of_decoded hdecoded).trans c.paths_eq
  have hsorted : Table.Sorted entries := Table.Sorted.of_keys hc hkeys
  have hrestricted : Table.Sorted (batch.filter fun e => e.1 ∈ c.paths) :=
    List.Pairwise.sublist (List.filter_sublist.map Prod.fst) hbatch
  -- both tables ascend, so it is enough that they have the same entries
  have hsame : ∀ e : String × Tensor,
      e ∈ entries ↔ e ∈ batch.filter fun e => e.1 ∈ c.paths := by
    intro e
    rw [List.mem_filter, decide_eq_true_iff, c.paths_eq, ← hkeys]
    constructor
    · intro he
      obtain ⟨f, -, hget, -⟩ := Outcome.exists_left_of_mem hentries he
      exact ⟨Table.mem_of_get?_eq_some hget, Table.mem_keys_of_mem he⟩
    · rintro ⟨he, hkey⟩
      obtain ⟨e', he', hfst⟩ := List.mem_map.1 hkey
      obtain ⟨f, -, hget, -⟩ := Outcome.exists_left_of_mem hentries he'
      rw [hfst, Table.get?_eq_some_of_mem hbatch.nodup he] at hget
      rwa [Prod.ext hfst.symm (Option.some.inj hget)]
  rw [← Table.Sorted.eq_of_mem_iff hsorted hrestricted hsame]
  exact hdecoded

/-- Row by row, a tensor of rows has the numbers of a parameter in its columns. -/
def Holds (dense : Tensor) (f : ParameterField) (t : Tensor) : Prop :=
  ∀ i : Nat, (t.rows[i]?).map Tensor.data = (dense.rows[i]?).map fun row => f.cut row.data

/-- An array holds what a field of a matrix stands for if its rows are cut from those of the matrix.
-/
theorem holds_toTensor_iff {m : Matrix} {f : ParameterField} {t : Tensor} :
    Holds m.toTensor f t ↔ t.rows.map Tensor.data = m.rows.map f.cut := by
  rw [← m.map_data_rows_toTensor, List.map_map, List.ext_getElem?_iff]
  simp only [List.getElem?_map]
  rfl

/-- When a batch can be encoded. -/
theorem isOk_encode_iff :
    (∃ dense, c.encode batch = .ok dense) ↔ c.fields = [] ∨
      ∃ n, Tensor.IsArrayShape [n, c.dim] ∧ ∀ f ∈ c.fields, ∃ t, Supplied batch n f t := by
  constructor
  · rintro ⟨dense, h⟩
    obtain ⟨n, m, -, hshape, hencodes, -⟩ := encode_eq_ok_iff.1 h
    exact .inr ⟨n, hshape, fun f hf => (hencodes.2 f hf).imp fun t ht => ht.1⟩
  · intro h
    by_cases hnil : c.fields = []
    · have hdim : c.dim = 0 := by rw [dim, hnil]; rfl
      have hencodes : c.Encodes batch 0 (.zeros 0 c.dim) :=
        ⟨Matrix.hasSize_ofData _, by rw [hnil]; exact fun f hf => absurd hf List.not_mem_nil⟩
      exact ⟨_, encode_eq_ok_iff.2 ⟨0, _, fun _ => rfl, by rw [hdim]; decide, hencodes, rfl⟩⟩
    · obtain ⟨n, hshape, hsupplied⟩ := h.resolve_left hnil
      obtain ⟨m, hencodes⟩ := exists_encodes hsupplied
      exact ⟨_, encode_eq_ok_iff.2 ⟨n, m, fun hno => absurd hno hnil, hshape, hencodes, rfl⟩⟩

/-- When a matrix can be decoded. -/
theorem isOk_decode_iff :
    (∃ batch, c.decode .rowMajor dense = .ok batch) ↔
      ∃ n, dense.shape = [n, c.dim] ∧ ∀ f ∈ c.fields, Tensor.IsArrayShape (n :: f.shape) := by
  constructor
  · rintro ⟨batch, h⟩
    obtain ⟨m, rfl, hcols, hshapes, -⟩ := decode_eq_ok_iff.1 h
    exact ⟨m.rows.length, Matrix.HasSize.shape_toTensor ⟨rfl, hcols⟩, hshapes⟩
  · rintro ⟨n, hshape, hshapes⟩
    obtain ⟨m, hm, hlength, hcols⟩ := Tensor.gives_asMatrix hshape ""
    have hfield : ∀ f ∈ c.fields, ∃ e, Decoded m f e := fun f hf => by
      obtain ⟨e, he, -⟩ := exists_decoded (hcols.symm ▸ bound_of_mem_fields hf)
      exact ⟨e, he⟩
    obtain ⟨batch, hbatch⟩ := Outcome.exists_forall₂ hfield
    exact ⟨batch, decode_eq_ok_iff.2 ⟨m, Tensor.asMatrix_eq_ok_iff.1 hm, hcols,
      hlength.symm ▸ hshapes, hbatch⟩⟩

/-- The rows of decoded parameters depend on nothing but the row with the same number. -/
theorem row_congr_of_decode {dense dense' : Tensor} {batch batch' : ParameterBatch}
    (hpaths : c.paths.Nodup) (h : c.decode .rowMajor dense = .ok batch)
    (h' : c.decode .rowMajor dense' = .ok batch')
    {i : Nat} (hrow : dense.rows[i]? = dense'.rows[i]?) (path : String) :
    (Table.get? path batch).map (fun t => t.rows[i]?) =
      (Table.get? path batch').map fun t => t.rows[i]? := by
  obtain ⟨m, rfl, hcols, -, hdecoded⟩ := decode_eq_ok_iff.1 h
  obtain ⟨m', rfl, hcols', -, hdecoded'⟩ := decode_eq_ok_iff.1 h'
  by_cases hpath : path ∈ c.paths
  · obtain ⟨f, hf, rfl⟩ := List.mem_map.1 hpath
    obtain ⟨t, ⟨hget, hshape⟩, hdata⟩ := (encodes_of_decoded hpaths hcols hdecoded).2 f hf
    obtain ⟨t', ⟨hget', hshape'⟩, hdata'⟩ := (encodes_of_decoded hpaths hcols' hdecoded').2 f hf
    have hcut := holds_toTensor_iff.2 hdata i
    rw [hrow, ← holds_toTensor_iff.2 hdata' i] at hcut
    rw [hget, hget', Option.map_some, Option.map_some, Tensor.row_eq_of_data hshape hshape' hcut]
  · have hnone : ∀ {m : Matrix} {batch : ParameterBatch},
        List.Forall₂ (Decoded m) c.fields batch → Table.get? path batch = none := fun hd =>
      Table.get?_eq_none_iff.2 (keys_of_decoded hd ▸ hpath)
    rw [hnone hdecoded, hnone hdecoded']

/-- Encoding and decoding of rows that lie one after another undo each other, and parameter after
parameter stands in the columns, in the order of the paths and without a gap. Both fail where the
result would be too large for an array. -/
theorem encode_decode (c : ParameterCodec) (hc : Table.Sorted c.shapes) :
    (c.fields.map (fun f => (f.path, f.shape)) = c.shapes ∧
      c.fields.flatMap ParameterField.columns = List.range c.dim) ∧
    (∀ batch : ParameterBatch, Table.Sorted batch → (∀ e ∈ batch, Tensor.IsArrayShape e.2.shape) →
      ((∃ dense, c.encode batch = .ok dense) ↔ c.fields = [] ∨
        ∃ n, Tensor.IsArrayShape [n, c.dim] ∧ ∀ f ∈ c.fields, ∃ t, Supplied batch n f t) ∧
      ∀ dense, c.encode batch = .ok dense →
        c.decode .rowMajor dense = .ok (batch.filter fun e => e.1 ∈ c.paths) ∧
        ∃ n, dense.shape = [n, c.dim] ∧
          ∀ f ∈ c.fields, ∃ t, Supplied batch n f t ∧ Holds dense f t) ∧
    (∀ dense : Tensor, Tensor.IsArrayShape dense.shape →
      ((∃ batch, c.decode .rowMajor dense = .ok batch) ↔
        ∃ n, dense.shape = [n, c.dim] ∧ ∀ f ∈ c.fields, Tensor.IsArrayShape (n :: f.shape)) ∧
      ∀ batch, c.decode .rowMajor dense = .ok batch →
        (c.fields ≠ [] → c.encode batch = .ok dense) ∧
        Table.keys batch = c.paths ∧
        ∃ n, dense.shape = [n, c.dim] ∧
          ∀ f ∈ c.fields, ∃ t, Supplied batch n f t ∧ Holds dense f t) ∧
    ∀ (dense dense' : Tensor) (batch batch' : ParameterBatch) (i : Nat),
      c.decode .rowMajor dense = .ok batch → c.decode .rowMajor dense' = .ok batch' →
      dense.rows[i]? = dense'.rows[i]? → ∀ path : String,
        (Table.get? path batch).map (fun t => t.rows[i]?) =
          (Table.get? path batch').map fun t => t.rows[i]? := by
  have hpaths : c.paths.Nodup := c.paths_eq ▸ hc.nodup
  have hheld : ∀ {batch : ParameterBatch} {n : Nat} {m : Matrix}, c.Encodes batch n m →
      ∃ n, m.toTensor.shape = [n, c.dim] ∧
        ∀ f ∈ c.fields, ∃ t, Supplied batch n f t ∧ Holds m.toTensor f t :=
    fun {batch n m} h => ⟨n, h.1.shape_toTensor, fun f hf => by
      obtain ⟨t, ht, hdata⟩ := h.2 f hf
      exact ⟨t, ht, holds_toTensor_iff.2 hdata⟩⟩
  refine ⟨⟨map_fieldsFrom c.shapes 0, ?_⟩, ?_, ?_, ?_⟩
  · rw [c.consecutive_fields.flatMap_columns, List.range_eq_range']
    rfl
  · intro batch hbatch hfit
    refine ⟨isOk_encode_iff, fun dense h => ?_⟩
    obtain ⟨n, m, -, hshape, hencodes, rfl⟩ := encode_eq_ok_iff.1 h
    refine ⟨decode_eq_ok_iff.2 ⟨m, rfl, hencodes.1.2, fun f hf => ?_,
      decoded_of_encodes hc hbatch hencodes⟩, hheld hencodes⟩
    -- the parameter already is an array of the shape that it gets
    obtain ⟨t, ⟨hget, ht⟩, -⟩ := hencodes.2 f hf
    rw [hencodes.1.1, ← ht]
    exact hfit _ (Table.mem_of_get?_eq_some hget)
  · intro dense hfit
    refine ⟨isOk_decode_iff, fun batch h => ?_⟩
    obtain ⟨m, rfl, hcols, hshapes, hdecoded⟩ := decode_eq_ok_iff.1 h
    have hencodes := encodes_of_decoded hpaths hcols hdecoded
    rw [hencodes.1.shape_toTensor] at hfit
    exact ⟨fun hne => encode_eq_ok_iff.2 ⟨_, m, fun hnil => absurd hnil hne, hfit, hencodes, rfl⟩,
      keys_of_decoded hdecoded, hheld hencodes⟩
  · intro dense dense' batch batch' i h h' hrow path
    exact row_congr_of_decode hpaths h h' hrow path

/-- A pair of numbers and a number. -/
def pairCodec : ParameterCodec := ⟨[("scale", [2]), ("weight", [])]⟩

/-- Values of both parameters for two instances. -/
def pairValues : ParameterBatch :=
  [("scale", ⟨[2, 2], [1, 2, 3, 4], rfl⟩), ("weight", ⟨[2], [5, 6], rfl⟩)]

/-- Values that the codec does not know get lost, and nothing else. -/
theorem encode_decode_pairCodec :
    Table.Sorted pairCodec.shapes ∧
      pairCodec.fields.flatMap ParameterField.columns = [0, 1, 2] ∧
      ∃ dense, pairCodec.encode (("bound", .vector [9]) :: pairValues) = .ok dense ∧
        dense.shape = [2, 3] ∧ pairCodec.decode .rowMajor dense = .ok pairValues ∧
        pairCodec.encode pairValues = .ok dense := by
  have hc : Table.Sorted pairCodec.shapes := by decide
  have hbatch : Table.Sorted (("bound", .vector [9]) :: pairValues) := by decide
  have hfit : ∀ e ∈ ("bound", Tensor.vector [9]) :: pairValues,
      Tensor.IsArrayShape e.2.shape := by
    simp only [pairValues, List.forall_mem_cons]
    decide
  have hsupplied : ∀ f ∈ pairCodec.fields, ∃ t,
      Supplied (("bound", .vector [9]) :: pairValues) 2 f t := by
    rintro f (_ | ⟨_, _ | ⟨_, ⟨⟩⟩⟩)
    · exact ⟨_, rfl, rfl⟩
    · exact ⟨_, rfl, rfl⟩
  obtain ⟨⟨-, hcolumns⟩, hencode, hdecode, -⟩ := encode_decode pairCodec hc
  obtain ⟨hok, hback⟩ := hencode _ hbatch hfit
  obtain ⟨dense, hdense⟩ := hok.2 (.inr ⟨2, by decide, hsupplied⟩)
  obtain ⟨hagain, n, hshape, hheld⟩ := hback dense hdense
  obtain ⟨t, ⟨hget, ht⟩, -⟩ := hheld ⟨"weight", [], 2⟩ (.tail _ (.head _))
  obtain rfl := Option.some.inj hget
  obtain rfl : 2 = n := (List.cons.inj ht).1
  have hdim : Tensor.IsArrayShape dense.shape := hshape ▸ by decide
  have hback' := (hdecode dense hdim).2 _ hagain
  exact ⟨hc, hcolumns, dense, hdense, hshape, hagain, hback'.1 (List.cons_ne_nil _ _)⟩

/-- A parameter without numbers, in a shape that only few instances leave small enough. -/
def vastCodec : ParameterCodec := ⟨[("a", [2 ^ 62, 0])]⟩

/-- Two parameters that are too large together. -/
def wideCodec : ParameterCodec := ⟨[("a", [2 ^ 62]), ("b", [2 ^ 62])]⟩

/-- Values of both parameters for no instance. -/
def noValues : ParameterBatch :=
  [("a", ⟨[0, 2 ^ 62], [], rfl⟩), ("b", ⟨[0, 2 ^ 62], [], rfl⟩)]

/-- A parameter with two axes. -/
def squareCodec : ParameterCodec := ⟨[("a", [2, 2])]⟩

/-- A matrix of the right width is refused, and parameters of the right shapes get no answer: what
they stand for cannot be an array. Rows that lie column by column are not encoded again from what is
decoded from them. -/
theorem vast_shapes_are_refused :
    (Table.Sorted vastCodec.shapes ∧ Tensor.IsArrayShape [4, vastCodec.dim] ∧
      vastCodec.decode .rowMajor ⟨[4, vastCodec.dim], [], rfl⟩ = .error (.shape .tooMany)) ∧
    (Table.Sorted wideCodec.shapes ∧ wideCodec.dim < 2 ^ 64 ∧ Table.Sorted noValues ∧
      (∀ e ∈ noValues, Tensor.IsArrayShape e.2.shape) ∧
      (∀ f ∈ wideCodec.fields, ∃ t, Supplied noValues 0 f t) ∧
      wideCodec.encode noValues = .error (.abort .arraySize)) ∧
    ∃ batch, squareCodec.decode .columnMajor ⟨[2, 4], [0, 1, 2, 3, 4, 5, 6, 7], rfl⟩ = .ok batch ∧
      squareCodec.encode batch = .ok ⟨[2, 4], [0, 2, 1, 3, 4, 6, 5, 7], rfl⟩ := by
  refine ⟨⟨by decide, by decide, rfl⟩, ⟨by decide, by decide, by decide, ?_, ?_, rfl⟩,
    [("a", ⟨[2, 2, 2], [0, 2, 1, 3, 4, 6, 5, 7], rfl⟩)], ?_, ?_⟩
  · simp only [noValues, List.forall_mem_cons]
    decide
  · rintro f (_ | ⟨_, _ | ⟨_, ⟨⟩⟩⟩)
    · exact ⟨_, rfl, rfl⟩
    · exact ⟨_, rfl, rfl⟩
  · decide +kernel
  · decide +kernel

end ParameterCodec

end Lockstep
