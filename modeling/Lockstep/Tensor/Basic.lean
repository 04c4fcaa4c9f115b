import Lockstep.Error
import Lockstep.Pieces

/-!
# Tensors

A tensor is a shape with its data in row-major order; the data fill the shape. Axis 0 is the batch
axis: `ofRows` stacks tensors of one shape along it and `rows` takes them apart again, and
`rows_ofRows` and `ofRows_rows` say that the two undo each other. `select` takes, row by row, from
one of two tensors of the same shape.
-/

namespace Lockstep

/-- The count of numbers that fill a shape. -/
def volume : List Nat → Nat
  | [] => 1
  | n :: shape => n * volume shape

@[simp] theorem volume_nil : volume [] = 1 := rfl

@[simp] theorem volume_cons (n : Nat) (shape : List Nat) :
    volume (n :: shape) = n * volume shape := rfl

theorem volume_append (shape shape' : List Nat) :
    volume (shape ++ shape') = volume shape * volume shape' := by
  induction shape with
  | nil => rw [List.nil_append, volume_nil, Nat.one_mul]
  | cons n shape ih => rw [List.cons_append, volume_cons, volume_cons, ih, Nat.mul_assoc]

/-- The count of numbers that fill a shape as a word, multiplied up axis by axis. -/
def wordVolume (shape : List Nat) : Outcome UInt64 :=
  shape.foldlM (fun count n => wordOf (count.toNat * n)) 1

theorem toNat_of_foldlM_wordOf :
    ∀ {shape : List Nat} {start w : UInt64},
      shape.foldlM (fun count n => wordOf (count.toNat * n)) start = .ok w →
        w.toNat = start.toNat * volume shape
  | [], start, w, h => by
    obtain rfl : start = w := Except.ok.inj h
    rw [volume_nil, Nat.mul_one]
  | n :: shape, start, w, h => by
    rw [List.foldlM_cons] at h
    cases hfirst : wordOf (start.toNat * n) with
    | error e => rw [hfirst] at h; cases h
    | ok next =>
      rw [hfirst] at h
      have hrest : w.toNat = next.toNat * volume shape := toNat_of_foldlM_wordOf h
      rw [hrest, wordOf_eq_ok_iff.1 hfirst, volume_cons, Nat.mul_assoc]

theorem exists_foldlM_wordOf :
    ∀ {shape : List Nat} {start : UInt64}, 0 < volume shape →
      start.toNat * volume shape < UInt64.size →
        ∃ w, shape.foldlM (fun count n => wordOf (count.toNat * n)) start = .ok w
  | [], start, _, _ => ⟨start, rfl⟩
  | n :: shape, start, hpos, hlt => by
    have hrest : 0 < volume shape := Nat.pos_of_mul_pos_left hpos
    rw [volume_cons, ← Nat.mul_assoc] at hlt
    -- no product on the way is greater than the last one
    have hfirst : start.toNat * n < UInt64.size :=
      Nat.lt_of_le_of_lt (Nat.le_mul_of_pos_right _ hrest) hlt
    have hnext := UInt64.toNat_ofNat_of_lt' hfirst
    rw [List.foldlM_cons, wordOf_eq_ok hfirst]
    exact exists_foldlM_wordOf hrest (by rwa [hnext])

theorem toNat_of_wordVolume {shape : List Nat} {w : UInt64} (h : wordVolume shape = .ok w) :
    w.toNat = volume shape := by
  rw [toNat_of_foldlM_wordOf h]
  exact Nat.one_mul _

/-- A count that is not zero is computed when it fits into a word. -/
theorem exists_wordVolume {shape : List Nat} (hpos : 0 < volume shape)
    (hlt : volume shape < UInt64.size) :
    ∃ w, wordVolume shape = .ok w ∧ w.toNat = volume shape := by
  have hone : (1 : UInt64).toNat * volume shape < UInt64.size := (Nat.one_mul _).symm ▸ hlt
  obtain ⟨w, hw⟩ := exists_foldlM_wordOf hpos hone
  exact ⟨w, hw, toNat_of_wordVolume hw⟩

/-- Numbers arranged in a shape, the last axis running fastest. -/
structure Tensor where
  shape : List Nat
  data : List Float
  fills : data.length = volume shape
deriving DecidableEq

namespace Tensor

/-- One number, without axes. -/
def scalar (x : Float) : Tensor := ⟨[], [x], rfl⟩

/-- Numbers along one axis. -/
def vector (xs : List Float) : Tensor := ⟨[xs.length], xs, by simp⟩

/-- The count of axes. -/
def rank (t : Tensor) : Nat := t.shape.length

/-- The count of numbers. -/
def size (t : Tensor) : Nat := t.data.length

/-- The greatest count of numbers that a shape may ask for. -/
def maxSize : Nat := Nat.pow 2 63 - 1

/-- An array can have the shape: the axes that are not empty multiply to at most `maxSize`, also
when another axis is empty. -/
def IsArrayShape (shape : List Nat) : Prop := volume (shape.filter (· ≠ 0)) ≤ maxSize

instance (shape : List Nat) : Decidable (IsArrayShape shape) :=
  inferInstanceAs (Decidable (volume _ ≤ maxSize))

/-- The same number everywhere. -/
def constant (shape : List Nat) (x : Float) : Tensor :=
  ⟨shape, List.replicate (volume shape) x, List.length_replicate⟩

/-- The same number everywhere, in a shape that an array can have. -/
def full (shape : List Nat) (x : Float) : Outcome Tensor :=
  if IsArrayShape shape then .ok (constant shape x) else .error (.abort .arraySize)

theorem full_eq_ok_iff {shape : List Nat} {x : Float} {t : Tensor} :
    full shape x = .ok t ↔ IsArrayShape shape ∧ t = constant shape x := by
  rw [full]
  split
  · next h => exact ⟨fun ht => ⟨h, (Except.ok.inj ht).symm⟩, fun ⟨_, ht⟩ => congrArg _ ht.symm⟩
  · next h => exact ⟨nofun, fun ht => absurd ht.1 h⟩

/-- Data put into a shape. The axes that are not empty must multiply to at most `maxSize`, also when
another axis is empty. -/
def ofData (shape : List Nat) (data : List Float) : Outcome Tensor :=
  if maxSize < volume (shape.filter (· ≠ 0)) then .error (.shape .overflow)
  else if h : data.length = volume shape then .ok ⟨shape, data, h⟩
  else .error (.shape (if data.length < volume shape then .tooFew else .tooMany))

/-- Data put into rows and columns. -/
def matrix (rows cols : Nat) (data : List Float) : Outcome Tensor := ofData [rows, cols] data

/-- The number of a tensor that holds just one. -/
def scalarValue (t : Tensor) : Outcome Float :=
  match t.data with
  | [x] => .ok x
  | _ => shapeMismatch "scalar" [] t.shape

/-- The numbers of a tensor with one axis. -/
def asVector (t : Tensor) (context : String) : Outcome (List Float) :=
  if t.rank = 1 then .ok t.data
  else shapeMismatch (context ++ " (rank 1)") [t.size] t.shape

/-- A function on every number. -/
def map (f : Float → Float) (t : Tensor) : Tensor :=
  ⟨t.shape, t.data.map f, by rw [List.length_map, t.fills]⟩

/-- The tensors have one shape and equal numbers: zeros of both signs are equal, and what is not a
number equals nothing. -/
def agrees (t u : Tensor) : Bool :=
  t.shape = u.shape && (t.data.zip u.data).all fun p => p.1 == p.2

theorem length_flatMap_data {inner : List Nat} :
    ∀ {rows : List Tensor}, (∀ r ∈ rows, r.shape = inner) →
      (rows.flatMap data).length = rows.length * volume inner
  | [], _ => by simp
  | r :: rest, h => by
    have hr : r.data.length = volume inner := by rw [r.fills, h r (List.mem_cons_self ..)]
    have hrest := length_flatMap_data fun s hs => h s (List.mem_cons_of_mem _ hs)
    rw [List.flatMap_cons, List.length_append, hr, hrest, List.length_cons, Nat.succ_mul,
      Nat.add_comm]

/-- Tensors of one shape along a new leading axis. -/
def ofRows (inner : List Nat) (rows : List Tensor) (h : ∀ r ∈ rows, r.shape = inner) : Tensor :=
  ⟨rows.length :: inner, rows.flatMap data, by rw [length_flatMap_data h, volume_cons]⟩

/-- The tensors along a leading axis of the given length. -/
def rowsOf (inner : List Nat) :
    (count : Nat) → (data : List Float) → data.length = count * volume inner → List Tensor
  | 0, _, _ => []
  | count + 1, data, h =>
    ⟨inner, data.take (volume inner), by
      rw [List.length_take, h]
      exact Nat.min_eq_left (Nat.le_mul_of_pos_left _ (Nat.succ_pos _))⟩ ::
    rowsOf inner count (data.drop (volume inner)) (by
      rw [List.length_drop, h, Nat.succ_mul, Nat.add_sub_cancel])

/-- The tensors along the leading axis, none for a tensor without axes. -/
def rows (t : Tensor) : List Tensor :=
  match t with
  | ⟨[], _, _⟩ => []
  | ⟨count :: inner, data, h⟩ => rowsOf inner count data (by rw [h, volume_cons])

/-- Tensors of one shape stacked along a new leading axis; `context` names them in an error. The
result must have a shape that an array can have. -/
def stackNamed (context : String) : List Tensor → Outcome Tensor
  | [] => .error (.structural .emptyStack)
  | first :: rest =>
    match h : rest.find? fun t => t.shape ≠ first.shape with
    | some t => shapeMismatch context first.shape t.shape
    | none =>
      if IsArrayShape ((rest.length + 1) :: first.shape) then
        .ok (ofRows first.shape (first :: rest) (by
          intro r hr
          rcases List.mem_cons.1 hr with rfl | hr
          · rfl
          · simpa using List.find?_eq_none.1 h r hr))
      else .error (.shape .overflow)

/-- Tensors of one shape stacked along a new leading axis. -/
def stack (tensors : List Tensor) : Outcome Tensor := stackNamed "stacked leaf" tensors

/-- The tensors along the leading axis, which must exist. -/
def unstack (t : Tensor) : Outcome (List Tensor) :=
  if t.rank = 0 then .error (.structural .notBatched) else .ok t.rows

/-- The tensor `n` times along a new leading axis. -/
def repeated (t : Tensor) (n : Nat) : Tensor :=
  ofRows t.shape (List.replicate n t) fun _ hr => by rw [List.eq_of_mem_replicate hr]

/-- The tensor `n` times along a new leading axis, in a shape that an array can have. -/
def repeatLeading (t : Tensor) (n : Nat) : Outcome Tensor :=
  if IsArrayShape (n :: t.shape) then .ok (t.repeated n) else .error (.abort .arraySize)

theorem repeatLeading_eq_ok_iff {t u : Tensor} {n : Nat} :
    t.repeatLeading n = .ok u ↔ IsArrayShape (n :: t.shape) ∧ u = t.repeated n := by
  rw [repeatLeading]
  split
  · next h => exact ⟨fun hu => ⟨h, (Except.ok.inj hu).symm⟩, fun ⟨_, hu⟩ => congrArg _ hu.symm⟩
  · next h => exact ⟨nofun, fun hu => absurd hu.1 h⟩

/-- The index of the smallest number, the first of equal ones; what is not a number is passed
over. -/
def argminFrom : Nat → Option (Nat × Float) → List Float → Option (Nat × Float)
  | _, best, [] => best
  | i, best, x :: rest =>
    if x.isNaN then argminFrom (i + 1) best rest
    else match best with
      | none => argminFrom (i + 1) (some (i, x)) rest
      | some (j, b) => argminFrom (i + 1) (if b ≤ x then some (j, b) else some (i, x)) rest

/-- The index of the smallest number in a list, with the number. -/
def argmin (xs : List Float) : Option (Nat × Float) := argminFrom 0 none xs

theorem shape_mem_rowsOf {inner : List Nat} :
    ∀ {count : Nat} {data : List Float} {h : data.length = count * volume inner} {r : Tensor},
      r ∈ rowsOf inner count data h → r.shape = inner
  | 0, _, _, _, hr => by simp [rowsOf] at hr
  | count + 1, _, _, _, hr => by
    rcases List.mem_cons.1 hr with rfl | hr
    · rfl
    · exact shape_mem_rowsOf hr

theorem length_rowsOf {inner : List Nat} :
    ∀ {count : Nat} {data : List Float} {h : data.length = count * volume inner},
      (rowsOf inner count data h).length = count
  | 0, _, _ => rfl
  | count + 1, _, _ => by rw [rowsOf, List.length_cons, length_rowsOf]

theorem flatMap_data_rowsOf {inner : List Nat} :
    ∀ {count : Nat} {data : List Float} {h : data.length = count * volume inner},
      (rowsOf inner count data h).flatMap Tensor.data = data
  | 0, data, h => by
    have : data = [] := List.eq_nil_of_length_eq_zero (by rw [h, Nat.zero_mul])
    simp [rowsOf, this]
  | count + 1, data, h => by
    rw [rowsOf, List.flatMap_cons, flatMap_data_rowsOf, List.take_append_drop]

theorem rowsOf_append {inner : List Nat} {r : Tensor} (hr : r.shape = inner) {count : Nat}
    {data : List Float} {h : (r.data ++ data).length = (count + 1) * volume inner}
    (h' : data.length = count * volume inner) :
    rowsOf inner (count + 1) (r.data ++ data) h = r :: rowsOf inner count data h' := by
  have hl : r.data.length = volume inner := by rw [r.fills, hr]
  obtain ⟨shape, rdata, hfills⟩ := r
  subst hr
  simp only [rowsOf]
  congr 1
  · simp only [Tensor.mk.injEq, true_and]; exact List.take_left' hl
  · congr 1; exact List.drop_left' hl

/-- Taking stacked tensors apart gives them back. -/
theorem rows_ofRows {inner : List Nat} :
    ∀ {ts : List Tensor} (h : ∀ r ∈ ts, r.shape = inner), (ofRows inner ts h).rows = ts
  | [], _ => rfl
  | r :: rest, h => by
    have hrest : ∀ s ∈ rest, s.shape = inner := fun s hs => h s (List.mem_cons_of_mem _ hs)
    have := rows_ofRows hrest
    simp only [ofRows, rows] at this
    simp only [ofRows, rows, List.flatMap_cons, List.length_cons]
    rw [rowsOf_append (h r (List.mem_cons_self ..)) (length_flatMap_data hrest), this]

/-- Stacking the parts of a tensor gives it back. -/
theorem ofRows_rows {t : Tensor} {count : Nat} {inner : List Nat} (ht : t.shape = count :: inner)
    (h : ∀ r ∈ t.rows, r.shape = inner) : ofRows inner t.rows h = t := by
  obtain ⟨shape, data, hf⟩ := t
  subst ht
  simp only [ofRows, rows, Tensor.mk.injEq, List.cons.injEq, and_true]
  exact ⟨length_rowsOf, flatMap_data_rowsOf⟩

/-! ## Choosing rows by a mask -/

/-- Row `i` of the result comes from `onTrue` where the mask holds at `i`, else from `onFalse`. -/
def select (mask : List Bool) (onTrue onFalse : Tensor) : Outcome Tensor :=
  if h : onTrue.shape = onFalse.shape then
    match hs : onTrue.shape with
    | [] => shapeMismatch "select mask" [mask.length] onTrue.shape
    | count :: inner =>
      if count = mask.length then
        .ok (ofRows inner (Mask.choose mask onTrue.rows onFalse.rows) fun r hr => by
          obtain ⟨ts, td, tf⟩ := onTrue
          obtain ⟨fs, fd, ff⟩ := onFalse
          simp only at h hs
          subst h hs
          rcases Mask.mem_of_mem_choose hr with hr | hr <;> exact shape_mem_rowsOf hr)
      else shapeMismatch "select mask" [mask.length] onTrue.shape
  else shapeMismatch "select branches" onTrue.shape onFalse.shape

end Tensor

end Lockstep
