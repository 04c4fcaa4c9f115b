import Lockstep.Proofs.Monitor.Best
import Lockstep.Proofs.Monitor.Distance
import Mathlib.Data.List.Induction

/-!
# The fitness monitor depends on sets

After every run the fitness monitor keeps the lowest one of the numbers to which all fitness was
reduced (`FitnessMonitor.run_eq`). Each of these depends only on which entries the fitness has, in
whatever order and how often: of numbers that are ranked, those that are numbers and below infinity
(`FitnessMonitor.smallest_congr`), and of several objectives the rows that are finite
(`FitnessMonitor.reduce_congr`).
-/

namespace Lockstep

/-! ## Lists up to order -/

section Rearranged

variable {α : Type} {ignored : α → Prop} {xs ys : List α}

/-- One list comes from the other one when entries are put into another order, are repeated or are
taken out again, or when ignored entries are put in or taken out, at any places. -/
inductive Rearranged (ignored : α → Prop) : List α → List α → Prop
  | permute {xs ys : List α} (h : xs.Perm ys) : Rearranged ignored xs ys
  | duplicate (before after : List α) {x : α} (h : x ∈ before ++ after) :
    Rearranged ignored (before ++ after) (before ++ x :: after)
  | insert (before after : List α) {x : α} (h : ignored x) :
    Rearranged ignored (before ++ after) (before ++ x :: after)
  | symm {xs ys : List α} (h : Rearranged ignored xs ys) : Rearranged ignored ys xs
  | trans {xs ys zs : List α} (h : Rearranged ignored xs ys) (h' : Rearranged ignored ys zs) :
    Rearranged ignored xs zs

/-- The lists have the same entries, up to those that are ignored. -/
theorem Rearranged.mem_iff (h : Rearranged ignored xs ys) :
    ∀ {x}, ¬ ignored x → (x ∈ xs ↔ x ∈ ys) := by
  induction h with
  | permute h => exact fun _ => h.mem_iff
  | duplicate before after h =>
    intro y _
    rw [List.mem_append] at h
    simp only [List.mem_append, List.mem_cons]
    constructor
    · tauto
    · rintro (hy | rfl | hy)
      · exact Or.inl hy
      · exact h
      · exact Or.inr hy
  | insert before after h =>
    intro y hy
    have hne : y ≠ _ := fun heq => hy (heq ▸ h)
    simp only [List.mem_append, List.mem_cons, hne, false_or]
  | symm _ ih => exact fun hx => (ih hx).symm
  | trans _ _ ih ih' => exact fun hx => (ih hx).trans (ih' hx)

end Rearranged

/-- What is not a number can be left out. -/
theorem IsLowest.filter {x : Float} {xs : List Float} (h : IsLowest x xs) :
    IsLowest x (xs.filter fun y => !y.isNaN) where
  mem := by
    obtain ⟨y, hy, hxy⟩ := h.mem
    refine ⟨y, List.mem_filter.2 ⟨hy, ?_⟩, hxy⟩
    rw [(Binary64.isNaN_of_beq hxy).2]
    rfl
  least y hy := h.least y (List.mem_filter.1 hy).1

theorem Tensor.vector_inj {xs ys : List Float} : vector xs = vector ys ↔ xs = ys := by
  constructor
  · exact congrArg Tensor.data
  · rintro rfl
    rfl

namespace FitnessMonitor

/-! ## Runs -/

/-- What the monitor is shown just before the algorithm learns. -/
structure Shown where
  context : HookContext
  fitness : Tensor

/-- The local state after the monitor was shown a fitness. -/
def observed (front : Option Front) (l : LocalState) (s : Shown) : Outcome LocalState := do
  let seen ← ((Monitor.fitness front).observe s.context l (.preTell s.fitness)).outcome
  return seen.getD l

/-- The local state after the monitor started and was shown some fitness. -/
def run (front : Option Front) (node : NodeContext) (g : Random.Generator) (calls : List Shown) :
    Outcome LocalState := do
  calls.foldlM (observed front) (← (Monitor.fitness front).component.init node g)

/-- The number to which a fitness is reduced. -/
def reduced (front : Option Front) (s : Shown) : Outcome Float :=
  reduce front s.context.node s.fitness

variable {front : Option Front} {node : NodeContext} {g : Random.Generator} {calls : List Shown}
  {l : LocalState}

/-- One more fitness leaves the smaller one of the number that was kept and of its own. -/
theorem observed_setNumber (front : Option Front) (x : Float) (s : Shown) :
    observed front (.setNumber [] "best" x) s = (do
      let value ← reduced front s
      return .setNumber [] "best" (smaller x value)) := by
  have hbest : best (.setNumber [] "best" x) = .ok x := LocalState.number_setNumber _ _ _
  change (do
    let seen ← record front s.context.node (.setNumber [] "best" x) s.fitness
    return seen.getD (.setNumber [] "best" x)) = _
  rw [record, reduced]
  cases reduce front s.context.node s.fitness with
  | error e => rfl
  | ok value =>
    rw [Outcome.ok_bind, Outcome.ok_bind, hbest, Outcome.ok_bind, smaller]
    split
    · rfl
    · rfl

/-- A run fails where a fitness cannot be reduced, and else it keeps the smallest number. -/
theorem run_eq (front : Option Front) (node : NodeContext) (g : Random.Generator)
    (calls : List Shown) :
    run front node g calls = (do
      let values ← calls.mapM (reduced front)
      return .setNumber [] "best" (smallest values)) := by
  have hstart : run front node g calls =
      calls.foldlM (observed front) (.setNumber [] "best" infinity) := rfl
  rw [hstart]
  clear hstart
  induction calls using List.reverseRecOn with
  | nil => rfl
  | append_singleton calls s ih =>
    rw [List.foldlM_append, ih, List.mapM_append]
    cases calls.mapM (reduced front) with
    | error e => rfl
    | ok values =>
      simp only [Outcome.ok_bind, pure_bind, bind_assoc, List.foldlM_cons, List.foldlM_nil,
        List.mapM_cons, List.mapM_nil, bind_pure, observed_setNumber]
      cases reduced front s with
      | error e => rfl
      | ok value =>
        change Except.ok (LocalState.setNumber [] "best" (smaller (smallest values) value)) =
          Except.ok (LocalState.setNumber [] "best" (smallest (values ++ [value])))
        rw [smallest, smallest, List.foldl_append]
        rfl

theorem isLowest_best (h : run front node g calls = .ok l) :
    ∃ values b, calls.mapM (reduced front) = .ok values ∧ best l = .ok b ∧
      IsLowest b (infinity :: values.filter fun x => !x.isNaN) := by
  rw [run_eq] at h
  obtain ⟨values, hvalues, h⟩ := Outcome.bind_eq_ok_iff.1 h
  refine ⟨values, smallest values, hvalues, ?_, ?_⟩
  · rw [← Except.ok.inj h]
    exact LocalState.number_setNumber _ _ _
  · have hlowest := (isLowest_smallest values).filter
    rwa [List.filter_cons_of_pos (by rw [isNaN_infinity]; rfl)] at hlowest

/-! ## One number for each candidate -/

/-- The smallest number depends only on the numbers below infinity. -/
theorem smallest_congr {xs ys : List Float}
    (h : Rearranged (fun x => x.isNaN = true ∨ x = infinity) xs ys) :
    (smallest (xs.filter fun x => !x.isNaN) == smallest (ys.filter fun x => !x.isNaN)) = true := by
  refine smallest_beq_of_mem_iff fun x => ?_
  by_cases hx : x.isNaN = true ∨ x = infinity
  · rcases hx with hx | rfl
    · simp only [List.mem_cons, List.mem_filter, hx, Bool.not_true, Bool.false_eq_true, and_false]
    · simp only [List.mem_cons, true_or]
  · simp only [List.mem_cons, List.mem_filter, h.mem_iff hx]

theorem reduce_of_rank (front : Option Front) (node : NodeContext) {t : Tensor} (h : t.rank = 1) :
    reduce front node t = .ok (smallest (t.data.filter fun x => !x.isNaN)) := if_pos h

/-! ## Several objectives -/

variable {f : Front} {t t' source : Tensor} {n n' d : Nat} {v : Float}

/-- Several objectives are reduced by the front, without the rows that are not finite. -/
theorem reduce_of_shape (f : Front) (node : NodeContext) (ht : t.shape = [n, d]) :
    ∃ m : Matrix, m.cols = d ∧ t.rows = m.rows.map Tensor.vector ∧
      reduce (some f) node t = f.invertedDistance m.finiteRows := by
  obtain ⟨m, hm, hsize⟩ := Tensor.gives_asMatrix ht "fitness"
  have hrank : t.rank ≠ 1 := by simp [Tensor.rank, ht]
  refine ⟨m, hsize.2, Tensor.rows_of_asMatrix hm, ?_⟩
  rw [reduce, if_neg hrank, hm, Outcome.ok_bind]

theorem mem_finiteRows_iff {m : Matrix} (h : t.rows = m.rows.map Tensor.vector) {row : List Float} :
    row ∈ m.finiteRows.rows ↔ Tensor.vector row ∈ t.rows ∧ isFiniteRow row = true := by
  simp only [Matrix.mem_finiteRows, h, List.mem_map, Tensor.vector_inj, exists_eq_right]

theorem isFiniteRow_of_mem {m : Matrix} {row : List Float} (h : row ∈ m.finiteRows.rows) :
    isFiniteRow row = true := (Matrix.mem_finiteRows.1 h).2

/-- The number depends only on the rows that are finite. -/
theorem reduce_congr (hf : Front.new source = .ok f) (ht : t.shape = [n, d])
    (ht' : t'.shape = [n', d])
    (h : Rearranged (fun row => isFiniteRow row.data = false) t.rows t'.rows)
    (hv : reduce (some f) node t = .ok v) : reduce (some f) node t' = .ok v := by
  obtain ⟨-, -, -, hfront⟩ := Front.new_eq_ok hf
  obtain ⟨m, hcols, hrows, hreduce⟩ := reduce_of_shape f node ht
  obtain ⟨m', hcols', hrows', hreduce'⟩ := reduce_of_shape f node ht'
  rw [hreduce] at hv
  rw [hreduce']
  have hwidth : m'.finiteRows.cols = m.finiteRows.cols := hcols'.trans hcols.symm
  refine Front.invertedDistance_congr hfront hwidth (fun _ => isFiniteRow_of_mem) ?_ hv
  intro row
  rw [mem_finiteRows_iff hrows, mem_finiteRows_iff hrows']
  refine and_congr_left fun hfinite => h.mem_iff ?_
  rw [Bool.not_eq_false]
  exact hfinite

/-- A front that an array can hold has less points than there are words. -/
theorem points_lt_size (hf : Front.new source = .ok f)
    (hsource : Tensor.IsArrayShape source.shape) :
    f.points.rows.length < UInt64.size := by
  obtain ⟨hshape, hpoints, hwidth, -⟩ := Front.new_eq_ok hf
  have hlength : f.points.rows.length ≠ 0 := fun h => hpoints (List.length_eq_zero_iff.1 h)
  rw [Tensor.IsArrayShape, hshape, List.filter_cons_of_pos (by simp [hlength]),
    List.filter_cons_of_pos (by simp [hwidth]), List.filter_nil, volume_cons, volume_cons,
    volume_nil, Nat.mul_one] at hsource
  have hle := Nat.le_mul_of_pos_right f.points.rows.length (Nat.pos_of_ne_zero hwidth)
  exact Nat.lt_of_le_of_lt (Nat.le_trans hle hsource) (by decide)

theorem isNaN_reduce (hf : Front.new source = .ok f) (hsource : Tensor.IsArrayShape source.shape)
    (ht : t.shape = [n, d]) (hv : reduce (some f) node t = .ok v) : v.isNaN = false := by
  obtain ⟨-, hpoints, -, hfront⟩ := Front.new_eq_ok hf
  obtain ⟨m, -, -, hreduce⟩ := reduce_of_shape f node ht
  rw [hreduce] at hv
  exact Front.isNaN_invertedDistance hfront hpoints (points_lt_size hf hsource)
    (fun _ => isFiniteRow_of_mem) hv

/-- Without finite rows everything is infinitely far away. -/
theorem reduce_of_not_finite (f : Front) (node : NodeContext) (ht : t.shape = [n, f.points.cols])
    (h : ∀ row ∈ t.rows, isFiniteRow row.data = false) : reduce (some f) node t = .ok infinity := by
  obtain ⟨m, hcols, hrows, hreduce⟩ := reduce_of_shape f node ht
  have hempty : m.finiteRows.rows = [] := by
    refine List.eq_nil_iff_forall_not_mem.2 fun row hrow => ?_
    obtain ⟨hmem, hfinite⟩ := (mem_finiteRows_iff hrows).1 hrow
    rw [show isFiniteRow row = false from h _ hmem] at hfinite
    cases hfinite
  rw [hreduce, Front.invertedDistance_eq_ok_iff, if_pos hempty]
  exact ⟨hcols, rfl⟩

/-! ## All of it -/

/-- The monitor keeps the minimum of infinity and of all reduced numbers. Neither the order of the
candidates nor those with a fitness that is not finite changes a reduced number; that of several
objectives stays the same to the last bit, and it is a number. -/
theorem keeps_lowest_reduced :
    (∀ front node g calls l, run front node g calls = .ok l →
      ∃ values b, calls.mapM (reduced front) = .ok values ∧ best l = .ok b ∧
        IsLowest b (infinity :: values.filter fun x => !x.isNaN)) ∧
    (∀ (front : Option Front) (node : NodeContext) (t t' : Tensor), t.rank = 1 → t'.rank = 1 →
      Rearranged (fun x => x.isNaN = true ∨ x = infinity) t.data t'.data →
        ∃ v v', reduce front node t = .ok v ∧ reduce front node t' = .ok v' ∧ (v == v') = true) ∧
    ∀ source f, Front.new source = .ok f →
      (∀ (node : NodeContext) (t t' : Tensor) (n n' d : Nat) (v : Float), t.shape = [n, d] →
        t'.shape = [n', d] →
          Rearranged (fun row => isFiniteRow row.data = false) t.rows t'.rows →
            reduce (some f) node t = .ok v → reduce (some f) node t' = .ok v ∧
              (Tensor.IsArrayShape source.shape → (v == v) = true)) ∧
      ∀ (node : NodeContext) (t : Tensor) (n : Nat), t.shape = [n, f.points.cols] →
        (∀ row ∈ t.rows, isFiniteRow row.data = false) →
          reduce (some f) node t = .ok infinity := by
  refine ⟨fun _ _ _ _ _ => isLowest_best, fun front node t t' ht ht' h => ?_,
    fun source f hf => ⟨fun node t t' n n' d v ht ht' h hv => ?_,
      fun node _ _ => reduce_of_not_finite f node⟩⟩
  · exact ⟨_, _, reduce_of_rank front node ht, reduce_of_rank front node ht', smallest_congr h⟩
  · refine ⟨reduce_congr hf ht ht' h hv, fun hsource => ?_⟩
    have hnumber := isNaN_reduce hf hsource ht hv
    exact (Binary64.beq_iff hnumber hnumber).2
      ⟨Binary64.not_lt_self hnumber, Binary64.not_lt_self hnumber⟩

/-- Three rows, one of which is not finite. -/
def brokenRows : Tensor := ⟨[3, 1], [4, 0 / 0, 3], rfl⟩

/-- The other two rows, the other way round. -/
def otherRows : Tensor := ⟨[2, 1], [3, 4], rfl⟩

theorem rearranged_otherRows :
    Rearranged (fun row => isFiniteRow row.data = false) brokenRows.rows otherRows.rows := by
  let row (x : Float) : Tensor := ⟨[1], [x], rfl⟩
  have hbroken : isFiniteRow (row (0 / 0)).data = false := by decide +kernel
  exact (Rearranged.insert [row 4] [row 3] hbroken).symm.trans (.permute (.swap _ _ _))

/-- The front with the point 0 alone. -/
def originFront : Front := (Front.new ⟨[1, 1], [0], rfl⟩).toOption.get (by decide +kernel)

def shownRanks : Shown := ⟨⟨.root, .empty, 0, 0⟩, ⟨[3], [4, 0 / 0, 3], rfl⟩⟩

/-- A row that is not finite, between others, does not count, and neither does the order of these.
Without a finite row the distance is infinite. Of ranked numbers the lowest one is kept. -/
theorem keeps_lowest_reduced_brokenRows :
    ∃ v l b, reduce (some originFront) .root brokenRows = .ok v ∧
      reduce (some originFront) .root otherRows = .ok v ∧ (v == v) = true ∧
      reduce (some originFront) .root ⟨[1, 1], [0 / 0], rfl⟩ = .ok infinity ∧
      run none .root (.new 0 0) [shownRanks] = .ok l ∧ best l = .ok b ∧
      IsLowest b [infinity, 3] ∧
      ∃ x y, reduce none .root shownRanks.fitness = .ok x ∧
        reduce none .root ⟨[2], [3, 4], rfl⟩ = .ok y ∧ (x == y) = true := by
  obtain ⟨hrun, hranks, hfront⟩ := keeps_lowest_reduced
  have hf : Front.new ⟨[1, 1], [0], rfl⟩ = .ok originFront := Outcome.eq_ok_get _
  obtain ⟨hsame, hinfinite⟩ := hfront _ originFront hf
  obtain ⟨v, hv⟩ := Outcome.exists_eq_ok (o := reduce (some originFront) .root brokenRows)
    (by decide +kernel)
  obtain ⟨hother, hnumber⟩ :=
    hsame .root brokenRows otherRows 3 2 1 v rfl rfl rearranged_otherRows hv
  have hbroken : ∀ row ∈ (⟨[1, 1], [0 / 0], rfl⟩ : Tensor).rows, isFiniteRow row.data = false :=
    List.forall_mem_singleton.2 (by decide +kernel)
  obtain ⟨l, hl⟩ := Outcome.exists_eq_ok (o := run none .root (.new 0 0) [shownRanks])
    (by decide +kernel)
  obtain ⟨values, b, hvalues, hb, hlowest⟩ := hrun none .root _ [shownRanks] l hl
  have hreduced : reduced none shownRanks = .ok 3 := rfl
  have hnan : (0 / 0 : Float).isNaN = true := by decide +kernel
  have hranked : Rearranged (fun x => x.isNaN = true ∨ x = infinity) [4, 0 / 0, 3] [3, 4] :=
    (Rearranged.insert [4] [3] (.inl hnan)).symm.trans (.permute (.swap _ _ _))
  refine ⟨v, l, b, hv, hother, hnumber (by decide), hinfinite .root _ 1 rfl hbroken, hl, hb, ?_,
    hranks none .root shownRanks.fitness ⟨[2], [3, 4], rfl⟩ rfl rfl hranked⟩
  rw [List.mapM_cons, hreduced] at hvalues
  obtain rfl : [3] = values := Except.ok.inj hvalues
  exact hlowest

end FitnessMonitor

end Lockstep
