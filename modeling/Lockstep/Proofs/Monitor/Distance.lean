import Lockstep.Monitor.Fitness
import Lockstep.Proofs.Binary64.Sign
import Lockstep.Proofs.Tensor.Matrix

/-!
# The distance of a front depends on a set

The distances between finite rows are numbers without the negative sign (`Front.nonneg_distance`),
so the nearest row is as far away in every list of the same rows, to the last bit
(`Front.unpack_nearest_congr`), and the distance of a front to a matrix depends only on which rows
the matrix has (`Front.invertedDistance_congr`). It is a number (`Front.isNaN_invertedDistance`).
-/

namespace Lockstep

namespace Binary64

/-- A double that is a number without the negative sign. -/
def Nonneg (x : Float) : Prop := HasSign .positive x.toModel.unpack

theorem nonneg_zero : Nonneg 0 := rfl

theorem nonneg_infinity : Nonneg infinity := rfl

variable {x y : Float} {xs : List Float}

namespace Nonneg

theorem isNaN (h : Nonneg x) : x.isNaN = false := HasSign.isNaN h

theorem add (hx : Nonneg x) (hy : Nonneg y) : Nonneg (x + y) := by
  rw [Nonneg, unpack_add]
  exact (HasSign.add hx hy).stored

theorem sqrt (hx : Nonneg x) : Nonneg x.sqrt := by
  rw [Nonneg, unpack_sqrt]
  exact (HasSign.sqrt hx).stored

theorem smaller (hx : Nonneg x) (hy : Nonneg y) : Nonneg (smaller x y) := by
  rw [Lockstep.smaller]
  split
  · exact hy
  · exact hx

theorem foldl {f : Float → Float → Float} (hf : ∀ {x y}, Nonneg x → Nonneg y → Nonneg (f x y))
    (hx : Nonneg x) (hxs : ∀ y ∈ xs, Nonneg y) : Nonneg (xs.foldl f x) := by
  induction xs generalizing x with
  | nil => exact hx
  | cons y ys ih =>
    obtain ⟨hy, hys⟩ := List.forall_mem_cons.1 hxs
    exact ih (hf hx hy) hys

theorem smallest (h : ∀ x ∈ xs, Nonneg x) : Nonneg (smallest xs) := nonneg_infinity.foldl smaller h

theorem sum (h : ∀ x ∈ xs, Nonneg x) : Nonneg (xs.foldl (· + ·) 0) := nonneg_zero.foldl add h

/-- Equal ones are the same. -/
theorem unpack_eq_of_beq (hx : Nonneg x) (hy : Nonneg y) (h : (x == y) = true) :
    x.toModel.unpack = y.toModel.unpack := by
  change (x.toModel.unpack.compare y.toModel.unpack == some .eq) = true at h
  exact HasSign.eq_of_compare hx hy (eq_of_beq h)

end Nonneg

theorem nonneg_square_sub (hx : x.isFinite = true) (hy : y.isFinite = true) :
    Nonneg ((x - y) * (x - y)) := by
  rw [Nonneg, unpack_mul, unpack_sub]
  exact (hasSign_mul_self (isNaN_stored (isNaN_sub_of_isFinite hx hy))).stored

/-- Sums of the same numbers are the same. -/
theorem unpack_sum_congr {α : Type} {f g : α → Float} {rs : List α}
    (h : ∀ r ∈ rs, (f r).toModel.unpack = (g r).toModel.unpack)
    (hxy : x.toModel.unpack = y.toModel.unpack) :
    ((rs.map f).foldl (· + ·) x).toModel.unpack = ((rs.map g).foldl (· + ·) y).toModel.unpack := by
  induction rs generalizing x y with
  | nil => exact hxy
  | cons r rs ih =>
    obtain ⟨hr, hrs⟩ := List.forall_mem_cons.1 h
    rw [List.map_cons, List.map_cons, List.foldl_cons, List.foldl_cons]
    refine ih hrs ?_
    rw [unpack_add, unpack_add, hxy, hr]

theorem div_congr (h : x.toModel.unpack = y.toModel.unpack) (z : Float) : x / z = y / z := by
  change Float.ofModel (Float.Model.pack (.div .binary64 x.toModel.unpack z.toModel.unpack)) =
    Float.ofModel (Float.Model.pack (.div .binary64 y.toModel.unpack z.toModel.unpack))
  rw [h]

/-- The mean of a count of numbers is a number. -/
theorem isNaN_div_count (hx : x.isNaN = false) {n : Nat} (h0 : 0 < n) (hn : n < UInt64.size) :
    (x / (UInt64.ofNat n).toFloat).isNaN = false := by
  have hword : (UInt64.ofNat n).toNat = n := UInt64.toNat_ofNat_of_lt' hn
  obtain ⟨m, e, hpos, hunpack⟩ := unpack_toFloat_of_pos (n := .ofNat n) (by rwa [hword])
  change (x / (UInt64.ofNat n).toFloat).toModel.unpack.isNaN = false
  rw [unpack_div, hunpack]
  exact isNaN_stored (isNaN_div_finite hx ..)

end Binary64

open Binary64 (Nonneg)

theorem isFinite_of_mem {row : List Float} (h : isFiniteRow row = true) {x : Float} (hx : x ∈ row) :
    x.isFinite = true := List.all_eq_true.1 h x hx

/-- The rows that are finite are those of another matrix that has the same ones. -/
theorem Matrix.mem_finiteRows {m : Matrix} {row : List Float} :
    row ∈ m.finiteRows.rows ↔ row ∈ m.rows ∧ isFiniteRow row = true := List.mem_filter

namespace Front

variable {front : Front} {t : Tensor} {m m' : Matrix} {rows rows' : List (List Float)}
  {r s : List Float} {v : Float}

/-- The distance to the nearest one of some rows. -/
def nearest (rows : List (List Float)) (r : List Float) : Float := smallest (rows.map (distance r))

/-- The points of an accepted front. -/
theorem new_eq_ok (h : Front.new t = .ok front) :
    t.shape = [front.points.rows.length, front.points.cols] ∧ front.points.rows ≠ [] ∧
      front.points.cols ≠ 0 ∧ ∀ r ∈ front.points.rows, isFiniteRow r = true := by
  obtain ⟨m, hm, h⟩ := Outcome.bind_eq_ok_iff.1 h
  split at h
  · cases h
  · next hnonempty =>
    split at h
    · next hfinite =>
      obtain rfl := Except.ok.inj h
      rw [Bool.or_eq_true, not_or, List.isEmpty_iff, decide_eq_true_eq] at hnonempty
      exact ⟨Tensor.shape_of_asMatrix hm, hnonempty.1, hnonempty.2, List.all_eq_true.1 hfinite⟩
    · cases h

/-- A distance between finite rows is a number without the negative sign. -/
theorem nonneg_distance (hr : isFiniteRow r = true) (hs : isFiniteRow s = true) :
    Nonneg (distance r s) := by
  refine (Nonneg.sum fun x hx => ?_).sqrt
  obtain ⟨y, hy, z, hz, rfl⟩ := Outcome.exists_of_mem_zipWith hx
  exact Binary64.nonneg_square_sub (isFinite_of_mem hr hy) (isFinite_of_mem hs hz)

theorem nonneg_nearest (hr : isFiniteRow r = true) (hrows : ∀ s ∈ rows, isFiniteRow s = true) :
    Nonneg (nearest rows r) :=
  Nonneg.smallest (List.forall_mem_map.2 fun s hs => nonneg_distance hr (hrows s hs))

/-- The nearest one of the same rows is as far away. -/
theorem unpack_nearest_congr (hr : isFiniteRow r = true) (hrows : ∀ s ∈ rows, isFiniteRow s = true)
    (hsame : ∀ s, s ∈ rows ↔ s ∈ rows') :
    (nearest rows r).toModel.unpack = (nearest rows' r).toModel.unpack := by
  have hrows' : ∀ s ∈ rows', isFiniteRow s = true := fun s hs => hrows s ((hsame s).2 hs)
  refine (nonneg_nearest hr hrows).unpack_eq_of_beq (nonneg_nearest hr hrows')
    (smallest_beq_of_mem_iff fun x => ?_)
  simp only [List.mem_cons, List.mem_map, hsame]

theorem invertedDistance_eq_ok_iff (front : Front) (m : Matrix) :
    front.invertedDistance m = .ok v ↔ m.cols = front.points.cols ∧
      v = if m.rows = [] then infinity else
        (front.points.rows.map (nearest m.rows)).foldl (· + ·) 0 /
          (UInt64.ofNat front.points.rows.length).toFloat := by
  rw [invertedDistance]
  by_cases hcols : m.cols = front.points.cols
  · rw [if_neg (not_not.2 hcols)]
    by_cases hrows : m.rows = []
    · rw [if_pos (List.isEmpty_iff.2 hrows), if_pos hrows, Except.ok.injEq]
      exact ⟨fun h => ⟨hcols, h.symm⟩, fun h => h.2.symm⟩
    · rw [if_neg (mt List.isEmpty_iff.1 hrows), if_neg hrows]
      exact ⟨fun h => ⟨hcols, (Except.ok.inj h).symm⟩, fun h => congrArg Except.ok h.2.symm⟩
  · rw [if_pos hcols]
    exact ⟨nofun, fun h => absurd h.1 hcols⟩

/-- The distance to a matrix of finite rows depends only on which rows there are. -/
theorem invertedDistance_congr (hfront : ∀ r ∈ front.points.rows, isFiniteRow r = true)
    (hcols : m'.cols = m.cols) (hm : ∀ s ∈ m.rows, isFiniteRow s = true)
    (hsame : ∀ s, s ∈ m.rows ↔ s ∈ m'.rows) (h : front.invertedDistance m = .ok v) :
    front.invertedDistance m' = .ok v := by
  rw [invertedDistance_eq_ok_iff] at h ⊢
  obtain ⟨hwidth, rfl⟩ := h
  refine ⟨hcols.trans hwidth, ?_⟩
  have hempty : m.rows = [] ↔ m'.rows = [] := by
    simp only [List.eq_nil_iff_forall_not_mem, hsame]
  have htotal := Binary64.unpack_sum_congr (x := 0) (y := 0)
    (fun r hr => unpack_nearest_congr (hfront r hr) hm hsame) rfl
  simp only [hempty, Binary64.div_congr htotal]

/-- The distance is a number. -/
theorem isNaN_invertedDistance (hfront : ∀ r ∈ front.points.rows, isFiniteRow r = true)
    (hpoints : front.points.rows ≠ []) (hcount : front.points.rows.length < UInt64.size)
    (hm : ∀ s ∈ m.rows, isFiniteRow s = true) (h : front.invertedDistance m = .ok v) :
    v.isNaN = false := by
  obtain ⟨-, rfl⟩ := (invertedDistance_eq_ok_iff ..).1 h
  split
  · exact isNaN_infinity
  · refine Binary64.isNaN_div_count ?_ (List.length_pos_iff.2 hpoints) hcount
    exact (Nonneg.sum (List.forall_mem_map.2 fun r hr => nonneg_nearest (hfront r hr) hm)).isNaN

end Front

end Lockstep
