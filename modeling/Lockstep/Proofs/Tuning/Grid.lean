import Lockstep.Proofs.State.LaneOrder
import Lockstep.Proofs.Table.Matching
import Lockstep.Tuning.Strategy
import Mathlib.Algebra.Group.Int.Defs
import Mathlib.Algebra.GroupWithZero.Nat

/-!
# Settings of a grid

A grid is laid out like a tensor: each parameter is an axis, along which its list of values runs,
and the last parameter runs fastest. So the digits of a setting's number say where its values stand
in their lists, and every combination of places is that of exactly one number
(`SearchSpace.grid_enumerates`). The size of a grid is known without building it when no range is
continuous and no count grows beyond a word.
-/

namespace Lockstep

/-! ## Lists of values -/

namespace ParameterRange

/-- The values that stand for a range on a grid of so many steps: evenly spread numbers, every
integer from the lower to the upper bound, or the given numbers. -/
def Lists (steps : Nat) : ParameterRange → List ParameterValue → Prop
  | .numbers low high, values =>
    values.length = steps ∧ values = (spaced steps low high).map .number
  | .integers low high, values =>
    values.length = (high.toInt - low.toInt + 1).toNat ∧
      ∀ (i : Nat) (v : ParameterValue), values[i]? = some v →
        ∃ n : Int64, v = .integer n ∧ n.toInt = low.toInt + i
  | .logarithmic low high, values =>
    values.length = steps ∧ values = (spaced steps low.log high.log).map fun x => .number x.exp
  | .choice xs, values => values = xs.map .number

/-- The range has a count of values that a signed word can hold. -/
def IsCounted : ParameterRange → Prop
  | .integers low high => high.toInt - low.toInt + 1 ≤ 2 ^ 63 - 1
  | .choice _ => True
  | .numbers .. | .logarithmic .. => False

/-- There are as many points as asked for. -/
theorem length_spaced (steps : Nat) (low high : Float) :
    (spaced steps low high).length = steps := by
  rw [spaced, List.length_map, List.length_range]

/-- The points of a range are those that its kind asks for. -/
theorem lists_points (steps : Nat) {range : ParameterRange} (h : range.isValid = true) :
    range.Lists steps (range.points steps) := by
  cases range with
  | numbers low high => exact ⟨by rw [points, List.length_map, length_spaced], rfl⟩
  | logarithmic low high => exact ⟨by rw [points, List.length_map, length_spaced], rfl⟩
  | choice xs => rfl
  | integers low high =>
    have hle : low.toInt ≤ high.toInt := Int64.le_iff_toInt_le.1 (of_decide_eq_true h)
    refine ⟨by rw [points, List.length_map, List.length_range], fun i v hv => ?_⟩
    rw [points, List.getElem?_map] at hv
    obtain ⟨j, hj, rfl⟩ := Option.map_eq_some_iff.1 hv
    obtain ⟨hi, rfl⟩ := List.getElem?_eq_some_iff.1 hj
    rw [List.length_range] at hi
    rw [List.getElem_range]
    -- no integer between the bounds wraps around
    refine ⟨_, rfl, Int64.toInt_ofInt_of_le ?_ ?_⟩
    · have := low.le_toInt
      omega
    · have := high.toInt_lt
      omega

/-- A valid range has points. -/
theorem points_ne_nil {steps : Nat} (hsteps : steps ≠ 0) {range : ParameterRange}
    (h : range.isValid = true) : (range.points steps).length ≠ 0 := by
  cases range with
  | numbers low high => rwa [points, List.length_map, length_spaced]
  | logarithmic low high => rwa [points, List.length_map, length_spaced]
  | choice xs =>
    rw [points, List.length_map]
    exact fun hzero => by simp [isValid, List.length_eq_zero_iff.1 hzero] at h
  | integers low high =>
    have hle : low.toInt ≤ high.toInt := Int64.le_iff_toInt_le.1 (of_decide_eq_true h)
    rw [points, List.length_map, List.length_range]
    omega

/-- Where the points can be counted without spacing them, the count is theirs. -/
theorem count?_eq_some_iff (steps : Nat) {range : ParameterRange} (h : range.isValid = true)
    {n : Nat} : range.count? = some n ↔ range.IsCounted ∧ n = (range.points steps).length := by
  cases range with
  | numbers low high => simp [count?, IsCounted]
  | logarithmic low high => simp [count?, IsCounted]
  | choice xs =>
    rw [count?, points, List.length_map, Option.some.injEq, IsCounted, true_and]
    exact eq_comm
  | integers low high =>
    have hle : low.toInt ≤ high.toInt := Int64.le_iff_toInt_le.1 (of_decide_eq_true h)
    have hpow : Int.pow 2 63 = 2 ^ 63 := rfl
    rw [count?, points, List.length_map, List.length_range, IsCounted, hpow]
    split
    · next hn =>
      rw [Option.some.injEq]
      exact ⟨fun heq => ⟨by omega, heq.symm⟩, fun heq => heq.2.symm⟩
    · next hn =>
      constructor
      · intro heq
        cases heq
      · rintro ⟨hcounted, -⟩
        exact absurd ⟨by omega, by omega⟩ hn

end ParameterRange

/-! ## Settings by number -/

namespace SearchSpace

/-- The lists of values of the parameters on a grid of so many steps. -/
def lists (steps : Nat) (s : SearchSpace) : List (List ParameterValue) :=
  s.map fun p => p.2.points steps

/-- The lengths of these lists. -/
def sizes (steps : Nat) (s : SearchSpace) : List Nat := (s.lists steps).map List.length

/-- The entries that a setting has when its values stand at the given places of their lists. -/
inductive Chosen (steps : Nat) : SearchSpace → List Nat → List (String × ParameterValue) → Prop
  | nil : Chosen steps [] [] []
  | cons {path : String} {range : ParameterRange} {rest : SearchSpace} {j : Nat} {index : List Nat}
    {v : ParameterValue} {entries : List (String × ParameterValue)}
    (point : (range.points steps)[j]? = some v) (more : Chosen steps rest index entries) :
    Chosen steps ((path, range) :: rest) (j :: index) ((path, v) :: entries)

variable {steps : Nat} {s : SearchSpace} {index : List Nat}
  {entries : List (String × ParameterValue)}

/-- Every index within the sizes chooses entries. -/
theorem exists_chosen : ∀ {s : SearchSpace} {index : List Nat},
    List.Forall₂ (· < ·) index (s.sizes steps) → ∃ entries, Chosen steps s index entries
  | [], _, .nil => ⟨[], .nil⟩
  | (_, range) :: rest, j :: index, .cons hj hindex => by
    obtain ⟨entries, hentries⟩ := exists_chosen (s := rest) hindex
    exact ⟨_, .cons (List.getElem?_eq_getElem hj) hentries⟩

/-- What is chosen has the paths of the space, in their order. -/
theorem Chosen.keys_eq (h : Chosen steps s index entries) : entries.map Prod.fst = s.paths := by
  induction h with
  | nil => rfl
  | cons _ _ ih => exact congrArg (List.cons _) ih

/-- For every range one of its points is chosen. -/
theorem Chosen.exists_entry (h : Chosen steps s index entries) :
    ∀ {i : Nat} {path : String} {range : ParameterRange}, s[i]? = some (path, range) →
      ∃ j v, index[i]? = some j ∧ (range.points steps)[j]? = some v ∧ (path, v) ∈ entries := by
  induction h with
  | nil => exact nofun
  | @cons path range rest j index v entries hpoint _ ih =>
    intro i path' range' hi
    cases i with
    | zero =>
      obtain ⟨rfl, rfl⟩ := Prod.mk.inj (Option.some.inj hi)
      exact ⟨j, v, rfl, hpoint, List.mem_cons_self⟩
    | succ i =>
      obtain ⟨j', v', hj', hv', hmem⟩ := ih hi
      exact ⟨j', v', hj', hv', List.mem_cons_of_mem _ hmem⟩

theorem length_extend (settings : List Setting) (p : String × ParameterRange) :
    (extend steps settings p).length = settings.length * (p.2.points steps).length := by
  rw [extend, List.flatMap_def, length_flatten_of_length, List.length_map]
  intro xs hxs
  obtain ⟨setting, -, rfl⟩ := List.mem_map.1 hxs
  rw [List.length_map]

/-- The extensions of a setting stand together, in the order of the points. -/
theorem getElem?_extend {settings : List Setting} {p : String × ParameterRange} {a j : Nat}
    {setting : Setting} {v : ParameterValue} (ha : settings[a]? = some setting)
    (hj : (p.2.points steps)[j]? = some v) :
    (extend steps settings p)[a * (p.2.points steps).length + j]? =
      some (Table.insert p.1 v setting) := by
  have hlength : ∀ xs ∈ settings.map fun s => (p.2.points steps).map fun v => Table.insert p.1 v s,
      xs.length = (p.2.points steps).length := by
    intro xs hxs
    obtain ⟨setting, -, rfl⟩ := List.mem_map.1 hxs
    rw [List.length_map]
  rw [extend, List.flatMap_def,
    getElem?_flatten_of_length hlength (List.getElem?_eq_some_iff.1 hj).1, List.getElem?_map, ha,
    Option.map_some, Option.bind_some, List.getElem?_map, hj]
  rfl

theorem length_foldl_extend : ∀ {s : SearchSpace} {settings : List Setting},
    (s.foldl (extend steps) settings).length = settings.length * volume (s.sizes steps)
  | [], settings => (Nat.mul_one _).symm
  | p :: rest, settings => by
    rw [List.foldl_cons, length_foldl_extend, length_extend, Nat.mul_assoc]
    rfl

/-- What a setting is extended to at the given places comes after what all settings before it are
extended to. -/
theorem getElem?_foldl_extend (h : Chosen steps s index entries)
    (hindex : List.Forall₂ (· < ·) index (s.sizes steps)) :
    ∀ {settings : List Setting} {a : Nat} {setting : Setting}, settings[a]? = some setting →
      (s.foldl (extend steps) settings)[a * volume (s.sizes steps) +
        position (s.sizes steps) index]? = some (Table.union setting entries) := by
  induction h with
  | nil =>
    intro settings a setting ha
    rw [show a * volume (sizes steps []) + position (sizes steps []) [] = a from Nat.mul_one a]
    exact ha
  | @cons path range rest j index v entries hpoint _ ih =>
    intro settings a setting ha
    cases hindex with
    | cons hj hindex =>
      -- extended by its point, the setting has the number `a * length + j`
      have hnext := ih hindex (getElem?_extend (p := (path, range)) ha hpoint)
      rw [Nat.add_mul, Nat.mul_assoc, Nat.add_assoc] at hnext
      exact hnext

/-- The grid has one setting for every combination of points. -/
theorem length_grid (s : SearchSpace) (steps : Nat) :
    (s.grid steps).length = volume (s.sizes (max steps 2)) := by
  rw [grid, length_foldl_extend, List.length_singleton, Nat.one_mul]

/-- At the position of an index stands the setting that the index chooses. -/
theorem getElem?_grid (h : Chosen (max steps 2) s index entries)
    (hindex : List.Forall₂ (· < ·) index (s.sizes (max steps 2))) :
    (s.grid steps)[position (s.sizes (max steps 2)) index]? = some (Table.ofList entries) := by
  have hempty : ([[]] : List Setting)[0]? = some [] := rfl
  have hone := getElem?_foldl_extend h hindex hempty
  rw [Nat.zero_mul, Nat.zero_add] at hone
  exact hone

/-! ## Counting without building -/

/-- A space is valid if it has ranges and all of them are valid. -/
theorem validate_eq_ok_iff : s.validate = .ok () ↔ s ≠ [] ∧ ∀ p ∈ s, p.2.isValid = true := by
  rw [validate]
  cases hfind : s.find? fun p => !p.2.isValid with
  | none =>
    rw [List.find?_eq_none] at hfind
    simp only [Bool.not_eq_true, Bool.not_eq_false'] at hfind
    cases s with
    | nil => simp
    | cons p rest => simpa using hfind
  | some p =>
    have hmem := List.mem_of_find?_eq_some hfind
    have hinvalid := List.find?_some hfind
    have hfalse : ¬ ∀ p ∈ s, p.2.isValid = true := fun h => by simp [h p hmem] at hinvalid
    cases s with
    | nil => cases hmem
    | cons p rest => exact ⟨nofun, fun h => absurd h.2 hfalse⟩

theorem volume_sizes_pos (hsteps : steps ≠ 0) (h : ∀ p ∈ s, p.2.isValid = true) :
    0 < volume (s.sizes steps) := by
  refine volume_pos fun d hd => ?_
  obtain ⟨values, hvalues, rfl⟩ := List.mem_map.1 hd
  obtain ⟨p, hp, rfl⟩ := List.mem_map.1 hvalues
  exact ParameterRange.points_ne_nil hsteps (h p hp)

/-- A product of counts stays below `2 ^ 64` at every factor when it does so in the end, since no
count is zero. -/
theorem product?_eq_some_iff (hsteps : steps ≠ 0) {g : Nat} :
    ∀ {s : SearchSpace} {total : Nat}, (∀ p ∈ s, p.2.isValid = true) → total < UInt64.size →
      (product? total s = some g ↔ (∀ p ∈ s, p.2.IsCounted) ∧
        total * volume (s.sizes steps) < UInt64.size ∧ g = total * volume (s.sizes steps))
  | [], total, _, htotal => by
    rw [product?, Option.some.injEq, show volume (sizes steps []) = 1 from rfl, Nat.mul_one]
    exact ⟨fun h => ⟨nofun, htotal, h.symm⟩, fun h => h.2.2.symm⟩
  | (path, range) :: rest, total, hvalid, htotal => by
    obtain ⟨hrange, hrest⟩ := List.forall_mem_cons.1 hvalid
    have hcount := fun n => range.count?_eq_some_iff steps hrange (n := n)
    have hsize : volume (sizes steps ((path, range) :: rest)) =
        (range.points steps).length * volume (sizes steps rest) := rfl
    rw [product?, hsize, ← Nat.mul_assoc, List.forall_mem_cons]
    generalize (range.points steps).length = n at hcount ⊢
    constructor
    · intro h
      obtain ⟨count, hsome, h⟩ := Option.bind_eq_some_iff.1 h
      obtain ⟨hcounted, rfl⟩ := (hcount count).1 hsome
      split at h
      · next hlt =>
        obtain ⟨hall, hprod⟩ := (product?_eq_some_iff hsteps hrest hlt).1 h
        exact ⟨⟨hcounted, hall⟩, hprod⟩
      · cases h
    · rintro ⟨⟨hcounted, hall⟩, hlt, hg⟩
      -- the factors that are still to come are not zero
      have hle : total * n ≤ total * n * volume (sizes steps rest) :=
        Nat.le_mul_of_pos_right _ (volume_sizes_pos hsteps hrest)
      have hfits := Nat.lt_of_le_of_lt hle hlt
      refine Option.bind_eq_some_iff.2 ⟨n, (hcount n).2 ⟨hcounted, rfl⟩, ?_⟩
      rw [if_pos hfits]
      exact (product?_eq_some_iff hsteps hrest hfits).2 ⟨hall, hlt, hg⟩

/-- The size of a grid is given if its ranges can be counted and the count is a word. -/
theorem gridSize_eq_some_iff (steps : Nat) (h : ∀ p ∈ s, p.2.isValid = true) {g : Nat} :
    s.gridSize = some g ↔ (∀ p ∈ s, p.2.IsCounted) ∧ (s.grid steps).length < UInt64.size ∧
      g = (s.grid steps).length := by
  have hsteps : max steps 2 ≠ 0 := by omega
  rw [gridSize, product?_eq_some_iff hsteps h (by decide), Nat.one_mul, length_grid]

/-! ## All combinations -/

/-- **A grid lists every combination of values once.** It has as many settings as the lengths of the
lists multiply to. The digits of a setting's number, the last one running fastest, are the places of
its values in the lists of the parameters, and every combination of places belongs to exactly one
number. The size is known in advance exactly when no range is continuous, every range of integers
has less than `2 ^ 63` members and the grid has less than `2 ^ 64` settings. -/
theorem grid_enumerates (s : SearchSpace) (steps : Nat) (hvalid : s.validate = .ok ())
    (hpaths : s.paths.Nodup) :
    List.Forall₂ (fun p values => p.2.Lists (max steps 2) values) s (s.lists (max steps 2)) ∧
    (s.grid steps).length = volume (s.sizes (max steps 2)) ∧
    (∀ m < (s.grid steps).length, ∃ setting, (s.grid steps)[m]? = some setting ∧
      (∀ path, path ∈ Table.keys setting ↔ path ∈ s.paths) ∧
      ∀ (i : Nat) path range values, s[i]? = some (path, range) →
        (s.lists (max steps 2))[i]? = some values →
        ∃ j v, (digits (s.sizes (max steps 2)) m)[i]? = some j ∧ values[j]? = some v ∧
          Table.get? path setting = some v) ∧
    (∀ index, List.Forall₂ (· < ·) index (s.sizes (max steps 2)) →
      ∃! m, m < (s.grid steps).length ∧ digits (s.sizes (max steps 2)) m = index) ∧
    ∀ g, s.gridSize = some g ↔ (∀ p ∈ s, p.2.IsCounted) ∧
      (s.grid steps).length < UInt64.size ∧ g = (s.grid steps).length := by
  obtain ⟨-, hranges⟩ := validate_eq_ok_iff.1 hvalid
  refine ⟨?_, length_grid s steps, fun m hm => ?_, fun index hindex => ?_,
    fun g => gridSize_eq_some_iff steps hranges⟩
  · rw [lists, List.forall₂_map_right_iff, List.forall₂_same]
    exact fun p hp => p.2.lists_points _ (hranges p hp)
  · -- the digits of a number are places in the lists, and its setting is the one chosen there
    rw [length_grid] at hm
    have hdigits := digits_lt hm
    obtain ⟨entries, hentries⟩ := exists_chosen hdigits
    have hget := getElem?_grid hentries hdigits
    rw [position_digits hm] at hget
    refine ⟨_, hget, fun path => ?_, fun i path range values hi hvalues => ?_⟩
    · rw [Table.mem_keys_ofList, hentries.keys_eq]
    · rw [lists, List.getElem?_map, hi] at hvalues
      obtain rfl := Option.some.inj hvalues
      obtain ⟨j, v, hj, hv, hmem⟩ := hentries.exists_entry hi
      exact ⟨j, v, hj, hv, Table.get?_ofList_of_mem (hentries.keys_eq ▸ hpaths) hmem⟩
  · -- a number is known by its digits
    rw [length_grid]
    refine ⟨position _ index, ⟨position_lt hindex, digits_position hindex⟩, ?_⟩
    rintro m ⟨hm, rfl⟩
    exact (position_digits hm).symm

/-- A space with a range below and above zero, a continuous range and a choice. -/
def mixedSpace : SearchSpace :=
  [("algorithm.n", .integers (-1) 1), ("algorithm.w", .numbers 0.1 0.9),
    ("algorithm.phi", .choice [0.5, 0.8])]

/-- A space of integers, spaced numbers and a choice, and one of its indices. -/
theorem grid_enumerates_mixedSpace :
    mixedSpace.validate = .ok () ∧ mixedSpace.paths.Nodup ∧ (mixedSpace.grid 4).length = 24 ∧
      mixedSpace.gridSize = none ∧
      ∃! m, m < (mixedSpace.grid 4).length ∧ digits (mixedSpace.sizes (max 4 2)) m = [2, 0, 1] := by
  have hvalid : mixedSpace.validate = .ok () := by decide +kernel
  have hpaths : mixedSpace.paths.Nodup := by decide
  obtain ⟨-, hlength, -, honce, hsize⟩ := grid_enumerates mixedSpace 4 hvalid hpaths
  refine ⟨hvalid, hpaths, hlength.trans (by decide +kernel), ?_, honce _ (by decide +kernel)⟩
  -- the continuous range is not counted
  refine Option.eq_none_iff_forall_ne_some.2 fun g hg => ?_
  exact ((hsize g).1 hg).1 ("algorithm.w", .numbers 0.1 0.9) (by simp [mixedSpace])

end SearchSpace

/-! ## Walks over a grid -/

namespace GridSearch

/-- The batches of several requests, each of them made where the one before ended. -/
def suggestEach : List Nat → GridSearch → Except Abort (List (List Setting) × GridSearch)
  | [], g => .ok ([], g)
  | count :: counts, g => do
    let (batch, g) ← g.suggest count
    let (batches, g) ← suggestEach counts g
    return (batch :: batches, g)

variable {points : List Setting} {batches : List (List Setting)} {last : GridSearch}

/-- One batch after another. -/
theorem suggestEach_cons_eq_ok_iff {count : Nat} {counts : List Nat} {g : GridSearch} :
    suggestEach (count :: counts) g = .ok (batches, last) ↔
      ∃ batch next more, g.suggest count = .ok (batch, next) ∧
        suggestEach counts next = .ok (more, last) ∧ batches = batch :: more := by
  rw [suggestEach]
  rcases hone : g.suggest count with a | ⟨batch, next⟩
  · exact ⟨nofun, fun ⟨_, _, _, h, _⟩ => nomatch h⟩
  · change (suggestEach counts next >>= _) = _ ↔ _
    rcases hmore : suggestEach counts next with a | ⟨more, last'⟩
    · constructor
      · nofun
      · rintro ⟨_, _, _, heq, h, -⟩
        obtain ⟨rfl, rfl⟩ := Prod.mk.inj (Except.ok.inj heq)
        rw [hmore] at h
        cases h
    · constructor
      · intro h
        obtain ⟨rfl, rfl⟩ := Prod.mk.inj (Except.ok.inj h)
        exact ⟨batch, next, more, rfl, hmore, rfl⟩
      · rintro ⟨_, _, _, heq, h, rfl⟩
        obtain ⟨rfl, rfl⟩ := Prod.mk.inj (Except.ok.inj heq)
        rw [hmore] at h
        obtain ⟨rfl, rfl⟩ := Prod.mk.inj (Except.ok.inj h)
        rfl

/-- Requests are answered as long as the place that each of them asks for is a word: so many places
behind what was given before, which is at most the whole grid. -/
theorem exists_suggestEach_iff : ∀ {counts : List Nat} {n : Nat}, n ≤ points.length →
    ((∃ batches last, suggestEach counts ⟨n, points⟩ = .ok (batches, last)) ↔
      ∀ (j count : Nat), counts[j]? = some count →
        min (n + (counts.take j).sum) points.length + count < UInt64.size)
  | [], n, _ => ⟨fun _ j count h => by simp at h, fun _ => ⟨[], _, rfl⟩⟩
  | count :: counts, n, hn => by
    have ih := @exists_suggestEach_iff counts (min (n + count) points.length) (min_le_right _ _)
    -- the cursor never leaves the grid, which cuts off every sum in the same way
    have hmin : ∀ k, min (min (n + count) points.length + k) points.length =
        min (n + (count + k)) points.length := fun k => by omega
    constructor
    · rintro ⟨batches, last, h⟩ j c hj
      obtain ⟨batch, next, more, hone, hmore, -⟩ := suggestEach_cons_eq_ok_iff.1 h
      obtain ⟨hfits, -, rfl⟩ := suggest_eq_ok_iff.1 hone
      cases j with
      | zero =>
        obtain rfl := Option.some.inj hj
        rwa [List.take_zero, List.sum_nil, Nat.add_zero, min_eq_left hn]
      | succ j =>
        rw [List.take_succ_cons, List.sum_cons, ← hmin]
        exact ih.1 ⟨more, last, hmore⟩ j c hj
    · intro h
      have hfits := h 0 count rfl
      rw [List.take_zero, List.sum_nil, Nat.add_zero, min_eq_left hn] at hfits
      obtain ⟨more, last, hmore⟩ := ih.2 fun j c hj => by
        rw [hmin]
        have hnext := h (j + 1) c hj
        rwa [List.take_succ_cons, List.sum_cons] at hnext
      exact ⟨_, _, suggestEach_cons_eq_ok_iff.2
        ⟨_, _, more, suggest_eq_ok_iff.2 ⟨hfits, rfl, rfl⟩, hmore, rfl⟩⟩

/-- Every batch holds what comes behind all that was asked for before. -/
theorem batch_of_suggestEach : ∀ {counts : List Nat} {n : Nat} {batches : List (List Setting)},
    suggestEach counts ⟨n, points⟩ = .ok (batches, last) →
      List.Forall₂ (fun count batch => batch.length ≤ count) counts batches ∧
        batches.flatten = (points.drop n).take counts.sum ∧
        ∀ (j : Nat) (batch : List Setting), batches[j]? = some batch →
          points.length ≤ n + (counts.take j).sum → batch = []
  | [], n, batches, h => by
    obtain ⟨rfl, -⟩ := Prod.mk.inj (Except.ok.inj h)
    exact ⟨.nil, by rw [List.sum_nil, List.take_zero, List.flatten_nil],
      fun j b hb => by simp at hb⟩
  | count :: counts, n, batches, h => by
    obtain ⟨batch, next, more, hone, hmore, rfl⟩ := suggestEach_cons_eq_ok_iff.1 h
    obtain ⟨-, rfl, rfl⟩ := suggest_eq_ok_iff.1 hone
    obtain ⟨hlength, hflatten, hend⟩ := batch_of_suggestEach hmore
    dsimp only at hflatten hend
    refine ⟨.cons (List.length_take_le _ _) hlength, ?_, fun j b hb hexhausted => ?_⟩
    · -- behind the end of the grid nothing is left, so the cursor may as well go on
      have hdrop : points.drop (min (n + count) points.length) = (points.drop n).drop count := by
        rw [List.drop_drop, ← List.drop_eq_drop_min]
      rw [List.flatten_cons, hflatten, List.sum_cons, List.take_add, hdrop]
    · cases j with
      | zero =>
        obtain rfl := Option.some.inj hb
        rw [List.take_zero, List.sum_nil, Nat.add_zero] at hexhausted
        rw [List.drop_eq_nil_of_le hexhausted, List.take_nil]
      | succ j =>
        rw [List.take_succ_cons, List.sum_cons] at hexhausted
        exact hend j b hb (by omega)

/-- **A walk hands out its grid once.** Each batch has at most as many settings as were asked for,
all batches together are the first settings of the grid, and once it is used up there are only empty
batches. Requests are answered exactly as long as no request asks for a place, counted from the
start of the grid, that is not a word. -/
theorem suggestEach_hands_out_once (space : SearchSpace) (steps : Nat) (counts : List Nat) :
    ((∃ batches last, suggestEach counts (.new space steps) = .ok (batches, last)) ↔
      ∀ (j count : Nat), counts[j]? = some count →
        min (counts.take j).sum (space.grid steps).length + count < UInt64.size) ∧
    ∀ batches last, suggestEach counts (.new space steps) = .ok (batches, last) →
      List.Forall₂ (fun count batch => batch.length ≤ count) counts batches ∧
      batches.flatten = (space.grid steps).take (min counts.sum (space.grid steps).length) ∧
      ∀ (j : Nat) (batch : List Setting), batches[j]? = some batch →
        (space.grid steps).length ≤ (counts.take j).sum → batch = [] := by
  rw [new]
  constructor
  · have hiff := @exists_suggestEach_iff (space.grid steps) counts 0 (Nat.zero_le _)
    simpa only [Nat.zero_add] using hiff
  · intro batches last h
    have hall := @batch_of_suggestEach (space.grid steps) last counts 0 batches h
    simpa only [Nat.zero_add, List.drop_zero, ← List.take_eq_take_min] using hall

/-- A grid of five settings. -/
def fiveSettings : SearchSpace := [("algorithm.n", .integers 1 5)]

/-- Three settings and then up to ten, of which only two are left. -/
theorem suggestEach_hands_out_once_fiveSettings :
    ∃ batches last, suggestEach [3, 10, 2 ^ 64 - 6] (.new fiveSettings 5) = .ok (batches, last) ∧
      batches.flatten = fiveSettings.grid 5 ∧ batches[2]? = some [] := by
  have hlength : (fiveSettings.grid 5).length = 5 := by decide
  obtain ⟨hiff, hall⟩ := suggestEach_hands_out_once fiveSettings 5 [3, 10, 2 ^ 64 - 6]
  obtain ⟨batches, last, h⟩ := hiff.2 <| by
    rw [hlength]
    intro j count hj
    match j with
    | 0 | 1 | 2 => obtain rfl := Option.some.inj hj; decide
    | j + 3 => simp at hj
  obtain ⟨hcounts, hflatten, hend⟩ := hall batches last h
  refine ⟨batches, last, h, hflatten.trans (by rw [hlength]; rfl), ?_⟩
  obtain ⟨batch, hbatch, -⟩ := Outcome.exists_of_forall₂ hcounts (i := 2) rfl
  rw [hbatch, hend 2 batch hbatch (by rw [hlength]; decide)]

/-- Once a walk has begun, a request for as many settings as a word can count is not answered. -/
theorem suggestEach_not_answered :
    suggestEach [1, 2 ^ 64 - 1] (.new fiveSettings 5) = .error .countOverflow := by
  have hone : suggest 1 (.new fiveSettings 5) =
      .ok ((fiveSettings.grid 5).take 1, ⟨1, fiveSettings.grid 5⟩) :=
    suggest_eq_ok_iff.2 ⟨by decide, rfl, rfl⟩
  have htwo : suggest (2 ^ 64 - 1) ⟨1, fiveSettings.grid 5⟩ = .error .countOverflow :=
    if_neg (by decide)
  simp only [suggestEach, hone, htwo, bind, Except.bind]

end GridSearch

end Lockstep
