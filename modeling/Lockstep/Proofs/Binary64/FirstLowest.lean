import Lockstep.Proofs.Binary64.Lowest

/-!
# The first of the lowest numbers

Numbers come one after another, each with something that goes with it, and what went with the first
of the lowest ones is kept (`IsFirstLowest`); there is at most one such entry
(`IsFirstLowest.unique`). Entries that are not below it leave it as it is, and the first lowest one
of entries that go below it takes its place (`IsFirstLowest.append_of_not_lt`,
`IsFirstLowest.append_of_lt`). The search for the index of the smallest number finds the first one
(`isFirstLowest_argmin`), and so does the fold of the smaller of two
(`IsFirstLowest.eq_smallest`).
-/

namespace Lockstep

open Binary64

variable {α : Type} {x y : Float} {a b : α} {es new : List (Float × α)}

/-- The first of the entries with the lowest number: no number before it is as low, and none after
it is lower. -/
structure IsFirstLowest (x : Float) (a : α) (es : List (Float × α)) : Prop where
  number : x.isNaN = false
  exists_split : ∃ before after, es = before ++ (x, a) :: after ∧ (∀ e ∈ before, ¬ e.1 ≤ x) ∧
    ∀ e ∈ after, ¬ e.1 < x

/-- What is not as low as a number is not below it. -/
theorem not_lt_of_not_le (hy : y.isNaN = false) (h : ¬ x ≤ y) : ¬ x < y := by
  intro hlt
  have hx := (isNaN_of_lt hlt).1
  exact h ((le_iff hx hy).2 (not_lt_of_lt hx hy hlt))

namespace IsFirstLowest

theorem singleton (hx : x.isNaN = false) (a : α) : IsFirstLowest x a [(x, a)] where
  number := hx
  exists_split := ⟨[], [], rfl, nofun, nofun⟩

theorem mem (h : IsFirstLowest x a es) : (x, a) ∈ es := by
  obtain ⟨before, after, rfl, -⟩ := h.exists_split
  exact List.mem_append_right _ List.mem_cons_self

theorem not_lt (h : IsFirstLowest x a es) : ∀ e ∈ es, ¬ e.1 < x := by
  obtain ⟨before, after, rfl, hbefore, hafter⟩ := h.exists_split
  refine List.forall_mem_append.2 ⟨fun e he => not_lt_of_not_le h.number (hbefore e he), ?_⟩
  exact List.forall_mem_cons.2 ⟨not_lt_self h.number, hafter⟩

theorem isLowest (h : IsFirstLowest x a es) : IsLowest x (es.map Prod.fst) where
  mem := ⟨x, List.mem_map_of_mem h.mem,
    (beq_iff h.number h.number).2 ⟨not_lt_self h.number, not_lt_self h.number⟩⟩
  least := List.forall_mem_map.2 h.not_lt

/-- Entries that are not below the lowest one change nothing. -/
theorem append_of_not_lt (h : IsFirstLowest x a es) (hnew : ∀ e ∈ new, ¬ e.1 < x) :
    IsFirstLowest x a (es ++ new) := by
  obtain ⟨before, after, rfl, hbefore, hafter⟩ := h.exists_split
  refine ⟨h.number, before, after ++ new, by rw [List.append_assoc, List.cons_append], hbefore, ?_⟩
  exact List.forall_mem_append.2 ⟨hafter, hnew⟩

/-- An entry below the lowest one takes its place. -/
theorem append_of_lt (h : IsFirstLowest x a es) (hnew : IsFirstLowest y b new) (hlt : y < x) :
    IsFirstLowest y b (es ++ new) := by
  obtain ⟨before, after, rfl, hbefore, hafter⟩ := hnew.exists_split
  refine ⟨hnew.number, es ++ before, after, (List.append_assoc ..).symm, ?_, hafter⟩
  refine List.forall_mem_append.2 ⟨fun e he hle => h.not_lt e he ?_, hbefore⟩
  -- it would be below the lowest one itself
  have hnumber := (isNaN_of_le hle).1
  exact lt_of_not_lt_of_lt hnumber hnew.number h.number ((le_iff hnumber hnew.number).1 hle) hlt

/-- One entry more takes the place of the lowest one if it is below it. -/
theorem snoc (h : IsFirstLowest x a es) (y : Float) (b : α) :
    IsFirstLowest (if y < x then y else x) (if y < x then b else a) (es ++ [(y, b)]) := by
  split
  · next hlt => exact h.append_of_lt (.singleton (isNaN_of_lt hlt).1 b) hlt
  · next hnot => exact h.append_of_not_lt (List.forall_mem_singleton.2 hnot)

theorem cons_of_isNaN (h : IsFirstLowest x a es) (hy : y.isNaN = true) :
    IsFirstLowest x a ((y, b) :: es) := by
  obtain ⟨before, after, rfl, hbefore, hafter⟩ := h.exists_split
  refine ⟨h.number, (y, b) :: before, after, rfl, List.forall_mem_cons.2 ⟨fun hle => ?_, hbefore⟩,
    hafter⟩
  rw [(isNaN_of_le hle).1] at hy
  cases hy

/-- There is at most one first lowest entry. -/
theorem unique (hx : IsFirstLowest x a es) (hy : IsFirstLowest y b es) : (x, a) = (y, b) := by
  obtain ⟨before, after, hes, hbefore, -⟩ := hx.exists_split
  obtain ⟨before', after', hes', hbefore', -⟩ := hy.exists_split
  have hle : x ≤ y := (le_iff hx.number hy.number).2 (hx.not_lt (y, b) hy.mem)
  have hle' : y ≤ x := (le_iff hy.number hx.number).2 (hy.not_lt (x, a) hx.mem)
  have hfirst : (x, a) ∉ before' := fun hmem => hbefore' (x, a) hmem hle
  have hfirst' : (y, b) ∉ before := fun hmem => hbefore (y, b) hmem hle'
  -- neither entry is among those before the other one
  rw [hes] at hes'
  rcases List.append_eq_append_iff.1 hes' with ⟨between, rfl, hrest⟩ | ⟨between, rfl, hrest⟩
  · cases between with
    | nil => exact (List.cons.inj hrest).1
    | cons e between =>
      rw [(List.cons.inj hrest).1] at hfirst
      exact absurd (List.mem_append_right before List.mem_cons_self) hfirst
  · cases between with
    | nil => exact (List.cons.inj hrest).1.symm
    | cons e between =>
      rw [(List.cons.inj hrest).1] at hfirst'
      exact absurd (List.mem_append_right before' List.mem_cons_self) hfirst'

end IsFirstLowest

/-- The first lowest entry of several lists of entries is that of the column where it stands: no
other entry of the column is ahead of it. -/
theorem IsFirstLowest.exists_column {ess : List (List (Float × α))}
    (h : IsFirstLowest x a ess.flatten) :
    ∃ i, (∃ es ∈ ess, i < es.length) ∧ IsFirstLowest x a (ess.filterMap (·[i]?)) := by
  obtain ⟨before, after, hess, hbefore, hafter⟩ := h.exists_split
  -- the list with the entry, and what is in it before and after the entry
  obtain ⟨ess₁, pre, post, ess₂, rfl, rfl, rfl⟩ : ∃ ess₁ pre post ess₂,
      ess = ess₁ ++ (pre ++ (x, a) :: post) :: ess₂ ∧ before = ess₁.flatten ++ pre ∧
        after = post ++ ess₂.flatten := by
    rcases List.flatten_eq_append_iff.1 hess with ⟨as, bs, rfl, rfl, hbs⟩ |
      ⟨as, bs, c, cs, ds, rfl, rfl, hcs⟩
    · obtain ⟨cs, post, ds, rfl, hempty, rfl⟩ := List.flatten_eq_cons_iff.1 hbs.symm
      refine ⟨as ++ cs, [], post, ds, by rw [List.append_assoc, List.nil_append], ?_, rfl⟩
      rw [List.flatten_append, List.flatten_eq_nil_iff.2 hempty, List.append_nil, List.append_nil]
    · obtain ⟨rfl, rfl⟩ := List.cons.inj hcs
      exact ⟨as, bs, cs, ds, rfl, rfl, rfl⟩
  have hmem : ∀ {ess : List (List (Float × α))} {e : Float × α},
      e ∈ ess.filterMap (·[pre.length]?) → e ∈ ess.flatten := by
    intro ess e he
    obtain ⟨es, hes, he⟩ := List.mem_filterMap.1 he
    exact List.mem_flatten.2 ⟨es, hes, List.mem_of_getElem? he⟩
  refine ⟨pre.length, ⟨_, List.mem_append_right _ List.mem_cons_self, by simp⟩, h.number,
    ess₁.filterMap (·[pre.length]?), ess₂.filterMap (·[pre.length]?), ?_, fun e he => ?_,
    fun e he => ?_⟩
  · rw [List.filterMap_append, List.filterMap_cons_some]
    rw [List.getElem?_append_right (Nat.le_refl _), Nat.sub_self, List.getElem?_cons_zero]
  · exact hbefore e (List.mem_append_left _ (hmem he))
  · exact hafter e (List.mem_append_right _ (hmem he))

/-! ## The index of the smallest number -/

/-- Numbers with what goes with their indices. -/
def entriesOf (f : Nat → α) (xs : List Float) : List (Float × α) := xs.mapIdx fun i x => (x, f i)

theorem entriesOf_cons (f : Nat → α) (x : Float) (xs : List Float) :
    entriesOf f (x :: xs) = (x, f 0) :: entriesOf (fun i => f (i + 1)) xs := List.mapIdx_cons

theorem map_fst_entriesOf (f : Nat → α) (xs : List Float) : (entriesOf f xs).map Prod.fst = xs := by
  induction xs generalizing f with
  | nil => rfl
  | cons x xs ih => rw [entriesOf_cons, List.map_cons, ih]

/-- The search, once there is a smallest number. -/
theorem isFirstLowest_argminFrom {f : Nat → α} {r : Nat × Float} {xs : List Float} :
    ∀ {i j : Nat} {x : Float} {es : List (Float × α)}, IsFirstLowest x (f j) es →
      Tensor.argminFrom i (some (j, x)) xs = some r →
        IsFirstLowest r.2 (f r.1) (es ++ entriesOf (fun k => f (k + i)) xs) := by
  -- The invariant is that `x`, at the place `j`, is the first lowest number so far. The next number
  -- replaces it only if it is lower, which `NaN` never is.
  induction xs with
  | nil =>
    intro i j x es h hr
    obtain rfl := Option.some.inj hr
    rwa [entriesOf, List.mapIdx_nil, List.append_nil]
  | cons y rest ih =>
    intro i j x es h hr
    have hnext : (fun k => f (k + 1 + i)) = fun k => f (k + (i + 1)) := by
      funext k
      rw [Nat.add_right_comm, Nat.add_assoc]
    rw [entriesOf_cons, List.append_cons, Nat.zero_add, hnext]
    have hkeep : ¬ y < x → IsFirstLowest x (f j) (es ++ [(y, f i)]) := fun hnot =>
      h.append_of_not_lt (List.forall_mem_singleton.2 hnot)
    rw [Tensor.argminFrom] at hr
    split at hr
    · next hnan =>
      refine ih (hkeep fun hlt => ?_) hr
      rw [(isNaN_of_lt hlt).1] at hnan
      cases hnan
    · next hnan =>
      have hy : y.isNaN = false := Bool.eq_false_iff.2 hnan
      split at hr
      · next hle => exact ih (hkeep ((le_iff h.number hy).1 hle)) hr
      · next hle =>
        rw [le_iff h.number hy, not_not] at hle
        exact ih (h.append_of_lt (.singleton hy (f i)) hle) hr

theorem argminFrom_some_ne_none {xs : List Float} :
    ∀ {i : Nat} {best : Nat × Float}, Tensor.argminFrom i (some best) xs ≠ none := by
  induction xs with
  | nil => exact nofun
  | cons x rest ih =>
    intro i best
    rw [Tensor.argminFrom]
    split
    · exact ih
    · split
      · exact ih
      · exact ih

/-- The search from the start. If there is no number, nothing is found. -/
theorem isFirstLowest_argminFrom_none (f : Nat → α) (xs : List Float) (i : Nat) :
    (∀ r, Tensor.argminFrom i none xs = some r →
      IsFirstLowest r.2 (f r.1) (entriesOf (fun k => f (k + i)) xs)) ∧
      (Tensor.argminFrom i none xs = none → ∀ x ∈ xs, x.isNaN = true) := by
  induction xs generalizing i with
  | nil => exact ⟨nofun, fun _ => nofun⟩
  | cons x rest ih =>
    have hnext : (fun k => f (k + 1 + i)) = fun k => f (k + (i + 1)) := by
      funext k
      rw [Nat.add_right_comm, Nat.add_assoc]
    rw [Tensor.argminFrom, entriesOf_cons, Nat.zero_add, hnext]
    obtain ⟨hsome, hnone⟩ := ih (i + 1)
    split
    · next hnan =>
      refine ⟨fun r hr => (hsome r hr).cons_of_isNaN hnan, fun h => ?_⟩
      exact List.forall_mem_cons.2 ⟨hnan, hnone h⟩
    · next hnan =>
      have hx : x.isNaN = false := Bool.eq_false_iff.2 hnan
      refine ⟨fun r hr => ?_, fun h => absurd h argminFrom_some_ne_none⟩
      exact isFirstLowest_argminFrom (.singleton hx (f i)) hr

/-- The index of the smallest number is that of the first one. -/
theorem isFirstLowest_argmin {f : Nat → α} {xs : List Float} {r : Nat × Float}
    (h : Tensor.argmin xs = some r) : IsFirstLowest r.2 (f r.1) (entriesOf f xs) :=
  (isFirstLowest_argminFrom_none f xs 0).1 r h

theorem isNaN_of_argmin_eq_none {xs : List Float} (h : Tensor.argmin xs = none) :
    ∀ x ∈ xs, x.isNaN = true :=
  (isFirstLowest_argminFrom_none id xs 0).2 h

/-- The smallest number by its index, or infinity if there is none. -/
theorem isLowest_argmin (xs : List Float) :
    IsLowest ((Tensor.argmin xs).elim infinity Prod.snd) (infinity :: xs) := by
  cases h : Tensor.argmin xs with
  | none =>
    exact (IsLowest.singleton isNaN_infinity).append_of_isNaN (isNaN_of_argmin_eq_none h)
  | some r =>
    have hlowest := (isFirstLowest_argmin (f := id) h).isLowest
    rw [map_fst_entriesOf] at hlowest
    exact hlowest.cons_infinity

namespace IsFirstLowest

variable {f : Nat → α} {xs : List Float}

/-- The smallest number of a list that goes below the lowest one takes its place. -/
theorem append_argmin_of_lt (h : IsFirstLowest x a es) {r : Nat × Float}
    (hr : Tensor.argmin xs = some r) (hlt : r.2 < x) :
    IsFirstLowest r.2 (f r.1) (es ++ entriesOf f xs) :=
  h.append_of_lt (isFirstLowest_argmin hr) hlt

/-- A list whose smallest number is not below the lowest one changes nothing. -/
theorem append_argmin_of_not_lt (h : IsFirstLowest x a es)
    (hxs : ∀ r, Tensor.argmin xs = some r → ¬ r.2 < x) :
    IsFirstLowest x a (es ++ entriesOf f xs) := by
  refine h.append_of_not_lt ?_
  suffices hall : ∀ y ∈ xs, ¬ y < x by
    rw [← map_fst_entriesOf f xs] at hall
    exact fun e he => hall e.1 (List.mem_map_of_mem he)
  cases hmin : Tensor.argmin xs with
  | none =>
    intro y hy hlt
    have hnan := isNaN_of_argmin_eq_none hmin y hy
    rw [(isNaN_of_lt hlt).1] at hnan
    cases hnan
  | some r =>
    have hlowest := (isFirstLowest_argmin (f := id) hmin).isLowest
    rw [map_fst_entriesOf] at hlowest
    exact hlowest.not_lt_of_not_lt h.number (hxs r hmin)

end IsFirstLowest

/-- With infinity in front, the first lowest entry is that of the others if one of these is below
infinity, and else the front. -/
theorem isFirstLowest_cons_infinity_iff :
    IsFirstLowest x a ((infinity, b) :: es) ↔
      (x < infinity ∧ IsFirstLowest x a es) ∨
        (x = infinity ∧ a = b ∧ ∀ e ∈ es, ¬ e.1 < infinity) := by
  constructor
  · intro h
    obtain ⟨before, after, hes, hbefore, hafter⟩ := h.exists_split
    cases before with
    | nil =>
      obtain ⟨hentry, rfl⟩ := List.cons.inj hes
      obtain ⟨rfl, rfl⟩ := Prod.mk.inj hentry
      exact Or.inr ⟨rfl, rfl, hafter⟩
    | cons e before =>
      obtain ⟨rfl, rfl⟩ := List.cons.inj hes
      obtain ⟨hfront, hbefore⟩ := List.forall_mem_cons.1 hbefore
      rw [le_iff isNaN_infinity h.number, not_not] at hfront
      exact Or.inl ⟨hfront, h.number, before, after, rfl, hbefore, hafter⟩
  · rintro (⟨hlt, h⟩ | ⟨rfl, rfl, hes⟩)
    · exact (IsFirstLowest.singleton isNaN_infinity b).append_of_lt h hlt
    · exact (IsFirstLowest.singleton isNaN_infinity a).append_of_not_lt hes

/-! ## The fold of the smaller of two numbers -/

/-- The fold finds the first lowest number, whatever goes with the numbers. -/
theorem IsFirstLowest.foldl_smaller (h : IsFirstLowest x a es) :
    ∃ b, IsFirstLowest ((new.map Prod.fst).foldl smaller x) b (es ++ new) := by
  induction new generalizing x a es with
  | nil => exact ⟨a, by rwa [List.append_nil]⟩
  | cons e new ih =>
    rw [List.map_cons, List.foldl_cons, List.append_cons]
    rw [smaller]
    split
    · next hlt => exact ih (h.append_of_lt (.singleton (isNaN_of_lt hlt).1 e.2) hlt)
    · next hnot => exact ih (h.append_of_not_lt (List.forall_mem_singleton.2 hnot))

/-- The first of the lowest numbers, or infinity if none is below it, is the fold of the smaller of
two numbers. -/
theorem IsFirstLowest.eq_smallest (h : IsFirstLowest x a ((infinity, b) :: es)) :
    x = smallest (es.map Prod.fst) := by
  have hfold : ∃ c, IsFirstLowest (smallest (es.map Prod.fst)) c ((infinity, b) :: es) :=
    (IsFirstLowest.singleton isNaN_infinity b).foldl_smaller
  obtain ⟨c, hfold⟩ := hfold
  exact congrArg Prod.fst (h.unique hfold)

end Lockstep
