import Lockstep.Error
import Mathlib.Data.List.Forall2

/-!
# Outcomes of several computations

A traversal of a list succeeds when every member does (`mapM_eq_ok_iff`) and otherwise fails with
the first failure (`mapM_eq_error_iff`). A chain of two computations succeeds when both do
(`bind_eq_ok_iff`) and fails when one of them does (`bind_eq_error_iff`). `Gives` says that a
computation succeeds and what its result has.
-/

namespace Lockstep.Outcome

variable {α β : Type}

@[simp] theorem ok_bind (x : α) (f : α → Outcome β) : (Except.ok x >>= f) = f x := rfl

@[simp] theorem error_bind (e : Error) (f : α → Outcome β) :
    ((Except.error e : Outcome α) >>= f) = .error e := rfl

@[simp] theorem pure_eq_ok (x : α) : (pure x : Outcome α) = .ok x := rfl

/-- A sequence succeeds if both of its computations do. -/
theorem bind_eq_ok_iff {o : Outcome α} {f : α → Outcome β} {y : β} :
    (o >>= f) = .ok y ↔ ∃ x, o = .ok x ∧ f x = .ok y := by
  cases o with
  | ok x => simp
  | error e => simp

/-- A computation that fails does so at its start, or in what follows on a result. -/
theorem bind_eq_error_iff {o : Outcome α} {f : α → Outcome β} {e : Error} :
    o >>= f = .error e ↔ o = .error e ∨ ∃ x, o = .ok x ∧ f x = .error e := by
  cases o with
  | ok x => simp
  | error e' => simp

theorem eq_error_of_bind_pure {o : Outcome α} {f : α → β} {e : Error}
    (h : (do return f (← o)) = .error e) : o = .error e := by
  rcases bind_eq_error_iff.1 h with ho | ⟨x, -, h⟩
  · exact ho
  · cases h

theorem eq_ok_get {o : Outcome α} (h : o.toOption.isSome = true) : o = .ok (o.toOption.get h) := by
  cases o with
  | ok x => rfl
  | error e => cases h

theorem exists_eq_ok {o : Outcome α} (h : o.toOption.isSome = true) : ∃ x, o = .ok x :=
  ⟨_, eq_ok_get h⟩

/-- A traversal succeeds with the results of the members. -/
theorem mapM_eq_ok_iff {f : α → Outcome β} :
    ∀ {xs : List α} {ys : List β},
      xs.mapM f = .ok ys ↔ List.Forall₂ (fun x y => f x = .ok y) xs ys
  | [], ys => by
    cases ys with
    | nil => simp
    | cons y ys => simp
  | x :: xs, ys => by
    rw [List.mapM_cons, bind_eq_ok_iff]
    constructor
    · rintro ⟨y, hy, h⟩
      obtain ⟨zs, hzs, h⟩ := bind_eq_ok_iff.1 h
      obtain rfl : y :: zs = ys := Except.ok.inj h
      exact .cons hy (mapM_eq_ok_iff.1 hzs)
    · intro h
      cases h with
      | cons hy hrest => exact ⟨_, hy, by rw [mapM_eq_ok_iff.2 hrest]; rfl⟩

/-- A traversal with a function that succeeds under a condition. -/
theorem mapM_eq_ok_iff_of_iff {f : α → Outcome β} {P : α → Prop} {g : α → β}
    (h : ∀ x y, f x = .ok y ↔ P x ∧ y = g x) {xs : List α} {ys : List β} :
    xs.mapM f = .ok ys ↔ (∀ x ∈ xs, P x) ∧ ys = xs.map g := by
  rw [mapM_eq_ok_iff]
  simp only [h]
  induction xs generalizing ys with
  | nil => simp
  | cons x xs ih =>
    simp only [List.forall₂_cons_left_iff, ih, List.forall_mem_cons, List.map_cons]
    constructor
    · rintro ⟨y, ys, ⟨hx, rfl⟩, ⟨hxs, rfl⟩, rfl⟩
      exact ⟨⟨hx, hxs⟩, rfl⟩
    · rintro ⟨⟨hx, hxs⟩, rfl⟩
      exact ⟨_, _, ⟨hx, rfl⟩, ⟨hxs, rfl⟩, rfl⟩

/-- Going through a list gives as many results. -/
theorem length_of_mapM_eq_ok {f : α → Outcome β} {xs : List α} {ys : List β}
    (h : xs.mapM f = .ok ys) : ys.length = xs.length :=
  (mapM_eq_ok_iff.1 h).length_eq.symm

/-- A traversal fails with the failure of the first member that fails. -/
theorem mapM_eq_error_iff {f : α → Outcome β} {e : Error} :
    ∀ {xs : List α}, xs.mapM f = .error e ↔
      ∃ (i : Nat) (x : α), xs[i]? = some x ∧ f x = .error e ∧
        ∀ (i' : Nat) (x' : α), i' < i → xs[i']? = some x' → ∃ y, f x' = .ok y
  | [] => by simp
  | x :: xs => by
    -- the members before the one that fails are counted from the first one of the list on
    have ih := @mapM_eq_error_iff f e xs
    rw [List.mapM_cons]
    cases hx : f x with
    | error e' =>
      rw [error_bind]
      constructor
      · intro h
        exact ⟨0, x, rfl, by rw [hx, Except.error.inj h], fun i' x' hlt => by omega⟩
      · rintro ⟨i, x', hx', he, hb⟩
        cases i with
        | zero =>
          obtain rfl : x = x' := Option.some.inj hx'
          rw [hx] at he
          rw [Except.error.inj he]
        | succ i =>
          obtain ⟨y, hy⟩ := hb 0 x (Nat.succ_pos i) rfl
          rw [hx] at hy
          cases hy
    | ok y =>
      rw [ok_bind]
      constructor
      · intro h
        cases hxs : xs.mapM f with
        | ok ys => rw [hxs] at h; cases h
        | error e' =>
          rw [hxs] at h
          obtain rfl : e' = e := Except.error.inj h
          obtain ⟨i, x', hx', he, hb⟩ := ih.1 hxs
          refine ⟨i + 1, x', hx', he, fun i' x'' hlt hx'' => ?_⟩
          cases i' with
          | zero =>
            obtain rfl : x = x'' := Option.some.inj hx''
            exact ⟨y, hx⟩
          | succ i' => exact hb i' x'' (by omega) hx''
      · rintro ⟨i, x', hx', he, hb⟩
        cases i with
        | zero =>
          obtain rfl : x = x' := Option.some.inj hx'
          rw [hx] at he
          cases he
        | succ i =>
          rw [ih.2 ⟨i, x', hx', he, fun i' x'' hlt hx'' => hb (i' + 1) x'' (by omega) hx''⟩]
          rfl

/-- Going through a list succeeds if every call does. -/
theorem forM_eq_ok_iff {f : α → Outcome Unit} :
    ∀ {xs : List α}, xs.forM f = .ok () ↔ ∀ x ∈ xs, f x = .ok ()
  | [] => by simp
  | x :: xs => by
    rw [show (x :: xs).forM f = f x >>= fun _ => xs.forM f from rfl, bind_eq_ok_iff,
      List.forall_mem_cons, ← forM_eq_ok_iff]
    constructor
    · rintro ⟨⟨⟩, hx, hxs⟩
      exact ⟨hx, hxs⟩
    · rintro ⟨hx, hxs⟩
      exact ⟨(), hx, hxs⟩

/-- A traversal that fails does so at the first member that fails. -/
theorem forM_eq_error_iff {f : α → Outcome Unit} {e : Error} :
    ∀ {xs : List α}, xs.forM f = .error e ↔
      ∃ front x back, xs = front ++ x :: back ∧ f x = .error e ∧ ∀ y ∈ front, f y = .ok ()
  | [] => ⟨nofun, fun ⟨front, x, back, h, _⟩ => absurd h.symm (by simp)⟩
  | x :: xs => by
    rw [show (x :: xs).forM f = f x >>= fun _ => xs.forM f from rfl]
    cases hx : f x with
    | error e' =>
      constructor
      · intro h
        exact ⟨[], x, xs, rfl, hx.trans h, nofun⟩
      · rintro ⟨front, y, back, hxs, hy, hfront⟩
        cases front with
        | nil =>
          obtain ⟨rfl, -⟩ := List.cons.inj hxs
          exact hx.symm.trans hy
        | cons z front =>
          obtain ⟨rfl, -⟩ := List.cons.inj hxs
          rw [hfront x List.mem_cons_self] at hx
          cases hx
    | ok =>
      rw [ok_bind, forM_eq_error_iff]
      constructor
      · rintro ⟨front, y, back, rfl, hy, hfront⟩
        exact ⟨x :: front, y, back, rfl, hy, List.forall_mem_cons.2 ⟨hx, hfront⟩⟩
      · rintro ⟨front, y, back, hxs, hy, hfront⟩
        cases front with
        | nil =>
          obtain ⟨rfl, -⟩ := List.cons.inj hxs
          rw [hy] at hx
          cases hx
        | cons z front =>
          obtain ⟨-, rfl⟩ := List.cons.inj hxs
          exact ⟨front, y, back, rfl, hy, (List.forall_mem_cons.1 hfront).2⟩

/-- A traversal of joined lists is a traversal of each of them. -/
theorem mapM_flatten_eq_ok_iff {f : α → Outcome β} :
    ∀ {xss : List (List α)} {ys : List β}, xss.flatten.mapM f = .ok ys ↔
      ∃ yss, List.Forall₂ (fun xs ys => xs.mapM f = .ok ys) xss yss ∧ ys = yss.flatten
  | [], ys => by
    constructor
    · intro h
      exact ⟨[], .nil, (Except.ok.inj h).symm⟩
    · rintro ⟨yss, hyss, rfl⟩
      cases hyss
      rfl
  | xs :: xss, ys => by
    rw [List.flatten_cons, List.mapM_append, bind_eq_ok_iff]
    constructor
    · rintro ⟨as, has, h⟩
      obtain ⟨bs, hbs, h⟩ := bind_eq_ok_iff.1 h
      obtain ⟨bss, hbss, rfl⟩ := mapM_flatten_eq_ok_iff.1 hbs
      exact ⟨as :: bss, .cons has hbss, (Except.ok.inj h).symm⟩
    · rintro ⟨yss, hyss, rfl⟩
      cases hyss with
      | @cons _ as _ bss has hbss =>
        refine ⟨as, has, bind_eq_ok_iff.2 ⟨bss.flatten, ?_, rfl⟩⟩
        exact mapM_flatten_eq_ok_iff.2 ⟨bss, hbss, rfl⟩

/-- Related members give related results. -/
theorem forall₂_of_mapM {R : α → α → Prop} {S : β → β → Prop} {f g : α → Outcome β}
    (hfg : ∀ x x' y y', R x x' → f x = .ok y → g x' = .ok y' → S y y') :
    ∀ {xs xs' : List α} {ys ys' : List β}, List.Forall₂ R xs xs' → xs.mapM f = .ok ys →
      xs'.mapM g = .ok ys' → List.Forall₂ S ys ys'
  | [], _, ys, ys', .nil, h, h' => by
    obtain rfl := Except.ok.inj h
    obtain rfl := Except.ok.inj h'
    exact .nil
  | x :: xs, x' :: xs', ys, ys', .cons hx hxs, h, h' => by
    cases mapM_eq_ok_iff.1 h with
    | cons hy hys =>
      cases mapM_eq_ok_iff.1 h' with
      | cons hy' hys' =>
        exact .cons (hfg _ _ _ _ hx hy hy')
          (forall₂_of_mapM hfg hxs (mapM_eq_ok_iff.2 hys) (mapM_eq_ok_iff.2 hys'))

/-! ## Members by number -/

/-- In related lists every member has a counterpart in its place. -/
theorem exists_of_forall₂ {R : α → β → Prop} {xs : List α} {ys : List β} (h : List.Forall₂ R xs ys)
    {i : Nat} {x : α} (hx : xs[i]? = some x) : ∃ y, ys[i]? = some y ∧ R x y := by
  obtain ⟨hi, rfl⟩ := List.getElem?_eq_some_iff.1 hx
  have hi' : i < ys.length := h.length_eq ▸ hi
  exact ⟨ys[i], List.getElem?_eq_getElem hi', h.get hi hi'⟩

/-- Every member of the second list has one in the first. -/
theorem exists_left_of_mem {R : α → β → Prop} {xs : List α} {ys : List β}
    (h : List.Forall₂ R xs ys) {y : β} (hy : y ∈ ys) : ∃ x ∈ xs, R x y := by
  obtain ⟨i, hi⟩ := List.mem_iff_getElem?.1 hy
  obtain ⟨x, hx, hR⟩ := exists_of_forall₂ h.flip hi
  exact ⟨x, List.mem_of_getElem? hx, hR⟩

/-- Lists of one length are related if their members are, place by place. -/
theorem forall₂_of_forall {R : α → β → Prop} {xs : List α} {ys : List β}
    (hl : xs.length = ys.length)
    (h : ∀ (i : Nat) (x : α) (y : β), xs[i]? = some x → ys[i]? = some y → R x y) :
    List.Forall₂ R xs ys := by
  rw [List.forall₂_iff_get]
  refine ⟨hl, fun i hi hi' => ?_⟩
  exact h i _ _ (List.getElem?_eq_getElem hi) (List.getElem?_eq_getElem hi')

theorem forall₂_congr_of_mem {R S : α → β → Prop} {ys : List β} :
    ∀ {xs : List α}, (∀ x ∈ xs, ∀ y, R x y ↔ S x y) →
      (List.Forall₂ R xs ys ↔ List.Forall₂ S xs ys) := by
  induction ys with
  | nil => simp
  | cons y ys ih =>
    intro xs h
    cases xs with
    | nil => simp
    | cons x xs =>
      obtain ⟨hx, hxs⟩ := List.forall_mem_cons.1 h
      rw [List.forall₂_cons, List.forall₂_cons, hx y, ih hxs]

/-- A counterpart for every member makes a related list. -/
theorem exists_forall₂ {R : α → β → Prop} {xs : List α} (h : ∀ x ∈ xs, ∃ y, R x y) :
    ∃ ys, List.Forall₂ R xs ys := by
  induction xs with
  | nil => exact ⟨[], .nil⟩
  | cons x xs ih =>
    obtain ⟨hx, hxs⟩ := List.forall_mem_cons.1 h
    obtain ⟨y, hy⟩ := hx
    obtain ⟨ys, hys⟩ := ih hxs
    exact ⟨y :: ys, .cons hy hys⟩

/-- Members are related through third members, which are members of one list. -/
theorem forall₂_comp_iff {γ : Type} {R : α → β → Prop} {S : β → γ → Prop} {xs : List α}
    {zs : List γ} : List.Forall₂ (fun x z => ∃ y, R x y ∧ S y z) xs zs ↔
      ∃ ys, List.Forall₂ R xs ys ∧ List.Forall₂ S ys zs := by
  constructor
  · intro h
    induction h with
    | nil => exact ⟨[], .nil, .nil⟩
    | cons hfirst _ ih =>
      obtain ⟨y, hy, hyz⟩ := hfirst
      obtain ⟨ys, hys, hyzs⟩ := ih
      exact ⟨y :: ys, .cons hy hys, .cons hyz hyzs⟩
  · rintro ⟨ys, hys, hyzs⟩
    induction hys generalizing zs with
    | nil =>
      cases hyzs
      exact .nil
    | cons hy _ ih =>
      cases hyzs with
      | cons hyz hyzs => exact .cons ⟨_, hy, hyz⟩ (ih hyzs)

/-- A member of a list that two lists were combined to comes from a member of each. -/
theorem exists_of_mem_zipWith {α β γ : Type} {f : α → β → γ} :
    ∀ {xs : List α} {ys : List β} {z : γ}, z ∈ List.zipWith f xs ys →
      ∃ x ∈ xs, ∃ y ∈ ys, f x y = z
  | [], _, _, h => by simp at h
  | _ :: _, [], _, h => by simp at h
  | x :: xs, y :: ys, z, h => by
    rcases List.mem_cons.1 h with rfl | h
    · exact ⟨x, List.mem_cons_self, y, List.mem_cons_self, rfl⟩
    · obtain ⟨x', hx', y', hy', hz⟩ := exists_of_mem_zipWith h
      exact ⟨x', List.mem_cons_of_mem _ hx', y', List.mem_cons_of_mem _ hy', hz⟩

/-! ## Success with a property -/

/-- The computation succeeds, and its result has the property. -/
def Gives (P : α → Prop) (o : Outcome α) : Prop := ∃ x, o = .ok x ∧ P x

theorem Gives.ok {P : α → Prop} {x : α} (h : P x) : Gives P (.ok x) := ⟨x, rfl, h⟩

instance Gives.decidable {P : α → Prop} [DecidablePred P] : ∀ o : Outcome α, Decidable (Gives P o)
  | .ok x => decidable_of_iff (P x) ⟨Gives.ok, fun ⟨_, h, hx⟩ => Except.ok.inj h ▸ hx⟩
  | .error _ => isFalse nofun

theorem Gives.imp {P Q : α → Prop} {o : Outcome α} (h : Gives P o) (hPQ : ∀ x, P x → Q x) :
    Gives Q o := by
  obtain ⟨x, rfl, hx⟩ := h
  exact ⟨x, rfl, hPQ x hx⟩

/-- A sequence gives what its second computation gives for the results of the first. -/
theorem Gives.bind {P : α → Prop} {Q : β → Prop} {o : Outcome α} {f : α → Outcome β}
    (h : Gives P o) (hf : ∀ x, P x → Gives Q (f x)) : Gives Q (o >>= f) := by
  obtain ⟨x, rfl, hx⟩ := h
  exact hf x hx

/-- A traversal succeeds when every member does. -/
theorem Gives.mapM {Q : β → Prop} {f : α → Outcome β} {xs : List α}
    (h : ∀ x ∈ xs, Gives Q (f x)) :
    Gives (fun ys => ys.length = xs.length ∧ ∀ y ∈ ys, Q y) (xs.mapM f) := by
  obtain ⟨ys, hys⟩ := exists_forall₂ h
  refine ⟨ys, mapM_eq_ok_iff.2 (hys.imp fun x y hy => hy.1), hys.length_eq.symm, fun y hy => ?_⟩
  obtain ⟨x, -, hx⟩ := exists_left_of_mem hys hy
  exact hx.2

/-! ## One computation after the model of another -/

/-- When the first computation succeeds, so does the second one, with a related result. -/
def Matches (R : α → β → Prop) (o : Outcome α) (o' : Outcome β) : Prop :=
  ∀ x, o = .ok x → ∃ y, o' = .ok y ∧ R x y

theorem Matches.ok {R : α → β → Prop} {x : α} {y : β} (h : R x y) :
    Matches R (.ok x) (.ok y) := by
  rintro _ ⟨⟩
  exact ⟨y, rfl, h⟩

theorem Matches.error {R : α → β → Prop} {e : Error} {o' : Outcome β} :
    Matches R (.error e) o' := nofun

/-- Sequences match if their first computations do and the second ones do for related results. -/
theorem Matches.bind {α' β' : Type} {R : α → β → Prop} {S : α' → β' → Prop} {o : Outcome α}
    {o' : Outcome β} {f : α → Outcome α'} {f' : β → Outcome β'} (h : Matches R o o')
    (hf : ∀ x y, R x y → Matches S (f x) (f' y)) : Matches S (o >>= f) (o' >>= f') := by
  intro z hz
  obtain ⟨x, hx, hz⟩ := bind_eq_ok_iff.1 hz
  obtain ⟨y, hy, hR⟩ := h x hx
  obtain ⟨z', hz', hS⟩ := hf x y hR z hz
  exact ⟨z', bind_eq_ok_iff.2 ⟨y, hy, hz'⟩, hS⟩

/-- Two computations that begin in the same way. -/
theorem Matches.bind_same {α' β' : Type} {S : α' → β' → Prop} {o : Outcome α}
    {f : α → Outcome α'} {f' : α → Outcome β'} (hf : ∀ x, Matches S (f x) (f' x)) :
    Matches S (o >>= f) (o >>= f') :=
  Matches.bind (R := Eq) (fun x hx => ⟨x, hx, rfl⟩) fun x _ hx => hx ▸ hf x

end Lockstep.Outcome
