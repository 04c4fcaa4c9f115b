import Lockstep.Proofs.Json.Literal

/-!
# What readers make of written data

`Reads bound r j o` says all that a reader does with one value: it gives `o` when the arrays and
objects of the value are nested no deeper than allowed, and refuses it otherwise. The lemmas follow
the readers of lists, of entries and of records, so a reader of a whole format is settled part by
part.
-/

namespace Lockstep

namespace Json

mutual

/-- How many arrays and objects are nested in a value. -/
def depth : Json → Nat
  | .null | .bool _ | .number _ | .string _ => 0
  | .array items => itemsDepth items + 1
  | .object members => membersDepth members + 1

def itemsDepth : List Json → Nat
  | [] => 0
  | item :: rest => max item.depth (itemsDepth rest)

def membersDepth : List (Option String × Json) → Nat
  | [] => 0
  | (_, val) :: rest => max val.depth (membersDepth rest)

end

@[simp] theorem depth_text (s : String) : (text s).depth = 0 := rfl

@[simp] theorem depth_ofNat (n : Nat) : (ofNat n).depth = 0 := rfl

@[simp] theorem depth_ofFloat (x : Float) : (ofFloat x).depth = 0 := by
  rw [ofFloat]
  split <;> rfl

namespace Read

variable {α β : Type}

/-- A reader gives `o` for a value that is nested as deep as allowed, and nothing for a deeper one,
for all allowances below a bound. -/
def Reads (bound : Nat) (r : Reader α) (j : Json) (o : Option α) : Prop :=
  ∀ d < bound, r d j = if j.depth ≤ d then o else none

/-! ## Guarded steps -/

theorem bind_guard_left {p : Prop} [Decidable p] (o : Option α) (f : α → Option β) :
    (if p then o else none).bind f = if p then o.bind f else none := by
  split
  · rfl
  · rfl

theorem bind_guard_right {p : Prop} [Decidable p] (o : Option α) (f : α → Option β) :
    (o.bind fun x => if p then f x else none) = if p then o.bind f else none := by
  split
  · rfl
  · cases o with
    | none => rfl
    | some x => rfl

/-- Guarded steps one after another are the steps under all their guards. -/
theorem mapM_guarded {γ : Type} {p : γ → Prop} [DecidablePred p] (o : γ → Option α) (xs : List γ) :
    (xs.mapM fun x => if p x then o x else none) =
      if ∀ x ∈ xs, p x then xs.mapM o else none := by
  induction xs with
  | nil => rfl
  | cons x xs ih =>
    simp only [List.mapM_cons, ih, List.forall_mem_cons, ite_and, Option.bind_eq_bind,
      bind_guard_left, bind_guard_right]
    by_cases hx : p x
    · simp only [if_pos hx]
    · simp only [if_neg hx, ite_self]

theorem mapM_congr {γ : Type} {f g : γ → Option α} {xs : List γ} (h : ∀ x ∈ xs, f x = g x) :
    xs.mapM f = xs.mapM g := by
  induction xs with
  | nil => rfl
  | cons x xs ih =>
    obtain ⟨hx, hxs⟩ := List.forall_mem_cons.1 h
    rw [List.mapM_cons, List.mapM_cons, hx, ih hxs]

/-! ## Lists and entries -/

theorem itemsDepth_le_iff {items : List Json} {d : Nat} :
    itemsDepth items ≤ d ↔ ∀ item ∈ items, item.depth ≤ d := by
  induction items with
  | nil => simp [itemsDepth]
  | cons item rest ih => rw [itemsDepth, Nat.max_le, ih, List.forall_mem_cons]

theorem membersDepth_le_iff {members : List (Option String × Json)} {d : Nat} :
    membersDepth members ≤ d ↔ ∀ m ∈ members, m.2.depth ≤ d := by
  induction members with
  | nil => simp [membersDepth]
  | cons m rest ih => rw [membersDepth, Nat.max_le, ih, List.forall_mem_cons]

theorem reads_list {γ : Type} {bound : Nat} {r : Reader α} {f : γ → Json} {o : γ → Option α}
    {xs : List γ} (h : ∀ x ∈ xs, Reads bound r (f x) (o x)) :
    Reads bound (list r) (.array (xs.map f)) (xs.mapM o) := by
  intro d hd
  cases d with
  | zero => rfl
  | succ d =>
    have hread : (xs.map f).mapM (r d) =
        xs.mapM fun x => if (f x).depth ≤ d then o x else none := by
      rw [List.mapM_map]
      exact mapM_congr fun x hx => h x hx d (by omega)
    rw [list, hread, mapM_guarded]
    simp only [depth, Nat.add_le_add_iff_right, itemsDepth_le_iff, List.forall_mem_map]

theorem mapM_some (xs : List α) : xs.mapM (some : α → Option α) = some xs :=
  (List.mapM_pure).trans (congrArg some (List.map_id' xs))

/-- A list of which every item is read back is read back. -/
theorem reads_list_some {bound : Nat} {r : Reader α} {f : α → Json} {xs : List α}
    (h : ∀ x ∈ xs, Reads bound r (f x) (some x)) :
    Reads bound (list r) (.array (xs.map f)) (some xs) := by
  rw [← mapM_some xs]
  exact reads_list h

theorem reads_entries {γ : Type} {bound : Nat} {r : Reader α} {f : γ → String × Json}
    {o : γ → Option α} {xs : List γ} (h : ∀ x ∈ xs, Reads bound r (f x).2 (o x)) :
    Reads bound (entries r) (.record (xs.map f))
      (xs.mapM fun x => (o x).map ((f x).1, ·)) := by
  intro d hd
  cases d with
  | zero => rfl
  | succ d =>
    have hread : (xs.map f).mapM (fun m => (r d m.2).map (m.1, ·)) =
        xs.mapM fun x => if (f x).2.depth ≤ d then (o x).map ((f x).1, ·) else none := by
      rw [List.mapM_map]
      refine mapM_congr fun x hx => ?_
      rw [Function.comp_apply, h x hx d (by omega)]
      split
      · rfl
      · rfl
    have hentries : entries r (d + 1) (.record (xs.map f)) =
        (xs.map f).mapM (fun m => (r d m.2).map (m.1, ·)) := by
      rw [record, entries, List.mapM_map]
      refine mapM_congr fun m _ => ?_
      rw [Function.comp_apply]
      cases r d m.2 with
      | none => rfl
      | some x => rfl
    rw [hentries, hread, mapM_guarded]
    simp only [record, depth, Nat.add_le_add_iff_right, membersDepth_le_iff, List.forall_mem_map]

/-! ## Records -/

/-- Under a name that no other member has stands just one member. -/
theorem filter_name {entries : List (String × Json)} (h : (entries.map Prod.fst).Nodup)
    {e : String × Json} (he : e ∈ entries) : entries.filter (·.1 = e.1) = [e] := by
  induction entries with
  | nil => cases he
  | cons m rest ih =>
    obtain ⟨hm, hrest⟩ := List.nodup_cons.1 h
    rcases List.mem_cons.1 he with rfl | he
    · have hnone : rest.filter (·.1 = e.1) = [] := by
        refine List.filter_eq_nil_iff.2 fun m' hm' heq => hm ?_
        rw [← of_decide_eq_true heq]
        exact List.mem_map_of_mem hm'
      rw [List.filter_cons_of_pos (by simp), hnone]
    · have hne : m.1 ≠ e.1 := fun heq => hm (heq ▸ List.mem_map_of_mem he)
      rw [List.filter_cons_of_neg (by rw [decide_eq_false hne]; decide), ih hrest he]

/-- The fields of a record are found under their names. -/
theorem fields_record (names : List String) {entries : List (String × Json)}
    (h : entries.map Prod.fst = names) (hnodup : names.Nodup) (d : Nat) :
    fields names (d + 1) (.record entries) = some (entries.map fun e => some e.2) := by
  subst h
  have hmembers : (entries.map fun e => (some e.1, e.2)).mapM
      (fun m : Option String × Json => do return (← m.1, m.2)) = some entries := by
    rw [List.mapM_map]
    exact (List.mapM_pure).trans (congrArg some (List.map_id _))
  rw [record, fields, hmembers, Option.bind_eq_bind, Option.bind_some, List.mapM_map]
  refine (mapM_congr fun e he => ?_).trans List.mapM_pure
  rw [Function.comp_apply, filter_name hnodup he]
  rfl

theorem depth_record (entries : List (String × Json)) (d : Nat) :
    (record entries).depth ≤ d + 1 ↔ ∀ e ∈ entries, e.2.depth ≤ d := by
  simp only [record, depth, Nat.add_le_add_iff_right, membersDepth_le_iff, List.forall_mem_map]

/-- A reader that goes on with the fields of a record. -/
theorem reads_fields (names : List String) {entries : List (String × Json)}
    (h : entries.map Prod.fst = names) (hnodup : names.Nodup) {bound : Nat} {o : Option α}
    {k : Nat → List (Option Json) → Option α}
    (hk : ∀ d, d + 1 < bound → k (d + 1) (entries.map fun e => some e.2) =
      if ∀ e ∈ entries, e.2.depth ≤ d then o else none) :
    Reads bound (fun depth j => (fields names depth j).bind (k depth)) (.record entries) o := by
  intro d hd
  cases d with
  | zero => rfl
  | succ d =>
    simp only [fields_record names h hnodup, Option.bind_some, hk d hd, depth_record]

theorem required_some {bound d : Nat} {r : Reader α} {j : Json} {o : Option α}
    (h : Reads bound r j o) (hd : d + 1 < bound) :
    required r (d + 1) (some j) = if j.depth ≤ d then o else none :=
  h d (by omega)

/-- A value that is neither an array nor an object is read at any depth. -/
theorem reads_scalar {bound : Nat} {r : Reader α} {j : Json} {o : Option α} (hj : j.depth = 0)
    (h : ∀ d, r d j = o) : Reads bound r j o := by
  intro d _
  rw [h, hj, if_pos (Nat.zero_le d)]

/-- A tag is found in the record that holds just it. -/
theorem tagged_record (tag : String) (j : Json) (d : Nat) :
    tagged (d + 1) (.record [(tag, j)]) = some (tag, some j) := rfl

end Read

end Json

end Lockstep
