import Lockstep.Table
import Mathlib.Data.List.Perm.Subperm
import Mathlib.Data.String.Basic

/-!
# Looking entries up

In a table whose keys ascend every entry is found under its key, and two such tables of one length
have the same keys as soon as one has all keys of the other.
-/

namespace Lockstep.Table

variable {α β : Type}

@[simp] theorem keys_nil : keys ([] : Table α) = [] := rfl

@[simp] theorem keys_cons (e : String × α) (t : Table α) : keys (e :: t) = e.1 :: keys t := rfl

theorem mem_keys_of_mem {t : Table α} {e : String × α} (h : e ∈ t) : e.1 ∈ t.keys :=
  List.mem_map_of_mem h

theorem length_keys (t : Table α) : t.keys.length = t.length := List.length_map ..

@[simp] theorem keys_mapValues (f : α → β) (t : Table α) : (t.mapValues f).keys = t.keys := by
  rw [keys, keys, mapValues, List.map_map]
  rfl

theorem get?_mapValues (f : α → β) (t : Table α) (key : String) :
    (t.mapValues f).get? key = (t.get? key).map f := by
  induction t with
  | nil => rfl
  | cons e rest ih =>
    rw [mapValues, List.map_cons, get?, get?]
    by_cases hk : e.1 = key
    · rw [if_pos hk, if_pos hk, Option.map_some]
    · rw [if_neg hk, if_neg hk]
      exact ih

theorem mapValues_insert (f : α → β) (t : Table α) (key : String) (v : α) :
    (t.insert key v).mapValues f = (t.mapValues f).insert key (f v) := by
  induction t with
  | nil => rfl
  | cons e rest ih =>
    simp only [mapValues, List.map_cons, insert] at ih ⊢
    split
    · rfl
    · split
      · rfl
      · rw [List.map_cons, ih]

theorem mapValues_mapValues {γ : Type} (f : α → β) (g : β → γ) (t : Table α) :
    (t.mapValues f).mapValues g = t.mapValues fun x => g (f x) := by
  rw [mapValues, mapValues, List.map_map]
  rfl

theorem mapValues_eq_self_iff {f : α → α} {t : Table α} :
    t.mapValues f = t ↔ ∀ e ∈ t, f e.2 = e.2 := by
  induction t with
  | nil => simp [mapValues]
  | cons e rest ih =>
    rw [List.forall_mem_cons, ← ih, mapValues, mapValues, List.map_cons, List.cons.injEq]
    exact and_congr_left fun _ => ⟨fun h => congrArg Prod.snd h, fun h => Prod.ext rfl h⟩

instance (t : Table α) : Decidable t.Sorted :=
  inferInstanceAs (Decidable (t.keys.Pairwise (· < ·)))

theorem Sorted.nodup {t : Table α} (h : t.Sorted) : t.keys.Nodup :=
  h.imp fun hlt => ne_of_lt hlt

theorem Sorted.of_keys {t : Table α} {u : Table β} (h : t.Sorted)
    (hkeys : u.keys = t.keys) : u.Sorted := by
  rw [Table.Sorted, hkeys]
  exact h

theorem mem_of_get?_eq_some {t : Table α} {key : String} {v : α} (h : t.get? key = some v) :
    (key, v) ∈ t := by
  induction t with
  | nil => cases h
  | cons e rest ih =>
    obtain ⟨k, u⟩ := e
    rw [get?] at h
    by_cases hk : k = key
    · rw [if_pos hk] at h
      rw [← hk, Option.some.inj h]
      exact List.mem_cons_self
    · rw [if_neg hk] at h
      exact List.mem_cons_of_mem _ (ih h)

theorem get?_eq_some_of_mem {t : Table α} (hn : t.keys.Nodup) {key : String} {v : α}
    (h : (key, v) ∈ t) : t.get? key = some v := by
  induction t with
  | nil => cases h
  | cons e rest ih =>
    obtain ⟨hk, hn⟩ := List.nodup_cons.1 hn
    rw [get?]
    rcases List.mem_cons.1 h with rfl | h
    · exact if_pos rfl
    · have hne : e.1 ≠ key := fun he => hk (he ▸ mem_keys_of_mem h)
      rw [if_neg hne]
      exact ih hn h

theorem Sorted.get?_eq_some_iff {t : Table α} (h : t.Sorted) {key : String} {v : α} :
    t.get? key = some v ↔ (key, v) ∈ t :=
  ⟨mem_of_get?_eq_some, get?_eq_some_of_mem h.nodup⟩

/-- What stands before an entry has a lower key, and nothing else has. -/
theorem Sorted.mem_front_iff {front back : Table α} {e e' : String × α}
    (h : Sorted (front ++ e :: back)) : e' ∈ front ↔ e' ∈ front ++ e :: back ∧ e'.1 < e.1 := by
  rw [Sorted, keys, List.map_append, List.pairwise_append] at h
  obtain ⟨-, hback, hfront⟩ := h
  constructor
  · intro he
    exact ⟨List.mem_append_left _ he, hfront _ (List.mem_map_of_mem he) _ List.mem_cons_self⟩
  · rintro ⟨he, hlt⟩
    rcases List.mem_append.1 he with he | he
    · exact he
    · rcases List.mem_cons.1 he with rfl | he
      · exact absurd hlt (String.lt_irrefl _)
      · have hgt := (List.pairwise_cons.1 hback).1 _ (List.mem_map_of_mem he)
        exact absurd hlt (String.lt_asymm hgt)

theorem get?_eq_none_iff {t : Table α} {key : String} : t.get? key = none ↔ key ∉ t.keys := by
  induction t with
  | nil => simp [get?]
  | cons e rest ih =>
    rw [get?, keys_cons, List.mem_cons, not_or, ← ih]
    by_cases hk : e.1 = key
    · simp [hk]
    · simp [hk, Ne.symm hk]

theorem get?_isSome_iff {t : Table α} {key : String} : (t.get? key).isSome ↔ key ∈ t.keys := by
  rw [Option.isSome_iff_ne_none, Ne, get?_eq_none_iff, not_not]

theorem mem_of_mem_insert {t : Table α} {key : String} {v : α} {e : String × α}
    (h : e ∈ t.insert key v) : e = (key, v) ∨ e ∈ t := by
  induction t with
  | nil => exact Or.inl (List.mem_singleton.1 h)
  | cons e' rest ih =>
    obtain ⟨k, u⟩ := e'
    rw [Table.insert] at h
    split at h
    · exact List.mem_cons.1 h
    · split at h
      · rcases List.mem_cons.1 h with rfl | h
        · exact Or.inl rfl
        · exact Or.inr (List.mem_cons_of_mem _ h)
      · rcases List.mem_cons.1 h with rfl | h
        · exact Or.inr List.mem_cons_self
        · rcases ih h with rfl | h
          · exact Or.inl rfl
          · exact Or.inr (List.mem_cons_of_mem _ h)

/-- The entries under the given keys, in their order. -/
def pick (names : List String) (t : Table α) : Table α :=
  names.filterMap fun name => (t.get? name).map fun v => (name, v)

theorem pick_cons {names : List String} {t : Table α} {name : String} {v : α}
    (h : t.get? name = some v) : t.pick (name :: names) = (name, v) :: t.pick names := by
  rw [pick, List.filterMap_cons, h]
  rfl

/-- Picking all keys of a table gives the table. -/
theorem pick_keys {t : Table α} (h : t.keys.Nodup) : t.pick t.keys = t := by
  induction t with
  | nil => rfl
  | cons e rest ih =>
    obtain ⟨hk, hn⟩ := List.nodup_cons.1 h
    rw [keys_cons, pick_cons (v := e.2) (by rw [get?, if_pos rfl])]
    have hrest : pick (keys rest) (e :: rest) = pick (keys rest) rest := by
      apply List.filterMap_congr
      intro name hname
      have hne : e.1 ≠ name := fun he => hk (he ▸ hname)
      rw [get?, if_neg hne]
    rw [hrest, ih hn]

theorem keys_eq_of_subset {t : Table α} {u : Table β} (ht : t.Sorted) (hu : u.Sorted)
    (hl : u.length = t.length) (h : ∀ name ∈ t.keys, name ∈ u.keys) : u.keys = t.keys := by
  have hsub : List.Subperm t.keys u.keys := List.subperm_of_subset ht.nodup h
  have hperm : t.keys.Perm u.keys :=
    hsub.perm_of_length_le (by rw [length_keys, length_keys, hl])
  exact (hperm.eq_of_pairwise (fun a b _ _ hab hba => absurd hba (not_lt_of_gt hab)) ht hu).symm

/-- Tables with the same entries are equal. -/
theorem Sorted.eq_of_mem_iff {t u : Table α} (ht : t.Sorted) (hu : u.Sorted)
    (h : ∀ e, e ∈ t ↔ e ∈ u) : t = u := by
  have hnodup : ∀ {v : Table α}, v.Sorted → v.Nodup := fun hv =>
    List.Pairwise.of_map Prod.fst (fun _ _ hne he => hne (congrArg Prod.fst he)) hv.nodup
  have hperm : t.Perm u := (List.perm_ext_iff_of_nodup (hnodup ht) (hnodup hu)).2 h
  exact hperm.eq_of_pairwise (fun a b _ _ hab hba => absurd hba (not_lt_of_gt hab))
    (List.pairwise_map.1 ht) (List.pairwise_map.1 hu)

/-- Tables with the same keys and the same image under each of them have the same image. -/
theorem mapValues_eq_of_get? {f : α → β} {t : Table α} :
    ∀ {u : Table α}, t.keys.Nodup → t.keys = u.keys →
      (∀ key v w, t.get? key = some v → u.get? key = some w → f v = f w) →
      t.mapValues f = u.mapValues f := by
  induction t with
  | nil =>
    intro u _ hkeys _
    rw [List.map_eq_nil_iff.1 hkeys.symm]
  | cons e t ih =>
    intro u hnodup hkeys h
    obtain ⟨hnew, hrest⟩ := List.nodup_cons.1 hnodup
    cases u with
    | nil => cases hkeys
    | cons e' u =>
      obtain ⟨hkey, htail⟩ := List.cons.inj hkeys
      obtain ⟨key, v⟩ := e
      obtain ⟨key', w⟩ := e'
      obtain rfl : key = key' := hkey
      have hfirst : f v = f w := h key v w (if_pos rfl) (if_pos rfl)
      -- the other keys are looked up behind the first entry
      have hsame : mapValues f t = mapValues f u := by
        refine ih hrest htail fun k v' w' hv hw => ?_
        have hne : key ≠ k := by
          rintro rfl
          have hmem := mem_keys_of_mem (mem_of_get?_eq_some hv)
          exact hnew hmem
        exact h k v' w' ((if_neg hne).trans hv) ((if_neg hne).trans hw)
      rw [mapValues, List.map_cons, hfirst]
      exact congrArg _ hsame

/-- An entry whose key is above all others goes to the end. -/
theorem insert_of_forall_lt {t : Table α} {key : String} (h : ∀ k ∈ t.keys, k < key) (v : α) :
    t.insert key v = t ++ [(key, v)] := by
  induction t with
  | nil => rfl
  | cons e rest ih =>
    obtain ⟨hlt, hrest⟩ := List.forall_mem_cons.1 h
    rw [insert, if_neg (String.lt_asymm hlt), if_neg (String.ne_of_lt hlt).symm, ih hrest]
    rfl

/-- A function on every entry may come before or after the table is made. -/
theorem mapValues_ofList (f : α → β) (entries : List (String × α)) :
    (ofList entries).mapValues f = ofList (entries.map fun e => (e.1, f e.2)) := by
  have hfold : ∀ t : Table α, (entries.foldl (fun t e => t.insert e.1 e.2) t).mapValues f =
      (entries.map fun e => (e.1, f e.2)).foldl (fun t e => t.insert e.1 e.2) (t.mapValues f) := by
    induction entries with
    | nil => exact fun _ => rfl
    | cons e rest ih =>
      intro t
      rw [List.foldl_cons, ih, mapValues_insert]
      rfl
  exact hfold []

/-- Ascending entries are the table that they make. -/
theorem ofList_of_sorted {t : Table α} (h : t.Sorted) : ofList t = t := by
  have hfold : ∀ (front back : Table α), Table.Sorted (front ++ back) →
      back.foldl (fun t e => t.insert e.1 e.2) front = front ++ back := by
    intro front back
    induction back generalizing front with
    | nil => exact fun _ => (List.append_nil front).symm
    | cons e back ih =>
      intro hsorted
      have hlt : ∀ k ∈ front.keys, k < e.1 := by
        intro k hk
        rw [Sorted, keys, List.map_append] at hsorted
        exact (List.pairwise_append.1 hsorted).2.2 k hk e.1 List.mem_cons_self
      rw [List.foldl_cons, insert_of_forall_lt hlt, ih]
      · rw [List.append_assoc]
        rfl
      · rwa [List.append_assoc]
  exact hfold [] t h

end Lockstep.Table
