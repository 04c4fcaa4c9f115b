import Lockstep.Proofs.Table
import Mathlib.Data.List.Forall2

/-!
# Tables side by side

`Matching R t u` says that two tables have the same keys in the same order, with related entries.
Reading and writing keep it (`Matching.get?`, `Matching.insert`), and so does making tables from
lists of entries (`Matching.ofList`, `Matching.union`).
-/

namespace Lockstep.Table

variable {α β γ : Type}

/-! ## What is in a table that was made of entries -/

/-- A table stays sorted when entries are put on top of it. -/
theorem sorted_union {t : Table α} (h : t.Sorted) (u : List (String × α)) :
    Sorted (union t u) := by
  induction u generalizing t with
  | nil => exact h
  | cons e u ih => exact ih (h.insert e.1 e.2)

theorem sorted_ofList (entries : List (String × α)) : Sorted (ofList entries) :=
  sorted_union (t := []) List.Pairwise.nil entries

/-- The keys are those of the table and those of the entries. -/
theorem mem_keys_union {u : List (String × α)} {t : Table α} {key : String} :
    key ∈ keys (union t u) ↔ key ∈ keys t ∨ key ∈ u.map Prod.fst := by
  induction u generalizing t with
  | nil => simp [union]
  | cons e u ih =>
    have hstep : union t (e :: u) = union (t.insert e.1 e.2) u := rfl
    rw [hstep, ih, mem_keys_insert, List.map_cons, List.mem_cons]
    constructor
    · rintro ((h | h) | h)
      · exact .inr (.inl h)
      · exact .inl h
      · exact .inr (.inr h)
    · rintro (h | h | h)
      · exact .inl (.inr h)
      · exact .inl (.inl h)
      · exact .inr h

theorem mem_keys_ofList {entries : List (String × α)} {key : String} :
    key ∈ keys (ofList entries) ↔ key ∈ entries.map Prod.fst :=
  (mem_keys_union (t := [])).trans (by simp)

/-- What no entry is about stays as it was. -/
theorem get?_union_of_not_mem {u : List (String × α)} {t : Table α} {key : String}
    (h : key ∉ u.map Prod.fst) : get? key (union t u) = get? key t := by
  induction u generalizing t with
  | nil => rfl
  | cons e u ih =>
    rw [List.map_cons, List.mem_cons, not_or] at h
    have hstep : union t (e :: u) = union (t.insert e.1 e.2) u := rfl
    rw [hstep, ih h.2, get?_insert_of_ne _ _ h.1]

/-- An entry decides about its key. -/
theorem get?_union_of_mem {u : List (String × α)} {t : Table α} {key : String} {v : α}
    (hu : (u.map Prod.fst).Nodup) (h : (key, v) ∈ u) : get? key (union t u) = some v := by
  induction u generalizing t with
  | nil => cases h
  | cons e u ih =>
    obtain ⟨hfirst, hrest⟩ := List.nodup_cons.1 hu
    have hstep : union t (e :: u) = union (t.insert e.1 e.2) u := rfl
    rw [hstep]
    rcases List.mem_cons.1 h with rfl | h
    · -- no later entry has this key
      rw [get?_union_of_not_mem hfirst, get?_insert_self]
    · exact ih hrest h

/-- A table from a list has the entries of the list. -/
theorem get?_ofList_of_mem {entries : List (String × α)} {key : String} {v : α}
    (hentries : (entries.map Prod.fst).Nodup) (h : (key, v) ∈ entries) :
    get? key (ofList entries) = some v := get?_union_of_mem (t := []) hentries h

/-- Nothing else is in it. -/
theorem mem_of_mem_union {u : List (String × α)} {t : Table α} {e : String × α}
    (h : e ∈ union t u) : e ∈ t ∨ e ∈ u := by
  induction u generalizing t with
  | nil => exact .inl h
  | cons e' u ih =>
    rcases ih (t := t.insert e'.1 e'.2) h with h | h
    · rcases mem_of_mem_insert h with rfl | h
      · exact .inr List.mem_cons_self
      · exact .inl h
    · exact .inr (List.mem_cons_of_mem _ h)

theorem mem_of_mem_ofList {entries : List (String × α)} {e : String × α}
    (h : e ∈ ofList entries) : e ∈ entries := by
  rcases mem_of_mem_union (t := []) h with h | h
  · cases h
  · exact h

/-- A table from a list without repeated keys looks up just what the list holds. -/
theorem get?_ofList_eq_some_iff {entries : List (String × α)} {key : String} {v : α}
    (hentries : (entries.map Prod.fst).Nodup) :
    get? key (ofList entries) = some v ↔ (key, v) ∈ entries :=
  ⟨fun h => mem_of_mem_ofList (mem_of_get?_eq_some h), get?_ofList_of_mem hentries⟩

/-- Entries for some of the elements of a list have names of elements, in order. -/
theorem sublist_keys_filterMap {ι : Type} (name : ι → String) (value : ι → Option α)
    (f : α → β) (xs : List ι) :
    ((xs.filterMap fun x => (value x).map fun v => (name x, f v)).map Prod.fst).Sublist
      (xs.map name) := by
  induction xs with
  | nil => exact List.Sublist.slnil
  | cons x rest ih =>
    rw [List.filterMap_cons]
    cases value x with
    | none => exact ih.cons _
    | some v => exact ih.cons_cons _

/-- Tables with the same keys have them in the same order. -/
theorem keys_eq_of_mem_iff {t : Table α} {u : Table β} (ht : t.Sorted) (hu : u.Sorted)
    (h : ∀ key, key ∈ t.keys ↔ key ∈ u.keys) : t.keys = u.keys := by
  have hperm : t.keys.Perm u.keys := (List.perm_ext_iff_of_nodup ht.nodup hu.nodup).2 h
  exact hperm.eq_of_pairwise (fun a b _ _ hab hba => absurd hba (not_lt_of_gt hab)) ht hu

/-- Putting in again what is there changes nothing. -/
theorem insert_eq_self {t : Table α} (ht : t.Sorted) {key : String} {v : α}
    (h : t.get? key = some v) : t.insert key v = t := by
  induction t with
  | nil => cases h
  | cons e rest ih =>
    obtain ⟨k, w⟩ := e
    obtain ⟨hlt, hrest⟩ := List.pairwise_cons.1 ht
    rw [get?] at h
    by_cases hk : k = key
    · subst hk
      rw [if_pos rfl] at h
      rw [insert, if_neg (String.lt_irrefl k), if_pos rfl, Option.some.inj h]
    · rw [if_neg hk] at h
      have hmem : key ∈ keys rest := mem_keys_of_mem (mem_of_get?_eq_some h)
      rw [insert, if_neg (String.lt_asymm (hlt key hmem)), if_neg (Ne.symm hk), ih hrest h]

/-! ## Two tables -/

/-- The tables have the same keys in the same order, with related entries. -/
def Matching (R : α → β → Prop) (t : Table α) (u : Table β) : Prop :=
  List.Forall₂ (fun e e' => e.1 = e'.1 ∧ R e.2 e'.2) t u

namespace Matching

variable {R : α → β → Prop} {t : Table α} {u : Table β}

/-- Tables that match have the same keys. -/
theorem keys (h : Matching R t u) : Table.keys t = Table.keys u := by
  induction h with
  | nil => rfl
  | cons he _ ih => rw [keys_cons, keys_cons, he.1, ih]

theorem sorted (h : Matching R t u) (hu : u.Sorted) : t.Sorted := by
  rw [Sorted, h.keys]
  exact hu

/-- What is looked up in one is related to what is looked up in the other. -/
theorem get? (h : Matching R t u) {key : String} {b : β} (hb : Table.get? key u = some b) :
    ∃ a, Table.get? key t = some a ∧ R a b := by
  induction h with
  | nil => cases hb
  | @cons e e' t u he _ ih =>
    obtain ⟨hkey, hR⟩ := he
    rw [Table.get?] at hb ⊢
    by_cases hk : e'.1 = key
    · rw [if_pos hk] at hb
      obtain rfl := Option.some.inj hb
      exact ⟨e.2, if_pos (hkey.trans hk), hR⟩
    · rw [if_neg hk] at hb
      rw [if_neg (hkey ▸ hk)]
      exact ih hb

/-- Every entry of one has its counterpart in the other. -/
theorem of_mem (h : Matching R t u) {e : String × α} (he : e ∈ t) :
    ∃ b, (e.1, b) ∈ u ∧ R e.2 b := by
  induction h with
  | nil => cases he
  | @cons e₁ e₂ _ _ hfirst _ ih =>
    rcases List.mem_cons.1 he with rfl | he
    · exact ⟨e₂.2, hfirst.1 ▸ List.mem_cons_self, hfirst.2⟩
    · obtain ⟨b, hb, hR⟩ := ih he
      exact ⟨b, List.mem_cons_of_mem _ hb, hR⟩

theorem imp {S : α → β → Prop} (h : Matching R t u) (hRS : ∀ a b, R a b → S a b) :
    Matching S t u := List.Forall₂.imp (fun _ _ he => ⟨he.1, hRS _ _ he.2⟩) h

theorem append (h : Matching R t u) {t' : Table α} {u' : Table β} (h' : Matching R t' u') :
    Matching R (t ++ t') (u ++ u') := by
  induction h with
  | nil => exact h'
  | cons he _ ih => exact .cons he ih

/-- Tables that match still do when related values are put at one key. -/
theorem insert (h : Matching R t u) (key : String) {a : α} {b : β} (hR : R a b) :
    Matching R (Table.insert key a t) (Table.insert key b u) := by
  induction h with
  | nil => exact .cons ⟨rfl, hR⟩ .nil
  | @cons e e' t u he hrest ih =>
    obtain ⟨k, v⟩ := e
    obtain ⟨k', v'⟩ := e'
    obtain rfl : k = k' := he.1
    rw [Table.insert, Table.insert]
    by_cases hlt : key < k
    · rw [if_pos hlt, if_pos hlt]
      exact .cons ⟨rfl, hR⟩ (.cons he hrest)
    · rw [if_neg hlt, if_neg hlt]
      by_cases hk : key = k
      · rw [if_pos hk, if_pos hk]
        exact .cons ⟨rfl, hR⟩ hrest
      · rw [if_neg hk, if_neg hk]
        exact .cons he ih

/-- Another entry in place of one that is there. -/
theorem insert_of_get? (h : Matching R t u) (hu : u.Sorted) {key : String} {a : α} {b : β}
    (hb : Table.get? key u = some b) (hR : R a b) : Matching R (Table.insert key a t) u := by
  have hinsert := h.insert key hR
  rwa [insert_eq_self hu hb] at hinsert

/-- Tables that match still do when entries that match are put on top of them. -/
theorem union (h : Matching R t u) {t' : List (String × α)} {u' : List (String × β)}
    (h' : Matching R t' u') : Matching R (Table.union t t') (Table.union u u') := by
  induction h' generalizing t u with
  | nil => exact h
  | @cons e e' _ _ he _ ih =>
    obtain ⟨k, v⟩ := e
    obtain ⟨k', v'⟩ := e'
    obtain rfl : k = k' := he.1
    exact ih (h.insert k he.2)

theorem ofList {t' : List (String × α)} {u' : List (String × β)} (h : Matching R t' u') :
    Matching R (Table.ofList t') (Table.ofList u') := union .nil h

theorem mapValues {f : α → γ} {S : γ → β → Prop} (h : Matching R t u)
    (hf : ∀ a b, R a b → S (f a) b) : Matching S (Table.mapValues f t) u := by
  induction h with
  | nil => exact .nil
  | cons he _ ih => exact .cons ⟨he.1, hf _ _ he.2⟩ ih

end Matching

end Lockstep.Table
