/-!
# Lists cut into pieces and chosen by masks

`pieces length count xs` cuts the first `count` pieces of one length off a list. When the list is
exactly that long, nothing is lost and every piece is full. `allPieces length xs` goes on to the end
of the list, where a shorter piece may be left. A mask chooses, place by place, from one of two
lists.
-/

namespace Lockstep

/-- The first `count` pieces of the given length. -/
def pieces {α : Type} (length : Nat) : (count : Nat) → List α → List (List α)
  | 0, _ => []
  | count + 1, xs => xs.take length :: pieces length count (xs.drop length)

/-- All pieces of the given length; the last one holds what is left. -/
def allPieces {α : Type} (length : Nat) (xs : List α) : List (List α) :=
  pieces length ((xs.length + length - 1) / length) xs

variable {α : Type} {length : Nat}

/-- A list that pieces fill exactly leaves no shorter piece. -/
theorem allPieces_eq {count : Nat} {xs : List α} (hl : 0 < length)
    (h : xs.length = count * length) : allPieces length xs = pieces length count xs := by
  have : (count * length + length - 1) / length = count := by
    rw [Nat.add_sub_assoc hl, Nat.mul_comm, Nat.mul_add_div hl,
      Nat.div_eq_of_lt (Nat.sub_lt hl Nat.one_pos), Nat.add_zero]
  rw [allPieces, h, this]

theorem length_pieces : ∀ {count : Nat} {xs : List α}, (pieces length count xs).length = count
  | 0, _ => rfl
  | count + 1, _ => by rw [pieces, List.length_cons, length_pieces]

theorem length_of_mem_pieces :
    ∀ {count : Nat} {xs : List α}, xs.length = count * length →
      ∀ p ∈ pieces length count xs, p.length = length
  | 0, _, _, _, hp => by simp [pieces] at hp
  | count + 1, xs, h, p, hp => by
    rw [Nat.succ_mul] at h
    rcases List.mem_cons.1 hp with rfl | hp
    · rw [List.length_take]; omega
    · exact length_of_mem_pieces (by rw [List.length_drop]; omega) p hp

theorem flatten_pieces :
    ∀ {count : Nat} {xs : List α}, xs.length = count * length →
      (pieces length count xs).flatten = xs
  | 0, xs, h => by
    have : xs = [] := List.eq_nil_of_length_eq_zero (by rw [h, Nat.zero_mul])
    simp [pieces, this]
  | count + 1, xs, h => by
    rw [Nat.succ_mul] at h
    rw [pieces, List.flatten_cons, flatten_pieces (by rw [List.length_drop]; omega),
      List.take_append_drop]

/-- Joined lists of one length are cut into these lists again. -/
theorem pieces_flatten_of_length :
    ∀ {xss : List (List α)}, (∀ xs ∈ xss, xs.length = length) →
      pieces length xss.length xss.flatten = xss
  | [], _ => rfl
  | xs :: xss, h => by
    have hxs := h xs List.mem_cons_self
    rw [List.length_cons, List.flatten_cons, pieces, List.take_left' hxs, List.drop_left' hxs,
      pieces_flatten_of_length fun ys hys => h ys (List.mem_cons_of_mem _ hys)]

end Lockstep

/-! ## Masks -/

namespace Lockstep.Mask

variable {α : Type}

/-- Place by place the first list where the mask holds, else the second one. -/
def choose : List Bool → List α → List α → List α
  | m :: mask, t :: onTrue, f :: onFalse => (if m then t else f) :: choose mask onTrue onFalse
  | _, _, _ => []

theorem mem_of_mem_choose {x : α} :
    ∀ {mask : List Bool} {ts fs : List α}, x ∈ choose mask ts fs → x ∈ ts ∨ x ∈ fs
  | [], _, _, h => by simp [choose] at h
  | _ :: _, [], _, h => by simp [choose] at h
  | _ :: _, _ :: _, [], h => by simp [choose] at h
  | m :: mask, t :: ts, f :: fs, h => by
    rcases List.mem_cons.1 h with rfl | h
    · cases m <;> simp
    · rcases mem_of_mem_choose h with h | h <;> simp [h]

theorem length_choose :
    ∀ {mask : List Bool} {ts fs : List α}, ts.length = mask.length → fs.length = mask.length →
      (choose mask ts fs).length = mask.length
  | [], _, _, _, _ => by simp [choose]
  | _ :: _, [], _, h, _ => by simp at h
  | _ :: _, _ :: _, [], _, h => by simp at h
  | _ :: mask, _ :: ts, _ :: fs, ht, hf => by
    simp only [List.length_cons, Nat.add_right_cancel_iff] at ht hf
    simp [choose, length_choose ht hf]

/-- A mask that holds everywhere chooses the first list. -/
theorem choose_replicate_true :
    ∀ {ts fs : List α}, ts.length = fs.length → choose (List.replicate fs.length true) ts fs = ts
  | [], [], _ => rfl
  | t :: ts, _ :: fs, h => by
    rw [List.length_cons, List.replicate_succ, choose, if_pos rfl,
      choose_replicate_true (Nat.succ.inj h)]

theorem getElem?_choose :
    ∀ {mask : List Bool} {ts fs : List α} {i : Nat} {m : Bool} {t f : α}, mask[i]? = some m →
      ts[i]? = some t → fs[i]? = some f →
      (choose mask ts fs)[i]? = some (if m then t else f)
  | _ :: _, _ :: _, _ :: _, 0, _, _, _, hm, ht, hf => by
    rw [choose, ← Option.some.inj hm, ← Option.some.inj ht, ← Option.some.inj hf]
    rfl
  | _ :: mask, _ :: ts, _ :: fs, i + 1, _, _, _, hm, ht, hf =>
    @getElem?_choose mask ts fs i _ _ _ hm ht hf

end Lockstep.Mask
