import Lockstep.Proofs.State.Inverse
import Lockstep.Proofs.State.Leaf
import Lockstep.Proofs.State.Placements

/-!
# Lanes in row-major order

The lane at a multi-index of a batch stands at its row-major position (`position`), and it has of
every leaf what the batch has there (`State.leaf_of_flatten`). Lanes that are put together fill the
batch axes that they get, and putting lanes together and splitting a batch into its lanes undo each
other (`State.flatten_unflatten_inverse`).
-/

namespace Lockstep

/-! ## Positions -/

/-- The number of a multi-index in row-major order. -/
def position : List Nat → List Nat → Nat
  | _ :: dims, i :: index => i * volume dims + position dims index
  | _, _ => 0

theorem position_lt {dims index : List Nat} (h : List.Forall₂ (· < ·) index dims) :
    position dims index < volume dims := by
  induction h with
  | nil => exact Nat.one_pos
  | @cons i count index dims hi _ ih =>
    rw [position, volume_cons]
    calc i * volume dims + position dims index < i * volume dims + volume dims := by omega
      _ = (i + 1) * volume dims := (Nat.succ_mul _ _).symm
      _ ≤ count * volume dims := Nat.mul_le_mul_right _ hi

/-- The multi-index with a number in row-major order: its digits to the bases that the axes are, the
last digit running fastest. -/
def digits : List Nat → Nat → List Nat
  | [], _ => []
  | _ :: dims, m => m / volume dims :: digits dims (m % volume dims)

theorem digits_lt {dims : List Nat} :
    ∀ {m : Nat}, m < volume dims → List.Forall₂ (· < ·) (digits dims m) dims := by
  induction dims with
  | nil => exact fun _ => .nil
  | cons count dims ih =>
    intro m h
    rw [volume_cons] at h
    have hpos : 0 < volume dims := Nat.pos_of_mul_pos_left (Nat.zero_lt_of_lt h)
    exact .cons (Nat.div_lt_of_lt_mul (Nat.mul_comm count _ ▸ h)) (ih (Nat.mod_lt m hpos))

theorem position_digits {dims : List Nat} :
    ∀ {m : Nat}, m < volume dims → position dims (digits dims m) = m := by
  induction dims with
  | nil =>
    intro m h
    exact (Nat.lt_one_iff.1 h).symm
  | cons count dims ih =>
    intro m h
    rw [volume_cons] at h
    have hpos : 0 < volume dims := Nat.pos_of_mul_pos_left (Nat.zero_lt_of_lt h)
    rw [digits, position, ih (Nat.mod_lt m hpos), Nat.mul_comm, Nat.div_add_mod]

theorem digits_position {dims index : List Nat} (h : List.Forall₂ (· < ·) index dims) :
    digits dims (position dims index) = index := by
  induction h with
  | nil => rfl
  | @cons i count index dims hi hindex ih =>
    have hlt := position_lt hindex
    have hpos : 0 < volume dims := Nat.zero_lt_of_lt hlt
    rw [position, digits, Nat.add_comm, Nat.add_mul_div_right _ _ hpos, Nat.div_eq_of_lt hlt,
      Nat.zero_add, Nat.add_mul_mod_self_right, Nat.mod_eq_of_lt hlt, ih]

theorem volume_pos {dims : List Nat} (h : ∀ d ∈ dims, d ≠ 0) : 0 < volume dims := by
  induction dims with
  | nil => exact Nat.one_pos
  | cons d dims ih =>
    obtain ⟨hd, hdims⟩ := List.forall_mem_cons.1 h
    exact Nat.mul_pos (Nat.pos_of_ne_zero hd) (ih hdims)

/-- What a tensor has at the given indices along its first axes. -/
def Tensor.entry : List Nat → Tensor → Option Tensor
  | [], t => some t
  | i :: index, t => t.rows[i]?.bind (entry index)

namespace State

/-- The lanes of an instance stand together among the lanes of the batch. -/
theorem lanes_of_part {s : State} {count : Nat} {dims : List Nat} {ls : List State}
    (hdims : s.batchDims = count :: dims) (h : s.flatten = .ok ls) {i : Nat} (hi : i < count) :
    ∃ xs part, s.unstack = .ok xs ∧ xs.length = count ∧ xs[i]? = some (s.part i) ∧
      (s.part i).batchDims = dims ∧ (s.part i).flatten = .ok part ∧
      ∀ m < volume dims, ls[i * volume dims + m]? = part[m]? := by
  obtain ⟨xs, lss, hxs, hcount, hxdims, hlss, rfl⟩ := parts_of_flatten hdims h
  have hpart : xs[i]? = some (s.part i) := (getElem?_of_unstack hxs).2 ⟨hcount ▸ hi, rfl⟩
  obtain ⟨part, hlanes, hflat⟩ := Outcome.exists_of_forall₂ hlss hpart
  refine ⟨xs, part, hxs, hcount, hpart, hxdims _ (List.mem_of_getElem? hpart), hflat, ?_⟩
  intro m hm
  rw [getElem?_flatten_of_length (length_of_flatten_of_mem hxdims hlss) hm, hlanes]
  rfl

/-- The lane at a multi-index has the entries of the batch there. -/
theorem leaf_of_flatten {dims : List Nat} :
    ∀ {s : State} {ls : List State}, s.batchDims = dims → s.flatten = .ok ls →
      ∀ {qualified : String} {t : Tensor}, s.leaf qualified = .ok t →
        ∀ {index : List Nat}, List.Forall₂ (· < ·) index dims →
          ∃ l u, ls[position dims index]? = some l ∧ l.leaf qualified = .ok u ∧
            t.entry index = some u := by
  induction dims with
  | nil =>
    intro s ls hdims h qualified t ht index hindex
    cases hindex
    rw [flatten_unbatched hdims, Except.ok.injEq] at h
    subst h
    exact ⟨s, t, rfl, ht, rfl⟩
  | cons count dims ih =>
    intro s ls hdims h qualified t ht index hindex
    cases hindex with
    | @cons i _ index _ hi hindex =>
      -- the first index chooses an instance, the others choose among its lanes
      obtain ⟨xs, part, hxs, hcount, -, hpdims, hflat, hlanes⟩ := lanes_of_part hdims h hi
      obtain ⟨l, u, hl, hu, hentry⟩ := ih hpdims hflat (leaf_part ht i) hindex
      refine ⟨l, u, ?_, hu, ?_⟩
      · rw [position, hlanes _ (position_lt hindex)]
        exact hl
      · obtain ⟨inner, hshape⟩ := shape_of_leaf ht (unstack_eq_ok_iff_parts.1 hxs).1
        rw [Tensor.entry, getElem?_rows_row hshape (hcount ▸ hi)]
        exact hentry

/-! ## Both directions -/

/-- The lanes of a batch without split batch axes are put together to the batch again. -/
theorem unflatten_of_flatten {dims : List Nat} :
    ∀ {s : State} {ls : List State}, s.batchDims = dims → s.Ordered → s.HoldsArrays →
      s.Everywhere splitsInside → 0 < ls.length → ls.length < UInt64.size →
      s.flatten = .ok ls → unflatten dims ls = .ok s := by
  induction dims with
  | nil =>
    intro s ls hdims _ _ _ _ _ h
    rw [flatten_unbatched hdims, Except.ok.injEq] at h
    exact unflatten_nil_eq_ok_iff.2 h.symm
  | cons count dims ih =>
    intro s ls hdims hordered harrays hsplits hpos hlt h
    have hlength : ls.length = count * volume dims := length_of_flatten hdims h
    obtain ⟨xs, lss, hxs, hxcount, hxdims, hlss, rfl⟩ := parts_of_flatten hdims h
    have hpart := length_of_flatten_of_mem hxdims hlss
    have hcount : lss.length = count := hlss.length_eq.symm.trans hxcount
    have hinner : 0 < volume dims := Nat.pos_of_mul_pos_left (hlength ▸ hpos)
    have hle : volume dims ≤ count * volume dims :=
      Nat.le_mul_of_pos_left _ (Nat.pos_of_mul_pos_right (hlength ▸ hpos))
    -- the lanes are cut where the parts end, and the parts stack to the batch
    rw [unflatten_eq_of_length hlength (hlength ▸ hpos) (hlength ▸ hlt), ← hcount,
      pieces_flatten_of_length hpart]
    refine ⟨xs, ?_, stack_of_unstack hordered
      (hsplits.imp fun _ => splitsInside.outermostWhole) harrays hxs ?_⟩
    · rw [Outcome.mapM_eq_ok_iff]
      refine Outcome.forall₂_of_forall hlss.length_eq.symm fun i l x hl hx => ?_
      obtain ⟨l', hl', hflat⟩ := Outcome.exists_of_forall₂ hlss hx
      obtain rfl := Option.some.inj (hl.symm.trans hl')
      have hmem := List.mem_of_getElem? hx
      have hsize := hpart l (List.mem_of_getElem? hl)
      exact ih (hxdims x hmem) (hordered.unstack hxs hmem) (harrays.unstack hxs hmem)
        (hsplits.unstack unstackKeeps_splitsInside hxs hmem) (hsize ▸ hinner)
        (hsize ▸ lt_of_le_of_lt hle (hlength ▸ hlt)) hflat
    · rintro rfl
      cases hlss
      exact absurd hpos (Nat.lt_irrefl 0)

/-- **Lanes and batches.** Lanes that are put together get the batch axes that were asked for, and
fill them. The batch is split into the lanes again, and the lane at a multi-index has the entries of
the batch there. The lanes of a batch, none of whose batch axes is empty or split over devices, are
put together to the batch again. -/
theorem flatten_unflatten_inverse (s : State) (ls : List State) (dims : List Nat) :
    ((∀ l ∈ ls, l.Ordered ∧ l.batchDims = []) → unflatten dims ls = .ok s →
      s.batchDims = dims ∧ volume dims = ls.length ∧ s.flatten = .ok ls ∧
        ∀ qualified t, s.leaf qualified = .ok t → ∀ index, List.Forall₂ (· < ·) index dims →
          ∃ l u, ls[position dims index]? = some l ∧ l.leaf qualified = .ok u ∧
            t.entry index = some u) ∧
    (s.Ordered → s.HoldsArrays → s.Everywhere splitsInside → (∀ d ∈ s.batchDims, d ≠ 0) →
      ls.length < UInt64.size → s.flatten = .ok ls → unflatten s.batchDims ls = .ok s) := by
  refine ⟨fun hls h => ?_, fun hordered harrays hsplits hne hlt h => ?_⟩
  · have hdims := batchDims_of_unflatten (fun l hl => (hls l hl).2) h
    have hflat := flatten_unflatten hls h
    exact ⟨hdims, (length_of_unflatten h).1.symm, hflat,
      fun qualified t ht index hindex => leaf_of_flatten hdims hflat ht hindex⟩
  · have hpos : 0 < ls.length := by
      rw [length_of_flatten rfl h]
      exact volume_pos hne
    exact unflatten_of_flatten rfl hordered harrays hsplits hpos hlt h

theorem flatten_unflatten_inverse_splitSpecimen :
    ∃ s, unflatten [2] [splitSpecimen 0, splitSpecimen 0] = .ok s ∧ s.batchDims = [2] ∧
      s.flatten = .ok [splitSpecimen 0, splitSpecimen 0] ∧
      unflatten s.batchDims [splitSpecimen 0, splitSpecimen 0] = .ok s := by
  obtain ⟨s, hput⟩ := Outcome.exists_eq_ok (o := unflatten [2] [splitSpecimen 0, splitSpecimen 0])
    (by decide +kernel)
  have hmem : ∀ l ∈ [splitSpecimen 0, splitSpecimen 0], l = splitSpecimen 0 := by simp
  have hlanes : ∀ l ∈ [splitSpecimen 0, splitSpecimen 0], l.Ordered ∧ l.batchDims = [] := by
    intro l hl
    rw [hmem l hl]
    exact ⟨ordered_splitSpecimen 0, rfl⟩
  obtain ⟨hbatch, -, hflat, -⟩ := (flatten_unflatten_inverse _ _ _).1 hlanes hput
  -- the batch is a stack, so none of its splits is along a batch axis
  have hbuilt : Built s := by
    refine .stack (fun l hl => ?_) (stack_of_unflatten hput)
    rw [hmem l hl]
    exact built_splitSpecimen
  have hnonempty : ∀ d ∈ s.batchDims, d ≠ 0 := by
    rw [hbatch]
    decide
  exact ⟨s, hput, hbatch, hflat, (flatten_unflatten_inverse _ _ []).2 hbuilt.ordered
    hbuilt.holdsArrays hbuilt.splitsInside hnonempty (by decide) hflat⟩

end State

end Lockstep
