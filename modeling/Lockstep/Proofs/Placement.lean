import Lockstep.Placement
import Lockstep.Proofs.Outcome
import Lockstep.Proofs.Table
import Mathlib.Logic.ExistsUnique
import Mathlib.Logic.Function.Iterate

/-!
# Moved directives and slices of an axis

A placement moves behind one more axis exactly when the number of every split axis still fits a word
(`exists_placementOutward_iff`), and moving it back gives it as it was
(`mapValues_inward_of_outward`).

Slices tile a stretch of an axis when each of them starts where the one before it stops (`Tiling`).
Then every index of the stretch lies in exactly one of them (`Tiling.existsUnique_holds`). The two
bounds of a slice are products of a number and the length of a slice, and no bound is computed from
another one. Still they meet, and the last of them is the length of the axis; as that fits a word,
all of them do (`Directive.slices_tile_axis`).
-/

namespace Lockstep

/-! ## Placements behind one more axis -/

/-- The directive of a leaf that got one more leading axis, as long as the number of a split axis
stays a word. -/
def Directive.next : Directive → Directive
  | .replicated => .replicated
  | .split axis devices => .split (.ofNat (axis.toNat + 1)) devices

theorem Directive.eq_next_of_outward {d d' : Directive} (h : d.outward = .ok d') : d' = d.next := by
  cases d with
  | replicated => exact (Except.ok.inj h).symm
  | split axis devices =>
    obtain ⟨next, hnext, rfl⟩ := outward_eq_ok_split_iff.1 h
    rw [Directive.next, ← hnext, UInt64.ofNat_toNat]

/-- A leaf whose directive was moved inward often has room for as many axes. -/
theorem Directive.fitsBehind_iterate_inward (d : Directive) (axes : Nat) :
    (Directive.inward^[axes] d).FitsBehind axes := by
  induction axes with
  | zero => exact d.fitsBehind_zero
  | succ axes ih =>
    rw [Function.iterate_succ_apply']
    exact fitsBehind_inward ih

/-- Every directive of a placement fits behind so many more axes. -/
def PlacementFitsBehind (axes : Nat) (placement : List (String × Directive)) : Prop :=
  ∀ e ∈ placement, e.2.FitsBehind axes

section

variable {placement moved : List (String × Directive)}

theorem placementOutward_eq_ok_iff :
    placementOutward placement = .ok moved ↔
      List.Forall₂ (fun e e' => e'.1 = e.1 ∧ e.2.outward = .ok e'.2) placement moved := by
  rw [placementOutward, Outcome.mapM_eq_ok_iff]
  refine Outcome.forall₂_congr_of_mem fun e _ e' => ?_
  rw [Outcome.bind_eq_ok_iff]
  constructor
  · rintro ⟨d, hd, h⟩
    rw [← Except.ok.inj h]
    exact ⟨rfl, hd⟩
  · rintro ⟨hkey, hd⟩
    exact ⟨e'.2, hd, by rw [← hkey]; rfl⟩

/-- Moving a placement behind one more axis and back gives it as it was. -/
theorem mapValues_inward_of_outward (h : placementOutward placement = .ok moved) :
    Table.mapValues Directive.inward moved = placement := by
  rw [placementOutward_eq_ok_iff] at h
  induction h with
  | nil => rfl
  | @cons e e' _ _ he _ ih =>
    obtain ⟨hkey, hd⟩ := he
    have hfirst : (e'.1, e'.2.inward) = e := Prod.ext hkey (Directive.inward_of_outward hd)
    exact List.cons_eq_cons.2 ⟨hfirst, ih⟩

/-- A placement moves as long as the numbers of its axes stay words. -/
theorem exists_placementOutward_iff :
    (∃ moved, placementOutward placement = .ok moved) ↔ PlacementFitsBehind 1 placement := by
  constructor
  · rintro ⟨moved, h⟩ e he
    obtain ⟨i, hi⟩ := List.mem_iff_getElem?.1 he
    obtain ⟨e', -, -, hd⟩ := Outcome.exists_of_forall₂ (placementOutward_eq_ok_iff.1 h) hi
    exact Directive.exists_outward_iff.1 ⟨_, hd⟩
  · intro h
    simp only [placementOutward_eq_ok_iff]
    refine Outcome.exists_forall₂ fun e he => ?_
    obtain ⟨d, hd⟩ := Directive.exists_outward_iff.2 (h e he)
    exact ⟨(e.1, d), rfl, hd⟩

/-- A placement whose directives are moved ones moves inward and back again. -/
theorem placementOutward_mapValues_inward (h : ∀ e ∈ moved, ∃ d : Directive, d.outward = .ok e.2) :
    placementOutward (Table.mapValues Directive.inward moved) = .ok moved := by
  rw [placementOutward_eq_ok_iff, Table.mapValues, List.forall₂_map_left_iff, List.forall₂_same]
  intro e he
  obtain ⟨d, hd⟩ := h e he
  exact ⟨rfl, by rw [Directive.inward_of_outward hd, hd]⟩

/-- A placement that moved inward fits behind one axis more. -/
theorem fitsBehind_mapValues_inward {axes : Nat} (h : PlacementFitsBehind axes placement) :
    PlacementFitsBehind (axes + 1) (Table.mapValues Directive.inward placement) := by
  intro e he
  obtain ⟨e', he', rfl⟩ := List.mem_map.1 he
  exact Directive.fitsBehind_inward (h e' he')

/-- A placement that moves gives each leaf its next directive. -/
theorem eq_next_of_placementOutward (h : placementOutward placement = .ok moved) :
    moved = Table.mapValues Directive.next placement := by
  rw [placementOutward_eq_ok_iff] at h
  induction h with
  | nil => rfl
  | @cons e e' _ _ he _ ih =>
    obtain ⟨hkey, hd⟩ := he
    exact List.cons_eq_cons.2 ⟨Prod.ext hkey (Directive.eq_next_of_outward hd), ih⟩

theorem placementOutward_eq_next (h : PlacementFitsBehind 1 placement) :
    placementOutward placement = .ok (Table.mapValues Directive.next placement) := by
  obtain ⟨moved, hmoved⟩ := exists_placementOutward_iff.2 h
  rw [hmoved, eq_next_of_placementOutward hmoved]

theorem PlacementFitsBehind.mono {m n : Nat} (hle : m ≤ n) (h : PlacementFitsBehind n placement) :
    PlacementFitsBehind m placement := fun e he => (h e he).mono hle

/-- A placement that moved fits behind one axis less. -/
theorem fitsBehind_of_placementOutward (h : placementOutward placement = .ok moved) (axes : Nat) :
    PlacementFitsBehind axes moved ↔ PlacementFitsBehind (axes + 1) placement := by
  rw [placementOutward_eq_ok_iff] at h
  induction h with
  | nil => exact ⟨fun _ => nofun, fun _ => nofun⟩
  | cons he _ ih =>
    rw [PlacementFitsBehind, PlacementFitsBehind, List.forall_mem_cons, List.forall_mem_cons,
      Directive.fitsBehind_of_outward he.2]
    exact and_congr_right fun _ => ih

/-- Each axis that a placement moved behind takes one off those behind which it fits. -/
theorem fitsBehind_iterate_next {axes moves : Nat} :
    ∀ {placement : List (String × Directive)}, PlacementFitsBehind (axes + moves) placement →
      PlacementFitsBehind axes (Table.mapValues (Nat.iterate Directive.next moves) placement) := by
  induction moves with
  | zero =>
    intro placement h
    rwa [show Table.mapValues (Nat.iterate Directive.next 0) placement = placement from
      Table.mapValues_eq_self_iff.2 fun _ _ => rfl]
  | succ moves ih =>
    intro placement h
    have hmoved := placementOutward_eq_next (h.mono (by omega))
    have hnext := ih ((fitsBehind_of_placementOutward hmoved (axes + moves)).2 h)
    rwa [Table.mapValues_mapValues] at hnext

end

/-! ## Tilings -/

/-- The index lies in the slice. -/
def Slice.Holds (s : Slice) (index : Nat) : Prop := s.start ≤ index ∧ index < s.stop

/-- The slices lead from `start` to `stop`, each from where the one before it stops. -/
inductive Tiling : Nat → List Slice → Nat → Prop where
  | nil (bound : Nat) : Tiling bound [] bound
  | cons {start stop : Nat} {s : Slice} {rest : List Slice} : s.start = start → s.start ≤ s.stop →
      Tiling s.stop rest stop → Tiling start (s :: rest) stop

namespace Tiling

variable {start stop : Nat} {slices : List Slice}

theorem start_le_stop (h : Tiling start slices stop) : start ≤ stop := by
  induction h with
  | nil bound => exact Nat.le_refl bound
  | cons hstart hle _ ih => exact hstart ▸ Nat.le_trans hle ih

theorem bounds_of_mem (h : Tiling start slices stop) {s : Slice} (hs : s ∈ slices) :
    start ≤ s.start ∧ s.stop ≤ stop := by
  induction h with
  | nil bound => cases hs
  | cons hstart hle htail ih =>
    rcases List.mem_cons.1 hs with rfl | hs
    · exact ⟨Nat.le_of_eq hstart.symm, htail.start_le_stop⟩
    · obtain ⟨hfrom, hto⟩ := ih hs
      exact ⟨hstart ▸ Nat.le_trans hle hfrom, hto⟩

/-- Tiles cover their stretch and do not overlap. -/
theorem existsUnique_holds {index : Nat} (h : Tiling start slices stop) (hfrom : start ≤ index)
    (hto : index < stop) : ∃! k : Nat, ∃ s : Slice, slices[k]? = some s ∧ s.Holds index := by
  induction h with
  | nil bound => exact absurd hto (Nat.not_lt.2 hfrom)
  | @cons start stop s rest hstart hle htail ih =>
    by_cases hin : index < s.stop
    · refine ⟨0, ⟨s, rfl, hstart ▸ hfrom, hin⟩, ?_⟩
      rintro (_ | k) ⟨t, ht, hholds⟩
      · rfl
      · -- what comes after the first slice starts behind the index
        have hbehind := (htail.bounds_of_mem (List.mem_of_getElem? ht)).1
        exact absurd (Nat.lt_of_lt_of_le hin hbehind) (Nat.not_lt.2 hholds.1)
    · obtain ⟨k, hk, hunique⟩ := ih (Nat.not_lt.1 hin) hto
      refine ⟨k + 1, hk, ?_⟩
      rintro (_ | j) ⟨t, ht, hholds⟩
      · obtain rfl := Option.some.inj ht
        exact absurd hholds.2 hin
      · rw [hunique j ⟨t, ht, hholds⟩]

end Tiling

namespace Directive

variable {chunk : Nat} {devices : List Device}

/-! ## Slices of one length -/

theorem map_device_slicesFrom (chunk : Nat) :
    ∀ (index : Nat) (devices : List Device),
      (slicesFrom chunk index devices).map Slice.device = devices
  | _, [] => rfl
  | index, d :: rest => congrArg (d :: ·) (map_device_slicesFrom chunk (index + 1) rest)

/-- Each slice by its number. -/
theorem getElem?_slicesFrom (chunk : Nat) :
    ∀ (index : Nat) (devices : List Device) (k : Nat), (slicesFrom chunk index devices)[k]? =
      devices[k]?.map fun d => ⟨d, (index + k) * chunk, (index + k + 1) * chunk⟩
  | _, [], _ => rfl
  | _, _ :: _, 0 => rfl
  | index, d :: rest, k + 1 => by
    rw [slicesFrom, List.getElem?_cons_succ, getElem?_slicesFrom chunk (index + 1) rest k,
      List.getElem?_cons_succ, Nat.add_right_comm index 1 k, ← Nat.add_assoc index k 1]

theorem bounds_of_getElem?_slicesFrom {k : Nat} {s : Slice}
    (h : (slicesFrom chunk 0 devices)[k]? = some s) :
    s.start = k * chunk ∧ s.stop = (k + 1) * chunk := by
  rw [getElem?_slicesFrom, Nat.zero_add] at h
  obtain ⟨d, -, rfl⟩ := Option.map_eq_some_iff.1 h
  exact ⟨rfl, rfl⟩

/-- The products meet: a slice stops at the product from which the next one starts. -/
theorem tiling_slicesFrom (chunk : Nat) :
    ∀ (index : Nat) (devices : List Device), Tiling (index * chunk) (slicesFrom chunk index devices)
      ((index + devices.length) * chunk)
  | index, [] => .nil (index * chunk)
  | index, d :: rest => by
    have htail := tiling_slicesFrom chunk (index + 1) rest
    rw [Nat.add_right_comm, Nat.add_assoc] at htail
    exact .cons rfl (Nat.mul_le_mul_right chunk (Nat.le_succ index)) htail

/-! ## Slices computed in words -/

/-- Slices of one length as words compute them, where products wrap around. -/
def wordSlicesFrom (chunk : UInt64) : UInt64 → List Device → List Slice
  | _, [] => []
  | index, d :: rest =>
    ⟨d, (index * chunk).toNat, ((index + 1) * chunk).toNat⟩ :: wordSlicesFrom chunk (index + 1) rest

theorem toNat_ofNat_mul {a b : Nat} (h : a * b < UInt64.size) :
    (UInt64.ofNat a * UInt64.ofNat b).toNat = a * b := by
  rw [← UInt64.ofNat_mul, UInt64.toNat_ofNat_of_lt' h]

/-- No product wraps around when the bound of the last slice fits a word. -/
theorem wordSlicesFrom_eq_slicesFrom :
    ∀ {index : Nat} {devices : List Device}, (index + devices.length) * chunk < UInt64.size →
      wordSlicesFrom (.ofNat chunk) (.ofNat index) devices = slicesFrom chunk index devices
  | _, [], _ => rfl
  | index, d :: rest, h => by
    rw [List.length_cons, ← Nat.add_assoc, Nat.add_right_comm] at h
    have hstop : (index + 1) * chunk < UInt64.size :=
      Nat.lt_of_le_of_lt (Nat.mul_le_mul_right chunk (Nat.le_add_right _ rest.length)) h
    have hstart : index * chunk < UInt64.size :=
      Nat.lt_of_le_of_lt (Nat.mul_le_mul_right chunk (Nat.le_succ index)) hstop
    have hnext : UInt64.ofNat index + 1 = .ofNat (index + 1) := (UInt64.ofNat_add index 1).symm
    rw [wordSlicesFrom, slicesFrom, hnext, toNat_ofNat_mul hstart, toNat_ofNat_mul hstop,
      wordSlicesFrom_eq_slicesFrom h]

/-! ## The slices of a directive -/

/-- An axis can be split over at least one device, when its length is a multiple of their count. -/
theorem slices_split_eq_ok_iff {path : String} {length : Nat} {axis : UInt64}
    {slices : List Slice} :
    Directive.slices path length (.split axis devices) = .ok slices ↔
      (devices ≠ [] ∧ devices.length ∣ length) ∧
        slicesFrom (length / devices.length) 0 devices = slices := by
  rw [Directive.slices, Nat.dvd_iff_mod_eq_zero]
  split
  · next hnone => simp [hnone]
  · next hsome =>
    by_cases heven : length % devices.length = 0
    · simp [hsome, heven]
    · simp [heven]

theorem exists_slices_split_iff {path : String} {length : Nat} {axis : UInt64} :
    (∃ slices, Directive.slices path length (.split axis devices) = .ok slices) ↔
      devices ≠ [] ∧ devices.length ∣ length := by
  simp only [slices_split_eq_ok_iff, exists_and_left, exists_eq', and_true]

/-- **The slices of an axis tile it.** An axis can be split exactly when there is a device and the
count of devices divides its length. Then there is one slice for each device, in their order. The
first one starts at 0, each next one where the one before it stops, and the last one stops at the
length; all have one length, and every index of the axis is in exactly one of them. The products
that give the bounds fit a word, so words compute the same slices. -/
theorem slices_tile_axis (path : String) (axis : UInt64) (devices : List Device) (length : Nat)
    (hlt : length < UInt64.size) :
    ((∃ slices, Directive.slices path length (.split axis devices) = .ok slices) ↔
      devices ≠ [] ∧ devices.length ∣ length) ∧
    ∀ slices, Directive.slices path length (.split axis devices) = .ok slices →
      slices.map Slice.device = devices ∧
      Tiling 0 slices length ∧
      (∀ s ∈ slices, s.stop = s.start + length / devices.length) ∧
      (∀ index < length, ∃! k : Nat, ∃ s : Slice, slices[k]? = some s ∧ s.Holds index) ∧
      (∀ (k : Nat) s, slices[k]? = some s →
        s.start = k * (length / devices.length) ∧ s.start < UInt64.size ∧
        s.stop = (k + 1) * (length / devices.length) ∧ s.stop < UInt64.size) ∧
      wordSlicesFrom (.ofNat (length / devices.length)) 0 devices = slices := by
  refine ⟨exists_slices_split_iff, fun slices h => ?_⟩
  obtain ⟨⟨-, hdvd⟩, rfl⟩ := slices_split_eq_ok_iff.1 h
  have hlength : (0 + devices.length) * (length / devices.length) = length := by
    rw [Nat.zero_add, Nat.mul_div_cancel' hdvd]
  -- all that follows is about pieces of one length, whatever that length is
  generalize length / devices.length = chunk at hlength ⊢
  have htiling := tiling_slicesFrom chunk 0 devices
  rw [Nat.zero_mul, hlength] at htiling
  refine ⟨map_device_slicesFrom chunk 0 devices, htiling, fun s hs => ?_,
    fun index hindex => htiling.existsUnique_holds (Nat.zero_le index) hindex,
    fun k s hs => ?_, wordSlicesFrom_eq_slicesFrom (hlength ▸ hlt)⟩
  · obtain ⟨k, hk⟩ := List.mem_iff_getElem?.1 hs
    obtain ⟨hstart, hstop⟩ := bounds_of_getElem?_slicesFrom hk
    rw [hstart, hstop, Nat.succ_mul]
  · obtain ⟨hstart, hstop⟩ := bounds_of_getElem?_slicesFrom hs
    have hstopfits : s.stop < UInt64.size :=
      Nat.lt_of_le_of_lt (htiling.bounds_of_mem (List.mem_of_getElem? hs)).2 hlt
    have hle : s.start ≤ s.stop := by
      rw [hstart, hstop]
      exact Nat.mul_le_mul_right chunk (Nat.le_succ k)
    exact ⟨hstart, Nat.lt_of_le_of_lt hle hstopfits, hstop, hstopfits⟩

/-- The longest axis whose length fits a word, over five devices. -/
theorem slices_tile_axis_longest : 18446744073709551615 < UInt64.size ∧ ∃ slices,
    Directive.slices "p.x" 18446744073709551615 (.split 0 (Mesh.gpus 5).devices) = .ok slices ∧
      slices.map Slice.device = (Mesh.gpus 5).devices ∧ Tiling 0 slices 18446744073709551615 ∧
      (∀ index < 18446744073709551615,
        ∃! k : Nat, ∃ s : Slice, slices[k]? = some s ∧ s.Holds index) ∧
      wordSlicesFrom 3689348814741910323 0 (Mesh.gpus 5).devices = slices := by
  have hlt : 18446744073709551615 < UInt64.size := by decide
  obtain ⟨hiff, htile⟩ :=
    slices_tile_axis "p.x" 0 (Mesh.gpus 5).devices 18446744073709551615 hlt
  obtain ⟨slices, h⟩ := hiff.2 ⟨by decide, by decide⟩
  obtain ⟨hdevices, htiling, -, hholds, -, hwords⟩ := htile slices h
  exact ⟨hlt, slices, h, hdevices, htiling, hholds, hwords⟩

end Directive

end Lockstep
