import Lockstep.Error
import Lockstep.Table

/-!
# Placement on devices

A directive says where one leaf lives: copied to every device, or split along an axis into one slice
per device. A `PlacementSpec` asks for the placement of a whole state: the leaves it lists are split
over its mesh along the listed axis, which does not count batch axes, and all others are copied.
Placement describes a state; it never moves or changes data. The number of an axis is a word of 64
bits, and a directive that would need a greater number ends the operation.
-/

namespace Lockstep

inductive DeviceKind where
  | cpu
  | gpu
  | tpu
deriving DecidableEq

def DeviceKind.name : DeviceKind → String
  | .cpu => "cpu"
  | .gpu => "gpu"
  | .tpu => "tpu"

/-- A device of the local machine. -/
structure Device where
  kind : DeviceKind
  ordinal : Nat
deriving DecidableEq

/-- The kind and the number of a device. -/
def Device.name (d : Device) : String := d.kind.name ++ ":" ++ toString d.ordinal

/-- The devices that a state may be spread over, in order. -/
structure Mesh where
  devices : List Device
deriving DecidableEq

namespace Mesh

/-- The first processor of the machine. -/
def host : Mesh := ⟨[⟨.cpu, 0⟩]⟩

/-- The first graphics devices. -/
def gpus (count : Nat) : Mesh := ⟨(List.range count).map fun i => ⟨.gpu, i⟩⟩

/-- A mesh of at most one device leaves nothing to place. -/
def isSingle (m : Mesh) : Bool := m.devices.length ≤ 1

end Mesh

/-- Where one leaf lives. -/
inductive Directive where
  /-- a full copy on every device -/
  | replicated
  /-- consecutive slices along an axis, one per device -/
  | split (axis : UInt64) (devices : List Device)
deriving DecidableEq

/-- The part of an axis that lives on a device: `start` is in it, `stop` is not. -/
structure Slice where
  device : Device
  start : Nat
  stop : Nat
deriving DecidableEq

namespace Directive

/-- Slices of one length for the given devices, the first one being slice number `index`. -/
def slicesFrom (chunk : Nat) : Nat → List Device → List Slice
  | _, [] => []
  | index, d :: rest => ⟨d, index * chunk, (index + 1) * chunk⟩ :: slicesFrom chunk (index + 1) rest

/-- The slices of an axis. Its length must be a multiple of the count of devices. -/
def slices (path : String) (length : Nat) : Directive → Outcome (List Slice)
  | .replicated => .ok []
  | .split _ devices =>
    if devices = [] then .error (.structural (.invalidPlacement path .noDevices))
    else if length % devices.length ≠ 0 then
      .error (.structural (.invalidPlacement path (.uneven length devices.length)))
    else .ok (slicesFrom (length / devices.length) 0 devices)

/-- The directive of a leaf that got one more leading axis. -/
def outward : Directive → Outcome Directive
  | .replicated => .ok .replicated
  | .split axis devices => do return .split (← wordOf (axis.toNat + 1)) devices

/-- The directive of a leaf that lost its leading axis. A split along that axis leaves every part
whole. -/
def inward : Directive → Directive
  | .replicated => .replicated
  | .split axis devices => if axis = 0 then .replicated else .split (axis - 1) devices

def isSplit : Directive → Bool
  | .replicated => false
  | .split _ _ => true

/-- The leaf can get so many more leading axes: the number of a split axis stays a word. -/
def FitsBehind (axes : Nat) : Directive → Prop
  | .replicated => True
  | .split axis _ => axis.toNat + axes < UInt64.size

theorem outward_eq_ok_split_iff {axis : UInt64} {devices : List Device} {d : Directive} :
    (split axis devices).outward = .ok d ↔
      ∃ next : UInt64, next.toNat = axis.toNat + 1 ∧ d = .split next devices := by
  simp only [outward, bind, pure]
  cases h : wordOf (axis.toNat + 1) with
  | error e =>
    refine ⟨nofun, ?_⟩
    rintro ⟨next, hnext, -⟩
    rw [wordOf_eq_ok_iff.2 hnext] at h
    cases h
  | ok next =>
    rw [wordOf_eq_ok_iff] at h
    simp only [Except.bind, Except.pure, Except.ok.injEq]
    constructor
    · rintro rfl
      exact ⟨next, h, rfl⟩
    · rintro ⟨other, hother, rfl⟩
      rw [UInt64.toNat.inj (h.trans hother.symm)]

theorem toNat_pred {axis : UInt64} (h : axis ≠ 0) : (axis - 1).toNat + 1 = axis.toNat := by
  have hpos : 0 < axis.toNat := Nat.pos_iff_ne_zero.2 fun h0 => h (UInt64.toNat.inj h0)
  have hone : (1 : UInt64) ≤ axis := UInt64.le_iff_toNat_le.2 hpos
  rw [UInt64.toNat_sub_of_le _ _ hone]
  exact Nat.sub_add_cancel hpos

/-- What was moved outward and then inward is as before. -/
theorem inward_of_outward {d d' : Directive} (h : d.outward = .ok d') : d'.inward = d := by
  cases d with
  | replicated => obtain rfl := Except.ok.inj h; rfl
  | split axis devices =>
    obtain ⟨next, hnext, rfl⟩ := outward_eq_ok_split_iff.1 h
    have hne : next ≠ 0 := by rintro rfl; simp at hnext
    rw [inward, if_neg hne, UInt64.toNat.inj (Nat.succ.inj ((toNat_pred hne).trans hnext))]

theorem outward_inward {axis : UInt64} {devices : List Device} (h : axis ≠ 0) :
    (inward (.split axis devices)).outward = .ok (.split axis devices) := by
  rw [inward, if_neg h]
  exact outward_eq_ok_split_iff.2 ⟨axis, (toNat_pred h).symm, rfl⟩

/-- A directive moves outward as long as the number of its axis stays a word. -/
theorem exists_outward_iff {d : Directive} : (∃ d', d.outward = .ok d') ↔ d.FitsBehind 1 := by
  cases d with
  | replicated => exact ⟨fun _ => trivial, fun _ => ⟨_, rfl⟩⟩
  | split axis devices =>
    constructor
    · rintro ⟨d', h⟩
      obtain ⟨next, hnext, -⟩ := outward_eq_ok_split_iff.1 h
      have hlt := next.toNat_lt
      rwa [hnext] at hlt
    · intro h
      exact ⟨_, outward_eq_ok_split_iff.2
        ⟨.ofNat (axis.toNat + 1), UInt64.toNat_ofNat_of_lt' h, rfl⟩⟩

theorem fitsBehind_zero (d : Directive) : d.FitsBehind 0 := by
  cases d with
  | replicated => trivial
  | split axis devices => exact axis.toNat_lt

theorem FitsBehind.mono {m n : Nat} (hle : m ≤ n) {d : Directive} (h : d.FitsBehind n) :
    d.FitsBehind m := by
  cases d with
  | replicated => trivial
  | split axis devices => exact Nat.lt_of_le_of_lt (Nat.add_le_add_left hle _) h

/-- A directive that moved inward fits behind one axis more. -/
theorem fitsBehind_inward {axes : Nat} {d : Directive} (h : d.FitsBehind axes) :
    d.inward.FitsBehind (axes + 1) := by
  cases d with
  | replicated => trivial
  | split axis devices =>
    rw [inward]
    by_cases haxis : axis = 0
    · rw [if_pos haxis]
      trivial
    · rw [if_neg haxis]
      have hpred := toNat_pred haxis
      simp only [FitsBehind] at h ⊢
      omega

/-- A directive that moved outward fits behind one axis less. -/
theorem fitsBehind_of_outward {axes : Nat} {d d' : Directive} (h : d.outward = .ok d') :
    d'.FitsBehind axes ↔ d.FitsBehind (axes + 1) := by
  cases d with
  | replicated => obtain rfl := Except.ok.inj h; exact Iff.rfl
  | split axis devices =>
    obtain ⟨next, hnext, rfl⟩ := outward_eq_ok_split_iff.1 h
    simp only [FitsBehind, hnext]
    omega

end Directive

/-- A placement of leaves that got one more leading axis. -/
def placementOutward (placement : List (String × Directive)) :
    Outcome (List (String × Directive)) :=
  placement.mapM fun e => do return (e.1, ← e.2.outward)

/-- A request for the placement of a state. -/
structure PlacementSpec where
  mesh : Mesh
  splitAxes : Table UInt64
deriving DecidableEq

namespace PlacementSpec

/-- Everything on the host. -/
def onHost : PlacementSpec := ⟨.host, []⟩

/-- Nothing to place. -/
def isTrivial (s : PlacementSpec) : Bool := s.mesh.isSingle

/-- The directive for a leaf with `batchRank` batch axes in front. -/
def directiveFor (s : PlacementSpec) (leaf : String) (batchRank : Nat) : Outcome Directive :=
  match s.splitAxes.get? leaf with
  | some axis =>
    if s.isTrivial then .ok .replicated
    else do return .split (← wordOf (axis.toNat + batchRank)) s.mesh.devices
  | none => .ok .replicated

end PlacementSpec

end Lockstep
