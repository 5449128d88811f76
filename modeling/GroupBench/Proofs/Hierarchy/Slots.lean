import Mathlib.Algebra.Group.Nat.Defs
import GroupBench.Hierarchy

/-! The member slots of a group: users come first and subgroups after them. -/
namespace GroupBench

theorem toNat_saturatingAdd (a b : UInt32) :
    (saturatingAdd a b).toNat = min (a.toNat + b.toNat) (UInt32.size - 1) := by
  rw [saturatingAdd]
  split
  · rename_i hlt
    rw [UInt32.toNat_add, Nat.mod_eq_of_lt hlt]
    omega
  · rename_i hge
    change UInt32.size - 1 = _
    omega

namespace Hierarchy
variable {h : Hierarchy} {level : UInt16} {slot : UInt32}

theorem toNat_memberSlots (h : Hierarchy) (level : UInt16) : (h.memberSlots level).toNat =
    min ((h.leafMemberCount level).toNat + (h.subgroupCount level).toNat) (UInt32.size - 1) :=
  toNat_saturatingAdd ..

/-- Slots of users come first. -/
theorem isSubgroupSlot_iff : h.isSubgroupSlot level slot ↔
    1 < level ∧ h.leafMemberCount level < slot ∧ slot ≤ h.memberSlots level := by
  simp only [isSubgroupSlot, Bool.and_eq_true, decide_eq_true_eq, and_assoc]

/-- A slot after the users is a subgroup's: where there are no subgroups, there is no such slot. -/
theorem isSubgroupSlot_iff_lt (hslot : slot ≤ h.memberSlots level) :
    h.isSubgroupSlot level slot ↔ h.leafMemberCount level < slot := by
  rw [isSubgroupSlot_iff]
  refine ⟨fun hsub => hsub.2.1, fun hlt => ⟨?_, hlt, hslot⟩⟩
  rw [← UInt16.not_le]
  intro hlow
  have hzero := congrArg UInt32.toNat (h.subgroupCount_low level hlow)
  have hslots := h.toNat_memberSlots level
  rw [UInt32.lt_iff_toNat_lt] at hlt
  rw [UInt32.le_iff_toNat_le] at hslot
  rw [UInt32.toNat_zero] at hzero
  omega

/-- With a user there is a slot, and the first one is the user's. -/
theorem one_le_memberSlots (hleaf : 1 ≤ h.leafMemberCount level) : 1 ≤ h.memberSlots level := by
  have hlt := (h.leafMemberCount level).toNat_lt
  rw [UInt32.le_iff_toNat_le, UInt32.toNat_one] at hleaf ⊢
  rw [toNat_memberSlots]
  change _ ≤ min _ (2 ^ 32 - 1)
  omega

/-- With a subgroup, and users that leave room for it, the slot after the users is a subgroup's. -/
theorem isSubgroupSlot_next (hcount : 1 ≤ h.subgroupCount level)
    (hroom : h.leafMemberCount level < 0xFFFFFFFF) :
    h.isSubgroupSlot level (h.leafMemberCount level + 1) := by
  have hnext : (h.leafMemberCount level + 1).toNat = (h.leafMemberCount level).toNat + 1 := by
    rw [UInt32.lt_iff_toNat_lt] at hroom
    rw [UInt32.toNat_add, UInt32.toNat_one]
    exact Nat.mod_eq_of_lt (Nat.succ_lt_succ hroom)
  rw [isSubgroupSlot_iff_lt, UInt32.lt_iff_toNat_lt, hnext]
  · exact Nat.lt_succ_self _
  · rw [UInt32.lt_iff_toNat_lt] at hroom
    rw [UInt32.le_iff_toNat_le, UInt32.toNat_one] at hcount
    rw [UInt32.le_iff_toNat_le, hnext, toNat_memberSlots]
    change _ < 2 ^ 32 - 1 at hroom
    change _ ≤ min _ (2 ^ 32 - 1)
    omega

end Hierarchy

end GroupBench
