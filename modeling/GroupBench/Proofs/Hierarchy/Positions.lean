import Mathlib.Data.List.Nodup
import GroupBench.Hierarchy

/-! Identifiers of positions. Positions of a level have identifiers of their own, so the groups of a
level are listed without repeats. -/
namespace GroupBench

theorem GroupId.ofPosition_injective (level : UInt16) :
    Function.Injective (GroupId.ofPosition level) := by
  intro i j hij
  have hnumber := congrArg GroupId.number hij
  rw [ofPosition, ofPosition, number_encode, number_encode] at hnumber
  exact (UInt32.add_left_inj 1).1 hnumber

namespace Hierarchy
variable (h : Hierarchy) {n : Nat}

/-- Identifiers of the groups of a level, in position order. -/
def groupIds (level : UInt16) : List GroupId :=
  (List.range (h.groupCount level).toNat).map fun index => .ofPosition level (UInt32.ofNat index)

theorem groupIds_nodup (level : UInt16) : (h.groupIds level).Nodup := by
  have hc := (h.groupCount level).toNat_lt
  apply List.Nodup.map_on ?_ List.nodup_range
  intro x hx y hy hxy
  rw [List.mem_range] at hx hy
  have hmod := congrArg UInt32.toNat (GroupId.ofPosition_injective _ hxy)
  simp only [UInt32.toNat_ofNat'] at hmod
  omega

theorem topLevelGroups_eq_take (n : Nat) :
    h.topLevelGroups n = (h.groupIds h.levelCount).take n := by
  rw [topLevelGroups, groupIds, ← List.map_take, List.take_range]
  rfl

theorem topLevelGroups_succ (hn : n < h.topLevelGroupCount.toNat) : h.topLevelGroups (n + 1) =
    h.topLevelGroups n ++ [.ofPosition h.levelCount (UInt32.ofNat n)] := by
  rw [topLevelGroups, topLevelGroups, Nat.min_eq_left hn, Nat.min_eq_left (Nat.le_of_lt hn),
    List.range_succ, List.map_append]
  rfl

theorem topLevelGroups_of_le (hn : h.topLevelGroupCount.toNat ≤ n) :
    h.topLevelGroups n = h.topLevelGroups h.topLevelGroupCount.toNat := by
  rw [topLevelGroups, topLevelGroups, Nat.min_eq_right hn, Nat.min_self]

theorem length_topLevelGroups (n : Nat) :
    (h.topLevelGroups n).length = min n h.topLevelGroupCount.toNat := by
  rw [topLevelGroups, List.length_map, List.length_range]

theorem topLevelGroups_nodup (n : Nat) : (h.topLevelGroups n).Nodup := by
  rw [topLevelGroups_eq_take]
  exact (List.take_sublist _ _).nodup (h.groupIds_nodup h.levelCount)

/-- The groups listed first are those of the lowest positions. -/
theorem topLevelGroups_prefix {m : Nat} (hm : m ≤ n) :
    h.topLevelGroups m = (h.topLevelGroups n).take m := by
  rw [topLevelGroups_eq_take, topLevelGroups_eq_take, List.take_take, Nat.min_eq_left hm]

end Hierarchy

end GroupBench
