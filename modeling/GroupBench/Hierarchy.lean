import GroupBench.Kind

/-! The shape of a hierarchy: how many groups each level holds and how many member slots each of its
groups has. Slots count from one, users first and subgroups after them; slot zero is the group row
itself. -/
namespace GroupBench

/-- Counts per level. First-level groups own no subgroups. -/
structure Hierarchy where
  levelCount : UInt16
  groupCount : UInt16 → UInt32
  leafMemberCount : UInt16 → UInt32
  subgroupCount : UInt16 → UInt32
  userPoolSize : UInt32
  subgroupCount_low : ∀ level ≤ 1, subgroupCount level = 0

/-- The levels that hold groups, lowest first, when there are `count` of them. -/
def levelRange (count : UInt16) : List UInt16 :=
  (List.range' 1 count.toNat).map UInt16.ofNat

/-- A sum of words that stays at the largest word where it would pass it. -/
def saturatingAdd (a b : UInt32) : UInt32 :=
  if a.toNat + b.toNat < UInt32.size then a + b else 0xFFFFFFFF

namespace Hierarchy
variable (h : Hierarchy)

def levels : List UInt16 := levelRange h.levelCount

/-- Member slots of a group, the group row not counted. -/
def memberSlots (level : UInt16) : UInt32 :=
  saturatingAdd (h.leafMemberCount level) (h.subgroupCount level)

def totalGroups : Nat :=
  h.levels.foldl (fun n level => n + (h.groupCount level).toNat) 0

/-- Subgroup slots follow the user slots, above level 1 only. -/
def isSubgroupSlot (level : UInt16) (slot : UInt32) : Bool :=
  1 < level && h.leafMemberCount level < slot && slot ≤ h.memberSlots level

/-- Groups of the deepest level, each the root of one job. -/
def topLevelGroupCount : UInt32 :=
  h.groupCount h.levelCount

/-- The first `n` top-level groups in position order, or all if there are fewer. -/
def topLevelGroups (n : Nat) : List GroupId :=
  (List.range (min n h.topLevelGroupCount.toNat)).map fun index =>
    GroupId.ofPosition h.levelCount (UInt32.ofNat index)

end Hierarchy

end GroupBench
