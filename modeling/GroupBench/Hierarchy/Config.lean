import GroupBench.Fault
import GroupBench.Hierarchy

/-! Hierarchies that grow by a constant factor from level to level, and the check that every level
can be numbered and addressed. The power function is a parameter, so that nothing here depends on
how the platform computes one. -/
namespace GroupBench

/-- A power function on floating-point numbers: base, then exponent. -/
abbrev Power := Float → Float → Float

/-- Level `l` holds `⌊first * factor ^ (l - 1)⌋` groups; members per group scale alike. -/
structure HierarchyConfig where
  firstLevelGroupCount : UInt32 := 1000
  growthFactor : Float := 1.0
  levelCount : UInt16 := 5
  userMemberCount : UInt32 := 90
  subgroupMemberCount : UInt32 := 10

/-- `x` without its fraction, for `x` that is not negative; from `2 ^ 53` on a number has none. -/
def wholePart (x : Float) : Float :=
  if 0.0 ≤ x && x < 9007199254740992.0 then x.toUInt64.toFloat else x

namespace HierarchyConfig
variable (power : Power) (c : HierarchyConfig)

/-- One less than the largest word, so that numbers counted from one still fit. -/
def limit : Float := (4294967294 : UInt32).toFloat

/-- `base` after `level - 1` steps of growth. -/
def scale (base : UInt32) (level : UInt16) : Float :=
  base.toFloat * power c.growthFactor (UInt16.ofNat (level.toNat - 1)).toFloat

/-- The scaled value cut to a word: its fraction is dropped and it stays within the words. -/
def scaledCount (base : UInt32) (level : UInt16) : UInt32 :=
  (c.scale power base level).toUInt32

/-- Members that a group of `level` would own, each part rounded down. -/
def scaledMembers (level : UInt16) : Float :=
  wholePart (c.scale power c.userMemberCount level) +
    if 1 < level then wholePart (c.scale power c.subgroupMemberCount level) else 0.0

def checkLevel (level : UInt16) : Except ConfigFault Unit :=
  let groups := c.scale power c.firstLevelGroupCount level
  let members := c.scaledMembers power level
  if groups < 1.0 then .error (.emptyLevel level)
  else if limit < groups then .error (.tooManyGroups level groups limit)
  else if limit < members then .error (.tooManyMembers level members limit)
  else .ok ()

/-- The first fault found: the configuration as a whole, then its levels from the lowest. -/
def validate : Except ConfigFault Unit :=
  if c.levelCount = 0 then .error .noLevels
  else if c.firstLevelGroupCount = 0 then .error .noFirstLevelGroups
  else if !c.growthFactor.isFinite || c.growthFactor ≤ 0.0 then
    .error (.growthFactor c.growthFactor)
  else (levelRange c.levelCount).forM (c.checkLevel power)

/-- The counts of a configuration, checked or not; counts that do not fit a word stay at the
largest. -/
def hierarchy : Hierarchy where
  levelCount := c.levelCount
  groupCount := c.scaledCount power c.firstLevelGroupCount
  leafMemberCount := c.scaledCount power c.userMemberCount
  subgroupCount level := if level ≤ 1 then 0 else c.scaledCount power c.subgroupMemberCount level
  userPoolSize := c.firstLevelGroupCount
  subgroupCount_low _ h := if_pos h

def hierarchy? : Except ConfigFault Hierarchy :=
  (c.validate power).map fun _ => c.hierarchy power

end HierarchyConfig

end GroupBench
