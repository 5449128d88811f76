import GroupBench.Fault
import GroupBench.Hierarchy

/-! The writes that one instance is responsible for, numbered without gaps: level by level, group by
group, and within a group the row first and the member slots after it. -/
namespace GroupBench

/-- One write. Slot zero is the group row, the others are membership edges; groups count from
zero. -/
@[ext]
structure Address where
  level : UInt16
  group : UInt32
  slot : UInt32
  deriving DecidableEq, Inhabited

namespace Address

def isGroupRow (a : Address) : Bool := a.slot = 0

/-- Level first, then group, then slot. -/
instance : LT Address :=
  ⟨fun a b => a.level < b.level ∨
    a.level = b.level ∧ (a.group < b.group ∨ a.group = b.group ∧ a.slot < b.slot)⟩

instance (a b : Address) : Decidable (a < b) :=
  inferInstanceAs (Decidable (a.level < b.level ∨
    a.level = b.level ∧ (a.group < b.group ∨ a.group = b.group ∧ a.slot < b.slot)))

/-- Ascending, repeats kept. -/
def sort (addresses : List Address) : List Address :=
  addresses.mergeSort fun a b => !(b < a)

end Address

/-- A write as a store sees it. -/
inductive Write
  | group (level : UInt16) (group : UInt32)
  | member (level : UInt16) (group : UInt32) (slot : UInt32) (subgroup : Bool)
  deriving DecidableEq, Inhabited

namespace Write

def level : Write → UInt16
  | .group l _ | .member l _ _ _ => l

/-- The address that is written; a group row is at slot zero. -/
def address : Write → Address
  | .group l g => ⟨l, g, 0⟩
  | .member l g slot _ => ⟨l, g, slot⟩

/-- The edge written leads to a subgroup. -/
def isSubgroup : Write → Bool
  | .group .. => false
  | .member _ _ _ subgroup => subgroup

end Write

/-- The groups of one level that an instance owns. -/
structure LevelSpan where
  level : UInt16
  start : UInt32
  stop : UInt32
  /-- The group row and the member slots. -/
  unitsPerGroup : UInt64
  /-- The index of the first unit of this level. -/
  offset : UInt64
  deriving DecidableEq, Inhabited

def LevelSpan.units (span : LevelSpan) : UInt64 :=
  (span.stop - span.start).toUInt64 * span.unitsPerGroup

/-- The part `[(id - 1) * count / of, id * count / of)` of `[0, count)`; the parts of `1 .. of`
follow one another. -/
def slice (count id of : UInt32) : UInt32 × UInt32 :=
  if id = 0 || of < id then (0, 0)
  else
    let bound (k : UInt32) : UInt32 := (count.toUInt64 * k.toUInt64 / of.toUInt64).toUInt32
    (bound (id - 1), bound id)

structure FillPlan where
  hierarchy : Hierarchy
  spans : List LevelSpan
  totalUnits : UInt64

namespace FillPlan

/-- The span of `level` for an instance whose earlier levels take `offset` units. -/
def spanAt (h : Hierarchy) (id of : UInt32) (offset : UInt64) (level : UInt16) : LevelSpan :=
  let (start, stop) := slice (h.groupCount level) id of
  { level, start, stop, unitsPerGroup := (h.memberSlots level).toUInt64 + 1, offset }

/-- Spans of consecutive levels, and the index after their last unit. -/
def layOut (h : Hierarchy) (id of : UInt32) (offset : UInt64) :
    List UInt16 → List LevelSpan × UInt64
  | [] => ([], offset)
  | level :: rest =>
    let span := spanAt h id of offset level
    let (spans, total) := layOut h id of (offset + span.units) rest
    (span :: spans, total)

/-- The plan of instance `id` out of `of`. -/
def make (h : Hierarchy) (id of : UInt32) : Except ConfigFault FillPlan :=
  if of = 0 || id = 0 || of < id then .error (.instanceOutside id of)
  else
    let (spans, totalUnits) := layOut h id of 0 h.levels
    .ok ⟨h, spans, totalUnits⟩

variable (plan : FillPlan)

/-- The groups `[start, stop)` that the instance owns at a level of the hierarchy. -/
def owned (level : UInt16) : Option (UInt32 × UInt32) :=
  if level = 0 then none else (plan.spans[level.toNat - 1]?).map fun span => (span.start, span.stop)

/-- The write with a given index. Of the spans that start at or before it, the last with work owns
it. -/
def address (index : UInt64) : Option Address :=
  if plan.totalUnits ≤ index then none
  else
    (plan.spans.findRev? fun span => 0 < span.units && span.offset ≤ index).map fun span =>
      let inLevel := index - span.offset
      { level := span.level
        group := span.start + (inLevel / span.unitsPerGroup).toUInt32
        slot := (inLevel % span.unitsPerGroup).toUInt32 }

/-- The index begins a level and the instance has work before it. -/
def isLevelStart (index : UInt64) : Bool :=
  0 < index && index < plan.totalUnits &&
    plan.spans.any fun span => 0 < span.units && span.offset = index

/-- The edge at an address leads to a subgroup. -/
def isSubgroup (a : Address) : Bool :=
  plan.hierarchy.isSubgroupSlot a.level a.slot

/-- What a store is asked to write for an address. -/
def write (a : Address) : Write :=
  if a.isGroupRow then .group a.level a.group
  else .member a.level a.group a.slot (plan.isSubgroup a)

end FillPlan

end GroupBench
