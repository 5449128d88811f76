import GroupBench.Id

/-! The kinds that a store keeps beside group rows and membership edges, and the numbers they are
stored as. -/
namespace GroupBench

inductive GroupKind
  /-- A first-level group, which owns users only. -/
  | root
  /-- A group above the first level, which owns users and subgroups. -/
  | interior
  deriving DecidableEq, Inhabited

namespace GroupKind

def forLevel (level : UInt16) : GroupKind := if level ≤ 1 then root else interior

def number : GroupKind → UInt8
  | root => 1
  | interior => 2

def name : GroupKind → String
  | root => "Root"
  | interior => "Interior"

end GroupKind

inductive MemberKind
  /-- A terminal member, never expanded. -/
  | user
  /-- A group one level down, expanded when members are resolved. -/
  | subgroup
  deriving DecidableEq, Inhabited

namespace MemberKind

def ofSubgroupFlag (subgroup : Bool) : MemberKind := if subgroup then .subgroup else .user

def isSubgroup : MemberKind → Bool
  | user => false
  | subgroup => true

def number : MemberKind → UInt8
  | user => 1
  | subgroup => 2

/-- Only the two stored numbers name a kind. -/
def ofNumber? (n : UInt8) : Option MemberKind :=
  if n = 1 then some .user else if n = 2 then some .subgroup else none

def name : MemberKind → String
  | user => "User"
  | subgroup => "Subgroup"

end MemberKind

end GroupBench
