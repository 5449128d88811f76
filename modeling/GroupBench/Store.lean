import Std.Data.ExtTreeMap
import GroupBench.Kind

/-! An in-process store with two tables: group rows by group, and membership edges by group and
member. Writing a row or an edge again replaces it. -/
namespace GroupBench

/-- A stored group row. -/
structure GroupRow where
  level : UInt16
  kind : GroupKind
  deriving DecidableEq, Inhabited

/-- A member of a group, as a lookup returns it. -/
abbrev MemberRow := GroupId × MemberKind

/-- The edges of one group, by member. -/
abbrev Edges := Std.ExtTreeMap GroupId MemberKind

@[ext]
structure Store where
  groups : Std.ExtTreeMap GroupId GroupRow := ∅
  members : Std.ExtTreeMap GroupId Edges := ∅

namespace Store

def empty : Store := {}

instance : Inhabited Store := ⟨empty⟩

variable (s : Store)

/-- The row of a group is kept under the identifier of its position. -/
def insertGroup (level : UInt16) (group : UInt32) : Store :=
  { s with groups := s.groups.insert (.ofPosition level group) ⟨level, .forLevel level⟩ }

/-- The edges of a group, none if it was never linked. -/
def edgesOf (group : GroupId) : Edges := s.members.getD group ∅

def link (group member : GroupId) (kind : MemberKind) : Store :=
  { s with members := s.members.insert group ((s.edgesOf group).insert member kind) }

@[simp]
theorem edgesOf_empty (group : GroupId) : empty.edgesOf group = ∅ := by
  simp [empty, edgesOf]

theorem edgesOf_link (group member : GroupId) (kind : MemberKind) (other : GroupId) :
    (s.link group member kind).edgesOf other =
      if group = other then (s.edgesOf group).insert member kind else s.edgesOf other := by
  simp [link, edgesOf, Std.ExtTreeMap.getD_insert]

def group? (id : GroupId) : Option GroupRow := s.groups[id]?

def groupRows : Nat := s.groups.size

def edgeRows : Nat := s.members.foldl (fun n _ edges => n + edges.size) 0

/-- Members of a group in ascending order. -/
def membersOf (group : GroupId) : List MemberRow := (s.edgesOf group).toList

/-- Members of a group in ascending order, those up to `after` left out. -/
def membersAfter (group : GroupId) (after : Option GroupId) : List MemberRow :=
  match after with
  | none => s.membersOf group
  | some last => (s.membersOf group).filter fun row => last < row.1

end Store

end GroupBench
