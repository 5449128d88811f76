import GroupBench.Hierarchy
import GroupBench.Random

/-! The member that a membership edge refers to, drawn at random. -/
namespace GroupBench.Hierarchy

/-- A subgroup is drawn from the groups one level down, a user from the user pool. A pool without
members counts as one with a single member. -/
def pickMember {ρ : Type} (h : Hierarchy) (source : WordSource ρ) (level : UInt16)
    (subgroup : Bool) (s : ρ) : (GroupId × MemberKind) × ρ :=
  if subgroup && 1 < level then
    let (index, s) := source.below (max (h.groupCount (level - 1)) 1) s
    ((GroupId.ofPosition (level - 1) index, .subgroup), s)
  else
    let (index, s) := source.below (max h.userPoolSize 1) s
    ((GroupId.ofPosition GroupId.userLevel index, .user), s)

end GroupBench.Hierarchy
