import GroupBench.Backend.Memory
import GroupBench.Proofs.Hierarchy.Draws
import GroupBench.Proofs.Plan.Instances
import GroupBench.Proofs.Store.Graph

/-! What writes of a hierarchy make of an empty store. Every edge leaves a group of the hierarchy
and leads to a member that the level of the group allows. -/
namespace GroupBench

/-- What a store is asked to write for an address, whichever instance writes it. -/
def Hierarchy.write (h : Hierarchy) (a : Address) : Write :=
  if a.isGroupRow then .group a.level a.group
  else .member a.level a.group a.slot (h.isSubgroupSlot a.level a.slot)

theorem FillPlan.write_eq (plan : FillPlan) (a : Address) :
    plan.write a = plan.hierarchy.write a := rfl

theorem Hierarchy.hasGroup_of_owns {h : Hierarchy} {a : Address} (howns : h.Owns 1 1 a) :
    h.HasGroup a.level (a.group + 1) := by
  obtain ⟨⟨hlow, hhigh, -⟩, hgroup⟩ := owns_alone.1 howns
  obtain ⟨hpos, hle⟩ := number_ofPosition hgroup
  exact ⟨hlow, hhigh, hpos, hle⟩

namespace Store

/-- The group has the member, and as one of this kind. -/
def HasEdge (s : Store) (group member : GroupId) (kind : MemberKind) : Prop :=
  (s.edgesOf group)[member]? = some kind

/-- Groups and members are where the hierarchy has them. -/
structure WellFormed (h : Hierarchy) (s : Store) : Prop where
  edges : ∀ group member kind, s.HasEdge group member kind → ∃ level number,
    group = .encode level number ∧ h.HasGroup level number ∧ h.Allows level member kind
  rows : ∀ id row, s.group? id = some row → ∃ level number,
    id = .encode level number ∧ h.HasGroup level number ∧ row = ⟨level, .forLevel level⟩

/-- What one store has, the other has too, and of the same kind. -/
structure Keeps (s t : Store) : Prop where
  edges : ∀ group member kind, s.HasEdge group member kind → t.HasEdge group member kind
  rows : ∀ id row, s.group? id = some row → t.group? id = some row

theorem Keeps.refl (s : Store) : Keeps s s := ⟨fun _ _ _ hedge => hedge, fun _ _ hrow => hrow⟩

/-- A store becomes another one when it takes the write of an address. Which member the edge leads
to is up to the draw. -/
inductive Takes (h : Hierarchy) (s : Store) (a : Address) : Store → Prop
  | row : a.slot = 0 → Takes h s a (s.insertGroup a.level a.group)
  | edge (member : GroupId) (kind : MemberKind) : a.slot ≠ 0 → h.Allows a.level member kind →
      (kind = .subgroup ↔ h.isSubgroupSlot a.level a.slot) →
      Takes h s a (s.link (.ofPosition a.level a.group) member kind)

/-- The writes of these addresses, the last one first, have made the store out of an empty one. -/
inductive Built (h : Hierarchy) : List Address → Store → Prop
  | empty : Built h [] .empty
  | write {written : List Address} {s t : Store} {a : Address} :
      Built h written s → h.Owns 1 1 a → Takes h s a t → Built h (a :: written) t

variable {h : Hierarchy} {s t : Store} {a : Address} {written : List Address}

theorem takes_write {ρ : Type} (hpop : h.Populated) (source : WordSource ρ) (picks : ρ)
    (s : Store) (howns : h.Owns 1 1 a) :
    Takes h s a ((⟨s, picks⟩ : MemoryState ρ).write h source (h.write a)).store := by
  rw [Hierarchy.write, Address.isGroupRow]
  split
  · rename_i hrow
    exact .row (of_decide_eq_true hrow)
  · rename_i hedge
    obtain ⟨-, hlevel, -⟩ := howns
    obtain ⟨hallowed, hkind⟩ := Hierarchy.pickMember_allows hpop source hlevel
      (h.isSubgroupSlot a.level a.slot) picks
    refine .edge _ _ (fun hzero => hedge (decide_eq_true hzero)) hallowed
      (hkind.trans (and_iff_left_of_imp fun hslot => ?_))
    simp only [Hierarchy.isSubgroupSlot, Bool.and_eq_true, decide_eq_true_eq] at hslot
    exact hslot.1.1

theorem hasEdge_link {group member : GroupId} {kind : MemberKind} {a b : GroupId} {k : MemberKind} :
    (s.link group member kind).HasEdge a b k ↔
      if group = a ∧ member = b then kind = k else s.HasEdge a b k := by
  rw [HasEdge, edgesOf_link]
  by_cases hgroup : group = a
  · subst hgroup
    by_cases hmember : member = b
    · subst hmember
      simp
    · simp [Std.ExtTreeMap.getElem?_insert, hmember, HasEdge]
  · simp [hgroup, HasEdge]

theorem group?_insertGroup {level : UInt16} {group : UInt32} {id : GroupId} :
    (s.insertGroup level group).group? id =
      if .ofPosition level group = id then some ⟨level, .forLevel level⟩ else s.group? id := by
  simp [insertGroup, group?, Std.ExtTreeMap.getElem?_insert]

theorem wellFormed_empty : WellFormed h empty := by
  refine ⟨?_, ?_⟩
  · intro group member kind hedge
    simp [HasEdge] at hedge
  · intro id row hrow
    simp [group?, empty] at hrow

theorem WellFormed.takes (hs : WellFormed h s) (howns : h.Owns 1 1 a) (ht : Takes h s a t) :
    WellFormed h t := by
  have hgroup := Hierarchy.hasGroup_of_owns howns
  cases ht with
  | row =>
    refine ⟨hs.edges, fun id row hrow => ?_⟩
    rw [group?_insertGroup] at hrow
    split at hrow
    · rename_i hid
      exact ⟨_, _, hid.symm, hgroup, (Option.some.inj hrow).symm⟩
    · exact hs.rows id row hrow
  | edge member kind _ hallowed =>
    refine ⟨fun group' member' kind' hedge => ?_, hs.rows⟩
    rw [hasEdge_link] at hedge
    split at hedge
    · rename_i hsame
      obtain ⟨rfl, rfl⟩ := hsame
      exact ⟨_, _, rfl, hgroup, hedge ▸ hallowed⟩
    · exact hs.edges group' member' kind' hedge

/-- No write takes anything away, and none makes a member of one kind one of the other. -/
theorem WellFormed.keeps (hs : WellFormed h s) (ht : Takes h s a t) : Keeps s t := by
  cases ht with
  | row =>
    refine ⟨fun _ _ _ hedge => hedge, fun id row hrow => ?_⟩
    rw [group?_insertGroup]
    split
    · rename_i hid
      obtain ⟨level, number, hid', -, rfl⟩ := hs.rows id row hrow
      have hlevel : a.level = level := by
        have hfields := congrArg GroupId.level (hid.trans hid')
        rwa [GroupId.ofPosition, GroupId.level_encode, GroupId.level_encode] at hfields
      rw [hlevel]
    · exact hrow
  | edge member kind _ hallowed =>
    refine ⟨fun group' member' kind' hedge => ?_, fun _ _ hrow => hrow⟩
    rw [hasEdge_link]
    split
    · rename_i hsame
      obtain ⟨rfl, rfl⟩ := hsame
      obtain ⟨level, number, -, -, hallowed'⟩ := hs.edges _ _ _ hedge
      rw [hallowed.kind_eq, hallowed'.kind_eq]
    · exact hedge

theorem Built.wellFormed (hb : Built h written s) : WellFormed h s := by
  induction hb with
  | empty => exact wellFormed_empty
  | write _ howns ht ih => exact ih.takes howns ht

theorem Built.owns (hb : Built h written s) (ha : a ∈ written) : h.Owns 1 1 a := by
  induction hb with
  | empty => cases ha
  | write _ howns _ ih =>
    rcases List.mem_cons.1 ha with rfl | ha
    · exact howns
    · exact ih ha

/-- Groups of the first level have users only. -/
theorem WellFormed.not_hasSubgroup (hs : WellFormed h s) (number : UInt32) (member : GroupId) :
    ¬ s.HasSubgroup (.encode 1 number) member := by
  intro hedge
  obtain ⟨level, number', hgroup, -, hallowed⟩ := hs.edges _ _ _ hedge
  have hlevel := congrArg GroupId.level hgroup
  rw [GroupId.level_encode, GroupId.level_encode] at hlevel
  subst hlevel
  cases hallowed with
  | subgroup number hlow => exact absurd hlow (by decide)

end Store

end GroupBench
