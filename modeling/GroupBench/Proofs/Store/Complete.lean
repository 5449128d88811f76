import GroupBench.Proofs.Hierarchy.Positions
import GroupBench.Proofs.Hierarchy.Slots
import GroupBench.Proofs.Store.WellFormed

/-! A store that has taken the writes of a whole hierarchy: it has a row for each group, and each
group has members of both kinds as far as it has slots for them. -/
namespace GroupBench

namespace Hierarchy
variable (h : Hierarchy)

/-- Identifiers of all groups. -/
def allGroupIds : List GroupId := h.levels.flatMap h.groupIds

variable {h} {level : UInt16} {number : UInt32} {id : GroupId}

theorem mem_groupIds : id ∈ h.groupIds level ↔
    ∃ number, id = .encode level number ∧ 1 ≤ number ∧ number ≤ h.groupCount level := by
  rw [groupIds, List.mem_map]
  constructor
  · rintro ⟨index, hindex, rfl⟩
    rw [List.mem_range] at hindex
    have hcount := (h.groupCount level).toNat_lt
    have hlt : UInt32.ofNat index < h.groupCount level := by
      rw [UInt32.lt_iff_toNat_lt, UInt32.toNat_ofNat', Nat.mod_eq_of_lt (by omega)]
      exact hindex
    obtain ⟨hpos, hle⟩ := number_ofPosition hlt
    exact ⟨_, rfl, hpos, hle⟩
  · rintro ⟨number, rfl, hpos, hle⟩
    obtain ⟨index, hlt, rfl⟩ := exists_index hpos hle
    refine ⟨index.toNat, List.mem_range.2 (UInt32.lt_iff_toNat_lt.1 hlt), ?_⟩
    rw [UInt32.ofNat_toNat]
    rfl

theorem mem_allGroupIds :
    id ∈ h.allGroupIds ↔ ∃ level number, id = .encode level number ∧ h.HasGroup level number := by
  simp only [allGroupIds, List.mem_flatMap, mem_levels, mem_groupIds]
  constructor
  · rintro ⟨level, ⟨hlow, hhigh⟩, number, rfl, hpos, hle⟩
    exact ⟨level, number, rfl, hlow, hhigh, hpos, hle⟩
  · rintro ⟨level, number, rfl, hlow, hhigh, hpos, hle⟩
    exact ⟨level, ⟨hlow, hhigh⟩, number, rfl, hpos, hle⟩

theorem allGroupIds_nodup : h.allGroupIds.Nodup := by
  refine List.nodup_flatMap.2 ⟨fun level _ => h.groupIds_nodup level, levels_nodup.imp ?_⟩
  intro level level' hne id hid hid'
  obtain ⟨number, rfl, -⟩ := mem_groupIds.1 hid
  obtain ⟨number', he, -⟩ := mem_groupIds.1 hid'
  have hlevel := congrArg GroupId.level he
  rw [GroupId.level_encode, GroupId.level_encode] at hlevel
  exact hne hlevel

theorem length_allGroupIds : h.allGroupIds.length = h.totalGroups := by
  have hfold (levels : List UInt16) (n : Nat) :
      levels.foldl (fun n level => n + (h.groupCount level).toNat) n =
        n + (levels.flatMap h.groupIds).length := by
    induction levels generalizing n with
    | nil => rfl
    | cons level rest ih =>
      rw [List.foldl_cons, ih, List.flatMap_cons, List.length_append, groupIds, List.length_map,
        List.length_range, Nat.add_assoc]
  rw [allGroupIds, totalGroups, hfold, Nat.zero_add]

end Hierarchy

namespace Store
variable {h : Hierarchy} {s t : Store} {a : Address} {written : List Address}

/-- What the write of an address leaves in a store. -/
structure Traced (h : Hierarchy) (s : Store) (a : Address) : Prop where
  row : a.slot = 0 →
    s.group? (.ofPosition a.level a.group) = some ⟨a.level, .forLevel a.level⟩
  member : a.slot ≠ 0 → ∃ member kind, s.HasEdge (.ofPosition a.level a.group) member kind ∧
    (kind = .subgroup ↔ h.isSubgroupSlot a.level a.slot)

theorem Takes.traced (ht : Takes h s a t) : Traced h t a := by
  cases ht with
  | row hrow =>
    refine ⟨fun _ => ?_, fun hedge => absurd hrow hedge⟩
    rw [group?_insertGroup, if_pos rfl]
  | edge member kind hedge _ hkind =>
    refine ⟨fun hrow => absurd hrow hedge, fun _ => ⟨member, kind, ?_, hkind⟩⟩
    rw [hasEdge_link, if_pos ⟨rfl, rfl⟩]

theorem Traced.keeps (hs : Traced h s a) (hk : Keeps s t) : Traced h t a where
  row hrow := hk.rows _ _ (hs.row hrow)
  member hedge := by
    obtain ⟨member, kind, hmember, hkind⟩ := hs.member hedge
    exact ⟨member, kind, hk.edges _ _ _ hmember, hkind⟩

/-- No write is lost: what each of them left is still there. -/
theorem Built.traced (hb : Built h written s) (ha : a ∈ written) : Traced h s a := by
  induction hb with
  | empty => cases ha
  | write hb _ ht ih =>
    rcases List.mem_cons.1 ha with rfl | ha
    · exact ht.traced
    · exact (ih ha).keeps (hb.wellFormed.keeps ht)

/-- The writes of the whole hierarchy have made the store, each of them once. -/
def Filled (h : Hierarchy) (s : Store) : Prop :=
  ∃ written, Built h written s ∧ written.Nodup ∧ ∀ a, h.Owns 1 1 a → a ∈ written

/-- The store has a row for each group and nothing else, and each group has members of both kinds as
far as it has slots for them. -/
structure Complete (h : Hierarchy) (s : Store) : Prop where
  rows : s.groupRows = h.totalGroups
  users : ∀ level number, h.HasGroup level number → 1 ≤ h.leafMemberCount level →
    ∃ member, s.HasUser (.encode level number) member
  subgroups : ∀ level number, h.HasGroup level number → 1 ≤ h.subgroupCount level →
    h.leafMemberCount level < 0xFFFFFFFF → ∃ member, s.HasSubgroup (.encode level number) member

theorem WellFormed.groupRows_eq (hs : WellFormed h s)
    (hall : ∀ id ∈ h.allGroupIds, (s.group? id).isSome) : s.groupRows = h.totalGroups := by
  have hperm : s.groups.keys.Perm h.allGroupIds := by
    refine (List.perm_ext_iff_of_nodup Std.ExtTreeMap.nodup_keys
      Hierarchy.allGroupIds_nodup).2 fun id => ?_
    rw [Std.ExtTreeMap.mem_keys]
    constructor
    · intro hmem
      obtain ⟨level, number, hid, hgroup, -⟩ :=
        hs.rows id s.groups[id] (Std.ExtTreeMap.getElem?_eq_some_getElem hmem)
      exact Hierarchy.mem_allGroupIds.2 ⟨level, number, hid, hgroup⟩
    · intro hid
      exact Std.ExtTreeMap.mem_iff_isSome_getElem?.2 (hall id hid)
  rw [groupRows, ← Std.ExtTreeMap.length_keys, hperm.length_eq, Hierarchy.length_allGroupIds]

/-- The address of a group's slot. -/
theorem exists_owned {level : UInt16} {number slot : UInt32} (hgroup : h.HasGroup level number)
    (hslot : slot ≤ h.memberSlots level) : ∃ group, h.Owns 1 1 ⟨level, group, slot⟩ ∧
      GroupId.ofPosition level group = .encode level number := by
  obtain ⟨index, hlt, rfl⟩ := Hierarchy.exists_index hgroup.number_pos hgroup.number_le
  exact ⟨index, owns_alone.2 ⟨⟨hgroup.level_pos, hgroup.level_le, hslot⟩, hlt⟩, rfl⟩

section All
variable (hb : Built h written s) (hall : ∀ a, h.Owns 1 1 a → a ∈ written)
include hb hall

/-- Each slot of a group has given it a member, and of the kind that the slot is for. -/
theorem Built.exists_member {level : UInt16} {number slot : UInt32}
    (hgroup : h.HasGroup level number) (hslot : slot ≤ h.memberSlots level) (hne : slot ≠ 0) :
    ∃ member kind, s.HasEdge (.encode level number) member kind ∧
      (kind = .subgroup ↔ h.isSubgroupSlot level slot) := by
  obtain ⟨group, howns, he⟩ := exists_owned hgroup hslot
  rw [← he]
  exact (hb.traced (hall _ howns)).member hne

theorem Built.complete : Complete h s where
  rows := by
    refine hb.wellFormed.groupRows_eq fun id hid => ?_
    obtain ⟨level, number, rfl, hgroup⟩ := Hierarchy.mem_allGroupIds.1 hid
    obtain ⟨group, howns, he⟩ := exists_owned hgroup (UInt32.zero_le (a := h.memberSlots level))
    rw [← he, (hb.traced (hall _ howns)).row rfl]
    rfl
  users := by
    intro level number hgroup hleaf
    obtain ⟨member, kind, hmember, hkind⟩ := hb.exists_member hall hgroup
      (Hierarchy.one_le_memberSlots hleaf) (by decide)
    cases kind with
    | user => exact ⟨member, hmember⟩
    | subgroup =>
      obtain ⟨-, hless, -⟩ := Hierarchy.isSubgroupSlot_iff.1 (hkind.1 rfl)
      exact absurd hleaf (UInt32.not_le.2 hless)
  subgroups := by
    intro level number hgroup hcount hroom
    have hnext := Hierarchy.isSubgroupSlot_next hcount hroom
    obtain ⟨-, hless, hslot⟩ := Hierarchy.isSubgroupSlot_iff.1 hnext
    have hne : h.leafMemberCount level + 1 ≠ 0 := by
      intro hzero
      rw [hzero] at hless
      exact UInt32.not_lt_zero hless
    obtain ⟨member, kind, hmember, hkind⟩ := hb.exists_member hall hgroup hslot hne
    rw [hkind.2 hnext] at hmember
    exact ⟨member, hmember⟩

end All

end Store

end GroupBench
