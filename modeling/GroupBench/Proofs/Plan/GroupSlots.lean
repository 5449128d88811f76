import GroupBench.Proofs.Hierarchy.Slots
import GroupBench.Proofs.Plan.LevelStarts

/-! What a plan has for one group. The indices that lead to a group follow one another and go
through all of its slots: the row, then the users, then the subgroups. -/
namespace GroupBench

/-- All writes of a group: its row, the edges to its users, and those to its subgroups. -/
def groupWrites (level : UInt16) (group : UInt32) (users subgroups : Nat) : List Write :=
  .group level group ::
    ((List.range' 1 users).map fun slot => .member level group (UInt32.ofNat slot) false) ++
      (List.range' (1 + users) subgroups).map fun slot =>
        .member level group (UInt32.ofNat slot) true

/-- The indices from `first` on lead to the group and through its slots, one after the other, and no
other index leads there. Slots after those of the users are of subgroups. -/
structure FillPlan.GoesThrough (plan : FillPlan) (level : UInt16) (group : UInt32)
    (users subgroups first : Nat) : Prop where
  address_iff : ∀ (k : UInt64) slot, plan.address k = some ⟨level, group, slot⟩ ↔
    k.toNat = first + slot.toNat ∧ slot.toNat ≤ users + subgroups
  isSubgroup_iff : ∀ slot, slot.toNat ≤ users + subgroups →
    (plan.isSubgroup ⟨level, group, slot⟩ ↔ users < slot.toNat ∧ 1 < level)
  writes : (List.range' first (1 + users + subgroups)).map
      (fun k => (plan.address (UInt64.ofNat k)).map plan.write) =
    (groupWrites level group users subgroups).map some
  lowest : level = 1 → subgroups = 0

/-- The first index of a group. -/
def LevelSpan.groupOffset (span : LevelSpan) (group : UInt32) : Nat :=
  span.offset.toNat + (group.toNat - span.start.toNat) * span.unitsPerGroup.toNat

theorem LevelSpan.holds_iff {span : LevelSpan} {k : Nat} {group slot : UInt32}
    (hstart : span.start ≤ group) (hstop : group < span.stop) :
    span.Holds k ⟨span.level, group, slot⟩ ↔
      k = span.groupOffset group + slot.toNat ∧ slot.toNat < span.unitsPerGroup.toNat := by
  rw [groupOffset, Nat.add_assoc]
  constructor
  · intro hholds
    exact ⟨hholds.index, hholds.slot_lt⟩
  · rintro ⟨hindex, hslot⟩
    exact ⟨rfl, UInt32.le_iff_toNat_le.1 hstart, UInt32.lt_iff_toNat_lt.1 hstop, hslot, hindex⟩

namespace FillPlan
variable {plan : FillPlan} {level : UInt16} {group slot : UInt32} {first users subgroups : Nat}

theorem write_member (hslot : slot ≠ 0) :
    plan.write ⟨level, group, slot⟩ =
      .member level group slot (plan.isSubgroup ⟨level, group, slot⟩) := by
  rw [write, Address.isGroupRow, decide_eq_false hslot]
  rfl

/-- The writes at consecutive slots of one kind. -/
theorem map_write_range' (first : Nat) (subgroup : Bool) {low count : Nat} (hlow : 1 ≤ low)
    (hhigh : low + count ≤ UInt32.size)
    (haddress : ∀ slot, slot < low + count →
      plan.address (UInt64.ofNat (first + slot)) = some ⟨level, group, UInt32.ofNat slot⟩)
    (hkind : ∀ slot : UInt32, low ≤ slot.toNat → slot.toNat < low + count →
      plan.isSubgroup ⟨level, group, slot⟩ = subgroup) :
    (List.range' (first + low) count).map
        (fun k => (plan.address (UInt64.ofNat k)).map plan.write) =
      ((List.range' low count).map fun slot =>
        Write.member level group (UInt32.ofNat slot) subgroup).map some := by
  rw [← List.map_add_range', List.map_map, List.map_map]
  refine List.map_congr_left fun slot hslot => ?_
  rw [List.mem_range'_1] at hslot
  have hword : (UInt32.ofNat slot).toNat = slot := UInt32.toNat_ofNat_of_lt (by omega)
  have hne : UInt32.ofNat slot ≠ 0 := by
    intro hzero
    rw [hzero, UInt32.toNat_zero] at hword
    omega
  simp only [Function.comp_apply, haddress slot hslot.2, Option.map_some, write_member hne]
  rw [hkind _ (by omega) (by omega)]

theorem map_write_group (hhigh : users + subgroups < UInt32.size)
    (haddress : ∀ slot, slot ≤ users + subgroups →
      plan.address (UInt64.ofNat (first + slot)) = some ⟨level, group, UInt32.ofNat slot⟩)
    (hkind : ∀ slot : UInt32, slot.toNat ≤ users + subgroups →
      (plan.isSubgroup ⟨level, group, slot⟩ ↔ users < slot.toNat)) :
    (List.range' first (1 + users + subgroups)).map
        (fun k => (plan.address (UInt64.ofNat k)).map plan.write) =
      (groupWrites level group users subgroups).map some := by
  have hrow : (plan.address (UInt64.ofNat first)).map plan.write = some (.group level group) := by
    have hfirst := haddress 0 (Nat.zero_le _)
    rw [Nat.add_zero] at hfirst
    rw [hfirst]
    rfl
  have husers := map_write_range' first false (Nat.le_refl 1)
    (by omega : 1 + users ≤ _) (fun slot hslot => haddress slot (by omega))
    fun slot _ hless => by
      rw [← Bool.not_eq_true, hkind slot (by omega)]
      omega
  have hsubgroups := map_write_range' first true (Nat.le_add_right 1 users)
    (by omega : 1 + users + subgroups ≤ _) (fun slot hslot => haddress slot (by omega))
    fun slot hlow hless => (hkind slot (by omega)).2 (by omega)
  rw [groupWrites, List.cons_append, List.map_cons, List.map_append, ← husers, ← hsubgroups,
    ← List.range'_append_1, ← List.range'_append_1, List.range'_one, List.map_append,
    List.map_append, List.map_singleton, hrow]
  simp only [List.cons_append, List.nil_append]

end FillPlan

section Group
variable {h : Hierarchy} {id of : UInt32} {plan : FillPlan} {k : UInt64} {span : LevelSpan}
  {group slot : UInt32}
variable (hmake : FillPlan.make h id of = .ok plan)
include hmake

theorem plan_hierarchy : plan.hierarchy = h := by
  obtain ⟨-, -, rfl⟩ := make_eq_ok_iff.1 hmake
  rfl

theorem unitsPerGroup_of_mem (hm : span ∈ plan.spans) :
    span.unitsPerGroup.toNat = (h.memberSlots span.level).toNat + 1 := by
  obtain ⟨-, -, rfl⟩ := make_eq_ok_iff.1 hmake
  obtain ⟨offset, he⟩ := mem_layOut hm
  rw [he]
  exact unitsPerGroup_spanAt h id of offset span.level

variable (hfit : h.units id of < UInt64.size) (hm : span ∈ plan.spans)
  (hstart : span.start ≤ group) (hstop : group < span.stop)
include hfit hm hstart hstop

theorem address_group_iff : plan.address k = some ⟨span.level, group, slot⟩ ↔
    k.toNat = span.groupOffset group + slot.toNat ∧
      slot.toNat ≤ (h.memberSlots span.level).toNat := by
  rw [address_eq_some_iff hmake hfit, ← Nat.lt_succ_iff, Nat.succ_eq_add_one,
    ← unitsPerGroup_of_mem hmake hm, ← LevelSpan.holds_iff hstart hstop]
  constructor
  · rintro ⟨other, hother, hholds⟩
    obtain rfl := spans_eq_of_level hmake hm hother hholds.level
    exact hholds
  · intro hholds
    exact ⟨span, hm, hholds⟩

theorem groupOffset_add_lt (hslot : slot.toNat ≤ (h.memberSlots span.level).toNat) :
    span.groupOffset group + slot.toNat < UInt64.size := by
  have hless : slot.toNat < span.unitsPerGroup.toNat := by
    rw [unitsPerGroup_of_mem hmake hm]
    exact Nat.lt_succ_of_le hslot
  have hhas := ((LevelSpan.holds_iff hstart hstop).2 ⟨rfl, hless⟩).has
  exact Nat.lt_trans (Nat.lt_of_lt_of_le hhas.2 ((plan_tiled hmake hfit).2.bounds hm).2) hfit

theorem goesThrough {users subgroups : Nat} (husers : users = (h.leafMemberCount span.level).toNat)
    (hslots : users + subgroups = (h.memberSlots span.level).toNat)
    (hlowest : span.level = 1 → subgroups = 0) :
    plan.GoesThrough span.level group users subgroups (span.groupOffset group) where
  address_iff := by
    intro k slot
    rw [address_group_iff hmake hfit hm hstart hstop, hslots]
  isSubgroup_iff := by
    intro slot hslot
    rw [FillPlan.isSubgroup, plan_hierarchy hmake, Hierarchy.isSubgroupSlot_iff,
      UInt32.lt_iff_toNat_lt, UInt32.le_iff_toNat_le, ← husers, ← hslots]
    tauto
  writes := by
    have hword := (h.memberSlots span.level).toNat_lt
    refine FillPlan.map_write_group (hslots ▸ hword) (fun slot hslot => ?_) fun slot hslot => ?_
    · have hsmall : (UInt32.ofNat slot).toNat = slot :=
        UInt32.toNat_ofNat_of_lt (Nat.lt_of_le_of_lt (hslots ▸ hslot) hword)
      have hle : (UInt32.ofNat slot).toNat ≤ (h.memberSlots span.level).toNat := by omega
      refine (address_group_iff hmake hfit hm hstart hstop).2 ⟨?_, hle⟩
      have hless := groupOffset_add_lt hmake hfit hm hstart hstop hle
      rw [hsmall] at hless ⊢
      exact UInt64.toNat_ofNat_of_lt hless
    · rw [FillPlan.isSubgroup, plan_hierarchy hmake, Hierarchy.isSubgroupSlot_iff_lt,
        UInt32.lt_iff_toNat_lt, ← husers]
      rw [UInt32.le_iff_toNat_le, ← hslots]
      exact hslot
  lowest := hlowest

end Group

/-- Every instance has a plan, which goes through each group that the instance owns: the row, as
many slots of users and of subgroups as there are. Where these are too many for a word, the slots of
subgroups are what the users leave of it. -/
theorem plan_goes_through_groups {h : Hierarchy} {id of : UInt32} (hid : 1 ≤ id) (hof : id ≤ of)
    (hfit : h.units id of < UInt64.size) :
    ∃ plan, FillPlan.make h id of = .ok plan ∧
      ∀ level start stop group, plan.owned level = some (start, stop) → start ≤ group →
        group < stop → ∃ first,
          ((h.leafMemberCount level).toNat + (h.subgroupCount level).toNat < UInt32.size →
            plan.GoesThrough level group (h.leafMemberCount level).toNat
              (h.subgroupCount level).toNat first) ∧
          (UInt32.size ≤ (h.leafMemberCount level).toNat + (h.subgroupCount level).toNat →
            plan.GoesThrough level group (h.leafMemberCount level).toNat
              (UInt32.size - 1 - (h.leafMemberCount level).toNat) first) := by
  have hne : id ≠ 0 := by
    rintro rfl
    exact absurd hid (by decide)
  obtain ⟨plan, hmake⟩ : ∃ plan, FillPlan.make h id of = .ok plan :=
    ⟨_, make_eq_ok_iff.2 ⟨hne, hof, rfl⟩⟩
  refine ⟨plan, hmake, fun level start stop group howned hstart hstop => ?_⟩
  obtain ⟨span, hm, rfl, rfl, rfl⟩ := (owned_eq_some_iff hmake).1 howned
  have hslots := h.toNat_memberSlots span.level
  have hleaf := (h.leafMemberCount span.level).toNat_lt
  simp only [UInt32.size] at hslots ⊢
  refine ⟨span.groupOffset group, fun hroom => ?_, fun hfull => ?_⟩
  · refine goesThrough hmake hfit hm hstart hstop rfl (by omega) fun hone => ?_
    rw [h.subgroupCount_low span.level (hone ▸ UInt16.le_refl 1)]
    rfl
  · refine goesThrough hmake hfit hm hstart hstop rfl (by omega) fun hone => ?_
    have hzero := congrArg UInt32.toNat (h.subgroupCount_low span.level (hone ▸ UInt16.le_refl 1))
    rw [UInt32.toNat_zero] at hzero
    omega

/-- Groups of the second level have more members than a word can count. -/
def crowdedHierarchy : Hierarchy where
  levelCount := 2
  groupCount _ := 1
  leafMemberCount level := if level = 1 then 1 else 4294967293
  subgroupCount level := if level ≤ 1 then 0 else 7
  userPoolSize := 1
  subgroupCount_low _ hlow := if_pos hlow

theorem crowded_plan_goes_through_groups :
    (1 : UInt32) ≤ 1 ∧ crowdedHierarchy.units 1 1 = 4294967298 ∧
      ∃ plan, FillPlan.make crowdedHierarchy 1 1 = .ok plan ∧
        (∃ first, plan.GoesThrough 1 0 1 0 first) ∧
        ∃ first, plan.GoesThrough 2 0 4294967293 2 first := by
  have hunits : crowdedHierarchy.units 1 1 = 4294967298 := by decide +kernel
  have hfit : crowdedHierarchy.units 1 1 < UInt64.size := hunits.symm ▸ (by decide)
  obtain ⟨plan, hmake, hgroups⟩ := plan_goes_through_groups (by decide) (by decide) hfit
  have howned : plan.owned 1 = some (0, 1) ∧ plan.owned 2 = some (0, 1) := by
    obtain ⟨-, -, rfl⟩ := make_eq_ok_iff.1 hmake
    decide +kernel
  obtain ⟨low, hroom, -⟩ := hgroups 1 0 1 0 howned.1 (by decide) (by decide)
  obtain ⟨high, -, hfull⟩ := hgroups 2 0 1 0 howned.2 (by decide) (by decide)
  exact ⟨by decide, hunits, plan, hmake, ⟨low, hroom (by decide)⟩, high, hfull (by decide)⟩

end GroupBench
