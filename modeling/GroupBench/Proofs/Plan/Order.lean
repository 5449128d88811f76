import GroupBench.Proofs.Plan.Instances

/-! The order of a plan. Its units are numbered level by level, group by group and slot by slot, so
of two writes the one with the greater index is the greater address. -/
namespace GroupBench

/-- A span ends before the other one begins, and is of a lower level. -/
structure LevelSpan.Precedes (x y : LevelSpan) : Prop where
  level_lt : x.level < y.level
  le_offset : x.offset.toNat + x.count ≤ y.offset.toNat

theorem Tiled.pairwise {first stop : Nat} {spans : List LevelSpan} (ht : Tiled first spans stop) :
    spans.Pairwise fun x y => x.offset.toNat + x.count ≤ y.offset.toNat := by
  induction ht with
  | nil => exact .nil
  | @cons first stop span spans _ ho ht ih =>
    refine .cons (fun later hlater => ?_) ih
    rw [ho]
    exact (ht.bounds hlater).1

/-- Within a span the group decides, and within a group the slot. -/
theorem LevelSpan.Holds.lt {span : LevelSpan} {j k : Nat} {a b : Address} (ha : span.Holds j a)
    (hb : span.Holds k b) (hlt : j < k) : a < b := by
  have hlevel : a.level = b.level := ha.level.trans hb.level.symm
  refine .inr ⟨hlevel, ?_⟩
  rcases Nat.lt_trichotomy a.group.toNat b.group.toNat with hgroup | hgroup | hgroup
  · exact .inl (UInt32.lt_iff_toNat_lt.2 hgroup)
  · refine .inr ⟨UInt32.toNat_inj.1 hgroup, UInt32.lt_iff_toNat_lt.2 ?_⟩
    rw [ha.index, hb.index, hgroup] at hlt
    omega
  · -- The whole of the earlier group lies before a slot of the later one.
    exfalso
    have hstart := hb.start_le
    have hslot := hb.slot_lt
    have hgroups : b.group.toNat - span.start.toNat + 1 ≤ a.group.toNat - span.start.toNat := by
      omega
    have hunits := Nat.mul_le_mul_right span.unitsPerGroup.toNat hgroups
    rw [Nat.add_mul, Nat.one_mul] at hunits
    rw [ha.index, hb.index] at hlt
    omega

theorem Address.lt_asymm {a b : Address} (hab : a < b) : ¬ b < a := by
  intro hba
  rcases hab with hlevel | ⟨hlevel, hgroup | ⟨hgroup, hslot⟩⟩ <;>
    rcases hba with hlevel' | ⟨hlevel', hgroup' | ⟨hgroup', hslot'⟩⟩ <;>
    simp only [UInt16.lt_iff_toNat_lt, UInt32.lt_iff_toNat_lt, ← UInt16.toNat_inj,
      ← UInt32.toNat_inj] at * <;> omega

namespace FillPlan
variable (plan : FillPlan) (h : Hierarchy)

/-- The address is at a level of the hierarchy, in a group that the instance owns there, and at a
slot that the group has. -/
structure Covers (a : Address) : Prop where
  level_pos : 1 ≤ a.level
  level_le : a.level ≤ h.levelCount
  owned : ∃ start stop, plan.owned a.level = some (start, stop) ∧ start ≤ a.group ∧ a.group < stop
  slot_le : a.slot ≤ h.memberSlots a.level

/-- Indices below the total and addresses that the plan covers stand for one another, in the same
order. -/
structure NumbersInOrder : Prop where
  isSome_iff : ∀ k, (plan.address k).isSome ↔ k < plan.totalUnits
  covers : ∀ k a, plan.address k = some a → plan.Covers h a
  unique : ∀ a, plan.Covers h a → ∃! k, plan.address k = some a
  lt_iff : ∀ j k a b, plan.address j = some a → plan.address k = some b → (a < b ↔ j < k)

end FillPlan

section Order
variable {h : Hierarchy} {id of : UInt32} {plan : FillPlan} {j k : UInt64} {a b : Address}
variable (hmake : FillPlan.make h id of = .ok plan)
include hmake

theorem covers_iff_owns : plan.Covers h a ↔ h.Owns id of a := by
  constructor
  · rintro ⟨hlow, hhigh, ⟨start, stop, howned, hstart, hstop⟩, hslot⟩
    rw [owned_eq hmake hlow hhigh, Option.some.injEq] at howned
    rw [Hierarchy.Owns, howned]
    exact ⟨hlow, hhigh, hstart, hstop, hslot⟩
  · rintro ⟨hlow, hhigh, hstart, hstop, hslot⟩
    exact ⟨hlow, hhigh, ⟨_, _, owned_eq hmake hlow hhigh, hstart, hstop⟩, hslot⟩

variable (hfit : h.units id of < UInt64.size)
include hfit

theorem spans_pairwise : plan.spans.Pairwise LevelSpan.Precedes := by
  have hoffsets := (plan_tiled hmake hfit).2.pairwise
  have hlevels : (plan.spans.map LevelSpan.level).Pairwise (· < ·) :=
    spans_levels hmake ▸ h.levels_sorted
  exact (hoffsets.and (List.pairwise_map.1 hlevels)).imp fun ⟨hoffset, hlevel⟩ => ⟨hlevel, hoffset⟩

theorem address_lt (ha : plan.address j = some a) (hb : plan.address k = some b) (hlt : j < k) :
    a < b := by
  obtain ⟨x, hx, hxa⟩ := (address_eq_some_iff hmake hfit).1 ha
  obtain ⟨y, hy, hyb⟩ := (address_eq_some_iff hmake hfit).1 hb
  obtain ⟨m, hm, rfl⟩ := List.getElem_of_mem hx
  obtain ⟨n, hn, rfl⟩ := List.getElem_of_mem hy
  have hspans := List.pairwise_iff_getElem.1 (spans_pairwise hmake hfit)
  have hlt := UInt64.lt_iff_toNat_lt.1 hlt
  rcases Nat.lt_trichotomy m n with hmn | rfl | hnm
  · left
    rw [hxa.level, hyb.level]
    exact (hspans m n hm hn hmn).level_lt
  · exact hxa.lt hyb hlt
  · -- The later span would end before the earlier index.
    have hends := (hspans n m hn hm hnm).le_offset
    have hbefore := hyb.has.2
    have hafter := hxa.has.1
    omega

theorem address_lt_iff (ha : plan.address j = some a) (hb : plan.address k = some b) :
    a < b ↔ j < k := by
  refine ⟨fun hab => ?_, address_lt hmake hfit ha hb⟩
  rcases Nat.lt_trichotomy j.toNat k.toNat with hlt | heq | hgt
  · exact UInt64.lt_iff_toNat_lt.2 hlt
  · obtain rfl := UInt64.toNat_inj.1 heq
    obtain rfl := Option.some.inj (ha.symm.trans hb)
    exact absurd hab (Address.lt_asymm hab)
  · exact absurd hab (Address.lt_asymm (address_lt hmake hfit hb ha (UInt64.lt_iff_toNat_lt.2 hgt)))

theorem numbersInOrder : plan.NumbersInOrder h where
  isSome_iff := by
    intro k
    rw [Option.isSome_iff_ne_none, Ne, address_eq_none_iff hmake hfit, Nat.not_le,
      UInt64.lt_iff_toNat_lt, (plan_tiled hmake hfit).1]
  covers := by
    intro k a hk
    exact (covers_iff_owns hmake).2 ((owns_iff_exists_index hmake hfit).2 ⟨k, hk⟩)
  unique := by
    intro a ha
    obtain ⟨k, hk⟩ := (owns_iff_exists_index hmake hfit).1 ((covers_iff_owns hmake).1 ha)
    exact ⟨k, hk, fun other hother => address_injective hmake hfit hother hk⟩
  lt_iff := fun _ _ _ _ => address_lt_iff hmake hfit

end Order

/-- Every instance has a plan, and the plan puts the indices below its total and the addresses of
the instance in one and the same order. -/
theorem plan_numbers_in_order {h : Hierarchy} {id of : UInt32} (hid : 1 ≤ id) (hof : id ≤ of)
    (hfit : h.units id of < UInt64.size) :
    ∃ plan, FillPlan.make h id of = .ok plan ∧ plan.totalUnits.toNat = h.units id of ∧
      plan.NumbersInOrder h := by
  have hne : id ≠ 0 := by
    rintro rfl
    exact absurd hid (by decide)
  have hmake := (make_eq_ok_iff (h := h)).2 ⟨hne, hof, rfl⟩
  exact ⟨_, hmake, (plan_tiled hmake hfit).1, numbersInOrder hmake hfit⟩

/-- The first of two instances owns nothing of the second level, and nobody does of the fourth. -/
def gappedHierarchy : Hierarchy where
  levelCount := 5
  groupCount level :=
    if level = 1 then 3 else if level = 2 then 1 else if level = 4 then 0 else 4
  leafMemberCount level := if level = 3 then 0 else 2
  subgroupCount level := if level ≤ 1 then 0 else 3
  userPoolSize := 3
  subgroupCount_low _ hlow := if_pos hlow

theorem gapped_plan_numbers_in_order :
    (1 : UInt32) ≤ 1 ∧ (1 : UInt32) ≤ 2 ∧ gappedHierarchy.units 1 2 = 23 ∧
      ∃ plan, FillPlan.make gappedHierarchy 1 2 = .ok plan ∧ plan.totalUnits.toNat = 23 ∧
        plan.NumbersInOrder gappedHierarchy := by
  have hunits : gappedHierarchy.units 1 2 = 23 := by decide +kernel
  have hfit : gappedHierarchy.units 1 2 < UInt64.size := hunits.symm ▸ (by decide)
  refine ⟨by decide, by decide, hunits, ?_⟩
  rw [← hunits]
  exact plan_numbers_in_order (by decide) (by decide) hfit

end GroupBench
