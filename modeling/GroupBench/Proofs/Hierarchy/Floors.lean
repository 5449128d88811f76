import GroupBench.Proofs.Hierarchy.Accepted
import GroupBench.Proofs.Hierarchy.Slots

/-! The counts of a hierarchy whose configuration passes the check. They are the scaled values
rounded down, and nothing on the way to them or to the ids of the groups is out of range. -/
namespace GroupBench
open Binary64

/-- The word is the number rounded down. -/
structure IsFloor (x : Float) (count : UInt32) : Prop where
  le : count.toFloat ≤ x
  lt : x < (count.toUInt64 + 1).toFloat

section Floor
variable {x : Float} {n : Nat} (hx : Worth x n) (hn : n / one ≤ 4294967294)
include hx hn

theorem toNat_toUInt32_of_le : x.toUInt32.toNat = n / one := by
  rw [toNat_toUInt32 hx]
  exact Nat.min_eq_left (Nat.le_trans hn (by decide))

theorem isFloor_toUInt32 : IsFloor x x.toUInt32 := by
  have hcount := toNat_toUInt32_of_le hx hn
  have hnext : (x.toUInt32.toUInt64 + 1).toNat = n / one + 1 := by
    rw [UInt64.toNat_add, UInt32.toNat_toUInt64, hcount, UInt64.toNat_one]
    omega
  have hafter : Worth (x.toUInt32.toUInt64 + 1).toFloat ((n / one + 1) * one : Nat) := by
    rw [← hnext]
    exact worth_toFloat_of_le (by omega)
  constructor
  · rw [le_iff (worth_toFloat _) hx, hcount]
    exact Nat.cast_le.2 (Nat.div_mul_le_self ..)
  · rw [lt_iff hx hafter, Nat.mul_comm]
    exact Nat.cast_lt.2 (Nat.lt_mul_div_succ n one_positive)

end Floor

theorem isFinite_toFloat (n : UInt32) : n.toFloat.isFinite := isFinite_of_worth (worth_toFloat n)

theorem isFinite_wholePart {x : Float} {n : Nat} (hx : Worth x n) : (wholePart x).isFinite :=
  isFinite_of_worth (worth_wholePart hx)

namespace HierarchyConfig
variable {power : Power} {c : HierarchyConfig} {level : UInt16}

/-- The numbers that the check compares at a level, those that are converted to its counts, and all
that they are computed from. -/
def numbersAt (power : Power) (c : HierarchyConfig) (level : UInt16) : List Float :=
  [0.0, 1.0, limit, c.growthFactor, (UInt16.ofNat (level.toNat - 1)).toFloat,
    power c.growthFactor (UInt16.ofNat (level.toNat - 1)).toFloat,
    c.firstLevelGroupCount.toFloat, c.userMemberCount.toFloat, c.subgroupMemberCount.toFloat,
    c.scale power c.firstLevelGroupCount level, c.scale power c.userMemberCount level,
    c.scale power c.subgroupMemberCount level, wholePart (c.scale power c.userMemberCount level),
    c.scaledSubgroups power level, wholePart (c.scaledSubgroups power level),
    c.scaledMembers power level]

/-- The counts of a level are exact, and there is room for its groups and their members. -/
structure ExactAt (power : Power) (c : HierarchyConfig) (level : UInt16) : Prop where
  groups : IsFloor (c.scale power c.firstLevelGroupCount level)
    ((c.hierarchy power).groupCount level)
  users : IsFloor (c.scale power c.userMemberCount level)
    ((c.hierarchy power).leafMemberCount level)
  subgroups : IsFloor (c.scaledSubgroups power level) ((c.hierarchy power).subgroupCount level)
  one_le_groups : 1 ≤ (c.hierarchy power).groupCount level
  groups_le : (c.hierarchy power).groupCount level ≤ 0xFFFFFFFE
  slots : ((c.hierarchy power).memberSlots level).toNat =
    ((c.hierarchy power).leafMemberCount level).toNat +
      ((c.hierarchy power).subgroupCount level).toNat
  slots_le : (c.hierarchy power).memberSlots level ≤ 0xFFFFFFFE
  finite : ∀ x ∈ c.numbersAt power level, x.isFinite
  numbers : ∀ index, index < (c.hierarchy power).groupCount level →
    (GroupId.ofPosition level index).number.toNat = index.toNat + 1

theorem subgroupCount_eq : (c.hierarchy power).subgroupCount level =
    (c.scaledSubgroups power level).toUInt32 := by
  have hzero : (0.0 : Float).toUInt32 = 0 := by decide +kernel
  change (if level ≤ 1 then 0 else c.scaledCount power c.subgroupMemberCount level) = _
  rw [scaledSubgroups]
  by_cases hlow : level ≤ 1
  · rw [if_pos hlow, if_neg (UInt16.not_lt.2 hlow), hzero]
  · rw [if_neg hlow, if_pos (UInt16.not_le.1 hlow), scaledCount]

theorem toNat_number_ofPosition {index : UInt32} (hindex : index < 0xFFFFFFFF) :
    (GroupId.ofPosition level index).number.toNat = index.toNat + 1 := by
  rw [UInt32.lt_iff_toNat_lt] at hindex
  rw [GroupId.ofPosition, GroupId.number_encode, UInt32.toNat_add, UInt32.toNat_one]
  exact Nat.mod_eq_of_lt (Nat.succ_lt_succ hindex)

section Checked
variable (hpower : power.Lawful) (hc : c.Accepted power) (hlow : 1 ≤ level)
  (hle : level ≤ c.levelCount)
include hpower hc hlow hle

theorem isFinite_of_mem_numbersAt : ∀ x ∈ c.numbersAt power level, x.isFinite := by
  obtain ⟨factor, hfactor, -⟩ := exists_worth_factor hpower hc hlow hle
  have hscale (base : UInt32) := exists_worth_scale hpower hc hlow hle base
  obtain ⟨groups, hgroups⟩ := hscale c.firstLevelGroupCount
  obtain ⟨users, husers⟩ := hscale c.userMemberCount
  obtain ⟨scaled, hscaled⟩ := hscale c.subgroupMemberCount
  obtain ⟨subgroups, hsubgroups⟩ := exists_worth_scaledSubgroups hpower hc hlow hle
  obtain ⟨⟨members, hmembers⟩, -⟩ := exists_worth_scaledMembers hc hlow hle husers hsubgroups
  simp only [numbersAt, List.forall_mem_cons, List.not_mem_nil, false_implies, implies_true,
    and_true]
  refine ⟨isFinite_of_worth worth_zero, isFinite_of_worth worth_one, isFinite_of_worth worth_limit,
    hc.growth_finite, ?_, isFinite_of_worth hfactor, isFinite_toFloat _, isFinite_toFloat _,
    isFinite_toFloat _, isFinite_of_worth hgroups, isFinite_of_worth husers,
    isFinite_of_worth hscaled, isFinite_wholePart husers, isFinite_of_worth hsubgroups,
    isFinite_wholePart hsubgroups, isFinite_of_worth hmembers⟩
  exact isFinite_toFloat (UInt16.ofNat (level.toNat - 1)).toUInt32

theorem exactAt : c.ExactAt power level := by
  obtain ⟨groups, hgroups⟩ := exists_worth_scale hpower hc hlow hle c.firstLevelGroupCount
  obtain ⟨users, husers⟩ := exists_worth_scale hpower hc hlow hle c.userMemberCount
  obtain ⟨subgroups, hsubgroups⟩ := exists_worth_scaledSubgroups hpower hc hlow hle
  have hfew : groups / one ≤ 4294967294 :=
    Nat.div_le_of_le_mul (Nat.mul_comm one _ ▸ Nat.cast_le.1 (groups_le hc hlow hle hgroups))
  have hroom := (exists_worth_scaledMembers hc hlow hle husers hsubgroups).2
  have husers_le := (Nat.le_add_right ..).trans hroom
  have hsubgroups_le := (Nat.le_add_left ..).trans hroom
  have hgroupCount : ((c.hierarchy power).groupCount level).toNat = groups / one :=
    toNat_toUInt32_of_le hgroups hfew
  have hleaf : ((c.hierarchy power).leafMemberCount level).toNat = users / one :=
    toNat_toUInt32_of_le husers husers_le
  have hsub : ((c.hierarchy power).subgroupCount level).toNat = subgroups / one := by
    rw [subgroupCount_eq, toNat_toUInt32_of_le hsubgroups hsubgroups_le]
  have hslots : ((c.hierarchy power).memberSlots level).toNat = users / one + subgroups / one := by
    rw [Hierarchy.toNat_memberSlots, hleaf, hsub]
    exact Nat.min_eq_left (Nat.le_trans hroom (by decide))
  have hlimit : (c.hierarchy power).groupCount level ≤ 0xFFFFFFFE := by
    rw [UInt32.le_iff_toNat_le, hgroupCount]
    exact hfew
  refine ⟨isFloor_toUInt32 hgroups hfew, isFloor_toUInt32 husers husers_le, ?_,
    one_le_groupCount hpower hc hlow hle, hlimit, by rw [hslots, hleaf, hsub], ?_,
    isFinite_of_mem_numbersAt hpower hc hlow hle, fun index hindex => ?_⟩
  · rw [subgroupCount_eq]
    exact isFloor_toUInt32 hsubgroups hsubgroups_le
  · rw [UInt32.le_iff_toNat_le, hslots]
    exact hroom
  · refine toNat_number_ofPosition (UInt32.lt_of_lt_of_le hindex (UInt32.le_trans hlimit ?_))
    decide

end Checked

/-- The counts of a hierarchy are exact at all levels if its configuration passes the check, however
accurate the power function is. -/
theorem checked_levels_exact (hpower : power.Lawful) (hvalid : c.validate power = .ok ())
    (hlow : 1 ≤ level) (hle : level ≤ c.levelCount) : c.ExactAt power level :=
  exactAt hpower (accepted_of_validate hvalid) hlow hle

/-- The first two powers of one and a half. -/
def powersOfHalfAgain : Power := fun _ exponent => if exponent ≤ 0.0 then 1.0 else 1.5

/-- The upper level has half as many of everything again. -/
def halfAgain : HierarchyConfig where
  firstLevelGroupCount := 3
  growthFactor := 1.5
  levelCount := 2
  userMemberCount := 5
  subgroupMemberCount := 1

theorem powersOfHalfAgain_lawful : powersOfHalfAgain.Lawful := by
  intro base n _ _
  rw [powersOfHalfAgain]
  split
  · exact (le_iff worth_zero worth_one).2 zero_le
  · decide +kernel

theorem halfAgain_levels_exact :
    powersOfHalfAgain.Lawful ∧ halfAgain.validate powersOfHalfAgain = .ok () ∧
      (1 : UInt16) ≤ 2 ∧ 2 ≤ halfAgain.levelCount ∧ halfAgain.ExactAt powersOfHalfAgain 2 ∧
      (halfAgain.hierarchy powersOfHalfAgain).groupCount 2 = 4 ∧
      (halfAgain.hierarchy powersOfHalfAgain).leafMemberCount 2 = 7 ∧
      (halfAgain.hierarchy powersOfHalfAgain).subgroupCount 2 = 1 := by
  have hvalid : halfAgain.validate powersOfHalfAgain = .ok () := by
    have hok : (halfAgain.validate powersOfHalfAgain).isOk := by decide +kernel
    cases hcheck : halfAgain.validate powersOfHalfAgain with
    | error fault =>
      rw [hcheck] at hok
      cases hok
    | ok => rfl
  exact ⟨powersOfHalfAgain_lawful, hvalid, by decide, by decide,
    checked_levels_exact powersOfHalfAgain_lawful hvalid (by decide) (by decide),
    by decide +kernel, by decide +kernel, by decide +kernel⟩

end HierarchyConfig

end GroupBench
