import GroupBench.Proofs.Binary64.Signs
import GroupBench.Proofs.Hierarchy.Floors

/-! Refusals. A configuration is turned down for a reason that its hierarchy bears out, but for one
that brims: the check compares the groups of a level before it cuts off their fraction. -/
namespace GroupBench
open Binary64

theorem undefined_wholePart {x : Float} (hx : Undefined x) : Undefined (wholePart x) := by
  have hcut : ¬ (0.0 ≤ x && x < 9007199254740992.0) = true := by
    intro hcut
    simp only [Bool.and_eq_true, decide_eq_true_eq] at hcut
    obtain ⟨a, ha⟩ := exists_worth hcut.1
    exact hx.not_worth ha
  rw [wholePart, if_neg hcut]
  exact hx

namespace HierarchyConfig
variable {power : Power} {c : HierarchyConfig} {level : UInt16} {fault : ConfigFault}

/-- The configuration has the level. -/
def HasLevel (c : HierarchyConfig) (level : UInt16) : Prop := 1 ≤ level ∧ level ≤ c.levelCount

/-- Why a configuration may be turned down, in terms of the hierarchy that it stands for. -/
inductive Warranted (power : Power) (c : HierarchyConfig) : ConfigFault → Prop
  | noLevels : c.levelCount = 0 → Warranted power c .noLevels
  | noFirstLevelGroups : c.firstLevelGroupCount = 0 → Warranted power c .noFirstLevelGroups
  | growthFactor : ¬ (c.growthFactor.isFinite ∧ 0.0 < c.growthFactor) →
      Warranted power c (.growthFactor c.growthFactor)
  | emptyLevel {level : UInt16} : c.HasLevel level → (c.hierarchy power).groupCount level = 0 →
      Warranted power c (.emptyLevel level)
  | tooManyGroups {level : UInt16} : c.HasLevel level →
      0xFFFFFFFE < (c.hierarchy power).groupCount level →
      Warranted power c
        (.tooManyGroups level (c.scale power c.firstLevelGroupCount level) limit)
  | tooManyMembers {level : UInt16} : c.HasLevel level →
      4294967294 < ((c.hierarchy power).leafMemberCount level).toNat +
        ((c.hierarchy power).subgroupCount level).toNat →
      Warranted power c (.tooManyMembers level (c.scaledMembers power level) limit)

/-- A level has as many groups as it may have, and a fraction of one more. -/
structure Brims (power : Power) (c : HierarchyConfig) (level : UInt16) : Prop where
  hasLevel : c.HasLevel level
  limit_lt : limit < c.scale power c.firstLevelGroupCount level
  lt_next : c.scale power c.firstLevelGroupCount level < (4294967295 : UInt32).toFloat

/-- The fraction is no group. -/
theorem Brims.groupCount_eq (h : c.Brims power level) :
    (c.hierarchy power).groupCount level = 0xFFFFFFFE := by
  obtain ⟨a, ha⟩ := exists_worth_of_lt worth_limit h.limit_lt
  have hlow := (lt_iff worth_limit ha).1 h.limit_lt
  have hhigh := (lt_iff ha (worth_toFloat 4294967295)).1 h.lt_next
  obtain ⟨n, rfl⟩ := ENat.ne_top_iff_exists.1 (ne_top_of_lt hhigh)
  refine UInt32.toNat_inj.1 ((toNat_toUInt32 ha).trans ?_)
  have hcount : n / one = 4294967294 :=
    Nat.div_eq_of_lt_le (Nat.cast_lt.1 hlow).le (Nat.cast_lt.1 hhigh)
  rw [hcount]
  rfl

/-- The members are counted, and not only estimated, once the groups are within their bounds. -/
theorem members_of_limit_lt (hfirst : 1 ≤ c.firstLevelGroupCount)
    (hsome : ¬ c.scale power c.firstLevelGroupCount level < 1.0)
    (hfew : ¬ limit < c.scale power c.firstLevelGroupCount level)
    (hmany : limit < c.scaledMembers power level) :
    4294967294 < ((c.hierarchy power).leafMemberCount level).toNat +
      ((c.hierarchy power).subgroupCount level).toNat := by
  rcases worth_cases (power c.growthFactor (UInt16.ofNat (level.toNat - 1)).toFloat) with
    ⟨a, ha⟩ | hminus | hundefined
  · obtain ⟨n, rfl, hn⟩ := factor_le_of_groups_le hfirst ha hfew
    obtain ⟨users, husers⟩ := exists_worth_scale_of_factor c.userMemberCount ha hn
    obtain ⟨subgroups, hsubgroups⟩ := exists_worth_scaledSubgroups_of_factor ha hn
    obtain ⟨sum, hsum, hiff⟩ := exists_worth_scaledMembers_le_iff husers hsubgroups
    have hover := mt hiff.2 (not_le.2 ((lt_iff worth_limit hsum).1 hmany))
    have hleaf : ((c.hierarchy power).leafMemberCount level).toNat = min (users / one) 4294967295 :=
      toNat_toUInt32 husers
    have hsub : (c.scaledSubgroups power level).toUInt32.toNat = min (subgroups / one) 4294967295 :=
      toNat_toUInt32 hsubgroups
    rw [hleaf, subgroupCount_eq, hsub]
    omega
  · -- A level of less than no groups would have been noticed before.
    have hpos : 0 < c.firstLevelGroupCount.toNat * one :=
      Nat.mul_pos (UInt32.le_iff_toNat_le.1 hfirst) one_positive
    have hscale := minus_mul hpos (worth_toFloat c.firstLevelGroupCount) hminus
    exact absurd (lt_of_minus hscale worth_one (Nat.cast_pos.2 one_positive)) hsome
  · have hmembers : Undefined (c.scaledMembers power level) :=
      (undefined_wholePart (hundefined.mul c.userMemberCount.toFloat)).add _
    obtain ⟨b, hb⟩ := exists_worth_of_lt worth_limit hmany
    exact absurd hb hmembers.not_worth

theorem warranted_of_checkLevel (hfirst : 1 ≤ c.firstLevelGroupCount) (hlevel : c.HasLevel level)
    (h : c.checkLevel power level = .error fault) :
    c.Warranted power fault ∨ c.Brims power level ∧
      fault = .tooManyGroups level (c.scale power c.firstLevelGroupCount level) limit := by
  rw [checkLevel] at h
  split at h
  · rename_i hless
    cases h
    exact .inl (.emptyLevel hlevel (toUInt32_of_lt_one hless))
  rename_i hsome
  split at h
  · rename_i hmany
    cases h
    obtain ⟨a, ha⟩ := exists_worth_of_lt worth_limit hmany
    by_cases hnext : c.scale power c.firstLevelGroupCount level < (4294967295 : UInt32).toFloat
    · exact .inr ⟨⟨hlevel, hmany, hnext⟩, rfl⟩
    · have hle := not_lt.1 (mt (lt_iff ha (worth_toFloat 4294967295)).2 hnext)
      have hcount : (c.hierarchy power).groupCount level = 0xFFFFFFFF := toUInt32_of_le ha hle
      exact .inl (.tooManyGroups hlevel (hcount ▸ by decide))
  rename_i hfew
  split at h
  · rename_i hmany
    cases h
    exact .inl (.tooManyMembers hlevel (members_of_limit_lt hfirst hsome hfew hmany))
  · cases h

theorem warranted_or_brims (h : c.validate power = .error fault) :
    c.Warranted power fault ∨ ∃ level, c.Brims power level ∧
      fault = .tooManyGroups level (c.scale power c.firstLevelGroupCount level) limit := by
  rw [validate] at h
  split at h
  · rename_i hzero
    cases h
    exact .inl (.noLevels hzero)
  split at h
  · rename_i hzero
    cases h
    exact .inl (.noFirstLevelGroups hzero)
  rename_i hfirst
  split at h
  · rename_i hgrowth
    cases h
    refine .inl (.growthFactor fun hgood => ?_)
    obtain ⟨a, ha⟩ := exists_worth_of_lt worth_zero hgood.2
    have hpos := (lt_iff worth_zero ha).1 hgood.2
    simp only [hgood.1, Bool.not_true, Bool.false_or, decide_eq_true_eq] at hgrowth
    exact absurd ((le_iff ha worth_zero).1 hgrowth) (not_le.2 hpos)
  · obtain ⟨level, hlevel, hfault⟩ := exists_of_forM_error h
    have hhas : c.HasLevel level := (c.hierarchy power).mem_levels.1 hlevel
    have hsome : 1 ≤ c.firstLevelGroupCount := by
      rw [UInt32.le_iff_toNat_le]
      exact Nat.pos_of_ne_zero fun hzero => hfirst (UInt32.toNat_inj.1 hzero)
    exact (warranted_of_checkLevel hsome hhas hfault).imp_right fun hbrims => ⟨level, hbrims⟩

theorem exists_fault_of_not_accepted (h : ¬ c.Accepted power) :
    ∃ fault, c.validate power = .error fault := by
  cases hcheck : c.validate power with
  | error fault => exact ⟨fault, rfl⟩
  | ok => exact absurd (accepted_of_validate hcheck) h

theorem Brims.not_accepted (h : c.Brims power level) : ¬ c.Accepted power := fun hc =>
  (hc.level level h.hasLevel.1 h.hasLevel.2).groups_le h.limit_lt

/-- Whatever warrants a refusal leads to one, if powers are what they should be. -/
theorem Warranted.not_accepted (hpower : power.Lawful) (h : c.Warranted power fault) :
    ¬ c.Accepted power := by
  intro hc
  have hexact {level : UInt16} (hlevel : c.HasLevel level) : c.ExactAt power level :=
    exactAt hpower hc hlevel.1 hlevel.2
  cases h with
  | noLevels hzero => exact absurd hc.levels (hzero ▸ by decide)
  | noFirstLevelGroups hzero => exact absurd hc.users (hzero ▸ by decide)
  | growthFactor hbad => exact hbad ⟨hc.growth_finite, hc.growth_positive⟩
  | emptyLevel hlevel hzero => exact absurd (hexact hlevel).one_le_groups (hzero ▸ by decide)
  | tooManyGroups hlevel hmany => exact UInt32.not_le.2 hmany (hexact hlevel).groups_le
  | tooManyMembers hlevel hmany =>
    rw [← (hexact hlevel).slots] at hmany
    exact Nat.not_le.2 hmany (UInt32.le_iff_toNat_le.1 (hexact hlevel).slots_le)

/-- No configuration is turned down but for a reason that its hierarchy bears out. -/
def RefusesWarranted (power : Power) (c : HierarchyConfig) : Prop :=
  (∃ fault, c.validate power = .error fault) → ∃ fault, c.Warranted power fault

/-- A refusal names a reason that the hierarchy bears out, or a level that brims though the hierarchy
has room for it; so the check keeps to its reasons unless some level brims and nothing else is the
matter. -/
theorem refusals_warranted_or_brimming (power : Power) (c : HierarchyConfig) :
    (∀ fault, c.validate power = .error fault → c.Warranted power fault ∨
      ∃ level, c.Brims power level ∧
        fault = .tooManyGroups level (c.scale power c.firstLevelGroupCount level) limit) ∧
      (∀ level, c.Brims power level → (c.hierarchy power).groupCount level = 0xFFFFFFFE) ∧
      (c.RefusesWarranted power ↔
        (∃ fault, c.Warranted power fault) ∨ ∀ level, ¬ c.Brims power level) ∧
      (power.Lawful → ((∃ fault, c.validate power = .error fault) ↔
        (∃ fault, c.Warranted power fault) ∨ ∃ level, c.Brims power level)) := by
  have hreasons (fault : ConfigFault) (h : c.validate power = .error fault) :
      (∃ fault, c.Warranted power fault) ∨ ∃ level, c.Brims power level :=
    (warranted_or_brims h).imp (fun hw => ⟨fault, hw⟩) fun ⟨level, hbrims, _⟩ => ⟨level, hbrims⟩
  refine ⟨fun fault => warranted_or_brims, fun level => Brims.groupCount_eq, ⟨fun h => ?_, ?_⟩,
    fun hpower => ⟨fun ⟨fault, h⟩ => hreasons fault h, ?_⟩⟩
  · refine or_iff_not_imp_left.2 fun hnone level hbrims => hnone (h ?_)
    exact exists_fault_of_not_accepted hbrims.not_accepted
  · rintro (hwarranted | hnone) ⟨fault, h⟩
    · exact hwarranted
    · exact (hreasons fault h).resolve_right fun ⟨level, hbrims⟩ => hnone level hbrims
  · rintro (⟨fault, hwarranted⟩ | ⟨level, hbrims⟩)
    · exact exists_fault_of_not_accepted (hwarranted.not_accepted hpower)
    · exact exists_fault_of_not_accepted hbrims.not_accepted

/-- Powers that are exact where the exponent is zero or one. -/
def firstPowers : Power := fun base exponent => if exponent ≤ 0.0 then 1.0 else base

/-- The upper level has as many groups as it may have, and half of one more. -/
def brimming : HierarchyConfig where
  firstLevelGroupCount := 2
  growthFactor := 2147483647.25
  levelCount := 2
  userMemberCount := 0
  subgroupMemberCount := 0

theorem brimming_refused_unwarranted :
    (∀ base, firstPowers base 0.0 = 1.0 ∧ firstPowers base 1.0 = base) ∧
      (∃ fault, brimming.validate firstPowers = .error fault) ∧
      ∀ fault, ¬ brimming.Warranted firstPowers fault := by
  have hzero : (0.0 : Float) ≤ 0.0 := by decide +kernel
  have hone : ¬ (1.0 : Float) ≤ 0.0 := by decide +kernel
  have hbrims : brimming.Brims firstPowers 2 :=
    ⟨⟨by decide, by decide⟩, by decide +kernel, by decide +kernel⟩
  have hlevels {level : UInt16} (hlevel : brimming.HasLevel level) : level = 1 ∨ level = 2 := by
    have hlow := UInt16.le_iff_toNat_le.1 hlevel.1
    have hhigh : level.toNat ≤ 2 := UInt16.le_iff_toNat_le.1 hlevel.2
    rw [← UInt16.toNat_inj, ← UInt16.toNat_inj]
    change 1 ≤ level.toNat at hlow
    change level.toNat = 1 ∨ level.toNat = 2
    omega
  refine ⟨fun base => ⟨if_pos hzero, if_neg hone⟩,
    exists_fault_of_not_accepted hbrims.not_accepted, fun fault h => ?_⟩
  cases h with
  | noLevels hnone => exact absurd hnone (by decide)
  | noFirstLevelGroups hnone => exact absurd hnone (by decide)
  | growthFactor hbad => exact hbad ⟨by decide +kernel, by decide +kernel⟩
  | emptyLevel hlevel hnone =>
    rcases hlevels hlevel with rfl | rfl <;> exact absurd hnone (by decide +kernel)
  | tooManyGroups hlevel hmany =>
    rcases hlevels hlevel with rfl | rfl <;> exact absurd hmany (by decide +kernel)
  | tooManyMembers hlevel hmany =>
    rcases hlevels hlevel with rfl | rfl <;> exact absurd hmany (by decide +kernel)

end HierarchyConfig

end GroupBench
