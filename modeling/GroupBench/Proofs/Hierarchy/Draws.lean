import Mathlib.Algebra.Group.Nat.Defs
import GroupBench.Hierarchy.Pick

/-! Draws keep to their bounds, so every member that is drawn is one of the hierarchy: a user of the
pool, or a group one level down. -/
namespace GroupBench

/-- Two words are multiplied without loss; the halves of the product are words again. -/
theorem toNat_product (a b : UInt32) : (a.toUInt64 * b.toUInt64).toNat = a.toNat * b.toNat := by
  have hlt : a.toNat * b.toNat < 2 ^ 32 * 2 ^ 32 := Nat.mul_lt_mul'' a.toNat_lt b.toNat_lt
  rw [UInt64.toNat_mul, UInt32.toNat_toUInt64, UInt32.toNat_toUInt64]
  exact Nat.mod_eq_of_lt hlt

theorem toNat_upperHalf (product : UInt64) :
    (product >>> 32).toUInt32.toNat = product.toNat / 2 ^ 32 := by
  have hlt := product.toNat_lt
  rw [UInt64.toNat_toUInt32, UInt64.toNat_shiftRight]
  change product.toNat >>> 32 % 2 ^ 32 = _
  rw [Nat.shiftRight_eq_div_pow]
  exact Nat.mod_eq_of_lt (by omega)

/-- Where a carry may be due, the upper half is not the last position yet. -/
theorem WordSource.below_lt {ρ : Type} (source : WordSource ρ) {n : UInt32} (hn : 1 ≤ n) (s : ρ) :
    (source.below n s).1 < n := by
  obtain ⟨word, t, hnext⟩ : ∃ word t, source.next s = (word, t) := ⟨_, _, rfl⟩
  have hpos : 1 ≤ n.toNat := UInt32.le_iff_toNat_le.1 hn
  have hn := n.toNat_lt
  have hhigh := toNat_upperHalf (word.toUInt64 * n.toUInt64)
  have hlow := UInt64.toNat_toUInt32 (word.toUInt64 * n.toUInt64)
  have hbound : (word.toUInt64 * n.toUInt64).toNat + n.toNat ≤ 2 ^ 32 * n.toNat := by
    rw [toNat_product, ← Nat.succ_mul]
    exact Nat.mul_le_mul_right _ word.toNat_lt
  have hlast : (0 - n).toNat = 2 ^ 32 - n.toNat := by
    rw [UInt32.toNat_sub, UInt32.toNat_zero, Nat.add_zero]
    exact Nat.mod_eq_of_lt (by omega)
  simp only [below, hnext]
  generalize word.toUInt64 * n.toUInt64 = product at *
  rw [UInt32.lt_iff_toNat_lt]
  split
  · rename_i hbiased
    rw [UInt32.lt_iff_toNat_lt, hlast] at hbiased
    dsimp only
    split
    · rw [UInt32.toNat_add, hhigh, UInt32.toNat_one]
      omega
    · rw [hhigh]
      omega
  · dsimp only
    rw [hhigh]
    omega

namespace Hierarchy

/-- The identifier of a group, by its level and number. -/
structure HasGroup (h : Hierarchy) (level : UInt16) (number : UInt32) : Prop where
  level_pos : 1 ≤ level
  level_le : level ≤ h.levelCount
  number_pos : 1 ≤ number
  number_le : number ≤ h.groupCount level

/-- Members that groups of a level may have: users of the pool, and above the first level the groups
one level down. -/
inductive Allows (h : Hierarchy) (level : UInt16) : GroupId → MemberKind → Prop
  | user (number : UInt32) : 1 ≤ number → number ≤ h.userPoolSize →
      Allows h level (.encode GroupId.userLevel number) .user
  | subgroup (number : UInt32) : 1 < level → 1 ≤ number → number ≤ h.groupCount (level - 1) →
      Allows h level (.encode (level - 1) number) .subgroup

/-- Every level has a group, and there is a user to draw. -/
structure Populated (h : Hierarchy) : Prop where
  users : 1 ≤ h.userPoolSize
  groups : ∀ level, 1 ≤ level → level ≤ h.levelCount → 1 ≤ h.groupCount level

variable {h : Hierarchy} {level : UInt16} {member : GroupId} {kind : MemberKind}

/-- Subgroups of groups above the first level are not taken for users. -/
theorem below_ne_userLevel (hlevel : 1 < level) : level - 1 ≠ GroupId.userLevel := by
  intro hzero
  have hone := congrArg UInt16.toNat (UInt16.sub_eq_iff_eq_add.1 hzero)
  rw [UInt16.lt_iff_toNat_lt] at hlevel
  exact absurd hone (Nat.ne_of_gt hlevel)

/-- Users are the members of level zero, so a member has one kind. -/
theorem Allows.kind_eq (ha : h.Allows level member kind) :
    kind = if member.level = GroupId.userLevel then .user else .subgroup := by
  cases ha with
  | user => rw [GroupId.level_encode, if_pos rfl]
  | subgroup number hlevel => rw [GroupId.level_encode, if_neg (below_ne_userLevel hlevel)]

/-- Positions count from zero and numbers from one. -/
theorem number_ofPosition {index count : UInt32} (hlt : index < count) :
    1 ≤ index + 1 ∧ index + 1 ≤ count := by
  have hcount := count.toNat_lt
  rw [UInt32.lt_iff_toNat_lt] at hlt
  rw [UInt32.le_iff_toNat_le, UInt32.le_iff_toNat_le, UInt32.toNat_add, UInt32.toNat_one,
    Nat.mod_eq_of_lt (by omega)]
  omega

theorem exists_index {number count : UInt32} (hpos : 1 ≤ number) (hle : number ≤ count) :
    ∃ index < count, index + 1 = number := by
  refine ⟨number - 1, ?_, UInt32.sub_add_cancel number 1⟩
  have hbelow := UInt32.toNat_sub_of_le _ _ hpos
  rw [UInt32.le_iff_toNat_le, UInt32.toNat_one] at hpos
  rw [UInt32.le_iff_toNat_le] at hle
  rw [UInt32.lt_iff_toNat_lt, hbelow, UInt32.toNat_one]
  omega

theorem max_one_eq {count : UInt32} (hcount : 1 ≤ count) : max count 1 = count := by
  change (if count ≤ 1 then 1 else count) = count
  split
  · rename_i hle
    exact UInt32.le_antisymm hcount hle
  · rfl

/-- Whatever words are drawn, the member is one that the level allows, and a subgroup just if one
was asked for. -/
theorem pickMember_allows {ρ : Type} (hpop : h.Populated) (source : WordSource ρ)
    (hlevel : level ≤ h.levelCount) (subgroup : Bool) (s : ρ) :
    h.Allows level (h.pickMember source level subgroup s).1.1
        (h.pickMember source level subgroup s).1.2 ∧
      ((h.pickMember source level subgroup s).1.2 = .subgroup ↔ subgroup ∧ 1 < level) := by
  rw [pickMember]
  split
  · rename_i hsub
    simp only [Bool.and_eq_true, decide_eq_true_eq] at hsub
    obtain ⟨hone, hcount⟩ : 1 ≤ level - 1 ∧ level - 1 ≤ h.levelCount := by
      have hlow := UInt16.lt_iff_toNat_lt.1 hsub.2
      have hhigh := UInt16.le_iff_toNat_le.1 hlevel
      have hbelow : (level - 1).toNat = level.toNat - 1 :=
        UInt16.toNat_sub_of_le _ _ (UInt16.le_of_lt hsub.2)
      rw [UInt16.toNat_one] at hlow
      rw [UInt16.le_iff_toNat_le, UInt16.le_iff_toNat_le, hbelow, UInt16.toNat_one]
      omega
    have hgroups := hpop.groups (level - 1) hone hcount
    rw [max_one_eq hgroups]
    obtain ⟨hpos, hle⟩ := number_ofPosition (source.below_lt hgroups s)
    exact ⟨.subgroup _ hsub.2 hpos hle, iff_of_true rfl hsub⟩
  · rename_i hsub
    simp only [Bool.and_eq_true, decide_eq_true_eq] at hsub
    rw [max_one_eq hpop.users]
    obtain ⟨hpos, hle⟩ := number_ofPosition (source.below_lt hpop.users s)
    exact ⟨.user _ hpos hle, iff_of_false (by simp) hsub⟩

end Hierarchy

end GroupBench
