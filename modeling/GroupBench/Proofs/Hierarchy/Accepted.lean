import GroupBench.Hierarchy.Config
import GroupBench.Proofs.Binary64.Arithmetic
import GroupBench.Proofs.Hierarchy.Draws
import GroupBench.Proofs.Plan.Addresses

/-! What holds of the hierarchy of a configuration that passes the check. The check is made on
floating-point numbers and the hierarchy counts in words. -/
namespace GroupBench
open Binary64

/-- Powers of a positive number, with the exponents that levels have, are not negative. -/
def Power.Lawful (power : Power) : Prop :=
  ∀ (base : Float) (n : UInt16), base.isFinite → 0.0 < base → 0.0 ≤ power base n.toFloat

/-- From here on numbers have no fraction. -/
theorem worth_fractionless : Worth 9007199254740992.0 (2 ^ 53 * one : Nat) := by
  have hword : (9007199254740992.0 : Float) = (9007199254740992 : UInt64).toFloat := by
    decide +kernel
  rw [hword]
  exact worth_toFloat_of_le (by decide)

/-- Cutting off the fraction leaves the whole ones. -/
theorem worth_wholePart {x : Float} {n : Nat} (hx : Worth x n) :
    Worth (wholePart x) (n / one * one : Nat) := by
  rw [wholePart]
  split
  · rename_i hcut
    simp only [Bool.and_eq_true, decide_eq_true_eq] at hcut
    have hless : n / one < 2 ^ 53 := by
      rw [Nat.div_lt_iff_lt_mul one_positive]
      exact Nat.cast_lt.1 ((lt_iff hx worth_fractionless).1 hcut.2)
    have hword : x.toUInt64.toNat = n / one := by
      rw [toNat_toUInt64 hx]
      change min _ (2 ^ 64 - 1) = _
      omega
    rw [← hword]
    exact worth_toFloat_of_le (by omega)
  · rename_i hkeep
    simp only [Bool.and_eq_true, decide_eq_true_eq] at hkeep
    have hgreat : 2 ^ 53 * one ≤ n := by
      by_contra hlt
      exact hkeep ⟨(le_iff worth_zero hx).2 zero_le,
        (lt_iff hx worth_fractionless).2 (Nat.cast_lt.2 (Nat.not_le.1 hlt))⟩
    have hwhole : one ∣ n := by
      obtain htop | ⟨k, hk, hexact, -⟩ := Counts.eq_top_or_exact hx
      · exact absurd htop (ENat.natCast_ne_top n)
      · obtain rfl := Nat.cast_injective hk
        rw [one_eq] at hgreat ⊢
        refine (exact_cases hexact depth).resolve_right fun hless => ?_
        exact absurd (hgreat.trans_lt hless.1)
          (Nat.not_lt.2 (Nat.mul_le_mul_right _ (by decide)))
    rw [Nat.div_mul_cancel hwhole]
    exact hx

namespace HierarchyConfig
variable {power : Power} {c : HierarchyConfig} {level : UInt16}

/-- What the check takes for the subgroups of a group before it rounds: at the lowest level there
are none. -/
def scaledSubgroups (power : Power) (c : HierarchyConfig) (level : UInt16) : Float :=
  if 1 < level then c.scale power c.subgroupMemberCount level else 0.0

theorem scaledMembers_eq : c.scaledMembers power level =
    wholePart (c.scale power c.userMemberCount level) +
      wholePart (c.scaledSubgroups power level) := by
  have hzero : wholePart 0.0 = 0.0 := by decide +kernel
  rw [scaledMembers, scaledSubgroups]
  split
  · rfl
  · rw [hzero]

theorem worth_limit : Worth limit (4294967294 * one : Nat) := worth_toFloat 4294967294

/-- A level whose groups and members are few enough, and that has a group. -/
structure LevelAccepted (power : Power) (c : HierarchyConfig) (level : UInt16) : Prop where
  groups : ¬ c.scale power c.firstLevelGroupCount level < 1.0
  groups_le : ¬ limit < c.scale power c.firstLevelGroupCount level
  members_le : ¬ limit < c.scaledMembers power level

/-- What the check makes sure of. -/
structure Accepted (power : Power) (c : HierarchyConfig) : Prop where
  levels : 1 ≤ c.levelCount
  users : 1 ≤ c.firstLevelGroupCount
  growth_finite : c.growthFactor.isFinite
  growth_positive : 0.0 < c.growthFactor
  level : ∀ level, 1 ≤ level → level ≤ c.levelCount → c.LevelAccepted power level

theorem levelAccepted_of_check (h : c.checkLevel power level = .ok ()) :
    c.LevelAccepted power level := by
  rw [checkLevel] at h
  split at h
  · cases h
  split at h
  · cases h
  split at h
  · cases h
  · exact ⟨‹_›, ‹_›, ‹_›⟩

theorem forM_ok {ε α : Type} {f : α → Except ε Unit} {l : List α} (h : l.forM f = .ok ()) :
    ∀ x ∈ l, f x = .ok () := by
  induction l with
  | nil => exact fun x hx => absurd hx List.not_mem_nil
  | cons a rest ih =>
    change (f a >>= fun _ => rest.forM f) = .ok () at h
    cases ha : f a with
    | error e =>
      rw [ha] at h
      cases h
    | ok u =>
      rw [ha] at h
      exact List.forall_mem_cons.2 ⟨ha, ih h⟩

theorem exists_of_forM_error {ε α : Type} {f : α → Except ε Unit} {l : List α} {e : ε}
    (h : l.forM f = .error e) : ∃ x ∈ l, f x = .error e := by
  induction l with
  | nil => cases h
  | cons a rest ih =>
    change (f a >>= fun _ => rest.forM f) = .error e at h
    cases ha : f a with
    | error e' =>
      rw [ha] at h
      cases h
      exact ⟨a, List.mem_cons_self, ha⟩
    | ok u =>
      rw [ha] at h
      obtain ⟨x, hx, hfault⟩ := ih h
      exact ⟨x, List.mem_cons_of_mem a hx, hfault⟩

theorem accepted_of_validate (h : c.validate power = .ok ()) : c.Accepted power := by
  rw [validate] at h
  split at h
  · cases h
  split at h
  · cases h
  split at h
  · cases h
  rename_i hlevels hfirst hgrowth
  simp only [Bool.or_eq_true, Bool.not_eq_true', decide_eq_true_eq, not_or,
    Bool.not_eq_false] at hgrowth
  refine ⟨?_, ?_, hgrowth.1, pos_of_isFinite hgrowth.1 hgrowth.2, fun level hlow hle => ?_⟩
  · rw [UInt16.le_iff_toNat_le]
    exact Nat.pos_of_ne_zero fun hzero => hlevels (UInt16.toNat_inj.1 hzero)
  · rw [UInt32.le_iff_toNat_le]
    exact Nat.pos_of_ne_zero fun hzero => hfirst (UInt32.toNat_inj.1 hzero)
  · exact levelAccepted_of_check
      (forM_ok h level ((c.hierarchy power).mem_levels.2 ⟨hlow, hle⟩))

section Worth
variable {a : ℕ∞} {n users subgroups : Nat}

theorem le_of_not_limit_lt {x : Float} (hx : Worth x a) (hle : ¬ limit < x) :
    a ≤ (4294967294 * one : Nat) :=
  not_lt.1 (mt (lt_iff worth_limit hx).2 hle)

/-- The factor that a level scales by is at most the greatest number of groups. -/
theorem factor_le_of_groups_le (hfirst : 1 ≤ c.firstLevelGroupCount)
    (ha : Worth (power c.growthFactor (UInt16.ofNat (level.toNat - 1)).toFloat) a)
    (hle : ¬ limit < c.scale power c.firstLevelGroupCount level) :
    ∃ n : Nat, a = n ∧ n ≤ 4294967294 * one := by
  have hpos : 0 < c.firstLevelGroupCount.toNat := UInt32.le_iff_toNat_le.1 hfirst
  induction a using ENat.recTopCoe with
  | top =>
    have hgroups := le_of_not_limit_lt (worth_mul_top (Nat.mul_pos hpos one_positive)
      (worth_toFloat c.firstLevelGroupCount) ha) hle
    exact absurd (top_le_iff.1 hgroups) (ENat.natCast_ne_top _)
  | coe n =>
    obtain ⟨groups, hrounded, hgroups⟩ :=
      exists_worth_mul (worth_toFloat c.firstLevelGroupCount) ha
    -- There is a first group, so the factor itself is within the groups.
    have hwithin := (hrounded _ _ ha).1 (Nat.cast_le.2 (Nat.le_mul_of_pos_left n hpos))
    exact ⟨n, rfl, Nat.cast_le.1 (hwithin.trans (le_of_not_limit_lt hgroups hle))⟩

theorem exists_worth_scale_of_factor (base : UInt32)
    (hfactor : Worth (power c.growthFactor (UInt16.ofNat (level.toNat - 1)).toFloat) n)
    (hn : n ≤ 4294967294 * one) : ∃ k : Nat, Worth (c.scale power base level) k := by
  obtain ⟨a, hrounded, hscale⟩ := exists_worth_mul (worth_toFloat base) hfactor
  have hproduct : base.toNat * n ≤ 2 ^ 64 * one := by
    calc base.toNat * n ≤ 2 ^ 32 * (4294967294 * one) := Nat.mul_le_mul base.toNat_lt.le hn
      _ = 2 ^ 32 * 4294967294 * one := (Nat.mul_assoc ..).symm
      _ ≤ 2 ^ 64 * one := Nat.mul_le_mul_right one (by decide)
  have hexact : Exact (2 ^ 64 * one) := by
    rw [one_eq, ← Nat.pow_add, ← Nat.one_mul (2 ^ _)]
    exact exact_of_lt (by decide) _
  have ha := hrounded.le hexact (lt_overflow_of_le (Nat.le_refl _)) (Nat.cast_le.2 hproduct)
  obtain ⟨k, rfl⟩ := ENat.ne_top_iff_exists.1 (ne_top_of_le_ne_top (ENat.natCast_ne_top _) ha)
  exact ⟨k, hscale⟩

theorem exists_worth_scaledSubgroups_of_factor
    (hfactor : Worth (power c.growthFactor (UInt16.ofNat (level.toNat - 1)).toFloat) n)
    (hn : n ≤ 4294967294 * one) : ∃ k : Nat, Worth (c.scaledSubgroups power level) k := by
  rw [scaledSubgroups]
  split
  · exact exists_worth_scale_of_factor c.subgroupMemberCount hfactor hn
  · exact ⟨0, worth_zero⟩

/-- The check adds numbers that may have been rounded, but it tells whether there are too many of the
whole ones: it is exact up to the limit, and the next number past it is one that it notices. -/
theorem exists_worth_scaledMembers_le_iff
    (husers : Worth (c.scale power c.userMemberCount level) users)
    (hsubgroups : Worth (c.scaledSubgroups power level) subgroups) :
    ∃ sum, Worth (c.scaledMembers power level) sum ∧
      (sum ≤ (4294967294 * one : Nat) ↔ users / one + subgroups / one ≤ 4294967294) := by
  obtain ⟨sum, hrounded, hsum⟩ :=
    exists_worth_add (worth_wholePart husers) (worth_wholePart hsubgroups)
  rw [← scaledMembers_eq] at hsum
  rw [← Nat.cast_add, ← Nat.add_mul] at hrounded
  refine ⟨sum, hsum, fun hmembers => ?_, fun hroom => ?_⟩
  · by_contra hmany
    have hpart : ((4294967295 * one : Nat) : ℕ∞) ≤ ((users / one + subgroups / one) * one : Nat) :=
      Nat.cast_le.2 (Nat.mul_le_mul_right one (Nat.lt_of_not_le hmany))
    have hover := ((hrounded _ _ (worth_toFloat 4294967295)).1 hpart).trans hmembers
    exact absurd (Nat.le_of_mul_le_mul_right (Nat.cast_le.1 hover) one_positive) (by decide)
  · exact (hrounded _ _ worth_limit).2 (Nat.cast_le.2 (Nat.mul_le_mul_right one hroom))

end Worth

section Accepted
variable (hpower : power.Lawful) (hc : c.Accepted power) (hlow : 1 ≤ level)
  (hle : level ≤ c.levelCount)
include hpower hc hlow hle

omit hpower in
theorem groups_le {a : ℕ∞} (ha : Worth (c.scale power c.firstLevelGroupCount level) a) :
    a ≤ (4294967294 * one : Nat) :=
  le_of_not_limit_lt ha (hc.level level hlow hle).groups_le

theorem exists_worth_factor :
    ∃ n : Nat, Worth (power c.growthFactor (UInt16.ofNat (level.toNat - 1)).toFloat) n ∧
      n ≤ 4294967294 * one := by
  obtain ⟨a, ha⟩ := exists_worth (hpower c.growthFactor (UInt16.ofNat (level.toNat - 1))
    hc.growth_finite hc.growth_positive)
  obtain ⟨n, rfl, hn⟩ :=
    factor_le_of_groups_le hc.users ha (hc.level level hlow hle).groups_le
  exact ⟨n, ha, hn⟩

theorem exists_worth_scale (base : UInt32) : ∃ n : Nat, Worth (c.scale power base level) n := by
  obtain ⟨n, hfactor, hn⟩ := exists_worth_factor hpower hc hlow hle
  exact exists_worth_scale_of_factor base hfactor hn

theorem one_le_groupCount : 1 ≤ c.scaledCount power c.firstLevelGroupCount level := by
  obtain ⟨n, hn⟩ := exists_worth_scale hpower hc hlow hle c.firstLevelGroupCount
  have hone := mt (lt_iff hn worth_one).2 (hc.level level hlow hle).groups
  rw [not_lt] at hone
  rw [scaledCount, UInt32.le_iff_toNat_le, toNat_toUInt32 hn]
  exact Nat.le_min.2 ⟨Nat.div_pos (Nat.cast_le.1 hone) one_positive, by decide⟩

theorem exists_worth_scaledSubgroups : ∃ n : Nat, Worth (c.scaledSubgroups power level) n := by
  obtain ⟨n, hfactor, hn⟩ := exists_worth_factor hpower hc hlow hle
  exact exists_worth_scaledSubgroups_of_factor hfactor hn

omit hpower in
theorem exists_worth_scaledMembers {users subgroups : Nat}
    (husers : Worth (c.scale power c.userMemberCount level) users)
    (hsubgroups : Worth (c.scaledSubgroups power level) subgroups) :
    (∃ n : Nat, Worth (c.scaledMembers power level) n) ∧
      users / one + subgroups / one ≤ 4294967294 := by
  obtain ⟨sum, hsum, hiff⟩ := exists_worth_scaledMembers_le_iff husers hsubgroups
  have hmembers := le_of_not_limit_lt hsum (hc.level level hlow hle).members_le
  obtain ⟨n, rfl⟩ :=
    ENat.ne_top_iff_exists.1 (ne_top_of_le_ne_top (ENat.natCast_ne_top _) hmembers)
  exact ⟨⟨n, hsum⟩, hiff.1 hmembers⟩

/-- Users alone are at most as many as all members, so they do not take up the last slot. -/
theorem leafMembers_lt : c.scaledCount power c.userMemberCount level < 0xFFFFFFFF := by
  obtain ⟨users, husers⟩ := exists_worth_scale hpower hc hlow hle c.userMemberCount
  obtain ⟨subgroups, hsubgroups⟩ := exists_worth_scaledSubgroups hpower hc hlow hle
  have hmembers := (exists_worth_scaledMembers hc hlow hle husers hsubgroups).2
  rw [scaledCount, UInt32.lt_iff_toNat_lt, toNat_toUInt32 husers]
  exact Nat.lt_of_le_of_lt (Nat.min_le_left ..)
    (Nat.lt_succ_of_le ((Nat.le_add_right ..).trans hmembers))

end Accepted

theorem Accepted.populated (hpower : power.Lawful) (hc : c.Accepted power) :
    (c.hierarchy power).Populated where
  users := hc.users
  groups _ hlow hle := one_le_groupCount hpower hc hlow hle

end HierarchyConfig

end GroupBench
