import Mathlib.Tactic.ByContra
import GroupBench.Proofs.Plan.Addresses

/-! Claims on the units of a plan. The counter that hands them out is a word: it runs past the last
unit once for each worker, and after the last word it starts again. -/
namespace GroupBench

namespace FillPlan
variable (plan : FillPlan)

/-- What the first `n` claims lead to. The counter is a word and starts again after the last. -/
def claimed (n : Nat) : List Address :=
  (List.range n).filterMap fun j => plan.address (UInt64.ofNat j)

/-- How many of the first `n` claims lead to nothing. -/
def overruns (n : Nat) : Nat :=
  (List.range n).countP fun j => (plan.address (UInt64.ofNat j)).isNone

theorem claimed_succ (n : Nat) :
    plan.claimed (n + 1) = plan.claimed n ++ (plan.address (UInt64.ofNat n)).toList := by
  rw [claimed, claimed, List.range_succ, List.filterMap_append]
  cases h : plan.address (UInt64.ofNat n) <;> simp [h]

theorem overruns_succ (n : Nat) : plan.overruns (n + 1) =
    plan.overruns n + if (plan.address (UInt64.ofNat n)).isNone then 1 else 0 := by
  rw [overruns, overruns, List.range_succ, List.countP_append, List.countP_singleton]

theorem length_claimed_add_overruns (n : Nat) :
    (plan.claimed n).length + plan.overruns n = n := by
  induction n with
  | zero => simp [claimed, overruns]
  | succ n ih =>
    rw [claimed_succ, overruns_succ, List.length_append]
    cases plan.address (UInt64.ofNat n) with
    | none => simp; omega
    | some a => simp; omega

/-- How often each unit is claimed by the time that `workers` claims have led to nothing. -/
def laps (workers : Nat) : Nat :=
  1 + (workers - 1) / (UInt64.size - plan.totalUnits.toNat)

end FillPlan

section Laps
variable {h : Hierarchy} {id of : UInt32} {plan : FillPlan} {k : UInt64} {a : Address} {n : Nat}
variable (hmake : FillPlan.make h id of = .ok plan) (hfit : h.units id of < UInt64.size)
include hmake hfit

/-- The counter is a word: the claims that lead to nothing are those past the units of a lap. -/
theorem claim_isNone_iff :
    (plan.address (UInt64.ofNat n)).isNone ↔ h.units id of ≤ n % UInt64.size := by
  rw [Option.isNone_iff_eq_none, address_eq_none_iff hmake hfit, UInt64.toNat_ofNat']

theorem overruns_eq : plan.overruns n =
    n / UInt64.size * (UInt64.size - h.units id of) + (n % UInt64.size - h.units id of) := by
  induction n with
  | zero => simp [FillPlan.overruns]
  | succ n ih =>
    have hpos : 0 < UInt64.size := by decide
    have hmod := Nat.mod_lt n hpos
    rw [FillPlan.overruns_succ, ih]
    simp only [claim_isNone_iff hmake hfit]
    -- The counter starts again right after it has handed out the last word.
    by_cases hwrap : n % UInt64.size + 1 = UInt64.size
    · have hdiv : (n + 1) / UInt64.size = n / UInt64.size + 1 := by
        simp only [UInt64.size] at hwrap ⊢
        omega
      have hzero : (n + 1) % UInt64.size = 0 := by
        simp only [UInt64.size] at hwrap ⊢
        omega
      rw [hdiv, hzero, Nat.succ_mul, if_pos (by omega)]
      omega
    · have hdiv : (n + 1) / UInt64.size = n / UInt64.size := by
        simp only [UInt64.size] at hwrap ⊢
        omega
      have hsucc : (n + 1) % UInt64.size = n % UInt64.size + 1 := by
        simp only [UInt64.size] at hwrap ⊢
        omega
      rw [hdiv, hsucc]
      split <;> omega

/-- As long as no claim has led to nothing, the counter is within the units. -/
theorem le_units_of_overruns (hnone : plan.overruns n = 0) : n ≤ h.units id of := by
  rw [overruns_eq hmake hfit, Nat.add_eq_zero_iff, Nat.mul_eq_zero, Nat.sub_eq_zero_iff_le,
    Nat.sub_eq_zero_iff_le] at hnone
  obtain ⟨hlaps | hover, hle⟩ := hnone
  · rwa [Nat.mod_eq_of_lt (Nat.lt_of_div_eq_zero (by decide) hlaps)] at hle
  · exact absurd hfit (Nat.not_lt.2 hover)

/-- The claims of the first lap lead to the units in order. -/
theorem map_some_claimed (hn : n ≤ h.units id of) :
    (plan.claimed n).map some = (List.range n).map fun k => plan.address (UInt64.ofNat k) := by
  induction n with
  | zero => rfl
  | succ n ih =>
    obtain ⟨a, ha⟩ : ∃ a, plan.address (UInt64.ofNat n) = some a := by
      refine Option.ne_none_iff_exists'.1 fun hnone => ?_
      rw [address_eq_none_iff hmake hfit, UInt64.toNat_ofNat_of_lt' (by omega)] at hnone
      omega
    rw [FillPlan.claimed_succ, List.range_succ, List.map_append, List.map_append,
      ih (Nat.le_of_succ_le hn), List.map_singleton, ha]
    rfl

/-- A unit is claimed once in every lap that has come past it. -/
theorem count_claimed (ha : plan.address k = some a) : (plan.claimed n).count a =
    n / UInt64.size + if k.toNat < n % UInt64.size then 1 else 0 := by
  induction n with
  | zero => simp [FillPlan.claimed]
  | succ n ih =>
    have hpos : 0 < UInt64.size := by decide
    have hmod := Nat.mod_lt n hpos
    have hk := k.toNat_lt
    have hlast : ((plan.address (UInt64.ofNat n)).toList).count a =
        if n % UInt64.size = k.toNat then 1 else 0 := by
      have hword : (UInt64.ofNat n).toNat = n % UInt64.size := UInt64.toNat_ofNat'
      split
      · rename_i he
        have : UInt64.ofNat n = k := UInt64.toNat_inj.1 (hword.trans he)
        rw [this, ha]
        simp
      · rename_i hne
        rw [List.count_eq_zero]
        intro hm
        have := address_injective hmake hfit (Option.mem_toList.1 hm) ha
        exact hne (hword ▸ congrArg UInt64.toNat this)
    rw [FillPlan.claimed_succ, List.count_append, ih, hlast]
    simp only [UInt64.size] at hmod ⊢
    split <;> split <;> split <;> omega

/-- There is one lap as long as a word can count the units and one more claim of each worker. -/
theorem laps_eq_one_iff {workers : Nat} (hw : 0 < workers) :
    plan.laps workers = 1 ↔ h.units id of + workers ≤ UInt64.size := by
  rw [FillPlan.laps, (plan_tiled hmake hfit).1]
  have hpos : 0 < UInt64.size - h.units id of := by omega
  have hzero := Nat.div_eq_zero_iff_lt (x := workers - 1) hpos
  omega

variable {m : Nat} (hlast : (plan.address (UInt64.ofNat m)).isNone)
include hlast

theorem laps_overruns : plan.laps (plan.overruns (m + 1)) = m / UInt64.size + 1 := by
  have hle := (claim_isNone_iff hmake hfit).1 hlast
  have hmod := Nat.mod_lt m (show 0 < UInt64.size by decide)
  rw [FillPlan.laps, FillPlan.overruns_succ, if_pos hlast, overruns_eq hmake hfit,
    (plan_tiled hmake hfit).1, Nat.add_sub_cancel, Nat.add_comm (_ * _),
    Nat.add_mul_div_right _ _ (by omega), Nat.div_eq_of_lt (by omega)]
  omega

theorem count_claimed_laps (ha : plan.address k = some a) :
    (plan.claimed (m + 1)).count a = plan.laps (plan.overruns (m + 1)) := by
  have hle := (claim_isNone_iff hmake hfit).1 hlast
  have hlt : k.toNat < h.units id of := by
    by_contra hge
    rw [(address_eq_none_iff hmake hfit).2 (Nat.le_of_not_lt hge)] at ha
    cases ha
  rw [laps_overruns hmake hfit hlast, FillPlan.claimed_succ, Option.isNone_iff_eq_none.1 hlast,
    Option.toList_none, List.append_nil, count_claimed hmake hfit ha, if_pos (by omega)]

theorem length_claimed_laps :
    (plan.claimed (m + 1)).length = plan.laps (plan.overruns (m + 1)) * h.units id of := by
  have hle := (claim_isNone_iff hmake hfit).1 hlast
  have hmod := Nat.mod_lt m (show 0 < UInt64.size by decide)
  have hlen := plan.length_claimed_add_overruns m
  have hdiv := Nat.div_add_mod' m UInt64.size
  have hsplit : m / UInt64.size * UInt64.size = m / UInt64.size * (UInt64.size - h.units id of) +
      m / UInt64.size * h.units id of := by
    rw [← Nat.mul_add]
    congr 1
    omega
  rw [overruns_eq hmake hfit] at hlen
  rw [laps_overruns hmake hfit hlast, FillPlan.claimed_succ, Option.isNone_iff_eq_none.1 hlast,
    Option.toList_none, List.append_nil, Nat.succ_mul]
  omega

end Laps

end GroupBench
