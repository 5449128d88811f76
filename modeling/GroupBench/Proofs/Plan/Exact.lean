import GroupBench.Proofs.Plan.Addresses

/-! Words are large enough for a plan. Strict arithmetic takes the exact result of every operation
and refuses one that no word holds. In it slices and the units of a level always come out as they
are in a plan, and offsets and addresses do as long as a word counts all units of the instance. -/
namespace GroupBench

/-- Why no word holds a result. -/
inductive WordFault
  | tooLarge
  | negative
  | divisionByZero
  deriving DecidableEq

namespace Strict

/-- The word that counts `n`. -/
def word64 (n : Nat) : Except WordFault UInt64 :=
  if n < UInt64.size then .ok (.ofNat n) else .error .tooLarge

def word32 (n : Nat) : Except WordFault UInt32 :=
  if n < UInt32.size then .ok (.ofNat n) else .error .tooLarge

section Words
variable (a b : UInt64)

def add : Except WordFault UInt64 := word64 (a.toNat + b.toNat)

def mul : Except WordFault UInt64 := word64 (a.toNat * b.toNat)

def sub : Except WordFault UInt64 :=
  if b ≤ a then word64 (a.toNat - b.toNat) else .error .negative

def div : Except WordFault UInt64 :=
  if b = 0 then .error .divisionByZero else word64 (a.toNat / b.toNat)

def mod : Except WordFault UInt64 :=
  if b = 0 then .error .divisionByZero else word64 (a.toNat % b.toNat)

/-- The same number in a shorter word. -/
def narrow : Except WordFault UInt32 := word32 a.toNat

def add32 (a b : UInt32) : Except WordFault UInt32 := word32 (a.toNat + b.toNat)

def sub32 (a b : UInt32) : Except WordFault UInt32 :=
  if b ≤ a then word32 (a.toNat - b.toNat) else .error .negative

end Words

/-- The number of groups that the first `k` of `of` instances own. -/
def bound (count of k : UInt32) : Except WordFault UInt32 := do
  let product ← mul count.toUInt64 k.toUInt64
  let quotient ← div product of.toUInt64
  narrow quotient

def slice (count id of : UInt32) : Except WordFault (UInt32 × UInt32) :=
  if id = 0 || of < id then .ok (0, 0)
  else do
    let before ← sub32 id 1
    let start ← bound count of before
    let stop ← bound count of id
    return (start, stop)

def units (span : LevelSpan) : Except WordFault UInt64 := do
  let groups ← sub32 span.stop span.start
  mul groups.toUInt64 span.unitsPerGroup

def spanAt (h : Hierarchy) (id of : UInt32) (offset : UInt64) (level : UInt16) :
    Except WordFault LevelSpan := do
  let (start, stop) ← slice (h.groupCount level) id of
  let unitsPerGroup ← add (h.memberSlots level).toUInt64 1
  return { level, start, stop, unitsPerGroup, offset }

def layOut (h : Hierarchy) (id of : UInt32) (offset : UInt64) :
    List UInt16 → Except WordFault (List LevelSpan × UInt64)
  | [] => return ([], offset)
  | level :: rest => do
    let span ← spanAt h id of offset level
    let next ← add offset (← units span)
    let (spans, total) ← layOut h id of next rest
    return (span :: spans, total)

def plan (h : Hierarchy) (id of : UInt32) : Except WordFault FillPlan := do
  let (spans, totalUnits) ← layOut h id of 0 h.levels
  return ⟨h, spans, totalUnits⟩

/-- The span has work and starts at or before the index. -/
def reaches (index : UInt64) (span : LevelSpan) : Except WordFault Bool := do
  let units ← units span
  return 0 < units && span.offset ≤ index

def addressAt (index : UInt64) (span : LevelSpan) : Except WordFault Address := do
  let inLevel ← sub index span.offset
  let group ← add32 span.start (← narrow (← div inLevel span.unitsPerGroup))
  let slot ← narrow (← mod inLevel span.unitsPerGroup)
  return { level := span.level, group, slot }

def address (plan : FillPlan) (index : UInt64) : Except WordFault (Option Address) :=
  if plan.totalUnits ≤ index then return none
  else do
    let span? ← plan.spans.reverse.findM? (reaches index)
    span?.mapM (addressAt index)

section Words
variable {a b : UInt64}

theorem word64_toNat (a : UInt64) : word64 a.toNat = pure a := by
  rw [word64, if_pos a.toNat_lt, UInt64.ofNat_toNat]
  rfl

theorem word32_toNat (a : UInt32) : word32 a.toNat = pure a := by
  rw [word32, if_pos a.toNat_lt, UInt32.ofNat_toNat]
  rfl

theorem add_exact (h : a.toNat + b.toNat < UInt64.size) : add a b = pure (a + b) := by
  rw [← word64_toNat, UInt64.toNat_add, Nat.mod_eq_of_lt h, add]

theorem mul_exact (h : a.toNat * b.toNat < UInt64.size) : mul a b = pure (a * b) := by
  rw [← word64_toNat, UInt64.toNat_mul, Nat.mod_eq_of_lt h, mul]

theorem sub_exact (h : b ≤ a) : sub a b = pure (a - b) := by
  rw [← word64_toNat, UInt64.toNat_sub_of_le _ _ h, sub, if_pos h]

theorem div_exact (h : b ≠ 0) : div a b = pure (a / b) := by
  rw [← word64_toNat, UInt64.toNat_div, div, if_neg h]

theorem mod_exact (h : b ≠ 0) : mod a b = pure (a % b) := by
  rw [← word64_toNat, UInt64.toNat_mod, mod, if_neg h]

theorem narrow_exact (h : a.toNat < UInt32.size) : narrow a = pure a.toUInt32 := by
  rw [← word32_toNat, UInt64.toNat_toUInt32, Nat.mod_eq_of_lt h, narrow]

theorem add32_exact {a b : UInt32} (h : a.toNat + b.toNat < UInt32.size) :
    add32 a b = pure (a + b) := by
  rw [← word32_toNat, UInt32.toNat_add, Nat.mod_eq_of_lt h, add32]

theorem sub32_exact {a b : UInt32} (h : b ≤ a) : sub32 a b = pure (a - b) := by
  rw [← word32_toNat, UInt32.toNat_sub_of_le _ _ h, sub32, if_pos h]

end Words

section Slice
variable {count id of k : UInt32}

theorem bound_exact (hof : of ≠ 0) (hk : k ≤ of) :
    bound count of k = pure (count.toUInt64 * k.toUInt64 / of.toUInt64).toUInt32 := by
  have hproduct : count.toUInt64.toNat * k.toUInt64.toNat < UInt64.size := by
    rw [UInt32.toNat_toUInt64, UInt32.toNat_toUInt64]
    exact mul_toNat_lt count k
  have hdivisor : of.toUInt64 ≠ 0 := by
    intro hzero
    have htoNat := congrArg UInt64.toNat hzero
    rw [UInt32.toNat_toUInt64, UInt64.toNat_zero] at htoNat
    exact hof (UInt32.toNat_inj.1 htoNat)
  have hquotient : (count.toUInt64 * k.toUInt64 / of.toUInt64).toNat < UInt32.size := by
    rw [toNat_quotient]
    exact Nat.lt_of_le_of_lt (bound_le hk) count.toNat_lt
  rw [bound, mul_exact hproduct, pure_bind, div_exact hdivisor, pure_bind, narrow_exact hquotient]

theorem slice_exact (hid : id ≠ 0) (hof : id ≤ of) :
    slice count id of = pure (GroupBench.slice count id of) := by
  have hpos : of ≠ 0 := by
    rintro rfl
    exact hid (UInt32.le_zero_iff.1 hof)
  have hone := one_le_iff_ne_zero.2 hid
  have hbefore : id - 1 ≤ of := UInt32.le_trans (UInt32.sub_le hone) hof
  have hinside : ¬ (id = 0 || of < id) := by simp [hid, hof]
  rw [slice, GroupBench.slice, if_neg hinside, if_neg hinside, sub32_exact hone, pure_bind,
    bound_exact hpos hbefore, pure_bind, bound_exact hpos hof, pure_bind]

end Slice

section Spans
variable {h : Hierarchy} {id of : UInt32} {span : LevelSpan} {index : UInt64}

theorem units_exact (hs : span.Sound) : units span = pure span.units := by
  have hproduct : (span.stop - span.start).toUInt64.toNat * span.unitsPerGroup.toNat <
      UInt64.size := by
    rw [UInt32.toNat_toUInt64, hs.toNat_stop_sub_start]
    exact hs.count_lt
  rw [units, sub32_exact (UInt32.le_iff_toNat_le.2 hs.start_le_stop), pure_bind,
    mul_exact hproduct, LevelSpan.units]

theorem spanAt_exact (hid : id ≠ 0) (hof : id ≤ of) (offset : UInt64) (level : UInt16) :
    spanAt h id of offset level = pure (FillPlan.spanAt h id of offset level) := by
  have hslots : (h.memberSlots level).toUInt64.toNat + (1 : UInt64).toNat < UInt64.size := by
    have := (h.memberSlots level).toNat_lt
    rw [UInt32.toNat_toUInt64, UInt64.toNat_one]
    simp only [UInt64.size]
    omega
  rw [spanAt, slice_exact hid hof, pure_bind, add_exact hslots]
  rfl

/-- A layout is exact as long as a word can count its writes. -/
theorem layOut_exact (hid : id ≠ 0) (hof : id ≤ of) (levels : List UInt16) (offset : UInt64)
    (hfit : offset.toNat + (levels.map (h.levelUnits id of)).sum < UInt64.size) :
    layOut h id of offset levels = pure (FillPlan.layOut h id of offset levels) := by
  induction levels generalizing offset with
  | nil => rfl
  | cons level rest ih =>
    have hs : (FillPlan.spanAt h id of offset level).Sound := spanAt_sound hid hof
    rw [List.map_cons, List.sum_cons, ← units_spanAt hid hof offset, ← Nat.add_assoc] at hfit
    have hnext := Nat.lt_of_le_of_lt (Nat.le_add_right _ _) hfit
    rw [← Nat.mod_eq_of_lt hnext, ← UInt64.toNat_add] at hfit
    rw [layOut, spanAt_exact hid hof, pure_bind, units_exact hs, pure_bind, add_exact hnext,
      pure_bind, ih _ hfit, pure_bind]
    rfl

/-- Once a word cannot count the writes, the offset that is too large is found. -/
theorem layOut_tooLarge (hid : id ≠ 0) (hof : id ≤ of) (levels : List UInt16) (offset : UInt64)
    (hfull : UInt64.size ≤ offset.toNat + (levels.map (h.levelUnits id of)).sum) :
    layOut h id of offset levels = .error .tooLarge := by
  -- Either the offset after the first level is too large, or a word holds it and a later one is.
  induction levels generalizing offset with
  | nil => exact absurd hfull (Nat.not_le.2 offset.toNat_lt)
  | cons level rest ih =>
    have hs : (FillPlan.spanAt h id of offset level).Sound := spanAt_sound hid hof
    rw [List.map_cons, List.sum_cons, ← units_spanAt hid hof offset, ← Nat.add_assoc] at hfull
    rw [layOut, spanAt_exact hid hof, pure_bind, units_exact hs, pure_bind]
    by_cases hnext : offset.toNat + (FillPlan.spanAt h id of offset level).units.toNat < UInt64.size
    · rw [← Nat.mod_eq_of_lt hnext, ← UInt64.toNat_add] at hfull
      rw [add_exact hnext, pure_bind, ih _ hfull]
      rfl
    · rw [add, word64, if_neg hnext]
      rfl

theorem reaches_exact (hs : span.Sound) :
    reaches index span = pure (0 < span.units && span.offset ≤ index) := by
  rw [reaches, units_exact hs, pure_bind]

/-- Whichever spans the search comes to, it counts their units exactly. -/
theorem findM?_reaches {spans : List LevelSpan} (hsound : ∀ span ∈ spans, span.Sound) :
    spans.findM? (reaches index) =
      pure (spans.find? fun span => 0 < span.units && span.offset ≤ index) := by
  induction spans with
  | nil => rfl
  | cons span spans ih =>
    rw [List.findM?, reaches_exact (hsound span List.mem_cons_self), pure_bind, List.find?_cons,
      ih fun later hlater => hsound later (List.mem_cons_of_mem _ hlater)]
    cases decide (0 < span.units) && decide (span.offset ≤ index) <;> rfl

theorem addressAt_exact (hs : span.Sound) (hk : span.Has index.toNat) :
    addressAt index span = pure (span.addressAt index) := by
  have hle : span.offset ≤ index := UInt64.le_iff_toNat_le.2 hk.1
  have hdivisor : span.unitsPerGroup ≠ 0 := by
    intro hzero
    have hpos := hs.unitsPerGroup_pos
    rw [hzero] at hpos
    exact absurd hpos (by decide)
  have hlt := hk.quotient_lt
  have hstop := span.stop.toNat_lt
  have hquotient : ((index - span.offset) / span.unitsPerGroup).toNat < UInt32.size := by
    rw [UInt64.toNat_div, hk.toNat_sub]
    exact Nat.lt_trans (Nat.lt_of_lt_of_le hlt (Nat.sub_le ..)) hstop
  have hgroup : span.start.toNat + ((index - span.offset) / span.unitsPerGroup).toUInt32.toNat <
      UInt32.size := by
    rw [UInt64.toNat_toUInt32, Nat.mod_eq_of_lt hquotient, UInt64.toNat_div, hk.toNat_sub]
    exact Nat.lt_trans (Nat.add_comm .. ▸ Nat.add_lt_of_lt_sub hlt) hstop
  have hslot : ((index - span.offset) % span.unitsPerGroup).toNat < UInt32.size := by
    rw [UInt64.toNat_mod]
    exact Nat.lt_of_lt_of_le (Nat.mod_lt _ hs.unitsPerGroup_pos) hs.unitsPerGroup_le
  rw [addressAt, sub_exact hle, pure_bind, div_exact hdivisor, pure_bind, narrow_exact hquotient,
    pure_bind, add32_exact hgroup, pure_bind, mod_exact hdivisor, pure_bind, narrow_exact hslot]
  rfl

end Spans

theorem plan_tooLarge {h : Hierarchy} {id of : UInt32} (hid : id ≠ 0) (hof : id ≤ of)
    (hfull : UInt64.size ≤ h.units id of) : Strict.plan h id of = .error .tooLarge := by
  rw [← Nat.zero_add (h.units id of)] at hfull
  rw [Strict.plan, layOut_tooLarge hid hof h.levels 0 hfull]
  rfl

section Plan
variable {h : Hierarchy} {id of : UInt32} {plan : FillPlan}
variable (hmake : FillPlan.make h id of = .ok plan) (hfit : h.units id of < UInt64.size)
include hmake hfit

theorem plan_exact : Strict.plan h id of = pure plan := by
  obtain ⟨hid, hof, rfl⟩ := make_eq_ok_iff.1 hmake
  rw [← Nat.zero_add (h.units id of)] at hfit
  rw [Strict.plan, layOut_exact hid hof h.levels 0 hfit]
  rfl

theorem address_exact (index : UInt64) :
    Strict.address plan index = pure (plan.address index) := by
  obtain ⟨htotal, htiled⟩ := plan_tiled hmake hfit
  rw [Strict.address, FillPlan.address]
  split
  · rfl
  · rename_i hlt
    rw [UInt64.not_le, UInt64.lt_iff_toNat_lt, htotal] at hlt
    obtain ⟨span, hm, hk⟩ := htiled.exists_has (Nat.zero_le _) hlt
    have hfind := htiled.findRev?_eq_some hm hk
    rw [hfind]
    rw [List.findRev?_eq_find?_reverse] at hfind
    rw [findM?_reaches fun other hother => htiled.sound (List.mem_reverse.1 hother), pure_bind,
      hfind, Option.mapM_some, addressAt_exact (htiled.sound hm) hk]
    rfl

end Plan

end Strict

/-- A slice is computed without a loss: its bounds are the exact quotients, in order and within the
groups. -/
structure ExactSlice (count id of : UInt32) : Prop where
  computed : Strict.slice count id of = .ok (slice count id of)
  start_eq : (slice count id of).1.toNat = count.toNat * (id.toNat - 1) / of.toNat
  stop_eq : (slice count id of).2.toNat = count.toNat * id.toNat / of.toNat
  start_le_stop : (slice count id of).1 ≤ (slice count id of).2
  stop_le_count : (slice count id of).2 ≤ count

/-- A plan is laid out without a loss, and so is each of its addresses found. -/
structure ExactPlan (h : Hierarchy) (id of : UInt32) (plan : FillPlan) : Prop where
  laidOut : Strict.plan h id of = .ok plan
  total : plan.totalUnits.toNat = h.units id of
  found : ∀ index, Strict.address plan index = .ok (plan.address index)
  owned : ∀ index < plan.totalUnits, ∃ a, plan.address index = some a ∧ h.Owns id of a

section Exact
variable {h : Hierarchy} {id of : UInt32}

theorem exactSlice (hid : id ≠ 0) (hof : id ≤ of) (count : UInt32) : ExactSlice count id of where
  computed := Strict.slice_exact hid hof
  start_eq := slice_start_toNat hid hof
  stop_eq := slice_stop_toNat hid hof
  start_le_stop := UInt32.le_iff_toNat_le.2 (slice_start_le_stop hid hof)
  stop_le_count := by
    rw [UInt32.le_iff_toNat_le, slice_stop_toNat hid hof]
    exact bound_le hof

theorem levelUnits_lt (hid : id ≠ 0) (hof : id ≤ of) (level : UInt16) :
    h.levelUnits id of level < UInt64.size := by
  rw [← units_spanAt hid hof 0]
  exact UInt64.toNat_lt _

theorem exactPlan {plan : FillPlan} (hmake : FillPlan.make h id of = .ok plan)
    (hfit : h.units id of < UInt64.size) : ExactPlan h id of plan where
  laidOut := Strict.plan_exact hmake hfit
  total := (plan_tiled hmake hfit).1
  found := Strict.address_exact hmake hfit
  owned index hindex := by
    rw [UInt64.lt_iff_toNat_lt, (plan_tiled hmake hfit).1] at hindex
    cases haddress : plan.address index with
    | none => exact absurd ((address_eq_none_iff hmake hfit).1 haddress) (Nat.not_le.2 hindex)
    | some a => exact ⟨a, rfl, (owns_iff_exists_index hmake hfit).2 ⟨index, haddress⟩⟩

/-- Slices and the units of a level never leave their words, whatever the counts are. As long as a
word counts all units of an instance, neither does its plan nor any address that the plan leads to,
and that is as far as words go. -/
theorem plan_arithmetic_exact (hid : 1 ≤ id) (hof : id ≤ of) :
    (∀ count, ExactSlice count id of) ∧
      (∀ offset level, Strict.units (FillPlan.spanAt h id of offset level) =
          .ok (FillPlan.spanAt h id of offset level).units ∧
        h.levelUnits id of level < UInt64.size) ∧
      ∃ plan, FillPlan.make h id of = .ok plan ∧
        (h.units id of < UInt64.size → ExactPlan h id of plan) ∧
        (UInt64.size ≤ h.units id of → Strict.plan h id of = .error .tooLarge) := by
  have hne := one_le_iff_ne_zero.1 hid
  have hmake := make_eq_ok_iff (h := h).2 ⟨hne, hof, rfl⟩
  refine ⟨exactSlice hne hof, fun offset level => ⟨?_, levelUnits_lt hne hof level⟩, _, hmake,
    exactPlan hmake, Strict.plan_tooLarge hne hof⟩
  exact Strict.units_exact (spanAt_sound hne hof)

/-- The first level has all the groups and slots that words count, and the second has as many units
as a word can count beside those of the first. -/
def tightHierarchy : Hierarchy where
  levelCount := 2
  groupCount level := if level = 1 then 4294967295 else 1
  leafMemberCount level := if level = 1 then 4294967295 else 4294967289
  subgroupCount level := if level ≤ 1 then 0 else 5
  userPoolSize := 1
  subgroupCount_low _ hlow := if_pos hlow

theorem tight_arithmetic_exact :
    (1 : UInt32) ≤ 1 ∧ tightHierarchy.units 1 1 = 18446744073709551615 ∧
      ExactSlice 4294967295 1 1 ∧
      ∃ plan, FillPlan.make tightHierarchy 1 1 = .ok plan ∧ ExactPlan tightHierarchy 1 1 plan ∧
        Strict.address plan 18446744069414584319 = .ok (some ⟨1, 4294967294, 4294967295⟩) ∧
        Strict.address plan 18446744073709551614 = .ok (some ⟨2, 0, 4294967294⟩) := by
  have hunits : tightHierarchy.units 1 1 = 18446744073709551615 := by decide +kernel
  obtain ⟨hslices, -, plan, hmake, hfits, -⟩ :=
    plan_arithmetic_exact (h := tightHierarchy) (UInt32.le_refl 1) (UInt32.le_refl 1)
  have hexact := hfits (hunits.symm ▸ by decide)
  have hlast : plan.address 18446744069414584319 = some ⟨1, 4294967294, 4294967295⟩ ∧
      plan.address 18446744073709551614 = some ⟨2, 0, 4294967294⟩ := by
    obtain ⟨-, -, rfl⟩ := make_eq_ok_iff.1 hmake
    decide +kernel
  refine ⟨by decide, hunits, hslices 4294967295, plan, hmake, hexact, ?_, ?_⟩
  · rw [hexact.found, hlast.1]
  · rw [hexact.found, hlast.2]

end Exact

end GroupBench
