import Mathlib.Data.List.Nodup
import GroupBench.Proofs.Plan.Spans

/-! Indices and addresses of a plan. As long as a word can count the writes of an instance, an index
below the total stands for one address, and every address that the instance owns has one index. -/
namespace GroupBench

/-- Instance `id` out of `of` writes this address. -/
def Hierarchy.Owns (h : Hierarchy) (id of : UInt32) (a : Address) : Prop :=
  1 ≤ a.level ∧ a.level ≤ h.levelCount ∧
    (slice (h.groupCount a.level) id of).1 ≤ a.group ∧
    a.group < (slice (h.groupCount a.level) id of).2 ∧ a.slot ≤ h.memberSlots a.level

instance (h : Hierarchy) (id of : UInt32) (a : Address) : Decidable (h.Owns id of a) :=
  inferInstanceAs (Decidable (_ ∧ _))

namespace Hierarchy
variable {h : Hierarchy}

theorem levels_sorted (h : Hierarchy) : h.levels.Pairwise (· < ·) := by
  have hcount := h.levelCount.toNat_lt
  refine List.pairwise_map.2 (List.Pairwise.imp_of_mem ?_ List.pairwise_lt_range')
  intro x y hx hy hlt
  rw [List.mem_range'_1] at hx hy
  rw [UInt16.lt_iff_toNat_lt, UInt16.toNat_ofNat', UInt16.toNat_ofNat']
  omega

theorem levels_nodup : h.levels.Nodup := h.levels_sorted.imp UInt16.ne_of_lt

theorem mem_levels {level : UInt16} :
    level ∈ h.levels ↔ 1 ≤ level ∧ level ≤ h.levelCount := by
  have hl := level.toNat_lt
  have hc := h.levelCount.toNat_lt
  simp only [levels, levelRange, List.mem_map, List.mem_range'_1, UInt16.le_iff_toNat_le]
  constructor
  · rintro ⟨n, ⟨h1, hn⟩, rfl⟩
    have hmod : n % 2 ^ 16 = n := Nat.mod_eq_of_lt (by omega)
    simp only [UInt16.toNat_ofNat', hmod]
    exact ⟨h1, by omega⟩
  · rintro ⟨h1, hle⟩
    exact ⟨level.toNat, ⟨h1, by omega⟩, by simp⟩

end Hierarchy

/-- The address is in the span, at an index of the plan. -/
structure LevelSpan.Holds (span : LevelSpan) (k : Nat) (a : Address) : Prop where
  level : a.level = span.level
  start_le : span.start.toNat ≤ a.group.toNat
  lt_stop : a.group.toNat < span.stop.toNat
  slot_lt : a.slot.toNat < span.unitsPerGroup.toNat
  index : k = span.offset.toNat +
    ((a.group.toNat - span.start.toNat) * span.unitsPerGroup.toNat + a.slot.toNat)

theorem LevelSpan.Holds.has {span : LevelSpan} {k : Nat} {a : Address} (ha : span.Holds k a) :
    span.Has k := by
  have hlt : a.group.toNat - span.start.toNat + 1 ≤ span.stop.toNat - span.start.toNat := by
    have := ha.start_le
    have := ha.lt_stop
    omega
  have hmul := Nat.mul_le_mul_right span.unitsPerGroup.toNat hlt
  rw [Nat.add_mul, Nat.one_mul] at hmul
  have := ha.slot_lt
  rw [LevelSpan.Has, LevelSpan.count, ha.index]
  omega

/-- The address that a span has at one of its indices. -/
def LevelSpan.addressAt (span : LevelSpan) (k : UInt64) : Address where
  level := span.level
  group := span.start + ((k - span.offset) / span.unitsPerGroup).toUInt32
  slot := ((k - span.offset) % span.unitsPerGroup).toUInt32

theorem LevelSpan.Has.quotient_lt {span : LevelSpan} {k : Nat} (hk : span.Has k) :
    (k - span.offset.toNat) / span.unitsPerGroup.toNat < span.stop.toNat - span.start.toNat := by
  obtain ⟨hle, hlt⟩ := hk
  apply Nat.div_lt_of_lt_mul
  rw [LevelSpan.count, Nat.mul_comm] at hlt
  omega

theorem LevelSpan.Has.toNat_sub {span : LevelSpan} {k : UInt64} (hk : span.Has k.toNat) :
    (k - span.offset).toNat = k.toNat - span.offset.toNat :=
  UInt64.toNat_sub_of_le _ _ (UInt64.le_iff_toNat_le.2 hk.1)

namespace LevelSpan.Sound
variable {span : LevelSpan} {k : UInt64} (hs : span.Sound) (hk : span.Has k.toNat)
include hs hk

theorem group_addressAt : (span.addressAt k).group.toNat =
    span.start.toNat + (k.toNat - span.offset.toNat) / span.unitsPerGroup.toNat := by
  have hstart := hs.start_le_stop
  have hquot := hk.quotient_lt
  have hstop := span.stop.toNat_lt
  rw [addressAt, UInt32.toNat_add, UInt64.toNat_toUInt32, UInt64.toNat_div, hk.toNat_sub]
  generalize (k.toNat - span.offset.toNat) / span.unitsPerGroup.toNat = quotient at hquot ⊢
  rw [Nat.mod_eq_of_lt (by omega), Nat.mod_eq_of_lt (by omega)]

theorem slot_addressAt : (span.addressAt k).slot.toNat =
    (k.toNat - span.offset.toNat) % span.unitsPerGroup.toNat := by
  have hmod := Nat.mod_lt (k.toNat - span.offset.toNat) hs.unitsPerGroup_pos
  have hle := hs.unitsPerGroup_le
  rw [addressAt, UInt64.toNat_toUInt32, UInt64.toNat_mod, hk.toNat_sub]
  exact Nat.mod_eq_of_lt (by omega)

theorem holds_addressAt : span.Holds k.toNat (span.addressAt k) := by
  have hgroup := hs.group_addressAt hk
  have hslot := hs.slot_addressAt hk
  have hdiv := Nat.div_add_mod' (k.toNat - span.offset.toNat) span.unitsPerGroup.toNat
  have hquot := hk.quotient_lt
  have hoff := hk.1
  refine ⟨rfl, ?_, ?_, ?_, ?_⟩
  · rw [hgroup]
    exact Nat.le_add_right ..
  · rw [hgroup, Nat.add_comm]
    exact Nat.add_lt_of_lt_sub hquot
  · rw [hslot]
    exact Nat.mod_lt _ hs.unitsPerGroup_pos
  · rw [hgroup, hslot, Nat.add_sub_cancel_left, hdiv]
    omega

/-- An index leads to one address of its span. -/
theorem eq_addressAt {a : Address} (ha : span.Holds k.toNat a) : a = span.addressAt k := by
  have hoff : k.toNat - span.offset.toNat =
      (a.group.toNat - span.start.toNat) * span.unitsPerGroup.toNat + a.slot.toNat := by
    rw [ha.index]
    omega
  have hquot : (k.toNat - span.offset.toNat) / span.unitsPerGroup.toNat =
      a.group.toNat - span.start.toNat := by
    rw [hoff, Nat.add_comm, Nat.add_mul_div_right _ _ hs.unitsPerGroup_pos,
      Nat.div_eq_of_lt ha.slot_lt, Nat.zero_add]
  have hrem : (k.toNat - span.offset.toNat) % span.unitsPerGroup.toNat = a.slot.toNat := by
    rw [hoff, Nat.add_comm, Nat.add_mul_mod_self_right, Nat.mod_eq_of_lt ha.slot_lt]
  have hgroup := hs.group_addressAt hk
  have hslot := hs.slot_addressAt hk
  have hstart := ha.start_le
  apply Address.ext
  · exact ha.level
  · apply UInt32.toNat_inj.1
    omega
  · apply UInt32.toNat_inj.1
    omega

end LevelSpan.Sound

section Plan
variable {h : Hierarchy} {id of : UInt32} {plan : FillPlan} {k : UInt64} {a : Address}

theorem make_eq_ok_iff : FillPlan.make h id of = .ok plan ↔
    id ≠ 0 ∧ id ≤ of ∧
      plan =
        ⟨h, (FillPlan.layOut h id of 0 h.levels).1, (FillPlan.layOut h id of 0 h.levels).2⟩ := by
  have hzero : of = 0 → id ≤ of → id = 0 := by
    rintro rfl hle
    exact UInt32.le_zero_iff.1 hle
  rw [FillPlan.make]
  split
  · rename_i hbad
    simp only [Bool.or_eq_true, decide_eq_true_eq] at hbad
    constructor
    · intro he
      cases he
    · rintro ⟨hid, hle, -⟩
      rcases hbad with (h0 | h0) | hlt
      · exact (hid (hzero h0 hle)).elim
      · exact (hid h0).elim
      · exact (UInt32.not_lt.2 hle hlt).elim
  · rename_i hgood
    simp only [Bool.or_eq_true, decide_eq_true_eq, not_or, UInt32.not_lt] at hgood
    constructor
    · intro he
      exact ⟨hgood.1.2, hgood.2, (Except.ok.inj he).symm⟩
    · rintro ⟨-, -, rfl⟩
      rfl

variable (hmake : FillPlan.make h id of = .ok plan)
include hmake

theorem spans_levels : plan.spans.map LevelSpan.level = h.levels := by
  obtain ⟨-, -, rfl⟩ := make_eq_ok_iff.1 hmake
  exact layOut_levels h id of 0 h.levels

theorem spans_eq_of_level {span other : LevelSpan} (hm : span ∈ plan.spans) (hm' : other ∈ plan.spans)
    (hlevel : span.level = other.level) : span = other := by
  have hnodup : (plan.spans.map LevelSpan.level).Nodup := by
    rw [spans_levels hmake]
    exact Hierarchy.levels_nodup
  exact List.inj_on_of_nodup_map hnodup hm hm' hlevel

variable (hfit : h.units id of < UInt64.size)
include hfit

theorem plan_tiled : plan.totalUnits.toNat = h.units id of ∧
    Tiled 0 plan.spans (h.units id of) := by
  obtain ⟨hid, hof, rfl⟩ := make_eq_ok_iff.1 hmake
  have hzero : (0 : UInt64).toNat + (h.levels.map (h.levelUnits id of)).sum = h.units id of := by
    rw [UInt64.toNat_zero, Nat.zero_add]
    rfl
  obtain ⟨htotal, htiled⟩ := layOut_tiled h.levels 0 hid hof (hzero ▸ hfit)
  rw [hzero] at htotal
  exact ⟨htotal, htotal ▸ htiled⟩

/-- No write is left out and none is made up: an address that the plan leads to at an index is one
of the span that has the index there. -/
theorem address_eq_some_iff :
    plan.address k = some a ↔ ∃ span ∈ plan.spans, span.Holds k.toNat a := by
  obtain ⟨htotal, htiled⟩ := plan_tiled hmake hfit
  constructor
  · intro he
    rw [FillPlan.address] at he
    split at he
    · cases he
    · rename_i hlt
      rw [UInt64.not_le, UInt64.lt_iff_toNat_lt, htotal] at hlt
      obtain ⟨span, hm, hk⟩ := htiled.exists_has (Nat.zero_le _) hlt
      rw [htiled.findRev?_eq_some hm hk] at he
      cases he
      exact ⟨span, hm, (htiled.sound hm).holds_addressAt hk⟩
  · rintro ⟨span, hm, hh⟩
    have hk := hh.has
    have hlt : ¬ plan.totalUnits ≤ k := by
      rw [UInt64.not_le, UInt64.lt_iff_toNat_lt, htotal]
      have := (htiled.bounds hm).2
      have := hk.2
      omega
    rw [FillPlan.address, if_neg hlt, htiled.findRev?_eq_some hm hk,
      (htiled.sound hm).eq_addressAt hk hh]
    rfl

theorem address_eq_none_iff : plan.address k = none ↔ h.units id of ≤ k.toNat := by
  obtain ⟨htotal, htiled⟩ := plan_tiled hmake hfit
  rw [Option.eq_none_iff_forall_not_mem]
  constructor
  · intro hn
    by_contra hlt
    obtain ⟨span, hm, hk⟩ := htiled.exists_has (Nat.zero_le _) (Nat.lt_of_not_le hlt)
    exact hn _ ((address_eq_some_iff hmake hfit).2
      ⟨span, hm, (htiled.sound hm).holds_addressAt hk⟩)
  · rintro hle a ha
    obtain ⟨span, hm, hh⟩ := (address_eq_some_iff hmake hfit).1 ha
    have := (htiled.bounds hm).2
    have := hh.has.2
    omega

omit hfit in
/-- The instance owns an address just if one of its spans has it. -/
theorem owns_iff_exists_span : h.Owns id of a ↔ ∃ span ∈ plan.spans, a.level = span.level ∧
    span.start.toNat ≤ a.group.toNat ∧ a.group.toNat < span.stop.toNat ∧
    a.slot.toNat < span.unitsPerGroup.toNat := by
  obtain ⟨hid, hof, rfl⟩ := make_eq_ok_iff.1 hmake
  constructor
  · rintro ⟨h1, hle, hstart, hstop, hslot⟩
    have hm : a.level ∈ h.levels := Hierarchy.mem_levels.2 ⟨h1, hle⟩
    rw [← layOut_levels h id of 0 h.levels] at hm
    obtain ⟨span, hs, hlevel⟩ := List.mem_map.1 hm
    obtain ⟨start, he⟩ := mem_layOut hs
    refine ⟨span, hs, hlevel.symm, ?_⟩
    rw [he, unitsPerGroup_spanAt, hlevel]
    rw [UInt32.le_iff_toNat_le] at hstart hslot
    exact ⟨hstart, UInt32.lt_iff_toNat_lt.1 hstop, Nat.lt_succ_of_le hslot⟩
  · rintro ⟨span, hs, hlevel, hstart, hstop, hslot⟩
    obtain ⟨start, he⟩ := mem_layOut hs
    have hm : span.level ∈ h.levels := by
      rw [← layOut_levels h id of 0 h.levels]
      exact List.mem_map_of_mem hs
    rw [he, unitsPerGroup_spanAt] at hslot
    rw [he] at hstart hstop
    rw [← hlevel] at hm hstart hstop hslot
    obtain ⟨h1, hle⟩ := Hierarchy.mem_levels.1 hm
    exact ⟨h1, hle, hstart, hstop, UInt32.le_iff_toNat_le.2 (Nat.le_of_lt_succ hslot)⟩

theorem owns_iff_exists_index : h.Owns id of a ↔ ∃ k, plan.address k = some a := by
  obtain ⟨htotal, htiled⟩ := plan_tiled hmake hfit
  rw [owns_iff_exists_span hmake]
  constructor
  · rintro ⟨span, hm, hlevel, hstart, hstop, hslot⟩
    have hh : span.Holds (span.offset.toNat +
        ((a.group.toNat - span.start.toNat) * span.unitsPerGroup.toNat + a.slot.toNat)) a :=
      ⟨hlevel, hstart, hstop, hslot, rfl⟩
    have hlt := Nat.lt_of_lt_of_le hh.has.2 (htiled.bounds hm).2
    have hk := UInt64.toNat_ofNat_of_lt (Nat.lt_trans hlt hfit)
    exact ⟨_, (address_eq_some_iff hmake hfit).2 ⟨span, hm, hk.symm ▸ hh⟩⟩
  · rintro ⟨k, hk⟩
    obtain ⟨span, hm, hh⟩ := (address_eq_some_iff hmake hfit).1 hk
    exact ⟨span, hm, hh.level, hh.start_le, hh.lt_stop, hh.slot_lt⟩

/-- No address has two indices. -/
theorem address_injective {k' : UInt64} (hk : plan.address k = some a)
    (hk' : plan.address k' = some a) : k = k' := by
  obtain ⟨span, hm, hh⟩ := (address_eq_some_iff hmake hfit).1 hk
  obtain ⟨other, hm', hh'⟩ := (address_eq_some_iff hmake hfit).1 hk'
  obtain rfl := spans_eq_of_level hmake hm hm' (hh.level.symm.trans hh'.level)
  exact UInt64.toNat_inj.1 (hh.index.trans hh'.index.symm)

end Plan

end GroupBench
