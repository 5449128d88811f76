import Mathlib.Algebra.GroupWithZero.Nat
import GroupBench.Plan

/-! Word arithmetic of a plan. Slices and spans have the sizes that unbounded numbers give them, and
the spans of an instance follow one another as long as its writes can be counted by a word. -/
namespace GroupBench

/-- The number of writes that instance `id` out of `of` has at a level. -/
def Hierarchy.levelUnits (h : Hierarchy) (id of : UInt32) (level : UInt16) : Nat :=
  ((slice (h.groupCount level) id of).2.toNat - (slice (h.groupCount level) id of).1.toNat) *
    ((h.memberSlots level).toNat + 1)

/-- The number of writes that instance `id` out of `of` has at all levels. -/
def Hierarchy.units (h : Hierarchy) (id of : UInt32) : Nat :=
  (h.levels.map (h.levelUnits id of)).sum

/-- The number of writes in a span, with no bound on it. -/
def LevelSpan.count (span : LevelSpan) : Nat :=
  (span.stop.toNat - span.start.toNat) * span.unitsPerGroup.toNat

section Slice
variable {count id of : UInt32}

theorem one_le_iff_ne_zero : 1 ≤ id ↔ id ≠ 0 := by
  rw [UInt32.le_iff_toNat_le, Ne, ← UInt32.toNat_inj]
  exact Nat.pos_iff_ne_zero

/-- Two 32-bit words have a product that a 64-bit word holds. -/
theorem mul_toNat_lt (a b : UInt32) : a.toNat * b.toNat < UInt64.size := by
  have hle := Nat.mul_le_mul (Nat.le_of_lt_succ a.toNat_lt) (Nat.le_of_lt_succ b.toNat_lt)
  simp only [UInt64.size]
  omega

theorem bound_le {k : UInt32} (hk : k ≤ of) : count.toNat * k.toNat / of.toNat ≤ count.toNat :=
  Nat.div_le_of_le_mul (Nat.mul_comm of.toNat _ ▸ Nat.mul_le_mul_left _ hk)

theorem toNat_quotient (count k of : UInt32) :
    (count.toUInt64 * k.toUInt64 / of.toUInt64).toNat = count.toNat * k.toNat / of.toNat := by
  simp only [UInt64.toNat_div, UInt64.toNat_mul, UInt32.toNat_toUInt64]
  rw [Nat.mod_eq_of_lt (mul_toNat_lt count k)]

/-- A bound of a slice is an exact quotient: neither the product nor the quotient is cut. -/
theorem bound_toNat {k : UInt32} (hk : k ≤ of) :
    (count.toUInt64 * k.toUInt64 / of.toUInt64).toUInt32.toNat =
      count.toNat * k.toNat / of.toNat := by
  have hquot := Nat.lt_of_le_of_lt (bound_le hk) count.toNat_lt
  rw [UInt64.toNat_toUInt32, toNat_quotient, Nat.mod_eq_of_lt hquot]

variable (hid : id ≠ 0) (hof : id ≤ of)
include hid hof

theorem slice_start_toNat :
    (slice count id of).1.toNat = count.toNat * (id.toNat - 1) / of.toNat := by
  have hpos : 1 ≤ id := one_le_iff_ne_zero.2 hid
  have hpred : (id - 1).toNat = id.toNat - 1 := UInt32.toNat_sub_of_le _ _ hpos
  have hle : id - 1 ≤ of := UInt32.le_trans (UInt32.sub_le hpos) hof
  have hlt : ¬ of < id := UInt32.not_lt.2 hof
  simp only [slice, hid, hlt, decide_false, Bool.or_self, Bool.false_eq_true, ↓reduceIte]
  rw [bound_toNat hle, hpred]

theorem slice_stop_toNat : (slice count id of).2.toNat = count.toNat * id.toNat / of.toNat := by
  have hlt : ¬ of < id := UInt32.not_lt.2 hof
  simp only [slice, hid, hlt, decide_false, Bool.or_self, Bool.false_eq_true, ↓reduceIte]
  rw [bound_toNat hof]

theorem slice_start_le_stop : (slice count id of).1.toNat ≤ (slice count id of).2.toNat := by
  rw [slice_start_toNat hid hof, slice_stop_toNat hid hof]
  exact Nat.div_le_div_right (Nat.mul_le_mul_left _ (Nat.sub_le ..))

end Slice

/-- The groups of a span are in order and its divisor is a row and at most all slots of a word. -/
structure LevelSpan.Sound (span : LevelSpan) : Prop where
  start_le_stop : span.start.toNat ≤ span.stop.toNat
  unitsPerGroup_pos : 0 < span.unitsPerGroup.toNat
  unitsPerGroup_le : span.unitsPerGroup.toNat ≤ 2 ^ 32

namespace LevelSpan.Sound
variable {span : LevelSpan}

theorem toNat_stop_sub_start (hs : span.Sound) :
    (span.stop - span.start).toNat = span.stop.toNat - span.start.toNat :=
  UInt32.toNat_sub_of_le _ _ (UInt32.le_iff_toNat_le.2 hs.start_le_stop)

theorem count_lt (hs : span.Sound) : span.count < UInt64.size := by
  have hstop := span.stop.toNat_lt
  have hle : span.stop.toNat - span.start.toNat ≤ 2 ^ 32 - 1 := by omega
  have := Nat.mul_le_mul hle hs.unitsPerGroup_le
  simp only [LevelSpan.count, UInt64.size]
  omega

theorem units_toNat (hs : span.Sound) : span.units.toNat = span.count := by
  rw [LevelSpan.units, UInt64.toNat_mul, UInt32.toNat_toUInt64, hs.toNat_stop_sub_start]
  exact Nat.mod_eq_of_lt hs.count_lt

end LevelSpan.Sound

section SpanAt
variable {h : Hierarchy} {id of : UInt32} {offset : UInt64} {level : UInt16}

theorem unitsPerGroup_spanAt (h : Hierarchy) (id of : UInt32) (offset : UInt64) (level : UInt16) :
    (FillPlan.spanAt h id of offset level).unitsPerGroup.toNat =
      (h.memberSlots level).toNat + 1 := by
  have := (h.memberSlots level).toNat_lt
  change ((h.memberSlots level).toUInt64 + 1).toNat = _
  rw [UInt64.toNat_add, UInt32.toNat_toUInt64]
  simp
  omega

theorem count_spanAt :
    (FillPlan.spanAt h id of offset level).count = h.levelUnits id of level := by
  rw [LevelSpan.count, unitsPerGroup_spanAt]
  rfl

theorem spanAt_sound (hid : id ≠ 0) (hof : id ≤ of) :
    (FillPlan.spanAt h id of offset level).Sound where
  start_le_stop := slice_start_le_stop hid hof
  unitsPerGroup_pos := by
    rw [unitsPerGroup_spanAt]
    omega
  unitsPerGroup_le := by
    have := (h.memberSlots level).toNat_lt
    rw [unitsPerGroup_spanAt]
    omega

theorem units_spanAt (hid : id ≠ 0) (hof : id ≤ of) (offset : UInt64) (level : UInt16) :
    (FillPlan.spanAt h id of offset level).units.toNat = h.levelUnits id of level := by
  rw [(spanAt_sound hid hof).units_toNat, count_spanAt]

end SpanAt

/-- Spans that take the indices `[first, stop)` one after the other. -/
inductive Tiled : Nat → List LevelSpan → Nat → Prop
  | nil (first : Nat) : Tiled first [] first
  | cons {first stop : Nat} {span : LevelSpan} {spans : List LevelSpan} :
      span.Sound → span.offset.toNat = first → Tiled (first + span.count) spans stop →
      Tiled first (span :: spans) stop

/-- The indices of a span. -/
def LevelSpan.Has (span : LevelSpan) (k : Nat) : Prop :=
  span.offset.toNat ≤ k ∧ k < span.offset.toNat + span.count

namespace Tiled
variable {first stop : Nat} {k : UInt64} {span : LevelSpan} {spans : List LevelSpan}

theorem le (ht : Tiled first spans stop) : first ≤ stop := by
  induction ht with
  | nil => exact Nat.le_refl _
  | cons _ _ _ ih => exact Nat.le_trans (Nat.le_add_right ..) ih

theorem sound (ht : Tiled first spans stop) (hm : span ∈ spans) : span.Sound := by
  induction ht with
  | nil => simp at hm
  | cons hs _ _ ih =>
    rcases List.mem_cons.1 hm with rfl | hm
    · exact hs
    · exact ih hm

theorem bounds (ht : Tiled first spans stop) (hm : span ∈ spans) :
    first ≤ span.offset.toNat ∧ span.offset.toNat + span.count ≤ stop := by
  induction ht with
  | nil => simp at hm
  | cons _ ho ht ih =>
    rcases List.mem_cons.1 hm with rfl | hm
    · rw [ho]
      exact ⟨Nat.le_refl _, ht.le⟩
    · have := ih hm
      omega

/-- Every index has a span. -/
theorem exists_has {k : Nat} (ht : Tiled first spans stop) (hfirst : first ≤ k) (hstop : k < stop) :
    ∃ span ∈ spans, span.Has k := by
  induction ht with
  | nil => omega
  | @cons first stop span spans _ ho _ ih =>
    by_cases hk : k < first + span.count
    · exact ⟨span, List.mem_cons_self, by omega, by omega⟩
    · obtain ⟨other, hm, hhas⟩ := ih (by omega) hstop
      exact ⟨other, List.mem_cons_of_mem _ hm, hhas⟩

/-- The search from the last span on finds the one that has the index: later ones start beyond it,
and those that start with it are empty. -/
theorem findRev?_eq_some (ht : Tiled first spans stop) (hm : span ∈ spans) (hk : span.Has k.toNat) :
    spans.findRev? (fun span => 0 < span.units && span.offset ≤ k) = some span := by
  induction ht with
  | nil => simp at hm
  | @cons first stop head spans hs ho ht ih =>
    rcases List.mem_cons.1 hm with rfl | hm
    · have hrest : spans.findRev? (fun span => 0 < span.units && span.offset ≤ k) = none := by
        rw [List.findRev?_eq_find?_reverse, List.find?_eq_none]
        intro later hlater
        have hl := (ht.bounds (List.mem_reverse.1 hlater)).1
        have hlt := hk.2
        simp [UInt64.le_iff_toNat_le]
        omega
      have hunits : 0 < span.units := by
        rw [UInt64.lt_iff_toNat_lt, hs.units_toNat]
        have := hk.1
        have := hk.2
        simp
        omega
      have hle : span.offset ≤ k := UInt64.le_iff_toNat_le.2 hk.1
      rw [List.findRev?, hrest]
      simp [hunits, hle]
    · rw [List.findRev?, ih hm]

end Tiled

section LayOut
variable {h : Hierarchy} {id of : UInt32} {levels : List UInt16} {offset : UInt64}

theorem layOut_levels (h : Hierarchy) (id of : UInt32) (offset : UInt64) (levels : List UInt16) :
    (FillPlan.layOut h id of offset levels).1.map LevelSpan.level = levels := by
  induction levels generalizing offset with
  | nil => rfl
  | cons level rest ih =>
    rw [FillPlan.layOut, List.map_cons, ih]
    rfl

theorem mem_layOut {span : LevelSpan} (hm : span ∈ (FillPlan.layOut h id of offset levels).1) :
    ∃ start, span = FillPlan.spanAt h id of start span.level := by
  induction levels generalizing offset with
  | nil => simp [FillPlan.layOut] at hm
  | cons level rest ih =>
    rcases List.mem_cons.1 hm with rfl | hm
    · exact ⟨offset, rfl⟩
    · exact ih hm

/-- Offsets are the exact sums of the writes before them, as long as a word can hold the last. -/
theorem layOut_tiled (levels : List UInt16) (offset : UInt64) (hid : id ≠ 0) (hof : id ≤ of)
    (hfit : offset.toNat + (levels.map (h.levelUnits id of)).sum < UInt64.size) :
    (FillPlan.layOut h id of offset levels).2.toNat =
        offset.toNat + (levels.map (h.levelUnits id of)).sum ∧
      Tiled offset.toNat (FillPlan.layOut h id of offset levels).1
        (FillPlan.layOut h id of offset levels).2.toNat := by
  induction levels generalizing offset with
  | nil => exact ⟨rfl, .nil _⟩
  | cons level rest ih =>
    have hs : (FillPlan.spanAt h id of offset level).Sound := spanAt_sound hid hof
    have hu := units_spanAt (h := h) hid hof offset level
    simp only [List.map_cons, List.sum_cons] at hfit
    have hnext : (offset + (FillPlan.spanAt h id of offset level).units).toNat =
        offset.toNat + h.levelUnits id of level := by
      rw [UInt64.toNat_add, hu, Nat.mod_eq_of_lt]
      simp only [UInt64.size] at hfit
      omega
    obtain ⟨htotal, htiled⟩ := ih (offset + (FillPlan.spanAt h id of offset level).units)
      (by omega)
    simp only [FillPlan.layOut, List.map_cons, List.sum_cons]
    refine ⟨by omega, .cons hs rfl ?_⟩
    rw [count_spanAt, ← hnext]
    exact htiled

end LayOut

end GroupBench
