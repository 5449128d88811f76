import Mathlib.Data.Set.Card
import GroupBench.Proofs.Plan.Order

/-! Where a plan goes on from one level to the next. A span without work has the offset of the one
after it, so level starts are read off the spans with work: all of them but the first begin a level
that follows another one. -/
namespace GroupBench

theorem LevelSpan.Sound.units_pos_iff {span : LevelSpan} (hs : span.Sound) :
    0 < span.units ↔ 0 < span.count := by
  rw [UInt64.lt_iff_toNat_lt, hs.units_toNat, UInt64.toNat_zero]

/-- A span has work if it has a group, since each group has a row. -/
theorem LevelSpan.Sound.count_pos_iff {span : LevelSpan} (hs : span.Sound) :
    0 < span.count ↔ span.start < span.stop := by
  rw [LevelSpan.count, Nat.mul_pos_iff_of_pos_right hs.unitsPerGroup_pos, Nat.sub_pos_iff_lt,
    UInt32.lt_iff_toNat_lt]

theorem LevelSpan.Has.count_pos {span : LevelSpan} {k : Nat} (hk : span.Has k) :
    0 < span.count := by
  have := hk.1
  have := hk.2
  omega

/-- Spans without work take no index. -/
theorem Tiled.busy {first stop : Nat} {spans : List LevelSpan} (ht : Tiled first spans stop) :
    Tiled first (spans.filter fun span => 0 < span.units) stop := by
  induction ht with
  | nil => exact .nil _
  | cons hs ho _ ih =>
    rw [List.filter_cons]
    split
    · exact .cons hs ho ih
    · rename_i hidle
      rw [decide_eq_true_eq, hs.units_pos_iff, Nat.not_lt, Nat.le_zero] at hidle
      rwa [hidle, Nat.add_zero] at ih

/-- A span ends where the next one begins, and the last one at the end. -/
theorem Tiled.ends_eq {first stop : Nat} {span : LevelSpan} {spans : List LevelSpan}
    (ht : Tiled first (span :: spans) stop) :
    ((span :: spans).map fun x => x.offset.toNat + x.count) =
      spans.map (·.offset.toNat) ++ [stop] := by
  induction spans generalizing first span with
  | nil =>
    cases ht with
    | cons _ ho ht =>
      cases ht
      rw [List.map_singleton, ho]
      rfl
  | cons next rest ih =>
    cases ht with
    | cons _ ho ht =>
      rw [List.map_cons, ih ht]
      cases ht with
      | cons _ ho' _ =>
        rw [ho, ← ho']
        rfl

/-- No index is in two spans. -/
theorem Tiled.has_unique {first stop : Nat} {spans : List LevelSpan} {x y : LevelSpan} {k : UInt64}
    (ht : Tiled first spans stop) (hx : x ∈ spans) (hy : y ∈ spans) (hxk : x.Has k.toNat)
    (hyk : y.Has k.toNat) : x = y :=
  Option.some.inj ((ht.findRev?_eq_some hx hxk).symm.trans (ht.findRev?_eq_some hy hyk))

/-- The levels at which instance `id` out of `of` has writes. -/
def Hierarchy.workLevels (h : Hierarchy) (id of : UInt32) : List UInt16 :=
  h.levels.filter fun level => 0 < h.levelUnits id of level

namespace FillPlan
variable (plan : FillPlan)

/-- The spans with work. -/
def busy : List LevelSpan := plan.spans.filter fun span => 0 < span.units

/-- The indices below `n` that begin a level. -/
def levelStarts (n : Nat) : List UInt64 :=
  ((List.range n).map UInt64.ofNat).filter plan.isLevelStart

theorem levelStarts_succ (n : Nat) : plan.levelStarts (n + 1) =
    plan.levelStarts n ++ if plan.isLevelStart (UInt64.ofNat n) then [UInt64.ofNat n] else [] := by
  rw [levelStarts, levelStarts, List.range_succ, List.map_append, List.filter_append]
  by_cases hstart : plan.isLevelStart (UInt64.ofNat n) <;> simp [hstart]

/-- The instance owns a group of the level. -/
def WorksAt (level : UInt16) : Prop :=
  ∃ start stop, plan.owned level = some (start, stop) ∧ start < stop

/-- Level starts are the indices at which the level changes. Each is the first unit of its level,
and there is one for every level with work but the lowest. -/
structure StartsAtChanges : Prop where
  isLevelStart_iff : ∀ k, plan.isLevelStart k ↔ 0 < k ∧
    ∃ a b, plan.address k = some a ∧ plan.address (k - 1) = some b ∧ a.level ≠ b.level
  address : ∀ k, plan.isLevelStart k → ∃ level start stop, plan.owned level = some (start, stop) ∧
    start < stop ∧ plan.address k = some ⟨level, start, 0⟩
  count : {k | plan.isLevelStart k}.encard = {level | plan.WorksAt level}.encard - 1

end FillPlan

section LevelStarts
variable {h : Hierarchy} {id of : UInt32} {plan : FillPlan} {k : UInt64} {a : Address}
  {span : LevelSpan} {level : UInt16} {start stop : UInt32}
variable (hmake : FillPlan.make h id of = .ok plan)
include hmake

theorem count_of_mem (hm : span ∈ plan.spans) : span.count = h.levelUnits id of span.level := by
  obtain ⟨-, -, rfl⟩ := make_eq_ok_iff.1 hmake
  obtain ⟨offset, he⟩ := mem_layOut hm
  rw [he, count_spanAt]
  rfl

/-- The groups that an instance owns at a level are those of a span. -/
theorem owned_eq_some_iff : plan.owned level = some (start, stop) ↔
    ∃ span ∈ plan.spans, span.level = level ∧ span.start = start ∧ span.stop = stop := by
  constructor
  · intro howned
    rw [FillPlan.owned] at howned
    split at howned
    · cases howned
    rename_i hne
    obtain ⟨span, hspan, he⟩ := Option.map_eq_some_iff.1 howned
    refine ⟨span, List.mem_of_getElem? hspan, ?_, congrArg Prod.fst he, congrArg Prod.snd he⟩
    have hlength : plan.spans.length = h.levelCount.toNat := by
      rw [← List.length_map (f := LevelSpan.level), spans_levels hmake]
      simp [Hierarchy.levels, levelRange]
    have hless := (List.getElem?_eq_some_iff.1 hspan).1
    have hpos : level.toNat ≠ 0 := fun hzero => hne (UInt16.toNat_inj.1 hzero)
    have hget : h.levels[level.toNat - 1]? = some level :=
      getElem?_levels (UInt16.le_iff_toNat_le.2 (Nat.one_le_iff_ne_zero.2 hpos))
        (UInt16.le_iff_toNat_le.2 (by omega))
    rw [← spans_levels hmake, List.getElem?_map, hspan] at hget
    exact Option.some.inj hget
  · rintro ⟨span, hm, rfl, rfl, rfl⟩
    have hlevel : span.level ∈ h.levels := spans_levels hmake ▸ List.mem_map_of_mem hm
    obtain ⟨hlow, hhigh⟩ := Hierarchy.mem_levels.1 hlevel
    rw [owned_eq hmake hlow hhigh]
    obtain ⟨-, -, rfl⟩ := make_eq_ok_iff.1 hmake
    obtain ⟨offset, he⟩ := mem_layOut hm
    rw [he]
    rfl

variable (hfit : h.units id of < UInt64.size)
include hfit

theorem mem_busy : span ∈ plan.busy ↔ span ∈ plan.spans ∧ 0 < span.count := by
  rw [FillPlan.busy, List.mem_filter]
  refine and_congr_right fun hm => ?_
  rw [decide_eq_true_eq, ((plan_tiled hmake hfit).2.sound hm).units_pos_iff]

theorem busy_tiled : Tiled 0 plan.busy (h.units id of) := (plan_tiled hmake hfit).2.busy

theorem busy_pairwise : plan.busy.Pairwise fun x y => x.offset < y.offset := by
  refine (busy_tiled hmake hfit).pairwise.imp_of_mem fun hx _ hxy => ?_
  have hcount := ((mem_busy hmake hfit).1 hx).2
  rw [UInt64.lt_iff_toNat_lt]
  omega

theorem offset_head_busy {rest : List LevelSpan} (hbusy : plan.busy = span :: rest) :
    span.offset = 0 := by
  have htiled := busy_tiled hmake hfit
  rw [hbusy] at htiled
  cases htiled with
  | cons _ ho _ => exact UInt64.toNat_inj.1 ho

/-- Only the first of the spans with work begins with the first index. -/
theorem offset_pos_of_mem_tail (hm : span ∈ plan.busy.tail) : 0 < span.offset := by
  have hpairwise := busy_pairwise hmake hfit
  cases hbusy : plan.busy with
  | nil =>
    rw [hbusy] at hm
    cases hm
  | cons first rest =>
    rw [hbusy] at hm hpairwise
    exact offset_head_busy hmake hfit hbusy ▸ (List.pairwise_cons.1 hpairwise).1 span hm

theorem isLevelStart_iff_offset :
    plan.isLevelStart k ↔ 0 < k ∧ ∃ span ∈ plan.busy, span.offset = k := by
  obtain ⟨htotal, htiled⟩ := plan_tiled hmake hfit
  simp only [FillPlan.isLevelStart, Bool.and_eq_true, decide_eq_true_eq, List.any_eq_true,
    and_assoc]
  refine and_congr_right fun hpos => ?_
  constructor
  · rintro ⟨-, span, hm, hunits, hoffset⟩
    exact ⟨span, (mem_busy hmake hfit).2 ⟨hm, (htiled.sound hm).units_pos_iff.1 hunits⟩, hoffset⟩
  · rintro ⟨span, hbusy, hoffset⟩
    obtain ⟨hm, hcount⟩ := (mem_busy hmake hfit).1 hbusy
    have hends := (htiled.bounds hm).2
    refine ⟨?_, span, hm, (htiled.sound hm).units_pos_iff.2 hcount, hoffset⟩
    rw [UInt64.lt_iff_toNat_lt, htotal, ← hoffset]
    omega

/-- All spans with work but the first begin a level that follows another one. -/
theorem isLevelStart_iff_mem : plan.isLevelStart k ↔ k ∈ plan.busy.tail.map LevelSpan.offset := by
  rw [isLevelStart_iff_offset hmake hfit, List.mem_map]
  constructor
  · rintro ⟨hpos, span, hm, hoffset⟩
    cases hbusy : plan.busy with
    | nil =>
      rw [hbusy] at hm
      cases hm
    | cons first rest =>
      rw [hbusy] at hm
      rcases List.mem_cons.1 hm with rfl | hrest
      · rw [offset_head_busy hmake hfit hbusy] at hoffset
        exact absurd hoffset (UInt64.ne_of_lt hpos)
      · exact ⟨span, hrest, hoffset⟩
  · rintro ⟨span, hm, rfl⟩
    exact ⟨offset_pos_of_mem_tail hmake hfit hm, span, List.mem_of_mem_tail hm, rfl⟩

theorem starts_pairwise : (plan.busy.tail.map LevelSpan.offset).Pairwise (· < ·) :=
  List.pairwise_map.2 ((busy_pairwise hmake hfit).sublist (List.tail_sublist _))

theorem starts_nodup : (plan.busy.tail.map LevelSpan.offset).Nodup :=
  (starts_pairwise hmake hfit).imp fun hlt => UInt64.ne_of_lt hlt

theorem levelStarts_units :
    plan.levelStarts (h.units id of) = plan.busy.tail.map LevelSpan.offset := by
  have hword {k : Nat} (hk : k < h.units id of) : (UInt64.ofNat k).toNat = k :=
    UInt64.toNat_ofNat_of_lt' (hk.trans hfit)
  have hleft : (plan.levelStarts (h.units id of)).Pairwise (· < ·) := by
    refine List.Pairwise.filter _ (List.pairwise_map.2 ?_)
    refine List.pairwise_lt_range.imp_of_mem fun hj hk hjk => ?_
    rwa [UInt64.lt_iff_toNat_lt, hword (List.mem_range.1 hj), hword (List.mem_range.1 hk)]
  refine List.Pairwise.eq_of_mem_iff hleft (starts_pairwise hmake hfit) fun k => ?_
  rw [FillPlan.levelStarts, List.mem_filter, isLevelStart_iff_mem hmake hfit]
  refine and_iff_right_of_imp fun hk => ?_
  obtain ⟨span, hm, rfl⟩ := List.mem_map.1 hk
  have hcount := ((mem_busy hmake hfit).1 (List.mem_of_mem_tail hm)).2
  have hends := ((busy_tiled hmake hfit).bounds (List.mem_of_mem_tail hm)).2
  exact List.mem_map.2 ⟨span.offset.toNat, List.mem_range.2 (by omega), UInt64.ofNat_toNat⟩

theorem busy_levels : plan.busy.map LevelSpan.level = h.workLevels id of := by
  rw [FillPlan.busy, Hierarchy.workLevels, ← spans_levels hmake, List.filter_map]
  congr 1
  refine List.filter_congr fun span hm => ?_
  have hunits := ((plan_tiled hmake hfit).2.sound hm).units_pos_iff
  rw [count_of_mem hmake hm] at hunits
  exact decide_eq_decide.2 hunits

/-- The first index of a span with work leads to the row of its first group. -/
theorem address_offset (hm : span ∈ plan.busy) :
    plan.address span.offset = some ⟨span.level, span.start, 0⟩ := by
  obtain ⟨hm, hcount⟩ := (mem_busy hmake hfit).1 hm
  have hs := (plan_tiled hmake hfit).2.sound hm
  refine (address_eq_some_iff hmake hfit).2 ⟨span, hm, rfl, Nat.le_refl _, ?_, ?_, ?_⟩
  · exact UInt32.lt_iff_toNat_lt.1 (hs.count_pos_iff.1 hcount)
  · exact hs.unitsPerGroup_pos
  · simp

/-- No level begins past the units. -/
theorem isLevelStart_eq_false (hnone : plan.address k = none) : plan.isLevelStart k = false := by
  refine eq_false_of_ne_true fun hstart => ?_
  obtain ⟨-, span, hm, rfl⟩ := (isLevelStart_iff_offset hmake hfit).1 hstart
  rw [address_offset hmake hfit hm] at hnone
  cases hnone

theorem level_eq_iff_has (hm : span ∈ plan.spans) (ha : plan.address k = some a) :
    a.level = span.level ↔ span.Has k.toNat := by
  obtain ⟨other, hother, hholds⟩ := (address_eq_some_iff hmake hfit).1 ha
  constructor
  · intro hlevel
    obtain rfl := spans_eq_of_level hmake hother hm (hholds.level.symm.trans hlevel)
    exact hholds.has
  · intro hhas
    obtain rfl := (plan_tiled hmake hfit).2.has_unique hother hm hholds.has hhas
    exact hholds.level

theorem level_ne_of_offset (hm : span ∈ plan.busy) (hpos : 0 < span.offset) :
    ∃ b, plan.address (span.offset - 1) = some b ∧ span.level ≠ b.level := by
  obtain ⟨hm, hcount⟩ := (mem_busy hmake hfit).1 hm
  obtain ⟨htotal, htiled⟩ := plan_tiled hmake hfit
  have hends := (htiled.bounds hm).2
  rw [UInt64.lt_iff_toNat_lt, UInt64.toNat_zero] at hpos
  have hpred : (span.offset - 1).toNat = span.offset.toNat - 1 :=
    UInt64.toNat_sub_of_le _ _ (UInt64.le_iff_toNat_le.2 hpos)
  obtain ⟨other, hother, hhas⟩ :=
    htiled.exists_has (k := (span.offset - 1).toNat) (Nat.zero_le _) (by omega)
  refine ⟨_, (address_eq_some_iff hmake hfit).2
    ⟨other, hother, (htiled.sound hother).holds_addressAt hhas⟩, fun hlevel => ?_⟩
  obtain rfl := spans_eq_of_level hmake hm hother hlevel
  have := hhas.1
  omega

/-- Where the level changes a span begins: if it had begun before, the index before would be its. -/
theorem isLevelStart_of_level_ne {b : Address} (hpos : 0 < k) (ha : plan.address k = some a)
    (hb : plan.address (k - 1) = some b) (hne : a.level ≠ b.level) : plan.isLevelStart k := by
  obtain ⟨x, hx, hxa⟩ := (address_eq_some_iff hmake hfit).1 ha
  obtain ⟨y, hy, hyb⟩ := (address_eq_some_iff hmake hfit).1 hb
  have hpred : (k - 1).toNat = k.toNat - 1 := by
    rw [UInt64.lt_iff_toNat_lt, UInt64.toNat_zero] at hpos
    exact UInt64.toNat_sub_of_le _ _ (UInt64.le_iff_toNat_le.2 hpos)
  refine (isLevelStart_iff_offset hmake hfit).2
    ⟨hpos, x, (mem_busy hmake hfit).2 ⟨hx, hxa.has.count_pos⟩, ?_⟩
  obtain ⟨hbegun, hends⟩ := hxa.has
  by_contra hoffset
  have hless : x.offset.toNat ≠ k.toNat := fun he => hoffset (UInt64.toNat_inj.1 he)
  have hxk : x.Has (k - 1).toNat := ⟨by omega, by omega⟩
  obtain rfl := (plan_tiled hmake hfit).2.has_unique hx hy hxk hyb.has
  exact hne (hxa.level.trans hyb.level.symm)

theorem worksAt_iff : plan.WorksAt level ↔ level ∈ plan.busy.map LevelSpan.level := by
  simp only [FillPlan.WorksAt, owned_eq_some_iff hmake, List.mem_map, mem_busy hmake hfit]
  constructor
  · rintro ⟨_, _, ⟨span, hm, rfl, rfl, rfl⟩, hlt⟩
    exact ⟨span, ⟨hm, ((plan_tiled hmake hfit).2.sound hm).count_pos_iff.2 hlt⟩, rfl⟩
  · rintro ⟨span, ⟨hm, hcount⟩, rfl⟩
    exact ⟨_, _, ⟨span, hm, rfl, rfl, rfl⟩,
      ((plan_tiled hmake hfit).2.sound hm).count_pos_iff.1 hcount⟩

theorem encard_worksAt : {level | plan.WorksAt level}.encard = plan.busy.length := by
  have hlevels : {level | plan.WorksAt level} =
      ((plan.busy.map LevelSpan.level).toFinset : Set UInt16) := by
    ext level
    rw [List.coe_toFinset, Set.mem_ofPred_eq, Set.mem_ofPred_eq, worksAt_iff hmake hfit]
  have hnodup : (plan.busy.map LevelSpan.level).Nodup := by
    refine List.Nodup.sublist (List.filter_sublist.map _) ?_
    rw [spans_levels hmake]
    exact Hierarchy.levels_nodup
  rw [hlevels, Set.encard_coe_eq_coe_finsetCard, List.toFinset_card_of_nodup hnodup,
    List.length_map]

theorem encard_isLevelStart : {k | plan.isLevelStart k}.encard = (plan.busy.length - 1 : Nat) := by
  have hstarts : {k | plan.isLevelStart k} =
      ((plan.busy.tail.map LevelSpan.offset).toFinset : Set UInt64) := by
    ext k
    rw [List.coe_toFinset, Set.mem_ofPred_eq, Set.mem_ofPred_eq, isLevelStart_iff_mem hmake hfit]
  rw [hstarts, Set.encard_coe_eq_coe_finsetCard,
    List.toFinset_card_of_nodup (starts_nodup hmake hfit), List.length_map, List.length_tail]

theorem startsAtChanges : plan.StartsAtChanges where
  isLevelStart_iff := by
    intro k
    constructor
    · intro hstart
      obtain ⟨hpos, span, hm, rfl⟩ := (isLevelStart_iff_offset hmake hfit).1 hstart
      obtain ⟨b, hb, hne⟩ := level_ne_of_offset hmake hfit hm hpos
      exact ⟨hpos, _, b, address_offset hmake hfit hm, hb, hne⟩
    · rintro ⟨hpos, a, b, ha, hb, hne⟩
      exact isLevelStart_of_level_ne hmake hfit hpos ha hb hne
  address := by
    intro k hstart
    obtain ⟨-, span, hm, rfl⟩ := (isLevelStart_iff_offset hmake hfit).1 hstart
    obtain ⟨hspan, hcount⟩ := (mem_busy hmake hfit).1 hm
    have hs := (plan_tiled hmake hfit).2.sound hspan
    exact ⟨span.level, span.start, span.stop,
      (owned_eq_some_iff hmake).2 ⟨span, hspan, rfl, rfl, rfl⟩, hs.count_pos_iff.1 hcount,
      address_offset hmake hfit hm⟩
  count := by
    rw [encard_isLevelStart hmake hfit, encard_worksAt hmake hfit]
    exact ENat.natCast_sub _ _

end LevelStarts

/-- Every instance has a plan, and the level starts of the plan are the indices at which its level
changes. -/
theorem level_starts_at_changes {h : Hierarchy} {id of : UInt32} (hid : 1 ≤ id) (hof : id ≤ of)
    (hfit : h.units id of < UInt64.size) :
    ∃ plan, FillPlan.make h id of = .ok plan ∧ plan.StartsAtChanges := by
  have hne : id ≠ 0 := by
    rintro rfl
    exact absurd hid (by decide)
  have hmake := (make_eq_ok_iff (h := h)).2 ⟨hne, hof, rfl⟩
  exact ⟨_, hmake, startsAtChanges hmake hfit⟩

theorem gapped_level_starts_at_changes :
    (1 : UInt32) ≤ 1 ∧ (1 : UInt32) ≤ 2 ∧ gappedHierarchy.units 1 2 = 23 ∧
      ∃ plan, FillPlan.make gappedHierarchy 1 2 = .ok plan ∧ plan.StartsAtChanges ∧
        (List.range 24).filter (fun k => plan.isLevelStart (UInt64.ofNat k)) = [3, 11] := by
  have hunits : gappedHierarchy.units 1 2 = 23 := by decide +kernel
  have hfit : gappedHierarchy.units 1 2 < UInt64.size := hunits.symm ▸ (by decide)
  obtain ⟨plan, hmake, hstarts⟩ := level_starts_at_changes (by decide) (by decide) hfit
  refine ⟨by decide, by decide, hunits, plan, hmake, hstarts, ?_⟩
  obtain ⟨-, -, rfl⟩ := make_eq_ok_iff.1 hmake
  decide +kernel

end GroupBench
