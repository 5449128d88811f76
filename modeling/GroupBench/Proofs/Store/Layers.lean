import Mathlib.Algebra.BigOperators.Intervals
import Mathlib.Algebra.Order.BigOperators.Group.List
import Mathlib.Algebra.Order.BigOperators.Group.LocallyFinite
import Mathlib.Order.Interval.Finset.Nat
import GroupBench.Proofs.Resolve.BreadthFirst
import GroupBench.Proofs.Store.Complete

/-! How wide and how deep a filled store is below a group. A group has no more subgroups than slots
for them and each of them is one level down, so the layers of a traversal are bounded by the
products of the slots and end with the first level. -/
namespace GroupBench

namespace Hierarchy
variable (h : Hierarchy)

/-- The address is a subgroup slot of the group. -/
def isSlotOf (group : GroupId) (a : Address) : Bool :=
  .ofPosition a.level a.group = group && h.isSubgroupSlot a.level a.slot

/-- Subgroup slots of a group of the `l`-th level. -/
def fanOut (l : Nat) : Nat := (h.subgroupCount (UInt16.ofNat l)).toNat

/-- The identifier is of a group of the `l`-th level. -/
def AtLevel (l : Nat) (id : GroupId) : Prop :=
  ∃ level number, id = .encode level number ∧ h.HasGroup level number ∧ level.toNat = l

variable {h} {l : Nat} {group : GroupId}

theorem AtLevel.pos (hg : h.AtLevel l group) : 1 ≤ l := by
  obtain ⟨level, number, -, hgroup, rfl⟩ := hg
  exact UInt16.le_iff_toNat_le.1 hgroup.level_pos

end Hierarchy

namespace Store
variable {h : Hierarchy} {l : Nat} {root group member : GroupId} {s t : Store} {a : Address}
  {written : List Address}

/-- Subgroups are one level down. -/
theorem WellFormed.atLevel (hs : WellFormed h s) (hg : h.AtLevel l group)
    (hedge : s.HasSubgroup group member) : ∃ below, l = below + 1 ∧ h.AtLevel below member := by
  obtain ⟨level, number, rfl, hgroup, rfl⟩ := hg
  obtain ⟨level', number', hid, -, hallowed⟩ := hs.edges _ _ _ hedge
  have hlevel := congrArg GroupId.level hid
  rw [GroupId.level_encode, GroupId.level_encode] at hlevel
  subst hlevel
  cases hallowed with
  | subgroup number'' hone hlow hle =>
    have hbelow : (level - 1).toNat = level.toNat - 1 :=
      UInt16.toNat_sub_of_le _ _ (UInt16.le_of_lt hone)
    have hle := UInt16.le_iff_toNat_le.1 hgroup.level_le
    rw [UInt16.lt_iff_toNat_lt, UInt16.toNat_one] at hone
    refine ⟨level.toNat - 1, by omega, level - 1, number'', rfl, ⟨?_, ?_, hlow, ‹_›⟩, hbelow⟩
    · rw [UInt16.le_iff_toNat_le, hbelow, UInt16.toNat_one]
      omega
    · rw [UInt16.le_iff_toNat_le, hbelow]
      omega

/-- A write adds at most one subgroup to a group, and only at one of its subgroup slots. -/
theorem Takes.length_subgroupsOf (ht : Takes h s a t) (group : GroupId) :
    (t.subgroupsOf group).length ≤
      (s.subgroupsOf group).length + if h.isSlotOf group a then 1 else 0 := by
  cases ht with
  | row => exact Nat.le_add_right _ _
  | edge member kind _ _ hkind =>
    by_cases hslot : h.isSlotOf group a
    · rw [if_pos hslot, ← List.length_cons (a := member)]
      refine (List.subperm_of_subset (subgroupsOf_nodup _ group) fun id hid => ?_).length_le
      rw [mem_subgroupsOf] at hid
      rcases s.hasSubgroup_link hid with ⟨-, rfl, -⟩ | hold
      · exact List.mem_cons_self
      · exact List.mem_cons_of_mem _ (s.mem_subgroupsOf.2 hold)
    · rw [if_neg hslot, Nat.add_zero]
      refine (List.subperm_of_subset (subgroupsOf_nodup _ group) fun id hid => ?_).length_le
      rw [mem_subgroupsOf] at hid ⊢
      refine (s.hasSubgroup_link hid).resolve_left ?_
      rintro ⟨rfl, -, hsub⟩
      exact hslot (Bool.and_eq_true_iff.2 ⟨decide_eq_true rfl, hkind.1 hsub⟩)

theorem Built.length_subgroupsOf (hb : Built h written s) (group : GroupId) :
    (s.subgroupsOf group).length ≤ written.countP (h.isSlotOf group) := by
  induction hb with
  | empty => simp [subgroupsOf, subgroupsIn, membersOf]
  | write _ _ ht ih =>
    rw [List.countP_cons]
    exact (ht.length_subgroupsOf group).trans (Nat.add_le_add_right ih _)

/-- Addresses of subgroup slots that are all different are no more than the slots. -/
theorem countP_isSlotOf_le (hnodup : written.Nodup) (level : UInt16) (number : UInt32) :
    written.countP (h.isSlotOf (.encode level number)) ≤ (h.subgroupCount level).toNat := by
  have hmem (a : Address) (ha : a ∈ written.filter (h.isSlotOf (.encode level number))) :
      a.level = level ∧ a.group + 1 = number ∧ h.leafMemberCount level < a.slot ∧
        a.slot ≤ h.memberSlots level := by
    obtain ⟨hid, hslot⟩ := Bool.and_eq_true_iff.1 (List.mem_filter.1 ha).2
    have hid := of_decide_eq_true hid
    have hlevel := congrArg GroupId.level hid
    have hnumber := congrArg GroupId.number hid
    rw [GroupId.ofPosition, GroupId.level_encode, GroupId.level_encode] at hlevel
    rw [GroupId.ofPosition, GroupId.number_encode, GroupId.number_encode] at hnumber
    obtain ⟨-, hslot⟩ := Hierarchy.isSubgroupSlot_iff.1 hslot
    rw [hlevel] at hslot
    exact ⟨hlevel, hnumber, hslot⟩
  have hslots : ((written.filter (h.isSlotOf (.encode level number))).map
      fun a => a.slot.toNat).Nodup := by
    refine List.Nodup.map_on (fun a ha b hb heq => ?_) (hnodup.filter _)
    obtain ⟨hlevel, hnumber, -⟩ := hmem a ha
    obtain ⟨hlevel', hnumber', -⟩ := hmem b hb
    obtain ⟨level, group, slot⟩ := a
    obtain ⟨level', group', slot'⟩ := b
    dsimp only at hlevel hlevel' hnumber hnumber' heq
    rw [hlevel, hlevel', (UInt32.add_left_inj 1).1 (hnumber.trans hnumber'.symm),
      UInt32.toNat_inj.1 heq]
  have hrange : (written.filter (h.isSlotOf (.encode level number))).map (fun a => a.slot.toNat) ⊆
      List.range' ((h.leafMemberCount level).toNat + 1) (h.subgroupCount level).toNat := by
    intro slot hslot
    obtain ⟨a, ha, rfl⟩ := List.mem_map.1 hslot
    obtain ⟨-, -, hlow, hhigh⟩ := hmem a ha
    rw [UInt32.lt_iff_toNat_lt] at hlow
    rw [UInt32.le_iff_toNat_le, Hierarchy.memberSlots, toNat_saturatingAdd] at hhigh
    rw [List.mem_range'_1]
    omega
  have hle := (List.subperm_of_subset hslots hrange).length_le
  rwa [List.length_map, List.length_range', ← List.countP_eq_length_filter] at hle

theorem Built.length_subgroupsOf_le (hb : Built h written s) (hnodup : written.Nodup)
    (hg : h.AtLevel l group) : (s.subgroupsOf group).length ≤ h.fanOut l := by
  obtain ⟨level, number, rfl, -, rfl⟩ := hg
  rw [Hierarchy.fanOut, UInt16.ofNat_toNat]
  exact (hb.length_subgroupsOf _).trans (countP_isSlotOf_le hnodup level number)

/-- The layers go down level by level. -/
theorem WellFormed.atLevel_of_mem_layer (hs : WellFormed h s) (hroot : h.AtLevel l root) {k : Nat}
    (hmem : group ∈ s.expand^[k] [root]) : ∃ below, l = below + k ∧ h.AtLevel below group := by
  induction k generalizing group with
  | zero => exact ⟨l, rfl, List.mem_singleton.1 hmem ▸ hroot⟩
  | succ k ih =>
    rw [Function.iterate_succ_apply'] at hmem
    obtain ⟨via, hvia, hgroup⟩ := List.mem_flatMap.1 hmem
    obtain ⟨above, rfl, habove⟩ := ih hvia
    obtain ⟨below, rfl, hbelow⟩ := hs.atLevel habove (s.mem_subgroupsOf.1 hgroup)
    exact ⟨below, by omega, hbelow⟩

theorem WellFormed.layer_eq_nil (hs : WellFormed h s) (hroot : h.AtLevel l root) :
    s.expand^[l] [root] = [] := by
  refine List.eq_nil_iff_forall_not_mem.2 fun group hmem => ?_
  obtain ⟨below, hl, hbelow⟩ := hs.atLevel_of_mem_layer hroot hmem
  have := hbelow.pos
  omega

/-- Each layer is at most as many times wider than the one before as its groups have slots. -/
theorem Built.length_layer_le (hb : Built h written s) (hnodup : written.Nodup)
    (hroot : h.AtLevel l root) {k : Nat} (hk : k ≤ l) :
    (s.expand^[k] [root]).length ≤ ∏ i ∈ Finset.Icc (l - k + 1) l, h.fanOut i := by
  induction k with
  | zero =>
    rw [Finset.Icc_eq_empty (by omega)]
    exact le_rfl
  | succ k ih =>
    have hsplit : h.fanOut (l - k) * ∏ i ∈ Finset.Icc (l - k + 1) l, h.fanOut i =
        ∏ i ∈ Finset.Icc (l - (k + 1) + 1) l, h.fanOut i := by
      have hfirst : l - (k + 1) + 1 = l - k := by omega
      rw [hfirst, Finset.Icc_add_one_left_eq_Ioc, Finset.mul_prod_Ioc_eq_prod_Icc (Nat.sub_le l k)]
    rw [Function.iterate_succ_apply', expand, List.length_flatMap, ← hsplit, Nat.mul_comm]
    have hgroups (n : Nat) (hn : n ∈ (s.expand^[k] [root]).map fun g => (s.subgroupsOf g).length) :
        n ≤ h.fanOut (l - k) := by
      obtain ⟨group, hmem, rfl⟩ := List.mem_map.1 hn
      obtain ⟨below, rfl, hbelow⟩ := hb.wellFormed.atLevel_of_mem_layer hroot hmem
      rw [Nat.add_sub_cancel]
      exact hb.length_subgroupsOf_le hnodup hbelow
    have hsum := List.sum_le_card_nsmul _ _ hgroups
    rw [List.length_map, smul_eq_mul] at hsum
    exact hsum.trans (Nat.mul_le_mul_right _ (ih (Nat.le_of_succ_le hk)))

theorem length_layers_below (l : Nat) : (s.expand (s.layers l [root])).length =
    ∑ k ∈ Finset.range l, (s.expand^[k + 1] [root]).length := by
  rw [expand_layers, List.length_flatMap]
  rfl

/-- Entries of all layers below the root. -/
theorem Built.sum_layers_le (hb : Built h written s) (hnodup : written.Nodup)
    (hroot : h.AtLevel l root) : (s.expand (s.layers l [root])).length ≤
      ∑ k ∈ Finset.Icc 2 l, ∏ i ∈ Finset.Icc k l, h.fanOut i := by
  obtain ⟨l, rfl⟩ := Nat.exists_eq_succ_of_ne_zero (Nat.ne_of_gt hroot.pos)
  rw [length_layers_below, Finset.sum_range_succ, hb.wellFormed.layer_eq_nil hroot,
    List.length_nil, Nat.add_zero]
  calc ∑ k ∈ Finset.range l, (s.expand^[k + 1] [root]).length
      ≤ ∑ k ∈ Finset.range l, ∏ i ∈ Finset.Icc (l + 1 - (k + 1) + 1) (l + 1), h.fanOut i :=
        Finset.sum_le_sum fun k hk =>
          hb.length_layer_le hnodup hroot (by rw [Finset.mem_range] at hk; omega)
    _ = ∑ k ∈ Finset.Icc 2 (l + 1), ∏ i ∈ Finset.Icc k (l + 1), h.fanOut i := by
        -- The layers count from the root down and the levels from the bottom up.
        refine Finset.sum_nbij' (fun k => l + 1 - k) (fun k => l + 1 - k) ?_ ?_ ?_ ?_ ?_
        all_goals
          intro k hk
          simp only [Finset.mem_range, Finset.mem_Icc] at hk ⊢
        · omega
        · omega
        · omega
        · omega
        · have hfirst : l + 1 - (k + 1) + 1 = l + 1 - k := by omega
          rw [hfirst]

/-- Where every group above the first level has a subgroup, a path leads down to the first level. -/
theorem exists_path_down (hs : WellFormed h s)
    (hsub : ∀ l group, 2 ≤ l → h.AtLevel l group → ∃ member, s.HasSubgroup group member)
    (hg : h.AtLevel l group) :
    ∃ path, path.length + 1 = l ∧ (group :: path).IsChain s.HasSubgroup := by
  induction l generalizing group with
  | zero => exact absurd hg.pos (by decide)
  | succ l ih =>
    rcases Nat.eq_zero_or_pos l with rfl | hpos
    · exact ⟨[], rfl, List.isChain_singleton group⟩
    · obtain ⟨member, hedge⟩ := hsub (l + 1) group (Nat.succ_le_succ hpos) hg
      obtain ⟨below, hl, hmember⟩ := hs.atLevel hg hedge
      obtain rfl := Nat.succ.inj hl
      obtain ⟨path, hlen, hchain⟩ := ih hmember
      exact ⟨member :: path, congrArg Nat.succ hlen, List.isChain_cons_cons.2 ⟨hedge, hchain⟩⟩

/-- A path keeps every layer that it goes through from being empty. -/
theorem length_path_le {path : List GroupId} (hchain : (root :: path).IsChain s.HasSubgroup)
    (hl : path.length < l) : path.length ≤ (s.expand (s.layers l [root])).length := by
  have hlast : s.expand^[path.length] [root] ≠ [] := layer_ne_nil_iff.2 ⟨path, rfl, hchain⟩
  have hlayer (k : Nat) (hk : k ∈ Finset.range path.length) :
      1 ≤ (s.expand^[k + 1] [root]).length := by
    rw [Finset.mem_range] at hk
    refine List.length_pos_iff.2 fun hnil => hlast ?_
    exact layer_eq_nil_of_le hnil hk
  rw [length_layers_below]
  calc path.length = ∑ _k ∈ Finset.range path.length, 1 := by simp
    _ ≤ ∑ k ∈ Finset.range path.length, (s.expand^[k + 1] [root]).length :=
      Finset.sum_le_sum hlayer
    _ ≤ ∑ k ∈ Finset.range l, (s.expand^[k + 1] [root]).length :=
      Finset.sum_le_sum_of_subset (Finset.range_subset_range.2 hl.le)

end Store

end GroupBench
