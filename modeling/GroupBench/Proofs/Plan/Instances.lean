import Mathlib.Algebra.BigOperators.Fin
import Mathlib.Algebra.Order.BigOperators.Group.Finset
import Mathlib.Data.Set.Lattice
import Mathlib.Order.CompletePartialOrder
import GroupBench.Proofs.Plan.Addresses

/-! Instances that fill a hierarchy together. At every level their slices follow one another, so
each address is written by one of them and by no other. -/
namespace GroupBench

/-- The number of groups, out of `count`, that the first `k` of `of` instances own. -/
def cut (count of k : Nat) : Nat := count * k / of

section Cut
variable {count of k g : Nat}

theorem cut_zero : cut count of 0 = 0 := by
  rw [cut, Nat.mul_zero, Nat.zero_div]

theorem cut_self (count : Nat) (hof : 0 < of) : cut count of of = count := Nat.mul_div_cancel _ hof

theorem cut_mono (count of : Nat) : Monotone (cut count of) := by
  intro j k hjk
  exact Nat.div_le_div_right (Nat.mul_le_mul_left _ hjk)

theorem exists_cut {n : Nat} (hg : g < cut count of n) :
    ∃ k < n, cut count of k ≤ g ∧ g < cut count of (k + 1) := by
  induction n with
  | zero =>
    rw [cut_zero] at hg
    cases hg
  | succ n ih =>
    rcases Nat.lt_or_ge g (cut count of n) with hlt | hge
    · obtain ⟨k, hk, hcut⟩ := ih hlt
      exact ⟨k, Nat.lt_succ_of_lt hk, hcut⟩
    · exact ⟨n, Nat.lt_succ_self n, hge, hg⟩

theorem cut_eq (hof : 0 < of) (k : Nat) :
    cut count of k = count / of * k + count % of * k / of := by
  have hsplit : count * k = of * (count / of * k) + count % of * k := by
    rw [← Nat.mul_assoc, ← Nat.add_mul, Nat.div_add_mod]
  rw [cut, hsplit, Nat.mul_add_div hof]

/-- Every instance owns the quotient of the groups, rounded down or up. -/
theorem cut_succ_sub (hof : 0 < of) (k : Nat) :
    cut count of (k + 1) - cut count of k = count / of ∨
      cut count of (k + 1) - cut count of k = (count + of - 1) / of := by
  have hmod : count % of < of := Nat.mod_lt count hof
  have hlow : count % of * k / of ≤ (count % of * k + count % of) / of :=
    Nat.div_le_div_right (Nat.le_add_right ..)
  have hhigh : (count % of * k + count % of) / of ≤ count % of * k / of + 1 := by
    rw [← Nat.add_div_right _ hof]
    exact Nat.div_le_div_right (Nat.add_le_add_left (Nat.le_of_lt hmod) _)
  have hstep : cut count of (k + 1) - cut count of k =
      count / of + ((count % of * k + count % of) / of - count % of * k / of) := by
    rw [cut_eq hof, cut_eq hof, Nat.mul_succ, Nat.mul_succ]
    generalize count / of = quotient
    omega
  have hdivided := Nat.div_add_mod count of
  rcases Nat.eq_zero_or_pos (count % of) with hzero | hpos
  · left
    rw [hstep, hzero, Nat.zero_mul, Nat.add_zero, Nat.sub_self, Nat.add_zero]
  · have hceil : (count + of - 1) / of = count / of + 1 := by
      have hsplit : count + of - 1 = of * (count / of + 1) + (count % of - 1) := by
        rw [Nat.mul_succ]
        generalize count / of = quotient at hdivided ⊢
        omega
      have hless : (count % of - 1) / of = 0 := Nat.div_eq_of_lt (by omega)
      rw [hsplit, Nat.mul_add_div hof, hless]
    rw [hstep, hceil]
    generalize (count % of * k + count % of) / of = upper at hlow hhigh ⊢
    omega

theorem sum_cut (count : Nat) (hof : 0 < of) :
    ∑ k ∈ Finset.range of, (cut count of (k + 1) - cut count of k) = count := by
  rw [Finset.sum_range_tsub (cut_mono count of), cut_self count hof, cut_zero, Nat.sub_zero]

end Cut

/-- The number of the instance at a place, counted from zero. -/
def instanceAt (k : Nat) : UInt32 := UInt32.ofNat (k + 1)

section Instance
variable {h : Hierarchy} {id of : UInt32} {level : UInt16} {a : Address} {k : Nat}

theorem toNat_instanceAt (hk : k < of.toNat) : (instanceAt k).toNat = k + 1 := by
  have := of.toNat_lt
  rw [instanceAt, UInt32.toNat_ofNat', Nat.mod_eq_of_lt (by omega)]

theorem instanceAt_ne_zero (hk : k < of.toNat) : instanceAt k ≠ 0 := by
  intro hzero
  have := toNat_instanceAt hk
  rw [hzero] at this
  cases this

theorem instanceAt_le (hk : k < of.toNat) : instanceAt k ≤ of := by
  rw [UInt32.le_iff_toNat_le, toNat_instanceAt hk]
  exact hk

/-- Every instance that has a plan is at one of the places. -/
theorem exists_instanceAt {plan : FillPlan} (hmake : FillPlan.make h id of = .ok plan) :
    ∃ k < of.toNat, instanceAt k = id := by
  obtain ⟨hid, hof, -⟩ := make_eq_ok_iff.1 hmake
  have hpos : id.toNat ≠ 0 := fun hzero => hid (UInt32.toNat_inj.1 hzero)
  have hle : id.toNat ≤ of.toNat := UInt32.le_iff_toNat_le.1 hof
  refine ⟨id.toNat - 1, by omega, ?_⟩
  rw [instanceAt, Nat.sub_add_cancel (Nat.one_le_iff_ne_zero.2 hpos), UInt32.ofNat_toNat]

theorem slice_instanceAt (count : UInt32) (hk : k < of.toNat) :
    (slice count (instanceAt k) of).1.toNat = cut count.toNat of.toNat k ∧
      (slice count (instanceAt k) of).2.toNat = cut count.toNat of.toNat (k + 1) := by
  have hid := instanceAt_ne_zero hk
  have hof := instanceAt_le hk
  rw [slice_start_toNat hid hof, slice_stop_toNat hid hof, toNat_instanceAt hk]
  exact ⟨rfl, rfl⟩

theorem owns_instanceAt (hk : k < of.toNat) : h.Owns (instanceAt k) of a ↔
    (1 ≤ a.level ∧ a.level ≤ h.levelCount ∧ a.slot ≤ h.memberSlots a.level) ∧
      cut (h.groupCount a.level).toNat of.toNat k ≤ a.group.toNat ∧
      a.group.toNat < cut (h.groupCount a.level).toNat of.toNat (k + 1) := by
  obtain ⟨hstart, hstop⟩ := slice_instanceAt (h.groupCount a.level) hk
  rw [Hierarchy.Owns, UInt32.le_iff_toNat_le (b := a.group), UInt32.lt_iff_toNat_lt, hstart, hstop]
  tauto

/-- An instance that works alone owns every group. -/
theorem owns_alone : h.Owns 1 1 a ↔
    (1 ≤ a.level ∧ a.level ≤ h.levelCount ∧ a.slot ≤ h.memberSlots a.level) ∧
      a.group < h.groupCount a.level := by
  have hone : 0 < (1 : UInt32).toNat := Nat.zero_lt_one
  have hcut := cut_self (h.groupCount a.level).toNat hone
  have howns := owns_instanceAt (h := h) (a := a) hone
  rw [cut_zero] at howns
  change h.Owns 1 1 a ↔ _ ∧ _ ∧ _ < cut _ (1 : UInt32).toNat (1 : UInt32).toNat at howns
  rw [hcut, ← UInt32.lt_iff_toNat_lt] at howns
  simpa using howns

/-- Each address of the hierarchy is owned by an instance. -/
theorem owns_alone_iff (hof : 1 ≤ of) :
    h.Owns 1 1 a ↔ ∃ k < of.toNat, h.Owns (instanceAt k) of a := by
  rw [owns_alone]
  constructor
  · rintro ⟨hinside, hgroup⟩
    rw [UInt32.lt_iff_toNat_lt, ← cut_self (h.groupCount a.level).toNat hof] at hgroup
    obtain ⟨k, hk, hcut⟩ := exists_cut hgroup
    exact ⟨k, hk, (owns_instanceAt hk).2 ⟨hinside, hcut⟩⟩
  · rintro ⟨k, hk, howns⟩
    obtain ⟨hinside, -, hlt⟩ := (owns_instanceAt hk).1 howns
    refine ⟨hinside, UInt32.lt_iff_toNat_lt.2 (Nat.lt_of_lt_of_le hlt ?_)⟩
    calc cut (h.groupCount a.level).toNat of.toNat (k + 1)
        ≤ cut (h.groupCount a.level).toNat of.toNat of.toNat := cut_mono _ _ hk
      _ = (h.groupCount a.level).toNat := cut_self _ hof

/-- No address is owned by two instances. -/
theorem owns_unique {j : Nat} (hj : j < of.toNat) (hk : k < of.toNat)
    (howns : h.Owns (instanceAt j) of a) (howns' : h.Owns (instanceAt k) of a) : j = k := by
  obtain ⟨-, hle, hlt⟩ := (owns_instanceAt hj).1 howns
  obtain ⟨-, hle', hlt'⟩ := (owns_instanceAt hk).1 howns'
  have hapart {i i' : Nat} (hless : i < i') :
      cut (h.groupCount a.level).toNat of.toNat (i + 1) ≤
        cut (h.groupCount a.level).toNat of.toNat i' := cut_mono _ _ hless
  rcases Nat.lt_trichotomy j k with hless | he | hless
  · have := hapart hless
    omega
  · exact he
  · have := hapart hless
    omega

theorem levelUnits_instanceAt (level : UInt16) (hk : k < of.toNat) :
    h.levelUnits (instanceAt k) of level =
      (cut (h.groupCount level).toNat of.toNat (k + 1) -
        cut (h.groupCount level).toNat of.toNat k) * ((h.memberSlots level).toNat + 1) := by
  obtain ⟨hstart, hstop⟩ := slice_instanceAt (h.groupCount level) hk
  rw [Hierarchy.levelUnits, hstart, hstop]

/-- The writes of all instances taken together are those of one that works alone. -/
theorem sum_units (hof : 1 ≤ of) :
    ∑ k ∈ Finset.range of.toNat, h.units (instanceAt k) of = h.units 1 1 := by
  have hlevel (level : UInt16) : ∑ k ∈ Finset.range of.toNat, h.levelUnits (instanceAt k) of level =
      h.levelUnits 1 1 level := by
    have hone : 0 < (1 : UInt32).toNat := Nat.zero_lt_one
    have halone := levelUnits_instanceAt (h := h) level hone
    change h.levelUnits 1 1 level = (cut _ (1 : UInt32).toNat (1 : UInt32).toNat - _) * _ at halone
    rw [cut_self _ hone, cut_zero, Nat.sub_zero] at halone
    rw [halone, ← sum_cut (h.groupCount level).toNat hof, Finset.sum_mul]
    exact Finset.sum_congr rfl fun k hk => levelUnits_instanceAt level (Finset.mem_range.1 hk)
  unfold Hierarchy.units
  induction h.levels with
  | nil => simp
  | cons level rest ih =>
    simp only [List.map_cons, List.sum_cons, Finset.sum_add_distrib, ih, hlevel]

theorem units_instanceAt_le (hk : k < of.toNat) : h.units (instanceAt k) of ≤ h.units 1 1 := by
  have hof : 1 ≤ of := UInt32.le_iff_toNat_le.2 (Nat.zero_lt_of_lt hk)
  rw [← sum_units hof]
  exact Finset.single_le_sum (f := fun k => h.units (instanceAt k) of) (fun _ _ => Nat.zero_le _)
    (Finset.mem_range.2 hk)

theorem getElem?_levels (hlow : 1 ≤ level) (hhigh : level ≤ h.levelCount) :
    h.levels[level.toNat - 1]? = some level := by
  have hone : 1 ≤ level.toNat := UInt16.le_iff_toNat_le.1 hlow
  have hlast : level.toNat ≤ h.levelCount.toNat := UInt16.le_iff_toNat_le.1 hhigh
  rw [Hierarchy.levels, levelRange, List.getElem?_map, List.getElem?_range' (by omega)]
  simp [Nat.add_sub_of_le hone]

/-- The groups that an instance owns at a level. -/
theorem owned_eq {plan : FillPlan} (hmake : FillPlan.make h id of = .ok plan) (hlow : 1 ≤ level)
    (hhigh : level ≤ h.levelCount) :
    plan.owned level = some (slice (h.groupCount level) id of) := by
  obtain ⟨-, -, rfl⟩ := make_eq_ok_iff.1 hmake
  have hget := getElem?_levels hlow hhigh
  rw [← layOut_levels h id of 0 h.levels, List.getElem?_map, Option.map_eq_some_iff] at hget
  obtain ⟨span, hspan, rfl⟩ := hget
  obtain ⟨start, he⟩ := mem_layOut (List.mem_of_getElem? hspan)
  have hne : span.level ≠ 0 := by
    rintro hzero
    rw [hzero] at hlow
    exact absurd hlow (by decide)
  rw [FillPlan.owned, if_neg hne, hspan, he]
  rfl

end Instance

/-- The addresses that a plan leads to. -/
def FillPlan.addresses (plan : FillPlan) : Set Address := {a | ∃ k, plan.address k = some a}

/-- Slices of `count` groups that follow one another from the first group to the last, each of the
quotient rounded down or up. -/
structure SlicesInTurn (count of : Nat) (slices : Nat → Option (UInt32 × UInt32)) : Prop where
  inTurn : ∃ bound : Nat → Nat, bound 0 = 0 ∧ bound of = count ∧ ∀ k < of, ∃ start stop,
    slices k = some (start, stop) ∧ start.toNat = bound k ∧ stop.toNat = bound (k + 1) ∧
      start ≤ stop
  balanced : ∀ k < of, ∀ start stop, slices k = some (start, stop) →
    stop.toNat - start.toNat = count / of ∨ stop.toNat - start.toNat = (count + of - 1) / of

/-- Plans that share the work of a hierarchy out: no two of them lead to the same address, and
together they lead where the plan of an instance that works alone does, which is everywhere in the
hierarchy. -/
structure SharesOut (h : Hierarchy) (of : UInt32) (whole : FillPlan) (part : Nat → FillPlan) :
    Prop where
  everywhere : whole.addresses = {a | h.Owns 1 1 a}
  disjoint : ∀ j < of.toNat, ∀ k < of.toNat, j ≠ k →
    Disjoint (part j).addresses (part k).addresses
  union : ⋃ k < of.toNat, (part k).addresses = whole.addresses
  total : ∑ k ∈ Finset.range of.toNat, (part k).totalUnits.toNat = whole.totalUnits.toNat
  slices : ∀ level, 1 ≤ level → level ≤ h.levelCount →
    SlicesInTurn (h.groupCount level).toNat of.toNat fun k => (part k).owned level

section SharesOut
variable {h : Hierarchy} {id of : UInt32} {plan : FillPlan}

theorem make_eq_error_iff :
    (∃ fault, FillPlan.make h id of = .error fault) ↔ ¬ (1 ≤ id ∧ id ≤ of) := by
  rw [one_le_iff_ne_zero]
  constructor
  · rintro ⟨fault, hfault⟩ ⟨hid, hof⟩
    rw [make_eq_ok_iff.2 ⟨hid, hof, rfl⟩] at hfault
    cases hfault
  · intro houtside
    cases hmake : FillPlan.make h id of with
    | error fault => exact ⟨fault, rfl⟩
    | ok plan =>
      obtain ⟨hid, hof, -⟩ := make_eq_ok_iff.1 hmake
      exact (houtside ⟨hid, hof⟩).elim

theorem addresses_eq (hmake : FillPlan.make h id of = .ok plan)
    (hfit : h.units id of < UInt64.size) : plan.addresses = {a | h.Owns id of a} := by
  ext a
  exact (owns_iff_exists_index hmake hfit).symm

theorem slicesInTurn {part : Nat → FillPlan} {level : UInt16} (hof : 1 ≤ of) (hlow : 1 ≤ level)
    (hhigh : level ≤ h.levelCount)
    (hpart : ∀ k < of.toNat, FillPlan.make h (instanceAt k) of = .ok (part k)) :
    SlicesInTurn (h.groupCount level).toNat of.toNat fun k => (part k).owned level where
  inTurn := by
    refine ⟨cut (h.groupCount level).toNat of.toNat, cut_zero, cut_self _ hof, fun k hk => ?_⟩
    obtain ⟨hstart, hstop⟩ := slice_instanceAt (h.groupCount level) hk
    refine ⟨_, _, owned_eq (hpart k hk) hlow hhigh, hstart, hstop, ?_⟩
    exact slice_start_le_stop (instanceAt_ne_zero hk) (instanceAt_le hk)
  balanced := by
    intro k hk start stop howned
    obtain ⟨hstart, hstop⟩ := slice_instanceAt (h.groupCount level) hk
    rw [owned_eq (hpart k hk) hlow hhigh, Option.some.injEq] at howned
    rw [howned] at hstart hstop
    rw [hstart, hstop]
    exact cut_succ_sub hof k

theorem sharesOut {whole : FillPlan} {part : Nat → FillPlan} (hfit : h.units 1 1 < UInt64.size)
    (hof : 1 ≤ of) (hwhole : FillPlan.make h 1 1 = .ok whole)
    (hpart : ∀ k < of.toNat, FillPlan.make h (instanceAt k) of = .ok (part k)) :
    SharesOut h of whole part := by
  have hfits (k : Nat) (hk : k < of.toNat) : h.units (instanceAt k) of < UInt64.size :=
    Nat.lt_of_le_of_lt (units_instanceAt_le hk) hfit
  have heverywhere := addresses_eq hwhole hfit
  refine ⟨heverywhere, ?_, ?_, ?_, fun level hlow hhigh => slicesInTurn hof hlow hhigh hpart⟩
  · intro j hj k hk hne
    rw [addresses_eq (hpart j hj) (hfits j hj), addresses_eq (hpart k hk) (hfits k hk),
      Set.disjoint_left]
    intro a howns howns'
    exact hne (owns_unique hj hk howns howns')
  · ext a
    rw [heverywhere, Set.mem_iUnion₂, Set.mem_ofPred_eq, owns_alone_iff hof]
    constructor
    · rintro ⟨k, hk, ha⟩
      rw [addresses_eq (hpart k hk) (hfits k hk)] at ha
      exact ⟨k, hk, ha⟩
    · rintro ⟨k, hk, howns⟩
      refine ⟨k, hk, ?_⟩
      rw [addresses_eq (hpart k hk) (hfits k hk)]
      exact howns
  · rw [(plan_tiled hwhole hfit).1, ← sum_units hof]
    refine Finset.sum_congr rfl fun k hk => ?_
    have hk := Finset.mem_range.1 hk
    exact (plan_tiled (hpart k hk) (hfits k hk)).1

/-- However many instances there are, their plans share the hierarchy out among them, and an
instance has a plan just if it is one of them. -/
theorem instances_share_out (hfit : h.units 1 1 < UInt64.size) (hof : 1 ≤ of) :
    (∀ (other : Hierarchy) (id count : UInt32),
        (∃ fault, FillPlan.make other id count = .error fault) ↔ ¬ (1 ≤ id ∧ id ≤ count)) ∧
      ∃ whole part, FillPlan.make h 1 1 = .ok whole ∧
        (∀ k < of.toNat, FillPlan.make h (instanceAt k) of = .ok (part k)) ∧
          SharesOut h of whole part := by
  have hwhole := make_eq_ok_iff (h := h).2 ⟨(by decide : (1 : UInt32) ≠ 0), UInt32.le_refl 1, rfl⟩
  have hpart (k : Nat) (hk : k < of.toNat) :=
    make_eq_ok_iff (h := h).2 ⟨instanceAt_ne_zero hk, instanceAt_le hk, rfl⟩
  exact ⟨fun _ _ _ => make_eq_error_iff, _, _, hwhole, hpart, sharesOut hfit hof hwhole hpart⟩

/-- Three levels that five instances cannot share without some of them owning nothing of one. -/
def unevenHierarchy : Hierarchy where
  levelCount := 3
  groupCount level := if level = 1 then 3 else if level = 2 then 4 else 6
  leafMemberCount _ := 2
  subgroupCount level := if level ≤ 1 then 0 else 2
  userPoolSize := 3
  subgroupCount_low _ hlow := if_pos hlow

theorem uneven_instances_share_out :
    unevenHierarchy.units 1 1 = 59 ∧
      (∀ (other : Hierarchy) (id count : UInt32),
        (∃ fault, FillPlan.make other id count = .error fault) ↔ ¬ (1 ≤ id ∧ id ≤ count)) ∧
      ∃ whole part, FillPlan.make unevenHierarchy 1 1 = .ok whole ∧
        (∀ k < (5 : UInt32).toNat, FillPlan.make unevenHierarchy (instanceAt k) 5 = .ok (part k)) ∧
          SharesOut unevenHierarchy 5 whole part := by
  have hunits : unevenHierarchy.units 1 1 = 59 := by decide +kernel
  have hfit : unevenHierarchy.units 1 1 < UInt64.size := hunits.symm ▸ (by decide)
  exact ⟨hunits, instances_share_out hfit (by decide)⟩

end SharesOut

end GroupBench
