import GroupBench.Proofs.Fill.Once
import GroupBench.Proofs.Hierarchy.Refusals
import GroupBench.Proofs.Resolve.Bounds
import GroupBench.Proofs.Select.Report

/-! Fill, then select. Whatever hierarchy passes the check, once it has been filled every top-level
group is resolved, and the jobs are as large as the counts of the hierarchy allow and no larger. -/
namespace GroupBench

theorem HierarchyConfig.Accepted.hasRoom {power : Power} {c : HierarchyConfig}
    (hpower : power.Lawful) (hc : c.Accepted power) : (c.hierarchy power).HasRoom :=
  fun _ hlow hle => leafMembers_lt hpower hc hlow hle

/-- Lookups of the in-process store leave it as it is. -/
theorem Backend.readOnly_memory {ρ : Type} (h : Hierarchy) (source : WordSource ρ)
    (pageSize limit : Nat) (s : Store) :
    (Backend.memory h source pageSize limit).ReadOnly (s.lookup pageSize) fun t => t.store = s where
  answers _ ht batch := congrArg (fun s : Store => s.lookup pageSize batch) ht
  stays _ ht _ := ht

theorem Backend.readOnly_null : Backend.null.ReadOnly (fun _ => .ok []) fun _ => True :=
  ⟨fun _ _ _ => rfl, fun _ _ _ => trivial⟩

theorem Hierarchy.atLevel_of_mem_topLevelGroups {h : Hierarchy} (hlevels : 1 ≤ h.levelCount)
    {n : Nat} {root : GroupId} (hroot : root ∈ h.topLevelGroups n) :
    h.AtLevel h.levelCount.toNat root := by
  rw [topLevelGroups_eq_take] at hroot
  obtain ⟨number, rfl, hlow, hle⟩ := mem_groupIds.1 (List.mem_of_mem_take hroot)
  exact ⟨h.levelCount, number, rfl, ⟨hlevels, UInt16.le_refl _, hlow, hle⟩, rfl⟩

namespace Select

/-- Runs over this store end, with a job for every top-level group. No job fails, and each of them
has resolved its group within the bounds of the hierarchy. -/
structure Completes {σ : Type} (setup : Setup σ) (store : σ) : Prop where
  jobs : ∃ jobs : GroupId → Job, Reports setup (fun root => .ok (jobs root)) store ∧
    ∀ root ∈ setup.hierarchy.topLevelGroups setup.totalJobs,
      (Job.start root).EndsWith setup.backend store (.ok (jobs root)) ∧
        (jobs root).Bounded setup.hierarchy
  report : ∀ earlier run, (setup.after run (setup.storeAfter earlier store)).isDone →
    (setup.outcome run (setup.storeAfter earlier store)).report.groups =
        (setup.hierarchy.groupCount setup.hierarchy.levelCount).toNat ∧
      (setup.outcome run (setup.storeAfter earlier store)).report.jobs =
        (setup.hierarchy.groupCount setup.hierarchy.levelCount).toNat ∧
      (setup.outcome run (setup.storeAfter earlier store)).report.failures = 0

/-- Where every group resolves, there are as many jobs as groups. -/
theorem SumsUp.counts {roots : List GroupId} {jobs : GroupId → Job} {r : Report}
    (h : SumsUp roots (fun root => .ok (jobs root)) r) :
    r.groups = roots.length ∧ r.jobs = roots.length ∧ r.failures = 0 := by
  refine ⟨h.groups, h.jobs.trans ?_, h.failures.trans ?_⟩
  · rw [← List.length_map (f := fun root => (Except.ok (jobs root) : Except StoreFault Job)),
      List.countP_eq_length]
    intro outcome houtcome
    obtain ⟨root, -, rfl⟩ := List.mem_map.1 houtcome
    rfl
  · rw [List.countP_eq_zero]
    intro outcome houtcome
    obtain ⟨root, -, rfl⟩ := List.mem_map.1 houtcome
    exact Bool.false_ne_true

theorem Reports.counts {σ : Type} {setup : Setup σ} {jobs : GroupId → Job} {store : σ}
    (hreports : Reports setup (fun root => .ok (jobs root)) store) (earlier : List Fill.Schedule)
    (run : Fill.Schedule) (hdone : (setup.after run (setup.storeAfter earlier store)).isDone) :
    (setup.outcome run (setup.storeAfter earlier store)).report.groups =
        (setup.hierarchy.groupCount setup.hierarchy.levelCount).toNat ∧
      (setup.outcome run (setup.storeAfter earlier store)).report.jobs =
        (setup.hierarchy.groupCount setup.hierarchy.levelCount).toNat ∧
      (setup.outcome run (setup.storeAfter earlier store)).report.failures = 0 := by
  have hcounts := (hreports.sums earlier run hdone).counts
  rwa [Hierarchy.length_topLevelGroups, Setup.totalJobs, Nat.min_self] at hcounts

/-- The report of a select that resolved every top-level group. -/
structure Report.Full (h : Hierarchy) (r : Report) : Prop where
  failures : r.failures = 0
  groups : r.groups = (h.groupCount h.levelCount).toNat
  jobs : r.jobs = r.groups

theorem Reports.full {σ : Type} {setup : Setup σ} {jobs : GroupId → Job} {store : σ}
    (hreports : Reports setup (fun root => .ok (jobs root)) store) (earlier : List Fill.Schedule)
    (run : Fill.Schedule) (hdone : (setup.after run (setup.storeAfter earlier store)).isDone) :
    (setup.outcome run (setup.storeAfter earlier store)).report.Full setup.hierarchy := by
  obtain ⟨hgroups, hjobs, hfailures⟩ := hreports.counts earlier run hdone
  exact ⟨hfailures, hgroups, hjobs.trans hgroups.symm⟩

/-- Runs over this store end with no job failed. -/
def Setup.ResolvesAll {σ : Type} (setup : Setup σ) (store : σ) : Prop :=
  ∃ jobs : GroupId → Job, Reports setup (fun root => .ok (jobs root)) store

/-- Where groups lead to groups of the level below only, every top-level group is resolved. -/
theorem resolvesAll {h : Hierarchy} {s : Store} (hlevels : 1 ≤ h.levelCount)
    (hs : s.WellFormed h) {σ : Type} {backend : Backend σ} {stage : List (List GroupId) → σ}
    (hserves : Job.Serves s backend stage)
    {answer : List GroupId → Except StoreFault (List MemberRow)} {states : σ → Prop}
    (hread : backend.ReadOnly answer states) (hstore : states (stage [])) {config : RunConfig}
    {setup : Setup σ} (hmake : Setup.make backend h config = .ok setup) :
    setup.ResolvesAll (stage []) := by
  obtain ⟨hpos, rfl⟩ := make_eq_ok hmake
  have hresolves (root : GroupId) (hroot : root ∈ h.topLevelGroups h.topLevelGroupCount.toNat) :
      ∃ job, (Job.start root).EndsWith backend (stage []) (.ok job) := by
    obtain ⟨rounds, t, hend⟩ := Job.exists_resolved root hserves
      (hs.layer_eq_nil (Hierarchy.atLevel_of_mem_topLevelGroups hlevels hroot))
    exact ⟨_, rounds, congrArg (fun x => x.1.ended?) hend⟩
  have : Nonempty Job := ⟨.start (.encode 1 1)⟩
  choose! jobs hjobs using hresolves
  exact ⟨jobs, reports hread hstore hjobs hpos⟩

theorem completes_of_filled {h : Hierarchy} {s : Store} (hlevels : 1 ≤ h.levelCount)
    (hroom : h.HasRoom) (hfilled : s.Filled h) {ρ : Type} {source : WordSource ρ} {picks : ρ}
    {pageSize : Nat} {limit : UInt64} {config : RunConfig} {setup : Setup (MemoryState ρ)}
    (hmake : Setup.make (Backend.memory h source pageSize limit.toNat) h config = .ok setup) :
    Completes setup ⟨s, picks⟩ := by
  obtain ⟨hpos, rfl⟩ := make_eq_ok hmake
  have hresolves (root : GroupId) (hroot : root ∈ h.topLevelGroups h.topLevelGroupCount.toNat) :=
    Job.exists_bounded hfilled hroom (Hierarchy.atLevel_of_mem_topLevelGroups hlevels hroot) source
      picks pageSize limit
  have : Nonempty Job := ⟨.start (.encode 1 1)⟩
  choose! jobs hjobs using hresolves
  have hreports : Reports ⟨Backend.memory h source pageSize limit.toNat, h, config.single⟩
      (fun root => .ok (jobs root)) ⟨s, picks⟩ :=
    reports (Backend.readOnly_memory h source pageSize limit.toNat s) rfl
      (fun root hroot => (hjobs root hroot).1) hpos
  exact ⟨⟨jobs, hreports, hjobs⟩, hreports.counts⟩

/-- Filling a hierarchy that passes the check and then resolving it always completes: whoever writes
the hierarchy, in whatever order and with whatever members, and whatever the page size, the batch
limit and the number of workers of the select run. -/
theorem filled_hierarchy_completes {power : Power} {c : HierarchyConfig} (hpower : power.Lawful)
    (hvalid : c.validate power = .ok ()) (hfit : (c.hierarchy power).units 1 1 < UInt64.size)
    {ρ : Type} {source : WordSource ρ} {picks : ρ} {fillSize fillLimit : Nat}
    {moves : List Fill.Move} {fleet : Fill.Fleet (MemoryState ρ)}
    (hfleet : Fill.Fleet.after (Backend.memory (c.hierarchy power) source fillSize fillLimit)
      (c.hierarchy power) moves ⟨.empty, picks⟩ = fleet)
    (honce : fleet.FillsOnce (c.hierarchy power)) {pageSize : Nat} {limit : UInt64}
    {config : RunConfig} {setup : Setup (MemoryState ρ)}
    (hmake : Setup.make (Backend.memory (c.hierarchy power) source pageSize limit.toNat)
      (c.hierarchy power) config = .ok setup) : Completes setup fleet.store := by
  have hc := HierarchyConfig.accepted_of_validate hvalid
  have hempty : (⟨.empty, picks⟩ : MemoryState ρ).store = .empty := rfl
  have hsound := Fill.Fleet.sound_after (hc.populated hpower) hfit
    (Backend.tabled_memory (c.hierarchy power) source fillSize fillLimit) hempty moves
  rw [hfleet] at hsound
  exact completes_of_filled hc.levels (hc.hasRoom hpower) (hsound.filled honce) hmake

/-- All powers of one. -/
def powerOfOne : Power := fun _ _ => 1.0

theorem powerOfOne_lawful : powerOfOne.Lawful := fun _ _ _ _ =>
  (Binary64.le_iff Binary64.worth_zero Binary64.worth_one).2 zero_le

section Flat
variable {c : HierarchyConfig}

theorem worth_scale_powerOfOne (c : HierarchyConfig) (base : UInt32) (level : UInt16) :
    Binary64.Worth (c.scale powerOfOne base level) (base.toNat * Binary64.one : Nat) := by
  have hbase := Binary64.worth_toFloat base
  obtain ⟨product, hrounded, hscale⟩ := Binary64.exists_worth_mul hbase Binary64.worth_one
  -- The exact product is a number already.
  obtain rfl : product = (base.toNat * Binary64.one : Nat) :=
    le_antisymm ((hrounded _ _ hbase).2 le_rfl) ((hrounded _ _ hbase).1 le_rfl)
  exact hscale

/-- Without growth every level has the counts that were asked for. -/
theorem scaledCount_powerOfOne (c : HierarchyConfig) (base : UInt32) :
    c.scaledCount powerOfOne base = fun _ => base := by
  funext level
  have hle : base.toNat ≤ UInt32.size - 1 := Nat.le_pred_of_lt base.toNat_lt
  rw [HierarchyConfig.scaledCount, ← UInt32.toNat_inj,
    Binary64.toNat_toUInt32 (worth_scale_powerOfOne c base level),
    Nat.mul_div_cancel _ Binary64.one_positive, Nat.min_eq_left hle]

theorem groupCount_powerOfOne (c : HierarchyConfig) (level : UInt16) :
    (c.hierarchy powerOfOne).groupCount level = c.firstLevelGroupCount :=
  congrFun (scaledCount_powerOfOne c c.firstLevelGroupCount) level

/-- Without growth one level stands for all. -/
theorem validate_powerOfOne (hlevels : c.levelCount ≠ 0) (hfirst : c.firstLevelGroupCount ≠ 0)
    (hgrowth : c.growthFactor.isFinite ∧ 0.0 < c.growthFactor)
    (hgroups : c.firstLevelGroupCount ≤ 0xFFFFFFFE)
    (hmembers : c.userMemberCount.toNat + c.subgroupMemberCount.toNat ≤ 4294967294) :
    c.validate powerOfOne = .ok () := by
  cases hvalid : c.validate powerOfOne with
  | ok => rfl
  | error fault =>
    exfalso
    rcases HierarchyConfig.warranted_or_brims hvalid with hwarranted | ⟨level, hbrims, -⟩
    · cases hwarranted with
      | noLevels hnone => exact hlevels hnone
      | noFirstLevelGroups hnone => exact hfirst hnone
      | growthFactor hbad => exact hbad hgrowth
      | emptyLevel _ hnone =>
        rw [groupCount_powerOfOne] at hnone
        exact hfirst hnone
      | tooManyGroups _ hmany =>
        rw [groupCount_powerOfOne] at hmany
        exact UInt32.not_lt.2 hgroups hmany
      | tooManyMembers _ hmany =>
        simp only [HierarchyConfig.hierarchy, scaledCount_powerOfOne] at hmany
        split at hmany
        · have hzero : (0 : UInt32).toNat = 0 := rfl
          omega
        · omega
    · -- A product that is whole has no fraction of one more group.
      have hlimit := (Binary64.lt_iff HierarchyConfig.worth_limit
        (worth_scale_powerOfOne c c.firstLevelGroupCount level)).1 hbrims.limit_lt
      rw [← groupCount_powerOfOne c level, hbrims.groupCount_eq] at hlimit
      exact lt_irrefl _ hlimit

end Flat

/-- Two levels of two groups, with a user in each group and a subgroup in each of the upper ones. -/
def evenConfig : HierarchyConfig where
  firstLevelGroupCount := 2
  levelCount := 2
  userMemberCount := 1
  subgroupMemberCount := 1

def evenHierarchy : Hierarchy := { Fill.pairHierarchy with groupCount _ := 2, userPoolSize := 2 }

theorem evenConfig_hierarchy : evenConfig.hierarchy powerOfOne = evenHierarchy := by
  simp only [HierarchyConfig.hierarchy, scaledCount_powerOfOne]
  rfl

theorem evenConfig_valid : evenConfig.validate powerOfOne = .ok () :=
  validate_powerOfOne (by decide) (by decide) ⟨by decide +kernel, by decide +kernel⟩ (by decide)
    (by decide)

/-- Two instances of two workers each, which fill the even hierarchy at the same time. -/
def evenFills : List Fill.Move :=
  .launch { workers := 2, instanceId := 1, instanceCount := 2 } default ::
    .launch { workers := 2, instanceId := 2, instanceCount := 2 } default ::
      (List.range 120).map fun k => .turn (k % 2) ⟨k / 2 % 2, default⟩

def evenFleet : Fill.Fleet (MemoryState UInt64) :=
  Fill.Fleet.after (Backend.memory evenHierarchy .congruential) evenHierarchy evenFills ⟨.empty, 7⟩

theorem units_evenHierarchy : evenHierarchy.units 1 1 = 10 := by decide +kernel

theorem evenFleet_fillsOnce : evenFleet.FillsOnce evenHierarchy := by
  have hfit : evenHierarchy.units 1 1 < UInt64.size := units_evenHierarchy.symm ▸ (by decide)
  have hpop : evenHierarchy.Populated := evenConfig_hierarchy ▸
    (HierarchyConfig.accepted_of_validate evenConfig_valid).populated powerOfOne_lawful
  have hsound : evenFleet.Sound (Backend.memory evenHierarchy .congruential) evenHierarchy
      MemoryState.store :=
    Fill.Fleet.sound_after hpop hfit (Backend.tabled_memory ..) rfl evenFills
  have hone : evenFleet.OneRunEach evenHierarchy 2 := by
    refine ⟨?_, ?_, ?_, ?_⟩
    · unfold Fill.Fleet.Completed
      decide +kernel
    all_goals decide +kernel
  exact hone.fillsOnce hsound (by decide)

/-- Two workers, pages of one row and batches of one group. -/
def evenSetup : Setup (MemoryState UInt64) where
  backend := Backend.memory evenHierarchy .congruential 1 (1 : UInt64).toNat
  hierarchy := evenHierarchy
  config := { workers := 2 }

theorem even_hierarchy_completes :
    powerOfOne.Lawful ∧ evenConfig.validate powerOfOne = .ok () ∧ evenHierarchy.units 1 1 = 10 ∧
      evenFleet.FillsOnce evenHierarchy ∧
      Setup.make (Backend.memory evenHierarchy .congruential 1 (1 : UInt64).toNat) evenHierarchy
        { workers := 2 } = .ok evenSetup ∧
      Completes evenSetup evenFleet.store ∧
      (evenSetup.after inTurns (evenSetup.storeAfter [] evenFleet.store)).isDone := by
  have hmake : Setup.make (Backend.memory evenHierarchy .congruential 1 (1 : UInt64).toNat)
      evenHierarchy { workers := 2 } = .ok evenSetup := by rfl
  refine ⟨powerOfOne_lawful, evenConfig_valid, units_evenHierarchy, evenFleet_fillsOnce, hmake, ?_,
    by decide +kernel⟩
  have hfit : evenHierarchy.units 1 1 < UInt64.size := units_evenHierarchy.symm ▸ (by decide)
  have honce := evenFleet_fillsOnce
  have hfleet : Fill.Fleet.after (Backend.memory evenHierarchy .congruential) evenHierarchy
      evenFills ⟨.empty, 7⟩ = evenFleet := rfl
  rw [← evenConfig_hierarchy] at hfit honce hmake hfleet
  exact filled_hierarchy_completes powerOfOne_lawful evenConfig_valid hfit hfleet honce hmake

end Select

end GroupBench
