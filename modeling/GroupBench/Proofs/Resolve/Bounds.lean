import GroupBench.Proofs.Resolve.Rounds
import GroupBench.Proofs.Store.Layers

/-! What resolving a top-level group of a filled hierarchy comes to: how many users and subgroups
are found at most, and how many rounds it takes at least. -/
namespace GroupBench

namespace Hierarchy
variable (h : Hierarchy)

/-- Every group above the first level has a slot for a subgroup. -/
def Branches : Prop := ∀ level, 2 ≤ level → level ≤ h.levelCount → 1 ≤ h.subgroupCount level

/-- The users take up less than all slots, so that the first slot after them is one. -/
def HasRoom : Prop :=
  ∀ level, 1 ≤ level → level ≤ h.levelCount → h.leafMemberCount level < 0xFFFFFFFF

/-- The most subgroups that can be met below a top-level group, repeats counted. -/
def mostSubgroups : Nat :=
  ∑ k ∈ Finset.Icc 2 h.levelCount.toNat, ∏ l ∈ Finset.Icc k h.levelCount.toNat, h.fanOut l

end Hierarchy

namespace Job

/-- The job of a top-level group has users of the pool, and it has as many subgroups and rounds as
the levels make likely. -/
structure Bounded (h : Hierarchy) (job : Job) : Prop where
  members : ∀ id ∈ job.memberList, ∃ number,
    id = .encode GroupId.userLevel number ∧ 1 ≤ number ∧ number ≤ h.userPoolSize
  memberCount_le : job.memberCount ≤ h.userPoolSize.toNat
  subgroups_le : job.subgroups ≤ h.mostSubgroups
  branches : h.Branches →
    h.levelCount.toNat - 1 ≤ job.subgroups ∧ h.levelCount.toNat ≤ job.depth

variable {h : Hierarchy} {s : Store} {root : GroupId}

/-- Users are numbered from one, so they are no more than the pool has. -/
theorem length_users_le {users : List GroupId} (hnodup : users.Nodup)
    (husers : ∀ id ∈ users, ∃ number,
      id = .encode GroupId.userLevel number ∧ 1 ≤ number ∧ number ≤ h.userPoolSize) :
    users.length ≤ h.userPoolSize.toNat := by
  have hrange : users ⊆ (List.range' 1 h.userPoolSize.toNat).map fun number =>
      GroupId.encode GroupId.userLevel (UInt32.ofNat number) := by
    intro id hid
    obtain ⟨number, rfl, hlow, hle⟩ := husers id hid
    rw [UInt32.le_iff_toNat_le, UInt32.toNat_one] at hlow
    rw [UInt32.le_iff_toNat_le] at hle
    refine List.mem_map.2 ⟨number.toNat, List.mem_range'_1.2 ⟨hlow, by omega⟩, ?_⟩
    rw [UInt32.ofNat_toNat]
  have hle := (List.subperm_of_subset hnodup hrange).length_le
  rwa [List.length_map, List.length_range'] at hle

/-- In a filled hierarchy every group above the first level has a subgroup, if it has a slot for
one. -/
theorem exists_subgroup (hcomplete : s.Complete h) (hroom : h.HasRoom) (hbranches : h.Branches)
    {l : Nat} {group : GroupId} (hl : 2 ≤ l) (hg : h.AtLevel l group) :
    ∃ member, s.HasSubgroup group member := by
  obtain ⟨level, number, rfl, hgroup, rfl⟩ := hg
  exact hcomplete.subgroups level number hgroup
    (hbranches level (UInt16.le_iff_toNat_le.2 hl) hgroup.level_le)
    (hroom level hgroup.level_pos hgroup.level_le)

/-- Every top-level group is resolved, whatever the page size and the batch limit, and its job is
within bounds. -/
theorem exists_bounded (hfilled : s.Filled h) (hroom : h.HasRoom)
    (hroot : h.AtLevel h.levelCount.toNat root) {ρ : Type} (source : WordSource ρ) (picks : ρ)
    (pageSize : Nat) (limit : UInt64) :
    ∃ job, (start root).EndsWith (Backend.memory h source pageSize limit.toNat) ⟨s, picks⟩
      (.ok job) ∧ job.Bounded h := by
  obtain ⟨written, hbuilt, hnodup, hall⟩ := hfilled
  have hs := hbuilt.wellFormed
  have hnil := hs.layer_eq_nil hroot
  obtain ⟨rounds, t, hend⟩ :=
    exists_resolved root (serves_memory h source picks pageSize limit) hnil
  have hclosure := isClosure_reached hnil rounds
  have hmembers : ∀ id ∈ (reached s root (s.layers h.levelCount.toNat [root]) []
      rounds).memberList, ∃ number,
        id = .encode GroupId.userLevel number ∧ 1 ≤ number ∧ number ≤ h.userPoolSize := by
    intro id hid
    obtain ⟨group, -, hedge⟩ := (hclosure.mem_members id).1 hid
    obtain ⟨level, -, -, -, hallowed⟩ := hs.edges _ _ _ hedge
    cases hallowed with
    | user number hlow hle => exact ⟨number, rfl, hlow, hle⟩
  refine ⟨_, ⟨rounds, congrArg (fun x => x.1.ended?) hend⟩, hmembers, ?_,
    hbuilt.sum_layers_le hnodup hroot, fun hbranches => ?_⟩
  · rw [hclosure.memberCount_eq]
    exact length_users_le hclosure.members_nodup hmembers
  · obtain ⟨path, hlen, hchain⟩ := Store.exists_path_down hs
      (fun _ _ => exists_subgroup (hbuilt.complete hall) hroom hbranches) hroot
    obtain ⟨batches, hbatches, hdepth, -⟩ :=
      exists_batches (serves_memory h source picks pageSize limit) hend
    have hlt := hbatches.length_path_lt List.mem_cons_self hchain
    have hpath := Store.length_path_le hchain (Nat.lt_of_succ_le hlen.le)
    rw [hdepth, ← hlen]
    rw [← hlen] at hpath
    exact ⟨hpath, hlt⟩

end Job

end GroupBench
