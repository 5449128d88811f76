import GroupBench.Proofs.Resolve.BreadthFirst

/-! A resolution finds the users below its root, each of them once, and meets a subgroup once for
each path that leads to it. -/
namespace GroupBench
variable {s : Store} {root : GroupId}

namespace Store

theorem mem_layers {n : Nat} {group : GroupId} (hnil : s.expand^[n] [root] = []) :
    group ∈ s.layers n [root] ↔ Relation.ReflTransGen s.HasSubgroup root group := by
  rw [layers, List.mem_flatMap, reachable_iff_mem_layer]
  constructor
  · rintro ⟨k, -, hmem⟩
    exact ⟨k, hmem⟩
  · rintro ⟨k, hmem⟩
    refine ⟨k, List.mem_range.2 (Nat.lt_of_not_le fun hle => ?_), hmem⟩
    rw [layer_eq_nil_of_le hnil hle] at hmem
    cases hmem

end Store

namespace Job

theorem mem_addUsers {users : Std.ExtTreeSet GroupId} {rows : List MemberRow} {id : GroupId} :
    id ∈ addUsers users rows ↔ id ∈ users ∨ (id, .user) ∈ rows := by
  induction rows generalizing users with
  | nil => simp [addUsers]
  | cons row rows ih =>
    obtain ⟨member, kind⟩ := row
    rw [addUsers, List.foldl_cons, ← addUsers, ih, List.mem_cons]
    cases kind with
    | subgroup => simp [MemberKind.isSubgroup]
    | user =>
      simp only [MemberKind.isSubgroup, Bool.false_eq_true, if_false, Prod.mk.injEq, and_true,
        Std.ExtTreeSet.mem_insert, Std.LawfulEqCmp.compare_eq_iff_eq]
      rw [or_assoc, or_left_comm, eq_comm]

/-- The job holds what lies below its root: every user once, and a subgroup for each path. -/
structure IsClosure (s : Store) (root : GroupId) (job : Job) : Prop where
  root_eq : job.root = root
  resolved : job.isResolved
  members_nodup : job.memberList.Nodup
  memberCount_eq : job.memberCount = job.memberList.length
  mem_members : ∀ id, id ∈ job.memberList ↔
    ∃ group, Relation.ReflTransGen s.HasSubgroup root group ∧ s.HasUser group id
  subgroups_eq : (job.subgroups : ENat) = {path | s.IsPath root path}.encard

theorem isClosure_reached {n : Nat} (hnil : s.expand^[n] [root] = []) (rounds : Nat) :
    IsClosure s root (reached s root (s.layers n [root]) [] rounds) := by
  refine ⟨rfl, rfl, ?_, ?_, ?_, ?_⟩
  · refine Std.ExtTreeSet.ordered_toList.imp ?_
    rintro a _ hlt rfl
    exact GroupId.lt_irrefl a (GroupId.compare_eq_lt_iff.1 hlt)
  · exact Std.ExtTreeSet.length_toList.symm
  · intro id
    rw [memberList, Std.ExtTreeSet.mem_toList]
    change id ∈ addUsers ∅ ((s.layers n [root]).flatMap s.membersOf) ↔ _
    rw [mem_addUsers, List.mem_flatMap]
    simp [Store.mem_layers hnil, Store.mem_membersOf, Store.HasUser]
  · rw [Store.encard_paths hnil]
    change ((s.expand (s.layers n [root])).length : ENat) = _
    rw [Store.expand_layers, List.length_flatMap]

/-- Without a cycle below the root every resolution ends, and its job is the closure. -/
theorem resolves_to_closure (hacyclic : s.AcyclicFrom root) {ρ : Type} (h : Hierarchy)
    (source : WordSource ρ) (picks : ρ) (pageSize : Nat) (limit : UInt64) :
    ∃ job rounds, IsClosure s root job ∧ ∀ fuel ≥ rounds,
      resolve (Backend.memory h source pageSize limit.toNat) fuel (.start root) ⟨s, picks⟩ =
        (.resolved job, ⟨s, picks⟩) := by
  obtain ⟨n, hnil⟩ := hacyclic.exists_layer_eq_nil
  obtain ⟨batches, -, hresolve⟩ := resolve_reached root
    (serves_memory h source picks pageSize limit) (Store.breadthFirst_layers hnil) [] 0 []
  exact ⟨_, batches.length, isClosure_reached hnil _, hresolve⟩

theorem diamond_subgroups_low (level : UInt16) (hlow : level ≤ 1) :
    (if level ≤ 1 then 0 else 2 : UInt32) = 0 := if_pos hlow

/-- As many groups at each level as the diamond has. -/
def diamondHierarchy : Hierarchy where
  levelCount := 3
  groupCount level := if level = 2 then 2 else 1
  leafMemberCount _ := 1
  subgroupCount level := if level ≤ 1 then 0 else 2
  userPoolSize := 1
  subgroupCount_low := diamond_subgroups_low

theorem diamond_resolves_to_closure :
    Store.diamond.AcyclicFrom (.ofPosition 3 0) ∧
      ∃ job rounds, IsClosure Store.diamond (.ofPosition 3 0) job ∧ ∀ fuel ≥ rounds,
        resolve (Backend.memory diamondHierarchy .congruential 0 (0 : UInt64).toNat) fuel
            (.start (.ofPosition 3 0)) ⟨Store.diamond, 0⟩ =
          (.resolved job, ⟨Store.diamond, 0⟩) := by
  have hacyclic := Store.diamond_descends.acyclicFrom (.ofPosition 3 0)
  exact ⟨hacyclic, resolves_to_closure hacyclic diamondHierarchy .congruential 0 0 0⟩

end Job

end GroupBench
