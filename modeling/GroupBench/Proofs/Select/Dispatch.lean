import Mathlib.Tactic.ByContra
import GroupBench.Proofs.Hierarchy.Positions
import GroupBench.Proofs.Select.Accounts

/-! The select pool loses no job and duplicates none. A job that waits in the channel is safe
because its sender has yet to look there before it leaves. -/
namespace GroupBench.Select
variable {σ : Type}

namespace State
variable (s : State σ)

/-- Roots of the jobs that workers have in hand. -/
def inHand : List GroupId := s.workers.filterMap (·.pc.root?)

/-- The root of the job in the channel, if there is one. -/
def waiting : List GroupId := (s.channel.map Job.root).toList

theorem length_waiting_le : s.waiting.length ≤ 1 := by
  rw [waiting]
  cases s.channel <;> simp

end State

variable {setup : Setup σ} {s t : State σ} {i : Nat} {w : Worker}

/-- Each top-level group claimed so far is in one place. -/
def Placed (setup : Setup σ) (s : State σ) : Prop :=
  (s.inHand ++ s.waiting ++ finished s.events).Perm (setup.hierarchy.topLevelGroups s.next)

theorem placed_effect (hp : Placed setup s) (hw : s.workers[i]? = some w)
    (he : Effect setup s i w t) : Placed setup t := by
  obtain ⟨others, hperm, hset⟩ := Pool.exists_others hw
  have hhand := hperm.filterMap (·.pc.root?)
  have hhand' (v : Worker) := (hset v).filterMap (·.pc.root?)
  simp only [Pool.filterMap_cons_toList] at hhand hhand'
  generalize others.filterMap (·.pc.root?) = rest at hhand hhand'
  have hplaced := ((hhand.append_right _).append_right _).symm.trans hp
  cases he with
  | quiet v window store events hroot _ _ _ hevents =>
    have hv := hhand' v
    rw [hroot] at hv
    rw [Placed, hevents]
    exact ((hv.append_right _).append_right _).trans hplaced
  | received job v hjob hroot hroot' _ _ =>
    have hv := hhand' v
    rw [hroot', Option.toList_some] at hv
    rw [hroot, State.waiting, hjob, Option.toList_none, List.nil_append] at hplaced
    refine ((hv.append_right []).append_right _).trans (.trans ?_ hplaced)
    rw [List.append_nil]
    exact (@List.perm_append_comm _ [job.root] _).append_right _
  | claimed v hlt hpc hroot _ =>
    have hv := hhand' v
    rw [hroot, Option.toList_some] at hv
    rw [hpc] at hplaced
    rw [Placed, Hierarchy.topLevelGroups_succ _ hlt]
    exact ((hv.append_right _).append_right _).trans
      ((hplaced.cons _).trans (List.perm_append_singleton _ _).symm)
  | overran v hle hpc hroot _ =>
    have hv := hhand' v
    rw [hroot] at hv
    rw [hpc, Hierarchy.topLevelGroups_of_le _ hle] at hplaced
    rw [Placed, Hierarchy.topLevelGroups_of_le _ (Nat.le_succ_of_le hle)]
    exact ((hv.append_right _).append_right _).trans hplaced
  | sent job v hnone hpc hpc' =>
    have hv := hhand' v
    rw [hpc'] at hv
    rw [hpc, State.waiting, hnone] at hplaced
    refine ((hv.append_right [job.root]).append_right _).trans (.trans ?_ hplaced)
    rw [Option.map_none, Option.toList_none, List.append_nil]
    exact (@List.perm_append_comm _ _ [job.root]).append_right _
  | ended root v store events hroot _ hroot' _ hevents =>
    have hv := hhand' v
    rw [hroot', Option.toList_none, List.nil_append] at hv
    rw [hroot] at hplaced
    rw [Placed, hevents]
    exact ((hv.append_right _).append_right _).trans (List.perm_middle.trans hplaced)

/-- Some worker will look for the waiting job before it leaves: its sender has not looked since. -/
def Awaited (s : State σ) : Prop :=
  s.channel.isSome → ∃ w ∈ s.workers, w.pc = .receiving

theorem awaited_effect (ha : Awaited s) (hw : s.workers[i]? = some w)
    (he : Effect setup s i w t) : Awaited t := by
  obtain ⟨others, hperm, hset⟩ := Pool.exists_others hw
  have hother (v : Worker) (hne : s.channel.isSome → w.pc ≠ .receiving) :
      s.channel.isSome → ∃ u ∈ s.workers.set i v, u.pc = .receiving := by
    intro hsome
    obtain ⟨u, hu, hpc⟩ := ha hsome
    rcases List.mem_cons.1 (hperm.mem_iff.1 hu) with rfl | hu
    · exact (hne hsome hpc).elim
    · exact ⟨u, (hset v).mem_iff.2 (List.mem_cons_of_mem _ hu), hpc⟩
  cases he with
  | quiet v window store events _ _ _ hreceiving _ =>
    apply hother v
    intro hsome hpc
    simp [hreceiving hpc] at hsome
  | received => intro hsome; cases hsome
  | claimed v _ hpc _ _ => exact hother v fun _ => by simp [hpc]
  | overran v _ hpc _ _ => exact hother v fun _ => by simp [hpc]
  | sent job v _ _ hpc =>
    intro _
    exact ⟨v, (hset v).mem_iff.2 List.mem_cons_self, hpc⟩
  | ended root v store events hroot _ _ _ _ =>
    apply hother v
    intro _ hpc
    simp [hpc, PC.root?] at hroot

/-- Workers find the claims exhausted only when they are. -/
def Exhausted (setup : Setup σ) (s : State σ) : Prop :=
  ∀ w ∈ s.workers, w.pc.isOut → setup.totalJobs ≤ s.next

theorem exhausted_effect (hx : Exhausted setup s) (hw : s.workers[i]? = some w)
    (he : Effect setup s i w t) : Exhausted setup t := by
  have hset (v : Worker) {n : Nat} (hle : s.next ≤ n) (hv : v.pc.isOut → setup.totalJobs ≤ n) :
      ∀ u ∈ s.workers.set i v, u.pc.isOut → setup.totalJobs ≤ n := by
    intro u hu hout
    rcases List.mem_or_eq_of_mem_set hu with hu | rfl
    · exact Nat.le_trans (hx u hu hout) hle
    · exact hv hout
  cases he with
  | quiet v window store events _ hout _ _ _ =>
    apply hset v (Nat.le_refl _)
    intro h
    exact hx w (List.mem_of_getElem? hw) (hout.symm.trans h)
  | received job v _ _ _ hin _ =>
    apply hset v (Nat.le_refl _)
    simp [hin]
  | claimed v _ _ _ hin =>
    apply hset v (Nat.le_succ _)
    simp [hin]
  | overran v hle _ _ _ =>
    apply hset v (Nat.le_succ _)
    intro _
    exact Nat.le_succ_of_le hle
  | sent job v _ _ hpc =>
    apply hset v (Nat.le_refl _)
    simp [hpc, PC.isOut]
  | ended root v store events _ _ _ hin _ =>
    apply hset v (Nat.le_refl _)
    simp [hin]

/-- Jobs finish, are in hand and wait in the order of their positions. -/
def InOrder (setup : Setup σ) (s : State σ) : Prop :=
  (finished s.events).reverse ++ s.inHand ++ s.waiting = setup.hierarchy.topLevelGroups s.next

/-- A lone worker is the sender of what waits in the channel, so it has no other job while one
waits there. -/
theorem inOrder_effect (ho : InOrder setup s) (ha : Awaited s) (hone : s.workers.length = 1)
    (hw : s.workers[i]? = some w) (he : Effect setup s i w t) : InOrder setup t := by
  obtain ⟨only, honly⟩ := List.length_eq_one_iff.1 hone
  obtain ⟨hi, hget⟩ := List.getElem?_eq_some_iff.1 hw
  have hzero : i = 0 := by omega
  subst hzero
  have hfirst : only = w := by simpa [honly] using hget
  subst hfirst
  have hhand (v : Worker) :
      (s.workers.set 0 v).filterMap (·.pc.root?) = v.pc.root?.toList := by
    rw [honly, List.set_cons_zero, Pool.filterMap_cons_toList, List.filterMap_nil, List.append_nil]
  have hempty (hne : only.pc ≠ .receiving) : s.channel = none := by
    by_contra hsome
    obtain ⟨u, hu, hpc⟩ := ha (Option.isSome_iff_ne_none.2 hsome)
    rw [honly, List.mem_singleton] at hu
    exact hne (hu ▸ hpc)
  rw [InOrder, State.inHand, State.waiting, honly, Pool.filterMap_cons_toList, List.filterMap_nil,
    List.append_nil] at ho
  cases he with
  | quiet v window store events hroot _ _ _ hevents =>
    rw [InOrder, State.inHand, State.waiting, hhand, hroot, hevents]
    exact ho
  | received job v hjob hroot hroot' _ _ =>
    rw [hroot, hjob] at ho
    rw [InOrder, State.inHand, State.waiting, hhand, hroot', ← ho]
    simp
  | claimed v hlt hpc hroot _ =>
    have hnone := hempty (by simp [hpc])
    rw [hpc, hnone] at ho
    rw [InOrder, State.inHand, State.waiting, hhand, hroot, Hierarchy.topLevelGroups_succ _ hlt,
      ← ho, hnone]
    simp [PC.root?, Setup.jobAt, Job.start]
  | overran v hle hpc hroot _ =>
    rw [hpc, Hierarchy.topLevelGroups_of_le _ hle] at ho
    rw [InOrder, State.inHand, State.waiting, hhand, hroot,
      Hierarchy.topLevelGroups_of_le _ (Nat.le_succ_of_le hle)]
    exact ho
  | sent job v hnone hpc hpc' =>
    rw [hpc, hnone] at ho
    rw [InOrder, State.inHand, State.waiting, hhand, hpc', ← ho]
    simp [PC.root?]
  | ended root v store events hroot _ hroot' _ hevents =>
    rw [hroot] at ho
    rw [InOrder, State.inHand, State.waiting, hhand, hroot', hevents, ← ho]
    simp

theorem effect_length (he : Effect setup s i w t) : t.workers.length = s.workers.length := by
  cases he <;> exact List.length_set

/-- A worker that has claimed past the last group brings a job to its end before it claims again. -/
def Bounded (setup : Setup σ) (s : State σ) : Prop :=
  s.next ≤ setup.totalJobs + (s.workers.countP (·.pc.isSpent) + (finished s.events).length)

theorem bounded_effect (hb : Bounded setup s) (hw : s.workers[i]? = some w)
    (he : Effect setup s i w t) : Bounded setup t := by
  obtain ⟨others, hperm, hset⟩ := Pool.exists_others hw
  have hcount := hperm.countP_eq (·.pc.isSpent)
  have hcount' (v : Worker) := (hset v).countP_eq (·.pc.isSpent)
  simp only [List.countP_cons] at hcount hcount'
  rw [Bounded] at hb
  cases he with
  | quiet v window store events _ _ hspent _ hevents =>
    dsimp only [Bounded]
    rw [hcount', hevents]
    by_cases hs : w.pc.isSpent
    · rw [if_pos hs] at hcount
      rw [if_pos (hspent hs)]
      omega
    · rw [if_neg hs] at hcount
      omega
  | received job v _ _ _ _ hspent =>
    dsimp only [Bounded]
    rw [hcount', if_pos hspent]
    split at hcount <;> omega
  | claimed v hlt _ _ _ =>
    dsimp only [Bounded]
    omega
  | overran v _ hpc _ hspent =>
    have hfresh : ¬ w.pc.isSpent := by simp [hpc, PC.isSpent, PC.isOut]
    rw [if_neg hfresh] at hcount
    dsimp only [Bounded]
    rw [hcount', if_pos hspent]
    omega
  | sent job v _ hpc _ =>
    have hfresh : ¬ w.pc.isSpent := by simp [hpc, PC.isSpent, PC.isOut]
    rw [if_neg hfresh] at hcount
    dsimp only [Bounded]
    rw [hcount']
    omega
  | ended root v store events _ _ _ _ hevents =>
    dsimp only [Bounded]
    rw [hcount', hevents, List.length_cons]
    split at hcount <;> omega

/-- What holds of the jobs after every schedule. -/
structure Dispatch (setup : Setup σ) (s : State σ) : Prop where
  size : s.workers.length = setup.config.workers
  placed : Placed setup s
  awaited : Awaited s
  exhausted : Exhausted setup s
  inOrder : setup.config.workers = 1 → InOrder setup s
  bounded : Bounded setup s

theorem dispatch_initial (now : Instant) (store : σ) :
    Dispatch setup (setup.initial now store) := by
  have hhand : (setup.initial now store).inHand = [] :=
    List.filterMap_eq_nil_iff.2 fun w hw => by
      rw [List.eq_of_mem_replicate hw]
      rfl
  have hnone : setup.hierarchy.topLevelGroups 0 = [] := by
    rw [Hierarchy.topLevelGroups, Nat.zero_min]
    rfl
  refine ⟨List.length_replicate, ?_, ?_, ?_, ?_, Nat.zero_le _⟩
  · rw [Placed, hhand]
    change [].Perm (setup.hierarchy.topLevelGroups 0)
    rw [hnone]
  · intro hsome
    cases hsome
  · intro w hw hout
    rw [List.eq_of_mem_replicate hw] at hout
    cases hout
  · intro _
    rw [InOrder, hhand]
    exact hnone.symm

theorem dispatch_run (setup : Setup σ) (now : Instant) (store : σ) (schedule : List Turn) :
    Dispatch setup (Pool.exec (State.step setup) schedule (setup.initial now store)) := by
  apply Pool.exec_induction (P := Dispatch setup) ?_ (dispatch_initial now store)
  intro s turn hd
  obtain he | ⟨w, hw, he⟩ := step_effect setup s turn
  · exact he.symm ▸ hd
  · exact ⟨(effect_length he).trans hd.size, placed_effect hd.placed hw he,
      awaited_effect hd.awaited hw he, exhausted_effect hd.exhausted hw he,
      fun hone => inOrder_effect (hd.inOrder hone) hd.awaited (hd.size.trans hone) hw he,
      bounded_effect hd.bounded hw he⟩

namespace Dispatch
variable (hd : Dispatch setup s)
include hd

theorem count_places (root : GroupId) :
    s.inHand.count root + s.waiting.count root + (finished s.events).count root =
      if root ∈ setup.hierarchy.topLevelGroups s.next then 1 else 0 := by
  rw [← List.count_append, ← List.count_append, hd.placed.count_eq]
  split
  · rename_i hm
    exact List.count_eq_one_of_mem (Hierarchy.topLevelGroups_nodup _ _) hm
  · rename_i hm
    exact List.count_eq_zero.2 hm

theorem length_claimed_le : (setup.hierarchy.topLevelGroups s.next).length ≤
    (finished s.events).length + (setup.config.workers + 1) := by
  have hlen := hd.placed.length_eq
  have hhand : s.inHand.length ≤ s.workers.length := List.length_filterMap_le _ _
  have hwait := s.length_waiting_le
  have hsize := hd.size
  simp only [List.length_append] at hlen
  omega

/-- The counter stays far below the last word of 64 bits. -/
theorem next_le : s.next ≤ 2 * setup.totalJobs + setup.config.workers := by
  have hlen := hd.placed.length_eq
  have hall : (setup.hierarchy.topLevelGroups s.next).length ≤ setup.totalJobs := by
    rw [Hierarchy.length_topLevelGroups]
    exact Nat.min_le_right _ _
  have hspent : s.workers.countP (·.pc.isSpent) ≤ s.workers.length := List.countP_le_length
  have hbound := hd.bounded
  have hsize := hd.size
  rw [Bounded] at hbound
  simp only [List.length_append] at hlen
  omega

theorem finished_prefix (hone : setup.config.workers = 1) :
    (finished s.events).reverse <+: setup.hierarchy.topLevelGroups setup.totalJobs := by
  have hclaimed : setup.hierarchy.topLevelGroups s.next <+:
      setup.hierarchy.topLevelGroups setup.totalJobs := by
    rcases Nat.le_total s.next setup.totalJobs with hle | hle
    · rw [Hierarchy.topLevelGroups_prefix _ hle]
      exact List.take_prefix _ _
    · rw [Hierarchy.topLevelGroups_of_le _ hle]
      exact List.prefix_rfl
  refine List.IsPrefix.trans ?_ hclaimed
  rw [← hd.inOrder hone, List.append_assoc]
  exact List.prefix_append _ _

theorem finished_of_done (hw : 0 < setup.config.workers) (hdone : s.isDone) :
    s.channel = none ∧
      (finished s.events).Perm (setup.hierarchy.topLevelGroups setup.totalJobs) := by
  have hpc : ∀ w ∈ s.workers, w.pc = .done := by
    intro w hm
    have hw := List.all_eq_true.1 hdone w hm
    cases hpc : w.pc <;> simp_all
  have hnone : s.channel = none := by
    by_contra hsome
    obtain ⟨w, hm, hreceiving⟩ := hd.awaited (Option.isSome_iff_ne_none.2 hsome)
    rw [hpc w hm] at hreceiving
    cases hreceiving
  have hhand : s.inHand = [] := List.filterMap_eq_nil_iff.2 fun w hm => by
    rw [hpc w hm]
    rfl
  obtain ⟨w, hm⟩ := List.exists_mem_of_length_pos (hd.size.symm ▸ hw)
  have hle : setup.totalJobs ≤ s.next := hd.exhausted w hm (by rw [hpc w hm]; rfl)
  have hplaced := hd.placed
  rw [Placed, hhand, State.waiting, hnone, Hierarchy.topLevelGroups_of_le _ hle] at hplaced
  exact ⟨hnone, hplaced⟩

end Dispatch

/-- Where the jobs are in a state. The job of each top-level group claimed so far is in hand with
one worker, waits in the channel or is finished, and one of these only. -/
structure EachInOnePlace (setup : Setup σ) (s : State σ) : Prop where
  places : ∀ root, s.inHand.count root + s.waiting.count root + (finished s.events).count root =
    if root ∈ setup.hierarchy.topLevelGroups s.next then 1 else 0
  unfinished : (setup.hierarchy.topLevelGroups s.next).length ≤
    (finished s.events).length + (setup.config.workers + 1)
  counter : s.next ≤ 2 * setup.totalJobs + setup.config.workers
  complete : s.isDone → s.channel = none ∧
    (finished s.events).Perm (setup.hierarchy.topLevelGroups setup.totalJobs)
  ordered : setup.config.workers = 1 →
    (finished s.events).reverse <+: setup.hierarchy.topLevelGroups setup.totalJobs

/-- The pool loses no job and finishes none twice, whatever the order of the workers' steps. -/
theorem every_job_in_one_place (setup : Setup σ) (hw : 0 < setup.config.workers) (now : Instant)
    (store : σ) (schedule : List Turn) :
    EachInOnePlace setup (Pool.exec (State.step setup) schedule (setup.initial now store)) := by
  have hd := dispatch_run setup now store schedule
  exact ⟨hd.count_places, hd.length_claimed_le, hd.next_le, hd.finished_of_done hw,
    hd.finished_prefix⟩

/-- Three top-level groups with nothing in them, and two workers. -/
def tripleSetup : Setup Unit where
  backend := .null
  hierarchy :=
    { levelCount := 1
      groupCount _ := 3
      leafMemberCount _ := 0
      subgroupCount _ := 0
      userPoolSize := 1
      subgroupCount_low _ _ := rfl }
  config := { workers := 2 }

theorem triple_jobs_in_one_place :
    0 < tripleSetup.config.workers ∧
      EachInOnePlace tripleSetup (Pool.exec (State.step tripleSetup)
        ((List.range 60).map fun k => ⟨k % 2, default⟩) (tripleSetup.initial default ())) := by
  have hw : 0 < tripleSetup.config.workers := by decide
  exact ⟨hw, every_job_in_one_place tripleSetup hw default () _⟩

end GroupBench.Select
