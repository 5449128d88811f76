import Mathlib.Data.List.Induction
import GroupBench.Proofs.Resolve.Draining

/-! The queue of a job loses nothing and makes nothing up. In whatever order batches are taken from
a job and members are absorbed by it, the groups taken and those still queued are the root and the
subgroups absorbed, one after the other. -/
namespace GroupBench

/-- A call on a job. -/
inductive JobCall
  | take (limit : Nat)
  | absorb (member : GroupId) (kind : MemberKind)

namespace JobCall

def isTake : JobCall → Bool
  | take _ => true
  | absorb .. => false

/-- The group that joins the queue. -/
def queued? : JobCall → Option GroupId
  | absorb member .subgroup => some member
  | absorb _ .user | take _ => none

end JobCall

/-- The job of a resolution that has not failed. -/
def Job.Progress.job? : Job.Progress → Option Job
  | .resolved job | .unfinished job => some job
  | .failed _ => none

/-- A job and the batches taken from it, first one first. -/
structure JobLog where
  job : Job
  batches : List (List GroupId)

namespace JobLog

def call (l : JobLog) : JobCall → JobLog
  | .take limit => ⟨(l.job.takeBatch limit).2, l.batches ++ [(l.job.takeBatch limit).1]⟩
  | .absorb member kind => ⟨l.job.absorb member kind, l.batches⟩

def run (root : GroupId) (calls : List JobCall) : JobLog :=
  calls.foldl call ⟨.start root, []⟩

/-- What a job and its batches tell of all the calls so far. -/
structure Lossless (root : GroupId) (calls : List JobCall) (l : JobLog) : Prop where
  queue : l.batches.flatten ++ l.job.frontier = root :: calls.filterMap JobCall.queued?
  subgroups : l.job.subgroups = (calls.filterMap JobCall.queued?).length
  depth : l.job.depth = calls.countP JobCall.isTake
  batches : l.batches.length = calls.countP JobCall.isTake
  members : ∀ member, member ∈ l.job.members ↔ .absorb member .user ∈ calls

variable {root : GroupId} {calls : List JobCall} {l : JobLog}

theorem lossless_start (root : GroupId) : Lossless root [] ⟨.start root, []⟩ where
  queue := rfl
  subgroups := rfl
  depth := rfl
  batches := rfl
  members member := by simp [Job.start]

theorem Lossless.take (h : Lossless root calls l) (limit : Nat) :
    Lossless root (calls ++ [.take limit]) (l.call (.take limit)) where
  queue := by
    -- The batch is the head of the queue, and the rest of it stays.
    have hqueue := h.queue
    rw [← List.take_append_drop (max limit 1) l.job.frontier] at hqueue
    simpa [call, Job.takeBatch, List.filterMap_cons, JobCall.queued?] using hqueue
  subgroups := by simp [call, Job.takeBatch, List.filterMap_cons, JobCall.queued?, h.subgroups]
  depth := by simp [call, Job.takeBatch, JobCall.isTake, h.depth]
  batches := by simp [call, JobCall.isTake, h.batches]
  members member := by simp [call, Job.takeBatch, h.members]

theorem Lossless.absorb (h : Lossless root calls l) (member : GroupId) (kind : MemberKind) :
    Lossless root (calls ++ [.absorb member kind]) (l.call (.absorb member kind)) where
  queue := by
    rw [List.filterMap_append, ← List.cons_append, ← h.queue, List.append_assoc]
    cases kind with
    | user => exact congrArg _ (List.append_nil _).symm
    | subgroup => rfl
  subgroups := by
    cases kind <;> simp [call, Job.absorb, List.filterMap_cons, JobCall.queued?, h.subgroups]
  depth := by cases kind <;> simp [call, Job.absorb, JobCall.isTake, h.depth]
  batches := by simp [call, JobCall.isTake, h.batches]
  members other := by
    cases kind with
    | user =>
      simp only [call, Job.absorb, Std.ExtTreeSet.mem_insert, Std.LawfulEqCmp.compare_eq_iff_eq,
        h.members, List.mem_append, List.mem_singleton, JobCall.absorb.injEq, and_true]
      rw [or_comm, eq_comm]
    | subgroup => simp [call, Job.absorb, h.members]

theorem Lossless.call (h : Lossless root calls l) (c : JobCall) :
    Lossless root (calls ++ [c]) (l.call c) := by
  cases c with
  | take limit => exact h.take limit
  | absorb member kind => exact h.absorb member kind

theorem lossless_run (root : GroupId) (calls : List JobCall) :
    Lossless root calls (run root calls) := by
  -- What holds is told of the calls so far, so each call joins them at the end.
  induction calls using List.reverseRecOn with
  | nil => exact lossless_start root
  | append_singleton calls c ih =>
    rw [run, List.foldl_concat]
    exact ih.call c

/-- A group has been taken or is queued for the root and for each subgroup absorbed. -/
theorem Lossless.length_eq (h : Lossless root calls l) :
    l.batches.flatten.length + l.job.frontier.length = 1 + l.job.subgroups := by
  rw [← List.length_append, h.queue, List.length_cons, h.subgroups, Nat.add_comm]

/-- Batches stay as they were taken. -/
theorem batches_prefix (l : JobLog) (calls : List JobCall) :
    l.batches <+: (calls.foldl call l).batches := by
  induction calls generalizing l with
  | nil => exact List.prefix_rfl
  | cons c calls ih =>
    have hcall : l.batches <+: (l.call c).batches := by
      cases c with
      | take limit => exact List.prefix_append _ _
      | absorb member kind => exact List.prefix_rfl
    exact hcall.trans (ih _)

/-- What a take gives is to be found at its place among the batches. -/
theorem getElem?_batches (root : GroupId) (before : List JobCall) (limit : Nat)
    (later : List JobCall) :
    (run root (before ++ .take limit :: later)).batches[before.countP JobCall.isTake]? =
      some ((run root before).job.takeBatch limit).1 := by
  have hcount := (lossless_run root before).batches
  obtain ⟨more, hmore⟩ := batches_prefix ((run root before).call (.take limit)) later
  rw [run, List.foldl_append, List.foldl_cons, ← run, ← hmore, ← hcount]
  simp [call]

/-- Every take within the calls gives as many groups as it may and as are queued by then. -/
def TakesFit (root : GroupId) (calls : List JobCall) : Prop :=
  ∀ before limit later, calls = before ++ .take limit :: later →
    ∃ batch, (run root calls).batches[before.countP JobCall.isTake]? = some batch ∧
      batch <+: (run root before).job.frontier ∧
      batch.length = min (max limit 1) (run root before).job.frontier.length

theorem takesFit (root : GroupId) (calls : List JobCall) : TakesFit root calls := by
  rintro before limit later rfl
  refine ⟨_, getElem?_batches root before limit later, List.take_prefix _ _, ?_⟩
  rw [Job.takeBatch, List.length_take]

theorem foldl_absorb (l : JobLog) (rows : List MemberRow) :
    (rows.map fun row => JobCall.absorb row.1 row.2).foldl call l =
      ⟨l.job.absorbAll rows, l.batches⟩ := by
  rw [l.job.absorbAll_eq_absorbEach]
  induction rows generalizing l with
  | nil => rfl
  | cons row rows ih =>
    rw [List.map_cons, List.foldl_cons, ih]
    rfl

/-- A round takes a batch and absorbs the rows that its lookup finds. -/
theorem exists_run_of_round {σ : Type} {backend : Backend σ} {job : Job} {s t : σ}
    (hround : (run root calls).job.round backend s = (.ok job, t)) :
    ∃ later, (run root later).job = job := by
  rw [Job.round] at hround
  cases hlookup : backend.lookup ((run root calls).job.takeBatch backend.batchSize).1 s with
  | mk found after =>
    simp only [hlookup] at hround
    cases found with
    | error fault => cases hround
    | ok rows =>
      cases hround
      refine ⟨calls ++ .take backend.batchSize :: rows.map fun row => .absorb row.1 row.2, ?_⟩
      rw [run, List.foldl_append, List.foldl_cons, ← run, foldl_absorb]
      rfl

/-- Whatever a backend answers, a resolution comes as far as some calls do. -/
theorem exists_run_of_resolve {σ : Type} {backend : Backend σ} {fuel : Nat} {job : Job} {s : σ}
    (calls : List JobCall)
    (hresolve : (Job.resolve backend fuel (run root calls).job s).1.job? = some job) :
    ∃ later, (run root later).job = job := by
  induction fuel generalizing calls s with
  | zero =>
    rw [Job.resolve] at hresolve
    split at hresolve <;> exact ⟨calls, Option.some.inj hresolve⟩
  | succ fuel ih =>
    by_cases hresolved : (run root calls).job.isResolved
    · rw [Job.resolve_resolved hresolved] at hresolve
      exact ⟨calls, Option.some.inj hresolve⟩
    · cases hround : (run root calls).job.round backend s with
      | mk outcome t =>
        cases outcome with
        | error fault =>
          rw [Job.resolve_error hresolved hround] at hresolve
          cases hresolve
        | ok next =>
          rw [Job.resolve_ok hresolved hround] at hresolve
          obtain ⟨later, rfl⟩ := exists_run_of_round hround
          exact ih later hresolve

/-- Whatever calls are made on a job, its batches and its queue hold the root and every subgroup
absorbed, in order. A resolution makes no other changes to a job than calls do. -/
theorem queue_loses_nothing (root : GroupId) :
    (∀ calls, Lossless root calls (run root calls) ∧ TakesFit root calls ∧
      (run root calls).batches.flatten.length + (run root calls).job.frontier.length =
        1 + (run root calls).job.subgroups) ∧
    ∀ {σ : Type} (backend : Backend σ) fuel s job,
      (Job.resolve backend fuel (.start root) s).1.job? = some job →
        ∃ calls, (run root calls).job = job := by
  refine ⟨fun calls => ?_, fun backend fuel s job hresolve => ?_⟩
  · have hlossless := lossless_run root calls
    exact ⟨hlossless, takesFit root calls, hlossless.length_eq⟩
  · exact exists_run_of_resolve [] hresolve

/-- A batch has a group if there is one, and an empty one is a batch too. -/
example (root a b : GroupId) :
    (run root [.take 0, .absorb a .subgroup, .absorb b .user, .absorb a .subgroup, .take 1, .take 7,
      .take 7]).batches = [[root], [a], [a], []] := rfl

end JobLog

end GroupBench
