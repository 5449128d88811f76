import Mathlib.Algebra.BigOperators.Intervals
import Mathlib.Algebra.Order.BigOperators.Group.List
import GroupBench.Proofs.Select.Work

/-! The select pool ends. Every step of a worker that has not left takes something off what is left
to do, so no schedule keeps a worker from leaving that gives it enough turns. -/
namespace GroupBench.Select
variable {σ : Type}

/-- What is known of the jobs of a run: each that a worker has in hand or that waits in the channel
ends as its group does when it is resolved by itself, from the store before the run. -/
structure OnTrack (setup : Setup σ) (states : σ → Prop) (before : σ)
    (results : GroupId → Except StoreFault Job) (s : State σ) : Prop where
  store : states s.store
  held : ∀ w ∈ s.workers, ∀ job, w.pc.job? = some job →
    job.EndsWith setup.backend before (results job.root)
  waiting : ∀ job, s.channel = some job → job.EndsWith setup.backend before (results job.root)

variable {setup : Setup σ} {answer : List GroupId → Except StoreFault (List MemberRow)}
  {states : σ → Prop} {before : σ} {results : GroupId → Except StoreFault Job}
  {s t : State σ} {i : Nat} {w : Worker}

theorem onTrack_initial (now : Instant) {store : σ} (hstore : states store) :
    OnTrack setup states before results (setup.initial now store) := by
  refine ⟨hstore, ?_, ?_⟩
  · intro w hw job hjob
    rw [List.eq_of_mem_replicate hw] at hjob
    cases hjob
  · intro job hjob
    cases hjob

theorem onTrack_work (hread : setup.backend.ReadOnly answer states) (hbefore : states before)
    (hends : ∀ k < setup.totalJobs,
      (setup.jobAt k).EndsWith setup.backend before (results (setup.jobAt k).root))
    (ht : OnTrack setup states before results s) (hw : s.workers[i]? = some w)
    (he : Work setup s i w t) : OnTrack setup states before results t := by
  have hheld := ht.held w (List.mem_of_getElem? hw)
  have hset (v : Worker) (hv : ∀ job, v.pc.job? = some job →
      job.EndsWith setup.backend before (results job.root)) :
      ∀ u ∈ s.workers.set i v, ∀ job, u.pc.job? = some job →
        job.EndsWith setup.backend before (results job.root) := by
    intro u hu
    rcases List.mem_or_eq_of_mem_set hu with hu | rfl
    · exact ht.held u hu
    · exact hv
  have hnone (v : Worker) (hv : v.pc.job? = none) : ∀ job, v.pc.job? = some job →
      job.EndsWith setup.backend before (results job.root) := by
    intro job hjob
    rw [hv] at hjob
    cases hjob
  have hsome (v : Worker) {job : Job} (hv : v.pc.job? = some job)
      (hjob : job.EndsWith setup.backend before (results job.root)) :
      ∀ job, v.pc.job? = some job →
        job.EndsWith setup.backend before (results job.root) := by
    intro other hother
    rw [hv] at hother
    cases hother
    exact hjob
  cases he with
  | moved v next window events hjob =>
    exact ⟨ht.store, hset v (hjob ▸ hheld), ht.waiting⟩
  | received job v hchannel _ hjob =>
    exact ⟨ht.store, hset v (hsome v hjob (ht.waiting job hchannel)), by rintro _ ⟨⟩⟩
  | claimed v hlt _ hjob =>
    exact ⟨ht.store, hset v (hsome v hjob (hends s.next hlt)), ht.waiting⟩
  | sent job v _ hjob hjob' =>
    refine ⟨ht.store, hset v (hnone v hjob'), ?_⟩
    rintro _ ⟨⟩
    exact hheld job hjob
  | expanded job next v store hopen hround hjob hjob' =>
    obtain ⟨hstore, -⟩ := Job.exists_round hread ht.store ht.store hround
    have hnext := (hheld job hjob).of_ok hread hbefore ht.store hopen hround
    rw [← round_root hround] at hnext
    exact ⟨hstore, hset v (hsome v hjob' hnext), ht.waiting⟩
  | ended job outcome latency v store events hlast hjob hjob' =>
    obtain ⟨-, hstore⟩ := (hheld job hjob).of_ends hread hbefore ht.store hlast
    exact ⟨hstore, hset v (hnone v hjob'), ht.waiting⟩

/-- Enough steps for a worker to leave if it finds no other job. -/
noncomputable def Worker.stepsLeft (setup : Setup σ) (before : σ) (w : Worker) : Nat :=
  w.pc.weight + (w.pc.job?.map (Job.roundsLeft setup.backend before)).getD 0

/-- Enough steps for all workers to leave. -/
noncomputable def State.stepsLeft (setup : Setup σ) (before : σ) (s : State σ) : Nat :=
  (s.workers.map (Worker.stepsLeft setup before)).sum +
    (s.channel.map fun job => waitingWeight + job.roundsLeft setup.backend before).getD 0 +
    ∑ k ∈ Finset.Ico s.next setup.totalJobs,
      (unclaimedWeight + (setup.jobAt k).roundsLeft setup.backend before)

theorem stepsLeft_work (hread : setup.backend.ReadOnly answer states) (hbefore : states before)
    (ht : OnTrack setup states before results s) (hw : s.workers[i]? = some w)
    (he : Work setup s i w t) : t.stepsLeft setup before < s.stepsLeft setup before := by
  obtain ⟨others, hperm, hset⟩ := Pool.exists_others hw
  have hsum := (hperm.map (Worker.stepsLeft setup before)).sum_eq
  have hsum' (v : Worker) := ((hset v).map (Worker.stepsLeft setup before)).sum_eq
  simp only [List.map_cons, List.sum_cons] at hsum hsum'
  cases he with
  | moved v next window events hjob hweight hnext =>
    have hclaims : ∑ k ∈ Finset.Ico next setup.totalJobs,
        (unclaimedWeight + (setup.jobAt k).roundsLeft setup.backend before) =
        ∑ k ∈ Finset.Ico s.next setup.totalJobs,
          (unclaimedWeight + (setup.jobAt k).roundsLeft setup.backend before) := by
      rcases hnext with rfl | ⟨hover, hle⟩
      · rfl
      · rw [Finset.Ico_eq_empty_of_le hover, Finset.Ico_eq_empty_of_le (Nat.le_trans hover hle)]
    simp only [State.stepsLeft, hsum, hsum', hclaims, Worker.stepsLeft, hjob]
    omega
  | received job v hchannel hjob hjob' hweight =>
    simp only [State.stepsLeft, hsum, hsum', Worker.stepsLeft, hjob, hjob', hchannel,
      Option.map_some, Option.map_none, Option.getD_some, Option.getD_none]
    omega
  | claimed v hlt hjob hjob' hweight =>
    simp only [State.stepsLeft, hsum, hsum', Worker.stepsLeft, hjob, hjob',
      Finset.sum_eq_sum_Ico_succ_bot hlt, Option.map_some, Option.map_none, Option.getD_some,
      Option.getD_none]
    omega
  | sent job v hchannel hjob hjob' hweight =>
    simp only [State.stepsLeft, hsum, hsum', Worker.stepsLeft, hjob, hjob', hchannel,
      Option.map_some, Option.map_none, Option.getD_some, Option.getD_none]
    omega
  | expanded job next v store hopen hround hjob hjob' hweight =>
    have hless := (ht.held w (List.mem_of_getElem? hw) job hjob).roundsLeft_lt hread hbefore
      ht.store hopen hround
    simp only [State.stepsLeft, hsum, hsum', Worker.stepsLeft, hjob, hjob', hweight,
      Option.map_some, Option.getD_some]
    omega
  | ended job outcome latency v store events _ hjob hjob' hweight =>
    simp only [State.stepsLeft, hsum, hsum', Worker.stepsLeft, hjob, hjob',
      Option.map_some, Option.map_none, Option.getD_some, Option.getD_none]
    omega

theorem stepsLeft_pos (setup : Setup σ) (before : σ) (hw : s.workers[i]? = some w)
    (hopen : w.pc ≠ .done) : 0 < s.stepsLeft setup before := by
  have hweight : 0 < w.stepsLeft setup before :=
    Nat.lt_of_lt_of_le (Nat.pos_of_ne_zero (mt PC.weight_eq_zero_iff.1 hopen)) (Nat.le_add_right ..)
  have hle := List.le_sum_of_mem
    (List.mem_map_of_mem (f := Worker.stepsLeft setup before) (List.mem_of_getElem? hw))
  rw [State.stepsLeft]
  omega

section Steps
variable (hread : setup.backend.ReadOnly answer states) (hbefore : states before)
  (hends : ∀ k < setup.totalJobs,
    (setup.jobAt k).EndsWith setup.backend before (results (setup.jobAt k).root))
include hread hbefore hends

theorem onTrack_step (ht : OnTrack setup states before results s) (turn : Turn) :
    OnTrack setup states before results (s.step setup turn) := by
  obtain ⟨he, -⟩ | ⟨w, hw, -, he⟩ := step_work setup s turn
  · exact he.symm ▸ ht
  · exact onTrack_work hread hbefore hends ht hw he

/-- The worker at a place has left, if there is one. -/
def Idle (s : State σ) (i : Nat) : Prop := ∀ w, s.workers[i]? = some w → w.pc = .done

omit hread hbefore hends in
theorem idle_step (hidle : Idle s i) (turn : Turn) : Idle (s.step setup turn) i := by
  obtain ⟨he, -⟩ | ⟨w, hw, hopen, he⟩ := step_work setup s turn
  · exact he.symm ▸ hidle
  · have hne : turn.worker ≠ i := by
      rintro rfl
      exact hopen (hidle w hw)
    obtain ⟨v, hv⟩ := work_workers he
    intro u hu
    rw [hv, List.getElem?_set_ne hne] at hu
    exact hidle u hu

theorem poolEnds : Pool.Ends (State.step setup)
    (fun s k => OnTrack setup states before results s ∧ s.stepsLeft setup before = k) Idle where
  advance := by
    rintro s turn k ⟨ht, rfl⟩
    obtain ⟨he, hidle⟩ | ⟨w, hw, -, he⟩ := step_work setup s turn
    · exact .inl ⟨he, hidle⟩
    · exact .inr ⟨_, stepsLeft_work hread hbefore ht hw he,
        onTrack_step hread hbefore hends ht turn, rfl⟩
  rest _ turn _ hidle := idle_step hidle turn
  spent := by
    rintro s i ⟨-, hzero⟩ w hw
    by_contra hopen
    exact Nat.ne_of_gt (stepsLeft_pos setup before hw hopen) hzero

end Steps

theorem isDone_iff : s.isDone ↔ ∀ w ∈ s.workers, w.pc = .done := by
  rw [State.isDone, List.all_eq_true]
  refine forall₂_congr fun w _ => ?_
  cases w.pc <;> simp

/-- A schedule that gives every worker as many turns as there are steps to go sees all of them
off. -/
theorem isDone_of_enough (hread : setup.backend.ReadOnly answer states) (hbefore : states before)
    (hends : ∀ k < setup.totalJobs,
      (setup.jobAt k).EndsWith setup.backend before (results (setup.jobAt k).root))
    (ht : OnTrack setup states before results s) (schedule : List Turn)
    (hturns : ∀ i < (Pool.exec (State.step setup) schedule s).workers.length,
      s.stepsLeft setup before ≤ schedule.countP fun turn => turn.worker = i) :
    (Pool.exec (State.step setup) schedule s).isDone := by
  refine isDone_iff.2 fun w hmem => ?_
  obtain ⟨i, hw⟩ := List.mem_iff_getElem?.1 hmem
  have hgiven := hturns i (List.getElem?_eq_some_iff.1 hw).1
  exact (poolEnds hread hbefore hends).idle_of_enough schedule ⟨ht, rfl⟩ hgiven w hw

end GroupBench.Select
