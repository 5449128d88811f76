import GroupBench.Proofs.Resolve.Ending
import GroupBench.Proofs.Select.Accounts
import GroupBench.Proofs.Stats.Merge

/-! What a step of the select pool does with the work: which jobs it moves or expands, what it adds
to the samples, and how much is left to do after it. -/
namespace GroupBench.Select

/-- What a job adds to the statistics when it comes to its end: a failed one adds a failure and
nothing else. -/
def contribution (latency : Duration) : Except StoreFault Job → Sample
  | .ok job => Sample.empty.recordJob latency job.subgroups job.memberCount job.depth
  | .error _ => Sample.empty.recordFailure

namespace PC

/-- The job that a worker has in hand. -/
def job? : PC → Option Job
  | .offering job | .timing job | .resolving job _ => some job
  | _ => none

/-- Enough steps for a worker to leave from where it stands if it finds no job, and if it has one in
hand, the rounds of which are not counted. -/
def weight : PC → Nat
  | .offering _ => 13
  | .timing _ => 9
  | .resolving .. => 8
  | .checking => 7
  | .folding => 6
  | .starting | .folded => 5
  | .receiving => 4
  | .claiming => 3
  | .lastReceiving => 2
  | .leaving => 1
  | .done => 0

theorem weight_eq_zero_iff {pc : PC} : pc.weight = 0 ↔ pc = .done := by
  cases pc <;> simp [weight]

end PC

/-- Enough steps for a job that waits in the channel, its rounds not counted. -/
def waitingWeight : Nat := 8

/-- Enough steps for a job that is yet to be claimed, its rounds not counted. -/
def unclaimedWeight : Nat := 11

/-- What the shared window does not know of yet. -/
def Worker.owed (w : Worker) : Sample :=
  match w.pc with
  | .done => 0
  | _ => w.sample

theorem Worker.owed_eq {w : Worker} (hpc : w.pc ≠ .done) : w.owed = w.sample := by
  rw [owed]
  split
  · contradiction
  · rfl

variable {σ : Type}

/-- What a step of worker `w` at place `i` does with the work. -/
inductive Work (setup : Setup σ) (s : State σ) (i : Nat) (w : Worker) : State σ → Prop
  /-- The worker moves on and no job does. -/
  | moved (v : Worker) (next : Nat) (window : StatsWindow) (events : List Event) :
      v.pc.job? = w.pc.job? → v.pc.weight < w.pc.weight →
      (next = s.next ∨ setup.totalJobs ≤ s.next ∧ s.next ≤ next) →
      window.totals + v.owed = s.window.totals + w.owed →
      finished events = finished s.events →
      Work setup s i w { s with next, window, workers := s.workers.set i v, events }
  | received (job : Job) (v : Worker) :
      s.channel = some job → w.pc.job? = none → v.pc.job? = some job →
      v.pc.weight < w.pc.weight + waitingWeight → v.owed = w.owed →
      Work setup s i w { s with channel := none, workers := s.workers.set i v }
  | claimed (v : Worker) :
      s.next < setup.totalJobs → w.pc.job? = none → v.pc.job? = some (setup.jobAt s.next) →
      v.pc.weight < w.pc.weight + unclaimedWeight → v.owed = w.owed →
      Work setup s i w { s with next := s.next + 1, workers := s.workers.set i v }
  | sent (job : Job) (v : Worker) :
      s.channel = none → w.pc.job? = some job → v.pc.job? = none →
      v.pc.weight + waitingWeight < w.pc.weight → v.owed = w.owed →
      Work setup s i w { s with channel := some job, workers := s.workers.set i v }
  | expanded (job next : Job) (v : Worker) (store : σ) :
      ¬ job.isResolved → job.round setup.backend s.store = (.ok next, store) →
      w.pc.job? = some job → v.pc.job? = some next → v.pc.weight = w.pc.weight → v.owed = w.owed →
      Work setup s i w { s with store, workers := s.workers.set i v }
  | ended (job : Job) (outcome : Except StoreFault Job) (latency : Duration) (v : Worker)
      (store : σ) (events : List Event) :
      job.Ends setup.backend s.store outcome store →
      w.pc.job? = some job → v.pc.job? = none → v.pc.weight < w.pc.weight →
      v.owed = w.owed + contribution latency outcome →
      finished events = job.root :: finished s.events →
      Work setup s i w { s with store, workers := s.workers.set i v, events }

section Operations
variable {setup : Setup σ} {s : State σ} {i : Nat} {w : Worker}

/-- A worker that moves on by itself keeps its job and its sample. -/
theorem move_work {v : Worker} (hjob : v.pc.job? = w.pc.job?) (hweight : v.pc.weight < w.pc.weight)
    (howed : v.owed = w.owed) : Work setup s i w (s.setWorker i v) :=
  .moved v s.next s.window s.events hjob hweight (.inl rfl) (congrArg _ howed) rfl

theorem receive_work {otherwise : PC} (hjob : w.pc.job? = none) (hjob' : otherwise.job? = none)
    (hweight : ∀ job, (PC.timing job).weight < w.pc.weight + waitingWeight)
    (hweight' : otherwise.weight < w.pc.weight) (hpc : w.pc ≠ .done) (hpc' : otherwise ≠ .done) :
    Work setup s i w (s.receive i w otherwise) := by
  have howed := Worker.owed_eq hpc
  rw [State.receive]
  split
  · rename_i job hsome
    exact .received job { w with pc := .timing job } hsome hjob rfl (hweight job) howed.symm
  · exact move_work (hjob'.trans hjob.symm) hweight' ((Worker.owed_eq hpc').trans howed.symm)

theorem claim_work (hpc : w.pc = .claiming) : Work setup s i w (s.claim setup i w) := by
  have howed : w.owed = w.sample := Worker.owed_eq (by simp [hpc])
  rw [State.claim]
  split
  · rename_i hlt
    refine .claimed { w with pc := .offering (setup.jobAt s.next) } hlt ?_ rfl ?_ howed.symm
    · rw [hpc]
      rfl
    · simp [hpc, PC.weight, unclaimedWeight]
  · rename_i hle
    refine .moved { w with pc := .lastReceiving } (s.next + 1) s.window s.events ?_ ?_
      (.inr ⟨Nat.le_of_not_lt hle, Nat.le_succ _⟩) (congrArg _ howed.symm) rfl
    · rw [hpc]
      rfl
    · simp [hpc, PC.weight]

theorem offer_work {job : Job} (hpc : w.pc = .offering job) :
    Work setup s i w (s.offer i w job) := by
  have howed : w.owed = w.sample := Worker.owed_eq (by simp [hpc])
  have hjob : w.pc.job? = some job := by rw [hpc]; rfl
  rw [State.offer]
  split
  · rename_i hnone
    refine .sent job { w with pc := .receiving } hnone hjob rfl ?_ howed.symm
    simp [hpc, PC.weight, waitingWeight]
  · refine move_work hjob.symm ?_ howed.symm
    simp [hpc, PC.weight]

theorem advance_work {job : Job} {begun : Instant} (now : Instant)
    (hpc : w.pc = .resolving job begun) :
    Work setup s i w (s.advance setup now i w job begun) := by
  have howed : w.owed = w.sample := Worker.owed_eq (by simp [hpc])
  have hjob : w.pc.job? = some job := by rw [hpc]; rfl
  have hweight : PC.checking.weight < w.pc.weight := by simp [hpc, PC.weight]
  rw [State.advance]
  split
  · rename_i hresolved
    refine .ended job (.ok job) (now.since begun) { w with pc := .checking, sample := _ } s.store
      (.resolved job.root :: s.events) (.resolved hresolved) hjob rfl hweight ?_ rfl
    rw [howed]
    exact Sample.recordJob_eq ..
  · rename_i hopen
    split
    · rename_i next store hround
      exact .expanded job next { w with pc := .resolving next begun } store hopen hround hjob rfl
        (by rw [hpc]; rfl) howed.symm
    · rename_i fault store hround
      refine .ended job (.error fault) .zero { w with pc := .checking, sample := _ } store
        (.failed job.root fault :: s.events) (.failed hopen hround) hjob rfl hweight ?_ rfl
      rw [howed]
      exact Sample.recordFailure_eq _

/-- What a worker folds in is no longer owed. -/
theorem fold_totals (howed : w.owed = w.sample) (window : StatsWindow) :
    (window.fold w.sample).totals + 0 = window.totals + w.owed := by
  rw [howed, add_zero]
  rfl

theorem foldDue_work (now : Instant) (hpc : w.pc = .folding) :
    Work setup s i w (s.foldDue now i w) := by
  have howed : w.owed = w.sample := Worker.owed_eq (by simp [hpc])
  have hjob : w.pc.job? = none := by rw [hpc]; rfl
  have hweight : PC.folded.weight < w.pc.weight := by simp [hpc, PC.weight]
  rw [State.foldDue, StatsWindow.takeIfDue]
  split
  rename_i snapshot? window he
  split at he
  · cases he
    exact .moved { w with pc := .folded, sample := .empty } s.next _ (_ :: s.events) hjob.symm
      hweight (.inl rfl) (fold_totals howed s.window) rfl
  · cases he
    exact .moved { w with pc := .folded, sample := .empty } s.next _ s.events hjob.symm
      hweight (.inl rfl) (fold_totals howed s.window) rfl

/-- A step of a worker that has not left does work; there are no other steps. -/
theorem step_work (setup : Setup σ) (s : State σ) (turn : Turn) :
    (s.step setup turn = s ∧ ∀ w, s.workers[turn.worker]? = some w → w.pc = .done) ∨
      ∃ w, s.workers[turn.worker]? = some w ∧ w.pc ≠ .done ∧
        Work setup s turn.worker w (s.step setup turn) := by
  cases hw : s.workers[turn.worker]? with
  | none => simp [State.step, hw]
  | some w =>
    by_cases hdone : w.pc = .done
    · left
      simp [State.step, hw, hdone]
    right
    refine ⟨w, rfl, hdone, ?_⟩
    have howed := Worker.owed_eq hdone
    simp only [State.step, hw]
    cases hpc : w.pc with
    | done => exact absurd hpc hdone
    | receiving => apply receive_work <;> simp [hpc, PC.job?, PC.weight, waitingWeight]
    | lastReceiving => apply receive_work <;> simp [hpc, PC.job?, PC.weight, waitingWeight]
    | claiming => exact claim_work hpc
    | offering job => exact offer_work hpc
    | resolving job begun => exact advance_work turn.now hpc
    | folding => exact foldDue_work turn.now hpc
    | leaving =>
      refine .moved { w with pc := .done } s.next (s.window.fold w.sample) s.events ?_ ?_
        (.inl rfl) (fold_totals howed s.window) rfl <;> simp [hpc, PC.job?, PC.weight]
    | checking =>
      dsimp only
      split <;> refine move_work ?_ ?_ howed.symm <;> simp [hpc, PC.job?, PC.weight]
    | starting | timing | folded =>
      refine move_work ?_ ?_ howed.symm <;> simp [hpc, PC.job?, PC.weight]

theorem work_workers {t : State σ} (he : Work setup s i w t) :
    ∃ v, t.workers = s.workers.set i v := by
  cases he <;> exact ⟨_, rfl⟩

end Operations

end GroupBench.Select
