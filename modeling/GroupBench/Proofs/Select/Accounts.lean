import GroupBench.Proofs.Pool
import GroupBench.Select.Run

/-! What a step of the select pool does with the jobs: which are claimed, which wait in the channel,
which worker has one in hand, and which are finished. -/
namespace GroupBench.Select

/-- The root of a job that has come to its end, resolved or not. -/
def Event.finished? : Event → Option GroupId
  | .resolved root | .failed root _ => some root
  | .started | .closed .. => none

/-- Roots of the finished jobs, in the order of the events. -/
def finished (events : List Event) : List GroupId := events.filterMap Event.finished?

namespace PC

/-- The root of the job that a worker has in hand. -/
def root? : PC → Option GroupId
  | .offering job | .timing job | .resolving job _ => some job.root
  | _ => none

/-- The worker has found nothing left to claim. -/
def isOut : PC → Bool
  | .lastReceiving | .leaving | .done => true
  | _ => false

/-- The worker claims nothing more before a job comes to its end. -/
def isSpent : PC → Bool
  | .timing _ | .resolving .. => true
  | pc => pc.isOut

end PC

/-- A round expands the queue of a job and keeps its root. -/
theorem round_root {σ : Type} {backend : Backend σ} {j j' : Job} {s t : σ}
    (h : j.round backend s = (.ok j', t)) : j'.root = j.root := by
  rw [Job.round] at h
  split at h
  rename_i batch rest htake
  cases htake
  split at h <;> cases h
  rfl

variable {σ : Type}

/-- What a step of worker `w` at place `i` does with the jobs. -/
inductive Effect (setup : Setup σ) (s : State σ) (i : Nat) (w : Worker) : State σ → Prop
  /-- No job is touched. A worker that has looked for a job in vain found the channel empty. -/
  | quiet (v : Worker) (window : StatsWindow) (store : σ) (events : List Event) :
      v.pc.root? = w.pc.root? → v.pc.isOut = w.pc.isOut → (w.pc.isSpent → v.pc.isSpent) →
      (w.pc = .receiving → s.channel = none) → finished events = finished s.events →
      Effect setup s i w { s with window, store, workers := s.workers.set i v, events }
  | received (job : Job) (v : Worker) :
      s.channel = some job → w.pc.root? = none → v.pc.root? = some job.root → v.pc.isOut = false →
      v.pc.isSpent →
      Effect setup s i w { s with channel := none, workers := s.workers.set i v }
  | claimed (v : Worker) :
      s.next < setup.totalJobs → w.pc = .claiming → v.pc.root? = some (setup.jobAt s.next).root →
      v.pc.isOut = false →
      Effect setup s i w { s with next := s.next + 1, workers := s.workers.set i v }
  | overran (v : Worker) :
      setup.totalJobs ≤ s.next → w.pc = .claiming → v.pc.root? = none → v.pc.isSpent →
      Effect setup s i w { s with next := s.next + 1, workers := s.workers.set i v }
  | sent (job : Job) (v : Worker) :
      s.channel = none → w.pc = .offering job → v.pc = .receiving →
      Effect setup s i w { s with channel := some job, workers := s.workers.set i v }
  | ended (root : GroupId) (v : Worker) (store : σ) (events : List Event) :
      w.pc.root? = some root → w.pc.isOut = false → v.pc.root? = none → v.pc.isOut = false →
      finished events = root :: finished s.events →
      Effect setup s i w { s with store, workers := s.workers.set i v, events }

section Operations
variable {setup : Setup σ} {s : State σ} {i : Nat} {w : Worker}

theorem receive_effect {otherwise : PC} (hroot : w.pc.root? = none) (hroot' : otherwise.root? = none)
    (hout : otherwise.isOut = w.pc.isOut) (hspent : w.pc.isSpent → otherwise.isSpent) :
    Effect setup s i w (s.receive i w otherwise) := by
  rw [State.receive]
  split
  · rename_i job hjob
    exact .received job { w with pc := .timing job } hjob hroot rfl rfl rfl
  · rename_i hnone
    exact .quiet { w with pc := otherwise } s.window s.store s.events (hroot'.trans hroot.symm) hout
      hspent (fun _ => hnone) rfl

theorem claim_effect (hpc : w.pc = .claiming) : Effect setup s i w (s.claim setup i w) := by
  rw [State.claim]
  split
  · rename_i hlt
    exact .claimed { w with pc := .offering (setup.jobAt s.next) } hlt hpc rfl rfl
  · rename_i hle
    exact .overran { w with pc := .lastReceiving } (Nat.le_of_not_lt hle) hpc rfl rfl

theorem offer_effect {job : Job} (hpc : w.pc = .offering job) :
    Effect setup s i w (s.offer i w job) := by
  rw [State.offer]
  split
  · rename_i hnone
    exact .sent job { w with pc := .receiving } hnone hpc rfl
  · refine .quiet { w with pc := .timing job } s.window s.store s.events ?_ ?_ ?_ ?_ rfl <;>
      simp [hpc, PC.root?, PC.isOut, PC.isSpent]

theorem advance_effect {job : Job} {begun : Instant} (now : Instant)
    (hpc : w.pc = .resolving job begun) :
    Effect setup s i w (s.advance setup now i w job begun) := by
  have hroot : w.pc.root? = some job.root := by rw [hpc]; rfl
  have hin : w.pc.isOut = false := by rw [hpc]; rfl
  rw [State.advance]
  split
  · exact .ended job.root { w with pc := .checking, sample := _ } s.store
      (.resolved job.root :: s.events) hroot hin rfl rfl rfl
  · split
    · rename_i next store hround
      refine .quiet { w with pc := .resolving next begun } s.window store s.events ?_ ?_ ?_ ?_ rfl
      · rw [hroot, ← round_root hround]
        rfl
      · exact hin.symm
      · exact fun _ => rfl
      · simp [hpc]
    · rename_i fault store _
      exact .ended job.root { w with pc := .checking, sample := _ } store
        (.failed job.root fault :: s.events) hroot hin rfl rfl rfl

theorem foldDue_effect (now : Instant) (hpc : w.pc = .folding) :
    Effect setup s i w (s.foldDue now i w) := by
  have hroot : w.pc.root? = none := by rw [hpc]; rfl
  have hin : w.pc.isOut = false := by rw [hpc]; rfl
  rw [State.foldDue, StatsWindow.takeIfDue]
  split
  · rename_i snapshot? window he
    split at he
    · cases he
      exact .quiet { w with pc := .folded, sample := .empty } _ s.store (_ :: s.events)
        hroot.symm hin.symm (by simp [hpc, PC.isSpent, PC.isOut]) (by simp [hpc]) rfl
    · cases he
      exact .quiet { w with pc := .folded, sample := .empty } _ s.store s.events
        hroot.symm hin.symm (by simp [hpc, PC.isSpent, PC.isOut]) (by simp [hpc]) rfl

end Operations

/-- A step leaves everything as it is or has one of the effects. -/
theorem step_effect (setup : Setup σ) (s : State σ) (turn : Turn) :
    s.step setup turn = s ∨ ∃ w, s.workers[turn.worker]? = some w ∧
      Effect setup s turn.worker w (s.step setup turn) := by
  cases hw : s.workers[turn.worker]? with
  | none => simp [State.step, hw]
  | some w =>
    by_cases hdone : w.pc = .done
    · simp [State.step, hw, hdone]
    right
    refine ⟨w, rfl, ?_⟩
    simp only [State.step, hw]
    cases hpc : w.pc with
    | done => exact absurd hpc hdone
    | receiving =>
      exact receive_effect (by rw [hpc]; rfl) rfl (by rw [hpc]; rfl)
        (by simp [hpc, PC.isSpent, PC.isOut])
    | claiming => exact claim_effect hpc
    | offering job => exact offer_effect hpc
    | lastReceiving =>
      exact receive_effect (by rw [hpc]; rfl) rfl (by rw [hpc]; rfl)
        (by simp [hpc, PC.isSpent, PC.isOut])
    | resolving job begun => exact advance_effect turn.now hpc
    | folding => exact foldDue_effect turn.now hpc
    | leaving =>
      refine .quiet { w with pc := .done } _ s.store s.events ?_ ?_ ?_ ?_ rfl <;>
        simp [PC.root?, PC.isOut, PC.isSpent, hpc]
    | checking =>
      dsimp only
      split <;> refine .quiet _ s.window s.store s.events ?_ ?_ ?_ ?_ rfl <;>
        simp [PC.root?, PC.isOut, PC.isSpent, hpc]
    | starting | timing | folded =>
      refine .quiet _ s.window s.store s.events ?_ ?_ ?_ ?_ rfl <;>
        simp [PC.root?, PC.isOut, PC.isSpent, hpc]

end GroupBench.Select
