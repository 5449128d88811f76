import Mathlib.Algebra.Group.Prod
import Mathlib.Algebra.GroupWithZero.Nat
import GroupBench.Fill.Run
import GroupBench.Proofs.Pool

/-! What a step of the fill pool changes in the accounts of a run: which units are claimed, which
are handed to the store, and how many writes each sample knows of. -/
namespace GroupBench

/-- Completed and failed operations of a sample. -/
def Sample.tally (s : Sample) : Nat × Nat := (s.count, s.failures)

namespace Sample

@[simp] theorem tally_merge (s t : Sample) : (s.merge t).tally = s.tally + t.tally := rfl

end Sample

/-- An accepted write counts as completed, a refused one as failed. -/
def tallyOf : Except StoreFault Unit → Nat × Nat
  | .ok () => (1, 0)
  | .error _ => (0, 1)

namespace Fill

/-- A write that was handed to the store, and its answer. -/
def Event.handed? : Event → Option (Address × Except StoreFault Unit)
  | .wrote a result => some (a, result)
  | .started | .entering _ | .closed .. => none

/-- What was handed to the store, in the order of the events. -/
def handed (events : List Event) : List (Address × Except StoreFault Unit) :=
  events.filterMap Event.handed?

namespace PC

/-- The unit that a worker has claimed and not yet handed to the store. -/
def unit? : PC → Option Address
  | .crossing _ a | .crossed _ a | .timing _ a | .writing _ a _ => some a
  | _ => none

/-- The worker has found nothing left to claim. -/
def isOut : PC → Bool
  | .leaving | .done => true
  | _ => false

end PC

/-- Writes that the shared window does not know of yet. -/
def Worker.owed (w : Worker) : Nat × Nat :=
  match w.pc with
  | .recording _ _ _ result => w.sample.tally + tallyOf result
  | .done => 0
  | _ => w.sample.tally

variable {σ : Type}

/-- What a step of worker `w` at place `i` does to the accounts. -/
inductive Effect (setup : Setup σ) (s : State σ) (i : Nat) (w : Worker) : State σ → Prop
  /-- The worker moves on and the accounts stand as they are. -/
  | quiet (v : Worker) : v.pc.unit? = w.pc.unit? → v.pc.isOut = w.pc.isOut → v.owed = w.owed →
      Effect setup s i w { s with workers := s.workers.set i v }
  | claimed (a : Address) (v : Worker) (events : List Event) :
      setup.plan.address s.next = some a → w.pc.unit? = none → w.pc.isOut = false →
      v.pc.unit? = some a → v.pc.isOut = false → v.owed = w.owed →
      handed events = handed s.events →
      Effect setup s i w { s with next := s.next + 1, workers := s.workers.set i v, events }
  | overran (v : Worker) :
      setup.plan.address s.next = none → w.pc.unit? = none → w.pc.isOut = false →
      v.pc.unit? = none → v.pc.isOut = true → v.owed = w.owed →
      Effect setup s i w { s with next := s.next + 1, workers := s.workers.set i v }
  | wrote (a : Address) (v : Worker) (result : Except StoreFault Unit) (store : σ) :
      w.pc.unit? = some a → v.pc.unit? = none → v.pc.isOut = w.pc.isOut →
      setup.backend.write (setup.plan.write a) s.store = (result, store) →
      v.owed = w.owed + tallyOf result →
      Effect setup s i w
        { s with store, workers := s.workers.set i v, events := .wrote a result :: s.events }
  | folded (v : Worker) (window : StatsWindow) (events : List Event) :
      v.pc.unit? = w.pc.unit? → v.pc.isOut = w.pc.isOut →
      window.totals.tally + v.owed = s.window.totals.tally + w.owed →
      handed events = handed s.events →
      Effect setup s i w { s with window, workers := s.workers.set i v, events }

section Operations
variable {setup : Setup σ} {s : State σ} {i : Nat} {w : Worker} {k : UInt64} {a : Address}

theorem claim_effect (hpc : w.pc = .claiming) :
    Effect setup s i w (s.claim setup.plan i w) := by
  have hunit : w.pc.unit? = none := by rw [hpc]; rfl
  have hin : w.pc.isOut = false := by rw [hpc]; rfl
  have howed : w.owed = w.sample.tally := by rw [Worker.owed, hpc]
  rw [State.claim]
  split
  · rename_i ha
    exact .overran { w with pc := .leaving } ha hunit hin rfl rfl howed.symm
  · rename_i a ha
    split
    · exact .claimed a { w with pc := .crossing s.next a } (.entering a.level :: s.events)
        ha hunit hin rfl rfl howed.symm rfl
    · exact .claimed a { w with pc := .timing s.next a } s.events
        ha hunit hin rfl rfl howed.symm rfl

theorem cross_effect (now : Instant) (hpc : w.pc = .crossing k a) :
    Effect setup s i w (s.cross now i w k a) := by
  have howed : w.owed = w.sample.tally := by rw [Worker.owed, hpc]
  apply Effect.folded { w with pc := .crossed k a, sample := .empty }
  · rw [hpc]
    rfl
  · rw [hpc]
    rfl
  · rw [howed]
    rfl
  · rfl

theorem foldDue_effect (now : Instant) (hpc : w.pc = .folding k a) :
    Effect setup s i w (s.foldDue now i w k a) := by
  have hunit : w.pc.unit? = none := by rw [hpc]; rfl
  have hin : w.pc.isOut = false := by rw [hpc]; rfl
  have howed : w.owed = w.sample.tally := by rw [Worker.owed, hpc]
  rw [State.foldDue, StatsWindow.takeIfDue]
  split
  · rename_i snapshot? window he
    split at he
    · cases he
      exact .folded { w with pc := .folded, sample := .empty } _ (_ :: s.events) hunit.symm hin.symm
        (by rw [howed]; rfl) rfl
    · cases he
      exact .folded { w with pc := .folded, sample := .empty } _ s.events hunit.symm hin.symm
        (by rw [howed]; rfl) rfl

theorem write_effect {begun : Instant} (hpc : w.pc = .writing k a begun) :
    Effect setup s i w (s.write setup i w k a begun) := by
  apply Effect.wrote a { w with pc := .recording k a begun _ }
  · rw [hpc]
    rfl
  · rfl
  · rw [hpc]
    rfl
  · rfl
  · rw [Worker.owed, Worker.owed, hpc]

/-- A step leaves everything as it is or has one of the effects. -/
theorem step_effect (setup : Setup σ) (s : State σ) (turn : Turn) :
    s.step setup turn = s ∨ ∃ w, s.workers[turn.worker]? = some w ∧
      Effect setup s turn.worker w (s.step setup turn) := by
  cases hw : s.workers[turn.worker]? with
  | none => simp [State.step, hw]
  | some w =>
    by_cases hdone : w.pc = .done
    · simp [State.step, hw, hdone]
    right
    refine ⟨w, rfl, ?_⟩
    simp only [State.step, hw]
    cases hpc : w.pc with
    | done => exact absurd hpc hdone
    | claiming => exact claim_effect hpc
    | crossing k a => exact cross_effect turn.now hpc
    | writing k a begun => exact write_effect hpc
    | folding k a => exact foldDue_effect turn.now hpc
    | leaving =>
      refine .folded { w with pc := .done } _ s.events ?_ ?_ ?_ rfl
      · rw [hpc]
        rfl
      · rw [hpc]
        rfl
      · rw [Worker.owed, Worker.owed, hpc]
        simp [StatsWindow.fold]
    | recording k a begun result =>
      refine .quiet _ ?_ ?_ ?_
      · rw [hpc]
        rfl
      · rw [hpc]
        rfl
      · rw [Worker.owed, Worker.owed, hpc]
        cases result <;> rfl
    | checking k a =>
      dsimp only
      split <;> apply Effect.quiet <;> simp [Worker.owed, PC.unit?, PC.isOut, hpc]
    | starting | crossed | timing | folded =>
      refine .quiet _ ?_ ?_ ?_ <;> simp [Worker.owed, PC.unit?, PC.isOut, hpc]

end Operations

end Fill

end GroupBench
