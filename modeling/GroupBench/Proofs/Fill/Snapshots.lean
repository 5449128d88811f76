import GroupBench.Proofs.Fill.ExactlyOnce
import GroupBench.Proofs.Stats.Snapshots

/-! The windows that a fill run closes. Workers keep samples of their own, which reach the totals at
level starts, when a period has passed and when they leave; each sample is then in one window. -/
namespace GroupBench.Fill
variable {σ : Type} {setup : Setup σ} {s : State σ} {i : Nat} {w : Worker} {k : UInt64}
  {a : Address}

/-- The window that an event closes. -/
def Event.snapshot? : Event → Option Snapshot
  | .closed _ snapshot => some snapshot
  | .started | .entering _ | .wrote .. => none

/-- The windows that were closed, in the order of the events. -/
def snapshots (events : List Event) : List Snapshot := events.filterMap Event.snapshot?

theorem snapshots_emit (s : State σ) (e : Event) :
    snapshots (s.emit e).events = e.snapshot?.toList ++ snapshots s.events :=
  Pool.filterMap_cons_toList ..

theorem claim_window (plan : FillPlan) : s.window.Step (snapshots s.events)
    (s.claim plan i w).window (snapshots (s.claim plan i w).events) := by
  rw [State.claim]
  split
  · exact .idle
  · split <;> exact .idle

theorem foldDue_window (now : Instant) : s.window.Step (snapshots s.events)
    (s.foldDue now i w k a).window (snapshots (s.foldDue now i w k a).events) := by
  have hstep := s.window.step_takeIfDue (snapshots s.events) w.sample now
  rw [State.foldDue]
  rcases htake : (s.window.fold w.sample).takeIfDue now with ⟨snapshot?, window⟩
  rw [htake] at hstep
  cases snapshot? <;> exact hstep

/-- A step folds in nothing but a sample, and what it closes holds all that was open. -/
theorem step_window (setup : Setup σ) (s : State σ) (turn : Turn) :
    s.window.Step (snapshots s.events) (s.step setup turn).window
      (snapshots (s.step setup turn).events) := by
  cases hw : s.workers[turn.worker]? with
  | none =>
    rw [State.step, hw]
    exact .idle
  | some w =>
    simp only [State.step, hw]
    cases w.pc with
    | claiming => exact claim_window setup.plan
    | crossing k a => exact .taken w.sample turn.now
    | folding k a => exact foldDue_window turn.now
    | leaving => exact .folded w.sample
    | checking k a =>
      dsimp only
      split <;> exact .idle
    | starting | crossed | timing | writing | recording | folded | done => exact .idle

theorem covers_run (setup : Setup σ) (run : Schedule) (store : σ) :
    (setup.after run store).window.Covers (snapshots (setup.after run store).events) := by
  refine Pool.exec_induction (P := fun s : State σ => s.window.Covers (snapshots s.events))
    ?_ ?_ run.turns
  · intro s turn hs
    exact hs.step (step_window setup s turn)
  · exact StatsWindow.covers_opened ..

theorem snapshots_finish (s : State σ) (plan : FillPlan) (now : Instant) :
    snapshots (s.finish plan now).events =
      ((s.window.take now).1 :: snapshots s.events).reverse := by
  rw [State.finish, snapshots, List.filterMap_reverse]
  exact congrArg List.reverse (snapshots_emit s _)

/-- Every write that the totals know of is in one window. Whatever turn comes next, a window that it
closes makes up the totals with those closed before; all of them make up the report. -/
structure EachInOneWindow (setup : Setup σ) (run : Schedule) (store : σ) : Prop where
  closing : ∀ turn, let s := setup.after run store
    let t := s.step setup turn
    snapshots t.events = snapshots s.events ∨
      ∃ snapshot, snapshots t.events = snapshot :: snapshots s.events ∧
        Snapshot.mergeAll (snapshots t.events) = t.window.totals
  report : Snapshot.mergeAll (snapshots (setup.outcome run store).events) =
    (setup.outcome run store).report.summary.totals
  answers : (setup.after run store).isDone →
    (Snapshot.mergeAll (snapshots (setup.outcome run store).events)).tally =
      ((handed (setup.outcome run store).events).countP fun x => x.2.isOk,
        (handed (setup.outcome run store).events).countP fun x => !x.2.isOk)

theorem each_in_one_window (setup : Setup σ) (run : Schedule) (store : σ) :
    EachInOneWindow setup run store := by
  have hcovers := covers_run setup run store
  have hreport : Snapshot.mergeAll (snapshots (setup.outcome run store).events) =
      (setup.after run store).window.totals := by
    rw [Setup.outcome, snapshots_finish, Snapshot.mergeAll_reverse, hcovers.mergeAll_take]
  refine ⟨fun turn => hcovers.mergeAll_eq (step_window setup _ turn), hreport, fun hdone => ?_⟩
  rw [hreport, tally_of_done hdone (tallied_run setup run.begun store run.turns), handed_outcome,
    List.countP_reverse, List.countP_reverse]

end GroupBench.Fill
