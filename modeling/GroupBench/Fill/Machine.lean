import GroupBench.Backend
import GroupBench.Fill.Event
import GroupBench.Pool

/-! The pool that fills a store. Workers claim indices of the plan from one counter, write what they
have claimed, and keep samples of their own, which they fold into the shared window at level starts,
when a period has passed and when they leave. Each step below touches the counter, the window, the
store or the clock at most once. -/
namespace GroupBench.Fill

/-- What a run is given. -/
structure Setup (σ : Type) where
  backend : Backend σ
  plan : FillPlan
  config : RunConfig

/-- Where a worker stands. -/
inductive PC
  /-- Before the first reading of the clock. -/
  | starting
  | claiming
  /-- At the first unit of a level, about to close the window of the level before. -/
  | crossing (index : UInt64) (address : Address)
  /-- About to note the time of the fold at a level start. -/
  | crossed (index : UInt64) (address : Address)
  /-- About to note when the write begins. -/
  | timing (index : UInt64) (address : Address)
  | writing (index : UInt64) (address : Address) (begun : Instant)
  | recording (index : UInt64) (address : Address) (begun : Instant)
      (result : Except StoreFault Unit)
  /-- About to see whether a period has passed since the last fold. -/
  | checking (index : UInt64) (address : Address)
  | folding (index : UInt64) (address : Address)
  /-- About to note the time of a fold. -/
  | folded
  /-- Nothing is left to claim, and the sample is still to be folded in. -/
  | leaving
  | done

structure Worker where
  pc : PC := .starting
  sample : Sample := .empty
  lastFold : Instant := default

structure State (σ : Type) where
  /-- The next index to claim. The counter is a word, as its readers know it. -/
  next : UInt64
  window : StatsWindow
  store : σ
  workers : List Worker
  /-- What has happened, latest first. -/
  events : List Event

variable {σ : Type}

/-- A run begins: the counter and the window start afresh, whatever ran before on the same store. -/
def Setup.initial (setup : Setup σ) (now : Instant) (store : σ) : State σ where
  next := 0
  window := .opened setup.config.statsPeriod now
  store := store
  workers := List.replicate setup.config.workers {}
  events := [.started]

namespace State

def setWorker (s : State σ) (i : Nat) (w : Worker) : State σ :=
  { s with workers := s.workers.set i w }

def emit (s : State σ) (e : Event) : State σ := { s with events := e :: s.events }

/-- Takes the next index. At the first unit of a level the level is announced and its start is dealt
with first. -/
def claim (s : State σ) (plan : FillPlan) (i : Nat) (w : Worker) : State σ :=
  let index := s.next
  let s := { s with next := index + 1 }
  match plan.address index with
  | none => s.setWorker i { w with pc := .leaving }
  | some a =>
    if plan.isLevelStart index then
      (s.emit (.entering a.level)).setWorker i { w with pc := .crossing index a }
    else s.setWorker i { w with pc := .timing index a }

/-- Folds the sample in and closes the window. -/
def cross (s : State σ) (now : Instant) (i : Nat) (w : Worker) (index : UInt64) (a : Address) :
    State σ :=
  let (snapshot, window) := (s.window.fold w.sample).take now
  (({ s with window }).emit (.closed (.levelStart index a) snapshot)).setWorker i
    { w with pc := .crossed index a, sample := .empty }

/-- Folds the sample in and closes the window if it is due. -/
def foldDue (s : State σ) (now : Instant) (i : Nat) (w : Worker) (index : UInt64) (a : Address) :
    State σ :=
  let (snapshot?, window) := (s.window.fold w.sample).takeIfDue now
  let s := { s with window }
  let s := match snapshot? with
    | some snapshot => s.emit (.closed (.due index a) snapshot)
    | none => s
  s.setWorker i { w with pc := .folded, sample := .empty }

def write (s : State σ) (setup : Setup σ) (i : Nat) (w : Worker) (index : UInt64) (a : Address)
    (begun : Instant) : State σ :=
  let (result, store) := setup.backend.write (setup.plan.write a) s.store
  (({ s with store }).emit (.wrote a result)).setWorker i
    { w with pc := .recording index a begun result }

/-- One step of a worker; a worker that has left, or that there is not, takes none. -/
def step (setup : Setup σ) (s : State σ) (turn : Turn) : State σ :=
  let i := turn.worker
  match s.workers[i]? with
  | none => s
  | some w =>
    match w.pc with
    | .starting => s.setWorker i { w with pc := .claiming, lastFold := turn.now }
    | .claiming => s.claim setup.plan i w
    | .crossing index a => s.cross turn.now i w index a
    | .crossed index a => s.setWorker i { w with pc := .timing index a, lastFold := turn.now }
    | .timing index a => s.setWorker i { w with pc := .writing index a turn.now }
    | .writing index a begun => s.write setup i w index a begun
    | .recording index a begun result =>
      let sample := match result with
        | .ok () => w.sample.record (turn.now.since begun)
        | .error _ => w.sample.recordFailure
      s.setWorker i { w with pc := .checking index a, sample }
    | .checking index a =>
      if setup.config.statsPeriod ≤ turn.now.since w.lastFold then
        s.setWorker i { w with pc := .folding index a }
      else s.setWorker i { w with pc := .claiming }
    | .folding index a => s.foldDue turn.now i w index a
    | .folded => s.setWorker i { w with pc := .claiming, lastFold := turn.now }
    | .leaving =>
      ({ s with window := s.window.fold w.sample }).setWorker i { w with pc := .done }
    | .done => s

def isDone (s : State σ) : Bool :=
  s.workers.all fun w => match w.pc with
    | .done => true
    | _ => false

end State

/-- What a fill run reports: the units of its plan, and how the writes went. -/
structure Report where
  units : UInt64
  summary : RunSummary

namespace Report

def operations (r : Report) : Nat := r.summary.totals.count

def failures (r : Report) : Nat := r.summary.totals.failures

end Report

/-- The end of a run: its report, the store, and everything that happened, in order. -/
structure Outcome (σ : Type) where
  report : Report
  store : σ
  events : List Event

/-- Closes the last window, once all workers have left. -/
def State.finish (s : State σ) (plan : FillPlan) (now : Instant) : Outcome σ where
  report := ⟨plan.totalUnits, s.window.summary now⟩
  store := s.store
  events := (s.emit (.closed .finish (s.window.take now).1)).events.reverse

end GroupBench.Fill
