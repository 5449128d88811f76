import GroupBench.Job
import GroupBench.Pool
import GroupBench.RunConfig
import GroupBench.Select.Event

/-! The pool that resolves every top-level group. Jobs are handed over through a channel that holds
one. A worker takes what is waiting there; if nothing is, it claims the next group and offers the
new job on the channel, and resolves the job itself where the channel is full. It leaves when there
is nothing left to claim and nothing waiting. -/
namespace GroupBench.Select

/-- What a run is given. Select runs cover every top-level group, so instances play no part in
them. -/
structure Setup (σ : Type) where
  backend : Backend σ
  hierarchy : Hierarchy
  config : RunConfig

/-- Where a worker stands. -/
inductive PC
  /-- Before the first reading of the clock. -/
  | starting
  /-- About to look for a waiting job. -/
  | receiving
  | claiming
  /-- About to put a job of its own on the channel. -/
  | offering (job : Job)
  /-- About to look for a waiting job for the last time, with nothing left to claim. -/
  | lastReceiving
  /-- About to note when the resolution begins. -/
  | timing (job : Job)
  | resolving (job : Job) (begun : Instant)
  /-- About to see whether a period has passed since the last fold. -/
  | checking
  | folding
  /-- About to note the time of a fold. -/
  | folded
  /-- The sample is still to be folded in. -/
  | leaving
  | done

structure Worker where
  pc : PC := .starting
  sample : Sample := .empty
  lastFold : Instant := default

structure State (σ : Type) where
  /-- The next position to claim. Claims past the last group are at most one for each job and each
  worker. -/
  next : Nat
  /-- The job that is waiting, if one is. -/
  channel : Option Job
  window : StatsWindow
  store : σ
  workers : List Worker
  /-- What has happened, latest first. -/
  events : List Event

variable {σ : Type}

namespace Setup
variable (setup : Setup σ)

/-- One job for each top-level group. -/
def totalJobs : Nat := setup.hierarchy.topLevelGroupCount.toNat

/-- The job of the top-level group at a position. -/
def jobAt (position : Nat) : Job :=
  .start (.ofPosition setup.hierarchy.levelCount (UInt32.ofNat position))

/-- A run begins: counter, channel and window start afresh, whatever ran before on the same
store. -/
def initial (now : Instant) (store : σ) : State σ where
  next := 0
  channel := none
  window := .opened setup.config.statsPeriod now
  store := store
  workers := List.replicate setup.config.workers {}
  events := [.started]

end Setup

namespace State

def setWorker (s : State σ) (i : Nat) (w : Worker) : State σ :=
  { s with workers := s.workers.set i w }

def emit (s : State σ) (e : Event) : State σ := { s with events := e :: s.events }

/-- Takes the waiting job, or goes on to `otherwise`. -/
def receive (s : State σ) (i : Nat) (w : Worker) (otherwise : PC) : State σ :=
  match s.channel with
  | some job => ({ s with channel := none }).setWorker i { w with pc := .timing job }
  | none => s.setWorker i { w with pc := otherwise }

/-- Takes the next position, if there is a group at it. -/
def claim (s : State σ) (setup : Setup σ) (i : Nat) (w : Worker) : State σ :=
  let position := s.next
  let s := { s with next := position + 1 }
  if position < setup.totalJobs then s.setWorker i { w with pc := .offering (setup.jobAt position) }
  else s.setWorker i { w with pc := .lastReceiving }

/-- Hands the job over, or keeps it where another one is waiting. -/
def offer (s : State σ) (i : Nat) (w : Worker) (job : Job) : State σ :=
  match s.channel with
  | none => ({ s with channel := some job }).setWorker i { w with pc := .receiving }
  | some _ => s.setWorker i { w with pc := .timing job }

/-- One round of a job, or its end when nothing is left to expand. A failed job leaves one failure
behind. -/
def advance (s : State σ) (setup : Setup σ) (now : Instant) (i : Nat) (w : Worker) (job : Job)
    (begun : Instant) : State σ :=
  if job.isResolved then
    let job := { job with elapsed := now.since begun }
    let sample := w.sample.recordJob job.elapsed job.subgroups job.memberCount job.depth
    (s.emit (.resolved job.root)).setWorker i { w with pc := .checking, sample }
  else
    match job.round setup.backend s.store with
    | (.ok job, store) => ({ s with store }).setWorker i { w with pc := .resolving job begun }
    | (.error fault, store) =>
      (({ s with store }).emit (.failed job.root fault)).setWorker i
        { w with pc := .checking, sample := w.sample.recordFailure }

/-- Folds the sample in and closes the window if it is due. -/
def foldDue (s : State σ) (now : Instant) (i : Nat) (w : Worker) : State σ :=
  let window := s.window.fold w.sample
  let finished := window.totals.attempts
  let (snapshot?, window) := window.takeIfDue now
  let s := { s with window }
  let s := match snapshot? with
    | some snapshot => s.emit (.closed finished snapshot)
    | none => s
  s.setWorker i { w with pc := .folded, sample := .empty }

/-- One step of a worker; a worker that has left, or that there is not, takes none. -/
def step (setup : Setup σ) (s : State σ) (turn : Turn) : State σ :=
  let i := turn.worker
  match s.workers[i]? with
  | none => s
  | some w =>
    match w.pc with
    | .starting => s.setWorker i { w with pc := .receiving, lastFold := turn.now }
    | .receiving => s.receive i w .claiming
    | .claiming => s.claim setup i w
    | .offering job => s.offer i w job
    | .lastReceiving => s.receive i w .leaving
    | .timing job => s.setWorker i { w with pc := .resolving job turn.now }
    | .resolving job begun => s.advance setup turn.now i w job begun
    | .checking =>
      if setup.config.statsPeriod ≤ turn.now.since w.lastFold then
        s.setWorker i { w with pc := .folding }
      else s.setWorker i { w with pc := .receiving }
    | .folding => s.foldDue turn.now i w
    | .folded => s.setWorker i { w with pc := .receiving, lastFold := turn.now }
    | .leaving =>
      ({ s with window := s.window.fold w.sample }).setWorker i { w with pc := .done }
    | .done => s

def isDone (s : State σ) : Bool :=
  s.workers.all fun w => match w.pc with
    | .done => true
    | _ => false

end State

/-- What a select run reports: one job for each group, and how the jobs went. -/
structure Report where
  groups : Nat
  summary : RunSummary

namespace Report

def jobs (r : Report) : Nat := r.summary.totals.count

def failures (r : Report) : Nat := r.summary.totals.failures

def members (r : Report) : Nat := r.summary.totals.members

def subgroups (r : Report) : Nat := r.summary.totals.subgroups

end Report

/-- The end of a run: its report, the store, and everything that happened, in order. -/
structure Outcome (σ : Type) where
  report : Report
  store : σ
  events : List Event

/-- Closes the last window, once all workers have left. -/
def State.finish (s : State σ) (setup : Setup σ) (now : Instant) : Outcome σ where
  report := ⟨setup.totalJobs, s.window.summary now⟩
  store := s.store
  events := (s.emit (.closed s.window.totals.attempts (s.window.take now).1)).events.reverse

end GroupBench.Select
