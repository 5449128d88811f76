import GroupBench.Stats.Sample

/-! The shared statistics of one run. Samples are folded in; now and then the open window is closed
into a snapshot and a new one begins, while the totals go on. -/
namespace GroupBench

/-- A closed window. -/
@[ext]
structure Snapshot where
  sample : Sample
  elapsed : Duration
  deriving DecidableEq

def Snapshot.rate (s : Snapshot) : Float := s.sample.ratePerSecond s.elapsed

/-- A finished run. -/
@[ext]
structure RunSummary where
  totals : Sample
  elapsed : Duration
  deriving DecidableEq

def RunSummary.rate (s : RunSummary) : Float := s.totals.ratePerSecond s.elapsed

@[ext]
structure StatsWindow where
  /-- What was folded in since the window was opened. -/
  current : Sample
  /-- What was folded in since the run began. -/
  totals : Sample
  period : Duration
  runStarted : Instant
  windowStarted : Instant
  deriving DecidableEq

namespace StatsWindow

/-- A run begins, and its first window with it. -/
def opened (period : Duration) (now : Instant) : StatsWindow :=
  ⟨.empty, .empty, period, now, now⟩

variable (w : StatsWindow)

def fold (sample : Sample) : StatsWindow :=
  { w with current := w.current.merge sample, totals := w.totals.merge sample }

/-- The open window is at least one period old. -/
def isDue (now : Instant) : Bool := w.period ≤ now.since w.windowStarted

/-- Closes the window whatever its age; the next one begins at `now`. -/
def take (now : Instant) : Snapshot × StatsWindow :=
  (⟨w.current, now.since w.windowStarted⟩, { w with current := .empty, windowStarted := now })

def takeIfDue (now : Instant) : Option Snapshot × StatsWindow :=
  if w.isDue now then (some (w.take now).1, (w.take now).2) else (none, w)

def runElapsed (now : Instant) : Duration := now.since w.runStarted

def summary (now : Instant) : RunSummary := ⟨w.totals, w.runElapsed now⟩

end StatsWindow

end GroupBench
