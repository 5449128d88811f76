import GroupBench.Select.Machine

/-! Select runs from beginning to end. -/
namespace GroupBench.Select

/-- Rounds that a run is given when nothing else is asked for. A job over a cycle of groups never
ends. -/
def defaultPatience : Nat := 4000000000000000000

namespace Setup

/-- A setup for a whole hierarchy, if the configuration can be run by an instance that works
alone. -/
def make {σ : Type} (backend : Backend σ) (h : Hierarchy) (config : RunConfig) :
    Except ConfigFault (Setup σ) :=
  config.single.validate.map fun _ => ⟨backend, h, config.single⟩

variable {σ : Type} {m : Type → Type} [Monad m] (setup : Setup σ)

/-- Runs the pool, workers taking turns in rotation, with clock readings from `now`. -/
def runWith (now : m Instant) (patience : Nat) (store : σ) : m (Outcome σ) := do
  let s ← Pool.rotate now (State.step setup) State.isDone setup.config.workers patience
    (setup.initial (← now) store)
  return s.finish setup (← now)

/-- A run under a clock that stands still. -/
def run (store : σ) (patience : Nat := defaultPatience) : Outcome σ :=
  Id.run (setup.runWith (pure default) patience store)

/-- Resolves the job of one group outside a pool. -/
def resolve (root : GroupId) (store : σ) (patience : Nat := defaultPatience) : Job.Progress × σ :=
  Job.resolve setup.backend patience (.start root) store

end Setup

variable {σ : Type}

/-- The lines that a run reports, in order. -/
def Outcome.lines (figures : Figures) (setup : Setup σ) (outcome : Outcome σ) : List LogLine :=
  outcome.events.filterMap (Event.line? figures setup.config.workers setup.totalJobs)

end GroupBench.Select
