import GroupBench.Fill.Machine

/-! Fill runs from beginning to end. -/
namespace GroupBench.Fill

namespace Setup

/-- A setup for one instance, if its configuration can be run. -/
def make {σ : Type} (backend : Backend σ) (h : Hierarchy) (config : RunConfig) :
    Except ConfigFault (Setup σ) :=
  match config.validate with
  | .error fault => .error fault
  | .ok () =>
    (FillPlan.make h config.instanceId config.instanceCount).map fun plan => ⟨backend, plan, config⟩

variable {σ : Type} {m : Type → Type} [Monad m] (setup : Setup σ)

/-- No run needs more rounds. Each time that the counter goes round a worker leaves, and no claim
takes more than nine turns. -/
def roundsNeeded : Nat := (9 * UInt64.size + 3) * setup.config.workers

/-- Runs the pool, workers taking turns in rotation, with clock readings from `now`. -/
def runWith (now : m Instant) (store : σ) : m (Outcome σ) := do
  let s ← Pool.rotate now (State.step setup) State.isDone setup.config.workers setup.roundsNeeded
    (setup.initial (← now) store)
  return s.finish setup.plan (← now)

/-- A run under a clock that stands still. -/
def run (store : σ) : Outcome σ := Id.run (setup.runWith (pure default) store)

end Setup

variable {σ : Type}

/-- The lines that a run reports, in order. -/
def Outcome.lines (figures : Figures) (setup : Setup σ) (outcome : Outcome σ) : List LogLine :=
  outcome.events.filterMap (Event.line? figures setup.config setup.plan)

end GroupBench.Fill
