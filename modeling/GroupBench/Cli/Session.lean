import GroupBench.Backend.Memory
import GroupBench.Cli.Settings
import GroupBench.Fill.Run
import GroupBench.Select.Run

/-! A benchmark session: its phases, one after the other on one store, and what they report. -/
namespace GroupBench.Cli

/-- Reports of the phases that ran, and all lines in order. -/
structure Outcome where
  fill : Option Fill.Report := none
  select : Option Select.Report := none
  lines : List LogLine := []

/-- The closing line of a fill. -/
def fillFinished (figures : Figures) (r : Fill.Report) : LogLine :=
  let totals := r.summary.totals
  ⟨.info,
    s!"fill-data finished: {r.operations}/{r.units} writes in " ++
      s!"{figures.seconds r.summary.elapsed.toSeconds}s ({figures.rate r.summary.rate} ops/s), " ++
      s!"latency min/max/avg (ms): {figures.latency totals.latencyMillis}, " ++
      s!"failures: {r.failures}"⟩

/-- The closing line of a select. -/
def selectFinished (figures : Figures) (r : Select.Report) : LogLine :=
  let totals := r.summary.totals
  ⟨.info,
    s!"select-members finished: {r.jobs}/{r.groups} jobs in " ++
      s!"{figures.seconds r.summary.elapsed.toSeconds}s ({figures.rate r.summary.rate} jobs/s), " ++
      s!"latency min/max/avg (ms): {figures.latency totals.latencyMillis}, " ++
      s!"members: {r.members}, subgroups: {r.subgroups}, " ++
      s!"avg depth: {averageText totals.avgDepth}, failures: {r.failures}"⟩

/-- The closing line of a session on the in-process store. -/
def storeHolds (store : Store) : LogLine :=
  ⟨.info, s!"memory backend holds {store.groupRows} groups and {store.edgeRows} membership edges"⟩

/-- How the pools of a session are run. -/
structure Runner (m : Type → Type) where
  fill {σ : Type} : Fill.Setup σ → σ → m (Fill.Outcome σ)
  select {σ : Type} : Select.Setup σ → σ → m (Select.Outcome σ)

/-- Workers take turns in rotation, with clock readings from `now`; a select is given `patience`
rounds. -/
def Runner.rotating {m : Type → Type} [Monad m] (now : m Instant) (patience : Nat) : Runner m where
  fill setup store := setup.runWith now store
  select setup store := setup.runWith now patience store

namespace Settings
variable {m : Type → Type} [Monad m] {σ : Type}
  (runner : Runner m) (figures : Figures) (settings : Settings)

/-- Fills, if the benchmark does. -/
def fillPhase (backend : Backend σ) (h : Hierarchy) (store : σ) (o : Outcome) :
    m (Except ConfigFault (Outcome × σ)) :=
  if settings.benchmark.fills then
    match Fill.Setup.make backend h settings.run with
    | .error fault => pure (.error fault)
    | .ok setup => do
      let r ← runner.fill setup store
      return .ok ({ o with
        fill := some r.report
        lines := o.lines ++ r.lines figures setup ++ [fillFinished figures r.report] }, r.store)
  else pure (.ok (o, store))

/-- Selects, if the benchmark does. -/
def selectPhase (backend : Backend σ) (h : Hierarchy) (store : σ) (o : Outcome) :
    m (Except ConfigFault (Outcome × σ)) :=
  if settings.benchmark.selects then
    match Select.Setup.make backend h settings.run with
    | .error fault => pure (.error fault)
    | .ok setup => do
      let r ← runner.select setup store
      return .ok ({ o with
        select := some r.report
        lines := o.lines ++ r.lines figures setup ++ [selectFinished figures r.report] }, r.store)
  else pure (.ok (o, store))

/-- Both phases on one store. -/
def phases (backend : Backend σ) (h : Hierarchy) (store : σ) :
    m (Except ConfigFault (Outcome × σ)) := do
  match ← settings.fillPhase runner figures backend h store {} with
  | .error fault => return .error fault
  | .ok (o, store) => settings.selectPhase runner figures backend h store o

/-- Runs the session on the store that the settings choose. -/
def sessionWith {ρ : Type} (power : Power) (source : WordSource ρ) (seed : ρ) :
    m (Except ConfigFault Outcome) :=
  match settings.hierarchy.hierarchy? power with
  | .error fault => pure (.error fault)
  | .ok h =>
    match settings.backend with
    | .null => do
      return (← settings.phases runner figures .null h ()).map Prod.fst
    | .memory => do
      let backend := Backend.memory h source settings.pageSize settings.batchSize
      return (← settings.phases runner figures backend h ⟨.empty, seed⟩).map fun (o, state) =>
        { o with lines := o.lines ++ [storeHolds state.store] }

/-- The session in rotation under a clock that stands still. -/
def session {ρ : Type} (patience : Nat) (power : Power) (source : WordSource ρ) (seed : ρ) :
    Except ConfigFault Outcome :=
  Id.run (settings.sessionWith (.rotating (pure default) patience) figures power source seed)

end Settings

end GroupBench.Cli
