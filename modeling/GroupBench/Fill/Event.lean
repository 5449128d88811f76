import GroupBench.Log
import GroupBench.Plan
import GroupBench.RunConfig
import GroupBench.Stats.Window

/-! What happens in a fill run, and the lines that report it. -/
namespace GroupBench.Fill

/-- Why a window was closed. -/
inductive Occasion
  /-- The unit at `index` begins a level, and the window of the level before is closed. -/
  | levelStart (index : UInt64) (address : Address)
  /-- A period has passed since the window was opened, and the unit at `index` is done. -/
  | due (index : UInt64) (address : Address)
  /-- All workers have left. -/
  | finish
  deriving DecidableEq, Inhabited

/-- The number of units that a report takes for claimed, out of `total`. -/
def Occasion.claimed (total : UInt64) : Occasion → Nat
  | .levelStart index _ => index.toNat
  | .due index _ => index.toNat + 1
  | .finish => total.toNat

inductive Event
  | started
  | entering (level : UInt16)
  | wrote (address : Address) (result : Except StoreFault Unit)
  | closed (occasion : Occasion) (snapshot : Snapshot)

/-- The progress line of a closed window. The last one stands at the end of the deepest level. -/
def progressText (figures : Figures) (plan : FillPlan) (occasion : Occasion)
    (snapshot : Snapshot) : String :=
  let h := plan.hierarchy
  let total := plan.totalUnits
  let done := percent (min (occasion.claimed total) total.toNat) total.toNat
  let (level, group, slot) : UInt16 × Nat × Nat := match occasion with
    | .levelStart _ a | .due _ a => (a.level, a.group.toNat + 1, a.slot.toNat)
    | .finish => (h.levelCount, h.topLevelGroupCount.toNat, 0)
  let sample := snapshot.sample
  s!"[fill-data {percentText done}%] level: {level}/{h.levelCount}, " ++
    s!"group: {group}/{h.groupCount level}, slot: {slot}/{h.memberSlots level}, " ++
    s!"ops: {sample.count}, ops/s: {figures.rate snapshot.rate}, " ++
    s!"latency min/max/avg (ms): {figures.latency sample.latencyMillis}, " ++
    s!"failures: {sample.failures}"

/-- Accepted writes are not reported. -/
def Event.line? (figures : Figures) (config : RunConfig) (plan : FillPlan) : Event → Option LogLine
  | .started => some ⟨.info,
      s!"fill-data starting: instance {config.instanceId}/{config.instanceCount}, " ++
        s!"{config.workers} workers, {plan.totalUnits} writes"⟩
  | .entering level => some ⟨.info,
      s!"fill-data entering level {level}/{plan.hierarchy.levelCount}"⟩
  | .wrote _ (.ok ()) => none
  | .wrote a (.error fault) => some ⟨.error,
      s!"fill-data write failed at level {a.level} group {a.group} slot {a.slot}: {fault.message}"⟩
  | .closed occasion snapshot => some ⟨.info, progressText figures plan occasion snapshot⟩

end GroupBench.Fill
