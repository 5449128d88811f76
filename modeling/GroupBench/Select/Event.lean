import GroupBench.Hierarchy
import GroupBench.Log
import GroupBench.Fault
import GroupBench.Stats.Window

/-! What happens in a select run, and the lines that report it. -/
namespace GroupBench.Select

inductive Event
  | started
  | resolved (root : GroupId)
  | failed (root : GroupId) (fault : StoreFault)
  /-- A window was closed when `done` jobs had finished. -/
  | closed (done : Nat) (snapshot : Snapshot)

/-- The progress line of a closed window, out of `total` jobs. -/
def progressText (figures : Figures) (total done : Nat) (snapshot : Snapshot) : String :=
  let done := min done total
  let sample := snapshot.sample
  s!"[select-members {percentText (percent done total)}%] group: {done}/{total}, " ++
    s!"jobs: {sample.count}, jobs/s: {figures.rate snapshot.rate}, " ++
    s!"latency min/max/avg (ms): {figures.latency sample.latencyMillis}, " ++
    s!"avg depth: {averageText sample.avgDepth}, " ++
    s!"avg subgroups: {averageText sample.avgSubgroups}, " ++
    s!"avg members: {averageText sample.avgMembers}, failures: {sample.failures}"

/-- Resolved jobs are reported by the windows only. -/
def Event.line? (figures : Figures) (workers total : Nat) : Event → Option LogLine
  | .started => some ⟨.info,
      s!"select-members starting: {workers} workers, {total} top-level groups"⟩
  | .resolved _ => none
  | .failed root fault => some ⟨.warn, s!"select-members job for {root} failed: {fault.message}"⟩
  | .closed done snapshot => some ⟨.info, progressText figures total done snapshot⟩

end GroupBench.Select
