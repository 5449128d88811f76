import GroupBench.Cli.Options
import GroupBench.Hierarchy.Config
import GroupBench.RunConfig

/-! The settings of a benchmark, checked before anything runs. -/
namespace GroupBench.Cli

/-- Why options that were understood cannot be run. -/
inductive SettingsFault
  /-- An option that must be positive is zero. -/
  | zero (key : OptionKey)
  /-- Filling and then selecting needs every group in one store. -/
  | partialFill (instanceCount : UInt32)
  | config (fault : ConfigFault)
  /-- A fresh in-process store has nothing to select from. -/
  | nothingToRead

def SettingsFault.message : SettingsFault → String
  | .zero key => s!"{key.variableName} must be greater than 0"
  | .partialFill instanceCount =>
    s!"fill-then-select needs the whole hierarchy in one process (INSTANCE_COUNT = {instanceCount})"
  | .config fault => fault.message
  | .nothingToRead =>
    "select-members on the memory backend has nothing to read; use fill-then-select"

structure Settings where
  benchmark : Benchmark
  backend : StoreChoice
  hierarchy : HierarchyConfig
  run : RunConfig
  batchSize : Nat
  pageSize : Nat

namespace Options
variable (o : Options)

/-- A run that only selects works alone, whatever instance it was given. -/
def runConfig : RunConfig :=
  let alone := o.benchmark = .selectMembers
  { workers := o.parallelQueryCount.toNat
    instanceId := if alone then 1 else o.instanceNumber
    instanceCount := if alone then 1 else o.instanceCount
    statsPeriod := .ofMillis o.statisticsSnapshotPeriod.toNat }

def hierarchyConfig : HierarchyConfig where
  firstLevelGroupCount := o.firstLevelGroupCount
  growthFactor := o.levelGroupFactor
  levelCount := o.levelCount
  userMemberCount := o.userMemberCount
  subgroupMemberCount := o.subgroupMemberCount

/-- The first option that must be positive and is zero. -/
def zeroOption? : Option OptionKey :=
  if o.parallelQueryCount = 0 then some .parallelQueryCount
  else if o.batchSize = 0 then some .batchSize
  else if o.pageSize = 0 then some .pageSize
  else if o.statisticsSnapshotPeriod = 0 then some .statisticsSnapshotPeriod
  else none

def settings (power : Power) : Except SettingsFault Settings :=
  let run := o.runConfig
  match o.zeroOption? with
  | some key => .error (.zero key)
  | none =>
    if o.benchmark = .fillThenSelect && run.instanceCount ≠ 1 then
      .error (.partialFill run.instanceCount)
    else
      match run.validate, o.hierarchyConfig.validate power with
      | .error fault, _ => .error (.config fault)
      | _, .error fault => .error (.config fault)
      | .ok (), .ok () =>
        if o.benchmark = .selectMembers && o.backend = .memory then .error .nothingToRead
        else
          .ok {
            benchmark := o.benchmark
            backend := o.backend
            hierarchy := o.hierarchyConfig
            run
            batchSize := o.batchSize.toNat
            pageSize := o.pageSize.toNat }

end Options

end GroupBench.Cli
