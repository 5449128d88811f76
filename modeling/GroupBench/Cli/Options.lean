import GroupBench.Decimal.Reading

/-! The options of the command line. Each has a long flag and a variable of the environment; all but
the benchmark have a value when neither is given. -/
namespace GroupBench.Cli

/-- Which phases to run. -/
inductive Benchmark
  /-- Write every group and membership edge. -/
  | fillData
  /-- Resolve the members of every top-level group. -/
  | selectMembers
  /-- Fill, then select from the same store. -/
  | fillThenSelect
  deriving DecidableEq, Inhabited

namespace Benchmark

def fills : Benchmark → Bool
  | fillData | fillThenSelect => true
  | selectMembers => false

def selects : Benchmark → Bool
  | selectMembers | fillThenSelect => true
  | fillData => false

def ofText? : String → Option Benchmark
  | "fill-data" => some fillData
  | "select-members" => some selectMembers
  | "fill-then-select" => some fillThenSelect
  | _ => none

def name : Benchmark → String
  | fillData => "FillData"
  | selectMembers => "SelectMembers"
  | fillThenSelect => "FillThenSelect"

end Benchmark

/-- The store under benchmark. -/
inductive StoreChoice
  /-- In-process tables with paginated lookups. -/
  | memory
  /-- Accepts every write and resolves nothing. -/
  | null
  deriving DecidableEq, Inhabited

namespace StoreChoice

def ofText? : String → Option StoreChoice
  | "memory" => some memory
  | "null" => some null
  | _ => none

def name : StoreChoice → String
  | memory => "Memory"
  | null => "Null"

end StoreChoice

/-- The options, in the order in which their variables are looked at. -/
inductive OptionKey
  | benchmark
  | backend
  | instanceNumber
  | instanceCount
  | parallelQueryCount
  | firstLevelGroupCount
  | levelGroupFactor
  | levelCount
  | userMemberCount
  | subgroupMemberCount
  | statisticsSnapshotPeriod
  | batchSize
  | pageSize
  deriving DecidableEq, Inhabited

namespace OptionKey

def all : List OptionKey :=
  [benchmark, backend, instanceNumber, instanceCount, parallelQueryCount, firstLevelGroupCount,
    levelGroupFactor, levelCount, userMemberCount, subgroupMemberCount, statisticsSnapshotPeriod,
    batchSize, pageSize]

/-- The flag, without its two hyphens. -/
def flag : OptionKey → String
  | benchmark => "benchmark"
  | backend => "backend"
  | instanceNumber => "instance-number"
  | instanceCount => "instance-count"
  | parallelQueryCount => "parallel-query-count"
  | firstLevelGroupCount => "first-level-group-count"
  | levelGroupFactor => "level-group-factor"
  | levelCount => "level-count"
  | userMemberCount => "user-member-count"
  | subgroupMemberCount => "subgroup-member-count"
  | statisticsSnapshotPeriod => "statistics-snapshot-period"
  | batchSize => "batch-size"
  | pageSize => "page-size"

/-- Variables are named like flags, in capitals and with underscores. -/
def variableName (key : OptionKey) : String :=
  key.flag.map fun c => if c = '-' then '_' else c.toUpper

/-- Flags are written in full; the benchmark has an older name too. -/
def ofFlag? (text : String) : Option OptionKey :=
  if text = "benchmark-type" then some benchmark else all.find? fun key => key.flag == text

end OptionKey

/-- The values of all options. -/
structure Options where
  benchmark : Benchmark
  backend : StoreChoice := .memory
  instanceNumber : UInt32 := 1
  instanceCount : UInt32 := 1
  parallelQueryCount : UInt64 := 32
  firstLevelGroupCount : UInt32 := 1000
  levelGroupFactor : Float := 1.0
  levelCount : UInt16 := 5
  userMemberCount : UInt32 := 90
  subgroupMemberCount : UInt32 := 10
  /-- In milliseconds. -/
  statisticsSnapshotPeriod : UInt64 := 1000
  batchSize : UInt64 := 100
  pageSize : UInt64 := 10000

/-- Why a command line is not understood, or what it asks for in place of a run. -/
inductive UsageFault
  | unknownArgument (text : String)
  | help
  | version
  /-- A value that is none of those an option chooses from. -/
  | notAChoice (key : OptionKey) (text : String)
  | noValue (key : OptionKey)
  /-- A flag that takes no value was given one. -/
  | unwantedValue (flag : String)
  | notANumber (key : OptionKey) (text : String)
  | repeated (key : OptionKey)
  | noBenchmark
  deriving DecidableEq

namespace UsageFault

def message : UsageFault → String
  | unknownArgument text => s!"unexpected argument '{text}'"
  | help => "help was asked for"
  | version => "the version was asked for"
  | notAChoice key text => s!"invalid value '{text}' for '--{key.flag}'"
  | noValue key => s!"a value is required for '--{key.flag}'"
  | unwantedValue flag => s!"'--{flag}' takes no value"
  | notANumber key text => s!"invalid number '{text}' for '--{key.flag}'"
  | repeated key => s!"'--{key.flag}' cannot be used more than once"
  | noBenchmark => "'--benchmark' is required"

end UsageFault

/-- Options that have been given so far. -/
structure Given where
  benchmark : Option Benchmark := none
  backend : Option StoreChoice := none
  instanceNumber : Option UInt32 := none
  instanceCount : Option UInt32 := none
  parallelQueryCount : Option UInt64 := none
  firstLevelGroupCount : Option UInt32 := none
  levelGroupFactor : Option Float := none
  levelCount : Option UInt16 := none
  userMemberCount : Option UInt32 := none
  subgroupMemberCount : Option UInt32 := none
  statisticsSnapshotPeriod : Option UInt64 := none
  batchSize : Option UInt64 := none
  pageSize : Option UInt64 := none

namespace Given

def has (g : Given) : OptionKey → Bool
  | .benchmark => g.benchmark.isSome
  | .backend => g.backend.isSome
  | .instanceNumber => g.instanceNumber.isSome
  | .instanceCount => g.instanceCount.isSome
  | .parallelQueryCount => g.parallelQueryCount.isSome
  | .firstLevelGroupCount => g.firstLevelGroupCount.isSome
  | .levelGroupFactor => g.levelGroupFactor.isSome
  | .levelCount => g.levelCount.isSome
  | .userMemberCount => g.userMemberCount.isSome
  | .subgroupMemberCount => g.subgroupMemberCount.isSome
  | .statisticsSnapshotPeriod => g.statisticsSnapshotPeriod.isSome
  | .batchSize => g.batchSize.isSome
  | .pageSize => g.pageSize.isSome

open Decimal in
/-- The options with one more, if its text is a value of it. -/
def set? (g : Given) (key : OptionKey) (text : String) : Option Given :=
  match key with
  | .benchmark => (Benchmark.ofText? text).map fun v => { g with benchmark := v }
  | .backend => (StoreChoice.ofText? text).map fun v => { g with backend := v }
  | .instanceNumber => (readUInt32? text).map fun n => { g with instanceNumber := n }
  | .instanceCount => (readUInt32? text).map fun n => { g with instanceCount := n }
  | .parallelQueryCount => (readUInt64? text).map fun n => { g with parallelQueryCount := n }
  | .firstLevelGroupCount => (readUInt32? text).map fun n => { g with firstLevelGroupCount := n }
  | .levelGroupFactor => (readFloat? text).map fun x => { g with levelGroupFactor := x }
  | .levelCount => (readUInt16? text).map fun n => { g with levelCount := n }
  | .userMemberCount => (readUInt32? text).map fun n => { g with userMemberCount := n }
  | .subgroupMemberCount => (readUInt32? text).map fun n => { g with subgroupMemberCount := n }
  | .statisticsSnapshotPeriod =>
    (readUInt64? text).map fun n => { g with statisticsSnapshotPeriod := n }
  | .batchSize => (readUInt64? text).map fun n => { g with batchSize := n }
  | .pageSize => (readUInt64? text).map fun n => { g with pageSize := n }

/-- The fault of a text that is no value of an option. -/
def rejected (key : OptionKey) (text : String) : UsageFault :=
  match key with
  | .benchmark | .backend => .notAChoice key text
  | _ => .notANumber key text

def set (g : Given) (key : OptionKey) (text : String) : Except UsageFault Given :=
  match g.set? key text with
  | some g => .ok g
  | none => .error (rejected key text)

/-- Options not given have their usual values; the benchmark has none. -/
def complete (g : Given) : Except UsageFault Options :=
  match g.benchmark with
  | none => .error .noBenchmark
  | some benchmark =>
    let usual : Options := { benchmark }
    .ok {
      benchmark
      backend := g.backend.getD usual.backend
      instanceNumber := g.instanceNumber.getD usual.instanceNumber
      instanceCount := g.instanceCount.getD usual.instanceCount
      parallelQueryCount := g.parallelQueryCount.getD usual.parallelQueryCount
      firstLevelGroupCount := g.firstLevelGroupCount.getD usual.firstLevelGroupCount
      levelGroupFactor := g.levelGroupFactor.getD usual.levelGroupFactor
      levelCount := g.levelCount.getD usual.levelCount
      userMemberCount := g.userMemberCount.getD usual.userMemberCount
      subgroupMemberCount := g.subgroupMemberCount.getD usual.subgroupMemberCount
      statisticsSnapshotPeriod := g.statisticsSnapshotPeriod.getD usual.statisticsSnapshotPeriod
      batchSize := g.batchSize.getD usual.batchSize
      pageSize := g.pageSize.getD usual.pageSize }

end Given

end GroupBench.Cli
