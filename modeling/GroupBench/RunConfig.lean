import GroupBench.Duration
import GroupBench.Fault

/-! Settings shared by fill and select runs. -/
namespace GroupBench

/-- Instances count from one; each of them fills a slice of every level. -/
structure RunConfig where
  workers : Nat := 32
  instanceId : UInt32 := 1
  instanceCount : UInt32 := 1
  statsPeriod : Duration := .ofMillis 1000
  deriving DecidableEq

namespace RunConfig
variable (c : RunConfig)

def validate : Except ConfigFault Unit :=
  if c.workers = 0 then .error .noWorkers
  else if c.instanceCount = 0 then .error .noInstances
  else if c.instanceId = 0 || c.instanceCount < c.instanceId then
    .error (.instanceOutside c.instanceId c.instanceCount)
  else .ok ()

/-- The same settings for an instance that works alone. -/
def single : RunConfig := { c with instanceId := 1, instanceCount := 1 }

end RunConfig

end GroupBench
