import GroupBench.Id.Text
import GroupBench.Kind
import GroupBench.Duration
import GroupBench.Decimal.Fixed
import GroupBench.Decimal.Reading
import GroupBench.Hierarchy.Config
import GroupBench.Hierarchy.Pick
import GroupBench.RunConfig
import GroupBench.Plan
import GroupBench.Stats.Window
import GroupBench.Store.Page
import GroupBench.Backend.Memory
import GroupBench.Backend.Probe
import GroupBench.Job
import GroupBench.Fill.Run
import GroupBench.Select.Run
import GroupBench.Main
import GroupBench.Proofs.Fill.ExactlyOnce
import GroupBench.Proofs.Select.Dispatch
import GroupBench.Proofs.Resolve.Closure
import GroupBench.Proofs.Plan.Instances
import GroupBench.Proofs.Stats.Merge
import GroupBench.Proofs.Resolve.Ending
import GroupBench.Proofs.Select.Work
import GroupBench.Proofs.Select.Progress
import GroupBench.Proofs.Select.Report
import GroupBench.Proofs.Hierarchy.Draws
import GroupBench.Proofs.Store.WellFormed
import GroupBench.Proofs.Store.Complete
import GroupBench.Proofs.Fill.Fleet
import GroupBench.Proofs.Binary64.Units
import GroupBench.Proofs.Binary64.Arithmetic
import GroupBench.Proofs.Hierarchy.Accepted
import GroupBench.Proofs.Store.Layers
import GroupBench.Proofs.Resolve.Bounds
import GroupBench.Proofs.Fill.Once
import GroupBench.Proofs.Select.Filled
import GroupBench.Proofs.Select.Snapshots
import GroupBench.Proofs.Store.Writers
import GroupBench.Proofs.Fill.AnyOrder
import GroupBench.Proofs.Cli.Session
import GroupBench.Proofs.Plan.Order
import GroupBench.Proofs.Plan.LevelStarts
import GroupBench.Proofs.Plan.GroupSlots
import GroupBench.Proofs.Resolve.Draining
import GroupBench.Proofs.Store.Heights
import GroupBench.Proofs.Resolve.Refused
import GroupBench.Proofs.Store.Tokens
import GroupBench.Proofs.Id.Codec
import GroupBench.Proofs.Stats.Tally
import GroupBench.Proofs.Stats.Windows
import GroupBench.Proofs.Fill.Lines
import GroupBench.Proofs.Hierarchy.Floors
import GroupBench.Proofs.Stats.Latencies
import GroupBench.Proofs.Hierarchy.Picks
import GroupBench.Proofs.Hierarchy.Refusals
import GroupBench.Proofs.Store.Issued
import GroupBench.Proofs.Resolve.Queue
import GroupBench.Proofs.Plan.Exact
