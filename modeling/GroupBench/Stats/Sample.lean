import GroupBench.Duration

/-! Counters and latencies of a set of operations. Samples of parts merge into the sample of the
whole. -/
namespace GroupBench

/-- Fields beyond the first five are of resolved jobs only. The counters are natural numbers. What
they count is met one by one, whether operations, subgroups, members or rounds, so 64 bits would
hold them in every run of fewer than `2 ^ 64` steps. -/
@[ext]
structure Sample where
  /-- Completed operations. -/
  count : Nat := 0
  /-- Failed operations, which are not counted above and have no latency. -/
  failures : Nat := 0
  min : Duration := .longest
  max : Duration := .zero
  total : Duration := .zero
  subgroups : Nat := 0
  members : Nat := 0
  depth : Nat := 0
  deriving DecidableEq

namespace Sample

/-- Nothing has happened yet; the least latency starts at the longest span. -/
def empty : Sample := {}

instance : Inhabited Sample := ⟨empty⟩

variable (s : Sample)

def record (latency : Duration) : Sample :=
  { s with
    count := s.count + 1
    min := s.min.shorter latency
    max := s.max.longer latency
    total := s.total + latency }

/-- A completed job with what it reached. -/
def recordJob (latency : Duration) (subgroups members depth : Nat) : Sample :=
  let s := s.record latency
  { s with
    subgroups := s.subgroups + subgroups
    members := s.members + members
    depth := s.depth + depth }

def recordFailure : Sample := { s with failures := s.failures + 1 }

def merge (t : Sample) : Sample where
  count := s.count + t.count
  failures := s.failures + t.failures
  min := s.min.shorter t.min
  max := s.max.longer t.max
  total := s.total + t.total
  subgroups := s.subgroups + t.subgroups
  members := s.members + t.members
  depth := s.depth + t.depth

/-- Operations seen, completed or not. -/
def attempts : Nat := s.count + s.failures

def isEmpty : Bool := s.attempts = 0

/-- The least latency, or zero when nothing completed. -/
def minLatency : Duration := if s.count = 0 then .zero else s.min

/-- Whole nanoseconds of the mean, kept to 64 bits. -/
def avgLatency : Duration :=
  if s.count = 0 then .zero else .ofNanos (s.total.nanos / s.count % UInt64.size)

/-- Milliseconds of the least, the greatest and the mean latency. -/
def latencyMillis : Float × Float × Float :=
  (s.minLatency.toMillis, s.max.toMillis, s.avgLatency.toMillis)

/-- `n` per completed operation, zero when there is none. -/
def perCount (n : Nat) : Float :=
  if s.count = 0 then 0.0 else n.toUInt64.toFloat / s.count.toUInt64.toFloat

def avgSubgroups : Float := s.perCount s.subgroups

def avgMembers : Float := s.perCount s.members

def avgDepth : Float := s.perCount s.depth

/-- Completed operations per second over `elapsed`, zero when no time has passed. -/
def ratePerSecond (elapsed : Duration) : Float :=
  let seconds := elapsed.toSeconds
  if 0.0 < seconds then s.count.toUInt64.toFloat / seconds else 0.0

end Sample

end GroupBench
