/-! Spans of time in whole nanoseconds, and the instants that a clock shows. -/
namespace GroupBench

/-- A span of time. The largest has `2 ^ 64 - 1` whole seconds. -/
@[ext]
structure Duration where
  nanos : Nat
  nanos_le : nanos ≤ (UInt64.size - 1) * 1000000000 + 999999999
  deriving DecidableEq

namespace Duration

def nanosPerSecond : Nat := 1000000000

def maxNanos : Nat := (UInt64.size - 1) * nanosPerSecond + 999999999

/-- Spans beyond the largest count as the largest. -/
def ofNanos (n : Nat) : Duration := ⟨min n maxNanos, Nat.min_le_right ..⟩

def zero : Duration := ofNanos 0

def longest : Duration := ofNanos maxNanos

instance : Inhabited Duration := ⟨zero⟩

def ofMillis (n : Nat) : Duration := ofNanos (n * 1000000)

theorem nanos_ofNanos (n : Nat) : (ofNanos n).nanos = min n maxNanos := rfl

/-- A sum that would pass the longest span stays there. -/
def add (a b : Duration) : Duration := ofNanos (a.nanos + b.nanos)

instance : Add Duration := ⟨add⟩

theorem nanos_add (a b : Duration) : (a + b).nanos = min (a.nanos + b.nanos) maxNanos := rfl

instance : LE Duration := ⟨fun a b => a.nanos ≤ b.nanos⟩

instance (a b : Duration) : Decidable (a ≤ b) := inferInstanceAs (Decidable (a.nanos ≤ b.nanos))

def shorter (a b : Duration) : Duration := if a ≤ b then a else b

def longer (a b : Duration) : Duration := if a ≤ b then b else a

theorem nanos_shorter (a b : Duration) : (a.shorter b).nanos = min a.nanos b.nanos := by
  change (if a.nanos ≤ b.nanos then a else b).nanos = _
  split <;> omega

theorem nanos_longer (a b : Duration) : (a.longer b).nanos = max a.nanos b.nanos := by
  change (if a.nanos ≤ b.nanos then b else a).nanos = _
  split <;> omega

def wholeSeconds (d : Duration) : Nat := d.nanos / nanosPerSecond

def subsecNanos (d : Duration) : Nat := d.nanos % nanosPerSecond

/-- Whole seconds and the rest are converted apart and added, each operation rounding once. -/
def toSeconds (d : Duration) : Float :=
  d.wholeSeconds.toUInt64.toFloat + d.subsecNanos.toUInt64.toFloat / 1000000000.0

def toMillis (d : Duration) : Float := d.toSeconds * 1000.0

end Duration

/-- A reading of the clock, in nanoseconds from an arbitrary origin. -/
@[ext]
structure Instant where
  nanos : Int
  deriving DecidableEq, Inhabited

/-- The span from `earlier` to `now`, zero if the clock went backwards. -/
def Instant.since (now earlier : Instant) : Duration :=
  Duration.ofNanos (now.nanos - earlier.nanos).toNat

end GroupBench
