import GroupBench.Decimal.Fixed

/-! Lines that a run reports, and how the numbers in them are written. -/
namespace GroupBench

inductive Severity
  | info
  | warn
  | error
  deriving DecidableEq, Inhabited

def Severity.label : Severity → String
  | .info => "INFO"
  | .warn => "WARN"
  | .error => "ERROR"

structure LogLine where
  severity : Severity
  text : String
  deriving DecidableEq, Inhabited

def LogLine.toText (line : LogLine) : String := s!"{line.severity.label} {line.text}"

/-- How the numbers that depend on the clock are written. -/
structure Figures where
  rate : Float → String
  seconds : Float → String
  /-- Least, greatest and mean latency in milliseconds. -/
  latency : Float × Float × Float → String

namespace Figures

/-- One place for rates, three for times. -/
def plain : Figures where
  rate := Decimal.fixed 1
  seconds := Decimal.fixed 3
  latency := fun (min, max, avg) => "/".intercalate ([min, max, avg].map (Decimal.fixed 3))

/-- A star for each, so that two runs of one schedule report the same lines. -/
def masked : Figures where
  rate _ := "*"
  seconds _ := "*"
  latency _ := "*"

end Figures

/-- Averages have two places. -/
def averageText (x : Float) : String := Decimal.fixed 2 x

/-- `n` right-aligned to three columns. -/
def percentText (n : Nat) : String :=
  String.ofList ((toString n).toList.leftpad 3 ' ')

/-- How many hundredths of `total` are `done`, rounded down; nothing to do is all done. -/
def percent (done total : Nat) : Nat :=
  if total = 0 then 100 else done * 100 / total

theorem percent_self (total : Nat) : percent total total = 100 := by
  rw [percent]
  split
  · rfl
  · rename_i hpos
    exact Nat.mul_div_cancel_left 100 (Nat.pos_of_ne_zero hpos)

theorem percent_mono {done later : Nat} (total : Nat) (hle : done ≤ later) :
    percent done total ≤ percent later total := by
  rw [percent, percent]
  split
  · exact Nat.le_refl _
  · exact Nat.div_le_div_right (Nat.mul_le_mul_right 100 hle)

end GroupBench
