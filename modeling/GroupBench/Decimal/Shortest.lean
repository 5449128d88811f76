import GroupBench.Decimal.Dyadic

/-! The shortest decimal that reads back as a given floating-point number, written without an
exponent. Of the shortest ones the nearest is taken, and of two equally near the larger. -/
namespace GroupBench.Decimal

/-- A decimal `digits * 10 ^ exponent`. -/
structure Scaled where
  digits : Nat
  exponent : Int

/-- The least `j ≤ fuel` for which `num * 10 ^ j` reaches `den`, counted from `j`. -/
def placesToReach (num den : Nat) : Nat → Nat → Nat
  | 0, j => j
  | fuel + 1, j => if den ≤ num then j else placesToReach (num * 10) den fuel (j + 1)

/-- The power of ten of the leading digit of `num / den`, for a positive fraction above `10 ^
-400`. -/
def leadingExponent (num den : Nat) : Int :=
  if den ≤ num then (Nat.toDigits 10 (num / den)).length - 1
  else -(placesToReach num den 400 0 : Int)

/-- `n / den * 10 ^ -k` as a fraction. -/
def atPlace (n den : Nat) (k : Int) : Nat × Nat :=
  if 0 ≤ k then (n, den * tenTo k.toNat) else (n * tenTo (-k).toNat, den)

/-- The numbers that round to a magnitude, as an interval around it over one denominator. -/
structure Interval where
  low : Nat
  value : Nat
  high : Nat
  den : Nat
  closed : Bool

/-- Half a gap to each side; the ends round to the even mantissa. -/
def Dyadic.interval (d : Dyadic) : Interval :=
  let (_, den) := scaleTwo 1 (d.exponent - 2)
  let part (n : Nat) := (scaleTwo n (d.exponent - 2)).1
  { low := part (4 * d.mantissa - if d.narrowBelow then 1 else 2)
    value := part (4 * d.mantissa)
    high := part (4 * d.mantissa + 2)
    den
    closed := d.mantissa % 2 = 0 }

/-- Whether `c * 10 ^ k` reads back as the number. -/
def Interval.holds (i : Interval) (c : Nat) (k : Int) : Bool :=
  let (lowNum, lowDen) := atPlace i.low i.den k
  let (highNum, highDen) := atPlace i.high i.den k
  if i.closed then lowNum ≤ c * lowDen && c * highDen ≤ highNum
  else lowNum < c * lowDen && c * highDen < highNum

/-- The better of the value's two neighbours among the multiples of `10 ^ k`, if one reads back. -/
def Interval.nearest? (i : Interval) (k : Int) : Option Nat :=
  let (num, den) := atPlace i.value i.den k
  let below := num / den
  let rest := num % den
  match i.holds below k, i.holds (below + 1) k with
  | true, true => some (if 2 * rest < den then below else below + 1)
  | true, false => some below
  | false, true => some (below + 1)
  | false, false => none

/-- Tries grids of ever more digits; seventeen always suffice. -/
def Interval.search (i : Interval) (lead : Int) : Nat → Nat → Scaled
  | 0, n => ⟨i.value * tenTo n / i.den, -n⟩
  | fuel + 1, n =>
    let k := lead - n
    match i.nearest? k with
    | some c => ⟨c, k⟩
    | none => i.search lead fuel (n + 1)

def Dyadic.shortest (d : Dyadic) : Scaled :=
  if d.mantissa = 0 then ⟨0, 0⟩
  else
    let i := d.interval
    let s := i.search (leadingExponent i.value i.den) 17 0
    if s.digits % 10 = 0 then ⟨s.digits / 10, s.exponent + 1⟩ else s

/-- `c` with a point before its last `places` digits. -/
def withPoint (c places : Nat) : String :=
  let digits := (Nat.toDigits 10 c).leftpad (places + 1) '0'
  let whole := digits.take (digits.length - places)
  if places = 0 then String.ofList whole
  else String.ofList whole ++ "." ++ String.ofList (digits.drop (digits.length - places))

/-- Every digit is written out: zeros to the right of a large number, zeros after the point of a
small one. -/
def Scaled.toText (s : Scaled) : String :=
  if 0 ≤ s.exponent then toString (s.digits * tenTo s.exponent.toNat)
  else withPoint s.digits (-s.exponent).toNat

/-- The text of a number in messages. -/
def shortest (x : Float) : String :=
  match Parts.ofFloat x with
  | .nan => "NaN"
  | .infinite negative => if negative then "-inf" else "inf"
  | .finite negative magnitude => (if negative then "-" else "") ++ magnitude.shortest.toText

end GroupBench.Decimal
