/-! Numbers read from text. Whole numbers are a sign and digits; floating-point numbers are the
words for infinity and for no number, or digits around an optional point with an optional exponent,
and are rounded to nearest. -/
namespace GroupBench.Decimal

/-- The value of a text of digits, at least one. -/
def digits? (cs : List Char) : Option Nat :=
  if cs.isEmpty || !cs.all Char.isDigit then none
  else some (cs.foldl (fun n c => 10 * n + (c.toNat - 48)) 0)

/-- A sign in front of digits, if there is one. -/
def splitSign : List Char → Bool × List Char
  | '-' :: cs => (true, cs)
  | '+' :: cs => (false, cs)
  | cs => (false, cs)

/-- Digits after an optional plus sign, below `bound`. -/
def readUnsigned? (bound : Nat) (s : String) : Option Nat :=
  let cs := s.toList
  let cs := if cs.head? = some '+' then cs.tail else cs
  (digits? cs).bind fun n => if n < bound then some n else none

/-- Digits after an optional sign, not negative and below `bound`, so zero may carry a minus
sign. -/
def readRanged? (bound : Nat) (s : String) : Option Nat :=
  let (negative, cs) := splitSign s.toList
  (digits? cs).bind fun n => if n < bound && (!negative || n = 0) then some n else none

def readUInt16? (s : String) : Option UInt16 := (readRanged? UInt16.size s).map UInt16.ofNat

def readUInt32? (s : String) : Option UInt32 := (readRanged? UInt32.size s).map UInt32.ofNat

/-- The widest words take no minus sign, not even before zero. -/
def readUInt64? (s : String) : Option UInt64 := (readUnsigned? UInt64.size s).map UInt64.ofNat

/-- Exponents of more than six digits are as good as a million: no mantissa that fits a command line
outweighs them. -/
def readExponent? (cs : List Char) : Option Int :=
  let (negative, cs) := splitSign cs
  (digits? cs).map fun n =>
    let n : Int := min n 1000000
    if negative then -n else n

/-- `digits * 10 ^ exponent`, rounded to nearest; beyond the range the answer is known without the
power of ten. -/
def nearestFloat (digits : Nat) (exponent : Int) : Float :=
  let magnitude : Int := (Nat.toDigits 10 digits).length + exponent
  if digits = 0 || magnitude < -400 then 0.0
  else if 400 < magnitude then 1.0 / 0.0
  else if 0 ≤ exponent then Float.ofScientific digits false exponent.toNat
  else Float.ofScientific digits true (-exponent).toNat

/-- Digits with an optional point and an optional exponent; at least one digit before the
exponent. -/
def readMagnitude? (cs : List Char) : Option Float :=
  let whole := cs.takeWhile Char.isDigit
  let rest := cs.dropWhile Char.isDigit
  let (fraction, rest) := match rest with
    | '.' :: r => (r.takeWhile Char.isDigit, r.dropWhile Char.isDigit)
    | r => ([], r)
  let exponent? := match rest with
    | [] => some 0
    | c :: r => if c = 'e' || c = 'E' then readExponent? r else none
  match digits? (whole ++ fraction), exponent? with
  | some n, some e => some (nearestFloat n (e - fraction.length))
  | _, _ => none

/-- The words, in any mixture of cases. -/
def readWord? (cs : List Char) : Option Float :=
  match String.ofList (cs.map Char.toLower) with
  | "inf" | "infinity" => some (1.0 / 0.0)
  | "nan" => some (0.0 / 0.0)
  | _ => none

def readFloat? (s : String) : Option Float :=
  let (negative, cs) := splitSign s.toList
  ((readMagnitude? cs).or (readWord? cs)).map fun x => if negative then -x else x

end GroupBench.Decimal
