import GroupBench.Decimal.Shortest

/-! Numbers written with a fixed count of places after the point; a half goes to the even
neighbour. -/
namespace GroupBench.Decimal

/-- The whole number nearest to `num / den`, the even one of two that are equally near. -/
def roundHalfEven (num den : Nat) : Nat :=
  let q := num / den
  let twice := 2 * (num % den)
  if twice < den then q else if den < twice then q + 1 else q + q % 2

/-- `x` with `places` digits after the point, rounded from its exact value. -/
def fixed (places : Nat) (x : Float) : String :=
  match Parts.ofFloat x with
  | .nan => "NaN"
  | .infinite negative => if negative then "-inf" else "inf"
  | .finite negative magnitude =>
    let (num, den) := scaleTwo (magnitude.mantissa * tenTo places) magnitude.exponent
    (if negative then "-" else "") ++ withPoint (roundHalfEven num den) places

end GroupBench.Decimal
