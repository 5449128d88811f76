/-! A binary floating-point number taken apart: `mantissa * 2 ^ exponent` with a sign, and its exact
value as a fraction. -/
namespace GroupBench.Decimal

/-- The magnitude `mantissa * 2 ^ exponent` of a finite number. -/
structure Dyadic where
  mantissa : Nat
  exponent : Int
  /-- The mantissa is the least of its binade and a finer binade lies below, so the gap below is
  half the gap above. -/
  narrowBelow : Bool

/-- What the bits of a number say. -/
inductive Parts
  | nan
  | infinite (negative : Bool)
  | finite (negative : Bool) (magnitude : Dyadic)

/-- One sign bit, eleven exponent bits, fifty-two fraction bits. -/
def Parts.ofFloat (x : Float) : Parts :=
  let bits := x.toBits
  let negative := bits >>> 63 = 1
  let biased : Nat := (bits >>> 52 &&& 0x7FF).toNat
  let fraction : Nat := (bits &&& 0xFFFFFFFFFFFFF).toNat
  if biased = 2047 then
    if fraction = 0 then .infinite negative else .nan
  else if biased = 0 then
    .finite negative ⟨fraction, -1074, false⟩
  else
    .finite negative
      ⟨0x10000000000000 + fraction, (biased : Int) - 1075, fraction = 0 && 1 < biased⟩

/-- `n * 2 ^ e` as a fraction with a positive denominator. -/
def scaleTwo (n : Nat) (e : Int) : Nat × Nat :=
  if 0 ≤ e then (n <<< e.toNat, 1) else (n, 1 <<< (-e).toNat)

/-- `10 ^ k`. -/
def tenTo (k : Nat) : Nat := Nat.pow 10 k

end GroupBench.Decimal
