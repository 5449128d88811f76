import Mathlib

/-! What floating-point numbers are worth. Every finite number that is not negative is a multiple of
the smallest positive one, so its worth is counted in those; comparisons and conversions to words
are then those of natural numbers. -/
namespace GroupBench.Binary64
open Float.Model (UnpackedFloat Format)
open Float.Model.UnpackedFloat

/-- The amount of the least exponent. -/
@[irreducible]
def depth : Nat := 1074

/-- How many of the smallest positive number make one. -/
@[irreducible]
def one : Nat := 2 ^ depth

theorem one_eq : one = 2 ^ depth := by rw [one]

theorem one_positive : 0 < one := one_eq ▸ Nat.two_pow_pos depth

/-- The mantissa is as long as it can be, or the exponent is the least. -/
structure Canonical (m : Nat) (e : Int) : Prop where
  lt : m < 2 ^ 53
  low : -depth ≤ e
  full : 2 ^ 52 ≤ m ∨ e = -depth

/-- Mantissa and exponent as they are stored: the exponent is not too great either. -/
structure Stored (m : Nat) (e : Int) : Prop extends Canonical m e where
  high : e ≤ 971

/-- The worth of numbers that are not negative, taken apart. -/
inductive Counts : UnpackedFloat → ℕ∞ → Prop
  | zero (s : Sign) : Counts (.zero s) 0
  | infinity : Counts (.infinity .positive) ⊤
  | finite {m : Nat} {e : Int} (hm : 0 < m) : Stored m e →
      Counts (.finite .positive m e hm) (m * 2 ^ (e + depth).toNat : Nat)

/-- The number is not negative, and this is its worth. -/
def Worth (x : Float) (a : ℕ∞) : Prop := Counts x.toModel.unpack a

theorem toNat_implicit (m : BitVec 52) : (1#1 ++ m).toNat = 2 ^ 52 + m.toNat := by
  rw [BitVec.toNat_append, ← Nat.shiftLeft_add_eq_or_of_lt m.isLt]
  rfl

/-- The numbers that bit patterns stand for are stored ones. -/
theorem stored_unpack {b : BitVec Format.binary64.numBits} {s : Sign} {m : Nat} {e : Int}
    {hm : 0 < m} (hu : unpack Format.binary64 b = .finite s m e hm) : Stored m e := by
  have hfraction := (@unpackMantissa Format.binary64 b).isLt
  have hexponent := (@unpackExponent Format.binary64 b).isLt
  change _ < 2 ^ 52 at hfraction
  change _ < 2 ^ 11 at hexponent
  rw [unpack] at hu
  dsimp only at hu
  split at hu
  · split at hu <;> cases hu
  rename_i hlast
  split at hu
  · rename_i hzero
    split at hu
    · cases hu
    · cases hu
      have hexp : (@unpackExponent Format.binary64 b).toNat = 0 := by rw [hzero]; rfl
      rw [hexp]
      have hleast : ((0 : Nat) : Int) - (Format.binary64.exponentBias +
          Format.binary64.mantissaBitsWithoutImplicit) + 1 = -depth := by
        rw [depth]
        rfl
      rw [hleast]
      refine ⟨⟨Nat.lt_trans hfraction (by decide), le_rfl, .inr rfl⟩, ?_⟩
      omega
  · rename_i hzero
    cases hu
    have hpos : (@unpackExponent Format.binary64 b).toNat ≠ 0 := fun he =>
      hzero (BitVec.eq_of_toNat_eq he)
    have hless : (@unpackExponent Format.binary64 b).toNat ≠ 2047 := fun he =>
      hlast (BitVec.eq_of_toNat_eq he)
    have hbias : (Format.binary64.exponentBias +
        Format.binary64.mantissaBitsWithoutImplicit : Int) = 1075 := rfl
    rw [hbias, toNat_implicit]
    refine ⟨⟨by omega, ?_, .inl (Nat.le_add_right ..)⟩, ?_⟩
    · rw [depth]
      omega
    · omega

/-- Of two numbers the one with the greater exponent is worth more. -/
theorem Canonical.lt_of_exponent {m m' : Nat} {e e' : Int} (h : Canonical m e)
    (h' : Canonical m' e') (hlt : e < e') :
    m * 2 ^ (e + depth).toNat < m' * 2 ^ (e' + depth).toNat := by
  have hfull : 2 ^ 52 ≤ m' := h'.full.resolve_right (by have := h.low; omega)
  have hshift : (e + depth).toNat + 1 ≤ (e' + depth).toNat := by
    have := h.low
    omega
  calc m * 2 ^ (e + depth).toNat < 2 ^ 53 * 2 ^ (e + depth).toNat :=
        Nat.mul_lt_mul_of_pos_right h.lt (Nat.two_pow_pos _)
    _ = 2 ^ 52 * 2 ^ ((e + depth).toNat + 1) := by ring
    _ ≤ m' * 2 ^ (e' + depth).toNat :=
        Nat.mul_le_mul hfull (Nat.pow_le_pow_right Nat.two_pos hshift)

theorem Canonical.compare_eq {m m' : Nat} {e e' : Int} (h : Canonical m e) (h' : Canonical m' e') :
    (compare e e').then (compare m m') =
      cmp (m * 2 ^ (e + depth).toNat) (m' * 2 ^ (e' + depth).toNat) := by
  rcases Int.lt_trichotomy e e' with hlt | rfl | hlt
  · rw [(cmp_eq_lt_iff ..).2 (h.lt_of_exponent h' hlt), Int.compare_eq_lt.2 hlt]
    rfl
  · rw [Int.compare_eq_eq.2 rfl]
    have hmono : StrictMono fun m : Nat => m * 2 ^ (e + depth).toNat := fun _ _ hless =>
      Nat.mul_lt_mul_of_pos_right hless (Nat.two_pow_pos _)
    exact (cmp_eq_compare m m').symm.trans (hmono.cmp_map_eq m m').symm
  · rw [(cmp_eq_gt_iff ..).2 (h'.lt_of_exponent h hlt), Int.compare_eq_gt.2 hlt]
    rfl

theorem cmp_cast (n k : Nat) : cmp (n : ℕ∞) k = cmp n k := Nat.strictMono_cast.cmp_map_eq n k

theorem finite_pos {m : Nat} (hm : 0 < m) (k : Nat) : (0 : ℕ∞) < (m * 2 ^ k : Nat) := by
  exact_mod_cast Nat.mul_pos hm (Nat.two_pow_pos k)

/-- Numbers compare as what they are worth. -/
theorem Counts.compare_eq {u v : UnpackedFloat} {a b : ℕ∞} (hu : Counts u a) (hv : Counts v b) :
    u.compare v = some (cmp a b) := by
  cases hu with
  | zero s =>
    cases hv with
    | zero s' => exact congrArg some (cmp_self_eq_eq 0).symm
    | infinity => exact congrArg some ((cmp_eq_lt_iff ..).2 (ENat.natCast_lt_top 0)).symm
    | finite hm h => exact congrArg some ((cmp_eq_lt_iff ..).2 (finite_pos hm _)).symm
  | infinity =>
    cases hv with
    | zero s' => exact congrArg some ((cmp_eq_gt_iff ..).2 (ENat.natCast_lt_top 0)).symm
    | infinity => exact congrArg some (cmp_self_eq_eq ⊤).symm
    | finite hm h => exact congrArg some ((cmp_eq_gt_iff ..).2 (ENat.natCast_lt_top _)).symm
  | finite hm h =>
    cases hv with
    | zero s' => exact congrArg some ((cmp_eq_gt_iff ..).2 (finite_pos hm _)).symm
    | infinity => exact congrArg some ((cmp_eq_lt_iff ..).2 (ENat.natCast_lt_top _)).symm
    | finite hm' h' =>
      exact congrArg some ((h.toCanonical.compare_eq h'.toCanonical).trans (cmp_cast _ _).symm)

section Compare
variable {x y : Float} {a b : ℕ∞} (hx : Worth x a) (hy : Worth y b)
include hx hy

theorem lt_iff : x < y ↔ a < b := by
  have hlt : x < y ↔ (x.toModel.unpack.compare y.toModel.unpack == some .lt) = true :=
    decide_eq_true_iff
  rw [hlt]
  rw [Counts.compare_eq hx hy, beq_iff_eq, Option.some_inj, cmp_eq_lt_iff]

theorem le_iff : x ≤ y ↔ a ≤ b := by
  have hle : x ≤ y ↔ (x.toModel.unpack.compare y.toModel.unpack).any (·.isLE) = true :=
    decide_eq_true_iff
  rw [hle]
  rw [Counts.compare_eq hx hy, Option.any_some, ← not_lt, ← cmp_eq_gt_iff]
  cases cmp a b <;> simp

end Compare

theorem mantissa_shift (em : ExtendedMantissa) (n : Nat) :
    (em >>> n).mantissa = em.mantissa / 2 ^ n := by
  change (n.repeat ExtendedMantissa.shiftRightOne em).mantissa = _
  induction n with
  | zero => exact (Nat.div_one em.mantissa).symm
  | succ n ih =>
    change (n.repeat ExtendedMantissa.shiftRightOne em).mantissa / 2 = _
    rw [ih, Nat.div_div_eq_div_mul, ← Nat.pow_succ]

/-- Conversion to a whole number keeps the part before the point. -/
theorem Counts.toNat_toInt {u : UnpackedFloat} {n : Nat} (hu : Counts u n) (low high : Int) :
    (u.toInt low high).toNat = n / one := by
  generalize ha : (n : ℕ∞) = a at hu
  cases hu with
  | zero s =>
    rw [Nat.cast_eq_zero.1 ha, Nat.zero_div]
    rfl
  | infinity => exact absurd ha (ENat.natCast_ne_top n)
  | @finite m e hm h =>
    obtain rfl := Nat.cast_injective ha
    have hlow := h.low
    change ((ExtendedMantissa.mk (m <<< (e - 0).toNat) false false >>>
      (0 - (e - (e - 0).toNat)).toNat).mantissa : Int).toNat = _
    rw [Int.toNat_natCast, mantissa_shift, Nat.shiftLeft_eq, one]
    rcases Int.le_total 0 e with he | he
    · have hsplit : (e + depth).toNat = (e - 0).toNat + depth := by omega
      have hnone : (0 - (e - (e - 0).toNat)).toNat = 0 := by omega
      rw [hsplit, hnone, Nat.pow_add, ← Nat.mul_assoc,
        Nat.mul_div_cancel _ (Nat.two_pow_pos depth), Nat.pow_zero, Nat.div_one]
    · have hnone : (e - 0).toNat = 0 := by omega
      have hsplit : 2 ^ depth = 2 ^ (0 - (e - (e - 0).toNat)).toNat * 2 ^ (e + depth).toNat := by
        rw [← Nat.pow_add]
        congr 1
        omega
      rw [hsplit, Nat.mul_div_mul_right _ _ (Nat.two_pow_pos _), hnone, Nat.pow_zero, Nat.mul_one]

end GroupBench.Binary64
