import GroupBench.Proofs.Binary64.Arithmetic

/-! Numbers without a worth: those with a minus sign, and what is not a number at all. Comparisons
and conversions to words tell them apart from the others, and products keep them what they are. -/
namespace GroupBench.Binary64
open Float.Model (UnpackedFloat Format)
open Float.Model.UnpackedFloat

/-- The number has a minus sign. -/
inductive Minus : UnpackedFloat → Prop
  | zero : Minus (.zero .negative)
  | infinity : Minus (.infinity .negative)
  | finite {m : Nat} {e : Int} (hm : 0 < m) : Minus (.finite .negative m e hm)

/-- What is no number: operations on such a thing come to such a thing. -/
def Undefined (x : Float) : Prop := x.toModel.unpack = .notANumber

theorem worth_cases (x : Float) :
    (∃ a, Worth x a) ∨ Minus x.toModel.unpack ∨ Undefined x := by
  simp only [Worth, Undefined]
  cases hu : x.toModel.unpack with
  | notANumber => exact .inr (.inr rfl)
  | infinity s =>
    cases s with
    | positive => exact .inl ⟨⊤, .infinity⟩
    | negative => exact .inr (.inl .infinity)
  | zero s => exact .inl ⟨0, .zero s⟩
  | finite s m e hm =>
    cases s with
    | positive => exact .inl ⟨_, .finite hm (stored_unpack hu)⟩
    | negative => exact .inr (.inl (.finite hm))

section Packing
variable {u v : UnpackedFloat}

theorem unpack_pack_notANumber :
    unpack Format.binary64 (pack Format.binary64 .notANumber) = .notANumber := by
  rfl

/-- An exponent that is not the last one leaves a number, whose sign is kept. -/
theorem minus_unpack_components {exponent : BitVec 11} (hne : exponent ≠ -1#11)
    (mantissa : BitVec 52) :
    Minus (unpack Format.binary64 (packComponents Format.binary64 .negative exponent mantissa)) := by
  rw [unpack_components, if_neg hne]
  split
  · split
    · exact .zero
    · exact .finite _
  · exact .finite _

theorem Minus.unpack_pack (hu : Minus u) :
    Minus (unpack Format.binary64 (pack Format.binary64 u)) := by
  cases hu with
  | zero => exact (unpack_pack_zero .negative).symm ▸ .zero
  | infinity => exact (unpack_pack_infinity .negative).symm ▸ .infinity
  | finite hm =>
    rw [pack]
    dsimp only
    split
    · exact (unpack_pack_infinity .negative).symm ▸ .infinity
    · rename_i hlow
      change ¬ 2 ^ 11 ≤ _ at hlow
      split
      · refine minus_unpack_components (fun hlast => ?_) _
        have hword := congrArg BitVec.toNat hlast
        rw [BitVec.toNat_ofNat, Nat.mod_eq_of_lt (by omega)] at hword
        change _ = 2047 at hword
        omega
      · exact minus_unpack_components (by decide) _

theorem minus_roundWithAccuracy (m : Nat) (e : Int) (accuracy : Accuracy) :
    Minus (roundWithAccuracy Format.binary64 .negative m e accuracy) := by
  rw [roundWithAccuracy]
  dsimp only
  split
  · exact .zero
  · exact .finite _

theorem Minus.mul {n : Nat} (hn : 0 < n) (hu : Counts u n) (hv : Minus v) :
    Minus (UnpackedFloat.mul Format.binary64 u v) := by
  generalize ha : (n : ℕ∞) = a at hu
  cases hu with
  | zero => exact absurd (Nat.cast_eq_zero.1 ha) (Nat.ne_of_gt hn)
  | infinity => exact absurd ha (ENat.natCast_ne_top n)
  | finite =>
    cases hv with
    | zero => exact .zero
    | infinity => exact .infinity
    | finite => exact minus_roundWithAccuracy ..

theorem Minus.compare_eq {a : ℕ∞} (hu : Minus u) (hv : Counts v a) (ha : 0 < a) :
    u.compare v = some .lt := by
  cases hv with
  | zero => exact absurd ha (lt_irrefl 0)
  | infinity | finite => cases hu <;> rfl

theorem Minus.compare_ne {a : ℕ∞} (hu : Counts u a) (hv : Minus v) : u.compare v ≠ some .lt := by
  cases hu <;> cases hv <;> simp [UnpackedFloat.compare]

theorem compare_notANumber (u : UnpackedFloat) : u.compare .notANumber = none := by
  cases u with
  | infinity s => cases s <;> rfl
  | finite s => cases s <;> rfl
  | notANumber | zero => rfl

theorem Minus.toNat_toInt (hu : Minus u) (high : Int) : (u.toInt 0 high).toNat = 0 := by
  cases hu with
  | zero | infinity => rfl
  | finite hm => exact Int.toNat_neg_natCast _

end Packing

section Floats
variable {x y : Float} {a : ℕ∞}

theorem minus_mul {n : Nat} (hn : 0 < n) (hx : Worth x n) (hy : Minus y.toModel.unpack) :
    Minus (x * y).toModel.unpack :=
  (hy.mul hn hx).unpack_pack

theorem Undefined.mul (hy : Undefined y) (x : Float) : Undefined (x * y) := by
  have hmul (u : UnpackedFloat) : UnpackedFloat.mul Format.binary64 u .notANumber = .notANumber := by
    cases u <;> rfl
  change unpack _ (pack _ (UnpackedFloat.mul _ x.toModel.unpack y.toModel.unpack)) = .notANumber
  rw [hy, hmul]
  exact unpack_pack_notANumber

theorem Undefined.add (hx : Undefined x) (y : Float) : Undefined (x + y) := by
  have hadd (u : UnpackedFloat) : UnpackedFloat.add Format.binary64 .notANumber u = .notANumber := by
    cases u <;> rfl
  change unpack _ (pack _ (UnpackedFloat.add _ x.toModel.unpack y.toModel.unpack)) = .notANumber
  rw [hx, hadd]
  exact unpack_pack_notANumber

theorem Undefined.not_worth (hx : Undefined x) : ¬ Worth x a := by
  intro hworth
  rw [Worth, hx] at hworth
  cases hworth

theorem lt_iff_compare :
    x < y ↔ x.toModel.unpack.compare y.toModel.unpack = some .lt := by
  have hlt : x < y ↔ (x.toModel.unpack.compare y.toModel.unpack == some .lt) = true :=
    decide_eq_true_iff
  rw [hlt, beq_iff_eq]

theorem lt_of_minus (hx : Minus x.toModel.unpack) (hy : Worth y a) (ha : 0 < a) : x < y :=
  lt_iff_compare.2 (hx.compare_eq hy ha)

/-- What is greater than something of worth has a worth itself. -/
theorem exists_worth_of_lt (hx : Worth x a) (hlt : x < y) : ∃ b, Worth y b := by
  rw [lt_iff_compare] at hlt
  rcases worth_cases y with hy | hminus | hundefined
  · exact hy
  · exact absurd hlt (hminus.compare_ne hx)
  · rw [hundefined, compare_notANumber] at hlt
    cases hlt

theorem toUInt32_of_minus (hx : Minus x.toModel.unpack) : x.toUInt32 = 0 := by
  change UInt32.ofNatClamp (x.toModel.unpack.toInt _ _).toNat = 0
  rw [hx.toNat_toInt]
  rfl

theorem toUInt32_of_undefined (hx : Undefined x) : x.toUInt32 = 0 := by
  change UInt32.ofNatClamp (x.toModel.unpack.toInt _ _).toNat = 0
  rw [hx]
  rfl

theorem toUInt32_of_top (hx : Worth x ⊤) : x.toUInt32 = 0xFFFFFFFF := by
  change UInt32.ofNatClamp (x.toModel.unpack.toInt _ _).toNat = _
  rw [Counts.eq_infinity hx]
  rfl

/-- What is less than one is cut down to zero, be it negative. -/
theorem toUInt32_of_lt_one (hx : x < 1.0) : x.toUInt32 = 0 := by
  rcases worth_cases x with ⟨a, ha⟩ | hminus | hundefined
  · have hless := (lt_iff ha worth_one).1 hx
    obtain ⟨n, rfl⟩ := ENat.ne_top_iff_exists.1 (ne_top_of_lt hless)
    refine UInt32.toNat_inj.1 ?_
    rw [toNat_toUInt32 ha, Nat.div_eq_of_lt (Nat.cast_lt.1 hless)]
    rfl
  · exact toUInt32_of_minus hminus
  · exact toUInt32_of_undefined hundefined

/-- What is at least the greatest word is cut down to it, be it infinite. -/
theorem toUInt32_of_le (hx : Worth x a) (ha : (4294967295 * one : Nat) ≤ a) :
    x.toUInt32 = 0xFFFFFFFF := by
  induction a using ENat.recTopCoe with
  | top => exact toUInt32_of_top hx
  | coe n =>
    refine UInt32.toNat_inj.1 ?_
    rw [toNat_toUInt32 hx]
    exact Nat.min_eq_right ((Nat.le_div_iff_mul_le one_positive).2 (Nat.cast_le.1 ha))

end Floats

end GroupBench.Binary64
