import GroupBench.Proofs.Binary64.Units

/-! Rounding. What an operation comes to is rounded to 53 binary digits and then stored: no number
lies between the exact amount and the rounded one, and what is too great to be stored is infinite.
-/
namespace GroupBench.Binary64
open Float.Model (UnpackedFloat Format totalExponent)
open Float.Model.UnpackedFloat

section Storing
variable (s : Sign)

theorem unpackSign_packComponents {spec : Format} {exponent : BitVec spec.exponentBits}
    {mantissa : BitVec spec.mantissaBitsWithoutImplicit} :
    unpackSign (packComponents spec s exponent mantissa) = s.toBitVec := by
  ext i hi
  simp [unpackSign, packComponents, BitVec.getLsbD_append, Nat.add_assoc,
    BitVec.getLsbD_eq_getElem hi]

theorem ofBitVec_toBitVec : Sign.ofBitVec s.toBitVec = s := by
  cases s <;> rfl

theorem unpack_components (exponent : BitVec 11) (mantissa : BitVec 52) :
    unpack Format.binary64 (packComponents Format.binary64 s exponent mantissa) =
      if exponent = -1#11 then
        if mantissa = 0#52 then .infinity s else .notANumber
      else if exponent = 0#11 then
        if h : mantissa = 0#52 then .zero s
        else .finite s mantissa.toNat (exponent.toNat - 1075 + 1)
          (by simpa [BitVec.toNat_pos, BitVec.pos_iff_ne_zero])
      else .finite s (1#1 ++ mantissa).toNat (exponent.toNat - 1075)
        (by simp [toNat_implicit]) := by
  have hmantissa : unpackMantissa (packComponents Format.binary64 s exponent mantissa) = mantissa :=
    unpackMantissa_packComponents
  have hexponent : unpackExponent (packComponents Format.binary64 s exponent mantissa) = exponent :=
    unpackExponent_packComponents
  have hsign : Sign.ofBitVec (unpackSign (packComponents Format.binary64 s exponent mantissa)) =
      s := by
    rw [unpackSign_packComponents, ofBitVec_toBitVec]
  rw [unpack]
  simp only [hmantissa, hexponent, hsign]
  rfl

theorem finite_congr {m m' : Nat} {e e' : Int} {hm : 0 < m} {hm' : 0 < m'} (h : m = m')
    (h' : e = e') : UnpackedFloat.finite s m e hm = .finite s m' e' hm' := by
  subst h h'
  rfl

theorem pack_finite {m : Nat} {e : Int} (hm : 0 < m) (hlt : m < 2 ^ 53) :
    pack Format.binary64 (.finite s m e hm) =
      if 2048 ≤ (e + 1075).toNat + 1 then packedInfinity Format.binary64 s
      else if 2 ^ 52 ≤ m then
        packComponents Format.binary64 s (BitVec.ofNat 11 (e + 1075).toNat) (BitVec.ofNat 52 m)
      else packComponents Format.binary64 s 0#11 (BitVec.ofNat 52 m) := by
  have hbias : e + Format.binary64.exponentBias + Format.binary64.mantissaBitsWithoutImplicit =
      e + 1075 := Int.add_assoc ..
  have hbits : m.log2 + 1 = Format.binary64.mantissaBits ↔ 2 ^ 52 ≤ m := by
    have hless := (Nat.log2_lt (Nat.ne_of_gt hm)).2 hlt
    rw [← Nat.le_log2 (Nat.ne_of_gt hm)]
    change m.log2 + 1 = 53 ↔ _
    omega
  rw [pack]
  simp only [hbias, hbits]

/-- What can be stored is read back. -/
theorem Stored.unpack_pack {m : Nat} {e : Int} (h : Stored m e) (hm : 0 < m) :
    unpack Format.binary64 (pack Format.binary64 (.finite s m e hm)) = .finite s m e hm := by
  have hlt := h.lt
  have hlow := h.low
  have hhigh := h.high
  rw [depth] at hlow
  rw [pack_finite s hm hlt, if_neg (by omega)]
  split
  · have hexponent : (BitVec.ofNat 11 (e + 1075).toNat).toNat = (e + 1075).toNat := by
      rw [BitVec.toNat_ofNat]
      omega
    rw [unpack_components, if_neg, if_neg]
    · apply finite_congr
      · rw [toNat_implicit, BitVec.toNat_ofNat]
        omega
      · rw [hexponent]
        omega
    · intro hzero
      rw [hzero] at hexponent
      change 0 = _ at hexponent
      omega
    · intro hlast
      rw [hlast] at hexponent
      change 2047 = _ at hexponent
      omega
  · rename_i hshort
    have hmantissa : (BitVec.ofNat 52 m).toNat = m := by
      rw [BitVec.toNat_ofNat]
      omega
    have hne : BitVec.ofNat 52 m ≠ 0#52 := by
      intro hzero
      rw [hzero] at hmantissa
      exact absurd hmantissa (Nat.ne_of_lt hm)
    rw [unpack_components, if_neg (by decide), if_pos rfl, dif_neg hne]
    apply finite_congr
    · exact hmantissa
    · rw [h.full.resolve_left hshort, depth]
      rfl

end Storing

/-- A rounded number before it is stored, and what it is worth; its exponent may still be too great.
-/
inductive Fits : UnpackedFloat → Nat → Prop
  | zero : Fits (.zero .positive) 0
  | finite {m : Nat} {e : Int} (hm : 0 < m) : Canonical m e →
      Fits (.finite .positive m e hm) (m * 2 ^ (e + depth).toNat)

/-- The least amount that is too great to be stored. -/
@[irreducible]
def overflow : Nat := 2 ^ (1024 + depth)

theorem overflow_pos : 0 < overflow := by
  rw [overflow]
  exact Nat.two_pow_pos _

/-- What is left of an amount when it is stored. -/
def stored (n : Nat) : ℕ∞ := if n < overflow then n else ⊤

theorem le_stored (n : Nat) : (n : ℕ∞) ≤ stored n := by
  rw [stored]
  split
  · exact le_rfl
  · exact le_top

theorem Stored.lt_overflow {m : Nat} {e : Int} (h : Stored m e) :
    m * 2 ^ (e + depth).toNat < overflow := by
  have hhigh := h.high
  have hexponent : (e + depth).toNat ≤ 971 + depth := by omega
  calc m * 2 ^ (e + depth).toNat < 2 ^ 53 * 2 ^ (e + depth).toNat :=
        Nat.mul_lt_mul_of_pos_right h.lt (Nat.two_pow_pos _)
    _ ≤ 2 ^ 53 * 2 ^ (971 + depth) :=
        Nat.mul_le_mul_left _ (Nat.pow_le_pow_right Nat.two_pos hexponent)
    _ = overflow := by rw [← Nat.pow_add, ← Nat.add_assoc, overflow]

/-- Numbers that are not stored as they are become infinite. -/
theorem Fits.counts {u : UnpackedFloat} {n : Nat} (h : Fits u n) :
    Counts (unpack Format.binary64 (pack Format.binary64 u)) (stored n) := by
  cases h with
  | zero =>
    rw [stored, if_pos overflow_pos]
    exact (unpack_components .positive 0#11 0#52).symm ▸ .zero .positive
  | @finite m e hm h =>
    by_cases hhigh : e ≤ 971
    · rw [Stored.unpack_pack _ ⟨h, hhigh⟩ hm, stored, if_pos (Stored.lt_overflow ⟨h, hhigh⟩)]
      exact .finite hm ⟨h, hhigh⟩
    · have hfull : 2 ^ 52 ≤ m := h.full.resolve_right (by rw [depth]; omega)
      have hexponent : 972 + depth ≤ (e + depth).toNat := by omega
      have hgreat : overflow ≤ m * 2 ^ (e + depth).toNat :=
        calc overflow = 2 ^ 52 * 2 ^ (972 + depth) := by
              rw [← Nat.pow_add, ← Nat.add_assoc, overflow]
          _ ≤ m * 2 ^ (e + depth).toNat :=
            Nat.mul_le_mul hfull (Nat.pow_le_pow_right Nat.two_pos hexponent)
      rw [pack_finite _ hm h.lt, if_pos (by omega), stored, if_neg (Nat.not_lt.2 hgreat)]
      exact (unpack_components .positive (-1#11) 0#52).symm ▸ .infinity

/-- The least exponent that leaves the mantissa short enough. -/
def target (m : Nat) (e : Int) : Int := max (m.log2 + 1 + e - 53) (-depth)

theorem targetExponent_eq (m : Nat) (e : Int) :
    Format.binary64.targetExponent (totalExponent m e) = target m e := by
  rw [target, depth]
  rfl

/-- A shift that drops zeros only leaves nothing to round. -/
theorem shift_exact (m n : Nat) :
    ExtendedMantissa.mk (m * 2 ^ n) false false >>> n = ⟨m, false, false⟩ := by
  change n.repeat ExtendedMantissa.shiftRightOne ⟨m * 2 ^ n, false, false⟩ = _
  induction n generalizing m with
  | zero => rw [Nat.pow_zero, Nat.mul_one]; rfl
  | succ n ih =>
    change (n.repeat ExtendedMantissa.shiftRightOne _).shiftRightOne = _
    rw [Nat.pow_succ, Nat.mul_comm (2 ^ n) 2, ← Nat.mul_assoc, ih]
    simp [ExtendedMantissa.shiftRightOne]

theorem roundedMantissa_cases (em : ExtendedMantissa) :
    em.roundedMantissa = em.mantissa ∨ em.roundedMantissa = em.mantissa + 1 := by
  obtain ⟨m, round, sticky⟩ := em
  cases round <;> cases sticky
  · exact .inl rfl
  · exact .inl rfl
  · change m + m % 2 = m ∨ m + m % 2 = m + 1
    omega
  · exact .inr rfl

/-- An amount is rounded to one of the multiples of a unit next to it. -/
def RoundsTo (n unit q : Nat) : Prop := q = n / unit ∨ q = n / unit + 1 ∧ ¬ unit ∣ n

theorem roundsTo_shift (m n : Nat) :
    RoundsTo m (2 ^ n) (ExtendedMantissa.mk m false false >>> n).roundedMantissa := by
  by_cases hdvd : 2 ^ n ∣ m
  · obtain ⟨k, rfl⟩ := hdvd
    rw [Nat.mul_comm, shift_exact]
    exact .inl (Nat.mul_div_cancel _ (Nat.two_pow_pos n)).symm
  · rcases roundedMantissa_cases (ExtendedMantissa.mk m false false >>> n) with h | h
    · exact .inl (h.trans (mantissa_shift _ n))
    · exact .inr ⟨by rw [h, mantissa_shift], hdvd⟩

/-- A rounded mantissa may have one digit too many; it is shortened once more. -/
def settle (q : Nat) (e : Int) : UnpackedFloat :=
  let shift := (target q e - e).toNat
  let m := (ExtendedMantissa.mk q false false >>> shift).mantissa
  if h : m = 0 then .zero .positive else .finite .positive m (e + shift) (Nat.pos_of_ne_zero h)

theorem roundWithAccuracy_eq (m : Nat) (e : Int) :
    roundWithAccuracy Format.binary64 .positive m e .exact =
      settle (ExtendedMantissa.mk m false false >>> (target m e - e).toNat).roundedMantissa
        (e + (target m e - e).toNat) := by
  simp only [settle, target, depth]
  rfl

theorem fits_settle {q : Nat} {e : Int} (hq : q ≤ 2 ^ 53) (he : -depth ≤ e)
    (hfull : 2 ^ 52 ≤ q ∨ e = -depth) : Fits (settle q e) (q * 2 ^ (e + depth).toNat) := by
  rw [settle]
  simp only [mantissa_shift]
  rcases Nat.lt_or_eq_of_le hq with hlt | rfl
  · have hlog : q.log2 ≤ 52 := by
      rcases Nat.eq_zero_or_pos q with rfl | hpos
      · decide
      · exact Nat.le_of_lt_succ ((Nat.log2_lt (Nat.ne_of_gt hpos)).2 hlt)
    have hshift : (target q e - e).toNat = 0 := by
      rw [target]
      omega
    simp only [hshift, Nat.pow_zero, Nat.div_one]
    split
    · rename_i hzero
      subst hzero
      rw [Nat.zero_mul]
      exact .zero
    · rename_i hpos
      rw [Int.natCast_zero, Int.add_zero]
      exact .finite (Nat.pos_of_ne_zero hpos) ⟨hlt, he, hfull⟩
  · have hshift : (target (2 ^ 53) e - e).toNat = 1 := by
      rw [target, Nat.log2_two_pow]
      omega
    have hvalue : 2 ^ 53 * 2 ^ (e + depth).toNat = 2 ^ 52 * 2 ^ (e + (1 : Nat) + depth).toNat := by
      have hexponent : (e + (1 : Nat) + depth).toNat = (e + depth).toNat + 1 := by omega
      rw [hexponent]
      ring
    simp only [hshift]
    rw [dif_neg (by decide), hvalue]
    exact .finite (by decide) ⟨by decide, by omega, .inl le_rfl⟩

/-- The mantissa that is left when an amount is cut to its unit: it is short enough, and it is as
long as it can be unless the unit is the least one. -/
theorem cut_mantissa {m : Nat} {e : Int} (hm : 0 < m) (he : e ≤ target m e) :
    m / 2 ^ (target m e - e).toNat < 2 ^ 53 ∧
      (2 ^ 52 ≤ m / 2 ^ (target m e - e).toNat ∨ target m e = -depth) := by
  have hne := Nat.ne_of_gt hm
  constructor
  · apply Nat.div_lt_of_lt_mul
    rw [← Nat.pow_add, ← Nat.log2_lt hne, target]
    omega
  · rw [or_iff_not_imp_right]
    intro hlow
    rw [Nat.le_div_iff_mul_le (Nat.two_pow_pos _), ← Nat.pow_add, ← Nat.le_log2 hne]
    rw [target] at he hlow ⊢
    omega

theorem fits_roundWithAccuracy {m : Nat} {e : Int} (hm : 0 < m) (he : e ≤ target m e) :
    ∃ q, RoundsTo m (2 ^ (target m e - e).toNat) q ∧
      Fits (roundWithAccuracy Format.binary64 .positive m e .exact)
        (q * 2 ^ (target m e + depth).toNat) := by
  refine ⟨_, roundsTo_shift m _, ?_⟩
  have hexponent : e + (target m e - e).toNat = target m e := by omega
  obtain ⟨hlt, hfull⟩ := cut_mantissa hm he
  rw [roundWithAccuracy_eq, hexponent]
  have hlow : -depth ≤ target m e := Int.le_max_right ..
  rcases roundedMantissa_cases
    (ExtendedMantissa.mk m false false >>> (target m e - e).toNat) with hq | hq
  all_goals
    rw [hq, mantissa_shift]
    refine fits_settle (by dsimp only; omega) hlow ?_
    dsimp only
    omega

/-- Amounts that are numbers if they can be stored. -/
def Exact (n : Nat) : Prop := ∃ m e, Canonical m e ∧ n = m * 2 ^ (e + depth).toNat

/-- No number lies between the two amounts. -/
def Faithful (n v : Nat) : Prop := ∀ r, Exact r → (r ≤ n → r ≤ v) ∧ (n ≤ r → v ≤ r)

theorem Faithful.eq_of_exact {n v : Nat} (h : Faithful n v) (hn : Exact n) : v = n :=
  Nat.le_antisymm ((h n hn).2 le_rfl) ((h n hn).1 le_rfl)

theorem exact_of_lt {m : Nat} (hlt : m < 2 ^ 53) (k : Nat) : Exact (m * 2 ^ k) := by
  rcases Nat.eq_zero_or_pos m with rfl | hm
  · exact ⟨0, -depth, ⟨by decide, le_rfl, .inr rfl⟩, by rw [Nat.zero_mul, Nat.zero_mul]⟩
  -- The mantissa takes as many digits as it has room for and the exponent can spare.
  have hne := Nat.ne_of_gt hm
  have hlog := (Nat.log2_lt hne).2 hlt
  obtain ⟨d, j, rfl, hd, hfull⟩ : ∃ d j, k = d + j ∧ m.log2 + d ≤ 52 ∧ (m.log2 + d = 52 ∨ j = 0) :=
    ⟨min k (52 - m.log2), k - min k (52 - m.log2), by omega, by omega, by omega⟩
  have hj : ((j : Int) - depth + depth).toNat = j := by omega
  refine ⟨m * 2 ^ d, j - depth, ⟨?_, by omega, ?_⟩, ?_⟩
  · calc m * 2 ^ d < 2 ^ (m.log2 + 1) * 2 ^ d :=
          Nat.mul_lt_mul_of_pos_right Nat.lt_log2_self (Nat.two_pow_pos d)
      _ = 2 ^ (m.log2 + 1 + d) := (Nat.pow_add ..).symm
      _ ≤ 2 ^ 53 := Nat.pow_le_pow_right Nat.two_pos (by omega)
  · rcases hfull with hfull | rfl
    · left
      calc 2 ^ 52 = 2 ^ m.log2 * 2 ^ d := by rw [← Nat.pow_add, hfull]
        _ ≤ m * 2 ^ d := Nat.mul_le_mul_right _ (Nat.log2_self_le hne)
    · right
      omega
  · rw [hj, Nat.mul_assoc, ← Nat.pow_add]

/-- A number next to an amount that takes all digits is a multiple of the unit, or it is less than
what the unit leaves of the amount. -/
theorem exact_cases {r : Nat} (hr : Exact r) (k : Nat) :
    2 ^ k ∣ r ∨ r < 2 ^ 52 * 2 ^ k ∧ 0 < k := by
  obtain ⟨m, e, h, rfl⟩ := hr
  rcases Nat.lt_or_ge (e + depth).toNat k with hlt | hge
  · right
    refine ⟨?_, by omega⟩
    calc m * 2 ^ (e + depth).toNat < 2 ^ 53 * 2 ^ (e + depth).toNat :=
          Nat.mul_lt_mul_of_pos_right h.lt (Nat.two_pow_pos _)
      _ = 2 ^ 52 * 2 ^ ((e + depth).toNat + 1) := by ring
      _ ≤ 2 ^ 52 * 2 ^ k := Nat.mul_le_mul_left _ (Nat.pow_le_pow_right Nat.two_pos hlt)
  · exact .inl (Nat.dvd_mul_left_of_dvd (Nat.pow_dvd_pow 2 hge) m)

theorem RoundsTo.faithful {n k q : Nat} (h : RoundsTo n (2 ^ k) q)
    (hfull : 2 ^ 52 ≤ n / 2 ^ k ∨ k = 0) : Faithful n (q * 2 ^ k) := by
  intro r hr
  have hunit := Nat.two_pow_pos k
  have hlow : n / 2 ^ k * 2 ^ k ≤ q * 2 ^ k := by
    refine Nat.mul_le_mul_right _ ?_
    obtain rfl | ⟨rfl, -⟩ := h
    · exact le_rfl
    · exact Nat.le_succ _
  rcases exact_cases hr k with ⟨c, rfl⟩ | ⟨hless, hk⟩
  · rw [Nat.mul_comm (2 ^ k)]
    constructor
    · intro hle
      exact (Nat.mul_le_mul_right _ ((Nat.le_div_iff_mul_le hunit).2 hle)).trans hlow
    · intro hge
      apply Nat.mul_le_mul_right
      obtain rfl | ⟨rfl, hdvd⟩ := h
      · exact Nat.div_le_of_le_mul (by rwa [Nat.mul_comm])
      · refine (Nat.div_lt_iff_lt_mul hunit).2 (Nat.lt_of_le_of_ne hge ?_)
        rintro rfl
        exact hdvd (Nat.dvd_mul_left _ _)
  · have hlong := hfull.resolve_right (Nat.ne_of_gt hk)
    have hbelow : r < n / 2 ^ k * 2 ^ k := hless.trans_le (Nat.mul_le_mul_right _ hlong)
    refine ⟨fun _ => hbelow.le.trans hlow, fun hge => ?_⟩
    exact absurd (hge.trans_lt hbelow) (Nat.not_lt.2 (Nat.div_mul_le_self ..))

theorem roundsTo_scale_iff {n k q : Nat} (j : Nat) :
    RoundsTo (n * 2 ^ j) (2 ^ (k + j)) q ↔ RoundsTo n (2 ^ k) q := by
  have hunit := Nat.two_pow_pos j
  rw [RoundsTo, RoundsTo, Nat.pow_add, Nat.mul_div_mul_right _ _ hunit,
    Nat.mul_dvd_mul_iff_right hunit]

/-- An amount is rounded to a number next to it. Its last digits may be smaller than the least unit,
as long as there is nothing in them. -/
theorem exists_fits_exact {m n : Nat} {e : Int} (hm : 0 < m) (he : e ≤ target m e)
    (hn : n * 2 ^ (-(e + depth)).toNat = m * 2 ^ (e + depth).toNat) :
    ∃ v, Faithful n v ∧ Fits (roundWithAccuracy Format.binary64 .positive m e .exact) v := by
  obtain ⟨q, hq, hfits⟩ := fits_roundWithAccuracy hm he
  obtain ⟨-, hfull⟩ := cut_mantissa hm he
  have hlow : -depth ≤ target m e := Int.le_max_right ..
  refine ⟨_, ?_, hfits⟩
  generalize target m e = t at he hq hfull hlow ⊢
  -- Both in multiples of the least unit.
  have hunit : (t - e).toNat + (e + depth).toNat = (t + depth).toNat + (-(e + depth)).toNat := by
    omega
  have hround : RoundsTo n (2 ^ (t + depth).toNat) q := by
    rwa [← roundsTo_scale_iff (-(e + depth)).toNat, hn, ← hunit, roundsTo_scale_iff]
  refine hround.faithful ?_
  rcases hfull with hfull | hfull
  · left
    rwa [← Nat.mul_div_mul_right n _ (Nat.two_pow_pos (-(e + depth)).toNat), hn, ← Nat.pow_add,
      ← hunit, Nat.pow_add, Nat.mul_div_mul_right _ _ (Nat.two_pow_pos _)]
  · right
    omega

theorem target_scale {m : Nat} (hm : 0 < m) (e : Int) (d : Nat) :
    target (m * 2 ^ d) (e - d) = target m e := by
  have hlog : (m * 2 ^ d).log2 = m.log2 + d := by
    have hne := Nat.ne_of_gt hm
    refine (Nat.log2_eq_iff (Nat.ne_of_gt (Nat.mul_pos hm (Nat.two_pow_pos d)))).2 ⟨?_, ?_⟩
    · rw [Nat.pow_add]
      exact Nat.mul_le_mul_right _ (Nat.log2_self_le hne)
    · rw [Nat.add_right_comm, Nat.pow_add]
      exact Nat.mul_lt_mul_of_pos_right Nat.lt_log2_self (Nat.two_pow_pos d)
  rw [target, target, hlog]
  omega

/-- An amount that is a multiple of the least unit is rounded to a number next to it. -/
theorem exists_fits_round {m : Nat} {e : Int} (hm : 0 < m) (he : -depth ≤ e) :
    ∃ v, Faithful (m * 2 ^ (e + depth).toNat) v ∧
      Fits (UnpackedFloat.round Format.binary64 .positive m e) v := by
  obtain ⟨d, hd⟩ : ∃ d, d = (e - target m e).toNat := ⟨_, rfl⟩
  have htarget := target_scale hm e d
  have hround : UnpackedFloat.round Format.binary64 .positive m e =
      roundWithAccuracy Format.binary64 .positive (m * 2 ^ d) (e - d) .exact := by
    rw [UnpackedFloat.round, targetExponent_eq, decreaseExponent, ← hd, Nat.shiftLeft_eq]
  have hscaled : 0 < m * 2 ^ d := Nat.mul_pos hm (Nat.two_pow_pos d)
  have hle : e - d ≤ target (m * 2 ^ d) (e - d) := by omega
  have hlow : -depth ≤ target m e := Int.le_max_right ..
  have hexact : m * 2 ^ (e + depth).toNat * 2 ^ (-(e - d + depth)).toNat =
      m * 2 ^ d * 2 ^ (e - d + depth).toNat := by
    have hnone : (-(e - d + depth)).toNat = 0 := by omega
    have hsum : (e + depth).toNat = d + (e - d + depth).toNat := by omega
    rw [hnone, hsum, Nat.pow_add, Nat.pow_zero, Nat.mul_one, Nat.mul_assoc]
  obtain ⟨v, hfaithful, hfits⟩ := exists_fits_exact hscaled hle hexact
  exact ⟨v, hfaithful, hround ▸ hfits⟩

end GroupBench.Binary64
