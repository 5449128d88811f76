import GroupBench.Proofs.Binary64.Rounding

/-! Arithmetic on numbers that are not negative, in terms of what they are worth. -/
namespace GroupBench.Binary64
open Float.Model (UnpackedFloat Format)
open Float.Model.UnpackedFloat

/-- No number lies between an exact result and what it is rounded to. -/
def Rounded (n c : ℕ∞) : Prop := ∀ z r, Worth z r → (r ≤ n → r ≤ c) ∧ (n ≤ r → c ≤ r)

theorem rounded_self (n : ℕ∞) : Rounded n n := fun _ _ _ => ⟨id, id⟩

/-- What a number is worth is infinite, or it is exact and not too great. -/
theorem Counts.eq_top_or_exact {u : UnpackedFloat} {r : ℕ∞} (hu : Counts u r) :
    r = ⊤ ∨ ∃ k : Nat, r = k ∧ Exact k ∧ k < overflow := by
  cases hu with
  | zero s =>
    refine .inr ⟨0, rfl, ⟨0, -depth, ⟨by decide, le_rfl, .inr rfl⟩, ?_⟩, overflow_pos⟩
    exact (Nat.zero_mul _).symm
  | infinity => exact .inl rfl
  | finite hm h => exact .inr ⟨_, rfl, ⟨_, _, h.toCanonical, rfl⟩, h.lt_overflow⟩

theorem Faithful.rounded {n v : Nat} (h : Faithful n v) : Rounded n (stored v) := by
  intro z r hz
  obtain rfl | ⟨k, rfl, hexact, hlt⟩ := Counts.eq_top_or_exact hz
  · exact ⟨fun htop => absurd (top_le_iff.1 htop) (ENat.natCast_ne_top n), fun _ => le_top⟩
  · obtain ⟨hdown, hup⟩ := h k hexact
    refine ⟨fun hle => (Nat.cast_le.2 (hdown (Nat.cast_le.1 hle))).trans (le_stored v), ?_⟩
    intro hge
    have hv := hup (Nat.cast_le.1 hge)
    rw [stored, if_pos (Nat.lt_of_le_of_lt hv hlt)]
    exact Nat.cast_le.2 hv

theorem unpack_pack_infinity (s : Sign) :
    unpack Format.binary64 (pack Format.binary64 (.infinity s)) = .infinity s :=
  unpack_components s (-1#11) 0#52

theorem unpack_pack_zero (s : Sign) :
    unpack Format.binary64 (pack Format.binary64 (.zero s)) = .zero s :=
  unpack_components s 0#11 0#52

theorem Counts.unpack_pack {u : UnpackedFloat} {a : ℕ∞} (hu : Counts u a) :
    Counts (unpack Format.binary64 (pack Format.binary64 u)) a := by
  cases hu with
  | zero s => exact (unpack_pack_zero s).symm ▸ .zero s
  | infinity => exact (unpack_pack_infinity _).symm ▸ .infinity
  | finite hm h => exact (h.unpack_pack _ hm).symm ▸ .finite hm h

/-- Amounts with few enough digits that are not too great are what some number is worth. -/
theorem exists_worth_of_exact {n : Nat} (hexact : Exact n) (hlt : n < overflow) :
    ∃ z, Worth z n := by
  obtain ⟨m, e, h, rfl⟩ := hexact
  rcases Nat.eq_zero_or_pos m with rfl | hm
  · rw [Nat.zero_mul]
    exact ⟨Float.ofModel (Float.Model.pack (.zero .positive)), (Counts.zero .positive).unpack_pack⟩
  · have hcounts := (Fits.finite hm h).counts
    rw [stored, if_pos hlt] at hcounts
    exact ⟨Float.ofModel (Float.Model.pack (.finite .positive m e hm)), hcounts⟩

/-- What is within a number is rounded within it. -/
theorem Rounded.le {n c : ℕ∞} {b : Nat} (h : Rounded n c) (hexact : Exact b) (hb : b < overflow)
    (hle : n ≤ b) : c ≤ b := by
  obtain ⟨z, hz⟩ := exists_worth_of_exact hexact hb
  exact (h z b hz).2 hle

theorem normalize_eq {m : Nat} (hm : 0 < m) (e : Int) :
    UnpackedFloat.normalize Format.binary64 m e .positive =
      UnpackedFloat.round Format.binary64 .positive m e := by
  have hcompare : compare (m : Int) 0 = .gt := Int.compare_eq_gt.2 (Int.natCast_pos.2 hm)
  rw [UnpackedFloat.normalize, hcompare]
  rfl

/-- The sum of two stored numbers is a whole number of the lesser unit. -/
theorem add_finite {m m' : Nat} {e e' : Int} (hm : 0 < m) (hm' : 0 < m') :
    add Format.binary64 (.finite .positive m e hm) (.finite .positive m' e' hm') =
      UnpackedFloat.round Format.binary64 .positive
        (m * 2 ^ (e - min e e').toNat + m' * 2 ^ (e' - min e e').toNat) (min e e') := by
  rw [add]
  simp only [decreaseExponent, Sign.apply, Nat.shiftLeft_eq, ← Int.natCast_add]
  exact normalize_eq (Nat.add_pos_left (Nat.mul_pos hm (Nat.two_pow_pos _)) _) _

theorem exists_counts_add {m m' : Nat} {e e' : Int} (hm : 0 < m) (hm' : 0 < m')
    (h : Canonical m e) (h' : Canonical m' e') :
    ∃ c, Rounded (m * 2 ^ (e + depth).toNat + m' * 2 ^ (e' + depth).toNat : Nat) c ∧
      Counts (unpack Format.binary64 (pack Format.binary64 (add Format.binary64
        (.finite .positive m e hm) (.finite .positive m' e' hm')))) c := by
  have hlow := h.low
  have hlow' := h'.low
  have hsum : (m * 2 ^ (e - min e e').toNat + m' * 2 ^ (e' - min e e').toNat) *
      2 ^ (min e e' + depth).toNat = m * 2 ^ (e + depth).toNat + m' * 2 ^ (e' + depth).toNat := by
    have hleft : (e + depth).toNat = (e - min e e').toNat + (min e e' + depth).toNat := by omega
    have hright : (e' + depth).toNat = (e' - min e e').toNat + (min e e' + depth).toNat := by omega
    rw [hleft, hright]
    ring
  have hpos : 0 < m * 2 ^ (e - min e e').toNat + m' * 2 ^ (e' - min e e').toNat :=
    Nat.add_pos_left (Nat.mul_pos hm (Nat.two_pow_pos _)) _
  obtain ⟨c, hfaithful, hfits⟩ := exists_fits_round hpos (Int.le_min.2 ⟨hlow, hlow'⟩)
  rw [hsum] at hfaithful
  rw [add_finite hm hm']
  exact ⟨_, hfaithful.rounded, hfits.counts⟩

theorem Counts.exists_add {u v : UnpackedFloat} {a b : ℕ∞} (hu : Counts u a) (hv : Counts v b) :
    ∃ c, Rounded (a + b) c ∧
      Counts (unpack Format.binary64 (pack Format.binary64 (add Format.binary64 u v))) c := by
  cases hu with
  | zero s =>
    cases hv with
    | zero s' =>
      refine ⟨0, rounded_self 0, ?_⟩
      cases s <;> cases s' <;> exact (Counts.zero _).unpack_pack
    | infinity => exact ⟨⊤, rounded_self ⊤, Counts.infinity.unpack_pack⟩
    | finite hm h =>
      rw [zero_add]
      exact ⟨_, rounded_self _, (Counts.finite hm h).unpack_pack⟩
  | infinity =>
    rw [top_add]
    refine ⟨⊤, rounded_self ⊤, ?_⟩
    cases hv <;> exact Counts.infinity.unpack_pack
  | finite hm h =>
    cases hv with
    | zero s =>
      rw [add_zero]
      exact ⟨_, rounded_self _, (Counts.finite hm h).unpack_pack⟩
    | infinity =>
      rw [add_top]
      exact ⟨⊤, rounded_self ⊤, Counts.infinity.unpack_pack⟩
    | finite hm' h' =>
      rw [← Nat.cast_add]
      exact exists_counts_add hm hm' h.toCanonical h'.toCanonical

theorem le_target_mul {m m' : Nat} {e e' : Int} (hm : 0 < m) (hm' : 0 < m') (h : Canonical m e)
    (h' : Canonical m' e') : e + e' ≤ target (m * m') (e + e') := by
  have hne : m * m' ≠ 0 := Nat.ne_of_gt (Nat.mul_pos hm hm')
  rw [target]
  by_cases hlong : 2 ^ 52 ≤ m * m'
  · have hlog := (Nat.le_log2 hne).2 hlong
    omega
  · -- Neither of them takes all digits, so both have the least exponent.
    have he : e = -depth := h.full.resolve_left fun hfull =>
      hlong (hfull.trans (Nat.le_mul_of_pos_right m hm'))
    have he' : e' = -depth := h'.full.resolve_left fun hfull =>
      hlong (hfull.trans (Nat.le_mul_of_pos_left m' hm))
    omega

theorem exists_counts_mul {m m' k : Nat} {e e' : Int} (hm : 0 < m) (hm' : 0 < m')
    (h : Canonical m e) (h' : Canonical m' e') (hk : m * 2 ^ (e + depth).toNat = k * one) :
    ∃ c, Rounded (k * (m' * 2 ^ (e' + depth).toNat) : Nat) c ∧
      Counts (unpack Format.binary64 (pack Format.binary64 (mul Format.binary64
        (.finite .positive m e hm) (.finite .positive m' e' hm')))) c := by
  have hlow := h.low
  have hlow' := h'.low
  have hexact : k * (m' * 2 ^ (e' + depth).toNat) * 2 ^ (-(e + e' + depth)).toNat =
      m * m' * 2 ^ (e + e' + depth).toNat := by
    have hsum : (e + depth).toNat + (e' + depth).toNat + (-(e + e' + depth)).toNat =
        (e + e' + depth).toNat + depth := by omega
    refine Nat.mul_right_cancel (Nat.two_pow_pos depth) ?_
    rw [one_eq] at hk
    calc k * (m' * 2 ^ (e' + depth).toNat) * 2 ^ (-(e + e' + depth)).toNat * 2 ^ depth
        = k * 2 ^ depth * m' * 2 ^ (e' + depth).toNat * 2 ^ (-(e + e' + depth)).toNat := by ring
      _ = m * m' * 2 ^ ((e + depth).toNat + (e' + depth).toNat + (-(e + e' + depth)).toNat) := by
        rw [← hk, Nat.pow_add, Nat.pow_add]
        ring
      _ = m * m' * 2 ^ (e + e' + depth).toNat * 2 ^ depth := by
        rw [hsum, Nat.pow_add, ← Nat.mul_assoc]
  obtain ⟨v, hfaithful, hfits⟩ :=
    exists_fits_exact (Nat.mul_pos hm hm') (le_target_mul hm hm' h h') hexact
  exact ⟨_, hfaithful.rounded, hfits.counts⟩

/-- A whole number of times an amount. -/
theorem Counts.exists_mul {u v : UnpackedFloat} {k n : Nat} (hu : Counts u (k * one : Nat))
    (hv : Counts v n) : ∃ c, Rounded (k * n : Nat) c ∧
      Counts (unpack Format.binary64 (pack Format.binary64 (mul Format.binary64 u v))) c := by
  generalize ha : ((k * one : Nat) : ℕ∞) = a at hu
  generalize hb : (n : ℕ∞) = b at hv
  cases hu with
  | infinity => exact absurd ha (ENat.natCast_ne_top _)
  | zero s =>
    obtain rfl : k = 0 := by
      have hzero := Nat.cast_eq_zero.1 ha
      exact (Nat.mul_eq_zero.1 hzero).resolve_right (Nat.ne_of_gt one_positive)
    rw [Nat.zero_mul, Nat.cast_zero]
    cases hv with
    | infinity => exact absurd hb (ENat.natCast_ne_top _)
    | zero | finite => exact ⟨0, rounded_self 0, (Counts.zero _).unpack_pack⟩
  | finite hm h =>
    cases hv with
    | infinity => exact absurd hb (ENat.natCast_ne_top _)
    | zero =>
      rw [Nat.cast_eq_zero.1 hb, Nat.mul_zero, Nat.cast_zero]
      exact ⟨0, rounded_self 0, (Counts.zero _).unpack_pack⟩
    | finite hm' h' =>
      obtain rfl := Nat.cast_injective hb
      exact exists_counts_mul hm hm' h.toCanonical h'.toCanonical (Nat.cast_injective ha).symm

/-- Whole numbers with few enough digits are themselves. -/
theorem counts_ofNat {n : Nat} (hexact : Exact (n * one)) (hlt : n * one < overflow) :
    Counts (unpack Format.binary64 (pack Format.binary64 (ofNat Format.binary64 n)))
      (n * one : Nat) := by
  rcases Nat.eq_zero_or_pos n with rfl | hpos
  · rw [Nat.zero_mul]
    exact (Counts.zero .positive).unpack_pack
  · obtain ⟨v, hfaithful, hfits⟩ := exists_fits_round hpos (show -(depth : Int) ≤ 0 by omega)
    have hdepth : ((0 : Int) + depth).toNat = depth := by omega
    rw [hdepth, ← one_eq] at hfaithful
    obtain rfl := hfaithful.eq_of_exact hexact
    have hcounts := hfits.counts
    rw [stored, if_pos hlt] at hcounts
    rw [ofNat, ofInt, normalize_eq hpos]
    exact hcounts

theorem exists_worth_add {x y : Float} {a b : ℕ∞} (hx : Worth x a) (hy : Worth y b) :
    ∃ c, Rounded (a + b) c ∧ Worth (x + y) c :=
  Counts.exists_add hx hy

theorem exists_worth_mul {x y : Float} {k n : Nat} (hx : Worth x (k * one : Nat))
    (hy : Worth y n) : ∃ c, Rounded (k * n : Nat) c ∧ Worth (x * y) c :=
  Counts.exists_mul hx hy

theorem Counts.eq_infinity {u : UnpackedFloat} (hu : Counts u ⊤) : u = .infinity .positive := by
  generalize ha : (⊤ : ℕ∞) = a at hu
  cases hu with
  | zero => exact absurd ha (by simp)
  | infinity => rfl
  | finite => exact absurd ha.symm (ENat.natCast_ne_top _)

theorem worth_mul_top {x y : Float} {n : Nat} (hn : 0 < n) (hx : Worth x n) (hy : Worth y ⊤) :
    Worth (x * y) ⊤ := by
  have hmul {u : UnpackedFloat} {a : ℕ∞} (ha : 0 < a) (hu : Counts u a) :
      mul Format.binary64 u (.infinity .positive) = .infinity .positive := by
    cases hu with
    | zero => exact absurd ha (lt_irrefl 0)
    | infinity | finite => rfl
  change Counts (unpack _ (pack _ (mul _ x.toModel.unpack y.toModel.unpack))) ⊤
  rw [Counts.eq_infinity hy, hmul (Nat.cast_pos'.2 hn) hx]
  exact Counts.infinity.unpack_pack

theorem lt_overflow_of_le {n : Nat} (hn : n ≤ 2 ^ 64) : n * one < overflow := by
  calc n * one ≤ 2 ^ 64 * one := Nat.mul_le_mul_right one hn
    _ = 2 ^ (64 + depth) := by rw [Nat.pow_add, one_eq]
    _ < 2 ^ (1024 + depth) := Nat.pow_lt_pow_right Nat.one_lt_two (by omega)
    _ = overflow := by rw [overflow]

theorem worth_toFloat (n : UInt32) : Worth n.toFloat (n.toNat * one : Nat) := by
  have hn := n.toNat_lt
  have hexact : Exact (n.toNat * one) := one_eq ▸ exact_of_lt (by omega) depth
  exact counts_ofNat hexact (lt_overflow_of_le (by omega))

theorem worth_toFloat_of_le {n : UInt64} (hn : n.toNat ≤ 2 ^ 53) :
    Worth n.toFloat (n.toNat * one : Nat) := by
  refine counts_ofNat ?_ (lt_overflow_of_le n.toNat_lt.le)
  rcases Nat.lt_or_eq_of_le hn with hlt | heq
  · exact one_eq ▸ exact_of_lt hlt depth
  · rw [heq, one_eq, ← Nat.pow_add, ← Nat.one_mul (2 ^ _)]
    exact exact_of_lt (by decide) _

theorem worth_zero : Worth 0.0 0 := by
  have hzero : (0.0 : Float) = (0 : UInt32).toFloat := by decide +kernel
  have hworth := worth_toFloat 0
  rw [UInt32.toNat_zero, Nat.zero_mul] at hworth
  rwa [hzero]

theorem worth_one : Worth 1.0 one := by
  have hone : (1.0 : Float) = (1 : UInt32).toFloat := by decide +kernel
  have hworth := worth_toFloat 1
  rw [UInt32.toNat_one, Nat.one_mul] at hworth
  rwa [hone]

theorem Counts.eq_zero {u : UnpackedFloat} (hu : Counts u 0) : ∃ s, u = .zero s := by
  generalize ha : (0 : ℕ∞) = a at hu
  cases hu with
  | zero s => exact ⟨s, rfl⟩
  | infinity => exact absurd ha (by simp)
  | finite hm => exact absurd ha (finite_pos hm _).ne

section Sign
variable {x : Float}

/-- A number that is not below zero has a worth. -/
theorem exists_worth (hx : 0.0 ≤ x) : ∃ a, Worth x a := by
  have hle : (UnpackedFloat.le (0.0 : Float).toModel.unpack x.toModel.unpack) = true :=
    of_decide_eq_true hx
  obtain ⟨s, hzero⟩ := Counts.eq_zero worth_zero
  rw [hzero] at hle
  simp only [Worth]
  cases hu : x.toModel.unpack with
  | notANumber =>
    rw [hu] at hle
    cases hle
  | infinity s' =>
    cases s' with
    | negative =>
      rw [hu] at hle
      cases hle
    | positive => exact ⟨⊤, .infinity⟩
  | zero s' => exact ⟨0, .zero s'⟩
  | finite s' m e hm =>
    cases s' with
    | negative =>
      rw [hu] at hle
      cases hle
    | positive => exact ⟨_, .finite hm (stored_unpack hu)⟩

theorem pos_of_isFinite (hfinite : x.isFinite) (hx : ¬ x ≤ 0.0) : 0.0 < x := by
  obtain ⟨s, hzero⟩ := Counts.eq_zero worth_zero
  have hlt : 0.0 < x ↔ UnpackedFloat.lt (.zero s) x.toModel.unpack = true := by
    rw [← hzero]
    exact decide_eq_true_iff
  have hle : x ≤ 0.0 ↔ UnpackedFloat.le x.toModel.unpack (.zero s) = true := by
    rw [← hzero]
    exact decide_eq_true_iff
  change x.toModel.unpack.isFinite = true at hfinite
  rw [hle] at hx
  rw [hlt]
  cases hu : x.toModel.unpack with
  | notANumber | infinity s' =>
    rw [hu] at hfinite
    cases hfinite
  | zero s' => exact absurd (by rw [hu]; rfl) hx
  | finite s' m e hm =>
    cases s' with
    | negative => exact absurd (by rw [hu]; rfl) hx
    | positive => rfl

end Sign

theorem Counts.isFinite {u : UnpackedFloat} {n : Nat} (hu : Counts u n) : u.isFinite := by
  generalize ha : (n : ℕ∞) = a at hu
  cases hu with
  | infinity => exact absurd ha (ENat.natCast_ne_top n)
  | zero | finite => rfl

/-- What is worth a natural number is neither infinite nor not a number. -/
theorem isFinite_of_worth {x : Float} {n : Nat} (hx : Worth x n) : x.isFinite := Counts.isFinite hx

section Words
variable {x : Float} {n : Nat}

theorem toNat_toUInt32 (hx : Worth x n) : x.toUInt32.toNat = min (n / one) (UInt32.size - 1) := by
  change (UInt32.ofNatClamp (x.toModel.unpack.toInt _ _).toNat).toNat = _
  rw [Counts.toNat_toInt hx, UInt32.ofNatClamp]
  split
  · rename_i hlt
    rw [Nat.min_eq_left (Nat.le_sub_one_of_lt hlt)]
    rfl
  · rename_i hge
    rw [Nat.min_eq_right (by omega)]
    rfl

theorem toNat_toUInt64 (hx : Worth x n) : x.toUInt64.toNat = min (n / one) (UInt64.size - 1) := by
  change (UInt64.ofNatClamp (x.toModel.unpack.toInt _ _).toNat).toNat = _
  rw [Counts.toNat_toInt hx, UInt64.ofNatClamp]
  split
  · rename_i hlt
    rw [Nat.min_eq_left (Nat.le_sub_one_of_lt hlt)]
    rfl
  · rename_i hge
    rw [Nat.min_eq_right (by omega)]
    rfl

end Words

end GroupBench.Binary64
