import Mathlib.Algebra.Group.Nat.Hom
import GroupBench.Id.Text

/-! Identifiers as numbers and as bytes. Levels and numbers are in one-to-one correspondence with the
valid identifiers, and the order of identifiers, of their fields and of their bytes is the same. -/
namespace GroupBench

/-- Two-place numbers are compared by the first place, and by the second where the first is equal. -/
theorem place_lt_iff {base x y u v : Nat} (hu : u < base) (hv : v < base) :
    base * x + u < base * y + v ↔ x < y ∨ x = y ∧ u < v := by
  rcases Nat.lt_trichotomy x y with hlt | rfl | hgt
  · have hstep : base * (x + 1) ≤ base * y := Nat.mul_le_mul_left base hlt
    rw [Nat.mul_succ] at hstep
    omega
  · omega
  · have hstep : base * (y + 1) ≤ base * x := Nat.mul_le_mul_left base hgt
    rw [Nat.mul_succ] at hstep
    omega

namespace BigEndian

theorem toNat_append (front back : List UInt8) :
    toNat (front ++ back) = 256 ^ back.length * toNat front + toNat back := by
  generalize hlength : back.length = count
  induction count generalizing back with
  | zero => simp_all [toNat]
  | succ count ih =>
    obtain rfl | ⟨rest, b, rfl⟩ := List.eq_nil_or_concat back
    · cases hlength
    · rw [List.concat_eq_append, List.length_append] at hlength
      rw [List.concat_eq_append, ← List.append_assoc, toNat_append_byte, toNat_append_byte,
        ih rest (Nat.succ.inj hlength), Nat.mul_add, ← Nat.mul_assoc, Nat.pow_succ',
        Nat.add_assoc]

/-- Byte strings of one length compare as the numbers that they write. -/
theorem toNat_lt_toNat_iff {a b : List UInt8} (hlength : a.length = b.length) :
    toNat a < toNat b ↔ a < b := by
  induction a generalizing b with
  | nil =>
    obtain rfl := List.length_eq_zero_iff.1 hlength.symm
    simp
  | cons x xs ih =>
    cases b with
    | nil => cases hlength
    | cons y ys =>
      have hrest : xs.length = ys.length := Nat.succ.inj hlength
      have hx : toNat (x :: xs) = 256 ^ ys.length * x.toNat + toNat xs := by
        rw [← hrest]
        simpa [toNat] using toNat_append [x] xs
      have hy : toNat (y :: ys) = 256 ^ ys.length * y.toNat + toNat ys := by
        simpa [toNat] using toNat_append [y] ys
      have hxs : toNat xs < 256 ^ ys.length := hrest ▸ toNat_lt xs
      have hys : toNat ys < 256 ^ ys.length := toNat_lt ys
      rw [hx, hy, place_lt_iff hxs hys, ih hrest, List.cons_lt_cons_iff, UInt8.toNat_inj,
        ← UInt8.lt_iff_toNat_lt]

theorem ofNat_add (front back n : Nat) :
    ofNat (front + back) n = ofNat front (n / 256 ^ back) ++ ofNat back n := by
  induction back generalizing n with
  | zero => simp [ofNat]
  | succ back ih =>
    rw [← Nat.add_assoc, ofNat, ih, ofNat, Nat.div_div_eq_div_mul, ← Nat.pow_succ',
      List.append_assoc]

/-- Higher places of a number leave its lowest bytes alone. -/
theorem ofNat_mod (count n : Nat) : ofNat count (n % 256 ^ count) = ofNat count n := by
  induction count generalizing n with
  | zero => rfl
  | succ count ih =>
    have hfront : n % 256 ^ (count + 1) / 256 = n / 256 % 256 ^ count := by
      rw [Nat.pow_succ', Nat.mod_mul_right_div_self]
    have hlast : UInt8.ofNat (n % 256 ^ (count + 1)) = UInt8.ofNat n := by
      apply UInt8.toNat.inj
      rw [UInt8.toNat_ofNat', UInt8.toNat_ofNat', Nat.pow_succ']
      exact Nat.mod_mul_right_mod n 256 (256 ^ count)
    rw [ofNat, ofNat, hfront, hlast, ih]

end BigEndian

theorem append_lt_append_iff {w v : Nat} {x y : BitVec w} {a b : BitVec v} :
    x ++ a < y ++ b ↔ x < y ∨ x = y ∧ a < b := by
  have hplaces (x : BitVec w) (a : BitVec v) : (x ++ a).toNat = 2 ^ v * x.toNat + a.toNat := by
    rw [BitVec.toNat_append, ← Nat.shiftLeft_add_eq_or_of_lt a.isLt, Nat.shiftLeft_eq, Nat.mul_comm]
  rw [BitVec.lt_def, hplaces, hplaces, place_lt_iff a.isLt b.isLt, BitVec.toNat_inj,
    ← BitVec.lt_def, ← BitVec.lt_def]

namespace GroupId

/-- Numbers decide first, for they are in the highest bits. -/
theorem encode_lt_encode_iff {level level' : UInt16} {number number' : UInt32} :
    encode level number < encode level' number' ↔
      number < number' ∨ number = number' ∧ level < level' := by
  change number.toBitVec ++ level.toBitVec ++ versionStamp ++ 0#12 ++ variantStamp ++ 0#62 <
    number'.toBitVec ++ level'.toBitVec ++ versionStamp ++ 0#12 ++ variantStamp ++ 0#62 ↔ _
  simp only [append_lt_append_iff, BitVec.lt_irrefl, and_false, or_false, UInt32.toBitVec_inj]
  exact Iff.rfl

theorem isValid_iff {id : GroupId} : id.isValid ↔ ∃ level number, id = encode level number := by
  constructor
  · intro h
    exact ⟨id.level, id.number, (encode_level_number h).symm⟩
  · rintro ⟨level, number, rfl⟩
    exact isValid_encode level number

theorem isValid_iff_encode_decode {id : GroupId} :
    id.isValid ↔ encode id.decode.1 id.decode.2 = id :=
  ⟨encode_level_number, fun h => h ▸ isValid_encode ..⟩

variable (id : GroupId)

/-- The numbers that bytes write are the identifiers. -/
theorem toNat_toBytes : BigEndian.toNat id.toBytes.toList = id.bits.toNat :=
  BigEndian.toNat_ofNat id.bits.isLt

theorem toBytes_lt_toBytes_iff {a b : GroupId} : a.toBytes.toList < b.toBytes.toList ↔ a < b := by
  rw [← BigEndian.toNat_lt_toNat_iff (by simp), toNat_toBytes, toNat_toBytes]
  exact BitVec.lt_def.symm

theorem ofBytes_lt_ofBytes_iff {a b : Vector UInt8 16} :
    ofBytes a < ofBytes b ↔ a.toList < b.toList := by
  rw [← toBytes_lt_toBytes_iff, toBytes_ofBytes, toBytes_ofBytes]

theorem take_toBytes : id.toBytes.toList.take 4 = BigEndian.ofNat 4 id.number.toNat := by
  have hnumber : id.number.toNat = id.bits.toNat / 256 ^ 12 % 256 ^ 4 := by
    change (id.bits.extractLsb' 96 32).toNat = _
    rw [BitVec.extractLsb'_toNat, Nat.shiftRight_eq_div_pow]
    rfl
  rw [toList_toBytes, BigEndian.ofNat_add 4 12, List.take_left' (BigEndian.length_ofNat ..),
    hnumber, BigEndian.ofNat_mod]

theorem take_drop_toBytes :
    (id.toBytes.toList.drop 4).take 2 = BigEndian.ofNat 2 id.level.toNat := by
  have hlevel : id.level.toNat = id.bits.toNat / 256 ^ 10 % 256 ^ 2 := by
    change (id.bits.extractLsb' 80 16).toNat = _
    rw [BitVec.extractLsb'_toNat, Nat.shiftRight_eq_div_pow]
    rfl
  rw [toList_toBytes, BigEndian.ofNat_add 4 12, List.drop_left' (BigEndian.length_ofNat ..),
    BigEndian.ofNat_add 2 10, List.take_left' (BigEndian.length_ofNat ..), hlevel,
    BigEndian.ofNat_mod]

/-- The codec loses nothing and keeps the order: the identifiers it writes are the valid ones and no
others, each is read back as the level and number it was written for, and numbers before levels
decide which of two is the lesser. Bytes are the identifiers themselves, number first. -/
theorem codec_exact :
    (∀ level number, (encode level number).decode = (level, number) ∧
      (encode level number).version = 4#4 ∧ (encode level number).variant = 2#2) ∧
    (∀ id : GroupId, (id.isValid ↔ ∃ level number, id = encode level number) ∧
      (id.isValid ↔ encode id.decode.1 id.decode.2 = id)) ∧
    (∀ level number level' number', encode level number < encode level' number' ↔
      number < number' ∨ number = number' ∧ level < level') ∧
    (∀ id, ofBytes id.toBytes = id) ∧ (∀ bytes, (ofBytes bytes).toBytes = bytes) ∧
    (∀ a b : GroupId, a.toBytes.toList < b.toBytes.toList ↔ a < b) ∧
    (∀ a b, ofBytes a < ofBytes b ↔ a.toList < b.toList) ∧
    ∀ id : GroupId, id.toBytes.toList.take 4 = BigEndian.ofNat 4 id.number.toNat ∧
      (id.toBytes.toList.drop 4).take 2 = BigEndian.ofNat 2 id.level.toNat := by
  refine ⟨fun level number => ⟨?_, version_encode .., variant_encode ..⟩,
    fun _ => ⟨isValid_iff, isValid_iff_encode_decode⟩, fun _ _ _ _ => encode_lt_encode_iff,
    ofBytes_toBytes, toBytes_ofBytes, fun _ _ => toBytes_lt_toBytes_iff,
    fun _ _ => ofBytes_lt_ofBytes_iff, fun id => ⟨id.take_toBytes, id.take_drop_toBytes⟩⟩
  rw [decode, level_encode, number_encode]

/-- The fields as they stand in the bytes, with the two stamps behind them. -/
example : (encode 0x0102 0x0A0B0C0D).toBytes.toList =
    [0x0A, 0x0B, 0x0C, 0x0D, 0x01, 0x02, 0x40, 0, 0x80, 0, 0, 0, 0, 0, 0, 0] := by
  decide +kernel

end GroupId

end GroupBench
