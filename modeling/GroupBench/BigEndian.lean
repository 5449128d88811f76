/-! Whole numbers as bytes, the most significant byte first. -/
namespace GroupBench.BigEndian

/-- The lowest `count` bytes of a number. -/
def ofNat : Nat → Nat → List UInt8
  | 0, _ => []
  | count + 1, n => ofNat count (n / 256) ++ [UInt8.ofNat n]

def toNat (bytes : List UInt8) : Nat := bytes.foldl (fun n b => 256 * n + b.toNat) 0

@[simp]
theorem length_ofNat (count n : Nat) : (ofNat count n).length = count := by
  induction count generalizing n with
  | zero => rfl
  | succ count ih => simp [ofNat, ih]

theorem toNat_append_byte (bytes : List UInt8) (b : UInt8) :
    toNat (bytes ++ [b]) = 256 * toNat bytes + b.toNat := by
  simp [toNat]

/-- Bytes are all that is needed to read a number back, if it has room in them. -/
theorem toNat_ofNat {count n : Nat} (h : n < Nat.pow 256 count) : toNat (ofNat count n) = n := by
  induction count generalizing n with
  | zero =>
    change n < 1 at h
    simp [ofNat, toNat]
    omega
  | succ count ih =>
    have hn : n / 256 < Nat.pow 256 count := Nat.div_lt_of_lt_mul (Nat.mul_comm _ _ ▸ h)
    simp [ofNat, toNat_append_byte, ih hn]
    omega

theorem toNat_lt (bytes : List UInt8) : toNat bytes < Nat.pow 256 bytes.length := by
  generalize hc : bytes.length = count
  induction count generalizing bytes with
  | zero => simp_all [toNat]
  | succ count ih =>
    obtain rfl | ⟨front, b, rfl⟩ := List.eq_nil_or_concat bytes
    · simp at hc
    · have hb := b.toNat_lt
      simp at hc
      have hf := ih front hc
      rw [List.concat_eq_append, toNat_append_byte]
      change _ < Nat.pow 256 count * 256
      omega

theorem ofNat_toNat (bytes : List UInt8) : ofNat bytes.length (toNat bytes) = bytes := by
  generalize hc : bytes.length = count
  induction count generalizing bytes with
  | zero => simp_all [ofNat]
  | succ count ih =>
    obtain rfl | ⟨front, b, rfl⟩ := List.eq_nil_or_concat bytes
    · simp at hc
    · have hb := b.toNat_lt
      have hq : (256 * toNat front + b.toNat) / 256 = toNat front := by omega
      have hr : UInt8.ofNat (256 * toNat front + b.toNat) = b := by
        apply UInt8.toNat.inj
        simp
      simp at hc
      rw [List.concat_eq_append, toNat_append_byte, ofNat, hq, hr, ih front hc]

end GroupBench.BigEndian
