/-! Identifiers of users and groups. A level and a one-based number are packed into 128 bits that
also read as a random-form UUID, so a store that expects one accepts them as they are. -/
namespace GroupBench

/-- A 128-bit identifier. Any bits make one; `GroupId.isValid` tells which of them `GroupId.encode`
writes. -/
@[ext]
structure GroupId where
  bits : BitVec 128
  deriving DecidableEq, Inhabited

namespace GroupId

/-- The level at which users live. Groups start at level 1, so no user is ever taken for a group. -/
def userLevel : UInt16 := 0

/-- The form nibble that every written identifier carries. -/
def versionStamp : BitVec 4 := 4#4

/-- The layout bits that every written identifier carries. -/
def variantStamp : BitVec 2 := 2#2

/-- From the most significant end: number, level, version, twelve zeros, variant, sixty-two
zeros. -/
def encode (level : UInt16) (number : UInt32) : GroupId :=
  ⟨number.toBitVec ++ level.toBitVec ++ versionStamp ++ 0#12 ++ variantStamp ++ 0#62⟩

/-- Position `index` counts from zero while numbers count from one. -/
def ofPosition (level : UInt16) (index : UInt32) : GroupId :=
  encode level (index + 1)

variable (id : GroupId)

def number : UInt32 := ⟨id.bits.extractLsb' 96 32⟩

def level : UInt16 := ⟨id.bits.extractLsb' 80 16⟩

def version : BitVec 4 := id.bits.extractLsb' 76 4

def variant : BitVec 2 := id.bits.extractLsb' 62 2

def decode : UInt16 × UInt32 := (id.level, id.number)

/-- Both stamps are in place and every bit outside the four fields is clear. -/
def isValid : Bool :=
  id.version == versionStamp && id.variant == variantStamp &&
    id.bits.extractLsb' 64 12 == 0#12 && id.bits.extractLsb' 0 62 == 0#62

section Fields
open BitVec
variable (l : UInt16) (n : UInt32)

@[simp]
theorem number_encode : (encode l n).number = n := by
  apply UInt32.toBitVec_inj.1
  rw [number, encode]
  iterate 5 rw [extractLsb'_append_eq_of_le (by decide)]
  exact extractLsb'_eq_self

@[simp]
theorem level_encode : (encode l n).level = l := by
  apply UInt16.toBitVec_inj.1
  rw [level, encode]
  iterate 4 rw [extractLsb'_append_eq_of_le (by decide)]
  rw [extractLsb'_append_eq_of_add_le (by decide)]
  exact extractLsb'_eq_self

@[simp]
theorem version_encode : (encode l n).version = versionStamp := by
  rw [version, encode]
  iterate 3 rw [extractLsb'_append_eq_of_le (by decide)]
  rw [extractLsb'_append_eq_of_add_le (by decide)]
  exact extractLsb'_eq_self

@[simp]
theorem variant_encode : (encode l n).variant = variantStamp := by
  rw [variant, encode, extractLsb'_append_eq_of_le (by decide),
    extractLsb'_append_eq_of_add_le (by decide)]
  exact extractLsb'_eq_self

@[simp]
theorem isValid_encode : (encode l n).isValid := by
  have hmiddle : (encode l n).bits.extractLsb' 64 12 = 0#12 := by
    rw [encode]
    iterate 2 rw [extractLsb'_append_eq_of_le (by decide)]
    rw [extractLsb'_append_eq_of_add_le (by decide)]
    exact extractLsb'_eq_self
  have hlow : (encode l n).bits.extractLsb' 0 62 = 0#62 := by
    rw [encode, extractLsb'_append_eq_of_add_le (by decide)]
    exact extractLsb'_eq_self
  simp [isValid, hmiddle, hlow]

/-- The fields of a valid identifier leave none of its bits open. -/
theorem encode_level_number {id : GroupId} (h : id.isValid) : encode id.level id.number = id := by
  simp only [isValid, version, variant, Bool.and_eq_true, beq_iff_eq] at h
  obtain ⟨⟨⟨hversion, hvariant⟩, hmiddle⟩, hlow⟩ := h
  rw [encode, ← hversion, ← hvariant, ← hmiddle, ← hlow]
  ext1
  change (((((id.bits.extractLsb' 96 32 ++ id.bits.extractLsb' 80 16) ++ _) ++ _) ++ _) ++ _) = _
  rw [extractLsb'_append_extractLsb'_eq_extractLsb' (show 96 = 80 + 16 from rfl),
    extractLsb'_append_extractLsb'_eq_extractLsb' (show 80 = 76 + 4 from rfl),
    extractLsb'_append_extractLsb'_eq_extractLsb' (show 76 = 64 + 12 from rfl),
    extractLsb'_append_extractLsb'_eq_extractLsb' (show 64 = 62 + 2 from rfl),
    extractLsb'_append_extractLsb'_eq_extractLsb' (show 62 = 0 + 62 from rfl)]
  exact extractLsb'_eq_self

end Fields

/-- Identifiers are ordered as unsigned numbers. -/
instance : Ord GroupId := ⟨fun a b => compare a.bits.toNat b.bits.toNat⟩

instance : LT GroupId := ⟨fun a b => a.bits < b.bits⟩

instance : LE GroupId := ⟨fun a b => a.bits ≤ b.bits⟩

instance (a b : GroupId) : Decidable (a < b) := inferInstanceAs (Decidable (a.bits < b.bits))

instance (a b : GroupId) : Decidable (a ≤ b) := inferInstanceAs (Decidable (a.bits ≤ b.bits))

theorem compare_eq (a b : GroupId) : compare a b = compare a.bits.toNat b.bits.toNat := rfl

instance : Std.TransCmp (compare : GroupId → GroupId → Ordering) where
  eq_swap := by
    intro a b
    exact @Std.OrientedCmp.eq_swap Nat compare _ a.bits.toNat b.bits.toNat
  isLE_trans := by
    intro a b c
    rw [compare_eq, compare_eq, compare_eq]
    exact Std.TransCmp.isLE_trans

instance : Std.LawfulEqCmp (compare : GroupId → GroupId → Ordering) where
  compare_self := by
    intro a
    rw [compare_eq]
    exact Std.ReflCmp.compare_self
  eq_of_compare := by
    intro a b h
    rw [compare_eq] at h
    exact GroupId.ext (BitVec.eq_of_toNat_eq (Std.LawfulEqCmp.eq_of_compare h))

end GroupId

end GroupBench
