import GroupBench.BigEndian
import GroupBench.Id

/-! Written forms of identifiers: sixteen bytes in network order, the hyphenated UUID text, and a
description that names the packed fields. -/
namespace GroupBench.GroupId

/-- Most significant byte first, so bytes compare as the identifiers do. -/
def toBytes (id : GroupId) : Vector UInt8 16 :=
  ⟨(BigEndian.ofNat 16 id.bits.toNat).toArray, by simp⟩

def ofBytes (bytes : Vector UInt8 16) : GroupId :=
  ⟨BitVec.ofNat 128 (BigEndian.toNat bytes.toList)⟩

@[simp]
theorem toList_toBytes (id : GroupId) : id.toBytes.toList = BigEndian.ofNat 16 id.bits.toNat := rfl

theorem ofBytes_toBytes (id : GroupId) : ofBytes id.toBytes = id := by
  have h : BigEndian.toNat (BigEndian.ofNat 16 id.bits.toNat) = id.bits.toNat :=
    BigEndian.toNat_ofNat id.bits.isLt
  ext1
  simp [ofBytes, h]

theorem toBytes_ofBytes (bytes : Vector UInt8 16) : (ofBytes bytes).toBytes = bytes := by
  have hlt := BigEndian.toNat_lt bytes.toList
  have h := BigEndian.ofNat_toNat bytes.toList
  rw [Vector.length_toList] at hlt h
  apply Vector.toList_inj.1
  rw [toList_toBytes, ofBytes, BitVec.toNat_ofNat, Nat.mod_eq_of_lt hlt, h]

/-- The sixteen digits of the lower-case hexadecimal notation. -/
def hexDigit (d : BitVec 4) : Char :=
  if d.toNat < 10 then Char.ofNat (48 + d.toNat) else Char.ofNat (87 + d.toNat)

/-- `count` digits of `id`, starting with digit `first` from the left. -/
def hexDigits (id : GroupId) (first count : Nat) : List Char :=
  (List.range' first count).map fun i => hexDigit (id.bits.extractLsb' (4 * (31 - i)) 4)

/-- Thirty-two digits in groups of 8, 4, 4, 4 and 12. -/
def toText (id : GroupId) : String :=
  "-".intercalate ([(0, 8), (8, 4), (12, 4), (16, 4), (20, 12)].map
    fun (first, count) => String.ofList (id.hexDigits first count))

instance : ToString GroupId := ⟨toText⟩

/-- The identifier with its fields, on one line. -/
def describe (id : GroupId) : String :=
  s!"GroupId \x7b id: {id.toText}, level: {id.level}, number: {id.number} \x7d"

/-- The identifier with its fields, one to a line. -/
def describeLines (id : GroupId) : String :=
  s!"GroupId \x7b\n    id: {id.toText},\n    level: {id.level},\n    number: {id.number},\n\x7d"

end GroupBench.GroupId
