import Mathlib.Data.Set.Image
import Mathlib.Data.Stream.Defs
import GroupBench.Proofs.Hierarchy.Draws

/-! Draws reach everything within their bounds: some words lead to every index below the bound, so
every member that a level may have is one that is drawn for it. -/
namespace GroupBench

namespace WordSource

/-- A source that never runs out, of any words. -/
def endless : WordSource (Stream' UInt32) where
  next words := (words.head, words.tail)

/-- A word followed by zeros: nothing is carried into the upper half of the product. -/
theorem toNat_below_cons_zeros (n word : UInt32) :
    (endless.below n (.cons word (.const 0))).1.toNat = word.toNat * n.toNat / 2 ^ 32 := by
  have hhigh := toNat_upperHalf (word.toUInt64 * n.toUInt64)
  have hlow := UInt64.toNat_toUInt32 (word.toUInt64 * n.toUInt64)
  rw [toNat_product] at hhigh hlow
  have hnext : endless.next (.cons word (.const 0)) = (word, .const 0) := rfl
  have hzero : endless.next (.const 0) = (0, .const 0) := rfl
  have hcarry : ((0 : UInt32).toUInt64 * n.toUInt64) >>> 32 = 0 := by simp
  simp only [below, hnext, hzero, hcarry]
  split
  · dsimp only
    rw [if_neg, hhigh]
    rw [hlow, UInt64.toNat_zero, Nat.add_zero]
    exact Nat.not_le.2 (Nat.mod_lt _ (by decide))
  · exact hhigh

/-- The least word whose product reaches the index does not pass it. -/
theorem exists_below_eq {n index : UInt32} (hindex : index < n) :
    ∃ words, (endless.below n words).1 = index := by
  have hn := n.toNat_lt
  rw [UInt32.lt_iff_toNat_lt] at hindex
  have hpos : 0 < n.toNat := Nat.zero_lt_of_lt hindex
  obtain ⟨word, hword⟩ : ∃ word, word = (index.toNat * 2 ^ 32 + (n.toNat - 1)) / n.toNat := ⟨_, rfl⟩
  have hproduct := Nat.div_add_mod (index.toNat * 2 ^ 32 + (n.toNat - 1)) n.toNat
  have hrest := Nat.mod_lt (index.toNat * 2 ^ 32 + (n.toNat - 1)) hpos
  rw [← hword, Nat.mul_comm] at hproduct
  have hfits : word < 2 ^ 32 := by
    refine Nat.lt_of_mul_lt_mul_right (a := n.toNat) ?_
    omega
  refine ⟨.cons (UInt32.ofNat word) (.const 0), UInt32.toNat_inj.1 ?_⟩
  rw [toNat_below_cons_zeros, UInt32.toNat_ofNat_of_lt' hfits]
  exact Nat.div_eq_of_lt_le (by omega) (by omega)

end WordSource

namespace Hierarchy

/-- Members of a kind, numbered from one at their level. There is always one. -/
def numbered (level : UInt16) (count : UInt32) (kind : MemberKind) : Set (GroupId × MemberKind) :=
  {pick | ∃ number, 1 ≤ number ∧ number ≤ max count 1 ∧ pick = (.encode level number, kind)}

/-- Members that a group may have for a slot of either kind. -/
def drawable (h : Hierarchy) (level : UInt16) (subgroup : Bool) : Set (GroupId × MemberKind) :=
  if subgroup ∧ 1 < level then numbered (level - 1) (h.groupCount (level - 1)) .subgroup
  else numbered GroupId.userLevel h.userPoolSize .user

theorem one_le_max (count : UInt32) : 1 ≤ max count 1 := by
  change 1 ≤ if count ≤ 1 then 1 else count
  split
  · exact UInt32.le_refl 1
  · rename_i hgreater
    exact UInt32.le_of_lt (UInt32.not_le.1 hgreater)

section Draw
variable {ρ : Type} (source : WordSource ρ) (s : ρ) (level : UInt16) (count : UInt32)
  (kind : MemberKind)

theorem mem_numbered_below :
    (GroupId.ofPosition level (source.below (max count 1) s).1, kind) ∈ numbered level count kind := by
  obtain ⟨hpos, hle⟩ := number_ofPosition (source.below_lt (one_le_max count) s)
  exact ⟨_, hpos, hle, rfl⟩

/-- The count of a pool is a word itself, so the number of every position in it is one too. -/
theorem toNat_number_below :
    (GroupId.ofPosition level (source.below (max count 1) s).1).number.toNat =
      (source.below (max count 1) s).1.toNat + 1 := by
  have hlt := UInt32.lt_iff_toNat_lt.1 (source.below_lt (one_le_max count) s)
  rw [GroupId.ofPosition, GroupId.number_encode, UInt32.toNat_add, UInt32.toNat_one]
  exact Nat.mod_eq_of_lt (Nat.lt_of_le_of_lt hlt (UInt32.toNat_lt _))

theorem range_numbered :
    (Set.range fun words =>
      (GroupId.ofPosition level (WordSource.endless.below (max count 1) words).1, kind)) =
      numbered level count kind := by
  ext pick
  constructor
  · rintro ⟨words, rfl⟩
    exact mem_numbered_below _ words level count kind
  · rintro ⟨number, hpos, hle, rfl⟩
    obtain ⟨index, hindex, rfl⟩ := exists_index hpos hle
    obtain ⟨words, rfl⟩ := WordSource.exists_below_eq hindex
    exact ⟨words, rfl⟩

end Draw

section Pick
variable {ρ : Type} (h : Hierarchy) (source : WordSource ρ) (s : ρ) {level : UInt16}
  {subgroup : Bool}

theorem pickMember_of_subgroup (hsub : subgroup ∧ 1 < level) :
    (h.pickMember source level subgroup s).1 = (.ofPosition (level - 1)
      (source.below (max (h.groupCount (level - 1)) 1) s).1, .subgroup) := by
  rw [pickMember, if_pos (by simpa using hsub)]

theorem pickMember_of_user (huser : ¬ (subgroup ∧ 1 < level)) :
    (h.pickMember source level subgroup s).1 = (.ofPosition GroupId.userLevel
      (source.below (max h.userPoolSize 1) s).1, .user) := by
  rw [pickMember, if_neg (by simpa using huser)]

theorem pickMember_mem_drawable :
    (h.pickMember source level subgroup s).1 ∈ h.drawable level subgroup := by
  by_cases hsub : subgroup ∧ 1 < level
  · rw [h.pickMember_of_subgroup source s hsub, drawable, if_pos hsub]
    exact mem_numbered_below source s (level - 1) (h.groupCount (level - 1)) .subgroup
  · rw [h.pickMember_of_user source s hsub, drawable, if_neg hsub]
    exact mem_numbered_below source s GroupId.userLevel h.userPoolSize .user

/-- The position that was drawn has a number, also where the count is the greatest word. -/
theorem exists_position_pickMember :
    ∃ level' index, (h.pickMember source level subgroup s).1.1 = .ofPosition level' index ∧
      (h.pickMember source level subgroup s).1.1.number.toNat = index.toNat + 1 := by
  by_cases hsub : subgroup ∧ 1 < level
  · rw [h.pickMember_of_subgroup source s hsub]
    exact ⟨_, _, rfl, toNat_number_below source s (level - 1) (h.groupCount (level - 1))⟩
  · rw [h.pickMember_of_user source s hsub]
    exact ⟨_, _, rfl, toNat_number_below source s GroupId.userLevel h.userPoolSize⟩

end Pick

/-- The members that some words lead to are those that the level may have, and on the way to a member
no number passes the greatest word. -/
theorem picks_cover_members (h : Hierarchy) (level : UInt16) (subgroup : Bool) :
    (Set.range fun words => (h.pickMember .endless level subgroup words).1) =
        h.drawable level subgroup ∧
      ∀ (ρ : Type) (source : WordSource ρ) (s : ρ),
        (h.pickMember source level subgroup s).1 ∈ h.drawable level subgroup ∧
          ∃ level' index, (h.pickMember source level subgroup s).1.1 = .ofPosition level' index ∧
            (h.pickMember source level subgroup s).1.1.number.toNat = index.toNat + 1 := by
  refine ⟨?_, fun ρ source s =>
    ⟨h.pickMember_mem_drawable source s, h.exists_position_pickMember source s⟩⟩
  rw [drawable]
  split
  · rename_i hsub
    simp only [h.pickMember_of_subgroup .endless _ hsub]
    exact range_numbered (level - 1) (h.groupCount (level - 1)) .subgroup
  · rename_i huser
    simp only [h.pickMember_of_user .endless _ huser]
    exact range_numbered GroupId.userLevel h.userPoolSize .user

end Hierarchy

end GroupBench
