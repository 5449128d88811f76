import Mathlib.Algebra.GroupWithZero.Nat
import Mathlib.Algebra.BigOperators.Group.List.Basic
import GroupBench.Stats.Window

/-! Samples add up: in whatever order and grouping parts are merged, they give one and the same
sample of the whole. -/
namespace GroupBench

namespace Duration

theorem nanos_le_max (a : Duration) : a.nanos ≤ maxNanos := a.nanos_le

instance : Zero Duration := ⟨zero⟩

/-- Sums stay at the longest span, so it does not matter which of them is taken first. -/
instance : AddCommMonoid Duration where
  nsmul := nsmulRec
  add_assoc a b c := by
    ext
    simp only [nanos_add]
    omega
  zero_add a := by
    have := a.nanos_le_max
    ext
    change min (0 + a.nanos) maxNanos = a.nanos
    omega
  add_zero a := by
    have := a.nanos_le_max
    ext
    change min (a.nanos + 0) maxNanos = a.nanos
    omega
  add_comm a b := by
    ext
    rw [nanos_add, nanos_add, Nat.add_comm]

/-- A sum is what its parts are worth together, up to the longest span. -/
theorem nanos_sum (spans : List Duration) :
    spans.sum.nanos = min (spans.map nanos).sum maxNanos := by
  induction spans with
  | nil => exact (Nat.zero_min _).symm
  | cons span rest ih =>
    rw [List.sum_cons, nanos_add, ih, List.map_cons, List.sum_cons]
    omega

variable (a b c : Duration)

theorem shorter_comm : a.shorter b = b.shorter a := by
  ext
  rw [nanos_shorter, nanos_shorter, Nat.min_comm]

theorem shorter_assoc : (a.shorter b).shorter c = a.shorter (b.shorter c) := by
  ext
  simp only [nanos_shorter, Nat.min_assoc]

theorem longest_shorter : longest.shorter a = a := by
  have := a.nanos_le_max
  ext
  rw [nanos_shorter, longest, nanos_ofNanos]
  omega

theorem longer_comm : a.longer b = b.longer a := by
  ext
  rw [nanos_longer, nanos_longer, Nat.max_comm]

theorem longer_assoc : (a.longer b).longer c = a.longer (b.longer c) := by
  ext
  simp only [nanos_longer, Nat.max_assoc]

theorem zero_longer : zero.longer a = a := by
  ext
  rw [nanos_longer, zero, nanos_ofNanos]
  omega

end Duration

namespace Sample

theorem merge_comm (s t : Sample) : s.merge t = t.merge s := by
  ext1
  · exact Nat.add_comm ..
  · exact Nat.add_comm ..
  · exact Duration.shorter_comm ..
  · exact Duration.longer_comm ..
  · exact add_comm s.total t.total
  · exact Nat.add_comm ..
  · exact Nat.add_comm ..
  · exact Nat.add_comm ..

theorem merge_assoc (s t u : Sample) : (s.merge t).merge u = s.merge (t.merge u) := by
  ext1
  · exact Nat.add_assoc ..
  · exact Nat.add_assoc ..
  · exact Duration.shorter_assoc ..
  · exact Duration.longer_assoc ..
  · exact add_assoc s.total t.total u.total
  · exact Nat.add_assoc ..
  · exact Nat.add_assoc ..
  · exact Nat.add_assoc ..

theorem empty_merge (s : Sample) : empty.merge s = s := by
  ext1
  · exact Nat.zero_add _
  · exact Nat.zero_add _
  · exact Duration.longest_shorter _
  · exact Duration.zero_longer _
  · exact zero_add s.total
  · exact Nat.zero_add _
  · exact Nat.zero_add _
  · exact Nat.zero_add _

instance : Add Sample := ⟨merge⟩

instance : Zero Sample := ⟨empty⟩

/-- The empty sample counts for nothing. -/
instance : AddCommMonoid Sample where
  nsmul := nsmulRec
  add_assoc := merge_assoc
  zero_add := empty_merge
  add_zero s := (merge_comm s empty).trans (empty_merge s)
  add_comm := merge_comm

theorem merge_eq_add (s t : Sample) : s.merge t = s + t := rfl

/-- An operation more is a sample of its own added. -/
theorem recordJob_eq (s : Sample) (latency : Duration) (subgroups members depth : Nat) :
    s.recordJob latency subgroups members depth =
      s + empty.recordJob latency subgroups members depth := by
  ext1
  · rfl
  · rfl
  · exact congrArg (Duration.shorter s.min) (Duration.longest_shorter latency).symm
  · exact congrArg (Duration.longer s.max) (Duration.zero_longer latency).symm
  · exact congrArg (s.total + ·) (zero_add latency).symm
  · exact congrArg (s.subgroups + ·) (Nat.zero_add subgroups).symm
  · exact congrArg (s.members + ·) (Nat.zero_add members).symm
  · exact congrArg (s.depth + ·) (Nat.zero_add depth).symm

theorem recordFailure_eq (s : Sample) : s.recordFailure = s + empty.recordFailure := by
  ext1
  · rfl
  · rfl
  · exact (congrArg Sample.min (add_zero s)).symm
  · exact (congrArg Sample.max (add_zero s)).symm
  · exact (congrArg Sample.total (add_zero s)).symm
  · rfl
  · rfl
  · rfl

end Sample

end GroupBench
