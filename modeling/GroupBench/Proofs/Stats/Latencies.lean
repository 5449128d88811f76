import Mathlib.Algebra.Order.BigOperators.Group.List
import Mathlib.Algebra.Order.Group.Nat
import Mathlib.Order.Bounds.Defs
import GroupBench.Proofs.Stats.Tally

/-! The latencies that a sample reports. The least and the greatest of them were recorded, and the
mean lies between the two as long as the latencies together count no more nanoseconds than a word
holds. -/
namespace GroupBench

namespace Duration
variable (spans : List Duration)

theorem foldr_shorter_le {span : Duration} (hspan : span ∈ spans) :
    (spans.foldr shorter longest).nanos ≤ span.nanos := by
  induction spans with
  | nil => cases hspan
  | cons first rest ih =>
    rw [List.foldr_cons, nanos_shorter]
    rcases List.mem_cons.1 hspan with rfl | hrest
    · exact Nat.min_le_left ..
    · exact (Nat.min_le_right ..).trans (ih hrest)

theorem le_foldr_longer {span : Duration} (hspan : span ∈ spans) :
    span.nanos ≤ (spans.foldr longer zero).nanos := by
  induction spans with
  | nil => cases hspan
  | cons first rest ih =>
    rw [List.foldr_cons, nanos_longer]
    rcases List.mem_cons.1 hspan with rfl | hrest
    · exact Nat.le_max_left ..
    · exact (ih hrest).trans (Nat.le_max_right ..)

variable {spans}

/-- The fold starts at the longest span, which the first one beats. -/
theorem isLeast_foldr_shorter (hne : spans ≠ []) :
    IsLeast {span | span ∈ spans} (spans.foldr shorter longest) := by
  refine ⟨?_, fun span hspan => foldr_shorter_le spans hspan⟩
  induction spans with
  | nil => exact absurd rfl hne
  | cons first rest ih =>
    rw [List.foldr_cons, shorter]
    split
    · exact List.mem_cons_self
    · rename_i hless
      refine List.mem_cons_of_mem first (ih ?_)
      rintro rfl
      exact hless first.nanos_le_max

theorem isGreatest_foldr_longer (hne : spans ≠ []) :
    IsGreatest {span | span ∈ spans} (spans.foldr longer zero) := by
  refine ⟨?_, fun span hspan => le_foldr_longer spans hspan⟩
  induction spans with
  | nil => exact absurd rfl hne
  | cons first rest ih =>
    rcases eq_or_ne rest [] with rfl | hrest
    · rw [List.foldr_cons, List.foldr_nil, longer_comm, zero_longer]
      exact List.mem_cons_self
    · rw [List.foldr_cons, longer]
      split
      · exact List.mem_cons_of_mem first (ih hrest)
      · exact List.mem_cons_self

end Duration

namespace Sample

/-- What a sample should say of the latencies that were recorded. -/
structure Orders (s : Sample) (latencies : List Duration) : Prop where
  count : s.count = latencies.length
  least : 0 < s.count → IsLeast {latency | latency ∈ latencies} s.minLatency
  greatest : 0 < s.count → IsGreatest {latency | latency ∈ latencies} s.max
  mean : 0 < s.count → s.avgLatency.nanos = (latencies.map Duration.nanos).sum / s.count
  least_le_mean : s.minLatency ≤ s.avgLatency
  mean_le_greatest : s.avgLatency ≤ s.max
  idle : s.count = 0 → s.minLatency = .zero ∧ s.avgLatency = .zero ∧ s.max = .zero

variable {s : Sample} {recordings : List Recording}

theorem Reports.least (h : s.Reports recordings) (hcount : 0 < s.count) :
    IsLeast {latency | latency ∈ Recording.latencies recordings} s.minLatency := by
  rw [minLatency, if_neg (Nat.ne_of_gt hcount), h.min]
  rw [h.count] at hcount
  exact Duration.isLeast_foldr_shorter (List.ne_nil_of_length_pos hcount)

theorem Reports.greatest (h : s.Reports recordings) (hcount : 0 < s.count) :
    IsGreatest {latency | latency ∈ Recording.latencies recordings} s.max := by
  rw [h.max]
  rw [h.count] at hcount
  exact Duration.isGreatest_foldr_longer (List.ne_nil_of_length_pos hcount)

/-- Neither the sum nor the mean is cut off. -/
theorem Reports.mean (h : s.Reports recordings) (hcount : 0 < s.count)
    (hsum : ((Recording.latencies recordings).map Duration.nanos).sum < UInt64.size) :
    s.avgLatency.nanos = ((Recording.latencies recordings).map Duration.nanos).sum / s.count := by
  have hroom : UInt64.size ≤ Duration.maxNanos := by decide
  have htotal : s.total.nanos = ((Recording.latencies recordings).map Duration.nanos).sum := by
    rw [h.total, Duration.nanos_sum]
    omega
  have hmean := Nat.div_le_self s.total.nanos s.count
  rw [avgLatency, if_neg (Nat.ne_of_gt hcount), Duration.nanos_ofNanos,
    Nat.mod_eq_of_lt (by omega), htotal]
  rw [htotal] at hmean
  omega

theorem Reports.idle (h : s.Reports recordings) (hcount : s.count = 0) :
    s.minLatency = .zero ∧ s.avgLatency = .zero ∧ s.max = .zero := by
  refine ⟨if_pos hcount, if_pos hcount, ?_⟩
  rw [h.count] at hcount
  rw [h.max, List.length_eq_zero_iff.1 hcount]
  rfl

/-- The sum is at least the least latency times the count, and at most the greatest one times it. -/
theorem Reports.least_le_mean_le (h : s.Reports recordings) (hcount : 0 < s.count)
    (hsum : ((Recording.latencies recordings).map Duration.nanos).sum < UInt64.size) :
    s.minLatency ≤ s.avgLatency ∧ s.avgLatency ≤ s.max := by
  have hlow := List.card_nsmul_le_sum ((Recording.latencies recordings).map Duration.nanos)
    s.minLatency.nanos (List.forall_mem_map.2 fun _ hspan => (h.least hcount).2 hspan)
  have hhigh := List.sum_le_card_nsmul ((Recording.latencies recordings).map Duration.nanos)
    s.max.nanos (List.forall_mem_map.2 fun _ hspan => (h.greatest hcount).2 hspan)
  rw [List.length_map, ← h.count, Nat.nsmul_eq_mul] at hlow hhigh
  change s.minLatency.nanos ≤ s.avgLatency.nanos ∧ s.avgLatency.nanos ≤ s.max.nanos
  rw [h.mean hcount hsum, Nat.le_div_iff_mul_le hcount, Nat.mul_comm]
  exact ⟨hlow, Nat.div_le_of_le_mul hhigh⟩

theorem Reports.orders (h : s.Reports recordings)
    (hsum : ((Recording.latencies recordings).map Duration.nanos).sum < UInt64.size) :
    s.Orders (Recording.latencies recordings) := by
  have hbounds : s.minLatency ≤ s.avgLatency ∧ s.avgLatency ≤ s.max := by
    rcases Nat.eq_zero_or_pos s.count with hzero | hcount
    · obtain ⟨hmin, hmean, hmax⟩ := h.idle hzero
      rw [hmin, hmean, hmax]
      exact ⟨Nat.le_refl _, Nat.le_refl _⟩
    · exact h.least_le_mean_le hcount hsum
  exact ⟨h.count, h.least, h.greatest, fun hcount => h.mean hcount hsum, hbounds.1, hbounds.2,
    h.idle⟩

end Sample

namespace Tally

theorem reports (tally : Tally) : tally.sample.Reports tally.recordings := by
  rw [sample_eq_sum, ← Sample.observeAll_empty]
  exact Sample.reports_observeAll tally.recordings

/-- One worker has done nothing yet and another has only failed; the latencies together are the
greatest word. -/
def uneven : Tally :=
  .merge (.merge .empty (.record .empty .failure))
    (.record (.record (.record .empty (.job (.ofNanos 18446744073709551605) 2 3 4))
      (.operation (.ofNanos 3))) (.operation (.ofNanos 7)))

/-- With a nanosecond more the mean of a single latency is cut off. -/
example : (record empty (.operation (.ofNanos UInt64.size))).sample.avgLatency = .zero := by
  decide

end Tally

end GroupBench
