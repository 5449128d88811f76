import GroupBench.Proofs.Stats.Merge

/-! Samples of shared work. However recordings are dealt out among samples, and in whatever order and
nesting these are merged, the whole has the sample of a worker who records everything alone. -/
namespace GroupBench

/-- What a worker may have to record. -/
inductive Recording
  | operation (latency : Duration)
  | job (latency : Duration) (subgroups members depth : Nat)
  | failure
  deriving DecidableEq

namespace Recording

def latency? : Recording → Option Duration
  | operation latency | job latency _ _ _ => some latency
  | failure => none

def subgroups : Recording → Nat
  | job _ subgroups _ _ => subgroups
  | _ => 0

def members : Recording → Nat
  | job _ _ members _ => members
  | _ => 0

def depth : Recording → Nat
  | job _ _ _ depth => depth
  | _ => 0

/-- The latencies of the operations and jobs that were completed. -/
def latencies (recordings : List Recording) : List Duration := recordings.filterMap latency?

end Recording

namespace Sample

def observe (s : Sample) : Recording → Sample
  | .operation latency => s.record latency
  | .job latency subgroups members depth => s.recordJob latency subgroups members depth
  | .failure => s.recordFailure

/-- Recordings one after the other. -/
def observeAll (s : Sample) (recordings : List Recording) : Sample := recordings.foldl observe s

/-- A recording more is a sample of its own added. -/
theorem observe_eq (s : Sample) (r : Recording) : s.observe r = s + empty.observe r := by
  cases r with
  | operation latency => exact s.recordJob_eq latency 0 0 0
  | job latency subgroups members depth => exact s.recordJob_eq latency subgroups members depth
  | failure => exact s.recordFailure_eq

theorem observeAll_eq (s : Sample) (recordings : List Recording) :
    s.observeAll recordings = s + (recordings.map empty.observe).sum := by
  induction recordings generalizing s with
  | nil => exact (add_zero s).symm
  | cons r rest ih =>
    calc s.observeAll (r :: rest)
        = s.observe r + (rest.map empty.observe).sum := ih (s.observe r)
      _ = s + empty.observe r + (rest.map empty.observe).sum := by rw [s.observe_eq r]
      _ = s + ((r :: rest).map empty.observe).sum := by
        rw [List.map_cons, List.sum_cons, add_assoc]

theorem observeAll_empty (recordings : List Recording) :
    empty.observeAll recordings = (recordings.map empty.observe).sum := by
  rw [observeAll_eq]
  exact zero_add _

/-- What a sample says, field by field, of everything that was recorded. -/
structure Reports (s : Sample) (recordings : List Recording) : Prop where
  count : s.count = (Recording.latencies recordings).length
  failures : s.failures = recordings.count .failure
  min : s.min = (Recording.latencies recordings).foldr Duration.shorter .longest
  max : s.max = (Recording.latencies recordings).foldr Duration.longer .zero
  total : s.total = (Recording.latencies recordings).sum
  subgroups : s.subgroups = (recordings.map Recording.subgroups).sum
  members : s.members = (recordings.map Recording.members).sum
  depth : s.depth = (recordings.map Recording.depth).sum

theorem reports_nil : empty.Reports [] := ⟨rfl, rfl, rfl, rfl, rfl, rfl, rfl, rfl⟩

/-- A recording with a latency puts it in front of the others. -/
theorem Reports.timed {s : Sample} {recordings : List Recording} {r : Recording}
    {latency : Duration} (h : s.Reports recordings) (hr : r.latency? = some latency) :
    (empty.recordJob latency r.subgroups r.members r.depth + s).Reports (r :: recordings) := by
  have hlatencies : Recording.latencies (r :: recordings) =
      latency :: Recording.latencies recordings := List.filterMap_cons_some hr
  have hne : r ≠ .failure := by
    rintro rfl
    cases hr
  constructor
  · rw [hlatencies, List.length_cons, ← h.count]
    exact Nat.add_comm ..
  · rw [List.count_cons_of_ne hne, ← h.failures]
    exact Nat.zero_add _
  · rw [hlatencies, List.foldr_cons, ← h.min]
    exact congrArg (·.shorter s.min) (Duration.longest_shorter latency)
  · rw [hlatencies, List.foldr_cons, ← h.max]
    exact congrArg (·.longer s.max) (Duration.zero_longer latency)
  · rw [hlatencies, List.sum_cons, ← h.total]
    exact congrArg (· + s.total) (zero_add latency)
  · rw [List.map_cons, List.sum_cons, ← h.subgroups]
    exact congrArg (· + s.subgroups) (Nat.zero_add _)
  · rw [List.map_cons, List.sum_cons, ← h.members]
    exact congrArg (· + s.members) (Nat.zero_add _)
  · rw [List.map_cons, List.sum_cons, ← h.depth]
    exact congrArg (· + s.depth) (Nat.zero_add _)

theorem Reports.failed {s : Sample} {recordings : List Recording} (h : s.Reports recordings) :
    (empty.recordFailure + s).Reports (.failure :: recordings) := by
  constructor
  · exact (Nat.zero_add _).trans h.count
  · rw [List.count_cons_self, ← h.failures]
    exact Nat.add_comm ..
  · exact (Duration.longest_shorter _).trans h.min
  · exact (Duration.zero_longer _).trans h.max
  · exact (zero_add s.total).trans h.total
  · exact congrArg (0 + ·) h.subgroups
  · exact congrArg (0 + ·) h.members
  · exact congrArg (0 + ·) h.depth

theorem reports_observeAll (recordings : List Recording) :
    (empty.observeAll recordings).Reports recordings := by
  rw [observeAll_empty]
  induction recordings with
  | nil => exact reports_nil
  | cons r rest ih =>
    rw [List.map_cons, List.sum_cons]
    cases r with
    | operation latency => exact ih.timed (r := .operation latency) rfl
    | job latency subgroups members depth =>
      exact ih.timed (r := .job latency subgroups members depth) rfl
    | failure => exact ih.failed

end Sample

/-- A way to come by a sample: begin with the empty one, record into it, and merge another one into
it. -/
inductive Tally
  | empty
  | record (tally : Tally) (r : Recording)
  | merge (tally other : Tally)
  deriving DecidableEq

namespace Tally

def sample : Tally → Sample
  | empty => .empty
  | record tally r => tally.sample.observe r
  | merge tally other => tally.sample.merge other.sample

/-- Everything that was recorded in a sample or in one that was merged into it. -/
def recordings : Tally → List Recording
  | empty => []
  | record tally r => tally.recordings ++ [r]
  | merge tally other => tally.recordings ++ other.recordings

theorem sample_eq_sum (tally : Tally) :
    tally.sample = (tally.recordings.map Sample.empty.observe).sum := by
  induction tally with
  | empty => rfl
  | record tally r ih =>
    rw [sample, Sample.observe_eq, ih, recordings, List.map_append, List.sum_append,
      List.map_singleton, List.sum_singleton]
  | merge tally other ih ihOther =>
    rw [sample, Sample.merge_eq_add, ih, ihOther, recordings, List.map_append, List.sum_append]

/-- A sample depends on what was recorded and not on how that was split up, ordered and merged. -/
theorem sample_ignores_split (tally : Tally) {all : List Recording}
    (hall : tally.recordings.Perm all) :
    tally.sample = Sample.empty.observeAll all ∧ tally.sample.Reports all ∧
      tally.sample.total.nanos =
        min ((Recording.latencies all).map Duration.nanos).sum Duration.maxNanos ∧
      (∀ s t : Sample, s.merge t = t.merge s) ∧
      (∀ s t u : Sample, (s.merge t).merge u = s.merge (t.merge u)) ∧
      ∀ s : Sample, Sample.empty.merge s = s ∧ s.merge .empty = s := by
  have hsample : tally.sample = Sample.empty.observeAll all := by
    rw [sample_eq_sum, Sample.observeAll_empty]
    exact (hall.map _).sum_eq
  have hreports : tally.sample.Reports all := hsample ▸ Sample.reports_observeAll all
  refine ⟨hsample, hreports, ?_, Sample.merge_comm, Sample.merge_assoc,
    fun s => ⟨s.empty_merge, ?_⟩⟩
  · rw [hreports.total, Duration.nanos_sum]
  · rw [Sample.merge_comm, Sample.empty_merge]

/-- Two workers, one of whom has had the longest job there is; a third has nothing to merge. -/
def overlong : Tally :=
  .merge (.merge (.record .empty (.operation (.ofMillis 5))) .empty)
    (.record (.record .empty .failure) (.job .longest 2 3 4))

/-- The total cannot pass the longest span, in whichever order it is reached. -/
theorem overlong_ignores_split :
    overlong.recordings.Perm [.job .longest 2 3 4, .operation (.ofMillis 5), .failure] ∧
      overlong.sample =
        Sample.empty.observeAll [.job .longest 2 3 4, .operation (.ofMillis 5), .failure] ∧
      overlong.sample.total = .longest := by
  have hall : overlong.recordings.Perm
      [.job .longest 2 3 4, .operation (.ofMillis 5), .failure] := by decide
  exact ⟨hall, (sample_ignores_split overlong hall).1, by decide⟩

end Tally

end GroupBench
