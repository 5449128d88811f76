import GroupBench.Proofs.Stats.Merge

/-! Windows and totals. What was folded in since a run began is in one of the windows closed since
then or in the open one, and in one of them only. -/
namespace GroupBench

/-- What some closed windows hold together. -/
def Snapshot.mergeAll (closed : List Snapshot) : Sample := (closed.map Snapshot.sample).sum

theorem Snapshot.mergeAll_cons (snapshot : Snapshot) (closed : List Snapshot) :
    mergeAll (snapshot :: closed) = snapshot.sample + mergeAll closed := by
  rw [mergeAll, List.map_cons, List.sum_cons, mergeAll]

theorem Snapshot.mergeAll_reverse (closed : List Snapshot) :
    mergeAll closed.reverse = mergeAll closed := by
  rw [mergeAll, List.map_reverse, List.sum_reverse, mergeAll]

namespace Sample

theorem attempts_add (s t : Sample) : (s + t).attempts = s.attempts + t.attempts := by
  change s.count + t.count + (s.failures + t.failures) =
    s.count + s.failures + (t.count + t.failures)
  omega

theorem attempts_sum (samples : List Sample) :
    samples.sum.attempts = (samples.map attempts).sum := by
  induction samples with
  | nil => rfl
  | cons s rest ih => rw [List.sum_cons, attempts_add, ih, List.map_cons, List.sum_cons]

end Sample

namespace StatsWindow

/-- What one step of a pool may do to the shared statistics, and to the list of closed windows,
latest first. -/
inductive Step (w : StatsWindow) (closed : List Snapshot) : StatsWindow → List Snapshot → Prop
  | idle : Step w closed w closed
  | folded (sample : Sample) : Step w closed (w.fold sample) closed
  | taken (sample : Sample) (now : Instant) :
      Step w closed ((w.fold sample).take now).2 (((w.fold sample).take now).1 :: closed)

/-- The closed windows and the open one hold what the totals hold. -/
def Covers (w : StatsWindow) (closed : List Snapshot) : Prop :=
  Snapshot.mergeAll closed + w.current = w.totals

variable {w t : StatsWindow} {closed closed' : List Snapshot}

theorem covers_opened (period : Duration) (now : Instant) : (opened period now).Covers [] :=
  zero_add (0 : Sample)

theorem Covers.fold (hw : w.Covers closed) (sample : Sample) : (w.fold sample).Covers closed := by
  rw [Covers] at hw
  change Snapshot.mergeAll closed + (w.current + sample) = w.totals + sample
  rw [← add_assoc, hw]

/-- A window that is closed leaves nothing open. -/
theorem Covers.mergeAll_take (hw : w.Covers closed) (now : Instant) :
    Snapshot.mergeAll ((w.take now).1 :: closed) = w.totals := by
  rw [Snapshot.mergeAll_cons, add_comm]
  exact hw

theorem Covers.take (hw : w.Covers closed) (now : Instant) :
    (w.take now).2.Covers ((w.take now).1 :: closed) := by
  rw [Covers, hw.mergeAll_take now]
  exact add_zero w.totals

theorem Covers.step (hw : w.Covers closed) (hs : w.Step closed t closed') : t.Covers closed' := by
  cases hs with
  | idle => exact hw
  | folded sample => exact hw.fold sample
  | taken sample now => exact (hw.fold sample).take now

/-- At the moment at which a window is closed, the closed windows hold all that the totals hold. -/
theorem Covers.mergeAll_eq (hw : w.Covers closed) (hs : w.Step closed t closed') :
    closed' = closed ∨ ∃ snapshot, closed' = snapshot :: closed ∧
      Snapshot.mergeAll closed' = t.totals := by
  cases hs with
  | idle => exact .inl rfl
  | folded sample => exact .inl rfl
  | taken sample now => exact .inr ⟨_, rfl, (hw.fold sample).mergeAll_take now⟩

theorem step_takeIfDue (w : StatsWindow) (closed : List Snapshot) (sample : Sample)
    (now : Instant) : w.Step closed ((w.fold sample).takeIfDue now).2
      (((w.fold sample).takeIfDue now).1.toList ++ closed) := by
  rw [takeIfDue]
  split
  · exact .taken sample now
  · exact .folded sample

end StatsWindow

end GroupBench
