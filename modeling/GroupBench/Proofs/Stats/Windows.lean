import GroupBench.Proofs.Stats.Snapshots

/-! Windows end to end. Whatever calls are made on the statistics of a run, the windows that they
close follow one another without a gap from the beginning of the run, and the open one goes on from
there. -/
namespace GroupBench

namespace Instant

theorem since_self (t : Instant) : t.since t = 0 := by
  rw [since, Int.sub_self]
  rfl

/-- Spans that meet add up. -/
theorem since_add {a b c : Instant} (hab : a.nanos ≤ b.nanos) (hbc : b.nanos ≤ c.nanos) :
    b.since a + c.since b = c.since a := by
  ext
  rw [Duration.nanos_add, since, since, since, Duration.nanos_ofNanos, Duration.nanos_ofNanos,
    Duration.nanos_ofNanos]
  omega

/-- A span is at most the time that has passed if it is so exactly. -/
theorem le_since_iff {a b : Instant} (hab : a.nanos ≤ b.nanos) (d : Duration) :
    d ≤ b.since a ↔ (d.nanos : Int) ≤ b.nanos - a.nanos := by
  have hd := d.nanos_le_max
  change d.nanos ≤ min (b.nanos - a.nanos).toNat Duration.maxNanos ↔ _
  omega

theorem nanos_since {a b : Instant} (hrange : b.nanos - a.nanos ≤ Duration.maxNanos) :
    (b.since a).nanos = (b.nanos - a.nanos).toNat := by
  change min _ Duration.maxNanos = _
  omega

end Instant

namespace StatsWindow
variable (w : StatsWindow) (now : Instant)

theorem isDue_iff : w.isDue now ↔ w.period ≤ now.since w.windowStarted := decide_eq_true_iff

theorem isSome_takeIfDue : (w.takeIfDue now).1.isSome ↔ w.isDue now := by
  rw [takeIfDue]
  split
  · rename_i hdue
    exact iff_of_true rfl hdue
  · rename_i hdue
    exact iff_of_false Bool.false_ne_true hdue

theorem takeIfDue_none (hnone : (w.takeIfDue now).1 = none) : (w.takeIfDue now).2 = w := by
  rw [takeIfDue] at hnone ⊢
  split at hnone
  · cases hnone
  · rename_i hdue
    rw [if_neg hdue]

end StatsWindow

/-- A call on the statistics of a run. -/
inductive WindowCall
  | fold (sample : Sample)
  | take (now : Instant)
  | takeIfDue (now : Instant)

namespace WindowCall

/-- The reading of the clock that a call is made with. -/
def reading? : WindowCall → Option Instant
  | fold _ => none
  | take now | takeIfDue now => some now

def folded? : WindowCall → Option Sample
  | fold sample => some sample
  | take _ | takeIfDue _ => none

end WindowCall

/-- A window that a call has closed, and the instant at which it did. -/
structure Emission where
  snapshot : Snapshot
  closedAt : Instant
  /-- The call was to close the window only if it was due. -/
  due : Bool

/-- The statistics of a run, and the windows that were closed, latest first. -/
structure WindowLog where
  window : StatsWindow
  emitted : List Emission

namespace WindowLog

def opened (period : Duration) (start : Instant) : WindowLog := ⟨.opened period start, []⟩

def call (l : WindowLog) : WindowCall → WindowLog
  | .fold sample => ⟨l.window.fold sample, l.emitted⟩
  | .take now => ⟨(l.window.take now).2, ⟨(l.window.take now).1, now, false⟩ :: l.emitted⟩
  | .takeIfDue now =>
    ⟨(l.window.takeIfDue now).2,
      ((l.window.takeIfDue now).1.map (⟨·, now, true⟩)).toList ++ l.emitted⟩

/-- A run in which these calls are made. -/
def run (period : Duration) (start : Instant) (calls : List WindowCall) : WindowLog :=
  calls.foldl call (opened period start)

/-- The instant of the latest snapshot, or of the beginning of the run. -/
def latest (l : WindowLog) (start : Instant) : Instant :=
  (l.emitted.head?.map Emission.closedAt).getD start

end WindowLog

/-- The clock of a run goes on from `start` by way of the readings of its calls to `now`, and never
back. -/
def Chronological (start : Instant) (calls : List WindowCall) (now : Instant) : Prop :=
  (start :: (calls.filterMap WindowCall.reading? ++ [now])).Pairwise fun a b => a.nanos ≤ b.nanos

/-- Closed windows, latest first, that lie end to end from `start` to the last instant. One that was
closed because it was due is at least a period old. -/
inductive Tiles (period : Duration) (start : Instant) : List Emission → Instant → Prop
  | nil : Tiles period start [] start
  | cons {emitted : List Emission} {begun : Instant} {e : Emission} :
    Tiles period start emitted begun → begun.nanos ≤ e.closedAt.nanos →
      e.snapshot.elapsed = e.closedAt.since begun →
      (e.due → (period.nanos : Int) ≤ e.closedAt.nanos - begun.nanos) →
      Tiles period start (e :: emitted) e.closedAt

namespace Tiles
variable {period : Duration} {start stop : Instant} {emitted : List Emission}

theorem start_le (h : Tiles period start emitted stop) : start.nanos ≤ stop.nanos := by
  induction h with
  | nil => exact Int.le_refl _
  | cons _ hle _ _ ih => exact Int.le_trans ih hle

theorem elapsed_sum (h : Tiles period start emitted stop) :
    (emitted.map (·.snapshot.elapsed)).sum = stop.since start := by
  induction h with
  | nil => exact (Instant.since_self start).symm
  | cons htiles hle helapsed _ ih =>
    rw [List.map_cons, List.sum_cons, ih, helapsed, add_comm]
    exact Instant.since_add htiles.start_le hle

/-- Within the range of spans nothing is lost of the sum. -/
theorem nanos_sum (h : Tiles period start emitted stop)
    (hrange : stop.nanos - start.nanos ≤ Duration.maxNanos) :
    (emitted.map (·.snapshot.elapsed.nanos)).sum = (stop.nanos - start.nanos).toNat := by
  induction h with
  | nil => simp
  | @cons emitted begun e htiles hle helapsed _ ih =>
    have hstart := htiles.start_le
    have hrest := ih (by omega)
    rw [List.map_cons, List.sum_cons, helapsed, Instant.nanos_since (by omega)]
    omega

/-- Every window that was closed because it was due takes up a period. -/
theorem due_le (h : Tiles period start emitted stop) :
    emitted.countP Emission.due * period.nanos ≤ (stop.nanos - start.nanos).toNat := by
  induction h with
  | nil => simp
  | @cons emitted begun e htiles hle _ hdue ih =>
    have hstart := htiles.start_le
    by_cases he : e.due
    · have hperiod := hdue he
      rw [List.countP_cons_of_pos he, Nat.succ_mul]
      omega
    · rw [List.countP_cons_of_neg he]
      omega

theorem latest_eq (h : Tiles period start emitted stop) (w : StatsWindow) :
    WindowLog.latest ⟨w, emitted⟩ start = stop := by
  cases h <;> rfl

end Tiles

instance (start : Instant) (calls : List WindowCall) (now : Instant) :
    Decidable (Chronological start calls now) :=
  inferInstanceAs (Decidable (List.Pairwise _ _))

namespace Chronological
variable {begun now : Instant} {c : WindowCall} {rest : List WindowCall}

theorem now_le {calls : List WindowCall} (h : Chronological begun calls now) :
    begun.nanos ≤ now.nanos :=
  (List.pairwise_cons.1 h).1 now (by simp)

theorem reading_le (h : Chronological begun (c :: rest) now) {t : Instant}
    (ht : t ∈ c.reading?) : begun.nanos ≤ t.nanos := by
  refine (List.pairwise_cons.1 h).1 t ?_
  rw [List.filterMap_cons_some ht]
  exact List.mem_cons_self

theorem tail (h : Chronological begun (c :: rest) now) : Chronological begun rest now := by
  refine List.Pairwise.sublist ?_ h
  refine (List.Sublist.append_right ?_ _).cons_cons _
  exact (List.sublist_cons_self c rest).filterMap _

/-- A window that is opened by the first call begins when that is made. -/
theorem tail_reading (h : Chronological begun (c :: rest) now) {t : Instant}
    (ht : t ∈ c.reading?) : Chronological t rest now := by
  have hlater := (List.pairwise_cons.1 h).2
  rw [List.filterMap_cons_some ht] at hlater
  exact hlater

end Chronological

namespace WindowLog
variable {period : Duration} {start : Instant} {l : WindowLog}

/-- What holds between any two calls of a run. -/
structure Sound (period : Duration) (start : Instant) (l : WindowLog) : Prop where
  period_eq : l.window.period = period
  started_eq : l.window.runStarted = start
  tiles : Tiles period start l.emitted l.window.windowStarted
  covers : l.window.Covers (l.emitted.map Emission.snapshot)

theorem sound_opened (period : Duration) (start : Instant) :
    (opened period start).Sound period start :=
  ⟨rfl, rfl, .nil, StatsWindow.covers_opened period start⟩

/-- The open window is closed, and the next one begins. -/
theorem Sound.close (h : l.Sound period start) {now : Instant}
    (hle : l.window.windowStarted.nanos ≤ now.nanos) (due : Bool)
    (hdue : due → l.window.isDue now) :
    Sound period start ⟨(l.window.take now).2, ⟨(l.window.take now).1, now, due⟩ :: l.emitted⟩ where
  period_eq := h.period_eq
  started_eq := h.started_eq
  tiles := by
    refine h.tiles.cons hle rfl fun he => ?_
    have hage := (l.window.isDue_iff now).1 (hdue he)
    rw [h.period_eq] at hage
    exact (Instant.le_since_iff hle period).1 hage
  covers := h.covers.take now

theorem Sound.call (h : l.Sound period start) {c : WindowCall}
    (hle : ∀ now ∈ c.reading?, l.window.windowStarted.nanos ≤ now.nanos) :
    (l.call c).Sound period start := by
  cases c with
  | fold sample => exact ⟨h.period_eq, h.started_eq, h.tiles, h.covers.fold sample⟩
  | take now => exact h.close (hle now rfl) false nofun
  | takeIfDue now =>
    rw [WindowLog.call, StatsWindow.takeIfDue]
    split
    · rename_i hdue
      exact h.close (hle now rfl) true fun _ => hdue
    · exact h

/-- After a call the window that was open is still open, or the call has opened one. -/
theorem windowStarted_call (l : WindowLog) (c : WindowCall) :
    (l.call c).window.windowStarted = l.window.windowStarted ∨
      (l.call c).window.windowStarted ∈ c.reading? := by
  cases c with
  | fold sample => exact .inl rfl
  | take now => exact .inr rfl
  | takeIfDue now =>
    rw [call, StatsWindow.takeIfDue]
    split
    · exact .inr rfl
    · exact .inl rfl

theorem Sound.calls (h : l.Sound period start) {calls : List WindowCall} {now : Instant}
    (hcalls : Chronological l.window.windowStarted calls now) :
    (calls.foldl WindowLog.call l).Sound period start ∧
      (calls.foldl WindowLog.call l).window.windowStarted.nanos ≤ now.nanos := by
  induction calls generalizing l with
  | nil => exact ⟨h, hcalls.now_le⟩
  | cons c rest ih =>
    refine ih (h.call fun t ht => hcalls.reading_le ht) ?_
    rcases l.windowStarted_call c with hkept | hopened
    · rw [hkept]
      exact hcalls.tail
    · exact hcalls.tail_reading hopened

theorem totals_call (l : WindowLog) (c : WindowCall) :
    (l.call c).window.totals = l.window.totals + c.folded?.toList.sum := by
  cases c with
  | fold sample => exact congrArg (l.window.totals + ·) (add_zero sample).symm
  | take now => exact (add_zero l.window.totals).symm
  | takeIfDue now =>
    rw [call, StatsWindow.takeIfDue]
    split <;> exact (add_zero l.window.totals).symm

theorem totals_calls (l : WindowLog) (calls : List WindowCall) :
    (calls.foldl call l).window.totals =
      l.window.totals + (calls.filterMap WindowCall.folded?).sum := by
  induction calls generalizing l with
  | nil => exact (add_zero l.window.totals).symm
  | cons c rest ih =>
    have hsum : ((c :: rest).filterMap WindowCall.folded?).sum =
        c.folded?.toList.sum + (rest.filterMap WindowCall.folded?).sum := by
      rw [← List.sum_append]
      cases c <;> rfl
    rw [List.foldl_cons, ih, totals_call, hsum, add_assoc]

/-- The windows of a run, when its clock shows `now`. -/
structure Tiled (period : Duration) (start : Instant) (calls : List WindowCall) (now : Instant)
    (l : WindowLog) : Prop where
  tiles : Tiles period start l.emitted (l.latest start)
  elapsed : (l.emitted.map (·.snapshot.elapsed)).sum + now.since (l.latest start) =
    l.window.runElapsed now
  /-- The same sum in nanoseconds, for a clock that stays within the range of spans. -/
  nanos : now.nanos - start.nanos ≤ Duration.maxNanos →
    (l.emitted.map (·.snapshot.elapsed.nanos)).sum + (now.since (l.latest start)).nanos =
      (l.window.runElapsed now).nanos
  samples : Snapshot.mergeAll (l.emitted.map Emission.snapshot) + l.window.current =
    l.window.totals
  totals : l.window.totals = (calls.filterMap WindowCall.folded?).sum
  isSome_iff : (l.window.takeIfDue now).1.isSome ↔
    (period.nanos : Int) ≤ now.nanos - (l.latest start).nanos
  unchanged : (l.window.takeIfDue now).1 = none → (l.window.takeIfDue now).2 = l.window
  due_le : l.emitted.countP Emission.due * period.nanos ≤ (now.nanos - start.nanos).toNat
  due_le_div : now.nanos - start.nanos ≤ Duration.maxNanos → 0 < period.nanos →
    l.emitted.countP Emission.due ≤ (l.window.runElapsed now).nanos / period.nanos

/-- Whatever calls are made on the statistics of a run, their windows lie end to end, and what was
folded in is in one of them. -/
theorem windows_tile_run (period : Duration) {start now : Instant} {calls : List WindowCall}
    (hcalls : Chronological start calls now) :
    (run period start calls).Tiled period start calls now := by
  obtain ⟨hsound, hle⟩ := (sound_opened period start).calls hcalls
  rw [← run] at hsound hle
  generalize hl : run period start calls = l at hsound hle
  obtain ⟨hperiod, hstarted, htiles, hcovers⟩ := hsound
  have hlatest : l.latest start = l.window.windowStarted := htiles.latest_eq l.window
  have hstart := htiles.start_le
  have hcount : l.emitted.countP Emission.due * period.nanos ≤
      (now.nanos - start.nanos).toNat := by
    have hdue := htiles.due_le
    omega
  constructor
  · rw [hlatest]
    exact htiles
  · rw [hlatest, htiles.elapsed_sum, StatsWindow.runElapsed, hstarted]
    exact Instant.since_add hstart hle
  · intro hrange
    have hsum := htiles.nanos_sum (by omega)
    rw [hlatest, StatsWindow.runElapsed, hstarted, Instant.nanos_since (by omega),
      Instant.nanos_since hrange]
    omega
  · exact hcovers
  · rw [← hl, run, totals_calls]
    exact zero_add _
  · rw [hlatest, ← Instant.le_since_iff hle, ← hperiod, ← StatsWindow.isDue_iff]
    exact l.window.isSome_takeIfDue now
  · exact l.window.takeIfDue_none now
  · exact hcount
  · intro hrange hpos
    rw [StatsWindow.runElapsed, hstarted, Instant.nanos_since hrange, Nat.le_div_iff_mul_le hpos]
    exact hcount

/-- An operation, a window that is not due yet, one that is, and one that is closed before it is. -/
def briefCalls : List WindowCall :=
  [.fold (Sample.empty.record (.ofNanos 3)), .takeIfDue ⟨9⟩, .takeIfDue ⟨15⟩, .take ⟨18⟩]

theorem brief_windows_tile_run :
    Chronological ⟨5⟩ briefCalls ⟨20⟩ ∧
      (run (.ofNanos 10) ⟨5⟩ briefCalls).Tiled (.ofNanos 10) ⟨5⟩ briefCalls ⟨20⟩ ∧
      (run (.ofNanos 10) ⟨5⟩ briefCalls).emitted.map Emission.closedAt = [⟨18⟩, ⟨15⟩] := by
  have hcalls : Chronological ⟨5⟩ briefCalls ⟨20⟩ := by decide
  exact ⟨hcalls, windows_tile_run (.ofNanos 10) hcalls, by decide⟩

end WindowLog

end GroupBench
