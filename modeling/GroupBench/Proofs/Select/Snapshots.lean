import GroupBench.Proofs.Fill.Snapshots
import GroupBench.Proofs.Select.Report

/-! The windows that a select run closes, and the number of finished jobs that is logged with each
of them. -/
namespace GroupBench.Select
open Fill (Schedule)

variable {σ : Type} {setup : Setup σ} {s t : State σ} {i : Nat} {w : Worker}

/-- The window that an event closes, with the number logged beside it. -/
def Event.closing? : Event → Option (Nat × Snapshot)
  | .closed done snapshot => some (done, snapshot)
  | .started | .resolved _ | .failed .. => none

/-- The windows that were closed, in the order of the events, each with the number logged. -/
def closings (events : List Event) : List (Nat × Snapshot) := events.filterMap Event.closing?

def snapshots (events : List Event) : List Snapshot := (closings events).map Prod.snd

theorem closings_emit (s : State σ) (e : Event) :
    closings (s.emit e).events = e.closing?.toList ++ closings s.events :=
  Pool.filterMap_cons_toList ..

/-- What a step does to the shared window and to the log: with a window that it closes, it logs the
number of jobs that the totals know of. -/
structure Logs (s t : State σ) : Prop where
  window : s.window.Step (snapshots s.events) t.window (snapshots t.events)
  closing : closings t.events = closings s.events ∨
    ∃ snapshot, closings t.events = (t.window.totals.attempts, snapshot) :: closings s.events

theorem logs_idle (hwindow : t.window = s.window)
    (hclosings : closings t.events = closings s.events) : Logs s t := by
  refine ⟨?_, .inl hclosings⟩
  rw [hwindow, snapshots, snapshots, hclosings]
  exact .idle

theorem receive_logs (otherwise : PC) : Logs s (s.receive i w otherwise) := by
  rw [State.receive]
  split <;> exact logs_idle rfl rfl

theorem claim_logs (setup : Setup σ) : Logs s (s.claim setup i w) := by
  rw [State.claim]
  split <;> exact logs_idle rfl rfl

theorem offer_logs (job : Job) : Logs s (s.offer i w job) := by
  rw [State.offer]
  split <;> exact logs_idle rfl rfl

theorem advance_logs (setup : Setup σ) (now : Instant) (job : Job) (begun : Instant) :
    Logs s (s.advance setup now i w job begun) := by
  rw [State.advance]
  split
  · exact logs_idle rfl rfl
  · split <;> exact logs_idle rfl rfl

theorem foldDue_logs (now : Instant) : Logs s (s.foldDue now i w) := by
  have hstep := s.window.step_takeIfDue (snapshots s.events) w.sample now
  have htotals : ((s.window.fold w.sample).takeIfDue now).2.totals =
      (s.window.fold w.sample).totals := by
    rw [StatsWindow.takeIfDue]
    split <;> rfl
  rw [State.foldDue]
  rcases htake : (s.window.fold w.sample).takeIfDue now with ⟨snapshot?, window⟩
  rw [htake] at hstep htotals
  cases snapshot? with
  | none => exact ⟨hstep, .inl rfl⟩
  | some snapshot =>
    refine ⟨hstep, .inr ⟨snapshot, ?_⟩⟩
    change (_, snapshot) :: closings s.events = (window.totals.attempts, snapshot) :: _
    rw [htotals]

theorem step_logs (setup : Setup σ) (s : State σ) (turn : Turn) : Logs s (s.step setup turn) := by
  cases hw : s.workers[turn.worker]? with
  | none =>
    rw [State.step, hw]
    exact logs_idle rfl rfl
  | some w =>
    simp only [State.step, hw]
    cases w.pc with
    | receiving => exact receive_logs .claiming
    | claiming => exact claim_logs setup
    | offering job => exact offer_logs job
    | lastReceiving => exact receive_logs .leaving
    | resolving job begun => exact advance_logs setup turn.now job begun
    | folding => exact foldDue_logs turn.now
    | leaving => exact ⟨.folded w.sample, .inl rfl⟩
    | checking =>
      dsimp only
      split <;> exact logs_idle rfl rfl
    | starting | timing | folded | done => exact logs_idle rfl rfl

/-- How many operations some closed windows hold together. -/
def countAll (closed : List (Nat × Snapshot)) : Nat :=
  (closed.map fun x => x.2.sample.attempts).sum

variable {closed : List (Nat × Snapshot)}

theorem attempts_mergeAll (closed : List (Nat × Snapshot)) :
    (Snapshot.mergeAll (closed.map Prod.snd)).attempts = countAll closed := by
  rw [Snapshot.mergeAll, Sample.attempts_sum, List.map_map, List.map_map]
  rfl

theorem countAll_le {some : List (Nat × Snapshot)} (hsome : some.Sublist closed) :
    countAll some ≤ countAll closed :=
  (hsome.map _).sum_le_sum fun _ _ => Nat.zero_le _

theorem countAll_reverse (closed : List (Nat × Snapshot)) :
    countAll closed.reverse = countAll closed := by
  rw [countAll, List.map_reverse, List.sum_reverse, countAll]

/-- With each window, the latest being first, the number of operations in the windows closed by then
is logged. -/
def Counted (closed : List (Nat × Snapshot)) : Prop :=
  ∀ x earlier, x :: earlier <:+ closed → x.1 = countAll (x :: earlier)

theorem Counted.cons (hc : Counted closed) {x : Nat × Snapshot}
    (hx : x.1 = countAll (x :: closed)) : Counted (x :: closed) := by
  intro y earlier hsuffix
  rcases List.suffix_cons_iff.1 hsuffix with he | hearlier
  · cases he
    exact hx
  · exact hc y earlier hearlier

theorem Counted.descending (hc : Counted closed) :
    (closed.map Prod.fst).Pairwise (· ≥ ·) := by
  induction closed with
  | nil => exact List.Pairwise.nil
  | cons x closed ih =>
    rw [List.map_cons]
    refine List.pairwise_cons.2 ⟨?_, ih fun y earlier hsuffix =>
      hc y earlier (hsuffix.trans (List.suffix_cons x closed))⟩
    simp only [List.mem_map, forall_exists_index, and_imp, forall_apply_eq_imp_iff₂]
    intro y hy
    obtain ⟨later, earlier, rfl⟩ := List.append_of_mem hy
    have hsuffix : y :: earlier <:+ x :: (later ++ y :: earlier) :=
      List.suffix_append (x :: later) (y :: earlier)
    rw [hc y earlier hsuffix, hc x _ List.suffix_rfl]
    exact countAll_le hsuffix.sublist

/-- The closed windows and the open one hold what the totals hold, and the log agrees. -/
structure Logged (s : State σ) : Prop where
  covers : s.window.Covers (snapshots s.events)
  counted : Counted (closings s.events)

theorem Logged.step (hl : Logged s) (hs : Logs s t) : Logged t := by
  refine ⟨hl.covers.step hs.window, ?_⟩
  rcases hs.closing with hsame | ⟨snapshot, hclosing⟩
  · exact hsame.symm ▸ hl.counted
  · have hmore : snapshots t.events ≠ snapshots s.events := fun hsame => by
      have hlength := congrArg List.length hsame
      simp [snapshots, hclosing] at hlength
    obtain hsame | ⟨-, -, htotals⟩ := hl.covers.mergeAll_eq hs.window
    · exact absurd hsame hmore
    · rw [hclosing]
      refine hl.counted.cons ?_
      rw [← hclosing, ← attempts_mergeAll, ← htotals]
      rfl

theorem logged_run (setup : Setup σ) (run : Schedule) (store : σ) :
    Logged (setup.after run store) := by
  refine Pool.exec_induction (P := Logged) ?_ ?_ run.turns
  · intro s turn hs
    exact hs.step (step_logs setup s turn)
  · refine ⟨StatsWindow.covers_opened .., fun x earlier hsuffix => ?_⟩
    cases List.suffix_nil.1 hsuffix

theorem closings_finish (setup : Setup σ) (s : State σ) (now : Instant) :
    closings (s.finish setup now).events =
      ((s.window.totals.attempts, (s.window.take now).1) :: closings s.events).reverse := by
  rw [State.finish, closings, List.filterMap_reverse]
  exact congrArg List.reverse (closings_emit s _)

theorem attempts_contribution (latency : Duration) (outcome : Except StoreFault Job) :
    (contribution latency outcome).attempts = 1 := by
  cases outcome <;> rfl

/-- The window and the samples together know of each finished job once. -/
def Known (s : State σ) : Prop :=
  (s.window.totals + (s.workers.map Worker.owed).sum).attempts = (finished s.events).length

theorem known_work (hk : Known s) (hw : s.workers[i]? = some w) (he : Work setup s i w t) :
    Known t := by
  obtain ⟨others, hperm, hset⟩ := Pool.exists_others hw
  have hsum := (hperm.map Worker.owed).sum_eq
  have hsum' (v : Worker) := ((hset v).map Worker.owed).sum_eq
  simp only [List.map_cons, List.sum_cons] at hsum hsum'
  rw [Known, hsum, ← add_assoc] at hk
  cases he with
  | moved v next window events _ _ _ htotals hevents =>
    rw [Known, hsum', ← add_assoc, htotals, hk, hevents]
  | received job v _ _ _ _ howed | claimed v _ _ _ _ howed | sent job v _ _ _ _ howed
  | expanded job next v store _ _ _ _ _ howed => rw [Known, hsum', howed, ← add_assoc, hk]
  | ended job outcome latency v store events _ _ _ _ howed hevents =>
    rw [Known, hsum', howed, hevents, List.length_cons, ← hk, ← add_assoc, ← add_assoc,
      add_right_comm, Sample.attempts_add _ (contribution latency outcome), attempts_contribution]

theorem known_run (setup : Setup σ) (run : Schedule) (store : σ) :
    Known (setup.after run store) := by
  refine Pool.exec_induction (P := Known) ?_ ?_ run.turns
  · intro s turn hk
    obtain ⟨he, -⟩ | ⟨w, hw, -, he⟩ := step_work setup s turn
    · exact he.symm ▸ hk
    · exact known_work hk hw he
  · have howed : ((setup.initial run.begun store).workers.map Worker.owed).sum = 0 :=
      sum_owed_eq_zero fun w hw => by
        rw [List.eq_of_mem_replicate hw]
        rfl
    rw [Known, howed]
    rfl

theorem Dispatch.length_finished_le (hd : Dispatch setup s) :
    (finished s.events).length ≤ setup.totalJobs := by
  have hlen := hd.placed.length_eq
  rw [Hierarchy.length_topLevelGroups] at hlen
  simp only [List.length_append] at hlen
  have hall : setup.hierarchy.topLevelGroupCount.toNat = setup.totalJobs := rfl
  omega

/-- A finished run shows all of its jobs as done, also where there are none. -/
theorem progressText_complete (figures : Figures) (total : Nat) (snapshot : Snapshot) :
    ∃ rest, progressText figures total total snapshot =
      s!"[select-members 100%] group: {total}/{total}, " ++ rest := by
  have htext : toString (percentText 100) = "100" := by cbv
  unfold progressText
  simp only [Nat.min_self, percent_self]
  rw [htext]
  simp only [String.append_assoc]
  exact ⟨_, rfl⟩

/-- Every job that the totals know of is in one window, and the log counts those in the windows that
are closed. Whatever turn comes next, a window that it closes makes up the totals with those closed
before; all of them make up the report. -/
structure EachInOneWindow (setup : Setup σ) (run : Schedule) (store : σ) : Prop where
  closing : ∀ turn, let s := setup.after run store
    let t := s.step setup turn
    snapshots t.events = snapshots s.events ∨
      ∃ snapshot, snapshots t.events = snapshot :: snapshots s.events ∧
        Snapshot.mergeAll (snapshots t.events) = t.window.totals
  report : Snapshot.mergeAll (snapshots (setup.outcome run store).events) =
    (setup.outcome run store).report.summary.totals
  logged : ∀ earlier x, earlier ++ [x] <+: closings (setup.outcome run store).events →
    x.1 = countAll (earlier ++ [x])
  ascending : ((closings (setup.outcome run store).events).map Prod.fst).Pairwise (· ≤ ·)
  bounded : ∀ x ∈ closings (setup.outcome run store).events, x.1 ≤ setup.totalJobs
  /-- At the end all jobs have finished, and the last line says so. -/
  complete : (setup.after run store).isDone →
    (∃ snapshot, (closings (setup.outcome run store).events).getLast? =
      some (setup.totalJobs, snapshot)) ∧
    ∀ figures, ∃ rest, ((setup.outcome run store).lines figures setup).getLast? = some ⟨.info,
      s!"[select-members 100%] group: {setup.totalJobs}/{setup.totalJobs}, " ++ rest⟩

theorem getLast_lines (figures : Figures) (s : State σ) (now : Instant) :
    ((s.finish setup now).lines figures setup).getLast? = some ⟨.info,
      progressText figures setup.totalJobs s.window.totals.attempts (s.window.take now).1⟩ := by
  rw [Outcome.lines, State.finish, List.filterMap_reverse, List.getLast?_reverse]
  rfl

theorem attempts_of_done (hd : Dispatch setup s) (hk : Known s) (hpos : 0 < setup.config.workers)
    (hdone : s.isDone) : s.window.totals.attempts = setup.totalJobs := by
  obtain ⟨-, hperm⟩ := hd.finished_of_done hpos hdone
  have howed : (s.workers.map Worker.owed).sum = 0 := sum_owed_eq_zero fun w hw => by
    rw [Worker.owed, isDone_iff.1 hdone w hw]
  rw [Known, howed, add_zero, hperm.length_eq, Hierarchy.length_topLevelGroups] at hk
  exact hk.trans (Nat.min_self _)

theorem each_in_one_window (setup : Setup σ) (hpos : 0 < setup.config.workers) (run : Schedule)
    (store : σ) : EachInOneWindow setup run store := by
  have hd : Dispatch setup (setup.after run store) := dispatch_run setup run.begun store run.turns
  have hl := logged_run setup run store
  have hk := known_run setup run store
  generalize hs : setup.after run store = s at hd hl hk
  have hclosings : closings (setup.outcome run store).events =
      ((s.window.totals.attempts, (s.window.take run.ended).1) :: closings s.events).reverse := by
    rw [Setup.outcome, closings_finish, hs]
  have hmerged : Snapshot.mergeAll ((s.window.take run.ended).1 :: snapshots s.events) =
      s.window.totals := hl.covers.mergeAll_take run.ended
  have hcounted : Counted
      ((s.window.totals.attempts, (s.window.take run.ended).1) :: closings s.events) := by
    refine hl.counted.cons ?_
    rw [← attempts_mergeAll, ← hmerged]
    rfl
  have hfirst : s.window.totals.attempts ≤ setup.totalJobs := by
    have hle := hd.length_finished_le
    rw [← hk, Sample.attempts_add] at hle
    exact Nat.le_of_add_right_le hle
  refine ⟨?_, ?_, ?_, ?_, ?_, fun hdone => ?_⟩
  · intro turn
    rw [hs]
    exact hl.covers.mergeAll_eq (step_logs setup s turn).window
  · rw [snapshots, hclosings, List.map_reverse, Snapshot.mergeAll_reverse, Setup.outcome, hs]
    exact hmerged
  · intro earlier x hprefix
    rw [hclosings, ← List.reverse_suffix, List.reverse_reverse, List.reverse_append] at hprefix
    rw [hcounted x earlier.reverse hprefix, ← countAll_reverse, List.reverse_cons,
      List.reverse_reverse]
  · rw [hclosings, List.map_reverse, List.pairwise_reverse]
    exact hcounted.descending
  · intro x hx
    rw [hclosings, List.mem_reverse] at hx
    have hdescending := hcounted.descending
    rw [List.map_cons, List.pairwise_cons] at hdescending
    rcases List.mem_cons.1 hx with rfl | hx
    · exact hfirst
    · exact Nat.le_trans (hdescending.1 _ (List.mem_map_of_mem hx)) hfirst
  · rw [hs] at hdone
    have hall := attempts_of_done hd hk hpos hdone
    refine ⟨⟨(s.window.take run.ended).1, ?_⟩, fun figures => ?_⟩
    · rw [hclosings, List.getLast?_reverse, List.head?_cons, hall]
    · rw [Setup.outcome, hs, getLast_lines, hall]
      obtain ⟨rest, htext⟩ :=
        progressText_complete figures setup.totalJobs (s.window.take run.ended).1
      exact ⟨rest, by rw [htext]⟩

/-- Two workers in turns, under a clock that moves on by half a second with each of them. -/
def ticking : Schedule where
  begun := default
  turns := (List.range 100).map fun k => ⟨k % 2, ⟨k * 500000000⟩⟩
  ended := ⟨50000000000⟩

/-- Whatever the workers, the period, the clock, the faults of the store and the order of the steps:
the windows of a fill run and those of a select run share out the operations of the run. -/
theorem windows_share_out {τ : Type} (filling : Fill.Setup τ) (setup : Setup σ)
    (hpos : 0 < setup.config.workers) (fillRun selectRun : Schedule) (empty : τ) (store : σ) :
    Fill.EachInOneWindow filling fillRun empty ∧ EachInOneWindow setup selectRun store :=
  ⟨Fill.each_in_one_window filling fillRun empty, each_in_one_window setup hpos selectRun store⟩

theorem ticking_windows_share_out :
    Fill.EachInOneWindow Fill.pairSetup ticking [] ∧
      (Fill.pairSetup.after ticking []).isDone ∧
      (Fill.snapshots (Fill.pairSetup.outcome ticking []).events).map (fun x => x.sample.tally) =
        [(1, 0), (0, 1), (0, 1), (1, 0), (1, 0), (0, 0)] ∧
      EachInOneWindow stumblingSetup ticking () ∧
      (stumblingSetup.after ticking ()).isDone ∧
      (closings (stumblingSetup.outcome ticking ()).events).map Prod.fst = [1, 3, 3] := by
  have hpos : 0 < stumblingSetup.config.workers := by decide
  obtain ⟨hfill, hselect⟩ :=
    windows_share_out Fill.pairSetup stumblingSetup hpos ticking ticking [] ()
  refine ⟨hfill, ?_, ?_, hselect, ?_, ?_⟩ <;> decide +kernel

end GroupBench.Select
