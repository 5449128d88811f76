import GroupBench.Proofs.Fill.ExactlyOnce
import GroupBench.Proofs.Select.Dispatch
import GroupBench.Proofs.Select.Progress

/-! A select run ends, and its report adds up what the groups come to when they are resolved one by
one. A job that fails on the way counts as one failure; what it had found by then counts for
nothing. -/
namespace GroupBench.Select
open Fill (Schedule)

variable {σ : Type}

namespace Setup
variable (setup : Setup σ)

/-- The pool when the turns of a run have been taken. -/
def after (run : Schedule) (store : σ) : State σ :=
  Pool.exec (State.step setup) run.turns (setup.initial run.begun store)

def outcome (run : Schedule) (store : σ) : Outcome σ :=
  (setup.after run store).finish setup run.ended

/-- The store after some runs, each on the store that the one before it left. -/
def storeAfter (runs : List Schedule) (store : σ) : σ :=
  runs.foldl (fun store run => (setup.after run store).store) store

end Setup

/-- The window and the samples together know of each finished job once. Those jobs are listed with
the time that each took. -/
structure Accounted (results : GroupId → Except StoreFault Job)
    (taken : List (GroupId × Duration)) (s : State σ) : Prop where
  roots : taken.map Prod.fst = finished s.events
  sum : s.window.totals + (s.workers.map Worker.owed).sum =
    (taken.map fun x => contribution x.2 (results x.1)).sum

variable {setup : Setup σ} {answer : List GroupId → Except StoreFault (List MemberRow)}
  {states : σ → Prop} {before : σ} {results : GroupId → Except StoreFault Job}
  {s t : State σ} {i : Nat} {w : Worker} {taken : List (GroupId × Duration)}

theorem sum_owed_eq_zero {workers : List Worker} (hidle : ∀ w ∈ workers, w.owed = 0) :
    (workers.map Worker.owed).sum = 0 := by
  apply List.sum_eq_zero
  simpa only [List.mem_map, forall_exists_index, and_imp, forall_apply_eq_imp_iff₂] using hidle

theorem accounted_initial (now : Instant) (store : σ) :
    Accounted results [] (setup.initial now store) := by
  have howed : ((setup.initial now store).workers.map Worker.owed).sum = 0 :=
    sum_owed_eq_zero fun w hw => by
      rw [List.eq_of_mem_replicate hw]
      rfl
  refine ⟨rfl, ?_⟩
  rw [howed, add_zero]
  rfl

/-- A job adds to the accounts only as it comes to its end, and then what its group comes to when
it is resolved by itself. -/
theorem accounted_work (hread : setup.backend.ReadOnly answer states) (hbefore : states before)
    (ht : OnTrack setup states before results s) (ha : Accounted results taken s)
    (hw : s.workers[i]? = some w) (he : Work setup s i w t) :
    ∃ taken, Accounted results taken t := by
  obtain ⟨others, hperm, hset⟩ := Pool.exists_others hw
  have hsum := (hperm.map Worker.owed).sum_eq
  have hsum' (v : Worker) := ((hset v).map Worker.owed).sum_eq
  simp only [List.map_cons, List.sum_cons] at hsum hsum'
  have hbooks := ha.sum
  rw [hsum, ← add_assoc] at hbooks
  cases he with
  | moved v next window events _ _ _ htotals hevents =>
    refine ⟨taken, hevents.symm ▸ ha.roots, ?_⟩
    dsimp only
    rw [hsum', ← add_assoc, htotals, hbooks]
  | received job v _ _ _ _ howed =>
    refine ⟨taken, ha.roots, ?_⟩
    dsimp only
    rw [hsum', howed, ← add_assoc, hbooks]
  | claimed v _ _ _ _ howed =>
    refine ⟨taken, ha.roots, ?_⟩
    dsimp only
    rw [hsum', howed, ← add_assoc, hbooks]
  | sent job v _ _ _ _ howed =>
    refine ⟨taken, ha.roots, ?_⟩
    dsimp only
    rw [hsum', howed, ← add_assoc, hbooks]
  | expanded job next v store _ _ _ _ _ howed =>
    refine ⟨taken, ha.roots, ?_⟩
    dsimp only
    rw [hsum', howed, ← add_assoc, hbooks]
  | ended job outcome latency v store events hlast hjob _ _ howed hevents =>
    have hheld := ht.held w (List.mem_of_getElem? hw) job hjob
    obtain ⟨hresult, -⟩ := hheld.of_ends hread hbefore ht.store hlast
    refine ⟨(job.root, latency) :: taken, ?_, ?_⟩
    · rw [List.map_cons, ha.roots, hevents]
    · dsimp only
      rw [hsum', howed, List.map_cons, List.sum_cons, hresult, ← hbooks]
      abel

theorem exists_accounted (hread : setup.backend.ReadOnly answer states) (hbefore : states before)
    (hends : ∀ k < setup.totalJobs,
      (setup.jobAt k).EndsWith setup.backend before (results (setup.jobAt k).root))
    (run : Schedule) {store : σ} (hstore : states store) :
    OnTrack setup states before results (setup.after run store) ∧
      ∃ taken, Accounted results taken (setup.after run store) := by
  apply Pool.exec_induction
    (P := fun s => OnTrack setup states before results s ∧ ∃ taken, Accounted results taken s)
  · rintro s turn ⟨ht, taken, ha⟩
    refine ⟨onTrack_step hread hbefore hends ht turn, ?_⟩
    obtain ⟨he, -⟩ | ⟨w, hw, -, he⟩ := step_work setup s turn
    · exact ⟨taken, he.symm ▸ ha⟩
    · exact accounted_work hread hbefore ht ha hw he
  · exact ⟨onTrack_initial run.begun hstore, [], accounted_initial run.begun store⟩

/-- What the resolutions of a list of groups add up to. Only those that succeed count for more than
their number. -/
structure AddsUp (outcomes : List (Except StoreFault Job)) (totals : Sample) : Prop where
  jobs : totals.count = outcomes.countP fun outcome => outcome.isOk
  failures : totals.failures = outcomes.countP fun outcome => !outcome.isOk
  members : totals.members = ((outcomes.filterMap Except.toOption).map Job.memberCount).sum
  subgroups : totals.subgroups = ((outcomes.filterMap Except.toOption).map Job.subgroups).sum
  depth : totals.depth = ((outcomes.filterMap Except.toOption).map Job.depth).sum

theorem AddsUp.cons {outcomes : List (Except StoreFault Job)} {totals : Sample}
    (h : AddsUp outcomes totals) (latency : Duration) (outcome : Except StoreFault Job) :
    AddsUp (outcome :: outcomes) (contribution latency outcome + totals) := by
  obtain ⟨hjobs, hfailures, hmembers, hsubgroups, hdepth⟩ := h
  rw [← Sample.merge_eq_add]
  cases outcome with
  | error fault =>
    constructor <;>
      simp [Sample.merge, contribution, Sample.recordFailure, Sample.empty, Except.isOk,
        Except.toBool, Except.toOption, List.filterMap_cons, Nat.add_comm, *]
  | ok job =>
    constructor <;>
      simp [Sample.merge, contribution, Sample.recordJob, Sample.record, Sample.empty, Except.isOk,
        Except.toBool, Except.toOption, Nat.add_comm, *]

theorem addsUp_sum (results : GroupId → Except StoreFault Job) (latency : GroupId → Duration)
    (roots : List GroupId) :
    AddsUp (roots.map results)
      (roots.map fun root => contribution (latency root) (results root)).sum := by
  induction roots with
  | nil => exact ⟨rfl, rfl, rfl, rfl, rfl⟩
  | cons root rest ih => exact ih.cons (latency root) (results root)

/-- The report is that of the groups resolved one by one: each of them adds a sample of its own to
the totals, whatever the others come to. -/
structure SumsUp (roots : List GroupId) (results : GroupId → Except StoreFault Job) (r : Report) :
    Prop extends AddsUp (roots.map results) r.summary.totals where
  groups : r.groups = roots.length
  attempts : r.jobs + r.failures = r.groups
  samples : ∃ latency : GroupId → Duration,
    r.summary.totals = (roots.map fun root => contribution (latency root) (results root)).sum

theorem exists_latency (taken : List (GroupId × Duration)) (hnodup : (taken.map Prod.fst).Nodup) :
    ∃ latency : GroupId → Duration, ∀ x ∈ taken, latency x.1 = x.2 := by
  induction taken with
  | nil => exact ⟨fun _ => .zero, fun _ hx => absurd hx List.not_mem_nil⟩
  | cons x rest ih =>
    obtain ⟨hfresh, hrest⟩ := List.nodup_cons.1 hnodup
    obtain ⟨latency, hlatency⟩ := ih hrest
    refine ⟨Function.update latency x.1 x.2, fun y hy => ?_⟩
    rcases List.mem_cons.1 hy with rfl | hy
    · exact Function.update_self ..
    · have hne : y.1 ≠ x.1 := fun he => hfresh (he ▸ List.mem_map_of_mem hy)
      rw [Function.update_of_ne hne, hlatency y hy]

theorem sumsUp_of_done (hd : Dispatch setup s) (hpos : 0 < setup.config.workers)
    (ha : Accounted results taken s) (hdone : s.isDone) (now : Instant) :
    SumsUp (setup.hierarchy.topLevelGroups setup.totalJobs) results
      (s.finish setup now).report := by
  obtain ⟨-, hperm⟩ := hd.finished_of_done hpos hdone
  have hnodup := hperm.nodup_iff.2 (setup.hierarchy.topLevelGroups_nodup setup.totalJobs)
  rw [← ha.roots] at hperm hnodup
  obtain ⟨latency, hlatency⟩ := exists_latency taken hnodup
  have howed : (s.workers.map Worker.owed).sum = 0 := sum_owed_eq_zero fun w hw => by
    rw [Worker.owed, isDone_iff.1 hdone w hw]
  have htotals : s.window.totals =
      ((setup.hierarchy.topLevelGroups setup.totalJobs).map fun root =>
        contribution (latency root) (results root)).sum := by
    have hbooks := ha.sum
    rw [howed, add_zero] at hbooks
    rw [hbooks, ← (hperm.map fun root => contribution (latency root) (results root)).sum_eq,
      List.map_map]
    refine congrArg List.sum (List.map_congr_left fun x hx => ?_)
    rw [Function.comp_apply, hlatency x hx]
  have hadds := addsUp_sum results latency
    (setup.hierarchy.topLevelGroups setup.totalJobs)
  rw [← htotals] at hadds
  have hgroups : (s.finish setup now).report.groups =
      (setup.hierarchy.topLevelGroups setup.totalJobs).length := by
    rw [Hierarchy.length_topLevelGroups]
    exact (Nat.min_self _).symm
  refine ⟨hadds, hgroups, ?_, latency, htotals⟩
  rw [hgroups]
  change s.window.totals.count + s.window.totals.failures = _
  rw [hadds.jobs, hadds.failures, List.countP_map, List.countP_map,
    List.length_eq_countP_add_countP fun root => (results root).isOk]
  simp [Function.comp_def]

theorem make_eq_ok {backend : Backend σ} {h : Hierarchy} {config : RunConfig}
    (hmake : Setup.make backend h config = .ok setup) :
    0 < config.workers ∧ setup = ⟨backend, h, config.single⟩ := by
  rw [Setup.make] at hmake
  cases hvalid : config.single.validate with
  | error fault =>
    rw [hvalid] at hmake
    cases hmake
  | ok =>
    rw [hvalid] at hmake
    cases hmake
    exact ⟨(RunConfig.validate_eq_ok_iff.1 hvalid).1, rfl⟩

theorem exists_make_eq_ok {σ : Type} {config : RunConfig} (backend : Backend σ) (h : Hierarchy)
    (hvalid : config.validate = .ok ()) :
    ∃ setup, Setup.make backend h config = .ok setup ∧ setup.hierarchy = h := by
  obtain ⟨hworkers, -⟩ := RunConfig.validate_eq_ok_iff.1 hvalid
  have hsingle : config.single.validate = .ok () :=
    RunConfig.validate_eq_ok_iff.2 ⟨hworkers, (by decide : (1 : UInt32) ≠ 0), UInt32.le_refl 1⟩
  rw [Setup.make, hsingle]
  exact ⟨_, rfl, rfl⟩

theorem start_mem_topLevelGroups {k : Nat} (hk : k < setup.totalJobs) :
    setup.jobAt k = .start (setup.jobAt k).root ∧
      (setup.jobAt k).root ∈ setup.hierarchy.topLevelGroups setup.totalJobs := by
  refine ⟨rfl, List.mem_map.2 ⟨k, List.mem_range.2 ?_, rfl⟩⟩
  rw [Setup.totalJobs, Nat.min_self]
  exact hk

/-- A run comes to its end when every worker has had enough turns, and a run that has come to its
end reports the groups resolved one by one. Runs before it make no difference. -/
structure Reports (setup : Setup σ) (results : GroupId → Except StoreFault Job) (store : σ) :
    Prop where
  ends : ∃ enough, ∀ earlier run,
    (∀ i < setup.config.workers, enough ≤ run.turns.countP fun turn => turn.worker = i) →
      (setup.after run (setup.storeAfter earlier store)).isDone
  sums : ∀ earlier run, (setup.after run (setup.storeAfter earlier store)).isDone →
    SumsUp (setup.hierarchy.topLevelGroups setup.totalJobs) results
      (setup.outcome run (setup.storeAfter earlier store)).report

/-- A run goes on until it is over or each worker has had so many turns. -/
def Setup.Lasts (setup : Setup σ) (run : Schedule) (store : σ) (turns : Nat) : Prop :=
  Pool.Lasts (State.step setup) State.isDone setup.config.workers run.turns
    (setup.initial run.begun store) turns

/-- Workers that take turns in rotation follow a schedule that lasts. -/
theorem exists_runWith_eq (setup : Setup σ) (now : Instant) (patience : Nat) (store : σ) :
    ∃ run : Schedule, Id.run (setup.runWith (pure now) patience store) = setup.outcome run store ∧
      setup.Lasts run store patience := by
  obtain ⟨schedule, hrotate, hlasts⟩ := Pool.exists_rotate_eq_exec now (State.step setup)
    State.isDone setup.config.workers patience (setup.initial now store)
  exact ⟨⟨now, schedule, now⟩, congrArg (State.finish · setup now) hrotate, hlasts⟩

section Run
variable {store : σ} (hread : setup.backend.ReadOnly answer states) (hstore : states store)
  (hends : ∀ root ∈ setup.hierarchy.topLevelGroups setup.totalJobs,
    (Job.start root).EndsWith setup.backend store (results root))
include hread hstore hends

omit hread hstore in
theorem jobAt_endsWith (k : Nat) (hk : k < setup.totalJobs) :
    (setup.jobAt k).EndsWith setup.backend store (results (setup.jobAt k).root) := by
  obtain ⟨hjob, hroot⟩ := start_mem_topLevelGroups hk
  rw [hjob]
  exact hends _ hroot

theorem states_storeAfter (earlier : List Schedule) : states (setup.storeAfter earlier store) := by
  suffices h : ∀ before, states before → states (setup.storeAfter earlier before) from h _ hstore
  induction earlier with
  | nil => exact fun _ hbefore => hbefore
  | cons run rest ih =>
    intro before hbefore
    apply ih
    exact (exists_accounted hread hstore (jobAt_endsWith hends) run hbefore).1.store

theorem reports (hpos : 0 < setup.config.workers) : Reports setup results store where
  ends := by
    -- What is left to do at the beginning depends neither on the clock nor on the store.
    refine ⟨(setup.initial default store).stepsLeft setup store, fun earlier run hturns => ?_⟩
    have hbefore := states_storeAfter hread hstore hends earlier
    refine isDone_of_enough hread hstore (jobAt_endsWith hends)
      (onTrack_initial run.begun hbefore) run.turns fun i hi => ?_
    rw [(dispatch_run setup run.begun _ run.turns).size] at hi
    exact hturns i hi
  sums := by
    intro earlier run hdone
    have hbefore := states_storeAfter hread hstore hends earlier
    obtain ⟨-, taken, ha⟩ :=
      exists_accounted hread hstore (jobAt_endsWith hends) run hbefore
    exact sumsUp_of_done (dispatch_run setup run.begun _ run.turns) hpos ha hdone run.ended

end Run

/-- Where lookups only read, the report of a run is that of the groups resolved one after the other,
for every number of workers and every order of their steps. -/
theorem report_eq_sequential {backend : Backend σ} {h : Hierarchy} {config : RunConfig}
    (hmake : Setup.make backend h config = .ok setup) (hread : backend.ReadOnly answer states)
    {store : σ} (hstore : states store)
    (hends : ∀ root ∈ h.topLevelGroups h.topLevelGroupCount.toNat,
      (Job.start root).EndsWith backend store (results root)) :
    Reports setup results store := by
  obtain ⟨hpos, rfl⟩ := make_eq_ok hmake
  exact reports hread hstore hends hpos

/-- Three groups over two. Each has a user and a subgroup, except for the last group of the first
level, which cannot be looked up. -/
def stumblingBackend : Backend Unit where
  write _ s := (.ok (), s)
  lookup batch s :=
    (if batch.contains (.encode 1 3) then .error (.lookupRefused (.encode 1 3))
      else .ok (batch.flatMap fun group =>
        if group.level = 2 then [(.encode 0 1, .user), (.encode 1 group.number, .subgroup)]
        else [(.encode 0 group.number, .user)]), s)

def stumblingResults (root : GroupId) : Except StoreFault Job :=
  ((Job.resolve stumblingBackend 3 (.start root) ()).1.ended?).getD (.error default)

def stumblingSetup : Setup Unit where
  backend := stumblingBackend
  hierarchy := { tripleSetup.hierarchy with levelCount := 2 }
  config := { workers := 2 }

/-- Two workers in turns. -/
def inTurns : Schedule where
  begun := default
  turns := (List.range 100).map fun k => ⟨k % 2, default⟩
  ended := default

theorem stumbling_report_eq_sequential :
    Setup.make stumblingBackend stumblingSetup.hierarchy { workers := 2 } = .ok stumblingSetup ∧
      Reports stumblingSetup stumblingResults () ∧
      (stumblingSetup.after inTurns (stumblingSetup.storeAfter [inTurns] ())).isDone ∧
      (stumblingSetup.outcome inTurns ()).report.jobs = 2 ∧
      (stumblingSetup.outcome inTurns ()).report.failures = 1 := by
  have hmake : Setup.make stumblingBackend stumblingSetup.hierarchy { workers := 2 } =
      .ok stumblingSetup := by rfl
  have hread : stumblingBackend.ReadOnly (fun batch => (stumblingBackend.lookup batch ()).1)
      fun _ => True := ⟨fun _ _ _ => rfl, fun _ _ _ => trivial⟩
  have hends : ∀ root ∈ stumblingSetup.hierarchy.topLevelGroups 3,
      (Job.start root).EndsWith stumblingBackend () (stumblingResults root) := by
    have hsome : ∀ root ∈ stumblingSetup.hierarchy.topLevelGroups 3,
        ((Job.resolve stumblingBackend 3 (.start root) ()).1.ended?).isSome := by
      decide +kernel
    intro root hroot
    obtain ⟨result, hresult⟩ := Option.isSome_iff_exists.1 (hsome root hroot)
    refine ⟨3, ?_⟩
    rw [stumblingResults, hresult, Option.getD_some]
  refine ⟨hmake, report_eq_sequential hmake hread trivial hends, ?_, ?_, ?_⟩ <;> decide +kernel

end GroupBench.Select
