import GroupBench.Proofs.Fill.Progress

/-! A complete fill run hands every write of its plan to the store, whatever the schedule, and
reports how the store answered. It does so exactly once, unless the counter goes round before all
workers have left. -/
namespace GroupBench

theorem RunConfig.validate_eq_ok_iff {c : RunConfig} : c.validate = .ok () ↔
    0 < c.workers ∧ c.instanceId ≠ 0 ∧ c.instanceId ≤ c.instanceCount := by
  rw [validate, Nat.pos_iff_ne_zero]
  split
  · simp [*]
  split
  · rename_i hcount
    refine iff_of_false (by simp) ?_
    rintro ⟨-, hid, hle⟩
    rw [hcount] at hle
    exact hid (UInt32.le_zero_iff.1 hle)
  split
  · rename_i houtside
    simp only [Bool.or_eq_true, decide_eq_true_eq] at houtside
    refine iff_of_false (by simp) ?_
    rintro ⟨-, hid, hle⟩
    exact UInt32.not_lt.2 hle (houtside.resolve_left hid)
  · rename_i hworkers _ hinside
    simp only [Bool.or_eq_true, decide_eq_true_eq, not_or, UInt32.not_lt] at hinside
    exact iff_of_true rfl ⟨hworkers, hinside⟩

/-- What an address asks a store for: the row of its group at slot zero, and an edge of the group at
every other slot. -/
inductive FillPlan.Asks (plan : FillPlan) : Address → Write → Prop
  | row (level : UInt16) (group : UInt32) : Asks plan ⟨level, group, 0⟩ (.group level group)
  | edge {level : UInt16} {group slot : UInt32} : slot ≠ 0 →
    Asks plan ⟨level, group, slot⟩
      (.member level group slot (plan.isSubgroup ⟨level, group, slot⟩))

theorem FillPlan.asks_write (plan : FillPlan) (a : Address) : plan.Asks a (plan.write a) := by
  obtain ⟨level, group, slot⟩ := a
  by_cases hrow : slot = 0
  · subst hrow
    exact .row level group
  · have hwrite : plan.write ⟨level, group, slot⟩ =
        .member level group slot (plan.isSubgroup ⟨level, group, slot⟩) := by
      simp [FillPlan.write, Address.isGroupRow, hrow]
    rw [hwrite]
    exact .edge hrow

namespace Fill
variable {σ : Type}

/-- The store was given each write of the instance so many times and no other one, a group row for
slot zero and an edge for every other slot. The report counts its answers. -/
structure HandedOver (h : Hierarchy) (setup : Setup σ) (times : Nat) (before : σ)
    (o : Outcome σ) : Prop where
  given : setup.backend.writeAll ((handed o.events).map fun x => setup.plan.write x.1) before =
    ((handed o.events).map Prod.snd, o.store)
  asks : ∀ x ∈ handed o.events, setup.plan.Asks x.1 (setup.plan.write x.1)
  count : ∀ a, ((handed o.events).map Prod.fst).count a =
    if h.Owns setup.config.instanceId setup.config.instanceCount a then times else 0
  operations : o.report.operations = (handed o.events).countP fun x => x.2.isOk
  failures : o.report.failures = (handed o.events).countP fun x => !x.2.isOk
  units : o.report.units.toNat = h.units setup.config.instanceId setup.config.instanceCount
  attempts : o.report.operations + o.report.failures = times * o.report.units.toNat

theorem make_eq_ok {backend : Backend σ} {h : Hierarchy} {config : RunConfig} {setup : Setup σ}
    (hmake : Setup.make backend h config = .ok setup) :
    0 < config.workers ∧ setup.config = config ∧ setup.plan.hierarchy = h ∧
      FillPlan.make h config.instanceId config.instanceCount = .ok setup.plan := by
  rw [Setup.make] at hmake
  split at hmake
  · cases hmake
  · rename_i hvalid
    cases hplan : FillPlan.make h config.instanceId config.instanceCount with
    | error fault =>
      rw [hplan] at hmake
      cases hmake
    | ok plan =>
      rw [hplan] at hmake
      cases hmake
      obtain ⟨-, -, rfl⟩ := make_eq_ok_iff.1 hplan
      exact ⟨(RunConfig.validate_eq_ok_iff.1 hvalid).1, rfl, rfl, rfl⟩

theorem exists_make_eq_ok {σ : Type} {config : RunConfig} (backend : Backend σ) (h : Hierarchy)
    (hvalid : config.validate = .ok ()) :
    ∃ setup, Setup.make backend h config = .ok setup ∧ setup.config = config := by
  obtain ⟨-, hid, hle⟩ := RunConfig.validate_eq_ok_iff.1 hvalid
  rw [Setup.make, hvalid, make_eq_ok_iff.2 ⟨hid, hle, rfl⟩]
  exact ⟨_, rfl, rfl⟩

theorem sum_tallyOf (answers : List (Address × Except StoreFault Unit)) :
    (answers.map fun x => tallyOf x.2).sum =
      (answers.countP fun x => x.2.isOk, answers.countP fun x => !x.2.isOk) := by
  induction answers with
  | nil => rfl
  | cons x answers ih =>
    obtain ⟨a, result⟩ := x
    rw [List.map_cons, List.sum_cons, ih]
    cases result <;> simp [tallyOf, Except.isOk, Except.toBool, Nat.add_comm]

section Done
variable {setup : Setup σ} {s : State σ} {n : Nat} (hdone : s.isDone)
include hdone

theorem tally_of_done (ht : Tallied s) : s.window.totals.tally =
    ((handed s.events).countP fun x => x.2.isOk, (handed s.events).countP fun x => !x.2.isOk) := by
  have howed : (s.workers.map Worker.owed).sum = 0 := by
    apply List.sum_eq_zero
    simp only [List.mem_map, forall_exists_index, and_imp, forall_apply_eq_imp_iff₂]
    intro w hw
    rw [Worker.owed, State.isDone_iff.1 hdone w hw]
  rw [← sum_tallyOf, ← ht, howed, add_zero]

theorem handed_of_done (hc : Claims setup n s) :
    ((handed s.events).map Prod.fst).Perm (setup.plan.claimed n) := by
  have hheld : s.workers.filterMap (·.pc.unit?) = [] := by
    refine List.filterMap_eq_nil_iff.2 fun w hw => ?_
    rw [State.isDone_iff.1 hdone w hw]
    rfl
  simpa only [hheld, List.nil_append] using hc.placed

/-- When all workers have left, each has made one claim that led to nothing, the last one of all
among them. -/
theorem overruns_of_done (hc : Claims setup n s) (hw : 0 < setup.config.workers) :
    ∃ m, n = m + 1 ∧ (setup.plan.address (UInt64.ofNat m)).isNone ∧
      setup.plan.overruns (m + 1) = setup.config.workers := by
  have hout : s.workers.countP (·.pc.isOut) = s.workers.length := by
    refine List.countP_eq_length.2 fun w hw => ?_
    rw [State.isDone_iff.1 hdone w hw]
    rfl
  have hover : setup.plan.overruns n = setup.config.workers :=
    hc.out.symm.trans (hout.trans hc.size)
  cases n with
  | zero =>
    simp [FillPlan.overruns] at hover
    omega
  | succ m =>
    refine ⟨m, rfl, ?_, hover⟩
    by_contra hnone
    have hsome : (setup.plan.address (UInt64.ofNat m)).isSome :=
      Option.isSome_iff_ne_none.2 fun he => hnone (Option.isNone_iff_eq_none.2 he)
    have := hc.last m rfl hsome
    omega

end Done

theorem handed_outcome (setup : Setup σ) (run : Schedule) (before : σ) :
    handed (setup.outcome run before).events =
      (handed (setup.after run before).events).reverse := by
  rw [Setup.outcome, State.finish, State.emit, handed, List.filterMap_reverse]
  rfl

/-- A run that has ended has handed its writes over, as often as the claims went round. -/
theorem handedOver_of_done {setup : Setup σ} (hworkers : 0 < setup.config.workers)
    (hplan : FillPlan.make setup.plan.hierarchy setup.config.instanceId
      setup.config.instanceCount = .ok setup.plan)
    (hfit : setup.plan.hierarchy.units setup.config.instanceId setup.config.instanceCount <
      UInt64.size)
    (run : Schedule) (before : σ) (hdone : (setup.after run before).isDone) :
    HandedOver setup.plan.hierarchy setup (setup.plan.laps setup.config.workers) before
      (setup.outcome run before) := by
  obtain ⟨n, hc⟩ := exists_claims setup run.begun before run.turns
  have hs : Stored setup before (setup.after run before) :=
    stored_run setup run.begun before run.turns
  have ht := tally_of_done hdone (tallied_run setup run.begun before run.turns)
  have hperm := handed_of_done hdone hc
  obtain ⟨m, rfl, hlast, hover⟩ := overruns_of_done hdone hc hworkers
  have hevents := handed_outcome setup run before
  have hcount : (setup.outcome run before).report.operations =
      (handed (setup.after run before).events).countP fun x => x.2.isOk := congrArg Prod.fst ht
  have hfailed : (setup.outcome run before).report.failures =
      (handed (setup.after run before).events).countP fun x => !x.2.isOk := congrArg Prod.snd ht
  have hunits := (plan_tiled hplan hfit).1
  refine ⟨?_, fun x _ => setup.plan.asks_write x.1, ?_, ?_, ?_, hunits, ?_⟩
  · rw [hevents]
    exact hs
  · intro a
    rw [hevents, List.map_reverse, List.count_reverse, hperm.count_eq]
    split
    · rename_i howns
      obtain ⟨k, ha⟩ := (owns_iff_exists_index hplan hfit).1 howns
      rw [count_claimed_laps hplan hfit hlast ha, hover]
    · rename_i hforeign
      refine List.count_eq_zero.2 fun hm => hforeign ?_
      obtain ⟨j, -, ha⟩ := List.mem_filterMap.1 hm
      exact (owns_iff_exists_index hplan hfit).2 ⟨_, ha⟩
  · rw [hcount, hevents, List.countP_reverse]
  · rw [hfailed, hevents, List.countP_reverse]
  · calc (setup.outcome run before).report.operations + (setup.outcome run before).report.failures
        = (handed (setup.after run before).events).length := by
          rw [hcount, hfailed, List.length_eq_countP_add_countP fun x => x.2.isOk]
          simp
      _ = (setup.plan.claimed (m + 1)).length := by rw [← hperm.length_eq, List.length_map]
      _ = setup.plan.laps setup.config.workers * setup.plan.totalUnits.toNat := by
          rw [length_claimed_laps hplan hfit hlast, hover, hunits]

/-- A configuration that is valid has a run that comes to its end. -/
theorem exists_complete_run {h : Hierarchy} {config : RunConfig} (backend : Backend σ)
    (hvalid : config.validate = .ok ())
    (hfit : h.units config.instanceId config.instanceCount < UInt64.size) (before : σ) :
    ∃ setup run, Setup.make backend h config = .ok setup ∧ (setup.after run before).isDone ∧
      HandedOver h setup (setup.plan.laps config.workers) before (setup.outcome run before) := by
  obtain ⟨setup, hmake, -⟩ := exists_make_eq_ok backend h hvalid
  obtain ⟨hworkers, rfl, rfl, hplan⟩ := make_eq_ok hmake
  obtain ⟨run, -, hlasts⟩ := exists_runWith_eq setup default before
  have hdone := isDone_of_lasts hplan hfit hlasts
  exact ⟨setup, run, hmake, hdone, handedOver_of_done hworkers hplan hfit run before hdone⟩

/-- Every complete run, on whatever store the runs before it left, gives each write of the instance
to the store as often as the others, and just once if a word can count them along with the workers,
each of which claims one index past the end. -/
theorem complete_run_hands_over {backend : Backend σ} {h : Hierarchy} {config : RunConfig}
    {setup : Setup σ} (hmake : Setup.make backend h config = .ok setup)
    (hfit : h.units config.instanceId config.instanceCount < UInt64.size)
    (earlier : List Schedule) (run : Schedule) (store : σ)
    (hdone : (setup.after run (setup.storeAfter earlier store)).isDone) :
    HandedOver h setup (setup.plan.laps config.workers) (setup.storeAfter earlier store)
        (setup.outcome run (setup.storeAfter earlier store)) ∧
      (setup.plan.laps config.workers = 1 ↔
        h.units config.instanceId config.instanceCount + config.workers ≤ UInt64.size) := by
  obtain ⟨hw, rfl, rfl, hplan⟩ := make_eq_ok hmake
  exact ⟨handedOver_of_done hw hplan hfit run _ hdone, laps_eq_one_iff hplan hfit hw⟩

/-- Two levels of one group each, with five writes in all. -/
def pairHierarchy : Hierarchy where
  levelCount := 2
  groupCount _ := 1
  leafMemberCount _ := 1
  subgroupCount level := if level ≤ 1 then 0 else 1
  userPoolSize := 3
  subgroupCount_low _ hlow := if_pos hlow

/-- Keeps what it accepts, and turns the first user of each group down. -/
def pickyBackend : Backend (List Write) where
  write w s := if w.address.slot = 1 then (.error (.writeRefused w.level), s) else (.ok (), w :: s)
  lookup _ s := (.ok [], s)

def pairSetup : Setup (List Write) where
  backend := pickyBackend
  plan := ⟨pairHierarchy, [⟨1, 0, 1, 2, 0⟩, ⟨2, 0, 1, 3, 2⟩], 5⟩
  config := { workers := 2 }

/-- Two workers in turns. -/
def inTurns : Schedule where
  begun := default
  turns := (List.range 60).map fun k => ⟨k % 2, default⟩
  ended := default

theorem pair_run_hands_over :
    Setup.make pickyBackend pairHierarchy { workers := 2 } = .ok pairSetup ∧
      pairHierarchy.units 1 1 = 5 ∧
      (pairSetup.after inTurns (pairSetup.storeAfter [inTurns] [])).isDone ∧
      HandedOver pairHierarchy pairSetup 1 (pairSetup.storeAfter [inTurns] [])
        (pairSetup.outcome inTurns (pairSetup.storeAfter [inTurns] [])) := by
  have hmake : Setup.make pickyBackend pairHierarchy { workers := 2 } = .ok pairSetup := by rfl
  have hunits : pairHierarchy.units 1 1 = 5 := by decide +kernel
  have hfit : pairHierarchy.units 1 1 < UInt64.size := hunits.symm ▸ (by decide)
  have hroom : pairHierarchy.units 1 1 + 2 ≤ UInt64.size := hunits.symm ▸ (by decide)
  have hdone : (pairSetup.after inTurns (pairSetup.storeAfter [inTurns] [])).isDone := by
    decide +kernel
  obtain ⟨hrun, honce⟩ := complete_run_hands_over hmake hfit [inTurns] inTurns [] hdone
  rw [honce.2 hroom] at hrun
  exact ⟨hmake, hunits, hdone, hrun⟩

/-- Many levels of as many groups, with one write fewer than there are words. -/
def vastHierarchy : Hierarchy :=
  { pairHierarchy with
    levelCount := 1043
    groupCount _ := 341721267
    leafMemberCount _ := 51756320
    userPoolSize := 341721267 }

theorem units_vastHierarchy : vastHierarchy.units 1 1 + 1 = UInt64.size := by decide +kernel

/-- A single word is left for the claims past the last unit. One of two workers leaves with it, and
the other one finds the counter at zero again. -/
theorem vast_run_goes_round_twice : ∃ (setup : Setup Unit) (run : Schedule),
    Setup.make .null vastHierarchy { workers := 2 } = .ok setup ∧
      vastHierarchy.units 1 1 < UInt64.size ∧ (setup.after run ()).isDone ∧
      (∀ a, vastHierarchy.Owns 1 1 a →
        ((handed (setup.outcome run ()).events).map Prod.fst).count a = 2) ∧
      ¬ HandedOver vastHierarchy setup 1 () (setup.outcome run ()) := by
  have hunits := units_vastHierarchy
  have hfit : vastHierarchy.units 1 1 < UInt64.size := by omega
  have hvalid : ({ workers := 2 } : RunConfig).validate = .ok () := by rfl
  obtain ⟨setup, run, hmake, hdone, hover⟩ := exists_complete_run .null hvalid hfit ()
  obtain ⟨-, hconfig, -, hplan⟩ := make_eq_ok hmake
  have hlaps : setup.plan.laps 2 = 2 := by
    rw [FillPlan.laps, (plan_tiled hplan hfit).1, ← hunits, Nat.add_sub_cancel_left]
  change HandedOver vastHierarchy setup (setup.plan.laps 2) () _ at hover
  rw [hlaps] at hover
  have htwice (a : Address) (howns : vastHierarchy.Owns 1 1 a) :
      ((handed (setup.outcome run ()).events).map Prod.fst).count a = 2 := by
    rw [hover.count, hconfig, if_pos howns]
  refine ⟨setup, run, hmake, hfit, hdone, htwice, fun honce => ?_⟩
  have howns : vastHierarchy.Owns 1 1 ⟨1, 0, 0⟩ := by decide
  have hcount := honce.count ⟨1, 0, 0⟩
  rw [htwice _ howns, hconfig, if_pos howns] at hcount
  cases hcount

end Fill

end GroupBench
