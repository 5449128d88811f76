import GroupBench.Proofs.Fill.Snapshots
import GroupBench.Proofs.Plan.LevelStarts

/-! Fill runs with one worker. A worker that has the plan to itself takes its units one after the
other, so that its run is told by a journal with few kinds of steps: a unit is claimed, the window
of the level before is closed if it begins a level, it is written, and a window that is due is
closed. -/
namespace GroupBench

namespace Fill
variable {σ : Type}

/-- The window that an event closes, and the occasion. -/
def Event.closing? : Event → Option (Occasion × Snapshot)
  | .closed occasion snapshot => some (occasion, snapshot)
  | .started | .entering _ | .wrote .. => none

/-- The windows that were closed, in the order of the events, each with its occasion. -/
def closings (events : List Event) : List (Occasion × Snapshot) := events.filterMap Event.closing?

theorem snapshots_eq_map (events : List Event) :
    snapshots events = (closings events).map Prod.snd := by
  rw [snapshots, closings, List.map_filterMap]
  refine List.filterMap_congr fun e _ => ?_
  cases e <;> rfl

/-- The index at which a level begins. -/
def Occasion.levelStart? : Occasion → Option UInt64
  | .levelStart k _ => some k
  | .due .. | .finish => none

/-- The level starts at which windows were closed. -/
def forced (lines : List (Occasion × Snapshot)) : List UInt64 :=
  lines.filterMap fun x => x.1.levelStart?

/-- How far a worker has come with the unit that it claimed last. -/
inductive Phase
  | between
  /-- The window of the level before has yet to be closed. -/
  | entering (k : UInt64) (a : Address)
  | holding (k : UInt64) (a : Address)
  | written (k : UInt64) (a : Address)
  | out

namespace Phase

def index? : Phase → Option UInt64
  | .entering k _ | .holding k _ | .written k _ => some k
  | .between | .out => none

/-- The unit that has yet to be written. -/
def unit? : Phase → Option Address
  | .entering _ a | .holding _ a => some a
  | .between | .written .. | .out => none

/-- The level start at which a window has yet to be closed. -/
def start? : Phase → Option UInt64
  | .entering k _ => some k
  | .between | .holding .. | .written .. | .out => none

/-- A worker has claimed a unit. -/
def claimed (plan : FillPlan) (k : UInt64) (a : Address) : Phase :=
  if plan.isLevelStart k then .entering k a else .holding k a

variable {plan : FillPlan} {k : UInt64} {a : Address}

@[simp] theorem index?_claimed : (claimed plan k a).index? = some k := by
  rw [claimed]
  split <;> rfl

@[simp] theorem unit?_claimed : (claimed plan k a).unit? = some a := by
  rw [claimed]
  split <;> rfl

@[simp] theorem start?_claimed :
    (claimed plan k a).start? = if plan.isLevelStart k then some k else none := by
  rw [claimed]
  split <;> rfl

@[simp] theorem claimed_ne_out : claimed plan k a ≠ .out := by
  rw [claimed]
  split <;> exact nofun

end Phase

def PC.phase : PC → Phase
  | .starting | .claiming | .folded => .between
  | .crossing k a => .entering k a
  | .crossed k a | .timing k a | .writing k a _ => .holding k a
  | .recording k a _ _ | .checking k a | .folding k a => .written k a
  | .leaving | .done => .out

/-- What a run with one worker is told by: the next index, how far the worker has come, what was
handed to the store and which windows were closed, latest first. -/
structure Journal where
  next : UInt64
  phase : Phase
  handed : List (Address × Except StoreFault Unit)
  closings : List (Occasion × Snapshot)

def State.journal (s : State σ) (w : Worker) : Journal :=
  ⟨s.next, w.pc.phase, handed s.events, closings s.events⟩

namespace Journal

inductive Step (plan : FillPlan) : Journal → Journal → Prop
  | claim {next handed closings} (a : Address) : plan.address next = some a →
      Step plan ⟨next, .between, handed, closings⟩
        ⟨next + 1, .claimed plan next a, handed, closings⟩
  | overrun {next handed closings} : plan.address next = none →
      Step plan ⟨next, .between, handed, closings⟩ ⟨next + 1, .out, handed, closings⟩
  | cross {next handed closings k a} (snapshot : Snapshot) :
      Step plan ⟨next, .entering k a, handed, closings⟩
        ⟨next, .holding k a, handed, (.levelStart k a, snapshot) :: closings⟩
  | write {next handed closings k a} (result : Except StoreFault Unit) :
      Step plan ⟨next, .holding k a, handed, closings⟩
        ⟨next, .written k a, (a, result) :: handed, closings⟩
  | finish {next handed closings k a} :
      Step plan ⟨next, .written k a, handed, closings⟩ ⟨next, .between, handed, closings⟩
  | due {next handed closings k a} (snapshot : Snapshot) :
      Step plan ⟨next, .written k a, handed, closings⟩
        ⟨next, .between, handed, (.due k a, snapshot) :: closings⟩

end Journal

section Steps
variable {setup : Setup σ} {s : State σ} {w : Worker} {k : UInt64} {a : Address}

/-- A turn of the one worker leaves the journal as it is or is one of its steps. A window that is
closed leaves nothing that the totals do not know of. -/
structure Notes (plan : FillPlan) (s : State σ) (w : Worker) (t : State σ) (v : Worker) : Prop where
  workers : t.workers = [v]
  journal : t.journal v = s.journal w ∨ Journal.Step plan (s.journal w) (t.journal v)
  owed : closings t.events = closings s.events ∨ v.owed = 0

variable (hs : s.workers = [w])
include hs

theorem workers_setWorker (v : Worker) : (s.setWorker 0 v).workers = [v] := by
  rw [State.setWorker, hs]
  rfl

theorem notes_quiet (plan : FillPlan) {v : Worker} (hphase : v.pc.phase = w.pc.phase) :
    Notes plan s w (s.setWorker 0 v) v where
  workers := workers_setWorker hs v
  journal := by
    left
    rw [State.journal, State.journal, hphase]
    rfl
  owed := .inl rfl

theorem claim_notes (hpc : w.pc = .claiming) :
    ∃ v, Notes setup.plan s w (s.claim setup.plan 0 w) v := by
  have hbefore : s.journal w = ⟨s.next, .between, handed s.events, closings s.events⟩ := by
    rw [State.journal, hpc]
    rfl
  rw [State.claim]
  split
  · rename_i hnone
    exact ⟨{ w with pc := .leaving }, workers_setWorker hs _, .inr (hbefore ▸ .overrun hnone),
      .inl rfl⟩
  · rename_i a ha
    have hstep : Journal.Step setup.plan (s.journal w)
        ⟨s.next + 1, .claimed setup.plan s.next a, handed s.events, closings s.events⟩ :=
      hbefore ▸ .claim a ha
    rw [Phase.claimed] at hstep
    split
    · rename_i hstart
      rw [if_pos hstart] at hstep
      exact ⟨{ w with pc := .crossing s.next a }, workers_setWorker hs _, .inr hstep, .inl rfl⟩
    · rename_i hstart
      rw [if_neg hstart] at hstep
      exact ⟨{ w with pc := .timing s.next a }, workers_setWorker hs _, .inr hstep, .inl rfl⟩

theorem cross_notes (plan : FillPlan) (now : Instant) (hpc : w.pc = .crossing k a) :
    ∃ v, Notes plan s w (s.cross now 0 w k a) v := by
  have hbefore : s.journal w = ⟨s.next, .entering k a, handed s.events, closings s.events⟩ := by
    rw [State.journal, hpc]
    rfl
  exact ⟨{ w with pc := .crossed k a, sample := .empty }, workers_setWorker hs _,
    .inr (hbefore ▸ .cross _), .inr rfl⟩

theorem write_notes {begun : Instant} (hpc : w.pc = .writing k a begun) :
    ∃ v, Notes setup.plan s w (s.write setup 0 w k a begun) v := by
  have hbefore : s.journal w = ⟨s.next, .holding k a, handed s.events, closings s.events⟩ := by
    rw [State.journal, hpc]
    rfl
  exact ⟨{ w with pc := .recording k a begun _ }, workers_setWorker hs _,
    .inr (hbefore ▸ .write _), .inl rfl⟩

theorem foldDue_notes (plan : FillPlan) (now : Instant) (hpc : w.pc = .folding k a) :
    ∃ v, Notes plan s w (s.foldDue now 0 w k a) v := by
  have hbefore : s.journal w = ⟨s.next, .written k a, handed s.events, closings s.events⟩ := by
    rw [State.journal, hpc]
    rfl
  refine ⟨{ w with pc := .folded, sample := .empty }, ?_⟩
  rw [State.foldDue]
  rcases (s.window.fold w.sample).takeIfDue now with ⟨snapshot?, window⟩
  cases snapshot? with
  | none => exact ⟨workers_setWorker hs _, .inr (hbefore ▸ .finish), .inl rfl⟩
  | some snapshot => exact ⟨workers_setWorker hs _, .inr (hbefore ▸ .due snapshot), .inr rfl⟩

theorem step_notes (setup : Setup σ) (turn : Turn) :
    ∃ v, Notes setup.plan s w (s.step setup turn) v := by
  by_cases hturn : turn.worker = 0
  · have hw : s.workers[0]? = some w := by rw [hs]; rfl
    simp only [State.step, hturn, hw]
    cases hpc : w.pc with
    | claiming => exact claim_notes hs hpc
    | crossing k a => exact cross_notes hs setup.plan turn.now hpc
    | writing k a begun => exact write_notes hs hpc
    | folding k a => exact foldDue_notes hs setup.plan turn.now hpc
    | checking k a =>
      dsimp only
      split
      · exact ⟨_, notes_quiet hs setup.plan (by rw [hpc]; rfl)⟩
      · refine ⟨{ w with pc := .claiming }, workers_setWorker hs _, .inr ?_, .inl rfl⟩
        rw [State.journal, hpc]
        exact .finish
    | leaving =>
      refine ⟨{ w with pc := .done }, workers_setWorker hs _, .inl ?_, .inl rfl⟩
      rw [State.journal, State.journal, hpc]
      rfl
    | done => exact ⟨w, hs, .inl rfl, .inl rfl⟩
    | starting | crossed | timing | recording | folded =>
      exact ⟨_, notes_quiet hs setup.plan (by rw [hpc]; rfl)⟩
  · have hnone : s.workers[turn.worker]? = none := by
      rw [hs, List.getElem?_eq_none_iff]
      exact Nat.one_le_iff_ne_zero.2 hturn
    simp only [State.step, hnone]
    exact ⟨w, hs, .inl rfl, .inl rfl⟩

end Steps

namespace Journal
variable {plan : FillPlan} {h : Hierarchy} {id of : UInt32} {n : Nat} {j j' : Journal}

/-- What a journal says after `n` claims. -/
structure Sound (plan : FillPlan) (n : Nat) (j : Journal) : Prop where
  next : j.next = UInt64.ofNat n
  placed : j.phase.unit?.toList ++ j.handed.map Prod.fst = (plan.claimed n).reverse
  starts : j.phase.start?.toList ++ forced j.closings = (plan.levelStarts n).reverse
  index : ∀ k ∈ j.phase.index?, n = k.toNat + 1
  within : j.phase ≠ .out → plan.overruns n = 0
  out : j.phase = .out → ∃ m, n = m + 1 ∧ plan.overruns m = 0 ∧
    plan.address (UInt64.ofNat m) = none
  running : ∀ x ∈ j.closings, x.1 ≠ .finish

theorem sound_initial : (⟨0, .between, [], []⟩ : Journal).Sound plan 0 where
  next := rfl
  placed := rfl
  starts := rfl
  index := nofun
  within _ := rfl
  out := nofun
  running := nofun

/-- A window is closed when all units have been written that it takes for claimed. -/
theorem Sound.claimed_eq (hs : j.Sound plan n) (total : UInt64) (hstep : Step plan j j') :
    j'.closings = j.closings ∨
      ∃ x, j'.closings = x :: j.closings ∧ x.1.claimed total = j'.handed.length := by
  have hlength : j.phase.unit?.toList.length + j.handed.length = (plan.claimed n).length := by
    have hplaced := congrArg List.length hs.placed
    rwa [List.length_append, List.length_map, List.length_reverse] at hplaced
  have hclaimed := plan.length_claimed_add_overruns n
  cases hstep with
  | claim | overrun | write | finish => exact .inl rfl
  | @cross next handed closings k a snapshot =>
    have hn := hs.index k rfl
    have hall := hs.within nofun
    exact .inr ⟨_, rfl, show k.toNat = handed.length by
      simp only [Phase.unit?, Option.toList_some, List.length_singleton] at hlength
      omega⟩
  | @due next handed closings k a snapshot =>
    have hn := hs.index k rfl
    have hall := hs.within nofun
    exact .inr ⟨_, rfl, show k.toNat + 1 = handed.length by
      simp only [Phase.unit?, Option.toList_none, List.length_nil] at hlength
      omega⟩

theorem Step.handed_suffix (hstep : Step plan j j') : j.handed <:+ j'.handed := by
  cases hstep with
  | claim | overrun | cross | finish | due => exact List.suffix_rfl
  | write result => exact List.suffix_cons ..

variable (hmake : FillPlan.make h id of = .ok plan) (hfit : h.units id of < UInt64.size)
include hmake hfit

theorem Sound.step (hs : j.Sound plan n) (hstep : Step plan j j') :
    ∃ m, j'.Sound plan m := by
  cases hstep with
  | @claim next handed closings a ha =>
    obtain rfl := hs.next
    have hnone := hs.within nofun
    have hle := le_units_of_overruns hmake hfit hnone
    have hword : (UInt64.ofNat n).toNat = n :=
      UInt64.toNat_ofNat_of_lt' (Nat.lt_of_le_of_lt hle hfit)
    refine ⟨n + 1, UInt64.ofNat_add n 1 ▸ rfl, ?_, ?_, ?_, ?_, ?_, hs.running⟩
    · rw [FillPlan.claimed_succ, List.reverse_append, ← hs.placed, ha, Phase.unit?_claimed]
      rfl
    · rw [FillPlan.levelStarts_succ, List.reverse_append, ← hs.starts, Phase.start?_claimed]
      split <;> rfl
    · rw [Phase.index?_claimed]
      rintro k ⟨⟩
      exact congrArg (· + 1) hword.symm
    · intro _
      rw [FillPlan.overruns_succ, hnone, ha]
      rfl
    · exact fun hout => absurd hout Phase.claimed_ne_out
  | @overrun next handed closings hnone =>
    obtain rfl := hs.next
    refine ⟨n + 1, UInt64.ofNat_add n 1 ▸ rfl, ?_, ?_, nofun, fun hin => absurd rfl hin,
      fun _ => ⟨n, rfl, hs.within nofun, hnone⟩, hs.running⟩
    · rw [FillPlan.claimed_succ, hnone, Option.toList_none, List.append_nil]
      exact hs.placed
    · rw [FillPlan.levelStarts_succ, isLevelStart_eq_false hmake hfit hnone,
        if_neg Bool.false_ne_true, List.append_nil]
      exact hs.starts
  | cross snapshot =>
    exact ⟨n, hs.next, hs.placed, hs.starts, hs.index, fun _ => hs.within nofun, nofun,
      List.forall_mem_cons.2 ⟨nofun, hs.running⟩⟩
  | write result =>
    exact ⟨n, hs.next, hs.placed, hs.starts, hs.index, fun _ => hs.within nofun, nofun, hs.running⟩
  | finish =>
    exact ⟨n, hs.next, hs.placed, hs.starts, nofun, fun _ => hs.within nofun, nofun, hs.running⟩
  | due snapshot =>
    exact ⟨n, hs.next, hs.placed, hs.starts, nofun, fun _ => hs.within nofun, nofun,
      List.forall_mem_cons.2 ⟨nofun, hs.running⟩⟩

end Journal

/-- The answers to some writes, counted. -/
def tallyAll (given : List (Address × Except StoreFault Unit)) : Nat × Nat :=
  (given.map fun x => tallyOf x.2).sum

theorem tallyAll_reverse (given : List (Address × Except StoreFault Unit)) :
    tallyAll given.reverse = tallyAll given := by
  rw [tallyAll, tallyAll, List.map_reverse, List.sum_reverse]

/-- Each window, together with those before it, holds the answers to as many writes as it takes for
claimed. -/
def AddsUp (total : UInt64) (given : List (Address × Except StoreFault Unit))
    (lines : List (Occasion × Snapshot)) : Prop :=
  ∀ earlier x, earlier ++ [x] <+: lines → x.1.claimed total ≤ given.length ∧
    (Snapshot.mergeAll ((earlier ++ [x]).map Prod.snd)).tally =
      tallyAll (given.take (x.1.claimed total))

section AddsUp
variable {total : UInt64} {given given' : List (Address × Except StoreFault Unit)}
  {lines : List (Occasion × Snapshot)} {x : Occasion × Snapshot}

theorem AddsUp.mono (hl : AddsUp total given lines) (hgiven : given <+: given') :
    AddsUp total given' lines := by
  intro earlier x hx
  obtain ⟨hle, htally⟩ := hl earlier x hx
  obtain ⟨rest, rfl⟩ := hgiven
  rw [List.take_append_of_le_length hle]
  exact ⟨hle.trans (by simp), htally⟩

theorem AddsUp.concat (hl : AddsUp total given lines) (hx : x.1.claimed total = given.length)
    (htally : (Snapshot.mergeAll ((lines ++ [x]).map Prod.snd)).tally = tallyAll given) :
    AddsUp total given (lines ++ [x]) := by
  intro earlier y hy
  rcases List.prefix_concat_iff.1 hy with he | hy
  · obtain ⟨rfl, hlast⟩ := List.append_inj' he rfl
    obtain rfl := List.singleton_inj.1 hlast
    rw [hx, List.take_length]
    exact ⟨Nat.le_refl _, htally⟩
  · exact hl earlier y hy

end AddsUp

/-- What is known of a run in which worker `w` is the only one. -/
structure Alone (setup : Setup σ) (s : State σ) (w : Worker) : Prop where
  workers : s.workers = [w]
  sound : ∃ n, (s.journal w).Sound setup.plan n
  tallied : Tallied s
  covers : s.window.Covers (snapshots s.events)
  addsUp : AddsUp setup.plan.totalUnits (handed s.events).reverse (closings s.events).reverse

/-- When the totals are in the windows and the one worker has nothing else, the windows hold all
answers. -/
theorem tally_closings {s : State σ} {w : Worker} (hworkers : s.workers = [w]) (howed : w.owed = 0)
    (htallied : Tallied s) (htotals : Snapshot.mergeAll (snapshots s.events) = s.window.totals) :
    (Snapshot.mergeAll ((closings s.events).reverse.map Prod.snd)).tally =
      tallyAll (handed s.events).reverse := by
  rw [Tallied, hworkers, List.map_singleton, List.sum_singleton, howed, add_zero] at htallied
  rw [List.map_reverse, Snapshot.mergeAll_reverse, ← snapshots_eq_map, htotals, htallied,
    tallyAll_reverse, tallyAll]

section Alone
variable {setup : Setup σ} {s : State σ} {w : Worker}

theorem alone_initial (hworkers : setup.config.workers = 1) (now : Instant) (store : σ) :
    Alone setup (setup.initial now store) {} where
  workers := by
    rw [Setup.initial, hworkers]
    rfl
  sound := ⟨0, Journal.sound_initial⟩
  tallied := tallied_run setup now store []
  covers := StatsWindow.covers_opened ..
  addsUp := by
    intro earlier x hx
    exact absurd (List.prefix_nil.1 hx) (List.concat_ne_nil x earlier)

variable (hmake : FillPlan.make setup.plan.hierarchy setup.config.instanceId
    setup.config.instanceCount = .ok setup.plan)
  (hfit : setup.plan.hierarchy.units setup.config.instanceId setup.config.instanceCount <
    UInt64.size)
include hmake hfit

theorem Alone.step (ha : Alone setup s w) (turn : Turn) :
    ∃ v, Alone setup (s.step setup turn) v := by
  obtain ⟨v, hworkers, hjournal, howed⟩ := step_notes ha.workers setup turn
  obtain ⟨n, hsound⟩ := ha.sound
  have htallied : Tallied (s.step setup turn) := tallied_step ha.tallied turn
  have hwindow := step_window setup s turn
  have hcovers := ha.covers.step hwindow
  refine ⟨v, ?_⟩
  rcases hjournal with hsame | hstep
  · refine ⟨hworkers, ⟨n, hsame ▸ hsound⟩, htallied, hcovers, ?_⟩
    have hhanded : handed (s.step setup turn).events = handed s.events :=
      congrArg Journal.handed hsame
    have hclosings : closings (s.step setup turn).events = closings s.events :=
      congrArg Journal.closings hsame
    rw [hhanded, hclosings]
    exact ha.addsUp
  · refine ⟨hworkers, hsound.step hmake hfit hstep, htallied, hcovers, ?_⟩
    have haddsUp : AddsUp setup.plan.totalUnits (handed (s.step setup turn).events).reverse
        (closings s.events).reverse := ha.addsUp.mono (List.reverse_prefix.2 hstep.handed_suffix)
    rcases hsound.claimed_eq setup.plan.totalUnits hstep with hclosings | ⟨x, hclosings, hclaimed⟩
    · rw [show closings (s.step setup turn).events = closings s.events from hclosings]
      exact haddsUp
    · -- The window was closed, so the totals know of all that the worker has done.
      have hnew : closings (s.step setup turn).events = x :: closings s.events := hclosings
      have hnone : v.owed = 0 :=
        howed.resolve_left fun hsame => List.cons_ne_self x _ (hnew.symm.trans hsame)
      have htotals : Snapshot.mergeAll (snapshots (s.step setup turn).events) =
          (s.step setup turn).window.totals := by
        rcases ha.covers.mergeAll_eq hwindow with hsame | ⟨_, -, htotals⟩
        · rw [snapshots_eq_map, snapshots_eq_map, hnew, List.map_cons] at hsame
          exact absurd hsame (List.cons_ne_self _ _)
        · exact htotals
      have htally := tally_closings hworkers hnone htallied htotals
      rw [hnew, List.reverse_cons] at htally ⊢
      exact haddsUp.concat (hclaimed.trans (List.length_reverse ..).symm) htally

theorem exists_alone (hworkers : setup.config.workers = 1) (run : Schedule) (store : σ) :
    ∃ w, Alone setup (setup.after run store) w := by
  refine Pool.exec_induction (P := fun s => ∃ w, Alone setup s w) ?_
    ⟨_, alone_initial hworkers run.begun store⟩ run.turns
  rintro s turn ⟨w, ha⟩
  exact ha.step hmake hfit turn

/-- When the one worker has left, its writes and the level starts were those of the plan. -/
theorem Alone.ended (ha : Alone setup s w) (hdone : s.isDone) :
    ((handed s.events).reverse.map Prod.fst =
        setup.plan.claimed setup.plan.totalUnits.toNat) ∧
      forced (closings s.events).reverse = setup.plan.levelStarts setup.plan.totalUnits.toNat ∧
      ∀ x ∈ (closings s.events).reverse, x.1 ≠ .finish := by
  obtain ⟨n, hsound⟩ := ha.sound
  have hpc : w.pc = .done := State.isDone_iff.1 hdone w (ha.workers ▸ List.mem_singleton_self w)
  have hphase : (s.journal w).phase = .out := by
    rw [State.journal, hpc]
    rfl
  obtain ⟨m, rfl, hfirst, hnone⟩ := hsound.out hphase
  have hm : m = setup.plan.totalUnits.toNat := by
    have hle := le_units_of_overruns hmake hfit hfirst
    have hover := (address_eq_none_iff hmake hfit).1 hnone
    rw [UInt64.toNat_ofNat_of_lt' (Nat.lt_of_le_of_lt hle hfit)] at hover
    rw [(plan_tiled hmake hfit).1]
    omega
  have hplaced := hsound.placed
  have hstarts := hsound.starts
  rw [hphase, FillPlan.claimed_succ, hnone, Option.toList_none, List.append_nil] at hplaced
  rw [hphase, FillPlan.levelStarts_succ, isLevelStart_eq_false hmake hfit hnone,
    if_neg Bool.false_ne_true, List.append_nil] at hstarts
  rw [← hm, List.map_reverse, forced, List.filterMap_reverse]
  refine ⟨List.reverse_eq_iff.2 hplaced, List.reverse_eq_iff.2 hstarts, fun x hx => ?_⟩
  exact hsound.running x (List.mem_reverse.1 hx)

end Alone

end Fill

end GroupBench
