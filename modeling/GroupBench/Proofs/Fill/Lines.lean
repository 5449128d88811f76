import Mathlib.Data.List.Forall2
import GroupBench.Proofs.Fill.OneWorker
import GroupBench.Proofs.Fill.Progress

/-! The progress lines of fill runs with one worker. What the lines say of the writes adds up to
what their percentages are taken of, and as long as no period passes there is a line for every
level. -/
namespace GroupBench

/-- The entries at consecutive places. -/
theorem filter_eq_take_drop {α : Type} {p : α → Bool} {l : List α} {first count : Nat}
    (hp : ∀ k, ∀ hk : k < l.length, p l[k] ↔ first ≤ k ∧ k < first + count) :
    l.filter p = (l.drop first).take count := by
  have hbefore : (l.take first).filter p = [] := by
    refine List.filter_eq_nil_iff.2 fun x hx => ?_
    obtain ⟨k, hk, rfl⟩ := List.getElem_of_mem hx
    rw [List.length_take] at hk
    rw [List.getElem_take, hp k (by omega)]
    omega
  have hmiddle : ((l.drop first).take count).filter p = (l.drop first).take count := by
    refine List.filter_eq_self.2 fun x hx => ?_
    obtain ⟨k, hk, rfl⟩ := List.getElem_of_mem hx
    rw [List.length_take, List.length_drop] at hk
    rw [List.getElem_take, List.getElem_drop, hp (first + k) (by omega)]
    omega
  have hafter : ((l.drop first).drop count).filter p = [] := by
    refine List.filter_eq_nil_iff.2 fun x hx => ?_
    obtain ⟨k, hk, rfl⟩ := List.getElem_of_mem hx
    rw [List.length_drop, List.length_drop] at hk
    rw [List.getElem_drop, List.getElem_drop, hp (first + (count + k)) (by omega)]
    omega
  calc l.filter p
      = (l.take first ++ ((l.drop first).take count ++ (l.drop first).drop count)).filter p := by
        rw [List.take_append_drop, List.take_append_drop]
    _ = (l.drop first).take count := by
        rw [List.filter_append, List.filter_append, hbefore, hmiddle, hafter, List.nil_append,
          List.append_nil]

namespace Fill
variable {σ : Type}

/-- The percentage of a progress line. -/
def Occasion.hundredths (total : UInt64) (occasion : Occasion) : Nat :=
  percent (min (occasion.claimed total) total.toNat) total.toNat

theorem progressText_eq (figures : Figures) (plan : FillPlan) (occasion : Occasion)
    (snapshot : Snapshot) : ∃ rest, progressText figures plan occasion snapshot =
      s!"[fill-data {percentText (occasion.hundredths plan.totalUnits)}%] level: " ++ rest := by
  unfold progressText
  simp only [String.append_assoc]
  exact ⟨_, rfl⟩

theorem hundredths_mono {total : UInt64} {earlier later : Occasion}
    (hle : earlier.claimed total ≤ later.claimed total) :
    earlier.hundredths total ≤ later.hundredths total :=
  percent_mono _ (min_le_min_right _ hle)

theorem hundredths_finish (total : UInt64) : Occasion.finish.hundredths total = 100 := by
  rw [Occasion.hundredths, Occasion.claimed, Nat.min_self, percent_self]

theorem hundredths_le (total : UInt64) (occasion : Occasion) : occasion.hundredths total ≤ 100 := by
  rw [← hundredths_finish total, Occasion.hundredths, Occasion.hundredths, Occasion.claimed,
    Nat.min_self]
  exact percent_mono _ (Nat.min_le_right ..)

theorem tallyAll_append (given later : List (Address × Except StoreFault Unit)) :
    tallyAll (given ++ later) = tallyAll given + tallyAll later := by
  rw [tallyAll, tallyAll, tallyAll, List.map_append, List.sum_append]

theorem tallyAll_attempts (given : List (Address × Except StoreFault Unit)) :
    (tallyAll given).1 + (tallyAll given).2 = given.length := by
  rw [tallyAll, sum_tallyOf, List.length_eq_countP_add_countP fun x => x.2.isOk]
  simp

/-- Level starts and no other indices are forced. -/
theorem map_claimed_of_forced (total : UInt64) {lines : List (Occasion × Snapshot)}
    (hlines : ∀ x ∈ lines, x.1.levelStart?.isSome) :
    lines.map (·.1.claimed total) = (forced lines).map UInt64.toNat := by
  induction lines with
  | nil => rfl
  | cons x rest ih =>
    have hrest := ih fun y hy => hlines y (List.mem_cons_of_mem _ hy)
    have hx := hlines x List.mem_cons_self
    obtain ⟨occasion, snapshot⟩ := x
    cases occasion with
    | levelStart k a => exact congrArg (k.toNat :: ·) hrest
    | due | finish => cases hx

namespace AddsUp
variable {total : UInt64} {given : List (Address × Except StoreFault Unit)}
  {lines earlier : List (Occasion × Snapshot)} {x : Occasion × Snapshot}

theorem attempts (hl : AddsUp total given lines) (hx : earlier ++ [x] <+: lines) :
    ((earlier ++ [x]).map fun y => y.2.sample.count + y.2.sample.failures).sum =
      x.1.claimed total := by
  obtain ⟨hle, htally⟩ := hl earlier x hx
  have hsum := Sample.attempts_sum (((earlier ++ [x]).map Prod.snd).map Snapshot.sample)
  rw [List.map_map, List.map_map] at hsum
  calc ((earlier ++ [x]).map fun y => y.2.sample.count + y.2.sample.failures).sum
      = (Snapshot.mergeAll ((earlier ++ [x]).map Prod.snd)).attempts := by
        rw [Snapshot.mergeAll, List.map_map]
        exact hsum.symm
    _ = (tallyAll (given.take (x.1.claimed total))).1 +
          (tallyAll (given.take (x.1.claimed total))).2 := by
        rw [← htally]
        rfl
    _ = x.1.claimed total := by
        rw [tallyAll_attempts, List.length_take, Nat.min_eq_left hle]

theorem pairwise (hl : AddsUp total given lines) :
    lines.Pairwise fun x y => x.1.claimed total ≤ y.1.claimed total := by
  have hsum (i : Nat) (hi : i < lines.length) :
      ((lines.take (i + 1)).map fun y => y.2.sample.count + y.2.sample.failures).sum =
        lines[i].1.claimed total := by
    rw [← List.take_append_getElem hi]
    refine hl.attempts ?_
    rw [List.take_append_getElem hi]
    exact List.take_prefix ..
  refine List.pairwise_iff_getElem.2 fun i j hi hj hij => ?_
  obtain ⟨rest, hrest⟩ : lines.take (i + 1) <+: lines.take (j + 1) :=
    List.take_prefix_take_left (by omega)
  rw [← hsum i hi, ← hsum j hj, ← hrest, List.map_append, List.sum_append]
  exact Nat.le_add_right ..

/-- Windows that are closed where spans end hold the answers to the writes of the spans. -/
theorem forall₂_spans (earlier : List (Occasion × Snapshot)) {first stop : Nat}
    {spans : List LevelSpan} (ht : Tiled first spans stop)
    (hl : AddsUp total given (earlier ++ lines))
    (hearlier : (Snapshot.mergeAll (earlier.map Prod.snd)).tally = tallyAll (given.take first))
    (hends : lines.map (·.1.claimed total) =
      spans.map fun span => span.offset.toNat + span.count) :
    List.Forall₂ (fun span x => x.2.sample.tally =
      tallyAll ((given.drop span.offset.toNat).take span.count)) spans lines := by
  induction ht generalizing earlier lines with
  | nil =>
    obtain rfl := List.map_eq_nil_iff.1 hends
    exact .nil
  | @cons first stop span spans _ ho _ ih =>
    obtain ⟨x, rest, rfl, hend, hrest⟩ := List.map_eq_cons_iff.1 hends
    have hx : x.1.claimed total = first + span.count := ho ▸ hend
    have hsplit : earlier ++ x :: rest = (earlier ++ [x]) ++ rest := by simp
    rw [hsplit] at hl
    obtain ⟨-, htally⟩ := hl earlier x (List.prefix_append ..)
    rw [hx] at htally
    refine .cons ?_ (ih _ hl htally hrest)
    have hmerge : (Snapshot.mergeAll ((earlier ++ [x]).map Prod.snd)).tally =
        (Snapshot.mergeAll (earlier.map Prod.snd)).tally + x.2.sample.tally := by
      rw [Snapshot.mergeAll, Snapshot.mergeAll, List.map_append, List.map_append, List.sum_append,
        List.map_singleton, List.map_singleton, List.sum_singleton]
      rfl
    rw [hmerge, hearlier, List.take_add, tallyAll_append] at htally
    rw [ho]
    exact add_left_cancel htally

end AddsUp

def Occasion.isDue : Occasion → Bool
  | .due .. => true
  | .levelStart .. | .finish => false

/-- A window that is closed before the end is closed at a level start or when it is due. -/
theorem Occasion.isSome_levelStart {occasion : Occasion} (hdue : occasion.isDue = false)
    (hfinish : occasion ≠ .finish) : occasion.levelStart?.isSome := by
  cases occasion with
  | levelStart => rfl
  | due => cases hdue
  | finish => exact absurd rfl hfinish

/-- No window was closed because a period had passed. -/
def Undue (lines : List (Occasion × Snapshot)) : Prop := ∀ x ∈ lines, x.1.isDue = false

/-- A run that is over before its first period is. -/
def Schedule.Within (run : Schedule) (period : Duration) : Prop :=
  ∀ turn ∈ run.turns, run.begun.nanos ≤ turn.now.nanos ∧ ¬ period ≤ turn.now.since run.begun

/-- There is a line for each level with work, and it holds the answers to the writes there. Without
any work there is a line all the same. -/
structure LinePerLevel (h : Hierarchy) (id of : UInt32)
    (given : List (Address × Except StoreFault Unit)) (lines : List (Occasion × Snapshot)) :
    Prop where
  length : lines.length = max 1 (h.workLevels id of).length
  answers : h.workLevels id of ≠ [] → List.Forall₂ (fun level x =>
    x.2.sample.tally = tallyAll (given.filter fun y => y.1.level = level) ∧
      x.2.sample.count + x.2.sample.failures = h.levelUnits id of level) (h.workLevels id of) lines

/-- The lines of a run that is over, when it had one worker. -/
structure TellsAll (h : Hierarchy) (setup : Setup σ) (o : Outcome σ) : Prop where
  total : setup.plan.totalUnits.toNat =
    h.units setup.config.instanceId setup.config.instanceCount
  inOrder : (handed o.events).map Prod.fst = setup.plan.claimed setup.plan.totalUnits.toNat
  addsUp : AddsUp setup.plan.totalUnits (handed o.events) (closings o.events)
  attempts : ∀ earlier x, earlier ++ [x] <+: closings o.events →
    ((earlier ++ [x]).map fun y => y.2.sample.count + y.2.sample.failures).sum =
      x.1.claimed setup.plan.totalUnits
  ascending : (closings o.events).Pairwise fun x y =>
    x.1.hundredths setup.plan.totalUnits ≤ y.1.hundredths setup.plan.totalUnits
  /-- A word can hold what a percentage is computed from. -/
  bounded : ∀ x ∈ closings o.events, x.1.hundredths setup.plan.totalUnits ≤ 100 ∧
    x.1.claimed setup.plan.totalUnits * 100 < UInt64.size
  shown : ∀ figures, ∀ x ∈ closings o.events, ∃ rest, ⟨.info,
    s!"[fill-data {percentText (x.1.hundredths setup.plan.totalUnits)}%] level: " ++ rest⟩ ∈
      o.lines figures setup
  last : ∀ figures, ∃ rest, (o.lines figures setup).getLast? =
    some ⟨.info, s!"[fill-data {percentText 100}%] level: " ++ rest⟩
  /-- Level starts are forced one after the other, each of them once. -/
  forced : Fill.forced (closings o.events) = setup.plan.levelStarts setup.plan.totalUnits.toNat
  count_forced : ∀ k, (Fill.forced (closings o.events)).count k =
    if setup.plan.isLevelStart k then 1 else 0
  finish : ∃ earlier snapshot, closings o.events = earlier ++ [(.finish, snapshot)] ∧
    ∀ x ∈ earlier, x.1 ≠ .finish
  levels : Undue (closings o.events) →
    LinePerLevel h setup.config.instanceId setup.config.instanceCount (handed o.events)
      (closings o.events)

section Outcome
variable {setup : Setup σ}

theorem closings_outcome (setup : Setup σ) (run : Schedule) (store : σ) :
    closings (setup.outcome run store).events =
      (closings (setup.after run store).events).reverse ++
        [(.finish, ((setup.after run store).window.take run.ended).1)] := by
  rw [Setup.outcome, State.finish, closings, List.filterMap_reverse]
  exact List.reverse_cons

theorem mem_lines (figures : Figures) {o : Outcome σ} {x : Occasion × Snapshot}
    (hx : x ∈ closings o.events) :
    ⟨.info, progressText figures setup.plan x.1 x.2⟩ ∈ o.lines figures setup := by
  obtain ⟨e, he, hclosing⟩ := List.mem_filterMap.1 hx
  refine List.mem_filterMap.2 ⟨e, he, ?_⟩
  cases e with
  | closed occasion snapshot =>
    obtain rfl := Option.some.inj hclosing
    rfl
  | started | entering | wrote => cases hclosing

theorem getLast_lines (figures : Figures) (s : State σ) (now : Instant) :
    ((s.finish setup.plan now).lines figures setup).getLast? = some ⟨.info,
      progressText figures setup.plan .finish (s.window.take now).1⟩ := by
  rw [Outcome.lines, State.finish, List.filterMap_reverse, List.getLast?_reverse]
  rfl

variable (hmake : FillPlan.make setup.plan.hierarchy setup.config.instanceId
    setup.config.instanceCount = .ok setup.plan)
  (hfit : setup.plan.hierarchy.units setup.config.instanceId setup.config.instanceCount <
    UInt64.size)
include hmake hfit

theorem count_levelStarts (k : UInt64) :
    (setup.plan.levelStarts setup.plan.totalUnits.toNat).count k =
      if setup.plan.isLevelStart k then 1 else 0 := by
  rw [(plan_tiled hmake hfit).1, levelStarts_units hmake hfit]
  have hnodup := starts_nodup hmake hfit
  simp only [isLevelStart_iff_mem hmake hfit]
  split
  · rename_i hm
    exact List.count_eq_one_of_mem hnodup hm
  · rename_i hm
    exact List.count_eq_zero_of_not_mem hm

theorem length_claimed {given : List (Address × Except StoreFault Unit)}
    (hgiven : given.map Prod.fst = setup.plan.claimed setup.plan.totalUnits.toNat) :
    given.length = setup.plan.totalUnits.toNat := by
  have hall := congrArg List.length (map_some_claimed hmake hfit (plan_tiled hmake hfit).1.le)
  rwa [← hgiven, List.length_map, List.length_map, List.length_map, List.length_range] at hall

/-- The writes at a level are those of its span. -/
theorem filter_level {given : List (Address × Except StoreFault Unit)} {span : LevelSpan}
    (hgiven : given.map Prod.fst = setup.plan.claimed setup.plan.totalUnits.toNat)
    (hm : span ∈ setup.plan.spans) :
    (given.filter fun y => y.1.level = span.level) =
      (given.drop span.offset.toNat).take span.count := by
  refine filter_eq_take_drop fun k hk => ?_
  have hall := map_some_claimed hmake hfit (plan_tiled hmake hfit).1.le
  rw [← hgiven, List.map_map] at hall
  have hlength := length_claimed hmake hfit hgiven
  have haddress : setup.plan.address (UInt64.ofNat k) = some given[k].1 := by
    have hget := congrArg (fun l => l[k]?) hall
    simp only [List.getElem?_map, List.getElem?_range (hlength ▸ hk),
      List.getElem?_eq_getElem hk] at hget
    exact (Option.some.inj hget).symm
  have hword : (UInt64.ofNat k).toNat = k :=
    UInt64.toNat_ofNat_of_lt' ((hlength ▸ hk).trans setup.plan.totalUnits.toNat_lt)
  rw [decide_eq_true_eq, level_eq_iff_has hmake hfit hm haddress, hword, LevelSpan.Has]

/-- Lines that are closed where levels end. -/
theorem linePerLevel {given : List (Address × Except StoreFault Unit)}
    {lines : List (Occasion × Snapshot)}
    (hgiven : given.map Prod.fst = setup.plan.claimed setup.plan.totalUnits.toNat)
    (hl : AddsUp setup.plan.totalUnits given lines)
    (hends : lines.map (·.1.claimed setup.plan.totalUnits) =
      (setup.plan.levelStarts setup.plan.totalUnits.toNat).map UInt64.toNat ++
        [setup.plan.totalUnits.toNat]) :
    LinePerLevel setup.plan.hierarchy setup.config.instanceId setup.config.instanceCount given
      lines := by
  have htiled := busy_tiled hmake hfit
  have hlevels := busy_levels hmake hfit
  have hlength := length_claimed hmake hfit hgiven
  rw [(plan_tiled hmake hfit).1] at hlength
  rw [(plan_tiled hmake hfit).1, levelStarts_units hmake hfit, List.map_map] at hends
  cases hbusy : setup.plan.busy with
  | nil =>
    rw [hbusy] at hends hlevels
    have hone := congrArg List.length hends
    rw [List.length_map] at hone
    refine ⟨?_, fun hne => absurd hlevels.symm hne⟩
    rw [hone, ← hlevels]
    rfl
  | cons span rest =>
    rw [hbusy] at hends htiled hlevels
    have hspans := AddsUp.forall₂_spans [] htiled hl rfl (hends.trans htiled.ends_eq.symm)
    refine ⟨?_, fun _ => ?_⟩
    · rw [← hspans.length_eq, ← hlevels, List.length_map, List.length_cons]
      omega
    · rw [← hlevels, List.forall₂_map_left_iff]
      refine ((List.forall₂_and_left _ _).2 ⟨fun _ hm => hm, hspans⟩).imp fun x y hy => ?_
      obtain ⟨hm, htally⟩ := hy
      have hends := (htiled.bounds hm).2
      rw [← hbusy] at hm
      have hspan := ((mem_busy hmake hfit).1 hm).1
      rw [filter_level hmake hfit hgiven hspan]
      refine ⟨htally, ?_⟩
      calc y.2.sample.count + y.2.sample.failures
          = (tallyAll ((given.drop x.offset.toNat).take x.count)).1 +
              (tallyAll ((given.drop x.offset.toNat).take x.count)).2 := by
            rw [← htally]
            rfl
        _ = setup.plan.hierarchy.levelUnits setup.config.instanceId setup.config.instanceCount
              x.level := by
            rw [tallyAll_attempts, List.length_take, List.length_drop, hlength,
              ← count_of_mem hmake hspan]
            omega

theorem Alone.addsUp_outcome {w : Worker} {run : Schedule} {store : σ}
    (ha : Alone setup (setup.after run store) w) (hdone : (setup.after run store).isDone) :
    AddsUp setup.plan.totalUnits (handed (setup.outcome run store).events)
      (closings (setup.outcome run store).events) := by
  obtain ⟨hgiven, -⟩ := ha.ended hmake hfit hdone
  have hlength := length_claimed hmake hfit hgiven
  have hanswers := (each_in_one_window setup run store).answers hdone
  rw [snapshots_eq_map, ← sum_tallyOf] at hanswers
  rw [closings_outcome] at hanswers ⊢
  rw [handed_outcome] at hanswers ⊢
  exact ha.addsUp.concat hlength.symm hanswers

theorem Alone.tellsAll {w : Worker} {run : Schedule} {store : σ}
    (ha : Alone setup (setup.after run store) w) (hdone : (setup.after run store).isDone)
    (hhundred : setup.plan.hierarchy.units setup.config.instanceId setup.config.instanceCount *
      100 < UInt64.size) :
    TellsAll setup.plan.hierarchy setup (setup.outcome run store) := by
  obtain ⟨hgiven, hforced, hrunning⟩ := ha.ended hmake hfit hdone
  have hclosings := closings_outcome setup run store
  have haddsUp := ha.addsUp_outcome hmake hfit hdone
  rw [← handed_outcome] at hgiven
  have hlength := length_claimed hmake hfit hgiven
  have hstarts : forced (closings (setup.outcome run store).events) =
      setup.plan.levelStarts setup.plan.totalUnits.toNat := by
    rw [hclosings, forced, List.filterMap_append, ← hforced]
    exact List.append_nil _
  refine ⟨(plan_tiled hmake hfit).1, hgiven, haddsUp, fun _ _ => haddsUp.attempts,
    haddsUp.pairwise.imp hundredths_mono, fun x hx => ⟨hundredths_le .., ?_⟩,
    fun figures x hx => ?_, fun figures => ?_, hstarts, fun k => ?_,
    ⟨_, _, hclosings, hrunning⟩, fun hundue => ?_⟩
  · obtain ⟨earlier, later, hsplit⟩ := List.append_of_mem hx
    obtain ⟨hle, -⟩ := haddsUp earlier x ⟨later, by rw [hsplit]; simp⟩
    rw [hlength, (plan_tiled hmake hfit).1] at hle
    exact Nat.lt_of_le_of_lt (Nat.mul_le_mul_right 100 hle) hhundred
  · obtain ⟨rest, htext⟩ := progressText_eq figures setup.plan x.1 x.2
    exact ⟨rest, htext ▸ mem_lines figures hx⟩
  · obtain ⟨rest, htext⟩ := progressText_eq figures setup.plan .finish
      ((setup.after run store).window.take run.ended).1
    rw [hundredths_finish] at htext
    exact ⟨rest, htext ▸ getLast_lines figures _ run.ended⟩
  · rw [hstarts, count_levelStarts hmake hfit]
  · refine linePerLevel hmake hfit hgiven haddsUp ?_
    rw [hclosings] at hundue ⊢
    rw [List.map_append, map_claimed_of_forced, hforced]
    · rfl
    · intro x hx
      exact Occasion.isSome_levelStart (hundue x (List.mem_append_left _ hx)) (hrunning x hx)

end Outcome

/-- The windows of a run in its first period. -/
structure Early (setup : Setup σ) (begun : Instant) (s : State σ) : Prop where
  period : s.window.period = setup.config.statsPeriod
  opened : begun.nanos ≤ s.window.windowStarted.nanos
  undue : Undue (closings s.events)

section Early
variable {setup : Setup σ} {begun now : Instant} {s : State σ} {i : Nat} {w : Worker} {k : UInt64}
  {a : Address}

theorem Early.not_isDue (he : Early setup begun s)
    (hnow : ¬ setup.config.statsPeriod ≤ now.since begun) : s.window.isDue now = false := by
  refine decide_eq_false fun hdue => hnow ?_
  rw [he.period] at hdue
  have hopened := he.opened
  refine Nat.le_trans hdue ?_
  rw [Instant.since, Instant.since, Duration.nanos_ofNanos, Duration.nanos_ofNanos]
  omega

theorem Early.foldDue (he : Early setup begun s)
    (hnow : ¬ setup.config.statsPeriod ≤ now.since begun) :
    Early setup begun (s.foldDue now i w k a) := by
  have hdue : (s.window.fold w.sample).isDue now = false := he.not_isDue hnow
  rw [State.foldDue, StatsWindow.takeIfDue, hdue]
  exact ⟨he.period, he.opened, he.undue⟩

theorem Early.claim (he : Early setup begun s) : Early setup begun (s.claim setup.plan i w) := by
  rw [State.claim]
  split
  · exact ⟨he.period, he.opened, he.undue⟩
  · split <;> exact ⟨he.period, he.opened, he.undue⟩

theorem Early.step (he : Early setup begun s) {turn : Turn} (hbegun : begun.nanos ≤ turn.now.nanos)
    (hnow : ¬ setup.config.statsPeriod ≤ turn.now.since begun) :
    Early setup begun (s.step setup turn) := by
  cases hw : s.workers[turn.worker]? with
  | none =>
    rw [State.step, hw]
    exact he
  | some w =>
    simp only [State.step, hw]
    cases w.pc with
    | claiming => exact he.claim
    | crossing k a => exact ⟨he.period, hbegun, List.forall_mem_cons.2 ⟨rfl, he.undue⟩⟩
    | folding k a => exact he.foldDue hnow
    | checking k a =>
      dsimp only
      split <;> exact ⟨he.period, he.opened, he.undue⟩
    | starting | crossed | timing | writing | recording | folded | leaving | done =>
      exact ⟨he.period, he.opened, he.undue⟩

theorem undue_of_within {run : Schedule} (hwithin : run.Within setup.config.statsPeriod)
    (store : σ) : Undue (closings (setup.outcome run store).events) := by
  have hearly (turns : List Turn) (hturns : turns ⊆ run.turns) {s : State σ}
      (hs : Early setup run.begun s) :
      Early setup run.begun (Pool.exec (State.step setup) turns s) := by
    induction turns generalizing s with
    | nil => exact hs
    | cons turn rest ih =>
      obtain ⟨hturn, hrest⟩ := List.cons_subset.1 hturns
      obtain ⟨hbegun, hnow⟩ := hwithin turn hturn
      exact ih hrest (hs.step hbegun hnow)
  have hundue := (hearly run.turns (List.Subset.refl _)
    (s := setup.initial run.begun store) ⟨rfl, Int.le_refl _, nofun⟩).undue
  rw [closings_outcome]
  intro x hx
  rcases List.mem_append.1 hx with hx | hx
  · exact hundue x (List.mem_reverse.1 hx)
  · rw [List.mem_singleton.1 hx]
    rfl

end Early

/-- What the lines of a run with one worker say, at whatever point it stands. -/
structure LinesExact (h : Hierarchy) (setup : Setup σ) (run : Schedule) (store : σ) : Prop where
  soFar : ∀ earlier x, earlier ++ [x] <+: (closings (setup.after run store).events).reverse →
    ((earlier ++ [x]).map fun y => y.2.sample.count + y.2.sample.failures).sum =
      x.1.claimed setup.plan.totalUnits
  ends : setup.Lasts run store setup.roundsNeeded → (setup.after run store).isDone
  undue : run.Within setup.config.statsPeriod → Undue (closings (setup.outcome run store).events)
  ended : (setup.after run store).isDone → TellsAll h setup (setup.outcome run store)

/-- A worker that is alone reports exactly what it has done, whichever writes are turned down and
whenever a period is over. -/
theorem one_worker_lines_exact {backend : Backend σ} {h : Hierarchy} {config : RunConfig}
    {setup : Setup σ} (hmake : Setup.make backend h config = .ok setup)
    (hworkers : config.workers = 1)
    (hfit : h.units config.instanceId config.instanceCount * 100 < UInt64.size)
    (run : Schedule) (store : σ) : LinesExact h setup run store := by
  obtain ⟨-, rfl, rfl, hplan⟩ := make_eq_ok hmake
  have hless : setup.plan.hierarchy.units setup.config.instanceId setup.config.instanceCount <
      UInt64.size := by omega
  obtain ⟨w, ha⟩ := exists_alone hplan hless hworkers run store
  exact ⟨fun _ _ => ha.addsUp.attempts, isDone_of_lasts hplan hless,
    fun hwithin => undue_of_within hwithin store, fun hdone => ha.tellsAll hplan hless hdone hfit⟩

/-- One worker, with a reading of the clock at every turn. -/
def ticking : Schedule where
  begun := ⟨0⟩
  turns := (List.range 60).map fun k => ⟨0, ⟨k⟩⟩
  ended := ⟨60⟩

def loneConfig (period : Duration) : RunConfig := { workers := 1, statsPeriod := period }

def loneSetup (period : Duration) : Setup (List Write) :=
  ⟨pickyBackend, pairSetup.plan, loneConfig period⟩

/-- What a line shows first, and what it says of the writes. -/
def shownBy (x : Occasion × Snapshot) : Nat × Nat × Nat :=
  (x.1.hundredths 5, x.2.sample.count, x.2.sample.failures)

/-- The first period ends as the second level begins; a longer one is not over before the run is. -/
theorem ticking_lines_exact :
    (∀ period, Setup.make pickyBackend pairHierarchy (loneConfig period) =
        .ok (loneSetup period)) ∧
      (∀ period, (loneConfig period).workers = 1) ∧
      pairHierarchy.units 1 1 * 100 < UInt64.size ∧
      TellsAll pairHierarchy (loneSetup (.ofNanos 8))
        ((loneSetup (.ofNanos 8)).outcome ticking []) ∧
      (closings ((loneSetup (.ofNanos 8)).outcome ticking []).events).map shownBy =
        [(40, 1, 1), (40, 0, 0), (80, 1, 1), (100, 1, 0)] ∧
      ticking.Within (.ofNanos 100) ∧
      LinePerLevel pairHierarchy 1 1
        (handed ((loneSetup (.ofNanos 100)).outcome ticking []).events)
        (closings ((loneSetup (.ofNanos 100)).outcome ticking []).events) ∧
      (closings ((loneSetup (.ofNanos 100)).outcome ticking []).events).map shownBy =
        [(40, 1, 1), (100, 2, 1)] := by
  have hplan : FillPlan.make pairHierarchy 1 1 = .ok pairSetup.plan := by rfl
  have hmake (period : Duration) : Setup.make pickyBackend pairHierarchy (loneConfig period) =
      .ok (loneSetup period) := by
    have hvalid : (loneConfig period).validate = .ok () :=
      RunConfig.validate_eq_ok_iff.2 ⟨Nat.one_pos, show (1 : UInt32) ≠ 0 by decide,
        show (1 : UInt32) ≤ 1 by decide⟩
    rw [Setup.make, hvalid]
    change (FillPlan.make pairHierarchy 1 1).map _ = _
    rw [hplan]
    rfl
  have hunits : pairHierarchy.units 1 1 = 5 := by decide +kernel
  have hfit : pairHierarchy.units 1 1 * 100 < UInt64.size := hunits.symm ▸ (by decide)
  have hexact (period : Duration) :=
    one_worker_lines_exact (hmake period) rfl hfit ticking []
  have hdone : ((loneSetup (.ofNanos 8)).after ticking []).isDone := by decide +kernel
  have hdone' : ((loneSetup (.ofNanos 100)).after ticking []).isDone := by decide +kernel
  have hwithin : ticking.Within (.ofNanos 100) := by
    rw [Schedule.Within]
    decide +kernel
  exact ⟨hmake, fun _ => rfl, hfit, (hexact _).ended hdone, by decide +kernel, hwithin,
    ((hexact _).ended hdone').levels ((hexact _).undue hwithin), by decide +kernel⟩

end Fill

end GroupBench
