import Mathlib.Algebra.BigOperators.Group.List.Basic
import Mathlib.Tactic.Abel
import GroupBench.Proofs.Fill.Accounts
import GroupBench.Proofs.Plan.Laps

/-! The books of a fill run. Whatever the schedule, every index claimed so far is held by a worker
or handed to the store, the store has been given exactly what the events say, and the window and the
samples together know of every answer. -/
namespace GroupBench

/-- Writes handed to a store one after the other, and its answers. -/
def Backend.writeAll {σ : Type} (backend : Backend σ) :
    List Write → σ → List (Except StoreFault Unit) × σ
  | [], s => ([], s)
  | w :: rest, s =>
    let (result, s) := backend.write w s
    let (results, s) := backend.writeAll rest s
    (result :: results, s)

theorem Backend.writeAll_append {σ : Type} (backend : Backend σ) (ws : List Write) (w : Write)
    (s : σ) : backend.writeAll (ws ++ [w]) s =
      ((backend.writeAll ws s).1 ++ [(backend.write w (backend.writeAll ws s).2).1],
        (backend.write w (backend.writeAll ws s).2).2) := by
  induction ws generalizing s with
  | nil => rfl
  | cons v ws ih => simp only [List.cons_append, writeAll, ih]

namespace Fill
variable {σ : Type} {setup : Setup σ} {before : σ} {n : Nat} {s t : State σ} {i : Nat} {w : Worker}

/-- After `n` claims, each unit claimed is with one worker or at the store, and each claim that led
to nothing has put one worker out. The claim before the last worker went out led to nothing. -/
structure Claims (setup : Setup σ) (n : Nat) (s : State σ) : Prop where
  next : s.next = UInt64.ofNat n
  size : s.workers.length = setup.config.workers
  placed : (s.workers.filterMap (·.pc.unit?) ++ (handed s.events).map Prod.fst).Perm
    (setup.plan.claimed n)
  out : s.workers.countP (·.pc.isOut) = setup.plan.overruns n
  last : ∀ m, n = m + 1 → (setup.plan.address (UInt64.ofNat m)).isSome →
    s.workers.countP (·.pc.isOut) < s.workers.length

theorem claims_initial (now : Instant) (store : σ) :
    Claims setup 0 (setup.initial now store) where
  next := rfl
  size := List.length_replicate
  placed := by
    have hheld : (List.replicate setup.config.workers ({} : Worker)).filterMap (·.pc.unit?) = [] :=
      List.filterMap_eq_nil_iff.2 fun w hw => by
        rw [List.eq_of_mem_replicate hw]
        rfl
    simp [Setup.initial, hheld, handed, Event.handed?, FillPlan.claimed]
  out := by
    simp only [Setup.initial, FillPlan.overruns, List.range_zero, List.countP_nil]
    refine List.countP_eq_zero.2 fun w hw => ?_
    rw [List.eq_of_mem_replicate hw]
    decide
  last := by
    intro m hm
    omega

/-- The units held by the other workers, and how many of the others are out. -/
theorem exists_others_standing {workers : List Worker} (hw : workers[i]? = some w) :
    ∃ units out, out < workers.length ∧
      (workers.filterMap (·.pc.unit?)).Perm (w.pc.unit?.toList ++ units) ∧
      workers.countP (·.pc.isOut) = out + (if w.pc.isOut then 1 else 0) ∧
      ∀ v : Worker, ((workers.set i v).filterMap (·.pc.unit?)).Perm (v.pc.unit?.toList ++ units) ∧
        (workers.set i v).countP (·.pc.isOut) = out + (if v.pc.isOut then 1 else 0) := by
  obtain ⟨others, hperm, hset⟩ := Pool.exists_others hw
  refine ⟨others.filterMap (·.pc.unit?), others.countP (·.pc.isOut), ?_, ?_, ?_, fun v => ⟨?_, ?_⟩⟩
  · rw [hperm.length_eq, List.length_cons]
    exact Nat.lt_succ_of_le List.countP_le_length
  · have hheld := hperm.filterMap (·.pc.unit?)
    rwa [Pool.filterMap_cons_toList] at hheld
  · rw [← List.countP_cons]
    exact hperm.countP_eq _
  · have hheld := (hset v).filterMap (·.pc.unit?)
    rwa [Pool.filterMap_cons_toList] at hheld
  · rw [← List.countP_cons]
    exact (hset v).countP_eq _

theorem claims_effect (hc : Claims setup n s) (hw : s.workers[i]? = some w)
    (he : Effect setup s i w t) : ∃ m, (m = n ∨ m = n + 1) ∧ Claims setup m t := by
  obtain ⟨units, out, hlt, hheld, hout, hset⟩ := exists_others_standing hw
  have hsize (v : Worker) : (s.workers.set i v).length = setup.config.workers :=
    List.length_set.trans hc.size
  have hplaced := (hheld.append_right _).symm.trans hc.placed
  have hcount := hout.symm.trans hc.out
  have hlast := hc.last
  cases he with
  | quiet v hunit hisOut _ =>
    obtain ⟨hheld', hout'⟩ := hset v
    rw [hunit] at hheld'
    rw [hisOut, ← hout] at hout'
    refine ⟨n, .inl rfl, hc.next, hsize v, (hheld'.append_right _).trans hplaced,
      hout'.trans hc.out, ?_⟩
    simpa only [hout', List.length_set] using hlast
  | claimed a v events ha hunit hin hunit' hin' _ hevents =>
    obtain ⟨hheld', hout'⟩ := hset v
    rw [hc.next] at ha
    rw [hunit, Option.toList_none, List.nil_append] at hplaced
    rw [hunit'] at hheld'
    simp only [hin, hin', Bool.false_eq_true, ↓reduceIte, Nat.add_zero] at hout' hcount
    refine ⟨n + 1, .inr rfl, by rw [hc.next, UInt64.ofNat_add]; rfl, hsize v, ?_, ?_, ?_⟩
    · rw [FillPlan.claimed_succ, ha, hevents]
      exact (hheld'.append_right _).trans
        ((hplaced.cons a).trans (List.perm_append_singleton a _).symm)
    · simp [FillPlan.overruns_succ, ha, hout', hcount]
    · intro m _ _
      simpa only [hout', List.length_set] using hlt
  | overran v ha hunit hin hunit' hin' _ =>
    obtain ⟨hheld', hout'⟩ := hset v
    rw [hc.next] at ha
    rw [hunit, Option.toList_none, List.nil_append] at hplaced
    rw [hunit', Option.toList_none, List.nil_append] at hheld'
    simp only [hin, hin', Bool.false_eq_true, ↓reduceIte, Nat.add_zero] at hout' hcount
    refine ⟨n + 1, .inr rfl, by rw [hc.next, UInt64.ofNat_add]; rfl, hsize v, ?_, ?_, ?_⟩
    · rw [FillPlan.claimed_succ, ha, Option.toList_none, List.append_nil]
      exact (hheld'.append_right _).trans hplaced
    · simp [FillPlan.overruns_succ, ha, hout', hcount]
    · -- The last claim is this one, and it led to nothing.
      intro m hm hsome
      obtain rfl : n = m := Nat.succ.inj hm
      simp [ha] at hsome
  | wrote a v result store hunit hunit' hisOut hwrite _ =>
    obtain ⟨hheld', hout'⟩ := hset v
    rw [hunit] at hplaced
    rw [hunit', Option.toList_none, List.nil_append] at hheld'
    rw [hisOut, ← hout] at hout'
    refine ⟨n, .inl rfl, hc.next, hsize v, ?_, hout'.trans hc.out, ?_⟩
    · exact (hheld'.append_right _).trans (List.perm_middle.trans hplaced)
    · simpa only [hout', List.length_set] using hlast
  | folded v window events hunit hisOut _ hevents =>
    obtain ⟨hheld', hout'⟩ := hset v
    rw [hunit] at hheld'
    rw [hisOut, ← hout] at hout'
    refine ⟨n, .inl rfl, hc.next, hsize v, ?_, hout'.trans hc.out, ?_⟩
    · rw [hevents]
      exact (hheld'.append_right _).trans hplaced
    · simpa only [hout', List.length_set] using hlast

theorem exists_claims (setup : Setup σ) (now : Instant) (store : σ) (schedule : List Turn) :
    ∃ n, Claims setup n (Pool.exec (State.step setup) schedule (setup.initial now store)) := by
  apply Pool.exec_induction (P := fun s => ∃ n, Claims setup n s)
  · rintro s turn ⟨n, hc⟩
    obtain he | ⟨w, hw, he⟩ := step_effect setup s turn
    · exact ⟨n, he.symm ▸ hc⟩
    · exact (claims_effect hc hw he).imp fun _ hm => hm.2
  · exact ⟨0, claims_initial now store⟩

/-- The store is what the writes handed over have made of it, and gave the answers on record. -/
def Stored (setup : Setup σ) (before : σ) (s : State σ) : Prop :=
  setup.backend.writeAll ((handed s.events).reverse.map fun x => setup.plan.write x.1) before =
    ((handed s.events).reverse.map Prod.snd, s.store)

theorem stored_effect (hs : Stored setup before s) (he : Effect setup s i w t) :
    Stored setup before t := by
  cases he with
  | quiet | overran => exact hs
  | claimed a v events _ _ _ _ _ _ hevents => simpa only [Stored, hevents] using hs
  | folded v window events _ _ _ hevents => simpa only [Stored, hevents] using hs
  | wrote a v result store _ _ _ hwrite _ =>
    have hcons : handed (.wrote a result :: s.events) = (a, result) :: handed s.events := rfl
    simp only [Stored, hcons, List.reverse_cons, List.map_append, List.map_cons, List.map_nil]
    rw [Backend.writeAll_append, hs, hwrite]

theorem stored_run (setup : Setup σ) (now : Instant) (store : σ) (schedule : List Turn) :
    Stored setup store (Pool.exec (State.step setup) schedule (setup.initial now store)) := by
  apply Pool.exec_induction (P := Stored setup store)
  · intro s turn hs
    obtain he | ⟨w, -, he⟩ := step_effect setup s turn
    · exact he.symm ▸ hs
    · exact stored_effect hs he
  · rfl

/-- The window and the samples of the workers together know of every answer, once. -/
def Tallied (s : State σ) : Prop :=
  s.window.totals.tally + (s.workers.map Worker.owed).sum =
    ((handed s.events).map fun x => tallyOf x.2).sum

theorem tallied_effect (hs : Tallied s) (hw : s.workers[i]? = some w)
    (he : Effect setup s i w t) : Tallied t := by
  obtain ⟨others, hperm, hset⟩ := Pool.exists_others hw
  have hsum : (s.workers.map Worker.owed).sum = w.owed + (others.map Worker.owed).sum := by
    rw [(hperm.map _).sum_eq, List.map_cons, List.sum_cons]
  have hsum' (v : Worker) :
      ((s.workers.set i v).map Worker.owed).sum = v.owed + (others.map Worker.owed).sum := by
    rw [((hset v).map _).sum_eq, List.map_cons, List.sum_cons]
  rw [Tallied, hsum] at hs
  cases he with
  | quiet v _ _ howed => rwa [Tallied, hsum', howed]
  | claimed a v events _ _ _ _ _ howed hevents => rwa [Tallied, hsum', howed, hevents]
  | overran v _ _ _ _ _ howed => rwa [Tallied, hsum', howed]
  | wrote a v result store _ _ _ _ howed =>
    have hcons : handed (.wrote a result :: s.events) = (a, result) :: handed s.events := rfl
    rw [Tallied, hsum', howed, hcons, List.map_cons, List.sum_cons, ← hs]
    abel
  | folded v window events _ _ htotals hevents =>
    rw [Tallied, hsum', hevents, ← hs, ← add_assoc, ← add_assoc, htotals]

theorem tallied_step (hs : Tallied s) (turn : Turn) : Tallied (s.step setup turn) := by
  obtain he | ⟨w, hw, he⟩ := step_effect setup s turn
  · exact he.symm ▸ hs
  · exact tallied_effect hs hw he

theorem tallied_run (setup : Setup σ) (now : Instant) (store : σ) (schedule : List Turn) :
    Tallied (Pool.exec (State.step setup) schedule (setup.initial now store)) := by
  apply Pool.exec_induction (P := Tallied) fun s turn hs => tallied_step hs turn
  · simp [Tallied, Setup.initial, Worker.owed, StatsWindow.opened]
    rfl

end Fill

end GroupBench
