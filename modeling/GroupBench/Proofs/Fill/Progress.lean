import Mathlib.Algebra.Order.BigOperators.Group.List
import Mathlib.Algebra.Order.Group.Nat
import GroupBench.Fill.Run
import GroupBench.Proofs.Fill.Ledger

/-! The runs of a fill pool come to an end. A worker that claims past the last unit leaves, so the
counter goes round no more often than there are workers, and the turns that follow a claim are
few. -/
namespace GroupBench.Fill
variable {σ : Type} {setup : Setup σ} {s t : State σ} {i n : Nat} {w : Worker}

/-- How one run goes: when it begins, which turns are taken, and when it is over. -/
structure Schedule where
  begun : Instant
  turns : List Turn
  ended : Instant

namespace Setup
variable (setup : Setup σ)

/-- The pool when the turns of a run have been taken. -/
def after (run : Schedule) (store : σ) : State σ :=
  Pool.exec (State.step setup) run.turns (setup.initial run.begun store)

def outcome (run : Schedule) (store : σ) : Outcome σ :=
  (setup.after run store).finish setup.plan run.ended

/-- The store after some runs, each on the store that the one before it left. -/
def storeAfter (runs : List Schedule) (store : σ) : σ :=
  runs.foldl (fun store run => (setup.after run store).store) store

end Setup

theorem State.isDone_iff {s : State σ} : s.isDone ↔ ∀ w ∈ s.workers, w.pc = .done := by
  rw [State.isDone, List.all_eq_true]
  refine forall₂_congr fun w _ => ?_
  cases w.pc <;> simp

namespace PC

/-- Enough steps for a worker to come to its next claim from where it stands and to leave after that
one. -/
def weight : PC → Nat
  | .crossing .. => 10
  | .crossed .. => 9
  | .timing .. => 8
  | .writing .. => 7
  | .recording .. => 6
  | .checking .. => 5
  | .folding .. => 4
  | .starting | .folded => 3
  | .claiming => 2
  | .leaving => 1
  | .done => 0

theorem weight_eq_zero_iff {pc : PC} : pc.weight = 0 ↔ pc = .done := by
  cases pc <;> simp [weight]

end PC

/-- Turns that a claim can lead to before the next one. -/
def claimWeight : Nat := 9

/-- A step of worker `w` brings it nearer to its next claim, or is a claim. -/
inductive Moves (s : State σ) (i : Nat) (w : Worker) : State σ → Prop
  | nearer {t : State σ} (v : Worker) : t.workers = s.workers.set i v →
      v.pc.weight < w.pc.weight → t.next = s.next → Moves s i w t
  | claim {t : State σ} (v : Worker) : t.workers = s.workers.set i v → w.pc.isOut = false →
      v.pc.weight < w.pc.weight + claimWeight → t.next = s.next + 1 → Moves s i w t

theorem claim_moves (hpc : w.pc = .claiming) : Moves s i w (s.claim setup.plan i w) := by
  have hin : w.pc.isOut = false := by rw [hpc]; rfl
  rw [State.claim]
  split
  · refine .claim { w with pc := .leaving } rfl hin ?_ rfl
    simp [hpc, PC.weight, claimWeight]
  · split
    · refine .claim { w with pc := .crossing s.next _ } rfl hin ?_ rfl
      simp [hpc, PC.weight, claimWeight]
    · refine .claim { w with pc := .timing s.next _ } rfl hin ?_ rfl
      simp [hpc, PC.weight, claimWeight]

theorem foldDue_moves {k : UInt64} {a : Address} (now : Instant) (hpc : w.pc = .folding k a) :
    Moves s i w (s.foldDue now i w k a) := by
  rw [State.foldDue]
  rcases (s.window.fold w.sample).takeIfDue now with ⟨snapshot?, window⟩
  cases snapshot? <;>
    exact .nearer { w with pc := .folded, sample := .empty } rfl (by simp [hpc, PC.weight]) rfl

/-- A step of a worker that has not left moves it on; there are no other steps. -/
theorem step_moves (setup : Setup σ) (s : State σ) (turn : Turn) :
    (s.step setup turn = s ∧ ∀ w, s.workers[turn.worker]? = some w → w.pc = .done) ∨
      ∃ w, s.workers[turn.worker]? = some w ∧ w.pc ≠ .done ∧
        Moves s turn.worker w (s.step setup turn) := by
  cases hw : s.workers[turn.worker]? with
  | none => simp [State.step, hw]
  | some w =>
    by_cases hdone : w.pc = .done
    · left
      simp [State.step, hw, hdone]
    right
    refine ⟨w, rfl, hdone, ?_⟩
    simp only [State.step, hw]
    cases hpc : w.pc with
    | done => exact absurd hpc hdone
    | claiming => exact claim_moves hpc
    | folding k a => exact foldDue_moves turn.now hpc
    | checking k a =>
      dsimp only
      split <;> exact .nearer _ rfl (by simp [hpc, PC.weight]) rfl
    | starting | crossing | crossed | timing | writing | recording | folded | leaving =>
      exact .nearer _ rfl (by simp [hpc, PC.weight]) rfl

/-- A step leaves no state as it was. -/
theorem Moves.changes (hw : s.workers[i]? = some w) : ¬ Moves s i w s := by
  have hsame {v : Worker} (hset : s.workers = s.workers.set i v) : v = w := by
    have hv := List.getElem?_set_self (a := v) (List.getElem?_eq_some_iff.1 hw).1
    rw [← hset, hw] at hv
    exact (Option.some.inj hv).symm
  intro hm
  cases hm with
  | nearer v hset hlt => exact Nat.lt_irrefl _ (hsame hset ▸ hlt)
  | claim v _ _ _ hnext => simp at hnext

/-- The worker at a place has left, if there is one. -/
def Idle (s : State σ) (i : Nat) : Prop := ∀ w, s.workers[i]? = some w → w.pc = .done

theorem idle_step (setup : Setup σ) (hidle : Idle s i) (turn : Turn) :
    Idle (s.step setup turn) i := by
  obtain ⟨he, -⟩ | ⟨w, hw, hopen, he⟩ := step_moves setup s turn
  · exact he.symm ▸ hidle
  · have hne : turn.worker ≠ i := by
      rintro rfl
      exact hopen (hidle w hw)
    have hset : ∃ v, (s.step setup turn).workers = s.workers.set turn.worker v := by
      cases he with
      | nearer v hset | claim v hset => exact ⟨v, hset⟩
    obtain ⟨v, hset⟩ := hset
    intro u hu
    rw [hset, List.getElem?_set_ne hne] at hu
    exact hidle u hu

/-- Claims that a run can make. -/
def Setup.claimLimit (setup : Setup σ) : Nat := UInt64.size * setup.config.workers

/-- Enough steps for all workers to leave, when `n` claims have been made. -/
def State.stepsLeft (setup : Setup σ) (n : Nat) (s : State σ) : Nat :=
  (s.workers.map (·.pc.weight)).sum + claimWeight * (setup.claimLimit - n)

/-- A run goes on until it is over or each worker has had so many turns. -/
def Setup.Lasts (setup : Setup σ) (run : Schedule) (store : σ) (turns : Nat) : Prop :=
  Pool.Lasts (State.step setup) State.isDone setup.config.workers run.turns
    (setup.initial run.begun store) turns

theorem stepsLeft_initial (now : Instant) (store : σ) :
    (setup.initial now store).stepsLeft setup 0 = setup.roundsNeeded := by
  simp only [State.stepsLeft, Setup.initial, List.map_replicate, List.sum_replicate, PC.weight,
    claimWeight, Setup.claimLimit, Setup.roundsNeeded, Nat.nsmul_eq_mul, Nat.sub_zero]
  rw [Nat.add_mul, Nat.mul_assoc, Nat.add_comm, Nat.mul_comm 3]

section Steps
variable (hplan : FillPlan.make setup.plan.hierarchy setup.config.instanceId
    setup.config.instanceCount = .ok setup.plan)
  (hfit : setup.plan.hierarchy.units setup.config.instanceId setup.config.instanceCount <
    UInt64.size)
include hplan hfit

/-- Each time that the counter goes round, some worker leaves. -/
theorem claims_lt (hc : Claims setup n s) (hw : s.workers[i]? = some w)
    (hin : w.pc.isOut = false) : n < setup.claimLimit := by
  have hout : s.workers.countP (·.pc.isOut) < s.workers.length :=
    Nat.lt_of_le_of_ne List.countP_le_length fun hall => by
      have := List.countP_eq_length.1 hall w (List.mem_of_getElem? hw)
      simp [hin] at this
  rw [hc.out, hc.size, overruns_eq hplan hfit] at hout
  by_contra hge
  -- After as many rounds of the counter as there are workers all of them would be out.
  have hrounds : setup.config.workers ≤ n / UInt64.size := by
    rw [Nat.le_div_iff_mul_le (by decide), Nat.mul_comm]
    exact Nat.le_of_not_lt hge
  have hpos : 0 < UInt64.size - setup.plan.hierarchy.units setup.config.instanceId
      setup.config.instanceCount := by omega
  have hle := Nat.le_mul_of_pos_right (n / UInt64.size) hpos
  omega

theorem stepsLeft_moves (hc : Claims setup n s) (hw : s.workers[i]? = some w)
    (hm : Moves s i w t) {m : Nat} (hn : m = n ∨ m = n + 1) (hc' : Claims setup m t) :
    t.stepsLeft setup m < s.stepsLeft setup n := by
  obtain ⟨others, hperm, hset⟩ := Pool.exists_others hw
  have hsum := (hperm.map (·.pc.weight)).sum_eq
  have hsum' (v : Worker) := ((hset v).map (·.pc.weight)).sum_eq
  simp only [List.map_cons, List.sum_cons] at hsum hsum'
  rw [State.stepsLeft, State.stepsLeft]
  cases hm with
  | nearer v hworkers hweight _ =>
    have hclaims : claimWeight * (setup.claimLimit - m) ≤ claimWeight * (setup.claimLimit - n) :=
      Nat.mul_le_mul_left _ (by omega)
    rw [hworkers, hsum, hsum']
    omega
  | claim v hworkers hin hweight hnext =>
    have hlt := claims_lt hplan hfit hc hw hin
    have hcounted : m = n + 1 := by
      refine hn.resolve_left fun hsame => ?_
      rw [hc'.next, hc.next, hsame] at hnext
      simp at hnext
    -- One claim fewer is left, which makes up for the steps that this one leads to.
    have hclaims : claimWeight * (setup.claimLimit - n) =
        claimWeight * (setup.claimLimit - m) + claimWeight := by
      rw [← Nat.mul_succ]
      congr 1
      omega
    rw [hworkers, hsum, hsum', hclaims]
    omega

theorem poolEnds : Pool.Ends (State.step setup)
    (fun s k => ∃ n, Claims setup n s ∧ s.stepsLeft setup n = k) Idle where
  advance := by
    rintro s turn k ⟨n, hc, rfl⟩
    obtain ⟨he, hidle⟩ | ⟨w, hw, -, hm⟩ := step_moves setup s turn
    · exact .inl ⟨he, hidle⟩
    obtain he | ⟨w', hw', he⟩ := step_effect setup s turn
    · rw [he] at hm
      exact absurd hm (Moves.changes hw)
    · obtain rfl : w = w' := Option.some.inj (hw.symm.trans hw')
      obtain ⟨m, hn, hc'⟩ := claims_effect hc hw he
      exact .inr ⟨_, stepsLeft_moves hplan hfit hc hw hm hn hc', m, hc', rfl⟩
  rest _ turn _ hidle := idle_step setup hidle turn
  spent := by
    rintro s i ⟨n, -, hzero⟩ w hw
    have hle := List.le_sum_of_mem
      (List.mem_map_of_mem (f := fun w : Worker => w.pc.weight) (List.mem_of_getElem? hw))
    rw [State.stepsLeft] at hzero
    exact PC.weight_eq_zero_iff.1 (by omega)

/-- Every run ends that goes on for as many turns of each worker as are ever needed. -/
theorem isDone_of_lasts {run : Schedule} {store : σ}
    (hlasts : setup.Lasts run store setup.roundsNeeded) : (setup.after run store).isDone := by
  refine hlasts.elim id fun hturns => State.isDone_iff.2 fun w hw => ?_
  obtain ⟨i, hi⟩ := List.mem_iff_getElem?.1 hw
  obtain ⟨n, hc⟩ := exists_claims setup run.begun store run.turns
  have hlt : i < setup.config.workers := hc.size ▸ (List.getElem?_eq_some_iff.1 hi).1
  exact (poolEnds hplan hfit).idle_of_enough run.turns
    ⟨0, claims_initial run.begun store, stepsLeft_initial run.begun store⟩ (hturns i hlt) w hi

end Steps

/-- Workers that take turns in rotation follow a schedule that lasts. -/
theorem exists_runWith_eq (setup : Setup σ) (now : Instant) (store : σ) : ∃ run : Schedule,
    Id.run (setup.runWith (pure now) store) = setup.outcome run store ∧
      setup.Lasts run store setup.roundsNeeded := by
  obtain ⟨schedule, hrotate, hlasts⟩ := Pool.exists_rotate_eq_exec now (State.step setup)
    State.isDone setup.config.workers setup.roundsNeeded (setup.initial now store)
  exact ⟨⟨now, schedule, now⟩, congrArg (State.finish · setup.plan now) hrotate, hlasts⟩

end GroupBench.Fill
