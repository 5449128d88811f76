import Mathlib.Data.List.Nodup
import Mathlib.Data.List.Perm.Basic
import Mathlib.Tactic.ByContra
import GroupBench.Pool

/-! What schedules preserve, and what a list of workers keeps when one of them moves on. Pools end
where every step of a worker that has not left takes something off what is left to do, and a pool
that is run in rotation follows a schedule like any other. -/
namespace GroupBench.Pool

/-- What every step preserves holds after every schedule. -/
theorem exec_induction {S : Type} {step : S → Turn → S} {P : S → Prop}
    (hstep : ∀ s turn, P s → P (step s turn)) {s : S} (hs : P s) (schedule : List Turn) :
    P (exec step schedule s) := by
  induction schedule generalizing s with
  | nil => exact hs
  | cons turn schedule ih => exact ih (hstep s turn hs)

theorem filterMap_cons_toList {α β : Type} (f : α → Option β) (a : α) (l : List α) :
    (a :: l).filterMap f = (f a).toList ++ l.filterMap f := by
  cases h : f a <;> simp [h]

/-- The worker at a place, and the others beside it, whom nothing put at that place affects. -/
theorem exists_others {α : Type} {workers : List α} {i : Nat} {w : α} (hw : workers[i]? = some w) :
    ∃ others, workers.Perm (w :: others) ∧ ∀ v, (workers.set i v).Perm (v :: others) := by
  obtain ⟨hi, rfl⟩ := List.getElem?_eq_some_iff.1 hw
  exact ⟨workers.eraseIdx i, (List.getElem_cons_eraseIdx_perm hi).symm,
    List.set_perm_cons_eraseIdx hi⟩

section Progress
variable {S : Type} {step : S → Turn → S}

/-- With `k` steps left the pool comes to its end: a worker that has left does nothing more, and
each step of another one is one of them. -/
structure Ends (step : S → Turn → S) (left : S → Nat → Prop) (idle : S → Nat → Prop) : Prop where
  advance : ∀ s turn k, left s k → step s turn = s ∧ idle s turn.worker ∨
    ∃ k' < k, left (step s turn) k'
  rest : ∀ s turn i, idle s i → idle (step s turn) i
  spent : ∀ s i, left s 0 → idle s i

variable {left : S → Nat → Prop} {idle : S → Nat → Prop}

/-- Turns of a worker that has not left at the end each took a step off those that were left. -/
theorem Ends.turns_le (he : Ends step left idle) (schedule : List Turn) {s : S} {k i : Nat}
    (hs : left s k) (hbusy : ¬ idle (exec step schedule s) i) :
    ∃ k', schedule.countP (fun turn => turn.worker = i) + k' ≤ k ∧
      left (exec step schedule s) k' := by
  induction schedule generalizing s k with
  | nil => exact ⟨k, Nat.le_of_eq (Nat.zero_add k), hs⟩
  | cons turn schedule ih =>
    change ∃ k', _ ∧ left (exec step schedule (step s turn)) k'
    rw [List.countP_cons]
    obtain ⟨hsame, hidle⟩ | ⟨k', hk', hs'⟩ := he.advance s turn k hs
    · have hne : turn.worker ≠ i := by
        rintro rfl
        exact hbusy (exec_induction (P := (idle · turn.worker))
          (fun s turn' => he.rest s turn' turn.worker) hidle (turn :: schedule))
      rw [hsame, if_neg (by simpa using hne)]
      exact ih hs (by simpa only [exec, List.foldl_cons, hsame] using hbusy)
    · obtain ⟨last, hlast, hleft⟩ := ih hs' hbusy
      refine ⟨last, ?_, hleft⟩
      split <;> omega

/-- A schedule that gives a worker as many turns as there are steps to go sees it off. -/
theorem Ends.idle_of_enough (he : Ends step left idle) (schedule : List Turn) {s : S} {k i : Nat}
    (hs : left s k) (hturns : k ≤ schedule.countP fun turn => turn.worker = i) :
    idle (exec step schedule s) i := by
  by_contra hbusy
  obtain ⟨k', hk', hleft⟩ := he.turns_le schedule hs hbusy
  obtain rfl : k' = 0 := by omega
  exact hbusy (he.spent _ i hleft)

end Progress

section Rotation
variable {S : Type} (now : Instant) (step : S → Turn → S) (done : S → Bool) (workers : Nat)

/-- A schedule goes on until the pool is done or each worker has had so many turns. -/
def Lasts (schedule : List Turn) (s : S) (turns : Nat) : Prop :=
  done (exec step schedule s) ∨ ∀ i < workers, turns ≤ schedule.countP fun turn => turn.worker = i

variable {step done workers} in
theorem Lasts.mono {schedule : List Turn} {s : S} {turns fewer : Nat}
    (hlasts : Lasts step done workers schedule s turns) (hle : fewer ≤ turns) :
    Lasts step done workers schedule s fewer :=
  hlasts.imp_right fun hturns i hi => Nat.le_trans hle (hturns i hi)

/-- The turns of a round. -/
def roundTurns : List Turn := (List.range workers).map fun worker => ⟨worker, now⟩

theorem exec_append (schedule later : List Turn) (s : S) :
    exec step (schedule ++ later) s = exec step later (exec step schedule s) :=
  List.foldl_append

theorem round_eq_exec (s : S) :
    Id.run (round (pure now) step workers s) = exec step (roundTurns now workers) s := by
  simp [round, exec, roundTurns, List.foldl_map]

theorem countP_roundTurns {i : Nat} (hi : i < workers) :
    (roundTurns now workers).countP (fun turn => turn.worker = i) = 1 := by
  rw [roundTurns, List.countP_map,
    ← List.count_eq_one_of_mem List.nodup_range (List.mem_range.2 hi), List.count]
  exact List.countP_congr fun worker _ => by simp

/-- A rotation takes the turns of some schedule, in which every worker has one in each round. -/
theorem exists_rotate_eq_exec (fuel : Nat) (s : S) : ∃ schedule,
    Id.run (rotate (pure now) step done workers fuel s) = exec step schedule s ∧
      Lasts step done workers schedule s fuel := by
  induction fuel generalizing s with
  | zero => exact ⟨[], rfl, .inr fun _ _ => Nat.zero_le _⟩
  | succ fuel ih =>
    rw [rotate]
    split
    · rename_i hdone
      exact ⟨[], rfl, .inl hdone⟩
    · obtain ⟨schedule, hrun, hend⟩ := ih (exec step (roundTurns now workers) s)
      refine ⟨roundTurns now workers ++ schedule, ?_, ?_⟩
      · rw [exec_append, ← hrun, ← round_eq_exec]
        rfl
      · rw [Lasts, exec_append]
        refine hend.imp_right fun hturns i hi => ?_
        rw [List.countP_append, countP_roundTurns now workers hi, Nat.add_comm 1]
        exact Nat.succ_le_succ (hturns i hi)

end Rotation

end GroupBench.Pool
