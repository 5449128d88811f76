import Mathlib.Order.Lattice.Nat
import GroupBench.Job

/-! How resolutions end where lookups only read. Neither what was looked up before nor how far a
resolution has come changes what it comes to. -/
namespace GroupBench
variable {σ : Type} {backend : Backend σ} {s t t' : σ}

/-- Lookups only read: in each of these states every batch gets its answer, and the state that the
lookup leaves is one of them again. -/
structure Backend.ReadOnly (backend : Backend σ)
    (answer : List GroupId → Except StoreFault (List MemberRow)) (states : σ → Prop) : Prop where
  answers : ∀ s, states s → ∀ batch, (backend.lookup batch s).1 = answer batch
  stays : ∀ s, states s → ∀ batch, states (backend.lookup batch s).2

theorem Backend.batchSize_pos (backend : Backend σ) : 0 < backend.batchSize := Nat.le_max_right _ _

namespace Job

theorem takeBatch_batchSize (backend : Backend σ) (j : Job) : j.takeBatch backend.batchSize =
    (j.frontier.take backend.batchSize,
      { j with frontier := j.frontier.drop backend.batchSize, depth := j.depth + 1 }) := by
  rw [takeBatch, Nat.max_eq_left backend.batchSize_pos]

/-- What a resolution came to, if it has ended. -/
def Progress.ended? : Progress → Option (Except StoreFault Job)
  | .resolved job => some (.ok job)
  | .failed fault => some (.error fault)
  | .unfinished _ => none

/-- The resolution of a job ends with a result. -/
def EndsWith (backend : Backend σ) (s : σ) (j : Job) (result : Except StoreFault Job) : Prop :=
  ∃ fuel, (resolve backend fuel j s).1.ended? = some result

/-- The job comes to its end with its next step. -/
inductive Ends (backend : Backend σ) (s : σ) (j : Job) : Except StoreFault Job → σ → Prop
  | resolved : j.isResolved → Ends backend s j (.ok j) s
  | failed {fault : StoreFault} {t : σ} : ¬ j.isResolved →
      j.round backend s = (.error fault, t) → Ends backend s j (.error fault) t

/-- The least number of rounds within which the resolution of a job ends. -/
noncomputable def roundsLeft (backend : Backend σ) (s : σ) (j : Job) : Nat :=
  sInf {fuel | ((resolve backend fuel j s).1.ended?).isSome}

/-- The job after its next round, or the fault that ends it there. -/
def answered (answer : List GroupId → Except StoreFault (List MemberRow)) (limit : Nat) (j : Job) :
    Except StoreFault Job :=
  (answer (j.takeBatch limit).1).map (j.takeBatch limit).2.absorbAll

variable {j next : Job} {fault : StoreFault} {result : Except StoreFault Job}

theorem resolve_resolved (hresolved : j.isResolved) (fuel : Nat) :
    resolve backend fuel j s = (.resolved j, s) := by
  cases fuel <;> rw [resolve, if_pos hresolved]

theorem resolve_ok (hopen : ¬ j.isResolved) (hround : j.round backend s = (.ok next, t))
    (fuel : Nat) : resolve backend (fuel + 1) j s = resolve backend fuel next t := by
  rw [resolve, if_neg hopen, hround]

theorem resolve_error (hopen : ¬ j.isResolved) (hround : j.round backend s = (.error fault, t))
    (fuel : Nat) : resolve backend (fuel + 1) j s = (.failed fault, t) := by
  rw [resolve, if_neg hopen, hround]

/-- A job that is not resolved has a round to go. -/
theorem exists_succ_of_ended (hopen : ¬ j.isResolved) {fuel : Nat}
    (hended : ((resolve backend fuel j s).1.ended?).isSome) : ∃ less, fuel = less + 1 := by
  cases fuel with
  | zero =>
    rw [resolve, if_neg hopen] at hended
    cases hended
  | succ less => exact ⟨less, rfl⟩

section ReadOnly
variable {answer : List GroupId → Except StoreFault (List MemberRow)} {states : σ → Prop}
  (hread : backend.ReadOnly answer states)
include hread

theorem round_eq (hs : states s) (j : Job) :
    ∃ after, states after ∧ j.round backend s = (answered answer backend.batchSize j, after) := by
  have hanswer := hread.answers s hs (j.takeBatch backend.batchSize).1
  have hstays := hread.stays s hs (j.takeBatch backend.batchSize).1
  refine ⟨_, hstays, ?_⟩
  rw [round, answered, ← hanswer]
  dsimp only
  cases backend.lookup (j.takeBatch backend.batchSize).1 s with
  | mk found after => cases found <;> rfl

theorem resolve_fst (hs : states s) (ht : states t) (fuel : Nat) (j : Job) :
    (resolve backend fuel j s).1 = (resolve backend fuel j t).1 := by
  induction fuel generalizing j s t with
  | zero => rw [resolve, resolve]
  | succ fuel ih =>
    by_cases hresolved : j.isResolved
    · rw [resolve_resolved hresolved, resolve_resolved hresolved]
    · obtain ⟨s', hs', hround⟩ := round_eq hread hs j
      obtain ⟨t', ht', hround'⟩ := round_eq hread ht j
      cases hnext : answered answer backend.batchSize j with
      | error fault =>
        rw [hnext] at hround hround'
        rw [resolve_error hresolved hround, resolve_error hresolved hround']
      | ok next =>
        rw [hnext] at hround hround'
        rw [resolve_ok hresolved hround, resolve_ok hresolved hround']
        exact ih hs' ht' next

/-- The states make no difference to a round, so a round that a job has had in one of them is a
round that it has in another. -/
theorem exists_round (hs : states s) (ht : states t) {outcome : Except StoreFault Job}
    (hround : j.round backend t = (outcome, t')) :
    states t' ∧ ∃ s', states s' ∧ j.round backend s = (outcome, s') := by
  obtain ⟨s', hs', hs⟩ := round_eq hread hs j
  obtain ⟨after, hafter, ht⟩ := round_eq hread ht j
  rw [hround, Prod.mk.injEq] at ht
  obtain ⟨rfl, rfl⟩ := ht
  exact ⟨hafter, s', hs', hs⟩

variable (hs : states s) (ht : states t)
include hs ht

/-- A job that comes to its end comes to the end of its resolution. -/
theorem EndsWith.of_ends (hlast : Ends backend t j result t') {expected : Except StoreFault Job}
    (hends : EndsWith backend s j expected) : expected = result ∧ states t' := by
  obtain ⟨fuel, hended⟩ := hends
  cases hlast with
  | resolved hresolved =>
    rw [resolve_resolved hresolved] at hended
    exact ⟨(Option.some.inj hended).symm, ht⟩
  | failed hopen hround =>
    obtain ⟨hafter, s', -, hround⟩ := exists_round hread hs ht hround
    obtain ⟨less, rfl⟩ := exists_succ_of_ended hopen (Option.isSome_of_mem hended)
    rw [resolve_error hopen hround] at hended
    exact ⟨(Option.some.inj hended).symm, hafter⟩

variable (hopen : ¬ j.isResolved)
include hopen

theorem ended?_resolve_succ (hround : j.round backend t = (.ok next, t')) (fuel : Nat) :
    (resolve backend (fuel + 1) j s).1.ended? = (resolve backend fuel next s).1.ended? := by
  obtain ⟨-, s', hs', hround⟩ := exists_round hread hs ht hround
  rw [resolve_ok hopen hround, resolve_fst hread hs' hs]

theorem EndsWith.of_ok (hround : j.round backend t = (.ok next, t'))
    (hends : EndsWith backend s j result) : EndsWith backend s next result := by
  obtain ⟨fuel, hended⟩ := hends
  obtain ⟨less, rfl⟩ := exists_succ_of_ended hopen (Option.isSome_of_mem hended)
  rw [ended?_resolve_succ hread hs ht hopen hround] at hended
  exact ⟨less, hended⟩

theorem EndsWith.roundsLeft_lt (hround : j.round backend t = (.ok next, t'))
    (hends : EndsWith backend s j result) : next.roundsLeft backend s < j.roundsLeft backend s := by
  obtain ⟨fuel, hended⟩ := hends
  have hmem : fuel ∈ {fuel | ((resolve backend fuel j s).1.ended?).isSome} :=
    Set.mem_ofPred.2 (Option.isSome_of_mem hended)
  have hleast := Set.mem_ofPred.1 (Nat.sInf_mem ⟨fuel, hmem⟩)
  obtain ⟨less, hless⟩ := exists_succ_of_ended hopen hleast
  rw [hless, ended?_resolve_succ hread hs ht hopen hround] at hleast
  rw [roundsLeft, roundsLeft, hless]
  exact Nat.lt_succ_of_le (Nat.sInf_le (Set.mem_ofPred.2 hleast))

end ReadOnly

end Job

end GroupBench
