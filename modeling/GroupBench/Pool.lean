import GroupBench.Duration

/-! Pools of workers that share a state. Workers advance by atomic steps, one turn at a time, and a
schedule is the list of turns taken, so every interleaving and every behaviour of the clock is a
schedule. -/
namespace GroupBench

/-- Which worker acts, and the clock reading that it sees if it looks. -/
structure Turn where
  worker : Nat
  now : Instant
  deriving DecidableEq, Inhabited

namespace Pool
variable {S : Type} {m : Type → Type} [Monad m]

/-- The state after a schedule. -/
def exec (step : S → Turn → S) (schedule : List Turn) (s : S) : S :=
  schedule.foldl step s

/-- One turn for each worker. -/
def round (now : m Instant) (step : S → Turn → S) (workers : Nat) (s : S) : m S :=
  (List.range workers).foldlM (fun s worker => return step s ⟨worker, ← now⟩) s

/-- Rounds until the pool is done, at most `fuel` of them. -/
def rotate (now : m Instant) (step : S → Turn → S) (done : S → Bool) (workers : Nat) :
    Nat → S → m S
  | 0, s => pure s
  | fuel + 1, s =>
    if done s then pure s
    else do rotate now step done workers fuel (← round now step workers s)

end Pool

end GroupBench
