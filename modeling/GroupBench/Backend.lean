import GroupBench.Plan
import GroupBench.Store

/-! What a store under benchmark has to offer. -/
namespace GroupBench

/-- The operations of a store whose states have type `σ`. A fault leaves the pool running. -/
structure Backend (σ : Type) where
  write : Write → σ → Except StoreFault Unit × σ
  /-- Every edge of the groups of a batch, in batch order and ascending within a group. -/
  lookup : List GroupId → σ → Except StoreFault (List MemberRow) × σ
  /-- The largest number of groups in one lookup. -/
  batchLimit : Nat := 100

/-- Groups sent in one lookup; a limit of zero counts as one. -/
def Backend.batchSize {σ : Type} (backend : Backend σ) : Nat := max backend.batchLimit 1

/-- Accepts every write and resolves every group to nothing, so that only the pools are measured. -/
def Backend.null : Backend Unit where
  write _ s := (.ok (), s)
  lookup _ s := (.ok [], s)

end GroupBench
