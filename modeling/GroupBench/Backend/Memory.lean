import GroupBench.Backend
import GroupBench.Hierarchy.Pick
import GroupBench.Store.Page

/-! The in-process store as a backend: edges lead to members drawn at random, lookups are drained
page by page. -/
namespace GroupBench

/-- The tables, and the state of the source that members are drawn from. -/
structure MemoryState (ρ : Type) where
  store : Store := .empty
  picks : ρ

namespace MemoryState
variable {ρ : Type}

/-- Stores what a write asks for; the slot of an edge has no part in which member is drawn. -/
def write (h : Hierarchy) (source : WordSource ρ) (s : MemoryState ρ) : Write → MemoryState ρ
  | .group level group => { s with store := s.store.insertGroup level group }
  | .member level group _ subgroup =>
    let ((member, kind), picks) := h.pickMember source level subgroup s.picks
    ⟨s.store.link (.ofPosition level group) member kind, picks⟩

end MemoryState

/-- Rows of a page when nothing else is asked for. -/
def defaultPageSize : Nat := 10000

/-- Both limits count as one where they are zero. -/
def Backend.memory {ρ : Type} (h : Hierarchy) (source : WordSource ρ)
    (pageSize : Nat := defaultPageSize) (batchLimit : Nat := 100) : Backend (MemoryState ρ) where
  write w s := (.ok (), s.write h source w)
  lookup batch s := (s.store.lookup pageSize batch, s)
  batchLimit := max batchLimit 1

end GroupBench
