import GroupBench.Proofs.Resolve.Closure

/-! What a lookup makes of a job. However its rows are cut into pages, they are absorbed one after
the other, position by position in the batch and in ascending order within a group. -/
namespace GroupBench

namespace Job
variable (j : Job)

/-- Absorbs one row after the other. -/
def absorbEach (rows : List MemberRow) : Job :=
  rows.foldl (fun j row => j.absorb row.1 row.2) j

/-- Absorbs the members of a group at each position at which a batch has the group. -/
def absorbBatch (s : Store) (batch : List GroupId) : Job :=
  batch.foldl (fun j group => j.absorbEach (s.membersOf group)) j

theorem absorbAll_cons (row : MemberRow) (rows : List MemberRow) :
    j.absorbAll (row :: rows) = (j.absorb row.1 row.2).absorbAll rows := by
  obtain ⟨member, kind⟩ := row
  cases kind with
  | user => simp [absorbAll, absorb, MemberKind.isSubgroup]
  | subgroup =>
    simp only [absorbAll, absorb, MemberKind.isSubgroup, List.filter_cons_of_pos, List.map_cons,
      List.length_cons, List.append_assoc, List.singleton_append, List.foldl_cons, if_true]
    rw [Nat.add_assoc, Nat.add_comm 1]

/-- That the subgroups among the rows join the queue together makes no difference. -/
theorem absorbAll_eq_absorbEach (rows : List MemberRow) : j.absorbAll rows = j.absorbEach rows := by
  induction rows generalizing j with
  | nil => simp [absorbAll, absorbEach]
  | cons row rows ih =>
    rw [absorbAll_cons, ih]
    rfl

theorem absorbEach_members (s : Store) (batch : List GroupId) :
    j.absorbEach (batch.flatMap s.membersOf) = j.absorbBatch s batch :=
  List.foldl_flatMap

theorem absorbEach_pages (pages : List Page) :
    j.absorbEach (pages.flatMap Page.rows) =
      pages.foldl (fun j page => j.absorbEach page.rows) j :=
  List.foldl_flatMap

end Job

namespace Store

/-- The members of a group as lookups list them: every edge of the group once, in ascending order. -/
structure ListsMembers (s : Store) (group : GroupId) : Prop where
  ascending : (s.membersOf group).Pairwise fun x y => x.1 < y.1
  mem_iff : ∀ member kind, (member, kind) ∈ s.membersOf group ↔
    (s.edgesOf group)[member]? = some kind

/-- A lookup over a batch comes to its end with these pages, and a job that absorbs them has absorbed
every edge of each group, once for each position. -/
structure Drains (s : Store) (size : Nat) (batch : List GroupId) (pages : List Page) : Prop where
  chain : s.Chain size batch .first pages
  paged : Paged (max size 1) (batch.flatMap s.membersOf) pages
  lists : ∀ group ∈ batch, s.ListsMembers group
  absorbed : ∀ j : Job, pages.foldl (fun j page => j.absorbEach page.rows) j = j.absorbBatch s batch

end Store

/-- Whatever the page size is, a lookup drains completely, and a backend hands all of its rows to the
job at once. -/
theorem lookups_drain {batch : List GroupId} (hbatch : batch.length < UInt64.size) (s : Store)
    {ρ : Type} (h : Hierarchy) (source : WordSource ρ) (picks : ρ) (size limit : Nat) :
    ∃ pages, s.pages size batch = .ok pages ∧ s.Drains size batch pages ∧
      ∃ rows, (Backend.memory h source size limit).lookup batch ⟨s, picks⟩ =
          (.ok rows, ⟨s, picks⟩) ∧
        ∀ j : Job, j.absorbAll rows = j.absorbBatch s batch := by
  obtain ⟨pages, hpages, hchain, hpaged⟩ := s.exists_pages size hbatch
  refine ⟨pages, hpages, ⟨hchain, hpaged, ?_, ?_⟩, batch.flatMap s.membersOf, ?_, ?_⟩
  · intro group _
    exact ⟨s.membersOf_sorted group, fun _ _ => s.mem_membersOf⟩
  · intro j
    rw [← j.absorbEach_pages, hpaged.rows_eq, j.absorbEach_members]
  · change (s.lookup size batch, _) = _
    rw [Store.lookup_eq hbatch]
  · intro j
    rw [j.absorbAll_eq_absorbEach, j.absorbEach_members]

/-- The top of the diamond twice, with a group between that is not stored. -/
def diamondBatch : List GroupId := [.ofPosition 3 0, .ofPosition 3 8, .ofPosition 3 0]

/-- Four rows fill two pages, and there is no third one. -/
theorem diamond_lookups_drain :
    diamondBatch.length < UInt64.size ∧
      ∃ pages, Store.diamond.pages 2 diamondBatch = .ok pages ∧
        Store.diamond.Drains 2 diamondBatch pages ∧ pages.length = 2 ∧
        ∃ rows, (Backend.memory Job.diamondHierarchy .congruential 2 0).lookup diamondBatch
            ⟨Store.diamond, 0⟩ = (.ok rows, ⟨Store.diamond, 0⟩) ∧
          ∀ j : Job, j.absorbAll rows = j.absorbBatch Store.diamond diamondBatch := by
  have hbatch : diamondBatch.length < UInt64.size := by decide
  have hrows : (diamondBatch.flatMap Store.diamond.membersOf).length = 4 := by decide +kernel
  obtain ⟨pages, hpages, hdrains, hlookup⟩ :=
    lookups_drain hbatch Store.diamond Job.diamondHierarchy .congruential (0 : UInt64) 2 0
  refine ⟨hbatch, pages, hpages, hdrains, ?_, hlookup⟩
  rw [hdrains.paged.length_eq, hrows]
  rfl

end GroupBench
