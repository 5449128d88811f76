import Std.Data.ExtTreeSet
import GroupBench.Backend
import GroupBench.Duration

/-! The resolution of one group: a queue of groups still to expand, and the users found so far.
Subgroups join the queue each time they are met; users are kept once. -/
namespace GroupBench

@[ext]
structure Job where
  root : GroupId
  /-- Groups to expand, next first. -/
  frontier : List GroupId
  members : Std.ExtTreeSet GroupId
  /-- Subgroups met, repeats counted. -/
  subgroups : Nat
  /-- Batches taken. -/
  depth : Nat
  elapsed : Duration

namespace Job

/-- The root is all there is to expand. -/
def start (root : GroupId) : Job := ⟨root, [root], ∅, 0, 0, .zero⟩

variable (j : Job)

def isResolved : Bool := j.frontier.isEmpty

/-- Groups taken from the head of the queue, at least one if there is one; every call counts as a
round. -/
def takeBatch (limit : Nat) : List GroupId × Job :=
  let n := max limit 1
  (j.frontier.take n, { j with frontier := j.frontier.drop n, depth := j.depth + 1 })

def absorb (member : GroupId) : MemberKind → Job
  | .subgroup => { j with frontier := j.frontier ++ [member], subgroups := j.subgroups + 1 }
  | .user => { j with members := j.members.insert member }

/-- Absorbs rows in order; the subgroups among them join the queue together. -/
def absorbAll (rows : List MemberRow) : Job :=
  let subgroups := (rows.filter fun row => row.2.isSubgroup).map Prod.fst
  { j with
    frontier := j.frontier ++ subgroups
    members := rows.foldl
      (fun users row => if row.2.isSubgroup then users else users.insert row.1) j.members
    subgroups := j.subgroups + subgroups.length }

/-- Distinct users in ascending order. -/
def memberList : List GroupId := j.members.toList

def memberCount : Nat := j.members.size

/-- How far a resolution has come. -/
inductive Progress
  | resolved (job : Job)
  | failed (fault : StoreFault)
  | unfinished (job : Job)

variable {σ : Type} (backend : Backend σ)

/-- One round: the next batch is looked up and absorbed. A fault leaves nothing of the job. -/
def round (s : σ) : Except StoreFault Job × σ :=
  let (batch, rest) := j.takeBatch backend.batchSize
  match backend.lookup batch s with
  | (.error fault, s) => (.error fault, s)
  | (.ok rows, s) => (.ok (rest.absorbAll rows), s)

/-- Rounds until the queue is empty or a lookup fails, at most `fuel` of them. -/
def resolve (backend : Backend σ) : Nat → Job → σ → Progress × σ
  | 0, j, s => (if j.isResolved then .resolved j else .unfinished j, s)
  | fuel + 1, j, s =>
    if j.isResolved then (.resolved j, s)
    else
      match j.round backend s with
      | (.error fault, s) => (.failed fault, s)
      | (.ok j, s) => resolve backend fuel j s

end Job

end GroupBench
