import GroupBench.Backend

/-! A backend around another one that keeps a journal of what passes and turns chosen operations
down. -/
namespace GroupBench

/-- Names a set of writes by some of the fields of their addresses; a field left out matches every
value. -/
structure Refusal where
  level : Option UInt16 := none
  group : Option UInt32 := none
  slot : Option UInt32 := none
  deriving DecidableEq, Inhabited

def Refusal.covers (r : Refusal) (a : Address) : Bool :=
  r.level.all (· == a.level) && r.group.all (· == a.group) && r.slot.all (· == a.slot)

/-- What passed, latest first, around the state of the inner backend. Refused writes are not among
them. -/
structure Probe (σ : Type) where
  inner : σ
  writes : List Write := []
  lookups : List (List GroupId) := []

/-- What the probe turns down, and the batch limit it reports in place of the inner one. -/
structure ProbeRules where
  refusals : List Refusal := []
  poisoned : List GroupId := []
  batchLimit : Option Nat := none

def Backend.probed {σ : Type} (inner : Backend σ) (rules : ProbeRules) : Backend (Probe σ) where
  write w s :=
    if rules.refusals.any (·.covers w.address) then (.error (.writeRefused w.level), s)
    else
      let (result, t) := inner.write w s.inner
      (result, { s with inner := t, writes := w :: s.writes })
  lookup batch s :=
    let s := { s with lookups := batch :: s.lookups }
    match batch.find? (rules.poisoned.contains ·) with
    | some id => (.error (.lookupRefused id), s)
    | none =>
      let (result, t) := inner.lookup batch s.inner
      (result, { s with inner := t })
  batchLimit := rules.batchLimit.getD inner.batchLimit

end GroupBench
