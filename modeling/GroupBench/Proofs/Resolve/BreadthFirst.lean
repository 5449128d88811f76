import Mathlib.Data.List.Sort
import GroupBench.Backend.Memory
import GroupBench.Backend.Probe
import GroupBench.Proofs.Resolve.Ending
import GroupBench.Proofs.Store.Graph

/-! The resolution of a group follows the plain breadth-first order, in which one group at a time is
expanded. Batches and pages cut that order into pieces and change nothing else. -/
namespace GroupBench

namespace Store

/-- The subgroups that are stored for a group, each of them once, in ascending order. -/
structure ListsSubgroups (s : Store) (group : GroupId) (children : List GroupId) : Prop where
  ascending : children.Pairwise (· < ·)
  mem_iff : ∀ child, child ∈ children ↔ s.HasSubgroup group child

/-- The order in which a queue empties: its head is expanded, and the subgroups of the head join at
the end, repeats kept. -/
inductive BreadthFirst (s : Store) : List GroupId → List GroupId → Prop
  | done : BreadthFirst s [] []
  | expand {group : GroupId} {children rest order : List GroupId} :
    s.ListsSubgroups group children → BreadthFirst s (rest ++ children) order →
      BreadthFirst s (group :: rest) (group :: order)

/-- The batches in which a queue empties when each of them takes up to `size` groups off its head, and
the subgroups of the batch join at the end. -/
inductive InBatches (s : Store) (size : Nat) : List GroupId → List (List GroupId) → Prop
  | done : InBatches s size [] []
  | take {frontier : List GroupId} {batches : List (List GroupId)} : frontier ≠ [] →
    InBatches s size (frontier.drop size ++ s.expand (frontier.take size)) batches →
      InBatches s size frontier (frontier.take size :: batches)

/-- The first `n` layers one after the other. -/
def layers (s : Store) (n : Nat) (layer : List GroupId) : List GroupId :=
  (List.range n).flatMap fun k => s.expand^[k] layer

variable {s : Store} {n : Nat} {root group : GroupId} {batch rest layer order : List GroupId}

theorem listsSubgroups (s : Store) (group : GroupId) :
    s.ListsSubgroups group (s.subgroupsOf group) :=
  ⟨s.subgroupsOf_sorted group, fun _ => s.mem_subgroupsOf⟩

/-- What a lookup finds is the only such list. -/
theorem ListsSubgroups.eq {children : List GroupId} (hlists : s.ListsSubgroups group children) :
    children = s.subgroupsOf group := by
  have : Std.Irrefl fun a b : GroupId => a < b := ⟨GroupId.lt_irrefl⟩
  have : Std.Antisymm fun a b : GroupId => a < b :=
    ⟨fun _ _ hab hba => absurd hba (GroupId.lt_asymm hab)⟩
  refine hlists.ascending.eq_of_mem_iff (s.subgroupsOf_sorted group) fun child => ?_
  rw [hlists.mem_iff, s.mem_subgroupsOf]

/-- Expanding a batch from the head of the queue is expanding its groups one at a time. -/
theorem breadthFirst_append : s.BreadthFirst (batch ++ rest) order ↔
    ∃ later, order = batch ++ later ∧ s.BreadthFirst (rest ++ s.expand batch) later := by
  induction batch generalizing rest order with
  | nil => simp [Store.expand]
  | cons group batch ih =>
    rw [List.cons_append]
    have hqueue : rest ++ s.subgroupsOf group ++ s.expand batch =
        rest ++ s.expand (group :: batch) := List.append_assoc _ _ _
    constructor
    · intro horder
      cases horder with
      | expand hlists horder =>
        rw [hlists.eq, List.append_assoc] at horder
        obtain ⟨later, rfl, hlater⟩ := ih.1 horder
        exact ⟨later, rfl, hqueue ▸ hlater⟩
    · rintro ⟨later, rfl, hlater⟩
      refine .expand (s.listsSubgroups group) ?_
      rw [List.append_assoc]
      exact ih.2 ⟨later, rfl, hqueue ▸ hlater⟩

/-- A queue that empties does so in batches, which taken together are the order in which it would
empty one group at a time. -/
theorem BreadthFirst.exists_inBatches {frontier : List GroupId} (hsize : 0 < n)
    (horder : s.BreadthFirst frontier order) :
    ∃ batches, s.InBatches n frontier batches ∧ batches.flatten = order := by
  -- Every batch takes at least one group off the order, so what is left of it gets shorter.
  induction hlength : order.length using Nat.strong_induction_on generalizing frontier order with
  | h length ih =>
    by_cases hempty : frontier = []
    · subst hempty
      cases horder
      exact ⟨[], .done, rfl⟩
    · have hpos := List.length_pos_iff.2 hempty
      rw [← List.take_append_drop n frontier] at horder
      obtain ⟨later, rfl, hlater⟩ := breadthFirst_append.1 horder
      rw [List.length_append, List.length_take] at hlength
      obtain ⟨batches, hbatches, rfl⟩ := ih later.length (by omega) hlater rfl
      exact ⟨_, .take hempty hbatches, rfl⟩

theorem InBatches.length_le {frontier : List GroupId} {batches : List (List GroupId)}
    (hbatches : s.InBatches n frontier batches) : ∀ batch ∈ batches, batch.length ≤ n := by
  induction hbatches with
  | done => intro batch hbatch; cases hbatch
  | @take frontier _ _ _ ih =>
    intro batch hbatch
    rcases List.mem_cons.1 hbatch with rfl | hlater
    · exact List.length_take_le n frontier
    · exact ih batch hlater

theorem layers_succ (n : Nat) (layer : List GroupId) :
    s.layers (n + 1) layer = layer ++ s.layers n (s.expand layer) := by
  rw [layers, List.range_succ_eq_map, List.flatMap_cons, List.flatMap_map]
  rfl

theorem breadthFirst_layers (hnil : s.expand^[n] layer = []) :
    s.BreadthFirst layer (s.layers n layer) := by
  induction n generalizing layer with
  | zero =>
    rw [Function.iterate_zero_apply] at hnil
    rw [hnil]
    exact .done
  | succ n ih =>
    rw [Function.iterate_succ_apply] at hnil
    have hqueue : s.BreadthFirst (layer ++ []) (s.layers (n + 1) layer) :=
      breadthFirst_append.2 ⟨_, layers_succ n layer, ih hnil⟩
    rwa [List.append_nil] at hqueue

theorem expand_layers (n : Nat) (layer : List GroupId) :
    s.expand (s.layers n layer) = (List.range n).flatMap fun k => s.expand^[k + 1] layer := by
  rw [Store.expand, layers, List.flatMap_assoc]
  simp only [Function.iterate_succ_apply']
  rfl

end Store

namespace Job
variable (s : Store) (root : GroupId)

/-- Users that rows name are kept once. -/
def addUsers (users : Std.ExtTreeSet GroupId) (rows : List MemberRow) : Std.ExtTreeSet GroupId :=
  rows.foldl (fun users row => if row.2.isSubgroup then users else users.insert row.1) users

/-- The job of a root when some groups have been expanded in so many rounds and the others are
still in the queue. -/
def reached (expanded frontier : List GroupId) (rounds : Nat) : Job where
  root := root
  frontier := frontier
  members := addUsers ∅ (expanded.flatMap s.membersOf)
  subgroups := (s.expand expanded).length
  depth := rounds
  elapsed := .zero

/-- A backend whose lookups are answered from a store, on states that tell which lookups there were
before, latest first. -/
structure Serves {σ : Type} (backend : Backend σ) (stage : List (List GroupId) → σ) : Prop where
  answer : ∀ past batch, batch.length ≤ backend.batchSize →
    backend.lookup batch (stage past) = (.ok (batch.flatMap s.membersOf), stage (batch :: past))

theorem isResolved_reached {s : Store} {root : GroupId} {expanded frontier : List GroupId}
    {rounds : Nat} : (reached s root expanded frontier rounds).isResolved ↔ frontier = [] :=
  List.isEmpty_iff

section Answered
variable {s} {σ : Type} {backend : Backend σ} {t t' : σ} {stage : List (List GroupId) → σ}

/-- A round whose lookup is answered from the store moves a batch from the queue to what is
expanded. -/
theorem round_answered (expanded frontier : List GroupId) (rounds : Nat)
    (hanswer : backend.lookup (frontier.take backend.batchSize) t =
      (.ok ((frontier.take backend.batchSize).flatMap s.membersOf), t')) :
    (reached s root expanded frontier rounds).round backend t =
      (.ok (reached s root (expanded ++ frontier.take backend.batchSize)
          (frontier.drop backend.batchSize ++ s.expand (frontier.take backend.batchSize))
          (rounds + 1)), t') := by
  rw [round, takeBatch_batchSize]
  simp only [reached, hanswer]
  simp only [absorbAll, Store.expand_append, List.flatMap_append, List.length_append]
  have hsubgroups := s.subgroupsIn_flatMap (frontier.take backend.batchSize)
  rw [Store.subgroupsIn] at hsubgroups
  rw [hsubgroups, addUsers, addUsers, List.foldl_append]
  rfl

/-- Batches that are answered are taken in a round each, and the later ones stay in the queue. -/
theorem resolve_answered {frontier : List GroupId} {served later : List (List GroupId)}
    (hbatches : s.InBatches backend.batchSize frontier (served ++ later))
    (hanswers : ∀ batch ∈ served, ∀ past, backend.lookup batch (stage past) =
      (.ok (batch.flatMap s.membersOf), stage (batch :: past)))
    (expanded : List GroupId) (rounds : Nat) (past : List (List GroupId)) :
    ∃ left, s.InBatches backend.batchSize left later ∧ ∀ fuel,
      resolve backend (served.length + fuel) (reached s root expanded frontier rounds)
          (stage past) =
        resolve backend fuel
          (reached s root (expanded ++ served.flatten) left (rounds + served.length))
          (stage (served.reverse ++ past)) := by
  induction served generalizing frontier expanded rounds past with
  | nil => exact ⟨frontier, hbatches, fun fuel => by simp⟩
  | cons batch served ih =>
    cases hbatches with
    | take hopen hrest =>
      have hround := round_answered root expanded frontier rounds
        (hanswers _ List.mem_cons_self past)
      obtain ⟨left, hleft, hrun⟩ := ih hrest
        (fun batch hbatch => hanswers batch (List.mem_cons_of_mem _ hbatch))
        (expanded ++ frontier.take backend.batchSize) (rounds + 1)
        (frontier.take backend.batchSize :: past)
      refine ⟨left, hleft, fun fuel => ?_⟩
      rw [List.length_cons, Nat.add_right_comm, resolve_ok (mt isResolved_reached.1 hopen) hround,
        hrun]
      simp only [List.flatten_cons, List.reverse_cons, List.append_assoc, List.singleton_append,
        Nat.add_assoc, Nat.add_comm 1]

/-- A queue that empties in batches is resolved in as many rounds if all of them are answered. -/
theorem resolve_inBatches {frontier : List GroupId} {batches : List (List GroupId)}
    (hbatches : s.InBatches backend.batchSize frontier batches)
    (hanswers : ∀ batch ∈ batches, ∀ past, backend.lookup batch (stage past) =
      (.ok (batch.flatMap s.membersOf), stage (batch :: past)))
    (expanded : List GroupId) (rounds : Nat) (past : List (List GroupId)) {fuel : Nat}
    (hfuel : batches.length ≤ fuel) :
    resolve backend fuel (reached s root expanded frontier rounds) (stage past) =
      (.resolved (reached s root (expanded ++ batches.flatten) [] (rounds + batches.length)),
        stage (batches.reverse ++ past)) := by
  rw [← List.append_nil batches] at hbatches
  obtain ⟨left, hleft, hrun⟩ := resolve_answered root hbatches hanswers expanded rounds past
  cases hleft
  obtain ⟨more, rfl⟩ := Nat.exists_eq_add_of_le hfuel
  rw [hrun, resolve_resolved (isResolved_reached.2 rfl)]

end Answered

section Serves
variable {s} {σ : Type} {backend : Backend σ} {stage : List (List GroupId) → σ}
  (hserves : Serves s backend stage)
include hserves

theorem round_reached (expanded frontier : List GroupId) (rounds : Nat)
    (past : List (List GroupId)) :
    (reached s root expanded frontier rounds).round backend (stage past) =
      (.ok (reached s root (expanded ++ frontier.take backend.batchSize)
          (frontier.drop backend.batchSize ++ s.expand (frontier.take backend.batchSize))
          (rounds + 1)),
        stage (frontier.take backend.batchSize :: past)) :=
  round_answered root expanded frontier rounds (hserves.answer _ _ (List.length_take_le _ _))

theorem resolve_reached {frontier order : List GroupId} (horder : s.BreadthFirst frontier order)
    (expanded : List GroupId) (rounds : Nat) (past : List (List GroupId)) :
    ∃ batches : List (List GroupId), batches.flatten = order ∧ ∀ fuel ≥ batches.length,
      resolve backend fuel (reached s root expanded frontier rounds) (stage past) =
        (.resolved (reached s root (expanded ++ order) [] (rounds + batches.length)),
          stage (batches.reverse ++ past)) := by
  obtain ⟨batches, hbatches, rfl⟩ := horder.exists_inBatches backend.batchSize_pos
  exact ⟨batches, rfl, fun _ => resolve_inBatches root hbatches (fun batch hbatch past =>
    hserves.answer past batch (hbatches.length_le batch hbatch)) expanded rounds past⟩

/-- A resolved job has taken its queue in batches, one in each round. -/
theorem exists_inBatches_of_resolved {job : Job} {t : σ} {fuel : Nat}
    {expanded frontier : List GroupId} {rounds : Nat} {past : List (List GroupId)}
    (hresolve : resolve backend fuel (reached s root expanded frontier rounds) (stage past) =
      (.resolved job, t)) :
    ∃ batches, s.InBatches backend.batchSize frontier batches ∧
      job = reached s root (expanded ++ batches.flatten) [] (rounds + batches.length) := by
  induction fuel generalizing expanded frontier rounds past with
  | zero =>
    rw [resolve] at hresolve
    split at hresolve <;> cases hresolve
    obtain rfl := isResolved_reached.1 ‹_›
    exact ⟨[], .done, by simp⟩
  | succ fuel ih =>
    by_cases hempty : frontier = []
    · subst hempty
      rw [resolve_resolved (isResolved_reached.2 rfl)] at hresolve
      cases hresolve
      exact ⟨[], .done, by simp⟩
    · rw [resolve_ok (mt isResolved_reached.1 hempty) (round_reached root hserves _ _ _ _)]
        at hresolve
      obtain ⟨batches, hbatches, rfl⟩ := ih hresolve
      refine ⟨_, .take hempty hbatches, ?_⟩
      simp only [List.flatten_cons, List.length_cons, List.append_assoc, Nat.add_assoc,
        Nat.add_comm 1]

/-- A group below which the layers come to an end is resolved once it has had all of them. -/
theorem exists_resolved {n : Nat} (hnil : s.expand^[n] [root] = []) : ∃ rounds t,
    resolve backend rounds (reached s root [] [root] 0) (stage []) =
      (.resolved (reached s root (s.layers n [root]) [] rounds), t) := by
  obtain ⟨batches, -, hresolve⟩ :=
    resolve_reached root hserves (Store.breadthFirst_layers hnil) [] 0 []
  have hrun := hresolve batches.length le_rfl
  rw [Nat.zero_add] at hrun
  exact ⟨batches.length, _, hrun⟩

end Serves

/-- The null backend answers as an empty store does. -/
theorem serves_null : Serves .empty .null fun _ => () := by
  refine ⟨fun past batch _ => ?_⟩
  have hnone : batch.flatMap Store.empty.membersOf = [] := List.flatMap_eq_nil_iff.2 fun _ _ => rfl
  rw [hnone]
  rfl

/-- A lookup that the probe does not turn down is noted and passed on. -/
theorem probed_lookup {σ : Type} (inner : Backend σ) {rules : ProbeRules} {batch : List GroupId}
    (hnone : batch.find? (rules.poisoned.contains ·) = none) (probe : Probe σ) :
    (inner.probed rules).lookup batch probe =
      ((inner.lookup batch probe.inner).1,
        ⟨(inner.lookup batch probe.inner).2, probe.writes, batch :: probe.lookups⟩) := by
  simp only [Backend.probed, hnone]

section Memory
variable {s} {ρ : Type} (h : Hierarchy) (source : WordSource ρ) (picks : ρ) (pageSize : Nat)
  (limit : UInt64)

/-- The batch limit is a word, so a word counts the positions of every batch. -/
theorem batchSize_memory_lt :
    (Backend.memory h source pageSize limit.toNat).batchSize < UInt64.size := by
  have hlimit : limit.toNat < UInt64.size := limit.toNat_lt
  change max (max limit.toNat 1) 1 < UInt64.size
  rw [Nat.max_lt, Nat.max_lt]
  exact ⟨⟨hlimit, by decide⟩, by decide⟩

theorem serves_memory :
    Serves s (Backend.memory h source pageSize limit.toNat) fun _ => ⟨s, picks⟩ := by
  refine ⟨fun past batch hbatch => ?_⟩
  have hlt := Nat.lt_of_le_of_lt hbatch (batchSize_memory_lt h source pageSize limit)
  change (s.lookup pageSize batch, _) = _
  rw [Store.lookup_eq hlt]

theorem serves_probed_memory :
    Serves s ((Backend.memory h source pageSize limit.toNat).probed {}) fun past =>
      ⟨⟨s, picks⟩, [], past⟩ := by
  refine ⟨fun past batch hbatch => ?_⟩
  have hnone : batch.find? (([] : List GroupId).contains ·) = none :=
    List.find?_eq_none.2 fun _ _ => by simp
  rw [probed_lookup _ hnone, (serves_memory h source picks pageSize limit).answer [] batch hbatch]

end Memory

/-- Whatever the batch limit and the page size are, the batches of a resolution taken together are
one and the same order, and the same users and the same number of subgroups are found. -/
def Traverses (s : Store) (root : GroupId) (order : List GroupId)
    (members : Std.ExtTreeSet GroupId) (subgroups : Nat) : Prop :=
  ∀ {ρ : Type} (h : Hierarchy) (source : WordSource ρ) (picks : ρ) (pageSize : Nat)
    (limit : UInt64), ∃ batches : List (List GroupId), batches.flatten = order ∧
      ∀ fuel ≥ batches.length,
        resolve ((Backend.memory h source pageSize limit.toNat).probed {}) fuel (.start root)
            ⟨⟨s, picks⟩, [], []⟩ =
          (.resolved ⟨root, [], members, subgroups, batches.length, .zero⟩,
            ⟨⟨s, picks⟩, [], batches.reverse⟩)

/-- The order of the lookups is the plain breadth-first one: only the places where it is cut depend
on the limits. -/
theorem traversal_ignores_cuts {s : Store} {root : GroupId} (hacyclic : s.AcyclicFrom root) :
    ∃ order members subgroups, s.BreadthFirst [root] order ∧
      Traverses s root order members subgroups := by
  obtain ⟨n, hnil⟩ := hacyclic.exists_layer_eq_nil
  have horder := Store.breadthFirst_layers hnil
  refine ⟨_, addUsers ∅ ((s.layers n [root]).flatMap s.membersOf),
    (s.expand (s.layers n [root])).length, horder, ?_⟩
  intro ρ h source picks pageSize limit
  obtain ⟨batches, hflat, hresolve⟩ := resolve_reached root
    (serves_probed_memory h source picks pageSize limit) horder [] 0 []
  refine ⟨batches, hflat, fun fuel hfuel => ?_⟩
  have hrun := hresolve fuel hfuel
  rw [List.nil_append, Nat.zero_add, List.append_nil] at hrun
  exact hrun

theorem diamond_traversal_ignores_cuts :
    Store.diamond.AcyclicFrom (.ofPosition 3 0) ∧ ∃ order members subgroups,
      Store.diamond.BreadthFirst [.ofPosition 3 0] order ∧
        Traverses Store.diamond (.ofPosition 3 0) order members subgroups := by
  have hacyclic := Store.diamond_descends.acyclicFrom (.ofPosition 3 0)
  exact ⟨hacyclic, traversal_ignores_cuts hacyclic⟩

end Job

end GroupBench
