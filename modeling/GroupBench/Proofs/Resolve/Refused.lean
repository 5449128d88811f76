import GroupBench.Proofs.Resolve.Closure

/-! A resolution fails just if a refused group is below its root. Lookups follow the breadth-first
order, so the first refused group of that order is the one that the failure names, wherever batches
cut the order. -/
namespace GroupBench

namespace Job
variable {s : Store} {root : GroupId}

/-- A backend that refuses some groups: a lookup with one of them in its batch names the first, and
every other lookup is answered from a store. The states tell which lookups there were before, latest
first. -/
structure Refuses (s : Store) {σ : Type} (backend : Backend σ) (stage : List (List GroupId) → σ)
    (refused : GroupId → Bool) : Prop where
  answer : ∀ past batch, batch.length ≤ backend.batchSize → batch.find? refused = none →
    backend.lookup batch (stage past) = (.ok (batch.flatMap s.membersOf), stage (batch :: past))
  refusal : ∀ past batch id, batch.find? refused = some id →
    backend.lookup batch (stage past) = (.error (.lookupRefused id), stage (batch :: past))

/-- How a resolution along an order ends if some groups are poisoned, and the lookups it has made,
latest first. -/
structure StopsAtFirst (s : Store) (root : GroupId) (order poisoned : List GroupId)
    (outcome : Progress) (lookups : List (List GroupId)) : Prop where
  ended : outcome.ended?.isSome
  failed_iff : (∃ fault, outcome = .failed fault) ↔
    ∃ id ∈ poisoned, Relation.ReflTransGen s.HasSubgroup root id
  names_first : ∀ fault, outcome = .failed fault →
    ∃ id, order.find? (poisoned.contains ·) = some id ∧ fault = .lookupRefused id
  no_lookup_after : ∀ fault, outcome = .failed fault →
    ∃ last earlier, lookups = last :: earlier ∧ (∃ id ∈ last, id ∈ poisoned) ∧
      ∀ batch ∈ earlier, ∀ id ∈ batch, id ∉ poisoned

section Refuses
variable {σ : Type} {backend : Backend σ} {stage : List (List GroupId) → σ}
  {refused : GroupId → Bool} (hrefuses : Refuses s backend stage refused)
include hrefuses

/-- A round whose batch has a refused group in it fails. -/
theorem round_refused (j : Job) {id : GroupId}
    (hfirst : (j.frontier.take backend.batchSize).find? refused = some id)
    (past : List (List GroupId)) : j.round backend (stage past) =
      (.error (.lookupRefused id), stage (j.frontier.take backend.batchSize :: past)) := by
  have hrefusal := hrefuses.refusal past _ id hfirst
  rw [round, takeBatch_batchSize]
  simp only [hrefusal]

theorem answers_of_none {frontier : List GroupId} {batches served : List (List GroupId)}
    (hbatches : s.InBatches backend.batchSize frontier batches) (hsub : served ⊆ batches)
    (hserved : ∀ batch ∈ served, batch.find? refused = none) :
    ∀ batch ∈ served, ∀ past, backend.lookup batch (stage past) =
      (.ok (batch.flatMap s.membersOf), stage (batch :: past)) := by
  intro batch hbatch past
  exact hrefuses.answer past batch (hbatches.length_le batch (hsub hbatch)) (hserved batch hbatch)

/-- The batches before the first one with a refused group are taken, and that one is the last. -/
theorem resolve_refused {served later : List (List GroupId)} {batch : List GroupId} {id : GroupId}
    (hbatches : s.InBatches backend.batchSize [root] (served ++ batch :: later))
    (hserved : ∀ batch ∈ served, batch.find? refused = none)
    (hfirst : batch.find? refused = some id) {fuel : Nat} (hfuel : served.length < fuel) :
    resolve backend fuel (.start root) (stage []) =
      (.failed (.lookupRefused id), stage (batch :: served.reverse)) := by
  have hanswers := answers_of_none hrefuses hbatches (List.subset_append_left _ _) hserved
  obtain ⟨left, hleft, hrun⟩ := resolve_answered root hbatches hanswers [] 0 []
  obtain ⟨more, rfl⟩ := Nat.exists_eq_add_of_lt hfuel
  cases hleft with
  | take hopen _ =>
    have hfails := hrun (more + 1)
    rw [resolve_error (mt isResolved_reached.1 hopen) (round_refused hrefuses _ hfirst _),
      List.append_nil] at hfails
    exact hfails

end Refuses

section Poisoned
variable {order poisoned : List GroupId}

theorem find?_poisoned_eq_none {batch : List GroupId} :
    batch.find? (poisoned.contains ·) = none ↔ ∀ id ∈ batch, id ∉ poisoned := by
  simp [List.find?_eq_none]

theorem mem_of_find?_poisoned {batch : List GroupId} {id : GroupId}
    (hfirst : batch.find? (poisoned.contains ·) = some id) : id ∈ batch ∧ id ∈ poisoned :=
  ⟨List.mem_of_find?_eq_some hfirst, List.contains_iff_mem.1 (List.find?_some hfirst)⟩

section Order
variable (hmem : ∀ id, id ∈ order ↔ Relation.ReflTransGen s.HasSubgroup root id)
include hmem

theorem stopsAtFirst_resolved (hnone : order.find? (poisoned.contains ·) = none) (job : Job)
    (lookups : List (List GroupId)) :
    StopsAtFirst s root order poisoned (.resolved job) lookups := by
  refine ⟨rfl, ⟨?_, ?_⟩, nofun, nofun⟩
  · rintro ⟨fault, hfault⟩
    cases hfault
  · rintro ⟨id, hpoisoned, hreach⟩
    exact absurd hpoisoned (find?_poisoned_eq_none.1 hnone id ((hmem id).2 hreach))

theorem stopsAtFirst_failed {id : GroupId} (hfirst : order.find? (poisoned.contains ·) = some id)
    {last : List GroupId} (hlast : last.find? (poisoned.contains ·) = some id)
    {earlier : List (List GroupId)}
    (hearlier : ∀ batch ∈ earlier, batch.find? (poisoned.contains ·) = none) :
    StopsAtFirst s root order poisoned (.failed (.lookupRefused id)) (last :: earlier) := by
  obtain ⟨hid, hpoisoned⟩ := mem_of_find?_poisoned hfirst
  refine ⟨rfl, ⟨fun _ => ?_, fun _ => ⟨_, rfl⟩⟩, ?_, ?_⟩
  · exact ⟨id, hpoisoned, (hmem id).1 hid⟩
  · intro fault hfault
    cases hfault
    exact ⟨id, hfirst, rfl⟩
  · intro fault _
    refine ⟨last, earlier, rfl, ⟨id, mem_of_find?_poisoned hlast⟩, ?_⟩
    intro batch hbatch
    exact find?_poisoned_eq_none.1 (hearlier batch hbatch)

/-- A resolution that goes along an order of all groups below its root ends, and it fails at the
first one that is poisoned. -/
theorem exists_stopsAtFirst {σ : Type} {backend : Backend σ} {stage : List (List GroupId) → σ}
    (hrefuses : Refuses s backend stage (poisoned.contains ·))
    (horder : s.BreadthFirst [root] order) :
    ∃ outcome lookups rounds, (∀ fuel ≥ rounds,
      resolve backend fuel (.start root) (stage []) = (outcome, stage lookups)) ∧
        StopsAtFirst s root order poisoned outcome lookups := by
  obtain ⟨batches, hbatches, rfl⟩ := horder.exists_inBatches backend.batchSize_pos
  cases hfirst : batches.flatten.find? (poisoned.contains ·) with
  | none =>
    have hserved := List.findSome?_eq_none_iff.1 (List.find?_flatten.symm.trans hfirst)
    have hanswers := answers_of_none hrefuses hbatches (List.Subset.refl _) hserved
    exact ⟨_, _, batches.length, fun fuel hfuel =>
      resolve_inBatches root hbatches hanswers [] 0 [] hfuel,
      stopsAtFirst_resolved hmem hfirst _ _⟩
  | some id =>
    obtain ⟨served, batch, later, rfl, hbatch, hserved⟩ :=
      List.findSome?_eq_some_iff.1 (List.find?_flatten.symm.trans hfirst)
    refine ⟨_, _, served.length + 1, fun fuel hfuel =>
      resolve_refused hrefuses hbatches hserved hbatch hfuel,
      stopsAtFirst_failed hmem hfirst hbatch ?_⟩
    intro earlier hearlier
    exact hserved earlier (List.mem_reverse.1 hearlier)

end Order

theorem refuses_memory (poisoned : List GroupId) {ρ : Type} (h : Hierarchy) (source : WordSource ρ)
    (picks : ρ) (pageSize : Nat) (limit : UInt64) :
    Refuses s ((Backend.memory h source pageSize limit.toNat).probed { poisoned := poisoned })
      (fun past => ⟨⟨s, picks⟩, [], past⟩) (poisoned.contains ·) := by
  refine ⟨fun past batch hbatch hnone => ?_, fun past batch id hfirst => ?_⟩
  · rw [probed_lookup _ hnone, (serves_memory h source picks pageSize limit).answer [] batch hbatch]
  · simp only [Backend.probed, hfirst]

end Poisoned

/-- A resolution fails just if a poisoned group is its root or below it, and the failure names the
first of them in breadth-first order. -/
theorem fails_at_first_poisoned (hacyclic : s.AcyclicFrom root) :
    ∃ order, s.BreadthFirst [root] order ∧
      ∀ (poisoned : List GroupId) {ρ : Type} (h : Hierarchy) (source : WordSource ρ) (picks : ρ)
        (pageSize : Nat) (limit : UInt64), ∃ outcome lookups rounds,
          (∀ fuel ≥ rounds,
            resolve ((Backend.memory h source pageSize limit.toNat).probed { poisoned := poisoned })
                fuel (.start root) ⟨⟨s, picks⟩, [], []⟩ =
              (outcome, ⟨⟨s, picks⟩, [], lookups⟩)) ∧
          StopsAtFirst s root order poisoned outcome lookups := by
  obtain ⟨n, hnil⟩ := hacyclic.exists_layer_eq_nil
  have horder := Store.breadthFirst_layers hnil
  refine ⟨_, horder, fun poisoned {ρ} h source picks pageSize limit => ?_⟩
  exact exists_stopsAtFirst (fun _ => Store.mem_layers hnil)
    (refuses_memory poisoned h source picks pageSize limit) horder

theorem diamond_fails_at_first_poisoned :
    Store.diamond.AcyclicFrom (.ofPosition 3 0) ∧
      ∃ order, Store.diamond.BreadthFirst [.ofPosition 3 0] order ∧ ∃ fault lookups rounds,
        (∀ fuel ≥ rounds,
          resolve ((Backend.memory diamondHierarchy .congruential 1 (1 : UInt64).toNat).probed
              { poisoned := [.ofPosition 1 0, .ofPosition 2 1] })
              fuel (.start (.ofPosition 3 0)) ⟨⟨Store.diamond, 0⟩, [], []⟩ =
            (.failed fault, ⟨⟨Store.diamond, 0⟩, [], lookups⟩)) ∧
        StopsAtFirst Store.diamond (.ofPosition 3 0) order [.ofPosition 1 0, .ofPosition 2 1]
          (.failed fault) lookups := by
  have hacyclic := Store.diamond_descends.acyclicFrom (.ofPosition 3 0)
  obtain ⟨order, horder, hstops⟩ := fails_at_first_poisoned hacyclic
  obtain ⟨outcome, lookups, rounds, hrun, hstop⟩ := hstops [.ofPosition 1 0, .ofPosition 2 1]
    diamondHierarchy .congruential 0 1 1
  have hedge : Store.diamond.HasSubgroup (.ofPosition 3 0) (.ofPosition 2 1) := by
    rw [← Store.mem_subgroupsOf]
    decide
  obtain ⟨fault, rfl⟩ := hstop.failed_iff.2
    ⟨.ofPosition 2 1, List.mem_cons_of_mem _ List.mem_cons_self, .single hedge⟩
  exact ⟨hacyclic, order, horder, fault, lookups, rounds, hrun, hstop⟩

end Job

end GroupBench
