import GroupBench.Proofs.Resolve.Closure
import GroupBench.Proofs.Store.Heights

/-! How many rounds a resolution takes. It ends just if no cycle is below its root. A round either
takes the whole queue, which leaves a layer less below it, or takes a full batch, and there are no
more full batches than the groups taken make. -/
namespace GroupBench

namespace Store.InBatches
variable {s : Store} {size n : Nat} {frontier : List GroupId} {batches : List (List GroupId)}

/-- A group is taken for each one in the queue and for each that joins it. -/
theorem length_flatten (hbatches : s.InBatches size frontier batches) :
    batches.flatten.length = frontier.length + (s.expand batches.flatten).length := by
  induction hbatches with
  | done => rfl
  | @take frontier batches _ _ ih =>
    have hsplit := congrArg List.length (List.take_append_drop size frontier)
    simp only [List.length_append] at hsplit ih
    simp only [List.flatten_cons, Store.expand_append, List.length_append]
    omega

theorem length_flatten_le (hbatches : s.InBatches size frontier batches) :
    batches.flatten.length ≤ batches.length * size := by
  induction hbatches with
  | done => simp
  | @take frontier batches _ _ ih =>
    have htaken := List.length_take_le size frontier
    simp only [List.flatten_cons, List.length_append, List.length_cons, Nat.succ_mul]
    omega

/-- A group in the queue takes a round, and so does each group on a path down from it. -/
theorem length_path_lt (hbatches : s.InBatches size frontier batches) {group : GroupId}
    (hgroup : group ∈ frontier) {path : List GroupId}
    (hchain : (group :: path).IsChain s.HasSubgroup) : path.length < batches.length := by
  induction hbatches generalizing group path with
  | done => cases hgroup
  | @take frontier batches _ _ ih =>
    rw [← List.take_append_drop size frontier, List.mem_append] at hgroup
    rcases hgroup with htaken | hleft
    · cases path with
      | nil => simp
      | cons next rest =>
        obtain ⟨hedge, hchain⟩ := List.isChain_cons_cons.1 hchain
        have hnext : next ∈ s.expand (frontier.take size) :=
          List.mem_flatMap.2 ⟨group, htaken, s.mem_subgroupsOf.2 hedge⟩
        have hlt := ih (List.mem_append_right _ hnext) hchain
        simp only [List.length_cons]
        omega
    · have hlt := ih (List.mem_append_left _ hleft) hchain
      rw [List.length_cons]
      omega

/-- The queue that a round leaves behind if it takes the whole of it. -/
theorem queue_of_length_le (hle : frontier.length ≤ size) :
    frontier.drop size ++ s.expand (frontier.take size) = s.expand frontier := by
  rw [List.drop_eq_nil_of_le hle, List.take_of_length_le hle, List.nil_append]

theorem layer_of_nonempty (hopen : frontier ≠ []) (hnil : s.expand^[n] frontier = []) :
    ∃ less, n = less + 1 ∧ s.expand^[less] (s.expand frontier) = [] := by
  cases n with
  | zero => exact absurd hnil hopen
  | succ less => exact ⟨less, rfl, hnil⟩

/-- Whatever a round takes, it adds no layer. -/
theorem layer_of_round (hnil : s.expand^[n] frontier = []) :
    s.expand^[n] (frontier.drop size ++ s.expand (frontier.take size)) = [] := by
  rw [← List.take_append_drop size frontier, Store.layer_append, List.append_eq_nil_iff] at hnil
  have hbelow := Store.layer_eq_nil_of_le hnil.1 (Nat.le_succ n)
  rw [Function.iterate_succ_apply] at hbelow
  rw [Store.layer_append, hnil.2, hbelow, List.append_nil]

/-- Layers end with the rounds. -/
theorem layer_eq_nil {root : GroupId} (hbatches : s.InBatches size [root] batches) :
    s.expand^[batches.length] [root] = [] := by
  by_contra hlayer
  obtain ⟨path, hlength, hchain⟩ := Store.layer_ne_nil_iff.1 hlayer
  have hlt := hbatches.length_path_lt (List.mem_singleton_self root) hchain
  omega

/-- Rounds that take the whole queue are no more than the layers, and each of the others takes a
full batch. -/
theorem exists_split (hbatches : s.InBatches size frontier batches)
    (hnil : s.expand^[n] frontier = []) : ∃ draining full, batches.length = draining + full ∧
      draining ≤ n ∧ draining + full * size ≤ batches.flatten.length := by
  induction hbatches generalizing n with
  | done => exact ⟨0, 0, rfl, Nat.zero_le n, by simp⟩
  | @take frontier batches hopen _ ih =>
    have hpos := List.length_pos_iff.2 hopen
    simp only [List.length_cons, List.flatten_cons, List.length_append, List.length_take]
    by_cases hle : frontier.length ≤ size
    · obtain ⟨less, rfl, hless⟩ := layer_of_nonempty hopen hnil
      obtain ⟨draining, full, hlength, hdraining, htaken⟩ :=
        ih (by rwa [queue_of_length_le hle])
      exact ⟨draining + 1, full, by omega, by omega, by omega⟩
    · obtain ⟨draining, full, hlength, hdraining, htaken⟩ := ih (layer_of_round hnil)
      refine ⟨draining, full + 1, by omega, hdraining, ?_⟩
      rw [Nat.succ_mul]
      omega

end Store.InBatches

/-- As many full batches fit beside the rounds that take the whole queue as the groups allow that
those rounds leave over. -/
theorem rounds_le {size height draining full total : Nat} (hsize : 0 < size)
    (hdraining : draining ≤ height) (htotal : draining + full * size ≤ total) :
    draining + full ≤ height + (total - height) / size := by
  rcases Nat.le_total full (height - draining) with hfew | hmany
  · have hrounds : draining + full ≤ height := by omega
    exact hrounds.trans (Nat.le_add_right _ _)
  · -- The rounds beyond the height are full ones.
    obtain ⟨more, rfl⟩ := Nat.exists_eq_add_of_le hmany
    have hwhole := Nat.le_mul_of_pos_right (height - draining) hsize
    rw [Nat.add_mul] at htotal
    have hmore : more ≤ (total - height) / size := (Nat.le_div_iff_mul_le hsize).2 (by omega)
    omega

namespace Job
variable {s : Store} {root : GroupId}

/-- The queue of a job never has more groups in it than a batch takes. -/
def Narrow {σ : Type} (backend : Backend σ) (j : Job) (t : σ) : Prop :=
  ∀ fuel late t', resolve backend fuel j t = (.unfinished late, t') →
    late.frontier.length ≤ backend.batchSize

/-- The rounds of a resolved job lie between what the longest way down and the batches make
necessary and what they make possible. -/
structure RoundsWithin (size height : Nat) (job : Job) : Prop where
  height_le : height ≤ job.subgroups + 1
  lower : max height ((job.subgroups + 1 + size - 1) / size) ≤ job.depth
  upper : job.depth ≤ height + (job.subgroups + 1 - height) / size

section Serves
variable {σ : Type} {backend : Backend σ} {stage : List (List GroupId) → σ}
  (hserves : Serves s backend stage)
include hserves

/-- While the queue is narrow every round takes the whole of it. -/
theorem length_le_of_narrow {frontier : List GroupId} {batches : List (List GroupId)}
    (hbatches : s.InBatches backend.batchSize frontier batches) {expanded : List GroupId}
    {rounds : Nat} {past : List (List GroupId)}
    (hnarrow : Narrow backend (reached s root expanded frontier rounds) (stage past)) {n : Nat}
    (hnil : s.expand^[n] frontier = []) : batches.length ≤ n := by
  induction hbatches generalizing expanded rounds past n with
  | done => exact Nat.zero_le n
  | @take frontier batches hopen _ ih =>
    have hunresolved : ¬ (reached s root expanded frontier rounds).isResolved :=
      mt isResolved_reached.1 hopen
    have hle : frontier.length ≤ backend.batchSize :=
      hnarrow 0 _ _ (by rw [resolve, if_neg hunresolved])
    obtain ⟨less, rfl, hless⟩ := Store.InBatches.layer_of_nonempty hopen hnil
    have hround := round_reached root hserves expanded frontier rounds past
    have hlater := ih (n := less) (fun fuel late t' hlate =>
      hnarrow (fuel + 1) late t' (by rw [resolve_ok hunresolved hround, hlate]))
      (by rwa [Store.InBatches.queue_of_length_le hle])
    rw [List.length_cons]
    omega

/-- Every group taken but the root was met as a subgroup, and every round took a batch. -/
theorem exists_batches {fuel : Nat} {job : Job} {t : σ}
    (hresolve : resolve backend fuel (.start root) (stage []) = (.resolved job, t)) :
    ∃ batches, s.InBatches backend.batchSize [root] batches ∧ job.depth = batches.length ∧
      job.subgroups + 1 = batches.flatten.length := by
  change resolve backend fuel (reached s root [] [root] 0) (stage []) = _ at hresolve
  obtain ⟨batches, hbatches, rfl⟩ := exists_inBatches_of_resolved root hserves hresolve
  refine ⟨batches, hbatches, Nat.zero_add _, ?_⟩
  rw [hbatches.length_flatten, List.length_singleton, Nat.add_comm]
  rfl

theorem exists_height {fuel : Nat} {job : Job} {t : σ}
    (hresolve : resolve backend fuel (.start root) (stage []) = (.resolved job, t)) :
    ∃ height, s.IsHeight root height ∧ job.RoundsWithin backend.batchSize height ∧
      (Narrow backend (.start root) (stage []) → job.depth = height) := by
  have hsize := backend.batchSize_pos
  obtain ⟨batches, hbatches, hdepth, htaken⟩ := exists_batches hserves hresolve
  have hacyclic := Store.acyclicFrom_iff.2 ⟨_, hbatches.layer_eq_nil⟩
  obtain ⟨height, hheight, hnil⟩ := Store.exists_isHeight hacyclic
  have hlong : height ≤ batches.length := by
    obtain ⟨path, hchain, rfl⟩ := hheight.1
    exact hbatches.length_path_lt (List.mem_singleton_self root) hchain
  have hbatched : (batches.flatten.length + backend.batchSize - 1) / backend.batchSize ≤
      batches.length := by
    have hle := hbatches.length_flatten_le
    rw [Nat.div_le_iff_le_mul_add_pred hsize, Nat.mul_comm]
    omega
  obtain ⟨draining, full, hrounds, hdraining, htotal⟩ := hbatches.exists_split hnil
  have hfull := Nat.le_mul_of_pos_right full hsize
  refine ⟨height, hheight, ⟨?_, ?_, ?_⟩, fun hnarrow => ?_⟩
  · omega
  · rw [hdepth, htaken]
    exact Nat.max_le.2 ⟨hlong, hbatched⟩
  · rw [hdepth, htaken, hrounds]
    exact rounds_le hsize hdraining htotal
  · change Narrow backend (reached s root [] [root] 0) (stage []) at hnarrow
    rw [hdepth]
    exact Nat.le_antisymm (length_le_of_narrow hserves hbatches hnarrow hnil) hlong

end Serves

/-- A resolution ends just if no cycle can be reached from its root. -/
theorem resolution_ends_iff_acyclic (s : Store) (root : GroupId) {ρ : Type} (h : Hierarchy)
    (source : WordSource ρ) (picks : ρ) (pageSize : Nat) (limit : UInt64) :
    ((∃ fuel job t, resolve (Backend.memory h source pageSize limit.toNat) fuel (.start root)
        ⟨s, picks⟩ = (.resolved job, t)) ↔ s.AcyclicFrom root) ∧
      ∀ fuel job t, resolve (Backend.memory h source pageSize limit.toNat) fuel (.start root)
          ⟨s, picks⟩ = (.resolved job, t) →
        ∃ height, s.IsHeight root height ∧ job.RoundsWithin (max limit.toNat 1) height ∧
          (Narrow (Backend.memory h source pageSize limit.toNat) (.start root) ⟨s, picks⟩ →
            job.depth = height) := by
  have hserves := serves_memory (s := s) h source picks pageSize limit
  have hsize : (Backend.memory h source pageSize limit.toNat).batchSize = max limit.toNat 1 :=
    Nat.max_eq_left (Nat.le_max_right _ _)
  refine ⟨⟨?_, ?_⟩, ?_⟩
  · rintro ⟨fuel, job, t, hresolve⟩
    obtain ⟨batches, hbatches, -⟩ := exists_batches hserves hresolve
    exact Store.acyclicFrom_iff.2 ⟨_, hbatches.layer_eq_nil⟩
  · intro hacyclic
    obtain ⟨n, hnil⟩ := hacyclic.exists_layer_eq_nil
    obtain ⟨rounds, t, hresolve⟩ := exists_resolved root hserves hnil
    exact ⟨rounds, _, t, hresolve⟩
  · intro fuel job t hresolve
    rw [← hsize]
    exact exists_height hserves hresolve

/-- One group at a time is looked up, from the top of the diamond on. -/
theorem diamond_resolution_ends :
    ∃ fuel job t, resolve (Backend.memory diamondHierarchy .congruential 1 (1 : UInt64).toNat) fuel
        (.start (.ofPosition 3 0)) ⟨Store.diamond, 0⟩ = (.resolved job, t) ∧
      ∃ height, Store.diamond.IsHeight (.ofPosition 3 0) height ∧ job.RoundsWithin 1 height := by
  obtain ⟨hends, hrounds⟩ := resolution_ends_iff_acyclic Store.diamond (.ofPosition 3 0)
    diamondHierarchy .congruential (0 : UInt64) 1 1
  obtain ⟨fuel, job, t, hresolve⟩ := hends.2 (Store.diamond_descends.acyclicFrom (.ofPosition 3 0))
  obtain ⟨height, hheight, hwithin, -⟩ := hrounds fuel job t hresolve
  exact ⟨fuel, job, t, hresolve, height, hheight, hwithin⟩

end Job

end GroupBench
