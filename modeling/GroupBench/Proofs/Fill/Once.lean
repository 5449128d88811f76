import GroupBench.Proofs.Fill.Fleet

/-! Fleets that fill a whole hierarchy. One run of each instance is such a fleet: every write is
accepted, and none of them twice. -/
namespace GroupBench.Fill
variable {σ : Type} {backend : Backend σ} {h : Hierarchy} {view : σ → Store} {f : Fleet σ}
  {of : UInt32}

/-- Every write of the hierarchy has been accepted once. -/
def Fleet.FillsOnce (h : Hierarchy) (f : Fleet σ) : Prop :=
  ∀ a, h.Owns 1 1 a → f.accepted.count a = 1

/-- Each of the instances has had one run. It is over, no write of it was turned down, and a word
can count its claims. -/
structure Fleet.OneRunEach (h : Hierarchy) (f : Fleet σ) (of : UInt32) : Prop where
  completed : f.Completed of
  counts : ∀ r ∈ f.runs, r.setup.config.instanceCount = of
  apart : (f.runs.map fun r => r.setup.config.instanceId).Nodup
  claims : ∀ r ∈ f.runs,
    h.units r.setup.config.instanceId of + r.setup.config.workers ≤ UInt64.size

namespace Fleet

/-- What a run had accepted is of its own instance. -/
theorem Sound.owns_of_mem (hf : f.Sound backend h view) {r : Run σ} (hr : r ∈ f.runs) {a : Address}
    (ha : a ∈ Fill.accepted r.pool.events) :
    h.Owns r.setup.config.instanceId r.setup.config.instanceCount a := by
  obtain ⟨n, hc⟩ := hf.claims r hr
  obtain ⟨x, hx, rfl⟩ := List.mem_map.1 ha
  refine (hf.fits r hr).owns_of_claimed (hc.placed.mem_iff.1 (List.mem_append_right _ ?_))
  exact List.mem_map_of_mem (List.mem_of_mem_filter hx)

/-- Only one instance owns an address. -/
theorem id_eq_of_owns {id id' : UInt32} {plan plan' : FillPlan} {a : Address}
    (hplan : FillPlan.make h id of = .ok plan) (hplan' : FillPlan.make h id' of = .ok plan')
    (howns : h.Owns id of a) (howns' : h.Owns id' of a) : id = id' := by
  obtain ⟨k, hk, rfl⟩ := exists_instanceAt hplan
  obtain ⟨k', hk', rfl⟩ := exists_instanceAt hplan'
  rw [owns_unique hk hk' howns howns']

theorem OneRunEach.fillsOnce (hf : f.Sound backend h view) (hof : 1 ≤ of)
    (hone : f.OneRunEach h of) : f.FillsOnce h := by
  intro a howns
  obtain ⟨k, hk, howns⟩ := (owns_alone_iff hof).1 howns
  obtain ⟨r, hr, hid, hcount, hdone, hok⟩ := hone.completed k hk
  obtain ⟨n, hc⟩ := hf.claims r hr
  have hfits := hf.fits r hr
  have hclaims := hone.claims r hr
  rw [← hcount] at hclaims
  rw [← hid, ← hcount] at howns
  have honce := count_accepted_of_done hfits hc hdone hok howns
  rw [(laps_eq_one_iff hfits.plan hfits.units_lt hfits.workers_pos).2 hclaims] at honce
  -- The other runs are of other instances, which do not own the address.
  obtain ⟨before, later, hruns⟩ := List.append_of_mem hr
  have hapart := hone.apart
  rw [hruns, (List.perm_middle.map _).nodup_iff, List.map_cons, List.nodup_cons] at hapart
  have hothers : a ∉ (before ++ later).flatMap fun r => Fill.accepted r.pool.events := by
    intro ha
    obtain ⟨r', hr', ha⟩ := List.mem_flatMap.1 ha
    have hmem : r' ∈ f.runs := hruns ▸ List.perm_middle.mem_iff.2 (List.mem_cons_of_mem _ hr')
    have howns' := hf.owns_of_mem hmem ha
    have hplan' := (hf.fits r' hmem).plan
    rw [hone.counts r' hmem, ← hcount] at howns' hplan'
    exact hapart.1 (List.mem_map.2 ⟨r', hr', id_eq_of_owns hplan' hfits.plan howns' howns⟩)
  rw [accepted, hruns, (List.perm_middle.flatMap_right _).count_eq, List.flatMap_cons,
    List.count_append, honce, List.count_eq_zero_of_not_mem hothers]

/-- A store that a fleet has filled. -/
theorem Sound.filled (hf : f.Sound backend h view) (honce : f.FillsOnce h) :
    (view f.store).Filled h := by
  obtain ⟨written, hbuilt, hperm⟩ := hf.built
  refine ⟨written, hbuilt, ?_, fun a howns => ?_⟩
  · refine List.nodup_iff_count_le_one.2 fun a => ?_
    by_cases ha : a ∈ written
    · rw [hperm.count_eq, honce a (hbuilt.owns ha)]
    · rw [List.count_eq_zero_of_not_mem ha]
      exact Nat.zero_le 1
  · refine List.count_pos_iff.1 ?_
    rw [hperm.count_eq, honce a howns]
    exact Nat.one_pos

end Fleet

end GroupBench.Fill
