import GroupBench.Backend.Probe
import GroupBench.Proofs.Fill.ExactlyOnce
import GroupBench.Proofs.Store.Complete

/-! Any number of fill runs over one store. Runs of all instances may begin at any time, and the
steps of their workers interleave in any order. -/
namespace GroupBench
variable {σ : Type}

/-- The backend writes as the in-process store does, whatever it draws the members from, or turns a
write down and leaves the tables as they are. Its tables are what `view` shows of it. -/
structure Backend.Tabled (backend : Backend σ) (h : Hierarchy) (view : σ → Store) : Prop where
  write : ∀ w s,
    (∃ fault, (backend.write w s).1 = .error fault) ∧ view (backend.write w s).2 = view s ∨
      (backend.write w s).1 = .ok () ∧ ∃ (ρ : Type) (source : WordSource ρ) (picks : ρ),
        view (backend.write w s).2 = ((⟨view s, picks⟩ : MemoryState ρ).write h source w).store

theorem Backend.tabled_memory {ρ : Type} (h : Hierarchy) (source : WordSource ρ)
    (pageSize limit : Nat) :
    (Backend.memory h source pageSize limit).Tabled h MemoryState.store :=
  ⟨fun _ s => .inr ⟨rfl, ρ, source, s.picks, rfl⟩⟩

theorem Backend.Tabled.probed {backend : Backend σ} {h : Hierarchy} {view : σ → Store}
    (hb : backend.Tabled h view) (rules : ProbeRules) :
    (backend.probed rules).Tabled h fun probe => view probe.inner := by
  refine ⟨fun w s => ?_⟩
  simp only [Backend.probed]
  split
  · exact .inl ⟨⟨_, rfl⟩, rfl⟩
  · exact hb.write w s.inner

namespace Fill

/-- A run among others: what it was given, and its pool as the last turn in it left it. -/
structure Run (σ : Type) where
  setup : Setup σ
  pool : State σ

/-- Runs over one store, in the order in which they began. -/
structure Fleet (σ : Type) where
  runs : List (Run σ)
  store : σ

/-- What may happen next. -/
inductive Move
  /-- A run begins, if its configuration can be run. -/
  | launch (config : RunConfig) (now : Instant)
  /-- A worker of one of the runs takes a turn. -/
  | turn (run : Nat) (turn : Turn)

namespace Fleet

def step (backend : Backend σ) (h : Hierarchy) (f : Fleet σ) : Move → Fleet σ
  | .launch config now =>
    match Setup.make backend h config with
    | .error _ => f
    | .ok setup => { f with runs := f.runs ++ [⟨setup, setup.initial now f.store⟩] }
  | .turn run turn =>
    match f.runs[run]? with
    | none => f
    | some r =>
      let pool := State.step r.setup { r.pool with store := f.store } turn
      { runs := f.runs.set run { r with pool }, store := pool.store }

/-- The runs and the store after some moves, with no run at the beginning. -/
def after (backend : Backend σ) (h : Hierarchy) (moves : List Move) (store : σ) : Fleet σ :=
  moves.foldl (step backend h) ⟨[], store⟩

end Fleet

/-- Addresses that the store accepted, in the order of the events. -/
def accepted (events : List Event) : List Address :=
  ((handed events).filter fun x => x.2.isOk).map Prod.fst

/-- Addresses that the store accepted from any of the runs. -/
def Fleet.accepted (f : Fleet σ) : List Address :=
  f.runs.flatMap fun r => Fill.accepted r.pool.events

/-- Each of the instances has a run that is over and had no write turned down. -/
def Fleet.Completed (f : Fleet σ) (of : UInt32) : Prop :=
  ∀ k < of.toNat, ∃ r ∈ f.runs, r.setup.config.instanceId = instanceAt k ∧
    r.setup.config.instanceCount = of ∧ r.pool.isDone ∧ ∀ x ∈ handed r.pool.events, x.2.isOk

/-- The setup is one for this hierarchy and for an instance whose writes a word can count. -/
structure Setup.Fits (setup : Setup σ) (backend : Backend σ) (h : Hierarchy) : Prop where
  backend_eq : setup.backend = backend
  workers_pos : 0 < setup.config.workers
  hierarchy_eq : setup.plan.hierarchy = h
  plan : FillPlan.make h setup.config.instanceId setup.config.instanceCount = .ok setup.plan
  units_lt : h.units setup.config.instanceId setup.config.instanceCount < UInt64.size

/-- What holds of the runs and the store after any moves. The accepted writes, in the order in which
they came to the store, have made it what it is. -/
structure Fleet.Sound (backend : Backend σ) (h : Hierarchy) (view : σ → Store) (f : Fleet σ) :
    Prop where
  fits : ∀ r ∈ f.runs, r.setup.Fits backend h
  claims : ∀ r ∈ f.runs, ∃ n, Claims r.setup n r.pool
  built : ∃ written, Store.Built h written (view f.store) ∧ written.Perm f.accepted

section Pool
variable {backend : Backend σ} {h : Hierarchy} {config : RunConfig} {setup : Setup σ}
  {s : State σ} {n : Nat} {a : Address}

theorem make_backend (hmake : Setup.make backend h config = .ok setup) :
    setup.backend = backend := by
  rw [Setup.make] at hmake
  split at hmake
  · cases hmake
  · cases hplan : FillPlan.make h config.instanceId config.instanceCount with
    | error fault =>
      rw [hplan] at hmake
      cases hmake
    | ok plan =>
      rw [hplan] at hmake
      cases hmake
      rfl

theorem make_fits (hfit : h.units config.instanceId config.instanceCount < UInt64.size)
    (hmake : Setup.make backend h config = .ok setup) : setup.Fits backend h := by
  have hbackend := make_backend hmake
  obtain ⟨hworkers, rfl, hhierarchy, hplan⟩ := make_eq_ok hmake
  exact ⟨hbackend, hworkers, hhierarchy, hplan, hfit⟩

/-- An instance has no more units than all of them together. -/
theorem units_lt_of_make (hfit : h.units 1 1 < UInt64.size)
    (hmake : Setup.make backend h config = .ok setup) :
    h.units config.instanceId config.instanceCount < UInt64.size := by
  obtain ⟨-, -, -, hplan⟩ := make_eq_ok hmake
  obtain ⟨k, hk, hid⟩ := exists_instanceAt hplan
  rw [← hid]
  exact Nat.lt_of_le_of_lt (units_instanceAt_le hk) hfit

/-- What an instance has claimed is an address of its own. -/
theorem Setup.Fits.owns_of_claimed (hs : setup.Fits backend h) (ha : a ∈ setup.plan.claimed n) :
    h.Owns setup.config.instanceId setup.config.instanceCount a := by
  obtain ⟨j, -, haddress⟩ := List.mem_filterMap.1 ha
  exact (owns_iff_exists_index hs.plan hs.units_lt).2 ⟨_, haddress⟩

theorem Setup.Fits.owns (hs : setup.Fits backend h) (ha : a ∈ setup.plan.claimed n) :
    h.Owns 1 1 a := by
  obtain ⟨k, hk, hid⟩ := exists_instanceAt hs.plan
  refine (owns_alone_iff (UInt32.le_iff_toNat_le.2 (Nat.zero_lt_of_lt hk))).2 ⟨k, hk, ?_⟩
  rw [hid]
  exact hs.owns_of_claimed ha

/-- The claims of a run do not depend on the store, so they stand when other runs write to it. -/
theorem Claims.withStore (hc : Claims setup n s) (store : σ) : Claims setup n { s with store } :=
  ⟨hc.next, hc.size, hc.placed, hc.out, hc.last⟩

/-- A write that was turned down leaves the tables as they are, and one that was accepted is a write
of the in-process store. -/
theorem write_answer {view : σ → Store} {store store' : σ} {result : Except StoreFault Unit}
    (hpop : h.Populated) (hb : backend.Tabled h view) (howns : h.Owns 1 1 a)
    (hwrite : backend.write (h.write a) store = (result, store')) :
    (∃ fault, result = .error fault) ∧ view store' = view store ∨
      result = .ok () ∧ (view store).Takes h a (view store') := by
  have hanswer := hb.write (h.write a) store
  rw [hwrite] at hanswer
  obtain hrefused | ⟨hok, ρ, source, picks, hview⟩ := hanswer
  · exact .inl hrefused
  · refine .inr ⟨hok, ?_⟩
    rw [hview]
    exact Store.takes_write hpop source picks _ howns

/-- A step leaves the tables and the record of accepted writes alone, or it adds one write of the
hierarchy to both. -/
theorem Setup.Fits.step {view : σ → Store} (hpop : h.Populated) (hb : backend.Tabled h view)
    (hs : setup.Fits backend h) (hc : Claims setup n s) (turn : Turn) :
    (∃ n, Claims setup n (s.step setup turn)) ∧
      (view (s.step setup turn).store = view s.store ∧
          accepted (s.step setup turn).events = accepted s.events ∨
        ∃ a, h.Owns 1 1 a ∧ (view s.store).Takes h a (view (s.step setup turn).store) ∧
          accepted (s.step setup turn).events = a :: accepted s.events) := by
  obtain he | ⟨w, hw, he⟩ := step_effect setup s turn
  · rw [he]
    exact ⟨⟨n, hc⟩, .inl ⟨rfl, rfl⟩⟩
  refine ⟨(claims_effect hc hw he).imp fun _ hm => hm.2, ?_⟩
  generalize s.step setup turn = t at he
  cases he with
  | quiet | overran => exact .inl ⟨rfl, rfl⟩
  | claimed a v events _ _ _ _ _ _ hevents => exact .inl ⟨rfl, by rw [accepted, hevents, accepted]⟩
  | folded v window events _ _ _ hevents => exact .inl ⟨rfl, by rw [accepted, hevents, accepted]⟩
  | wrote a v result store hunit _ _ hwrite _ =>
    have hheld : a ∈ s.workers.filterMap (·.pc.unit?) :=
      List.mem_filterMap.2 ⟨w, List.mem_of_getElem? hw, hunit⟩
    have howns := hs.owns (hc.placed.mem_iff.1 (List.mem_append_left _ hheld))
    rw [hs.backend_eq, FillPlan.write_eq, hs.hierarchy_eq] at hwrite
    obtain ⟨⟨fault, rfl⟩, hview⟩ | ⟨rfl, htakes⟩ := write_answer hpop hb howns hwrite
    · exact .inl ⟨hview, rfl⟩
    · exact .inr ⟨a, howns, htakes, rfl⟩

end Pool

namespace Fleet
variable {backend : Backend σ} {h : Hierarchy} {view : σ → Store} {f : Fleet σ}

theorem sound_launch (hfit : h.units 1 1 < UInt64.size) (hf : f.Sound backend h view)
    (config : RunConfig) (now : Instant) :
    (f.step backend h (.launch config now)).Sound backend h view := by
  rw [step]
  split
  · exact hf
  · rename_i setup hmake
    refine ⟨?_, ?_, ?_⟩
    · intro r hr
      rcases List.mem_append.1 hr with hr | hr
      · exact hf.fits r hr
      · rw [List.mem_singleton.1 hr]
        exact make_fits (units_lt_of_make hfit hmake) hmake
    · intro r hr
      rcases List.mem_append.1 hr with hr | hr
      · exact hf.claims r hr
      · rw [List.mem_singleton.1 hr]
        exact ⟨0, claims_initial now f.store⟩
    · obtain ⟨written, hbuilt, hperm⟩ := hf.built
      refine ⟨written, hbuilt, hperm.trans (.of_eq ?_)⟩
      simp [accepted, Fill.accepted, Setup.initial, handed, Event.handed?]

/-- What one run adds to its record is added to the record of all. -/
theorem accepted_set {run : Nat} {r r' : Run σ} (hr : f.runs[run]? = some r) (store : σ)
    (fresh : List Address)
    (hrun : Fill.accepted r'.pool.events = fresh ++ Fill.accepted r.pool.events) :
    (accepted ⟨f.runs.set run r', store⟩).Perm (fresh ++ f.accepted) := by
  obtain ⟨others, hperm, hset⟩ := Pool.exists_others hr
  have hall := hperm.flatMap_right fun r => Fill.accepted r.pool.events
  refine ((hset r').flatMap_right fun r => Fill.accepted r.pool.events).trans ?_
  rw [List.flatMap_cons, hrun, List.append_assoc]
  rw [List.flatMap_cons] at hall
  exact hall.symm.append_left fresh

/-- What a move does to the tables: nothing, or one write. -/
theorem Sound.store_step (hpop : h.Populated) (hb : backend.Tabled h view)
    (hf : f.Sound backend h view) (move : Move) :
    view (f.step backend h move).store = view f.store ∨
      ∃ a, h.Owns 1 1 a ∧ (view f.store).Takes h a (view (f.step backend h move).store) := by
  cases move with
  | launch config now =>
    left
    rw [step]
    split <;> rfl
  | turn run turn =>
    rw [step]
    split
    · exact .inl rfl
    rename_i r hr
    obtain ⟨n, hc⟩ := hf.claims r (List.mem_of_getElem? hr)
    obtain ⟨-, ⟨hview, -⟩ | ⟨a, howns, htakes, -⟩⟩ :=
      (hf.fits r (List.mem_of_getElem? hr)).step hpop hb (hc.withStore f.store) turn
    · exact .inl hview
    · exact .inr ⟨a, howns, htakes⟩

theorem sound_turn (hpop : h.Populated) (hb : backend.Tabled h view)
    (hf : f.Sound backend h view) (run : Nat) (turn : Turn) :
    (f.step backend h (.turn run turn)).Sound backend h view := by
  rw [step]
  split
  · exact hf
  rename_i r hr
  have hmem := List.mem_of_getElem? hr
  obtain ⟨n, hc⟩ := hf.claims r hmem
  obtain ⟨hclaims, hstep⟩ := (hf.fits r hmem).step hpop hb (hc.withStore f.store) turn
  obtain ⟨written, hbuilt, hwritten⟩ := hf.built
  refine ⟨?_, ?_, ?_⟩
  · intro r' hr'
    rcases List.mem_or_eq_of_mem_set hr' with hr' | rfl
    · exact hf.fits r' hr'
    · exact hf.fits r hmem
  · intro r' hr'
    rcases List.mem_or_eq_of_mem_set hr' with hr' | rfl
    · exact hf.claims r' hr'
    · exact hclaims
  · obtain ⟨hview, hrun⟩ | ⟨a, howns, htakes, hrun⟩ := hstep
    · exact ⟨written, hview.symm ▸ hbuilt, hwritten.trans (accepted_set hr _ [] hrun).symm⟩
    · refine ⟨a :: written, hbuilt.write howns htakes, ?_⟩
      exact (hwritten.cons a).trans (accepted_set hr _ [a] hrun).symm

/-- Whatever runs begin and however their steps interleave, the store is what the accepted writes
have made of it. -/
theorem sound_after (hpop : h.Populated) (hfit : h.units 1 1 < UInt64.size)
    (hb : backend.Tabled h view) {store : σ} (hempty : view store = .empty) (moves : List Move) :
    (after backend h moves store).Sound backend h view := by
  have hstep (f : Fleet σ) (move : Move) (hf : f.Sound backend h view) :
      (f.step backend h move).Sound backend h view := by
    cases move with
    | launch config now => exact sound_launch hfit hf config now
    | turn run turn => exact sound_turn hpop hb hf run turn
  have hstart : (⟨[], store⟩ : Fleet σ).Sound backend h view := by
    refine ⟨fun r hr => absurd hr List.not_mem_nil, fun r hr => absurd hr List.not_mem_nil, [], ?_⟩
    exact ⟨hempty.symm ▸ .empty, .nil⟩
  rw [after]
  generalize (⟨[], store⟩ : Fleet σ) = f at hstart
  induction moves generalizing f with
  | nil => exact hstart
  | cons move rest ih => exact ih _ (hstep f move hstart)

section Done
variable {setup : Setup σ} {s : State σ} {n : Nat} {a : Address}

/-- A run that is over, with no write turned down, had every address of its instance accepted. -/
theorem count_accepted_of_done (hs : setup.Fits backend h) (hc : Claims setup n s)
    (hdone : s.isDone) (hok : ∀ x ∈ handed s.events, x.2.isOk)
    (howns : h.Owns setup.config.instanceId setup.config.instanceCount a) :
    (Fill.accepted s.events).count a = setup.plan.laps setup.config.workers := by
  obtain ⟨m, rfl, hlast, hover⟩ := overruns_of_done hdone hc hs.workers_pos
  obtain ⟨k, ha⟩ := (owns_iff_exists_index hs.plan hs.units_lt).1 howns
  rw [Fill.accepted, List.filter_eq_self.2 hok, (handed_of_done hdone hc).count_eq,
    count_claimed_laps hs.plan hs.units_lt hlast ha, hover]

theorem mem_accepted_of_done (hs : setup.Fits backend h) (hc : Claims setup n s)
    (hdone : s.isDone) (hok : ∀ x ∈ handed s.events, x.2.isOk)
    (howns : h.Owns setup.config.instanceId setup.config.instanceCount a) :
    a ∈ Fill.accepted s.events := by
  refine List.count_pos_iff.1 ?_
  rw [count_accepted_of_done hs hc hdone hok howns, FillPlan.laps]
  exact Nat.lt_of_lt_of_le Nat.zero_lt_one (Nat.le_add_right ..)

end Done

theorem Sound.mem_accepted (hf : f.Sound backend h view) {of : UInt32} (hof : 1 ≤ of)
    (hdone : f.Completed of) {a : Address} (howns : h.Owns 1 1 a) : a ∈ f.accepted := by
  obtain ⟨k, hk, howns⟩ := (owns_alone_iff hof).1 howns
  obtain ⟨r, hr, hid, hcount, hdone, hok⟩ := hdone k hk
  obtain ⟨n, hc⟩ := hf.claims r hr
  rw [← hid, ← hcount] at howns
  exact List.mem_flatMap.2 ⟨r, hr, mem_accepted_of_done (hf.fits r hr) hc hdone hok howns⟩

end Fleet

/-- The tables are in order, with some writes turned down or none, and no further move takes
anything away from them or makes a member one of another kind. When every instance has come to the
end of a run without a write turned down, nothing is missing. -/
structure Fleet.KeepsOrder (backend : Backend σ) (h : Hierarchy) (view : σ → Store) (f : Fleet σ) :
    Prop where
  wellFormed : (view f.store).WellFormed h
  firstLevel : ∀ number member, ¬ (view f.store).HasSubgroup (.encode 1 number) member
  kept : ∀ move, (view f.store).Keeps (view (f.step backend h move).store)
  complete : ∀ of, 1 ≤ of → f.Completed of → (view f.store).Complete h

/-- Fill runs leave a store in order: whichever instances they are of, however their steps
interleave, whatever members are drawn and whichever writes are turned down. -/
theorem filled_store_in_order {backend : Backend σ} {h : Hierarchy} {view : σ → Store}
    (hpop : h.Populated) (hfit : h.units 1 1 < UInt64.size) (hb : backend.Tabled h view) {store : σ}
    (hempty : view store = .empty) (moves : List Move) :
    (Fleet.after backend h moves store).KeepsOrder backend h view := by
  have hf := Fleet.sound_after hpop hfit hb hempty moves
  generalize Fleet.after backend h moves store = f at hf
  obtain ⟨written, hbuilt, hwritten⟩ := hf.built
  have hs := hbuilt.wellFormed
  refine ⟨hs, hs.not_hasSubgroup, fun move => ?_, fun of hof hdone => ?_⟩
  · obtain hview | ⟨a, -, htakes⟩ := hf.store_step hpop hb move
    · exact hview.symm ▸ .refl _
    · exact hs.keeps htakes
  · exact hbuilt.complete fun a howns => hwritten.mem_iff.2 (hf.mem_accepted hof hdone howns)

/-- Two instances that fill the uneven hierarchy at the same time, two workers each. -/
def twinFills : List Move :=
  .launch { workers := 2, instanceId := 1, instanceCount := 2 } default ::
    .launch { workers := 2, instanceId := 2, instanceCount := 2 } default ::
      (List.range 480).map fun k => .turn (k % 2) ⟨k / 2 % 2, default⟩

def twinBackend : Backend (Probe (MemoryState UInt64)) :=
  (Backend.memory unevenHierarchy .congruential).probed {}

theorem twin_filled_store_in_order :
    unevenHierarchy.Populated ∧ unevenHierarchy.units 1 1 < UInt64.size ∧
      (Fleet.after twinBackend unevenHierarchy twinFills ⟨⟨.empty, 0⟩, [], []⟩).Completed 2 ∧
      (Fleet.after twinBackend unevenHierarchy twinFills ⟨⟨.empty, 0⟩, [], []⟩).KeepsOrder
        twinBackend unevenHierarchy fun probe => probe.inner.store := by
  have hpop : unevenHierarchy.Populated := by
    refine ⟨by decide, fun level _ _ => ?_⟩
    change 1 ≤ if level = 1 then (3 : UInt32) else if level = 2 then 4 else 6
    split
    · decide
    · split <;> decide
  have hfit : unevenHierarchy.units 1 1 < UInt64.size := by
    have hunits : unevenHierarchy.units 1 1 = 59 := by decide +kernel
    exact hunits.symm ▸ (by decide)
  have hb : twinBackend.Tabled unevenHierarchy fun probe => probe.inner.store :=
    (Backend.tabled_memory unevenHierarchy .congruential _ _).probed {}
  refine ⟨hpop, hfit, ?_, filled_store_in_order hpop hfit hb rfl twinFills⟩
  unfold Fleet.Completed
  decide +kernel

end Fill

end GroupBench
