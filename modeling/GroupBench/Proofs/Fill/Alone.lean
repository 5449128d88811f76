import GroupBench.Proofs.Fill.Fleet
import GroupBench.Proofs.Fill.Progress

/-! Fills that nothing turns down. Such a fill ends with every unit written, and when one instance
has the whole hierarchy to itself, no group is left without its members. -/
namespace GroupBench
variable {σ : Type}

/-- No write is turned down. -/
def Backend.AcceptsAll (backend : Backend σ) : Prop := ∀ w s, (backend.write w s).1 = .ok ()

theorem Backend.acceptsAll_memory {ρ : Type} (h : Hierarchy) (source : WordSource ρ)
    (pageSize limit : Nat) : (Backend.memory h source pageSize limit).AcceptsAll :=
  fun _ _ => rfl

theorem Backend.acceptsAll_null : Backend.null.AcceptsAll := fun _ _ => rfl

theorem Backend.AcceptsAll.writeAll {backend : Backend σ} (hb : backend.AcceptsAll)
    (ws : List Write) (s : σ) : ∀ result ∈ (backend.writeAll ws s).1, result.isOk := by
  induction ws generalizing s with
  | nil => exact fun _ hr => absurd hr List.not_mem_nil
  | cons w ws ih =>
    intro result hresult
    rcases List.mem_cons.1 hresult with rfl | hrest
    · rw [hb]
      rfl
    · exact ih _ result hrest

namespace Fill
variable {backend : Backend σ} {h : Hierarchy} {view : σ → Store} {config : RunConfig}
  {setup : Setup σ} {run : Schedule} {store : σ}

theorem HandedOver.isOk {times : Nat} {o : Outcome σ} (hover : HandedOver h setup times store o)
    (hb : setup.backend.AcceptsAll) : ∀ x ∈ handed o.events, x.2.isOk := by
  intro x hx
  have hanswers := hb.writeAll ((handed o.events).map fun x => setup.plan.write x.1) store
  rw [hover.given] at hanswers
  exact hanswers x.2 (List.mem_map_of_mem hx)

/-- The report of a fill that wrote all that it had to. Each write is made once if a word can count
the writes along with the workers. -/
structure Report.Full (h : Hierarchy) (config : RunConfig) (r : Report) : Prop where
  failures : r.failures = 0
  units : r.units.toNat = h.units config.instanceId config.instanceCount
  operations : ∃ laps, r.operations = laps * r.units.toNat ∧
    (laps = 1 ↔ r.units.toNat + config.workers ≤ UInt64.size)

/-- Each write was made once just if a word can count the writes along with the workers. -/
theorem Report.Full.operations_eq_iff {r : Report} (hfull : r.Full h config)
    (hpos : 0 < r.units.toNat) :
    r.operations = r.units.toNat ↔ r.units.toNat + config.workers ≤ UInt64.size := by
  obtain ⟨laps, hoperations, hlaps⟩ := hfull.operations
  rw [hoperations, ← hlaps]
  exact Nat.mul_eq_right (Nat.ne_zero_of_lt hpos)

/-- A run that lasts comes to its end. -/
theorem Setup.Fits.isDone (hs : setup.Fits backend h)
    (hlasts : setup.Lasts run store setup.roundsNeeded) : (setup.after run store).isDone := by
  obtain ⟨-, -, rfl, hplan, hfit⟩ := hs
  exact isDone_of_lasts hplan hfit hlasts

theorem Setup.Fits.full (hs : setup.Fits backend h) (hb : backend.AcceptsAll)
    (hdone : (setup.after run store).isDone) :
    (setup.outcome run store).report.Full h setup.config := by
  obtain ⟨rfl, hworkers, rfl, hplan, hfit⟩ := hs
  have hover := handedOver_of_done hworkers hplan hfit run store hdone
  have hfailures : (setup.outcome run store).report.failures = 0 := by
    rw [hover.failures, List.countP_eq_zero]
    intro x hx
    simp [hover.isOk hb x hx]
  refine ⟨hfailures, hover.units, _, ?_, hover.units ▸ laps_eq_one_iff hplan hfit hworkers⟩
  have hattempts := hover.attempts
  rwa [hfailures, Nat.add_zero] at hattempts

/-- A run by itself is a fleet of one. -/
theorem Fleet.after_alone (hmake : Setup.make backend h config = .ok setup) (run : Schedule)
    (store : σ) :
    Fleet.after backend h (.launch config run.begun :: run.turns.map (.turn 0)) store =
      ⟨[⟨setup, setup.after run store⟩], (setup.after run store).store⟩ := by
  have hturns (turns : List Turn) (s : State σ) :
      (turns.map (Move.turn 0)).foldl (Fleet.step backend h) ⟨[⟨setup, s⟩], s.store⟩ =
        ⟨[⟨setup, Pool.exec (State.step setup) turns s⟩],
          (Pool.exec (State.step setup) turns s).store⟩ := by
    induction turns generalizing s with
    | nil => rfl
    | cons turn rest ih => exact ih (s.step setup turn)
  rw [Fleet.after, List.foldl_cons, Fleet.step, hmake]
  exact hturns run.turns (setup.initial run.begun store)

/-- An instance that has the hierarchy to itself leaves nothing out. -/
theorem complete_of_done (hpop : h.Populated) (hfit : h.units 1 1 < UInt64.size)
    (htabled : backend.Tabled h view) (hb : backend.AcceptsAll) (hempty : view store = .empty)
    (hmake : Setup.make backend h config = .ok setup) (hid : config.instanceId = 1)
    (hcount : config.instanceCount = 1) (hdone : (setup.after run store).isDone) :
    (view (setup.after run store).store).WellFormed h ∧
      (view (setup.after run store).store).Complete h := by
  have hsound := Fleet.sound_after hpop hfit htabled hempty
    (.launch config run.begun :: run.turns.map (.turn 0))
  rw [Fleet.after_alone hmake] at hsound
  obtain ⟨hworkers, rfl, rfl, hplan⟩ := make_eq_ok hmake
  have hbackend := make_backend hmake
  have hover := handedOver_of_done hworkers hplan (units_lt_of_make hfit hmake) run store hdone
  have hok : ∀ x ∈ handed (setup.after run store).events, x.2.isOk := by
    have hreverse := hover.isOk (hbackend ▸ hb)
    rw [handed_outcome] at hreverse
    exact fun x hx => hreverse x (List.mem_reverse.2 hx)
  obtain ⟨written, hbuilt, hwritten⟩ := hsound.built
  refine ⟨hbuilt.wellFormed, hbuilt.complete fun a howns => hwritten.mem_iff.2 ?_⟩
  refine hsound.mem_accepted (UInt32.le_refl 1) (fun k hk => ?_) howns
  obtain rfl : k = 0 := Nat.lt_one_iff.1 hk
  exact ⟨_, List.mem_singleton_self _, hid, hcount, hdone, hok⟩

end Fill

end GroupBench
