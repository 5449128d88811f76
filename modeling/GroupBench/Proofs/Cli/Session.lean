import GroupBench.Cli.Session
import GroupBench.Proofs.Fill.Alone
import GroupBench.Proofs.Select.Filled

/-! Options that pass the checks never fail later. What the settings make sure of before anything
runs is all that the setups of both phases ask for, and no phase has a failure to report. A fill
writes everything once if a word can count the writes along with the workers. -/
namespace GroupBench.Cli

/-- What is made sure of before anything runs. -/
structure Settings.Checked (settings : Settings) (power : Power) : Prop where
  run : settings.run.validate = .ok ()
  hierarchy : settings.hierarchy.validate power = .ok ()
  /-- Nothing is selected in a hierarchy that other instances fill too. -/
  alone : settings.benchmark.selects → settings.run.instanceId = 1 ∧ settings.run.instanceCount = 1
  /-- The in-process store begins empty. -/
  fills : settings.backend = .memory → settings.benchmark.fills
  batchSize : ∃ limit : UInt64, settings.batchSize = limit.toNat

theorem Options.runConfig_of_selectMembers {o : Options} (honly : o.benchmark = .selectMembers) :
    o.runConfig.instanceId = 1 ∧ o.runConfig.instanceCount = 1 := by
  simp [runConfig, honly]

theorem Options.checked_of_settings {o : Options} {power : Power} {settings : Settings}
    (hsettings : o.settings power = .ok settings) :
    settings.Checked power ∧ settings.benchmark = o.benchmark ∧ settings.backend = o.backend := by
  rw [Options.settings] at hsettings
  split at hsettings
  · cases hsettings
  split at hsettings
  · cases hsettings
  rename_i hwhole
  split at hsettings
  · cases hsettings
  · cases hsettings
  rename_i hrun hhierarchy
  split at hsettings
  · cases hsettings
  rename_i hreadable
  obtain rfl := Except.ok.inj hsettings
  refine ⟨⟨hrun, hhierarchy, fun hselects => ?_, fun hmemory => ?_, o.batchSize, rfl⟩, rfl, rfl⟩
  · cases hbenchmark : o.benchmark with
    | fillData => simp [hbenchmark, Benchmark.selects] at hselects
    | selectMembers => exact runConfig_of_selectMembers hbenchmark
    | fillThenSelect =>
      have hcount : o.runConfig.instanceCount = 1 := by simpa [hbenchmark] using hwhole
      obtain ⟨-, hid, hle⟩ := RunConfig.validate_eq_ok_iff.1 hrun
      have hpos : 1 ≤ o.runConfig.instanceId :=
        UInt32.le_iff_toNat_le.2 (Nat.pos_of_ne_zero fun hzero => hid (UInt32.toNat_inj.1 hzero))
      exact ⟨UInt32.le_antisymm (hcount ▸ hle) hpos, hcount⟩
  · change o.backend = .memory at hmemory
    cases hbenchmark : o.benchmark with
    | fillData | fillThenSelect => rfl
    | selectMembers => simp [hbenchmark, hmemory] at hreadable

/-- Each fill lasts as long as any can. -/
def Runner.FillsLong (runner : Runner Id) : Prop :=
  ∀ {σ : Type} (setup : Fill.Setup σ) (store : σ), ∃ run,
    runner.fill setup store = setup.outcome run store ∧ setup.Lasts run store setup.roundsNeeded

/-- Each select lasts until it is over or every worker has had so many turns. -/
def Runner.SelectsLong (runner : Runner Id) (turns : Nat) : Prop :=
  ∀ {σ : Type} (setup : Select.Setup σ) (store : σ), ∃ run,
    runner.select setup store = setup.outcome run store ∧ setup.Lasts run store turns

theorem Runner.fillsLong_rotating (now : Instant) (patience : Nat) :
    (Runner.rotating (m := Id) (pure now) patience).FillsLong :=
  fun setup store => Fill.exists_runWith_eq setup now store

theorem Runner.selectsLong_rotating (now : Instant) (patience : Nat) :
    (Runner.rotating (m := Id) (pure now) patience).SelectsLong patience :=
  fun setup store => Select.exists_runWith_eq setup now patience store

theorem Runner.SelectsLong.mono {runner : Runner Id} {turns fewer : Nat}
    (hlong : runner.SelectsLong turns) (hle : fewer ≤ turns) : runner.SelectsLong fewer :=
  fun setup store => (hlong setup store).imp fun _ hrun => ⟨hrun.1, hrun.2.mono hle⟩

/-- The reports are those of the phases of the benchmark, and each of these did all it had to. -/
structure Outcome.Clean (o : Outcome) (benchmark : Benchmark) (h : Hierarchy) (config : RunConfig) :
    Prop where
  fill_isSome : o.fill.isSome = benchmark.fills
  fill_full : ∀ r ∈ o.fill, r.Full h config
  select_isSome : o.select.isSome = benchmark.selects
  select_full : ∀ r ∈ o.select, r.Full h

namespace Settings
variable {σ : Type} {settings : Settings} {backend : Backend σ} {h : Hierarchy} {start store : σ}

/-- A store that a fill phase may leave. -/
inductive Leaves (settings : Settings) (backend : Backend σ) (h : Hierarchy) (start : σ) : σ → Prop
  | same : settings.benchmark.fills = false → Leaves settings backend h start start
  | filled {setup : Fill.Setup σ} {run : Fill.Schedule} :
      Fill.Setup.make backend h settings.run = .ok setup → (setup.after run start).isDone →
      Leaves settings backend h start (setup.after run start).store

theorem exists_fillPhase (hvalid : settings.run.validate = .ok ())
    (hfit : settings.benchmark.fills →
      h.units settings.run.instanceId settings.run.instanceCount < UInt64.size)
    (hb : backend.AcceptsAll) {runner : Runner Id} (hlong : runner.FillsLong) (figures : Figures)
    (start : σ) :
    ∃ o store, settings.fillPhase runner figures backend h start {} = .ok (o, store) ∧
      settings.Leaves backend h start store ∧ o.select = none ∧
      o.fill.isSome = settings.benchmark.fills ∧ ∀ r ∈ o.fill, r.Full h settings.run := by
  rw [fillPhase]
  cases hfills : settings.benchmark.fills with
  | false => exact ⟨{}, start, rfl, .same hfills, rfl, rfl, nofun⟩
  | true =>
    obtain ⟨setup, hmake, hconfig⟩ := Fill.exists_make_eq_ok backend h hvalid
    have hs := Fill.make_fits (hfit hfills) hmake
    obtain ⟨run, hrun, hlasts⟩ := hlong setup start
    have hdone := hs.isDone hlasts
    have hfull := hs.full hb hdone
    rw [hconfig] at hfull
    rw [if_pos rfl, hmake]
    dsimp only
    rw [hrun]
    refine ⟨_, _, rfl, .filled hmake hdone, rfl, rfl, fun r hr => ?_⟩
    obtain rfl := Option.some.inj hr
    exact hfull

theorem exists_selectPhase (hvalid : settings.run.validate = .ok ())
    (hjobs : settings.benchmark.selects → ∀ setup,
      Select.Setup.make backend h settings.run = .ok setup → setup.ResolvesAll store)
    {o : Outcome} (hnone : o.select = none) (figures : Figures) :
    ∃ enough, ∀ runner : Runner Id, runner.SelectsLong enough → ∃ o' store',
      settings.selectPhase runner figures backend h store o = .ok (o', store') ∧
        o'.fill = o.fill ∧ o'.select.isSome = settings.benchmark.selects ∧
        ∀ r ∈ o'.select, r.Full h := by
  cases hselects : settings.benchmark.selects with
  | false =>
    refine ⟨0, fun runner _ => ⟨o, store, ?_, rfl, by rw [hnone]; rfl, by simp [hnone]⟩⟩
    rw [selectPhase, hselects]
    rfl
  | true =>
    obtain ⟨setup, hmake, rfl⟩ := Select.exists_make_eq_ok backend h hvalid
    obtain ⟨jobs, hreports⟩ := hjobs hselects setup hmake
    obtain ⟨enough, hends⟩ := hreports.ends
    refine ⟨enough, fun runner hlong => ?_⟩
    obtain ⟨run, hrun, hlasts⟩ := hlong setup store
    have hdone : (setup.after run store).isDone := hlasts.elim id (hends [] run)
    rw [selectPhase, hselects, if_pos rfl, hmake]
    dsimp only
    rw [hrun]
    refine ⟨_, _, rfl, rfl, rfl, fun r hr => ?_⟩
    obtain rfl := Option.some.inj hr
    exact hreports.full [] run hdone

/-- What both phases come to on one store. -/
theorem exists_phases (hvalid : settings.run.validate = .ok ())
    (hfit : settings.benchmark.fills →
      h.units settings.run.instanceId settings.run.instanceCount < UInt64.size)
    (hb : backend.AcceptsAll)
    (hjobs : settings.benchmark.selects → ∀ store, settings.Leaves backend h start store → ∀ setup,
      Select.Setup.make backend h settings.run = .ok setup → setup.ResolvesAll store)
    (figures : Figures) {fills : Runner Id} (hfills : fills.FillsLong) :
    ∃ enough, ∀ selects : Runner Id, selects.SelectsLong enough → ∃ o store,
      settings.phases { selects with fill := fills.fill } figures backend h start =
          .ok (o, store) ∧ o.Clean settings.benchmark h settings.run := by
  obtain ⟨o, store, hfill, hleaves, hnone, hsome, hfull⟩ :=
    exists_fillPhase hvalid hfit hb hfills figures start
  obtain ⟨enough, hselect⟩ :=
    exists_selectPhase hvalid (fun hs => hjobs hs store hleaves) hnone figures
  refine ⟨enough, fun selects hselects => ?_⟩
  obtain ⟨o', store', hphase, hsame, hsome', hfull'⟩ := hselect selects hselects
  refine ⟨o', store', ?_, hsame ▸ hsome, hsame ▸ hfull, hsome', hfull'⟩
  -- A phase only looks at its own half of the runner.
  have hfirst : settings.fillPhase { selects with fill := fills.fill } figures backend h start {} =
      .ok (o, store) := hfill
  have hsecond : settings.selectPhase { selects with fill := fills.fill } figures backend h store
      o = .ok (o', store') := hphase
  rw [phases, hfirst]
  exact hsecond

section Checked
variable {power : Power} {ρ : Type} {source : WordSource ρ} {seed : ρ} (hpower : power.Lawful)
  (hs : settings.Checked power)
  (hfit : settings.benchmark.fills → (settings.hierarchy.hierarchy power).units
    settings.run.instanceId settings.run.instanceCount < UInt64.size)
include hpower hs hfit

/-- A select on the in-process store comes after a fill of the whole hierarchy. -/
theorem Checked.complete_of_leaves (hselects : settings.benchmark.selects)
    (hmemory : settings.backend = .memory) {pageSize limit : Nat} {state : MemoryState ρ}
    (hleaves : settings.Leaves (.memory (settings.hierarchy.hierarchy power) source pageSize limit)
      (settings.hierarchy.hierarchy power) ⟨.empty, seed⟩ state) :
    state.store.WellFormed (settings.hierarchy.hierarchy power) ∧
      state.store.Complete (settings.hierarchy.hierarchy power) := by
  have hc := HierarchyConfig.accepted_of_validate hs.hierarchy
  have hfills := hs.fills hmemory
  obtain ⟨hid, hcount⟩ := hs.alone hselects
  have hwhole := hfit hfills
  rw [hid, hcount] at hwhole
  cases hleaves with
  | same hnone => simp [hfills] at hnone
  | filled hmake hdone =>
    exact Fill.complete_of_done (hc.populated hpower) hwhole (Backend.tabled_memory ..)
      (Backend.acceptsAll_memory _ _ _ _) rfl hmake hid hcount hdone

theorem Checked.exists_session (figures : Figures) {fills : Runner Id} (hfills : fills.FillsLong) :
    ∃ enough, ∀ selects : Runner Id, selects.SelectsLong enough → ∃ outcome,
      settings.sessionWith { selects with fill := fills.fill } figures power source seed =
        .ok outcome ∧
      outcome.Clean settings.benchmark (settings.hierarchy.hierarchy power) settings.run := by
  have hlevels : 1 ≤ (settings.hierarchy.hierarchy power).levelCount :=
    (HierarchyConfig.accepted_of_validate hs.hierarchy).levels
  have hhierarchy : settings.hierarchy.hierarchy? power =
      .ok (settings.hierarchy.hierarchy power) := by
    rw [HierarchyConfig.hierarchy?, hs.hierarchy]
    rfl
  simp only [sessionWith, hhierarchy]
  cases hbackend : settings.backend with
  | null =>
    obtain ⟨enough, hphases⟩ := exists_phases hs.run hfit Backend.acceptsAll_null
      (fun _ _ _ _ hmake => Select.resolvesAll hlevels Store.wellFormed_empty
        Job.serves_null Backend.readOnly_null trivial hmake) figures hfills
    refine ⟨enough, fun selects hlong => ?_⟩
    obtain ⟨outcome, store, hrun, hclean⟩ := hphases selects hlong
    exact ⟨outcome, congrArg (Except.map Prod.fst) hrun, hclean⟩
  | memory =>
    obtain ⟨limit, hlimit⟩ := hs.batchSize
    rw [hlimit]
    obtain ⟨enough, hphases⟩ := exists_phases hs.run hfit (Backend.acceptsAll_memory _ _ _ _)
      (fun hselects state hleaves _ hmake => Select.resolvesAll hlevels
        (hs.complete_of_leaves hpower hfit hselects hbackend hleaves).1
        (Job.serves_memory _ source state.picks _ limit)
        (Backend.readOnly_memory _ source _ _ state.store) rfl hmake) figures hfills
    refine ⟨enough, fun selects hlong => ?_⟩
    obtain ⟨outcome, state, hrun, hclean⟩ := hphases selects hlong
    refine ⟨{ outcome with lines := outcome.lines ++ [storeHolds state.store] }, ?_,
      hclean.fill_isSome, hclean.fill_full, hclean.select_isSome, hclean.select_full⟩
    exact congrArg (Except.map fun x =>
      { x.1 with lines := x.1.lines ++ [storeHolds x.2.store] }) hrun

/-- The session comes to its end with no failure to report, whatever turns the workers take as long
as they take enough of them. -/
structure Succeeds (settings : Settings) (power : Power) (figures : Figures) (source : WordSource ρ)
    (seed : ρ) : Prop where
  alone : settings.benchmark.selects → settings.run.instanceId = 1 ∧ settings.run.instanceCount = 1
  /-- A select on the in-process store comes after a fill and finds every group filled. -/
  filled : settings.benchmark.selects → settings.backend = .memory →
    settings.benchmark.fills ∧ ∀ runner : Runner Id, runner.FillsLong → ∃ reports state,
      settings.fillPhase runner figures (.memory (settings.hierarchy.hierarchy power) source
          settings.pageSize settings.batchSize) (settings.hierarchy.hierarchy power)
          ⟨.empty, seed⟩ {} = .ok (reports, state) ∧
        state.store.Complete (settings.hierarchy.hierarchy power)
  session : ∀ fills : Runner Id, fills.FillsLong → ∃ enough, ∀ selects : Runner Id,
    selects.SelectsLong enough → ∃ outcome,
      settings.sessionWith { selects with fill := fills.fill } figures power source seed =
        .ok outcome ∧
      outcome.Clean settings.benchmark (settings.hierarchy.hierarchy power) settings.run
  rotation : ∃ enough, ∀ patience ≥ enough, ∃ outcome,
    settings.session figures patience power source seed = .ok outcome ∧
      outcome.Clean settings.benchmark (settings.hierarchy.hierarchy power) settings.run

theorem Checked.succeeds (figures : Figures) : settings.Succeeds power figures source seed := by
  refine ⟨hs.alone, fun hselects hmemory => ⟨hs.fills hmemory, fun runner hlong => ?_⟩,
    fun fills => hs.exists_session hpower hfit figures, ?_⟩
  · obtain ⟨o, state, hphase, hleaves, -⟩ := exists_fillPhase hs.run hfit
      (Backend.acceptsAll_memory (settings.hierarchy.hierarchy power) source settings.pageSize
        settings.batchSize) hlong figures ⟨.empty, seed⟩
    exact ⟨o, state, hphase, (hs.complete_of_leaves hpower hfit hselects hmemory hleaves).2⟩
  · obtain ⟨enough, hsession⟩ :=
      hs.exists_session hpower hfit figures (Runner.fillsLong_rotating default 0)
    exact ⟨enough, fun patience hle =>
      hsession _ (Runner.SelectsLong.mono (Runner.selectsLong_rotating default patience) hle)⟩

end Checked

end Settings

/-- Fills the even hierarchy and resolves it, one row to a page. -/
def evenOptions : Options where
  benchmark := .fillThenSelect
  firstLevelGroupCount := 2
  levelCount := 2
  userMemberCount := 1
  subgroupMemberCount := 1
  parallelQueryCount := 2
  pageSize := 1

def evenSettings : Settings where
  benchmark := .fillThenSelect
  backend := .memory
  hierarchy := Select.evenConfig
  run := { workers := 2 }
  batchSize := 100
  pageSize := 1

/-- Fills the vast hierarchy, by the usual number of workers. -/
def vastOptions : Options where
  benchmark := .fillData
  backend := .null
  firstLevelGroupCount := 341721267
  levelCount := 1043
  userMemberCount := 51756320
  subgroupMemberCount := 1

def vastSettings : Settings where
  benchmark := .fillData
  backend := .null
  hierarchy := vastOptions.hierarchyConfig
  run := {}
  batchSize := 100
  pageSize := 10000

theorem vastSettings_hierarchy :
    vastSettings.hierarchy.hierarchy Select.powerOfOne = Fill.vastHierarchy := by
  simp only [HierarchyConfig.hierarchy, Select.scaledCount_powerOfOne]
  rfl

theorem vastOptions_settings : vastOptions.settings Select.powerOfOne = .ok vastSettings := by
  have hvalid : vastOptions.hierarchyConfig.validate Select.powerOfOne = .ok () :=
    Select.validate_powerOfOne (by decide) (by decide) ⟨by decide +kernel, by decide +kernel⟩
      (by decide) (by decide)
  rw [Options.settings, hvalid]
  rfl

end GroupBench.Cli
