import GroupBench.Proofs.Fill.Fleet

/-! Fills in any order. Writes may meet in one edge, but the member of an edge tells its kind, so it
does not matter which of them comes last: a store keeps what was written to it, whatever the order
and however often. -/
namespace GroupBench

theorem GroupId.level_ofPosition (level : UInt16) (index : UInt32) :
    (ofPosition level index).level = level :=
  level_encode level (index + 1)

theorem insert_insert {β : Type} (m : Std.ExtTreeMap GroupId β) (a : GroupId) (v w : β) :
    (m.insert a v).insert a w = m.insert a w := by
  refine Std.ExtTreeMap.ext_getElem? fun k => ?_
  simp only [Std.ExtTreeMap.getElem?_insert]
  split <;> rfl

theorem insert_comm {β : Type} (m : Std.ExtTreeMap GroupId β) {a b : GroupId} {v w : β}
    (hsame : a = b → v = w) : (m.insert a v).insert b w = (m.insert b w).insert a v := by
  by_cases hkey : a = b
  · rw [hkey, hsame hkey]
  · refine Std.ExtTreeMap.ext_getElem? fun k => ?_
    simp only [Std.ExtTreeMap.getElem?_insert, Std.LawfulEqCmp.compare_eq_iff_eq]
    by_cases ha : a = k
    · subst ha
      simp [Ne.symm hkey]
    · simp [ha]

namespace Store
variable (s : Store)

theorem insertGroup_comm (level level' : UInt16) (group group' : UInt32) :
    (s.insertGroup level group).insertGroup level' group' =
      (s.insertGroup level' group').insertGroup level group := by
  have hlevel : GroupId.ofPosition level group = .ofPosition level' group' → level = level' := by
    intro hkey
    have hfields := congrArg GroupId.level hkey
    rwa [GroupId.level_ofPosition, GroupId.level_ofPosition] at hfields
  simp only [insertGroup, mk.injEq, and_true]
  exact insert_comm s.groups fun hkey => hlevel hkey ▸ rfl

theorem insertGroup_insertGroup (level : UInt16) (group : UInt32) :
    (s.insertGroup level group).insertGroup level group = s.insertGroup level group := by
  simp only [insertGroup, insert_insert]

theorem link_link (group member : GroupId) (kind : MemberKind) :
    (s.link group member kind).link group member kind = s.link group member kind := by
  refine Store.ext rfl ?_
  change (s.link group member kind).members.insert group
    (((s.link group member kind).edgesOf group).insert member kind) = _
  rw [edgesOf_link, if_pos rfl, insert_insert, link, insert_insert]

/-- Edges of different groups or members do not meet, and equal ones are of one kind. -/
theorem link_comm {group group' member member' : GroupId} {kind kind' : MemberKind}
    (hkind : member = member' → kind = kind') :
    (s.link group member kind).link group' member' kind' =
      (s.link group' member' kind').link group member kind := by
  refine Store.ext rfl ?_
  change (s.link group member kind).members.insert group'
      (((s.link group member kind).edgesOf group').insert member' kind') =
    (s.link group' member' kind').members.insert group
      (((s.link group' member' kind').edgesOf group).insert member kind)
  rw [edgesOf_link, edgesOf_link, link, link]
  by_cases hgroup : group = group'
  · subst hgroup
    rw [if_pos rfl, if_pos rfl, insert_insert, insert_insert, insert_comm _ hkind]
  · rw [if_neg hgroup, if_neg (Ne.symm hgroup)]
    exact insert_comm s.members fun hsame => absurd hsame hgroup

/-- Takes a write, the member of every edge being settled beforehand. -/
def settle (pick : Write → GroupId × MemberKind) : Write → Store
  | .group level group => s.insertGroup level group
  | .member level group slot subgroup =>
    let (member, kind) := pick (.member level group slot subgroup)
    s.link (.ofPosition level group) member kind

end Store

/-- Each edge leads to a member that may be drawn for it. Any draw will do, and one member may serve
many edges. -/
def Hierarchy.Legal (h : Hierarchy) (pick : Write → GroupId × MemberKind) : Prop :=
  ∀ w, ∃ (ρ : Type) (source : WordSource ρ) (picks : ρ),
    pick w = (h.pickMember source w.level w.isSubgroup picks).1

namespace Hierarchy
variable {h : Hierarchy} {pick : Write → GroupId × MemberKind}

/-- Users are at level zero and groups above it, whatever the counts of the hierarchy. -/
theorem pickMember_kind {ρ : Type} (source : WordSource ρ) (level : UInt16) (subgroup : Bool)
    (s : ρ) : (h.pickMember source level subgroup s).1.2 =
      if (h.pickMember source level subgroup s).1.1.level = GroupId.userLevel then .user
      else .subgroup := by
  rw [pickMember]
  split
  · rename_i hsub
    simp only [Bool.and_eq_true, decide_eq_true_eq] at hsub
    simp only [GroupId.level_ofPosition, below_ne_userLevel hsub.2, ↓reduceIte]
  · simp only [GroupId.level_ofPosition, ↓reduceIte]

theorem Legal.kind_eq (hlegal : h.Legal pick) {v w : Write} (hsame : (pick v).1 = (pick w).1) :
    (pick v).2 = (pick w).2 := by
  obtain ⟨_, source, picks, hv⟩ := hlegal v
  obtain ⟨_, source', picks', hw⟩ := hlegal w
  rw [hv, hw] at hsame ⊢
  rw [pickMember_kind, pickMember_kind, hsame]

end Hierarchy

namespace Store
variable (s : Store)

theorem settle_comm {h : Hierarchy} {pick : Write → GroupId × MemberKind} (hlegal : h.Legal pick)
    (v w : Write) : (s.settle pick v).settle pick w = (s.settle pick w).settle pick v := by
  cases v with
  | group level group =>
    cases w with
    | group level' group' => exact s.insertGroup_comm level level' group group'
    | member => rfl
  | member =>
    cases w with
    | group => rfl
    | member => exact s.link_comm hlegal.kind_eq

theorem settle_settle (pick : Write → GroupId × MemberKind) (w : Write) :
    (s.settle pick w).settle pick w = s.settle pick w := by
  cases w with
  | group level group => exact s.insertGroup_insertGroup level group
  | member => exact s.link_link ..

end Store

namespace Backend
variable {σ : Type} {backend : Backend σ}

/-- The in-process store with its members settled beforehand. Writes to some addresses are turned
down. -/
def settled (pick : Write → GroupId × MemberKind) (refused : Address → Bool) : Backend Store where
  write w s :=
    if refused w.address then (.error (.writeRefused w.level), s) else (.ok (), s.settle pick w)
  lookup batch s := (s.lookup defaultPageSize batch, s)

theorem tabled_settled {h : Hierarchy} {pick : Write → GroupId × MemberKind}
    (hlegal : h.Legal pick) (refused : Address → Bool) : (settled pick refused).Tabled h id := by
  refine ⟨fun w s => ?_⟩
  simp only [settled]
  split
  · exact .inl ⟨⟨_, rfl⟩, rfl⟩
  · obtain ⟨ρ, source, picks, hpick⟩ := hlegal w
    refine .inr ⟨rfl, ρ, source, picks, ?_⟩
    cases w with
    | group level group => rfl
    | member level group slot subgroup =>
      simp only [Store.settle, hpick]
      rfl

/-- It makes no difference to the store which of two writes comes first, nor whether one comes
twice. -/
structure OrderFree (backend : Backend σ) : Prop where
  comm : ∀ v w s, (backend.write w (backend.write v s).2).2 =
    (backend.write v (backend.write w s).2).2
  again : ∀ w s, (backend.write w (backend.write w s).2).2 = (backend.write w s).2

theorem orderFree_settled {h : Hierarchy} {pick : Write → GroupId × MemberKind}
    (hlegal : h.Legal pick) (refused : Address → Bool) : (settled pick refused).OrderFree := by
  refine ⟨fun v w s => ?_, fun w s => ?_⟩
  · by_cases hv : refused v.address <;> by_cases hw : refused w.address <;>
      simp [settled, hv, hw, s.settle_comm hlegal]
  · by_cases hw : refused w.address <;> simp [settled, hw, s.settle_settle]

section Writes
variable (hfree : backend.OrderFree)
include hfree

/-- A write may as well come before some others. -/
theorem OrderFree.write_writeAll (w : Write) (writes : List Write) (s : σ) :
    (backend.write w (backend.writeAll writes s).2).2 =
      (backend.writeAll writes (backend.write w s).2).2 := by
  induction writes generalizing s with
  | nil => rfl
  | cons v rest ih =>
    simp only [writeAll]
    rw [ih, hfree.comm]

/-- A write that is among some others adds nothing to them. -/
theorem OrderFree.writeAll_write {w : Write} {writes : List Write} (hw : w ∈ writes) (s : σ) :
    (backend.writeAll writes (backend.write w s).2).2 = (backend.writeAll writes s).2 := by
  induction writes generalizing s with
  | nil => cases hw
  | cons v rest ih =>
    simp only [writeAll]
    rcases List.mem_cons.1 hw with rfl | hw
    · rw [hfree.again]
    · rw [hfree.comm, ih hw]

theorem OrderFree.writeAll_writeAll {first second : List Write}
    (hsub : ∀ w ∈ first, w ∈ second) (s : σ) :
    (backend.writeAll second (backend.writeAll first s).2).2 =
      (backend.writeAll second s).2 := by
  induction first generalizing s with
  | nil => rfl
  | cons w rest ih =>
    obtain ⟨hw, hrest⟩ := List.forall_mem_cons.1 hsub
    simp only [writeAll]
    rw [ih hrest, hfree.writeAll_write hw]

theorem OrderFree.writeAll_comm (first second : List Write) (s : σ) :
    (backend.writeAll second (backend.writeAll first s).2).2 =
      (backend.writeAll first (backend.writeAll second s).2).2 := by
  induction first generalizing s with
  | nil => rfl
  | cons w rest ih =>
    simp only [writeAll]
    rw [ih, hfree.write_writeAll]

/-- Lists of the same writes make the same of a store, in whatever order they are and however often
they repeat one. -/
theorem OrderFree.writeAll_eq {first second : List Write} (hsame : ∀ w, w ∈ first ↔ w ∈ second)
    (s : σ) : (backend.writeAll first s).2 = (backend.writeAll second s).2 := by
  calc (backend.writeAll first s).2
      = (backend.writeAll first (backend.writeAll second s).2).2 :=
        (hfree.writeAll_writeAll (fun w => (hsame w).2) s).symm
    _ = (backend.writeAll second (backend.writeAll first s).2).2 :=
        hfree.writeAll_comm second first s
    _ = (backend.writeAll second s).2 := hfree.writeAll_writeAll (fun w => (hsame w).1) s

end Writes

end Backend

namespace Fill
variable {σ : Type} {backend : Backend σ} {h : Hierarchy} {setup setup' : Setup σ}

/-- A complete run has handed over the writes of its instance, each of them once or more. -/
theorem HandedOver.mem_writes {times : Nat} {before : σ} {o : Outcome σ}
    (ho : HandedOver h setup times before o) (htimes : 0 < times) {w : Write} :
    w ∈ ((handed o.events).map fun x => setup.plan.write x.1) ↔
      ∃ a, h.Owns setup.config.instanceId setup.config.instanceCount a ∧
        setup.plan.write a = w := by
  have hmem (a : Address) : a ∈ (handed o.events).map Prod.fst ↔
      h.Owns setup.config.instanceId setup.config.instanceCount a := by
    rw [← List.count_pos_iff, ho.count]
    split
    · rename_i howns
      exact iff_of_true htimes howns
    · rename_i hforeign
      exact iff_of_false (Nat.lt_irrefl 0) hforeign
  simp only [List.mem_map, ← hmem]
  constructor
  · rintro ⟨x, hx, rfl⟩
    exact ⟨x.1, ⟨x, hx, rfl⟩, rfl⟩
  · rintro ⟨_, ⟨x, hx, rfl⟩, rfl⟩
    exact ⟨x, hx, rfl⟩

theorem exists_writes (hmake : Setup.make backend h setup.config = .ok setup)
    (hfit : h.units setup.config.instanceId setup.config.instanceCount < UInt64.size)
    (run : Schedule) (before : σ) (hdone : (setup.after run before).isDone) :
    ∃ writes, (∀ w, w ∈ writes ↔
        ∃ a, h.Owns setup.config.instanceId setup.config.instanceCount a ∧ h.write a = w) ∧
      (setup.after run before).store = (backend.writeAll writes before).2 := by
  have hbackend := make_backend hmake
  obtain ⟨hworkers, -, rfl, hplan⟩ := make_eq_ok hmake
  have hrun := handedOver_of_done hworkers hplan hfit run before hdone
  have htimes : 0 < setup.plan.laps setup.config.workers := Nat.lt_add_right _ Nat.one_pos
  refine ⟨_, fun w => hrun.mem_writes htimes, ?_⟩
  rw [← hbackend]
  exact (congrArg Prod.snd hrun.given).symm

/-- Two setups for the same instance. Their workers and periods may differ. -/
structure Twins (backend : Backend σ) (h : Hierarchy) (setup setup' : Setup σ) : Prop where
  first : Setup.make backend h setup.config = .ok setup
  second : Setup.make backend h setup'.config = .ok setup'
  id_eq : setup'.config.instanceId = setup.config.instanceId
  count_eq : setup'.config.instanceCount = setup.config.instanceCount
  fits : h.units setup.config.instanceId setup.config.instanceCount < UInt64.size

/-- Complete runs of one instance make the same of a store, and a second one changes nothing. -/
theorem Twins.store_eq (hfree : backend.OrderFree) (ht : Twins backend h setup setup')
    (run run' : Schedule) (s : σ) (hdone : (setup.after run s).isDone) :
    ((setup'.after run' s).isDone → (setup'.after run' s).store = (setup.after run s).store) ∧
      ((setup'.after run' (setup.after run s).store).isDone →
        (setup'.after run' (setup.after run s).store).store = (setup.after run s).store) := by
  have hfit' : h.units setup'.config.instanceId setup'.config.instanceCount < UInt64.size := by
    rw [ht.id_eq, ht.count_eq]
    exact ht.fits
  obtain ⟨writes, hmem, hstore⟩ := exists_writes ht.first ht.fits run s hdone
  have hsame (before : σ) (hdone' : (setup'.after run' before).isDone) :
      (setup'.after run' before).store = (backend.writeAll writes before).2 := by
    obtain ⟨writes', hmem', hstore'⟩ := exists_writes ht.second hfit' run' before hdone'
    rw [hstore']
    refine hfree.writeAll_eq (fun w => ?_) before
    rw [hmem', hmem, ht.id_eq, ht.count_eq]
  refine ⟨fun hdone' => ?_, fun hdone' => ?_⟩
  · rw [hsame s hdone', hstore]
  · rw [hsame _ hdone', hstore]
    exact hfree.writeAll_writeAll (fun _ hw => hw) s

/-- The store does not depend on how the writes came to it. Lists of writes may be two orders of one
list, and may also repeat some of them. -/
structure ScheduleFree (h : Hierarchy) (backend : Backend σ) : Prop where
  orders : ∀ first second : List Write, (∀ w, w ∈ first ↔ w ∈ second) → ∀ s,
    (backend.writeAll first s).2 = (backend.writeAll second s).2
  again : ∀ writes s,
    (backend.writeAll writes (backend.writeAll writes s).2).2 = (backend.writeAll writes s).2
  runs : ∀ setup setup', Twins backend h setup setup' → ∀ run run' s,
    (setup.after run s).isDone → (setup'.after run' s).isDone →
      (setup'.after run' s).store = (setup.after run s).store
  rerun : ∀ setup setup', Twins backend h setup setup' → ∀ run run' s,
    (setup.after run s).isDone → (setup'.after run' (setup.after run s).store).isDone →
      (setup'.after run' (setup.after run s).store).store = (setup.after run s).store

/-- Whatever members are settled and whatever writes are turned down, the in-process store ends up
with the same tables after any order of the writes and any schedule of the runs. -/
theorem filled_store_schedule_free {pick : Write → GroupId × MemberKind} (hlegal : h.Legal pick)
    (refused : Address → Bool) :
    (Backend.settled pick refused).Tabled h id ∧
      ScheduleFree h (Backend.settled pick refused) := by
  have hfree := Backend.orderFree_settled hlegal refused
  refine ⟨Backend.tabled_settled hlegal refused, ?_, ?_, ?_, ?_⟩
  · exact fun first second hsame s => hfree.writeAll_eq hsame s
  · exact fun writes s => hfree.writeAll_writeAll (fun _ hw => hw) s
  · exact fun setup setup' ht run run' s hdone => (ht.store_eq hfree run run' s hdone).1
  · exact fun setup setup' ht run run' s hdone => (ht.store_eq hfree run run' s hdone).2

/-- Every edge to a user leads to the same one. -/
def samePick (w : Write) : GroupId × MemberKind :=
  (pairHierarchy.pickMember .congruential w.level w.isSubgroup 0).1

/-- The backend that turns the group row of the first level down. -/
def samePickSetup (workers : Nat) : Setup Store where
  backend := .settled samePick fun a => a.level = 1 && a.isGroupRow
  plan := pairSetup.plan
  config := { workers }

/-- One worker does everything before the others begin. -/
def oneByOne : Schedule where
  begun := default
  turns := (List.range 180).map fun k => ⟨k / 60, default⟩
  ended := default

theorem same_pick_schedule_free :
    pairHierarchy.Legal samePick ∧
      ((samePickSetup 2).after inTurns .empty).isDone ∧
      ((samePickSetup 3).after oneByOne .empty).isDone ∧
      ((samePickSetup 3).after oneByOne .empty).store =
        ((samePickSetup 2).after inTurns .empty).store := by
  have hlegal : pairHierarchy.Legal samePick := fun w => ⟨UInt64, .congruential, 0, rfl⟩
  have htwins : Twins (samePickSetup 2).backend pairHierarchy (samePickSetup 2) (samePickSetup 3) :=
    ⟨rfl, rfl, rfl, rfl, by decide +kernel⟩
  have hdone : ((samePickSetup 2).after inTurns .empty).isDone := by decide +kernel
  have hdone' : ((samePickSetup 3).after oneByOne .empty).isDone := by decide +kernel
  obtain ⟨-, hfree⟩ :=
    filled_store_schedule_free hlegal fun a => a.level = 1 && a.isGroupRow
  exact ⟨hlegal, hdone, hdone', hfree.runs _ _ htwins inTurns oneByOne .empty hdone hdone'⟩

end Fill

end GroupBench
