import Mathlib.Data.List.Perm.Subperm
import GroupBench.Proofs.Store.Places

/-! Lookups among writers. Edges that are written between two fetches change what a token leaves
over, but not what it has passed, so a lookup that goes on with it repeats nothing and misses
nothing that was stored when it began. -/
namespace GroupBench

/-- An edge to be written. -/
structure Link where
  group : GroupId
  member : GroupId
  kind : MemberKind

namespace Store

def linkAll (s : Store) (links : List Link) : Store :=
  links.foldl (fun s l => s.link l.group l.member l.kind) s

variable {s : Store} {group member : GroupId}

/-- Writers take nothing away. -/
theorem isSome_linkAll (links : List Link) (hstored : ((s.edgesOf group)[member]?).isSome) :
    (((s.linkAll links).edgesOf group)[member]?).isSome := by
  induction links generalizing s with
  | nil => exact hstored
  | cons l rest ih =>
    apply ih
    rw [edgesOf_link]
    split
    · subst group
      rw [Std.ExtTreeMap.getElem?_insert]
      split
      · rfl
      · exact hstored
    · exact hstored

end Store

/-- A page of a lookup, with the store that it was read from and the token that it was asked for
with. -/
structure Fetch where
  store : Store
  token : PageToken
  page : Page

section Writers
variable (size : Nat) (batch : List GroupId)

/-- The rows of a page, with their positions. -/
def Fetch.placed (f : Fetch) : List PlacedRow :=
  match Cursor.decode f.token with
  | .error _ => []
  | .ok c =>
    (f.store.placedFrom c.position.toNat c.after (batch.drop c.position.toNat)).take (max size 1)

/-- Fetches one page after the other with the token of the one before, until there is none. After
each page the writers have their turn; when no more turns are given the lookup is broken off. -/
def fetchAll : List (List Link) → Store → PageToken → Except StoreFault (List Fetch)
  | [], _, _ => .ok []
  | links :: later, s, token =>
    match s.fetchPage size batch token with
    | .error fault => .error fault
    | .ok page =>
      match page.next with
      | none => .ok [⟨s, token, page⟩]
      | some next => (fetchAll later (s.linkAll links) next).map (⟨s, token, page⟩ :: ·)

/-- The lookup has come to a page without a token. -/
def Ended (fetches : List Fetch) : Prop := ∃ f, fetches.getLast? = some f ∧ f.page.next = none

theorem ended_cons {f : Fetch} {fetches : List Fetch} (hnext : f.page.next ≠ none) :
    Ended (f :: fetches) ↔ Ended fetches := by
  cases fetches with
  | nil => simp [Ended, hnext]
  | cons g rest => simp only [Ended, List.getLast?_cons_cons]

/-- The rows at each position are in ascending order of their members, and rows of earlier positions
come first. Each row is stored as it stands when its page is read. -/
structure Faithful (fetches : List Fetch) : Prop where
  rows : ∀ f ∈ fetches, f.page.rows = (f.placed size batch).map Prod.snd
  stored : ∀ f ∈ fetches, ∀ x ∈ f.placed size batch,
    ∃ group, batch[x.1]? = some group ∧ (f.store.edgesOf group)[x.2.1]? = some x.2.2
  ordered : (fetches.flatMap (Fetch.placed size batch)).Pairwise PlacedRow.Precedes

/-- What a lookup reads that goes on from a cursor. -/
structure ReadsOn (c : Cursor) (writes : List (List Link)) (before : Store)
    (fetches : List Fetch) : Prop extends Faithful size batch fetches where
  ahead : ∀ x ∈ fetches.flatMap (Fetch.placed size batch), c.Ahead x.1 x.2.1
  complete : Ended fetches → ∀ position group member, batch[position]? = some group →
    ((before.edgesOf group)[member]?).isSome → c.Ahead position member →
      ∃ kind, (position, member, kind) ∈ fetches.flatMap (Fetch.placed size batch)
  kept : ∀ x ∈ fetches.flatMap (Fetch.placed size batch), ∃ group, batch[x.1]? = some group ∧
    (((before.linkAll writes.flatten).edgesOf group)[x.2.1]?).isSome
  full : ¬ Ended fetches →
    writes.length * max size 1 ≤ (fetches.flatMap (Fetch.placed size batch)).length

variable {size batch}

section Pages
variable {s : Store} {c d : Cursor} {token : PageToken} {page : Page} {all : List PlacedRow}
  (hdecode : Cursor.decode token = .ok c)
  (hall : s.placedFrom c.position.toNat c.after (batch.drop c.position.toNat) = all)
include hdecode hall

theorem placed_eq : Fetch.placed size batch ⟨s, token, page⟩ = all.take (max size 1) := by
  rw [Fetch.placed, hdecode, ← hall]

omit hdecode in
theorem mem_all {x : PlacedRow} : x ∈ all ↔
    (∃ group, batch[x.1]? = some group ∧ (s.edgesOf group)[x.2.1]? = some x.2.2) ∧
      c.Ahead x.1 x.2.1 := by
  rw [← hall]
  exact s.mem_placedFrom rfl

/-- A page without a token takes all that is left. -/
theorem readsOn_last (hrows : page.rows = (all.take (max size 1)).map Prod.snd)
    (hnone : page.next = none) (hlength : all.length ≤ max size 1) (links : List Link)
    (later : List (List Link)) :
    ReadsOn size batch c (links :: later) s [⟨s, token, page⟩] := by
  have hplaced : Fetch.placed size batch ⟨s, token, page⟩ = all.take (max size 1) :=
    placed_eq hdecode hall
  have hmem (x : PlacedRow) := mem_all (x := x) hall
  have hordered := s.placedFrom_ordered c.position.toNat c.after (batch.drop c.position.toNat)
  rw [hall] at hordered
  rw [List.take_of_length_le hlength] at hrows hplaced
  have hended : Ended [⟨s, token, page⟩] := ⟨_, rfl, hnone⟩
  refine ⟨⟨?_, ?_, ?_⟩, ?_, ?_, ?_, ?_⟩
  all_goals simp only [List.mem_singleton, forall_eq, List.flatMap_singleton, hplaced]
  · exact hrows
  · exact fun x hx => ((hmem x).1 hx).1
  · exact hordered
  · exact fun x hx => ((hmem x).1 hx).2
  · intro _ position group member hgroup hstored hahead
    obtain ⟨kind, hkind⟩ := Option.isSome_iff_exists.1 hstored
    exact ⟨kind, (hmem _).2 ⟨⟨group, hgroup, hkind⟩, hahead⟩⟩
  · intro x hx
    obtain ⟨⟨group, hgroup, hkind⟩, -⟩ := (hmem x).1 hx
    exact ⟨group, hgroup, Store.isSome_linkAll _ (hkind ▸ rfl)⟩
  · exact fun hopen => absurd hended hopen

/-- A page with a token takes as much as it holds, and the lookup goes on from there. -/
theorem ReadsOn.cons (hrows : page.rows = (all.take (max size 1)).map Prod.snd)
    (hlength : max size 1 < all.length)
    (hadvance : Store.Advance batch c d all (all.take (max size 1))) {links : List Link}
    {later : List (List Link)} {fetches : List Fetch} {next : PageToken}
    (hnext : page.next = some next)
    (hlater : ReadsOn size batch d later (s.linkAll links) fetches) :
    ReadsOn size batch c (links :: later) s (⟨s, token, page⟩ :: fetches) := by
  have hplaced : Fetch.placed size batch ⟨s, token, page⟩ = all.take (max size 1) :=
    placed_eq hdecode hall
  have hmem (x : PlacedRow) := mem_all (x := x) hall
  have hordered := s.placedFrom_ordered c.position.toNat c.after (batch.drop c.position.toNat)
  rw [hall] at hordered
  have hended : Ended (⟨s, token, page⟩ :: fetches) ↔ Ended fetches := ended_cons (by simp [hnext])
  refine ⟨⟨?_, ?_, ?_⟩, ?_, ?_, ?_, ?_⟩
  all_goals simp only [List.forall_mem_cons, List.flatMap_cons, hplaced]
  · exact ⟨hrows, hlater.rows⟩
  · exact ⟨fun x hx => ((hmem x).1 (List.mem_of_mem_take hx)).1, hlater.stored⟩
  · refine List.pairwise_append.2 ⟨hordered.sublist (List.take_sublist _ _), hlater.ordered, ?_⟩
    intro x hx y hy
    exact (hlater.ahead y hy).precedes (hadvance.passed x hx)
  · intro x hx
    rcases List.mem_append.1 hx with hx | hx
    · exact ((hmem x).1 (List.mem_of_mem_take hx)).2
    · exact hadvance.onward _ _ (hlater.ahead x hx)
  · intro hend position group member hgroup hstored hahead
    obtain ⟨kind, hkind⟩ := Option.isSome_iff_exists.1 hstored
    have hx := (hmem (position, member, kind)).2 ⟨⟨group, hgroup, hkind⟩, hahead⟩
    rcases hadvance.left _ hx with htaken | hleft
    · exact ⟨kind, List.mem_append_left _ htaken⟩
    · obtain ⟨kind', hfound⟩ := hlater.complete (hended.1 hend) position group member hgroup
        (Store.isSome_linkAll links hstored) hleft
      exact ⟨kind', List.mem_append_right _ hfound⟩
  · have hflat : s.linkAll (links :: later).flatten =
        (s.linkAll links).linkAll later.flatten := List.foldl_append
    intro x hx
    rcases List.mem_append.1 hx with hx | hx
    · obtain ⟨⟨group, hgroup, hkind⟩, -⟩ := (hmem x).1 (List.mem_of_mem_take hx)
      exact ⟨group, hgroup, Store.isSome_linkAll _ (hkind ▸ rfl)⟩
    · rw [hflat]
      exact hlater.kept x hx
  · intro hopen
    have hrest := hlater.full fun hend => hopen (hended.2 hend)
    rw [List.length_append, List.length_take, List.length_cons, Nat.add_mul]
    omega

end Pages

variable (size) in
theorem fetchAll_readsOn (hbatch : batch.length < UInt64.size) (writes : List (List Link))
    (s : Store) {c : Cursor} {token : PageToken} (hc : c.position.toNat ≤ batch.length)
    (hdecode : Cursor.decode token = .ok c) :
    ∃ fetches, fetchAll size batch writes s token = .ok fetches ∧
      ReadsOn size batch c writes s fetches := by
  induction writes generalizing s c token with
  | nil =>
    refine ⟨[], rfl, ⟨?_, ?_, .nil⟩, ?_, ?_, ?_, ?_⟩ <;> simp [Ended]
  | cons links later ih =>
    obtain ⟨page, hpage, hrows, hlast, hmore⟩ := s.fetchPage_advance size hbatch hc hdecode rfl
    simp only [fetchAll, hpage]
    cases hnext : page.next with
    | none => exact ⟨_, rfl, readsOn_last hdecode rfl hrows hnext (hlast hnext) links later⟩
    | some next =>
      obtain ⟨hlength, d, rfl, hadvance⟩ := hmore next hnext
      obtain ⟨fetches, hfetches, hreads⟩ := ih (s.linkAll links) hadvance.within d.decode_encode
      refine ⟨⟨s, token, page⟩ :: fetches, ?_,
        hreads.cons hdecode rfl hrows hlength hadvance hnext⟩
      simp only [hfetches]
      rfl

variable (size batch)

/-- What a whole lookup reads while edges are written between its pages: it misses no edge that was
stored before the first page. -/
structure SafeLookup (writes : List (List Link)) (before : Store) (fetches : List Fetch) :
    Prop extends Faithful size batch fetches where
  complete : Ended fetches → ∀ position group member, batch[position]? = some group →
    ((before.edgesOf group)[member]?).isSome →
      ∃ kind, (position, member, kind) ∈ fetches.flatMap (Fetch.placed size batch)
  /-- Writers put the end off no longer than they have rows to add. -/
  ends : (before.linkAll writes.flatten).rowCount batch < writes.length → Ended fetches

variable {size batch}

/-- The places that a lookup reads are different ones, and in the end there are no more of them than
rows. -/
theorem ReadsOn.length_le {c : Cursor} {writes : List (List Link)} {before : Store}
    {fetches : List Fetch} (hreads : ReadsOn size batch c writes before fetches) :
    (fetches.flatMap (Fetch.placed size batch)).length ≤
      (before.linkAll writes.flatten).rowCount batch := by
  let place (x : PlacedRow) : Nat × GroupId := (x.1, x.2.1)
  have hnodup : ((fetches.flatMap (Fetch.placed size batch)).map place).Nodup := by
    rw [List.Nodup, List.pairwise_map]
    refine hreads.ordered.imp fun {x y} hlt he => ?_
    obtain ⟨hposition, hmember⟩ := Prod.mk.inj he
    rcases hlt with hlt | ⟨-, hlt⟩
    · omega
    · rw [hmember] at hlt
      exact GroupId.lt_irrefl _ hlt
  have hsubset : (fetches.flatMap (Fetch.placed size batch)).map place ⊆
      ((before.linkAll writes.flatten).placedFrom 0 none batch).map place := by
    intro y hy
    obtain ⟨x, hx, rfl⟩ := List.mem_map.1 hy
    obtain ⟨group, hgroup, hstored⟩ := hreads.kept x hx
    obtain ⟨kind, hkind⟩ := Option.isSome_iff_exists.1 hstored
    refine List.mem_map.2 ⟨(x.1, x.2.1, kind), ?_, rfl⟩
    refine (Store.mem_placedFrom _ List.drop_zero).2 ⟨⟨group, hgroup, hkind⟩, ?_⟩
    exact Cursor.ahead_start x.1 x.2.1
  have hle := (List.subperm_of_subset hnodup hsubset).length_le
  rw [List.length_map, List.length_map] at hle
  rwa [Store.rowCount_eq, ← Store.rowsFrom_none, ← Store.placedFrom_rows _ 0, List.length_map]

/-- A lookup that writers interrupt after each page fails nowhere and is safe. -/
theorem lookup_among_writers (size : Nat) {batch : List GroupId}
    (hbatch : batch.length < UInt64.size) (writes : List (List Link)) (before : Store) :
    ∃ fetches, fetchAll size batch writes before .first = .ok fetches ∧
      SafeLookup size batch writes before fetches := by
  have hdecode : Cursor.decode .first = .ok .start := rfl
  obtain ⟨fetches, hfetches, hreads⟩ :=
    fetchAll_readsOn size hbatch writes before (Nat.zero_le _) hdecode
  refine ⟨fetches, hfetches, hreads.toFaithful, ?_, ?_⟩
  · intro hend position group member hgroup hstored
    exact hreads.complete hend position group member hgroup hstored (Cursor.ahead_start _ _)
  · intro hfew
    by_contra hopen
    have hfull := hreads.full hopen
    have hle := hreads.length_le
    have hpages := Nat.le_mul_of_pos_right writes.length (Nat.le_max_right size 1)
    omega

/-- A group with two users. -/
def sparseStore : Store :=
  Store.empty.linkAll [⟨.encode 1 1, .encode 0 2, .user⟩, ⟨.encode 1 1, .encode 0 4, .user⟩]

/-- The group twice, with one between that is not stored at first. -/
def echoBatch : List GroupId := [.encode 1 1, .encode 1 2, .encode 1 1]

/-- After the first page, a user before the one just returned, one right after it, and a first user
of the group that was not stored. -/
def echoWrites : List (List Link) :=
  [⟨.encode 1 1, .encode 0 1, .user⟩, ⟨.encode 1 1, .encode 0 3, .user⟩,
    ⟨.encode 1 2, .encode 0 9, .user⟩] :: List.replicate 9 []

theorem echo_among_writers :
    echoBatch.length < UInt64.size ∧
      ∃ fetches, fetchAll 1 echoBatch echoWrites sparseStore .first = .ok fetches ∧
        SafeLookup 1 echoBatch echoWrites sparseStore fetches ∧ Ended fetches := by
  have hbatch : echoBatch.length < UInt64.size := by decide
  obtain ⟨fetches, hfetches, hsafe⟩ := lookup_among_writers 1 hbatch echoWrites sparseStore
  exact ⟨hbatch, fetches, hfetches, hsafe, hsafe.ends (by decide +kernel)⟩

end Writers

end GroupBench
