import Mathlib.Data.List.Sort
import GroupBench.Proofs.Store.Tokens

/-! Tokens that pages end with. A page ends between two neighbouring places of its lookup, so its
token names a group of the batch and a member that is stored there. A lookup takes more tokens than
these: those of any place within the batch, and those of the position after its last group. -/
namespace GroupBench

theorem Cursor.encode_injective : Function.Injective Cursor.encode := fun c d h =>
  Except.ok.inj (c.decode_encode.symm.trans (h ▸ d.decode_encode))

namespace PlacedRow
variable {x y : PlacedRow} {c : Cursor}

theorem Precedes.asymm (hxy : x.Precedes y) : ¬ y.Precedes x := by
  rcases hxy with hlt | ⟨heq, hmember⟩
  · rintro (hback | ⟨hsame, -⟩) <;> omega
  · rintro (hback | ⟨-, hback⟩)
    · omega
    · exact GroupId.lt_asymm hmember hback

instance : Std.Irrefl Precedes where
  irrefl _ h := h.asymm h

instance : Std.Antisymm Precedes where
  antisymm _ _ hxy hyx := absurd hyx hxy.asymm

/-- The cursor of a page whose last row has the place `x` when the next one has the place `y`. -/
def cursorTo (x y : PlacedRow) : Cursor :=
  ⟨.ofNat y.1, if x.1 = y.1 then some x.2.1 else none⟩

/-- The cursor right after a place. -/
def cursorAfter (x : PlacedRow) : Cursor := ⟨.ofNat x.1, some x.2.1⟩

theorem ahead_cursorAfter (hposition : (UInt64.ofNat x.1).toNat = x.1) :
    x.cursorAfter.Ahead y.1 y.2.1 ↔ x.Precedes y := by
  rw [Cursor.Ahead, cursorAfter, hposition, Precedes]
  simp only [Option.mem_some_iff, forall_eq']

theorem Precedes.ahead (hxy : x.Precedes y) (hx : c.Ahead x.1 x.2.1) : c.Ahead y.1 y.2.1 := by
  rcases hxy with hlt | ⟨heq, hmember⟩
  · rcases hx with hfar | ⟨hnear, -⟩
    · exact .inl (Nat.lt_trans hfar hlt)
    · exact .inl (hnear ▸ hlt)
  · rw [← heq]
    refine hx.imp_right fun ⟨hnear, hafter⟩ => ⟨hnear, fun last hlast => ?_⟩
    exact GroupId.lt_trans (hafter last hlast) hmember

/-- A cursor cuts ordered places in two. -/
theorem exists_cut {rows : List PlacedRow} (hrows : rows.Pairwise Precedes) (c : Cursor) :
    ∃ passed left, rows = passed ++ left ∧ (∀ x ∈ passed, ¬ c.Ahead x.1 x.2.1) ∧
      ∀ x ∈ left, c.Ahead x.1 x.2.1 := by
  induction hrows with
  | nil => exact ⟨[], [], rfl, by simp, by simp⟩
  | @cons x rest hfirst _ ih =>
    by_cases hahead : c.Ahead x.1 x.2.1
    · refine ⟨[], x :: rest, rfl, by simp, List.forall_mem_cons.2 ⟨hahead, fun y hy => ?_⟩⟩
      exact (hfirst y hy).ahead hahead
    · obtain ⟨passed, left, rfl, hpassed, hleft⟩ := ih
      exact ⟨x :: passed, left, rfl, List.forall_mem_cons.2 ⟨hahead, hpassed⟩, hleft⟩

end PlacedRow

namespace Store
variable (s : Store)

/-- Some page of a lookup over the batch ends with the token, whatever that page was asked for. -/
def Issues (size : Nat) (batch : List GroupId) (token : PageToken) : Prop :=
  ∃ asked page, s.fetchPage size batch asked = .ok page ∧ page.next = some token

def Refuses (size : Nat) (batch : List GroupId) (token : PageToken) : Prop :=
  ∃ fault, s.fetchPage size batch token = .error fault ∧ fault.isToken

/-- A cursor between two neighbouring places of a lookup, the first of which has enough places before
it to be the last of a page. -/
def Cut (size : Nat) (batch : List GroupId) (c : Cursor) : Prop :=
  ∃ n x y, max size 1 ≤ n + 1 ∧ (s.placedFrom 0 none batch)[n]? = some x ∧
    (s.placedFrom 0 none batch)[n + 1]? = some y ∧ c = x.cursorTo y

/-- The places that a cursor leaves. -/
def placesAfter (batch : List GroupId) (c : Cursor) : List PlacedRow :=
  s.placedFrom c.position.toNat c.after (batch.drop c.position.toNat)

variable {s} {size room n : Nat} {batch rest : List GroupId} {position : UInt64}
  {after : Option GroupId} {token : PageToken} {page : Page} {c : Cursor} {x y : PlacedRow}

theorem mem_placesAfter : x ∈ s.placesAfter batch c ↔
    x ∈ s.placedFrom 0 none batch ∧ c.Ahead x.1 x.2.1 := by
  have hstart : (0 < x.1 ∨ 0 = x.1 ∧ ∀ last ∈ (none : Option GroupId), last < x.2.1) :=
    Cursor.ahead_start x.1 x.2.1
  have hall : x ∈ s.placedFrom 0 none batch ↔ _ := s.mem_placedFrom (List.drop_zero (l := batch))
  rw [placesAfter, s.mem_placedFrom rfl, hall, Cursor.Ahead]
  exact and_congr_left fun _ => (and_iff_left hstart).symm

theorem placesAfter_eq {passed left : List PlacedRow}
    (hplaces : s.placedFrom 0 none batch = passed ++ left)
    (hpassed : ∀ x ∈ passed, ¬ c.Ahead x.1 x.2.1) (hleft : ∀ x ∈ left, c.Ahead x.1 x.2.1) :
    s.placesAfter batch c = left := by
  have hordered := s.placedFrom_ordered 0 none batch
  rw [hplaces] at hordered
  refine (s.placedFrom_ordered _ _ _).eq_of_mem_iff (List.pairwise_append.1 hordered).2.1 fun x => ?_
  change x ∈ s.placesAfter batch c ↔ x ∈ left
  rw [mem_placesAfter, hplaces, List.mem_append]
  exact ⟨fun ⟨hx, hahead⟩ => hx.resolve_left fun h => hpassed x h hahead,
    fun hx => ⟨.inr hx, hleft x hx⟩⟩

theorem exists_passed (s : Store) (batch : List GroupId) (c : Cursor) :
    ∃ passed, s.placedFrom 0 none batch = passed ++ s.placesAfter batch c := by
  obtain ⟨passed, left, hplaces, hpassed, hleft⟩ :=
    PlacedRow.exists_cut (s.placedFrom_ordered 0 none batch) c
  exact ⟨passed, by rw [placesAfter_eq hplaces hpassed hleft, hplaces]⟩

theorem toNat_position_of_mem (hbatch : batch.length < UInt64.size)
    (hx : x ∈ s.placedFrom 0 none batch) :
    x.1 < batch.length ∧ (UInt64.ofNat x.1).toNat = x.1 := by
  obtain ⟨group, hgroup, -⟩ := ((s.mem_placedFrom List.drop_zero).1 hx).1
  have hinside := (List.getElem?_eq_some_iff.1 hgroup).1
  exact ⟨hinside, UInt64.toNat_ofNat_of_lt' (Nat.lt_trans hinside hbatch)⟩

theorem placesAfter_cursorAfter {passed left : List PlacedRow}
    (hbatch : batch.length < UInt64.size)
    (hplaces : s.placedFrom 0 none batch = passed ++ x :: left) :
    s.placesAfter batch x.cursorAfter = left := by
  have hordered := s.placedFrom_ordered 0 none batch
  rw [hplaces] at hordered
  obtain ⟨-, hlast, hcross⟩ := List.pairwise_append.1 hordered
  have hx : x ∈ s.placedFrom 0 none batch := by
    rw [hplaces]
    exact List.mem_append_right passed List.mem_cons_self
  have hposition := (toNat_position_of_mem hbatch hx).2
  rw [List.append_cons] at hplaces
  refine placesAfter_eq hplaces ?_ ?_
  · intro y hy hahead
    have hxy := (PlacedRow.ahead_cursorAfter hposition).1 hahead
    rcases List.mem_append.1 hy with hy | hy
    · exact (hcross y hy x List.mem_cons_self).asymm hxy
    · rw [List.mem_singleton.1 hy] at hxy
      exact hxy.asymm hxy
  · intro y hy
    exact (PlacedRow.ahead_cursorAfter hposition).2 ((List.pairwise_cons.1 hlast).1 y hy)

/-- A lookup can go on at any of its places. -/
theorem exists_placesAfter_eq_drop (hbatch : batch.length < UInt64.size)
    (hn : n ≤ (s.placedFrom 0 none batch).length) :
    ∃ c : Cursor, c.position.toNat ≤ batch.length ∧
      s.placesAfter batch c = (s.placedFrom 0 none batch).drop n := by
  cases n with
  | zero => exact ⟨.start, Nat.zero_le _, rfl⟩
  | succ n =>
    have hplaces := List.take_append_drop n (s.placedFrom 0 none batch)
    rw [List.drop_eq_getElem_cons hn] at hplaces
    obtain ⟨hinside, hposition⟩ := toNat_position_of_mem hbatch (List.getElem_mem hn)
    exact ⟨_, (hposition.trans_lt hinside).le, placesAfter_cursorAfter hbatch hplaces.symm⟩

/-- A page without room ends before the first place. -/
theorem readRows_next_head (hbatch : batch.length < UInt64.size)
    (hrest : batch.drop position.toNat = rest)
    (hy : (s.placedFrom position.toNat none rest)[0]? = some y) :
    (s.readRows 0 position none rest).next = some (Cursor.mk (.ofNat y.1) none).encode := by
  induction rest generalizing position with
  | nil => cases hy
  | cons group rest ih =>
    have hinside := (List.getElem?_eq_some_iff.1 (getElem?_of_drop_eq hrest)).1
    have hnext := toNat_position_succ hbatch hinside
    rw [placedFrom] at hy
    rw [readRows]
    split
    · rename_i hnone
      rw [List.length_eq_zero_iff.1 (Nat.le_zero.1 hnone), List.map_nil, List.nil_append,
        ← hnext] at hy
      rw [Nat.zero_sub]
      exact ih (by rw [hnext, drop_succ_of_drop_eq hrest]) hy
    · rename_i hsome
      rw [List.getElem?_append_left (by rw [List.length_map]; omega), List.getElem?_map] at hy
      obtain ⟨row, -, rfl⟩ := Option.map_eq_some_iff.1 hy
      rw [UInt64.ofNat_toNat]
      rfl

/-- A page that is full when another row follows ends between its last place and the next. -/
theorem readRows_next_between (hbatch : batch.length < UInt64.size)
    (hrest : batch.drop position.toNat = rest)
    (hx : (s.placedFrom position.toNat after rest)[n]? = some x)
    (hy : (s.placedFrom position.toNat after rest)[n + 1]? = some y) :
    (s.readRows (n + 1) position after rest).next = some (x.cursorTo y).encode := by
  induction rest generalizing position after n with
  | nil => cases hx
  | cons group rest ih =>
    have hinside := (List.getElem?_eq_some_iff.1 (getElem?_of_drop_eq hrest)).1
    have hnext := toNat_position_succ hbatch hinside
    have hlater : batch.drop (position + 1).toNat = rest := by
      rw [hnext, drop_succ_of_drop_eq hrest]
    rw [placedFrom] at hx hy
    rw [readRows]
    generalize hrows : s.membersAfter group after = rows at hx hy
    have hlength : (rows.map fun row => (position.toNat, row)).length = rows.length :=
      List.length_map _
    split
    · rename_i hle
      rw [List.getElem?_append_right (by omega), hlength, ← hnext] at hy
      rcases Nat.lt_or_ge n rows.length with hlast | hpast
      · -- The first group fills the page, and the next place is in a later one.
        have hroom : n + 1 - rows.length = 0 := by omega
        rw [hroom] at hy ⊢
        rw [List.getElem?_append_left (by omega), List.getElem?_map] at hx
        obtain ⟨row, -, rfl⟩ := Option.map_eq_some_iff.1 hx
        have hfar := s.position_le (List.mem_of_getElem? hy)
        have hcursor : PlacedRow.cursorTo (position.toNat, row) y = ⟨.ofNat y.1, none⟩ := by
          rw [PlacedRow.cursorTo, if_neg (by change position.toNat ≠ y.1; omega)]
        rw [hcursor]
        exact readRows_next_head hbatch hlater hy
      · have hroom : n + 1 - rows.length = n - rows.length + 1 := by omega
        rw [hroom] at hy ⊢
        rw [List.getElem?_append_right (by omega), hlength, ← hnext] at hx
        exact ih hlater hx hy
    · rename_i hfull
      rw [List.getElem?_append_left (by omega), List.getElem?_map] at hx hy
      obtain ⟨row, hrow, rfl⟩ := Option.map_eq_some_iff.1 hx
      obtain ⟨other, -, rfl⟩ := Option.map_eq_some_iff.1 hy
      have hlast : (rows.take (n + 1)).getLast? = some row := by
        rw [List.getLast?_take, if_neg (Nat.succ_ne_zero n), Nat.add_sub_cancel, hrow]
        rfl
      simp only [hlast, PlacedRow.cursorTo, UInt64.ofNat_toNat]
      rfl

theorem fetchPage_eq_ok_iff : s.fetchPage size batch token = .ok page ↔
    ∃ c, token.Means c ∧ c.position.toNat ≤ batch.length ∧
      page = s.readRows (max size 1) c.position c.after (batch.drop c.position.toNat) := by
  constructor
  · intro h
    rw [fetchPage] at h
    split at h
    · cases h
    · rename_i c hdecode
      split at h
      · cases h
      · rename_i hinside
        cases h
        exact ⟨c, PageToken.decode_eq_ok_iff.1 hdecode, Nat.le_of_not_lt hinside, rfl⟩
  · rintro ⟨c, hmeans, hinside, rfl⟩
    rw [fetchPage, hmeans.decode]
    exact if_neg (Nat.not_lt.2 hinside)

theorem room_lt_of_next (h : (s.readRows room position after rest).next = some token) :
    room < (s.placedFrom position.toNat after rest).length := by
  refine Nat.lt_of_not_le fun hle => ?_
  rw [← List.length_map Prod.snd, s.placedFrom_rows] at hle
  rw [s.readRows_next_none _ _ _ _ hle] at h
  cases h

/-- Pages end at the cuts, and at each of them some page does. -/
theorem issues_iff_cut (hbatch : batch.length < UInt64.size) :
    s.Issues size batch token ↔ ∃ c, s.Cut size batch c ∧ c.encode = token := by
  obtain ⟨room, hroom⟩ : ∃ room, max size 1 = room + 1 := ⟨max size 1 - 1, by omega⟩
  constructor
  · rintro ⟨asked, page, hpage, hnext⟩
    obtain ⟨c, -, -, rfl⟩ := fetchPage_eq_ok_iff.1 hpage
    obtain ⟨passed, hplaces⟩ := s.exists_passed batch c
    -- The page took the first places after those that its own token had passed.
    have hlt : max size 1 < (s.placesAfter batch c).length := room_lt_of_next hnext
    rw [hroom] at hnext hlt
    have hx := List.getElem?_eq_getElem (Nat.lt_of_succ_lt hlt)
    have hy := List.getElem?_eq_getElem hlt
    rw [readRows_next_between hbatch rfl hx hy] at hnext
    refine ⟨_, ⟨passed.length + room, _, _, by omega, ?_, ?_, rfl⟩, Option.some.inj hnext⟩
    · rw [hplaces, List.getElem?_append_right (by omega), Nat.add_sub_cancel_left, hx]
    · rw [hplaces, Nat.add_assoc, List.getElem?_append_right (by omega), Nat.add_sub_cancel_left, hy]
  · rintro ⟨_, ⟨n, x, y, hle, hx, hy, rfl⟩, rfl⟩
    -- The page that ends there begins as many places before as it has rows.
    have hn := (List.getElem?_eq_some_iff.1 hx).1
    obtain ⟨c, hinside, hplaces⟩ :=
      s.exists_placesAfter_eq_drop (n := n - room) hbatch (by omega)
    refine ⟨c.encode, _, fetchPage_eq_ok_iff.2 ⟨c, PageToken.means_encode c, hinside, rfl⟩, ?_⟩
    rw [placesAfter] at hplaces
    rw [hroom]
    refine readRows_next_between hbatch rfl ?_ ?_
    · rw [hplaces, List.getElem?_drop, ← hx]
      congr 1
      omega
    · rw [hplaces, List.getElem?_drop, ← hy]
      congr 1
      omega

/-- The token of a page names a group of the batch and a member that is stored there. -/
theorem Cut.names_stored (hbatch : batch.length < UInt64.size) (h : s.Cut size batch c) :
    ∃ group, batch[c.position.toNat]? = some group ∧ ∀ member ∈ c.after, member ∈ s.edgesOf group := by
  obtain ⟨n, x, y, -, hx, hy, rfl⟩ := h
  have hy := List.mem_of_getElem? hy
  obtain ⟨group, hgroup, -⟩ := ((s.mem_placedFrom List.drop_zero).1 hy).1
  have hposition : (x.cursorTo y).position.toNat = y.1 := (toNat_position_of_mem hbatch hy).2
  refine ⟨group, hposition ▸ hgroup, fun member hmember => ?_⟩
  obtain ⟨other, hother, hedge⟩ :=
    ((s.mem_placedFrom List.drop_zero).1 (List.mem_of_getElem? hx)).1
  obtain ⟨hsame, rfl⟩ : x.1 = y.1 ∧ x.2.1 = member := by
    simpa [PlacedRow.cursorTo] using hmember
  rw [hsame, hgroup] at hother
  cases hother
  exact Std.ExtTreeMap.mem_iff_isSome_getElem?.2 (by rw [hedge, Option.isSome_some])

theorem Issues.fits (h : s.Issues size batch token) (hbatch : batch.length < UInt64.size) :
    token.Fits batch.length := by
  obtain ⟨c, hcut, rfl⟩ := (issues_iff_cut hbatch).1 h
  obtain ⟨group, hgroup, -⟩ := hcut.names_stored hbatch
  have hinside := (List.getElem?_eq_some_iff.1 hgroup).1
  exact PageToken.fits_iff.2 ⟨c, PageToken.means_encode c, hinside.le⟩

theorem issues_encode_iff (hbatch : batch.length < UInt64.size) :
    s.Issues size batch c.encode ↔ s.Cut size batch c := by
  rw [issues_iff_cut hbatch]
  exact ⟨fun ⟨d, hcut, hencode⟩ => Cursor.encode_injective hencode ▸ hcut, fun hcut => ⟨c, hcut, rfl⟩⟩

theorem issues_iff_means (hbatch : batch.length < UInt64.size) (hne : token ≠ .first) :
    s.Issues size batch token ↔ ∃ c, token.Means c ∧ s.Cut size batch c := by
  rw [issues_iff_cut hbatch]
  constructor
  · rintro ⟨c, hcut, rfl⟩
    exact ⟨c, PageToken.means_encode c, hcut⟩
  · rintro ⟨c, hmeans, hcut⟩
    exact ⟨c, hcut, hmeans.encode_eq hne⟩

theorem refuses_iff : s.Refuses size batch token ↔ ¬ token.Fits batch.length := by
  refine ⟨?_, s.fetchPage_refused size⟩
  rintro ⟨fault, hfault, -⟩ hfits
  obtain ⟨c, hmeans, hinside⟩ := PageToken.fits_iff.1 hfits
  rw [fetchPage_eq_ok_iff.2 ⟨c, hmeans, hinside, rfl⟩] at hfault
  cases hfault

/-- The contract of a lookup at a token: it is refused unless some page ends with it. -/
def Binds (s : Store) (size : Nat) (batch : List GroupId) (token : PageToken) : Prop :=
  s.Refuses size batch token ∨ s.Issues size batch token

theorem not_binds_encode (hbatch : batch.length < UInt64.size)
    (hinside : c.position.toNat ≤ batch.length) (hcut : ¬ s.Cut size batch c) :
    ¬ s.Binds size batch c.encode := by
  rintro (hrefuses | hissues)
  · exact refuses_iff.1 hrefuses (PageToken.fits_iff.2 ⟨c, PageToken.means_encode c, hinside⟩)
  · exact hcut ((issues_encode_iff hbatch).1 hissues)

/-- The position after the last group of a batch. -/
def pastEnd (batch : List GroupId) : Cursor := ⟨.ofNat batch.length, none⟩

theorem pastEnd_position (hbatch : batch.length < UInt64.size) :
    (pastEnd batch).position.toNat = batch.length :=
  UInt64.toNat_ofNat_of_lt' hbatch

theorem fetchPage_pastEnd (hbatch : batch.length < UInt64.size) :
    s.fetchPage size batch (pastEnd batch).encode = .ok ⟨[], none⟩ := by
  have hposition := pastEnd_position hbatch
  refine fetchPage_eq_ok_iff.2 ⟨_, PageToken.means_encode _, hposition.le, ?_⟩
  rw [hposition, List.drop_length]
  rfl

/-- No page ends past the last group, and yet the token of that position is taken. -/
theorem not_binds_pastEnd (hbatch : batch.length < UInt64.size) :
    ¬ s.Binds size batch (pastEnd batch).encode := by
  have hposition := pastEnd_position hbatch
  refine not_binds_encode hbatch hposition.le fun hcut => ?_
  obtain ⟨group, hgroup, -⟩ := hcut.names_stored hbatch
  rw [hposition, List.getElem?_eq_none (Nat.le_refl _)] at hgroup
  cases hgroup

/-- No page ends after a member that is not stored, and yet the token of that place is taken. -/
theorem not_binds_stray {group member : GroupId} (hbatch : batch.length < UInt64.size)
    (hgroup : batch[c.position.toNat]? = some group) (hafter : c.after = some member)
    (hstray : member ∉ s.edgesOf group) : ¬ s.Binds size batch c.encode := by
  refine not_binds_encode hbatch (List.getElem?_eq_some_iff.1 hgroup).1.le fun hcut => ?_
  obtain ⟨other, hother, hstored⟩ := hcut.names_stored hbatch
  rw [hgroup] at hother
  cases hother
  exact hstray (hstored member hafter)

/-- What the pages of a lookup end with, and what it takes beside that. -/
structure TakesMore (s : Store) (size : Nat) (batch : List GroupId) : Prop where
  issues_iff : ∀ token, s.Issues size batch token ↔ ∃ c, s.Cut size batch c ∧ c.encode = token
  names_stored : ∀ c, s.Cut size batch c →
    ∃ group, batch[c.position.toNat]? = some group ∧ ∀ member ∈ c.after, member ∈ s.edgesOf group
  takes_issued : ∀ token, s.Issues size batch token → ¬ s.Refuses size batch token
  binds_iff : ∀ token ≠ PageToken.first, s.Binds size batch token ↔
    (token.Fits batch.length → ∃ c, token.Means c ∧ s.Cut size batch c)
  takes_pastEnd : s.fetchPage size batch (pastEnd batch).encode = .ok ⟨[], none⟩ ∧
    ¬ s.Binds size batch (pastEnd batch).encode
  takes_stray : ∀ (c : Cursor) group member, batch[c.position.toNat]? = some group →
    c.after = some member → member ∉ s.edgesOf group → ¬ s.Binds size batch c.encode

end Store

/-- A lookup keeps its contract at the tokens that lie beyond the batch and at those that say a cut.
It takes all others as well: one past the last group of the batch for any store and page size. -/
theorem lookup_takes_more_than_issued {batch : List GroupId} (hbatch : batch.length < UInt64.size)
    (s : Store) (size : Nat) : s.TakesMore size batch where
  issues_iff _ := Store.issues_iff_cut hbatch
  names_stored _ hcut := hcut.names_stored hbatch
  takes_issued _ hissues hrefuses := Store.refuses_iff.1 hrefuses (hissues.fits hbatch)
  binds_iff token hne := by
    rw [Store.Binds, Store.refuses_iff, Store.issues_iff_means hbatch hne, ← imp_iff_not_or]
  takes_pastEnd := ⟨Store.fetchPage_pastEnd hbatch, Store.not_binds_pastEnd hbatch⟩
  takes_stray _ _ _ := Store.not_binds_stray hbatch

/-- Between the two users a page ends with one token, and another one is taken there. -/
theorem couple_takes_more_than_issued :
    coupleBatch.length < UInt64.size ∧ couple.TakesMore 1 coupleBatch ∧
      couple.Issues 1 coupleBatch (Cursor.mk 0 (some (.encode 0 2))).encode ∧
      ¬ couple.Binds 1 coupleBatch betweenUsers.encode := by
  have hbatch : coupleBatch.length < UInt64.size := by decide
  have htakes := lookup_takes_more_than_issued hbatch couple 1
  have hcut : couple.Cut 1 coupleBatch ⟨0, some (.encode 0 2)⟩ :=
    ⟨0, (0, .encode 0 2, .user), (0, .encode 0 4, .user), by decide, by decide +kernel,
      by decide +kernel, rfl⟩
  exact ⟨hbatch, htakes, (htakes.issues_iff _).2 ⟨_, hcut, rfl⟩,
    htakes.takes_stray _ (.encode 1 1) (.encode 0 3) rfl rfl (by decide +kernel)⟩

/-- Eight bytes with the length of the batch ask for a page that is empty, and no page ends with
them. -/
theorem couple_past_end_taken :
    couple.fetchPage 1 coupleBatch ⟨[0, 0, 0, 0, 0, 0, 0, 2]⟩ = .ok ⟨[], none⟩ ∧
      ¬ couple.Issues 1 coupleBatch ⟨[0, 0, 0, 0, 0, 0, 0, 2]⟩ := by
  have hbatch : coupleBatch.length < UInt64.size := by decide
  have htoken : (Store.pastEnd coupleBatch).encode = ⟨[0, 0, 0, 0, 0, 0, 0, 2]⟩ := by
    decide +kernel
  rw [← htoken]
  exact ⟨Store.fetchPage_pastEnd hbatch, fun hissues => Store.not_binds_pastEnd hbatch (.inr hissues)⟩

end GroupBench
