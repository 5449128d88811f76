import GroupBench.Proofs.Store.Paging

/-! Cursors as cuts. A cursor cuts the places of a batch in two, those that a lookup has passed and
those ahead of it, whatever is stored there; a page moves the cut on over the places that it
takes. -/
namespace GroupBench

theorem GroupId.lt_of_not_lt_of_lt {a b c : GroupId} (hba : ¬ b < a) (hbc : b < c) : a < c :=
  Nat.lt_of_le_of_lt (BitVec.not_lt.1 hba) hbc

/-- A row with the position of its group in the batch. -/
abbrev PlacedRow := Nat × MemberRow

/-- The order of a lookup: by position, and by member within a group. -/
def PlacedRow.Precedes (x y : PlacedRow) : Prop :=
  x.1 < y.1 ∨ x.1 = y.1 ∧ x.2.1 < y.2.1

/-- A lookup at this cursor has yet to come to a member of the group at a position. -/
def Cursor.Ahead (c : Cursor) (position : Nat) (member : GroupId) : Prop :=
  c.position.toNat < position ∨ c.position.toNat = position ∧ ∀ last ∈ c.after, last < member

theorem Cursor.ahead_start (position : Nat) (member : GroupId) :
    Cursor.start.Ahead position member := by
  rcases Nat.eq_zero_or_pos position with rfl | hpos
  · exact .inr ⟨rfl, by simp [Cursor.start]⟩
  · exact .inl hpos

/-- What a cursor has passed comes before what is ahead of it. -/
theorem Cursor.Ahead.precedes {c : Cursor} {x y : PlacedRow} (hx : ¬ c.Ahead x.1 x.2.1)
    (hy : c.Ahead y.1 y.2.1) : x.Precedes y := by
  obtain ⟨hfar, hnear⟩ := not_or.1 hx
  rcases hy with hlt | ⟨hposition, hmember⟩
  · exact .inl (by omega)
  · rcases Nat.lt_or_ge x.1 y.1 with hlt | hge
    · exact .inl hlt
    · have hsame : c.position.toNat = x.1 := by omega
      obtain ⟨last, hlast⟩ := Classical.not_forall.1 fun hall => hnear ⟨hsame, hall⟩
      obtain ⟨hafter, hpassed⟩ := Classical.not_imp.1 hlast
      exact .inr ⟨by omega, GroupId.lt_of_not_lt_of_lt hpassed (hmember last hafter)⟩

namespace Store

variable (s : Store) {group member : GroupId}

theorem mem_membersAfter {after : Option GroupId} {row : MemberRow} :
    row ∈ s.membersAfter group after ↔
      (s.edgesOf group)[row.1]? = some row.2 ∧ ∀ last ∈ after, last < row.1 := by
  cases after with
  | none => simp [membersAfter, mem_membersOf]
  | some last => simp [membersAfter, mem_membersOf]

/-- The rows of some groups with their positions; the first group is at `position` and its rows up
to `after` are left out. -/
def placedFrom (position : Nat) (after : Option GroupId) : List GroupId → List PlacedRow
  | [] => []
  | group :: rest =>
    (s.membersAfter group after).map (position, ·) ++ placedFrom (position + 1) none rest

theorem placedFrom_rows (position : Nat) (after : Option GroupId) (batch : List GroupId) :
    (s.placedFrom position after batch).map Prod.snd = s.rowsFrom after batch := by
  induction batch generalizing position after with
  | nil => rfl
  | cons group rest ih =>
    rw [placedFrom, List.map_append, ih, s.rowsFrom_none, rowsFrom, List.map_map]
    exact congrArg (· ++ _) (List.map_id _)

theorem mem_placedFrom {batch rest : List GroupId} {position : Nat} {after : Option GroupId}
    (hrest : batch.drop position = rest) {x : PlacedRow} :
    x ∈ s.placedFrom position after rest ↔
      (∃ group, batch[x.1]? = some group ∧ (s.edgesOf group)[x.2.1]? = some x.2.2) ∧
        (position < x.1 ∨ position = x.1 ∧ ∀ last ∈ after, last < x.2.1) := by
  induction rest generalizing position after with
  | nil =>
    refine iff_of_false List.not_mem_nil ?_
    rintro ⟨⟨group, hgroup, -⟩, hplace⟩
    have hinside := (List.getElem?_eq_some_iff.1 hgroup).1
    have houtside := List.drop_eq_nil_iff.1 hrest
    omega
  | cons group rest ih =>
    have hhere := getElem?_of_drop_eq hrest
    have hlater := drop_succ_of_drop_eq hrest
    rw [placedFrom, List.mem_append, List.mem_map, ih hlater]
    constructor
    · rintro (⟨row, hrow, rfl⟩ | ⟨hstored, hplace⟩)
      · obtain ⟨hkind, hafter⟩ := s.mem_membersAfter.1 hrow
        exact ⟨⟨group, hhere, hkind⟩, .inr ⟨rfl, hafter⟩⟩
      · exact ⟨hstored, .inl (by omega)⟩
    · rintro ⟨⟨found, hfound, hkind⟩, hlt | ⟨rfl, hafter⟩⟩
      · refine .inr ⟨⟨found, hfound, hkind⟩, ?_⟩
        rcases Nat.lt_or_ge (position + 1) x.1 with hfar | hnear
        · exact .inl hfar
        · exact .inr ⟨by omega, by simp⟩
      · rw [hhere] at hfound
        cases hfound
        exact .inl ⟨x.2, s.mem_membersAfter.2 ⟨hkind, hafter⟩, rfl⟩

theorem position_le {position : Nat} {after : Option GroupId} {batch : List GroupId}
    {x : PlacedRow} (hx : x ∈ s.placedFrom position after batch) : position ≤ x.1 := by
  induction batch generalizing position after with
  | nil => cases hx
  | cons group rest ih =>
    rw [placedFrom, List.mem_append, List.mem_map] at hx
    rcases hx with ⟨row, -, rfl⟩ | hx
    · exact Nat.le_refl _
    · exact Nat.le_of_succ_le (ih hx)

theorem placedFrom_ordered (position : Nat) (after : Option GroupId) (batch : List GroupId) :
    (s.placedFrom position after batch).Pairwise PlacedRow.Precedes := by
  induction batch generalizing position after with
  | nil => exact .nil
  | cons group rest ih =>
    rw [placedFrom]
    refine List.pairwise_append.2 ⟨?_, ih (position + 1) none, ?_⟩
    · rw [List.pairwise_map]
      exact (s.membersAfter_sorted group after).imp fun hlt => .inr ⟨rfl, hlt⟩
    · intro x hx y hy
      obtain ⟨row, -, rfl⟩ := List.mem_map.1 hx
      exact .inl (s.position_le hy)

/-- A page that takes the first of the places from `c` on moves the cut from `c` to `d`. -/
structure Advance (batch : List GroupId) (c d : Cursor) (rows taken : List PlacedRow) : Prop where
  within : d.position.toNat ≤ batch.length
  passed : ∀ x ∈ taken, ¬ d.Ahead x.1 x.2.1
  left : ∀ x ∈ rows, x ∈ taken ∨ d.Ahead x.1 x.2.1
  onward : ∀ position member, d.Ahead position member → c.Ahead position member

variable {s} {batch rest : List GroupId} {position : UInt64} {after : Option GroupId} {room : Nat}

/-- The page ends among the rows of the first group. -/
theorem advance_full (hhere : batch[position.toNat]? = some group)
    (hfull : room < (s.membersAfter group after).length) :
    Advance batch ⟨position, after⟩
      ⟨position, (((s.membersAfter group after).take room).getLast?.map Prod.fst).or after⟩
      (s.placedFrom position.toNat after (group :: rest))
      ((s.placedFrom position.toNat after (group :: rest)).take room) := by
  have hleft := s.membersAfter_taken group after room
  generalize hd : (((s.membersAfter group after).take room).getLast?.map Prod.fst).or after =
    reached at hleft
  have htaken : (s.placedFrom position.toNat after (group :: rest)).take room =
      ((s.membersAfter group after).take room).map (position.toNat, ·) := by
    rw [placedFrom, List.take_append_of_le_length (by rw [List.length_map]; omega), List.map_take]
  refine ⟨Nat.le_of_lt (List.getElem?_eq_some_iff.1 hhere).1, ?_, ?_, ?_⟩
  · -- A row that was taken is not among those that are left.
    intro x hx hahead
    rw [htaken] at hx
    obtain ⟨row, hrow, rfl⟩ := List.mem_map.1 hx
    have hkind := (s.mem_membersAfter.1 (List.mem_of_mem_take hrow)).1
    have hreached := (hahead.resolve_left (Nat.lt_irrefl _)).2
    have hdrop := s.mem_membersAfter.2 ⟨hkind, hreached⟩
    rw [hleft] at hdrop
    have hsorted := s.membersAfter_sorted group after
    rw [← List.take_append_drop room (s.membersAfter group after)] at hsorted
    exact GroupId.lt_irrefl _ ((List.pairwise_append.1 hsorted).2.2 row hrow row hdrop)
  · intro x hx
    rw [htaken]
    rw [placedFrom, List.mem_append, List.mem_map] at hx
    rcases hx with ⟨row, hrow, rfl⟩ | hx
    · rw [← List.take_append_drop room (s.membersAfter group after), List.mem_append] at hrow
      rcases hrow with hrow | hrow
      · exact .inl (List.mem_map_of_mem hrow)
      · rw [← hleft] at hrow
        exact .inr (.inr ⟨rfl, (s.mem_membersAfter.1 hrow).2⟩)
    · exact .inr (.inl (s.position_le hx))
  · rintro other member (hfar | ⟨hnear, hreached⟩)
    · exact .inl hfar
    · refine .inr ⟨hnear, fun last hlast => ?_⟩
      cases htail : ((s.membersAfter group after).take room).getLast? with
      | none =>
        rw [htail] at hd
        exact hreached last (hd ▸ hlast)
      | some row =>
        rw [htail] at hd
        have hrow := List.mem_of_mem_take (List.mem_of_getLast? htail)
        exact GroupId.lt_trans ((s.mem_membersAfter.1 hrow).2 last hlast)
          (hreached row.1 (hd ▸ rfl))

/-- A page with a token moves on to the cursor that the token stands for. -/
theorem readRows_advance (hbatch : batch.length < UInt64.size) {next : PageToken}
    (hrest : batch.drop position.toNat = rest)
    (hnext : (s.readRows room position after rest).next = some next) :
    ∃ d : Cursor, next = d.encode ∧ Advance batch ⟨position, after⟩ d
      (s.placedFrom position.toNat after rest)
      ((s.placedFrom position.toNat after rest).take room) := by
  induction rest generalizing room position after with
  | nil => cases hnext
  | cons group rest ih =>
    have hhere := getElem?_of_drop_eq hrest
    have hinside := (List.getElem?_eq_some_iff.1 hhere).1
    rw [readRows] at hnext
    split at hnext
    · rename_i hle
      have hposition := toNat_position_succ hbatch hinside
      obtain ⟨d, hd, hadvance⟩ :=
        ih (by rw [hposition, drop_succ_of_drop_eq hrest]) hnext
      obtain ⟨hwithin, hpassed, hleft, honward⟩ := hadvance
      rw [hposition] at hpassed hleft
      have hlater : ∀ other member, d.Ahead other member → position.toNat < other := by
        intro other member hahead
        have hplace := honward other member hahead
        rw [Cursor.Ahead, hposition] at hplace
        omega
      refine ⟨d, hd, hwithin, ?_, ?_, fun other member hahead => .inl (hlater other member hahead)⟩
      · intro x hx hahead
        rw [placedFrom, List.take_append, List.mem_append] at hx
        rcases hx with hx | hx
        · obtain ⟨row, -, rfl⟩ := List.mem_map.1 (List.mem_of_mem_take hx)
          exact Nat.lt_irrefl _ (hlater _ _ hahead)
        · rw [List.length_map] at hx
          exact hpassed x hx hahead
      · intro x hx
        rw [placedFrom, List.mem_append] at hx
        rw [placedFrom, List.take_append, List.take_of_length_le (by rwa [List.length_map]),
          List.length_map, List.mem_append]
        rcases hx with hx | hx
        · exact .inl (.inl hx)
        · exact (hleft x hx).imp_left .inr
    · rename_i hfull
      cases hnext
      exact ⟨_, rfl, advance_full hhere (Nat.lt_of_not_le hfull)⟩

theorem fetchPage_advance (size : Nat) {c : Cursor} {token : PageToken}
    (hbatch : batch.length < UInt64.size) (hc : c.position.toNat ≤ batch.length)
    (hdecode : Cursor.decode token = .ok c) {all : List PlacedRow}
    (hall : s.placedFrom c.position.toNat c.after (batch.drop c.position.toNat) = all) :
    ∃ page, s.fetchPage size batch token = .ok page ∧
      page.rows = (all.take (max size 1)).map Prod.snd ∧
      (page.next = none → all.length ≤ max size 1) ∧
      ∀ next, page.next = some next → max size 1 < all.length ∧
        ∃ d : Cursor, next = d.encode ∧ Advance batch c d all (all.take (max size 1)) := by
  have hlength : all.length = (s.rowsFrom c.after (batch.drop c.position.toNat)).length := by
    rw [← hall, ← s.placedFrom_rows c.position.toNat, List.length_map]
  refine ⟨s.readRows (max size 1) c.position c.after (batch.drop c.position.toNat), ?_, ?_, ?_, ?_⟩
  · rw [fetchPage, hdecode]
    exact if_neg (Nat.not_lt.2 hc)
  · rw [readRows_rows, ← s.placedFrom_rows c.position.toNat, hall, List.map_take]
  · intro hnone
    rw [hlength]
    refine Nat.le_of_not_lt fun hlt => ?_
    obtain ⟨d, hd, -⟩ := s.readRows_next_some hbatch _ _ _ rfl hlt
    rw [hnone] at hd
    cases hd
  · intro next hnext
    refine ⟨?_, hall ▸ readRows_advance hbatch rfl hnext⟩
    rw [hlength]
    refine Nat.lt_of_not_le fun hle => ?_
    rw [s.readRows_next_none _ _ _ _ hle] at hnext
    cases hnext

end Store

end GroupBench
