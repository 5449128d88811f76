import GroupBench.Store.Page

/-! A lookup drains to the rows of its batch, whatever the page size: each token stands for the rows
that its page left over. -/
namespace GroupBench

namespace GroupId
variable {a b c : GroupId}

theorem compare_eq_lt_iff : compare a b = .lt ↔ a < b := by
  rw [compare_eq, Nat.compare_eq_lt]
  exact BitVec.lt_def.symm

theorem lt_irrefl (a : GroupId) : ¬ a < a := BitVec.lt_irrefl a.bits

theorem lt_trans (hab : a < b) (hbc : b < c) : a < c := BitVec.lt_trans hab hbc

theorem lt_asymm (hab : a < b) : ¬ b < a := fun hba => lt_irrefl a (lt_trans hab hba)

end GroupId

section Batch
variable {batch rest : List GroupId} {group : GroupId} {n : Nat}

/-- A batch that goes on with a group from a position has it there. -/
theorem getElem?_of_drop_eq (h : batch.drop n = group :: rest) : batch[n]? = some group := by
  rw [← List.head?_drop, h, List.head?_cons]

theorem drop_succ_of_drop_eq (h : batch.drop n = group :: rest) : batch.drop (n + 1) = rest := by
  rw [← List.drop_drop, h, List.drop_one, List.tail_cons]

/-- The position after one within the batch is a word too. -/
theorem toNat_position_succ {position : UInt64} (hbatch : batch.length < UInt64.size)
    (hinside : position.toNat < batch.length) : (position + 1).toNat = position.toNat + 1 := by
  rw [UInt64.toNat_add]
  exact Nat.mod_eq_of_lt (by change position.toNat + 1 < UInt64.size; omega)

end Batch

namespace Store
variable (s : Store)

theorem membersOf_sorted (group : GroupId) :
    (s.membersOf group).Pairwise fun x y => x.1 < y.1 := by
  rw [membersOf]
  exact Std.ExtTreeMap.ordered_keys_toList.imp GroupId.compare_eq_lt_iff.1

theorem mem_membersOf {group : GroupId} {row : MemberRow} :
    row ∈ s.membersOf group ↔ (s.edgesOf group)[row.1]? = some row.2 := by
  rw [membersOf]
  exact Std.ExtTreeMap.mem_toList_iff_getElem?_eq_some

theorem length_membersOf (group : GroupId) :
    (s.membersOf group).length = (s.edgesOf group).size := by
  rw [membersOf]
  exact Std.ExtTreeMap.length_toList

theorem membersAfter_sorted (group : GroupId) (after : Option GroupId) :
    (s.membersAfter group after).Pairwise fun x y => x.1 < y.1 := by
  cases after with
  | none => exact s.membersOf_sorted group
  | some last => exact (s.membersOf_sorted group).filter _

/-- In ascending rows, those after the last of the first `room` are all the others. -/
theorem filter_after_take {rows : List MemberRow} (hrows : rows.Pairwise fun x y => x.1 < y.1)
    {room : Nat} {row : MemberRow} (hlast : (rows.take room).getLast? = some row) :
    (rows.filter fun x => row.1 < x.1) = rows.drop room := by
  obtain ⟨front, hfront⟩ := List.getLast?_eq_some_iff.1 hlast
  rw [← List.take_append_drop room rows, hfront] at hrows
  obtain ⟨hfirst, -, hcross⟩ := List.pairwise_append.1 hrows
  have hnone : (rows.take room).filter (fun x => row.1 < x.1) = [] := by
    refine List.filter_eq_nil_iff.2 fun x hx => ?_
    rw [hfront, List.mem_append, List.mem_singleton] at hx
    rcases hx with hx | rfl
    · have hlt := (List.pairwise_append.1 hfirst).2.2 x hx row (List.mem_singleton_self row)
      simpa using GroupId.lt_asymm hlt
    · simpa using GroupId.lt_irrefl x.1
  have hall : (rows.drop room).filter (fun x => row.1 < x.1) = rows.drop room := by
    refine List.filter_eq_self.2 fun x hx => ?_
    simpa using hcross row (by simp) x hx
  calc (rows.filter fun x => row.1 < x.1)
      = (rows.take room).filter (fun x => row.1 < x.1) ++
          (rows.drop room).filter (fun x => row.1 < x.1) := by
        rw [← List.filter_append, List.take_append_drop]
    _ = rows.drop room := by rw [hnone, hall, List.nil_append]

/-- Reading on after the last row that was taken, or from the same place if none was. -/
theorem membersAfter_taken (group : GroupId) (after : Option GroupId) (room : Nat) :
    s.membersAfter group
        ((((s.membersAfter group after).take room).getLast?.map Prod.fst).or after) =
      (s.membersAfter group after).drop room := by
  cases hlast : ((s.membersAfter group after).take room).getLast? with
  | none =>
    have hnone := List.getLast?_eq_none_iff.1 hlast
    have hdrop := List.take_append_drop room (s.membersAfter group after)
    rw [hnone, List.nil_append] at hdrop
    exact hdrop.symm
  | some row =>
    rw [← filter_after_take (s.membersAfter_sorted group after) hlast]
    have hrow := List.mem_of_mem_take (List.mem_of_getLast? hlast)
    cases after with
    | none => rfl
    | some last =>
      have hlt : last < row.1 := by simpa using (List.mem_filter.1 hrow).2
      change (s.membersOf group).filter (fun x => row.1 < x.1) =
        ((s.membersOf group).filter fun x => last < x.1).filter fun x => row.1 < x.1
      rw [List.filter_filter]
      refine List.filter_congr fun x _ => ?_
      by_cases hx : row.1 < x.1
      · simp [hx, GroupId.lt_trans hlt hx]
      · simp [hx]

/-- The rows of some groups, those of the first one up to `after` left out. -/
def rowsFrom (after : Option GroupId) : List GroupId → List MemberRow
  | [] => []
  | group :: rest => s.membersAfter group after ++ rest.flatMap s.membersOf

theorem rowsFrom_none (batch : List GroupId) :
    s.rowsFrom none batch = batch.flatMap s.membersOf := by
  cases batch <;> rfl

theorem readRows_rows (room : Nat) (position : UInt64) (after : Option GroupId)
    (batch : List GroupId) :
    (s.readRows room position after batch).rows = (s.rowsFrom after batch).take room := by
  induction batch generalizing room position after with
  | nil => simp [readRows, rowsFrom]
  | cons group rest ih =>
    rw [readRows, rowsFrom]
    split
    · rename_i hle
      rw [List.take_append, List.take_of_length_le hle, ← s.rowsFrom_none, ← ih]
    · rename_i hlt
      rw [List.take_append_of_le_length (by omega)]

theorem readRows_next_none (room : Nat) (position : UInt64) (after : Option GroupId)
    (batch : List GroupId) (hle : (s.rowsFrom after batch).length ≤ room) :
    (s.readRows room position after batch).next = none := by
  induction batch generalizing room position after with
  | nil => rfl
  | cons group rest ih =>
    rw [rowsFrom, ← s.rowsFrom_none, List.length_append] at hle
    rw [readRows]
    split
    · exact ih (room - (s.membersAfter group after).length) (position + 1) none (by omega)
    · omega

/-- A cursor stands for the rows from its member on, in a batch that its position is within. -/
structure Leaves (batch : List GroupId) (c : Cursor) (rows : List MemberRow) : Prop where
  position_le : c.position.toNat ≤ batch.length
  rows_eq : s.rowsFrom c.after (batch.drop c.position.toNat) = rows

/-- Positions count the groups that were passed; a word holds the length of the batch. -/
theorem readRows_next_some {batch rest : List GroupId} (hbatch : batch.length < UInt64.size)
    (room : Nat) (position : UInt64) (after : Option GroupId)
    (hrest : batch.drop position.toNat = rest) (hlt : room < (s.rowsFrom after rest).length) :
    ∃ c, (s.readRows room position after rest).next = some c.encode ∧
      s.Leaves batch c ((s.rowsFrom after rest).drop room) := by
  induction rest generalizing room position after with
  | nil => cases hlt
  | cons group rest ih =>
    have hinside := (List.getElem?_eq_some_iff.1 (getElem?_of_drop_eq hrest)).1
    rw [readRows]
    split
    · -- The whole group fits, so the page ends in a later one.
      rename_i hle
      have hnext := toNat_position_succ hbatch hinside
      rw [rowsFrom, ← s.rowsFrom_none, List.length_append] at hlt
      obtain ⟨c, hc, hleaves⟩ := ih (room - (s.membersAfter group after).length) (position + 1) none
        (by rw [hnext, drop_succ_of_drop_eq hrest]) (by omega)
      refine ⟨c, hc, ?_⟩
      rw [rowsFrom, ← s.rowsFrom_none, List.drop_append, List.drop_eq_nil_of_le hle]
      exact hleaves
    · rename_i hfull
      refine ⟨_, rfl, Nat.le_of_lt hinside, ?_⟩
      rw [hrest, rowsFrom, rowsFrom, s.membersAfter_taken, List.drop_append_of_le_length (by omega)]

variable {s} {batch : List GroupId} {token : PageToken} {c : Cursor} {rows : List MemberRow}

/-- A page holds the first of the rows that its token stands for, and the next token stands for the
others. -/
theorem Leaves.fetchPage (size : Nat) (hc : s.Leaves batch c rows)
    (hbatch : batch.length < UInt64.size) (hdecode : Cursor.decode token = .ok c) :
    ∃ page, s.fetchPage size batch token = .ok page ∧ page.rows = rows.take (max size 1) ∧
      (rows.length ≤ max size 1 → page.next = none) ∧
      (max size 1 < rows.length → ∃ next, page.next = some next.encode ∧
        s.Leaves batch next (rows.drop (max size 1))) := by
  obtain ⟨hposition, rfl⟩ := hc
  refine ⟨_, ?_, s.readRows_rows _ c.position _ _, s.readRows_next_none _ _ _ _,
    s.readRows_next_some hbatch _ _ _ rfl⟩
  rw [Store.fetchPage, hdecode]
  exact if_neg (Nat.not_lt.2 hposition)

theorem leaves_start : s.Leaves batch .start (batch.flatMap s.membersOf) :=
  ⟨Nat.zero_le _, s.rowsFrom_none batch⟩

/-- The pages from a token on: each is fetched with the token of the one before, and the last of them
has no token. -/
inductive Chain (s : Store) (size : Nat) (batch : List GroupId) : PageToken → List Page → Prop
  | last {token : PageToken} {page : Page} :
    s.fetchPage size batch token = .ok page → page.next = none → Chain s size batch token [page]
  | more {token next : PageToken} {page : Page} {pages : List Page} :
    s.fetchPage size batch token = .ok page → page.next = some next →
      Chain s size batch next pages → Chain s size batch token (page :: pages)

/-- Rows cut into pages: all but the last are full, and the last holds a row if there are any. -/
structure Paged (size : Nat) (rows : List MemberRow) (pages : List Page) : Prop where
  rows_eq : pages.flatMap Page.rows = rows
  length_eq : pages.length = max 1 ((rows.length + size - 1) / size)
  full : ∀ page ∈ pages.dropLast, page.rows.length = size
  last : ∃ page, pages.getLast? = some page ∧ page.rows.length ≤ size ∧
    (rows ≠ [] → page.rows ≠ [])

section Paged
variable {size : Nat} {page : Page} {pages : List Page} (hsize : 0 < size)
include hsize

theorem paged_single (hle : page.rows.length ≤ size) : Paged size page.rows [page] where
  rows_eq := List.flatMap_singleton _ _
  length_eq := by
    have hpages : (page.rows.length + size - 1) / size < 2 :=
      Nat.div_lt_of_lt_mul (by omega)
    rw [List.length_singleton]
    omega
  full := by simp
  last := ⟨page, rfl, hle, id⟩

theorem Paged.cons (hrows : page.rows = rows.take size) (hlt : size < rows.length)
    (hrest : Paged size (rows.drop size) pages) : Paged size rows (page :: pages) := by
  obtain ⟨hflat, hlength, hfull, last, hlast, hle, hholds⟩ := hrest
  have hne : pages ≠ [] := by
    rintro rfl
    cases hlast
  refine ⟨?_, ?_, ?_, last, ?_, hle, ?_⟩
  · rw [List.flatMap_cons, hrows, hflat, List.take_append_drop]
  · -- The rest has a row, so it has as many pages as its rows fill.
    have hpages : (rows.length + size - 1) / size = (rows.length - 1) / size + 1 := by
      rw [← Nat.add_div_right _ hsize]
      congr 1
      omega
    have hpos : 0 < (rows.length - 1) / size := Nat.div_pos (by omega) hsize
    have hless : rows.length - size + size - 1 = rows.length - 1 := by omega
    rw [List.length_drop, hless] at hlength
    rw [List.length_cons, hlength, hpages]
    omega
  · intro other hother
    rw [List.dropLast_cons_of_ne_nil hne, List.mem_cons] at hother
    rcases hother with rfl | hother
    · rw [hrows, List.length_take]
      omega
    · exact hfull other hother
  · rw [List.getLast?_cons_of_ne_nil hne, hlast]
  · intro _
    apply hholds
    intro hnil
    have := List.drop_eq_nil_iff.1 hnil
    omega

/-- Pages are no more than rows and one. -/
theorem Paged.length_le (hpaged : Paged size rows pages) : pages.length ≤ rows.length + 1 := by
  have hdiv : (rows.length + size - 1) / size ≤ rows.length := by
    rcases Nat.eq_zero_or_pos rows.length with hzero | hpos
    · exact Nat.le_trans (Nat.le_of_eq (Nat.div_eq_of_lt (by omega))) (Nat.zero_le _)
    · refine Nat.div_le_of_le_mul ?_
      obtain ⟨n, rfl⟩ := Nat.exists_eq_add_of_le' hsize
      rw [Nat.add_mul]
      have := Nat.le_mul_of_pos_right n hpos
      omega
  rw [hpaged.length_eq]
  omega

end Paged

theorem Leaves.chain (size : Nat) (hc : s.Leaves batch c rows) (hbatch : batch.length < UInt64.size)
    (hdecode : Cursor.decode token = .ok c) :
    ∃ pages, s.Chain size batch token pages ∧ Paged (max size 1) rows pages := by
  -- Each page but the last takes a row off those that are left.
  induction hlength : rows.length using Nat.strongRecOn generalizing c rows token with
  | ind n ih =>
    have hsize : 0 < max size 1 := by omega
    obtain ⟨page, hpage, htaken, hlast, hmore⟩ := hc.fetchPage size hbatch hdecode
    rcases Nat.lt_or_ge (max size 1) rows.length with hlt | hle
    · obtain ⟨next, hnext, hleaves⟩ := hmore hlt
      obtain ⟨pages, hchain, hpaged⟩ := ih _ (by rw [List.length_drop]; omega) hleaves
        next.decode_encode rfl
      exact ⟨page :: pages, .more hpage hnext hchain, hpaged.cons hsize htaken hlt⟩
    · rw [List.take_of_length_le hle] at htaken
      subst htaken
      exact ⟨[page], .last hpage (hlast hle), paged_single hsize hle⟩

/-- Fuel for all pages of a chain is enough to fetch them. -/
theorem Chain.pagesFrom {size fuel : Nat} {pages : List Page}
    (hchain : s.Chain size batch token pages) (hfuel : pages.length ≤ fuel) :
    s.pagesFrom size batch fuel token = .ok pages := by
  induction hchain generalizing fuel with
  | last hpage hnone =>
    obtain ⟨fuel, rfl⟩ := Nat.exists_eq_add_of_le' hfuel
    rw [List.length_singleton, Store.pagesFrom, hpage]
    simp only [hnone]
  | more hpage hnext _ ih =>
    obtain ⟨fuel, rfl⟩ := Nat.exists_eq_add_of_le' (Nat.le_trans (Nat.le_add_left ..) hfuel)
    rw [List.length_cons] at hfuel
    rw [Store.pagesFrom, hpage]
    simp only [hnext, ih (Nat.le_of_succ_le_succ hfuel)]
    rfl

theorem rowCount_eq (batch : List GroupId) :
    s.rowCount batch = (batch.flatMap s.membersOf).length := by
  have hfold (n : Nat) : batch.foldl (fun n group => n + (s.edgesOf group).size) n =
      n + (batch.flatMap s.membersOf).length := by
    induction batch generalizing n with
    | nil => rfl
    | cons group rest ih =>
      rw [List.foldl_cons, ih, List.flatMap_cons, List.length_append, length_membersOf,
        Nat.add_assoc]
  rw [rowCount, hfold, Nat.zero_add]

/-- The pages of a lookup hold the rows of its groups, and no page is left to fetch. -/
theorem exists_pages (size : Nat) (hbatch : batch.length < UInt64.size) :
    ∃ pages, s.pages size batch = .ok pages ∧ s.Chain size batch .first pages ∧
      Paged (max size 1) (batch.flatMap s.membersOf) pages := by
  have hdecode : Cursor.decode .first = .ok .start := rfl
  obtain ⟨pages, hchain, hpaged⟩ := leaves_start.chain size hbatch hdecode
  refine ⟨pages, hchain.pagesFrom ?_, hchain, hpaged⟩
  rw [rowCount_eq]
  exact hpaged.length_le (by omega)

/-- A lookup drained page by page returns the rows of its groups, one after the other. -/
theorem lookup_eq {size : Nat} (hbatch : batch.length < UInt64.size) :
    s.lookup size batch = .ok (batch.flatMap s.membersOf) := by
  obtain ⟨pages, hpages, -, hpaged⟩ := s.exists_pages size hbatch
  rw [lookup, hpages, ← hpaged.rows_eq]
  rfl

end Store

end GroupBench
