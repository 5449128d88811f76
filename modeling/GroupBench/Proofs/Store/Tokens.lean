import Mathlib.Logic.ExistsUnique
import GroupBench.Proofs.Store.Places

/-! Resume tokens, whoever wrote them. A token whose bytes say a place within the batch is read as
that place, also when no page ever ended there, and any other token is refused. -/
namespace GroupBench

namespace PageToken

/-- What the bytes of a token say: the eight of a position, with the sixteen of a member after them or
not. The empty token says that nothing was read yet. -/
inductive Means : PageToken → Cursor → Prop
  | first : Means .first .start
  | position (head : Vector UInt8 8) :
    Means ⟨head.toList⟩ ⟨.ofNat (BigEndian.toNat head.toList), none⟩
  | member (head : Vector UInt8 8) (last : Vector UInt8 16) :
    Means ⟨head.toList ++ last.toList⟩
      ⟨.ofNat (BigEndian.toNat head.toList), some (.ofBytes last)⟩

/-- A token for a batch of `groups` groups: empty, or of one of the two lengths with a position up to
the end of the batch. -/
def Fits (token : PageToken) (groups : Nat) : Prop :=
  token = .first ∨ (token.bytes.length = 8 ∨ token.bytes.length = 24) ∧
    BigEndian.toNat (token.bytes.take 8) ≤ groups

instance (token : PageToken) (groups : Nat) : Decidable (token.Fits groups) :=
  inferInstanceAs (Decidable (_ ∨ _))

variable {token : PageToken} {c d : Cursor}

theorem toNat_ofNat_head (head : Vector UInt8 8) :
    (UInt64.ofNat (BigEndian.toNat head.toList)).toNat = BigEndian.toNat head.toList := by
  have hlt := BigEndian.toNat_lt head.toList
  rw [Vector.length_toList] at hlt
  exact UInt64.toNat_ofNat_of_lt' hlt

theorem ofNat_toNat_head (head : Vector UInt8 8) :
    BigEndian.ofNat 8 (BigEndian.toNat head.toList) = head.toList := by
  have h := BigEndian.ofNat_toNat head.toList
  rwa [Vector.length_toList] at h

/-- Bytes of a given length as a vector. -/
theorem exists_vector {bytes : List UInt8} {n : Nat} (h : bytes.length = n) :
    ∃ v : Vector UInt8 n, v.toList = bytes :=
  ⟨⟨bytes.toArray, h⟩, rfl⟩

theorem Means.decode (h : token.Means c) : Cursor.decode token = .ok c := by
  cases h with
  | first => rfl
  | position head => simp [Cursor.decode, isFirst, Cursor.readPosition]
  | member head last =>
    have hlast : last.toList.length = 16 := Vector.length_toList
    have hne : head.toList ++ last.toList ≠ [] := List.ne_nil_of_length_pos (by simp)
    have hmember : Cursor.readMember last.toList hlast = .ofBytes last := rfl
    simp [Cursor.decode, isFirst, Cursor.readPosition, hne, hmember]

/-- Bytes of either length say something. -/
theorem exists_means (hlength : token.bytes.length = 8 ∨ token.bytes.length = 24) :
    ∃ c, token.Means c ∧ c.position.toNat = BigEndian.toNat (token.bytes.take 8) := by
  obtain ⟨bytes⟩ := token
  change bytes.length = 8 ∨ bytes.length = 24 at hlength
  obtain ⟨head, hhead⟩ : ∃ head : Vector UInt8 8, head.toList = bytes.take 8 :=
    exists_vector (by rw [List.length_take]; omega)
  have hbytes := List.take_append_drop 8 bytes
  have hposition := toNat_ofNat_head head
  rw [← hhead] at hbytes ⊢
  rcases hlength with hshort | hlong
  · rw [List.drop_eq_nil_of_le (Nat.le_of_eq hshort), List.append_nil] at hbytes
    exact hbytes ▸ ⟨_, .position head, hposition⟩
  · obtain ⟨last, hlast⟩ : ∃ last : Vector UInt8 16, last.toList = bytes.drop 8 :=
      exists_vector (by rw [List.length_drop]; omega)
    rw [← hlast] at hbytes
    exact hbytes ▸ ⟨_, .member head last, hposition⟩

theorem length_of_decode (h : Cursor.decode token = .ok c) :
    token = .first ∨ token.bytes.length = 8 ∨ token.bytes.length = 24 := by
  rw [Cursor.decode] at h
  split at h
  · rename_i hfirst
    exact .inl (PageToken.ext (List.isEmpty_iff.1 hfirst))
  · split at h
    · rename_i hshort
      exact .inr (.inl hshort)
    · split at h
      · rename_i hrest
        have hlong : token.bytes.length - 8 = 16 := by rwa [← List.length_drop]
        exact .inr (.inr (by omega))
      · cases h

theorem isToken_of_decode {fault : StoreFault} (h : Cursor.decode token = .error fault) :
    fault.isToken := by
  rw [Cursor.decode] at h
  split at h
  · cases h
  · split at h
    · cases h
    · split at h
      · cases h
      · cases h
        rfl

/-- Reading a token is finding out what it says. -/
theorem decode_eq_ok_iff : Cursor.decode token = .ok c ↔ token.Means c := by
  refine ⟨fun h => ?_, Means.decode⟩
  rcases length_of_decode h with rfl | hlength
  · cases h
    exact .first
  · obtain ⟨d, hd, -⟩ := exists_means hlength
    have heq := hd.decode
    rw [h] at heq
    cases heq
    exact hd

theorem Means.unique (hc : token.Means c) (hd : token.Means d) : c = d :=
  Except.ok.inj (hc.decode.symm.trans hd.decode)

theorem means_encode (c : Cursor) : c.encode.Means c :=
  decode_eq_ok_iff.1 c.decode_encode

/-- But for the empty one there is only one way to write a token. -/
theorem Means.encode_eq (h : token.Means c) (hne : token ≠ .first) : c.encode = token := by
  cases h with
  | first => exact absurd rfl hne
  | position head =>
    change (⟨BigEndian.ofNat 8 (UInt64.ofNat _).toNat ++ []⟩ : PageToken) = _
    rw [toNat_ofNat_head, ofNat_toNat_head, List.append_nil]
  | member head last =>
    change (⟨BigEndian.ofNat 8 (UInt64.ofNat _).toNat ++ (GroupId.ofBytes last).toBytes.toList⟩ :
      PageToken) = _
    rw [toNat_ofNat_head, ofNat_toNat_head, GroupId.toBytes_ofBytes]

theorem fits_iff {groups : Nat} :
    token.Fits groups ↔ ∃ c, token.Means c ∧ c.position.toNat ≤ groups := by
  constructor
  · rintro (rfl | ⟨hlength, hle⟩)
    · exact ⟨_, .first, Nat.zero_le groups⟩
    · obtain ⟨c, hc, hposition⟩ := exists_means hlength
      exact ⟨c, hc, hposition ▸ hle⟩
  · rintro ⟨_, _ | head | ⟨head, last⟩, hle⟩
    · exact .inl rfl
    · rw [toNat_ofNat_head] at hle
      refine .inr ⟨.inl Vector.length_toList, ?_⟩
      rwa [List.take_of_length_le (Nat.le_of_eq Vector.length_toList)]
    · rw [toNat_ofNat_head] at hle
      refine .inr ⟨.inr ?_, ?_⟩
      · rw [List.length_append, Vector.length_toList, Vector.length_toList]
      · rwa [List.take_left' Vector.length_toList]

end PageToken

namespace Store
variable (s : Store)

/-- The members of a group beyond a member that need not be stored: each edge once, in ascending
order. -/
structure ListsAfter (group : GroupId) (after : Option GroupId) : Prop where
  ascending : (s.membersAfter group after).Pairwise fun x y => x.1 < y.1
  mem_iff : ∀ member kind, (member, kind) ∈ s.membersAfter group after ↔
    (s.edgesOf group)[member]? = some kind ∧ ∀ last ∈ after, last < member

theorem listsAfter (group : GroupId) (after : Option GroupId) : s.ListsAfter group after :=
  ⟨s.membersAfter_sorted group after, fun _ _ => s.mem_membersAfter⟩

/-- The rows that a cursor leaves: those of the group at its position beyond its member, if the batch
has such a position, and all rows of the groups at later positions. -/
def rowsAfter (batch : List GroupId) (c : Cursor) : List MemberRow :=
  (batch[c.position.toNat]?.elim [] fun group => s.membersAfter group c.after) ++
    (batch.drop (c.position.toNat + 1)).flatMap fun group => s.membersAfter group none

theorem rowsAfter_eq (batch : List GroupId) (c : Cursor) :
    s.rowsAfter batch c = s.rowsFrom c.after (batch.drop c.position.toNat) := by
  rw [rowsAfter]
  cases hrest : batch.drop c.position.toNat with
  | nil =>
    have hle := List.drop_eq_nil_iff.1 hrest
    rw [List.getElem?_eq_none hle, List.drop_eq_nil_of_le (Nat.le_succ_of_le hle)]
    rfl
  | cons group rest =>
    rw [getElem?_of_drop_eq hrest, drop_succ_of_drop_eq hrest]
    rfl

/-- The page of a lookup that goes on from a cursor, up to `size` rows, and what is left after it. -/
structure Serves (size : Nat) (batch : List GroupId) (c : Cursor) (page : Page) : Prop where
  rows_eq : page.rows = (s.rowsAfter batch c).take size
  next_iff : page.next.isSome ↔ size < (s.rowsAfter batch c).length
  next_means : ∀ next ∈ page.next, ∃ d, next.Means d ∧ d.position.toNat ≤ batch.length ∧
    s.rowsAfter batch d = (s.rowsAfter batch c).drop size

/-- A token within the batch is served, whether a page ended there or not, and any other is turned
down. -/
structure ReadsTokens (size : Nat) (batch : List GroupId) : Prop where
  accepts_iff : ∀ token, (∃ page, s.fetchPage size batch token = .ok page) ↔
    token.Fits batch.length
  refuses : ∀ token : PageToken, ¬ token.Fits batch.length →
    ∃ fault, s.fetchPage size batch token = .error fault ∧ fault.isToken
  means : ∀ token : PageToken, token.Fits batch.length → ∃! c, token.Means c
  serves : ∀ (token : PageToken) c, token.Fits batch.length → token.Means c →
    ∃ page, s.fetchPage size batch token = .ok page ∧ s.Serves (max size 1) batch c page

variable {s} {batch : List GroupId} {token : PageToken}

theorem fetchPage_refused (size : Nat) (hfits : ¬ token.Fits batch.length) :
    ∃ fault, s.fetchPage size batch token = .error fault ∧ fault.isToken := by
  rw [fetchPage]
  cases hdecode : Cursor.decode token with
  | error fault => exact ⟨fault, rfl, PageToken.isToken_of_decode hdecode⟩
  | ok c =>
    have hbeyond : batch.length < c.position.toNat := by
      refine Nat.lt_of_not_le fun hle => hfits (PageToken.fits_iff.2 ⟨c, ?_, hle⟩)
      exact PageToken.decode_eq_ok_iff.1 hdecode
    exact ⟨_, if_pos hbeyond, rfl⟩

theorem fetchPage_serves (size : Nat) (hbatch : batch.length < UInt64.size) {c : Cursor}
    (hmeans : token.Means c) (hle : c.position.toNat ≤ batch.length) :
    ∃ page, s.fetchPage size batch token = .ok page ∧ s.Serves (max size 1) batch c page := by
  have hleaves : s.Leaves batch c (s.rowsAfter batch c) := ⟨hle, (s.rowsAfter_eq batch c).symm⟩
  obtain ⟨page, hpage, hrows, hlast, hmore⟩ :=
    hleaves.fetchPage size hbatch hmeans.decode
  rcases Nat.lt_or_ge (max size 1) (s.rowsAfter batch c).length with hmany | hfew
  · obtain ⟨d, hnext, hposition, hrest⟩ := hmore hmany
    refine ⟨page, hpage, hrows, iff_of_true (by rw [hnext, Option.isSome_some]) hmany, ?_⟩
    rintro _ hsome
    rw [hnext] at hsome
    cases hsome
    exact ⟨d, PageToken.means_encode d, hposition, (s.rowsAfter_eq batch d).trans hrest⟩
  · have hnext := hlast hfew
    refine ⟨page, hpage, hrows, iff_of_false (by simp [hnext]) (Nat.not_lt.2 hfew), ?_⟩
    rintro _ hsome
    rw [hnext] at hsome
    cases hsome

theorem readsTokens (size : Nat) (hbatch : batch.length < UInt64.size) :
    s.ReadsTokens size batch where
  accepts_iff token := by
    constructor
    · rintro ⟨page, hpage⟩
      refine Decidable.byContradiction fun hfits => ?_
      obtain ⟨fault, hfault, -⟩ := s.fetchPage_refused size hfits
      rw [hpage] at hfault
      cases hfault
    · intro hfits
      obtain ⟨c, hmeans, hle⟩ := PageToken.fits_iff.1 hfits
      obtain ⟨page, hpage, -⟩ := s.fetchPage_serves size hbatch hmeans hle
      exact ⟨page, hpage⟩
  refuses token := fetchPage_refused size
  means token hfits := by
    obtain ⟨c, hmeans, -⟩ := PageToken.fits_iff.1 hfits
    exact ⟨c, hmeans, fun d hd => hd.unique hmeans⟩
  serves token c hfits hmeans := by
    obtain ⟨d, hd, hle⟩ := PageToken.fits_iff.1 hfits
    obtain rfl := hd.unique hmeans
    exact fetchPage_serves size hbatch hmeans hle

end Store

/-- A lookup reads any bytes at all as one place in the batch or as none, and writes places the way it
reads them. -/
theorem tokens_mean_places {batch : List GroupId} (hbatch : batch.length < UInt64.size) (s : Store)
    (size : Nat) :
    s.ReadsTokens size batch ∧
      (∀ group after, s.ListsAfter group after) ∧
      (∀ c, Cursor.decode c.encode = .ok c) ∧
      (∀ token c, Cursor.decode token = .ok c ↔ token.Means c) ∧
      ∀ token c, Cursor.decode token = .ok c → token ≠ .first → c.encode = token := by
  refine ⟨s.readsTokens size hbatch, s.listsAfter, Cursor.decode_encode,
    fun _ _ => PageToken.decode_eq_ok_iff, fun token c hdecode hne => ?_⟩
  exact (PageToken.decode_eq_ok_iff.1 hdecode).encode_eq hne

/-- A group with two users. -/
def couple : Store :=
  (Store.empty.link (.encode 1 1) (.encode 0 2) .user).link (.encode 1 1) (.encode 0 4) .user

/-- The group, and one that is not stored. -/
def coupleBatch : List GroupId := [.encode 1 1, .encode 1 2]

/-- The place between the two users, after a third one that is not there. -/
def betweenUsers : Cursor := ⟨0, some (.encode 0 3)⟩

/-- A token that no page ends with is served from the place that it says. -/
theorem couple_tokens_mean_places :
    coupleBatch.length < UInt64.size ∧ couple.ReadsTokens 1 coupleBatch ∧
      ∃ page, couple.fetchPage 1 coupleBatch betweenUsers.encode = .ok page ∧
        page.rows = [(.encode 0 4, .user)] ∧ page.next.isSome = false := by
  have hbatch : coupleBatch.length < UInt64.size := by decide
  obtain ⟨hreads, -, -, hmeans, -⟩ := tokens_mean_places hbatch couple 1
  have hrows : couple.rowsAfter coupleBatch betweenUsers = [(.encode 0 4, .user)] := by
    decide +kernel
  obtain ⟨page, hpage, hserves⟩ := hreads.serves betweenUsers.encode betweenUsers
    (by decide +kernel) ((hmeans _ _).1 betweenUsers.decode_encode)
  have hnext := hserves.next_iff
  rw [hrows] at hnext
  refine ⟨hbatch, hreads, page, hpage, ?_, ?_⟩
  · rw [hserves.rows_eq, hrows]
    rfl
  · rw [Bool.eq_false_iff, ne_eq, hnext]
    decide

end GroupBench
