import GroupBench.Fault
import GroupBench.Store

/-! Lookups over a batch of groups, page by page. Rows come in batch order and ascending within a
group. A page ends with a token that says where the next one begins: a position in the batch and the
last member returned for it. -/
namespace GroupBench

/-- Where a lookup goes on: after member `after` of the group at `position`. -/
@[ext]
structure Cursor where
  position : UInt64
  after : Option GroupId
  deriving DecidableEq, Inhabited

/-- A resume token; the empty one asks for the first page. -/
@[ext]
structure PageToken where
  bytes : List UInt8
  deriving DecidableEq, Inhabited

namespace PageToken

def first : PageToken := ⟨[]⟩

def isFirst (t : PageToken) : Bool := t.bytes.isEmpty

end PageToken

namespace Cursor

def start : Cursor := ⟨0, none⟩

/-- The eight bytes of the position, followed by the sixteen of the member if there is one. -/
def encode (c : Cursor) : PageToken :=
  ⟨BigEndian.ofNat 8 c.position.toNat ++ (c.after.map fun id => id.toBytes.toList).getD []⟩

def readPosition (bytes : List UInt8) : UInt64 := UInt64.ofNat (BigEndian.toNat bytes)

/-- Sixteen bytes as an identifier. -/
def readMember (bytes : List UInt8) (h : bytes.length = 16) : GroupId :=
  .ofBytes ⟨bytes.toArray, h⟩

/-- A token is empty, a position, or a position and a member. -/
def decode (token : PageToken) : Except StoreFault Cursor :=
  let rest := token.bytes.drop 8
  if token.isFirst then .ok start
  else if token.bytes.length = 8 then .ok ⟨readPosition token.bytes, none⟩
  else if h : rest.length = 16 then
    .ok ⟨readPosition (token.bytes.take 8), some (readMember rest h)⟩
  else .error (.tokenLength token.bytes.length)

theorem readPosition_ofNat (position : UInt64) :
    readPosition (BigEndian.ofNat 8 position.toNat) = position := by
  have h : BigEndian.toNat (BigEndian.ofNat 8 position.toNat) = position.toNat :=
    BigEndian.toNat_ofNat position.toNat_lt
  simp [readPosition, h]

theorem readMember_toBytes (id : GroupId) (h : id.toBytes.toList.length = 16) :
    readMember id.toBytes.toList h = id :=
  id.ofBytes_toBytes

theorem decode_encode (c : Cursor) : decode c.encode = .ok c := by
  obtain ⟨position, after⟩ := c
  have h : BigEndian.ofNat 8 position.toNat ≠ [] :=
    List.ne_nil_of_length_eq_add_one (BigEndian.length_ofNat 8 _)
  cases after with
  | none => simp [decode, encode, PageToken.isFirst, readPosition_ofNat, h]
  | some id =>
    simp [decode, encode, PageToken.isFirst, readPosition_ofNat, h]
    exact readMember_toBytes id (by simp)

end Cursor

/-- Rows of one page, and the token of the next while there is one. -/
@[ext]
structure Page where
  rows : List MemberRow
  next : Option PageToken
  deriving DecidableEq

namespace Store
variable (s : Store)

/-- Fills a page that has `room` places left with the rows of `batch`, the first group of which is
at `position` and is read from after `after`. A page that is full when another row follows ends
where it stands. -/
def readRows (room : Nat) (position : UInt64) (after : Option GroupId) : List GroupId → Page
  | [] => ⟨[], none⟩
  | group :: rest =>
    let rows := s.membersAfter group after
    if rows.length ≤ room then
      let page := readRows (room - rows.length) (position + 1) none rest
      { page with rows := rows ++ page.rows }
    else
      let taken := rows.take room
      ⟨taken, some (Cursor.encode ⟨position, (taken.getLast?.map Prod.fst).or after⟩)⟩

/-- Up to `size` rows of a batch, from where the token says; a token must lie within the batch. -/
def fetchPage (size : Nat) (batch : List GroupId) (token : PageToken) : Except StoreFault Page :=
  match Cursor.decode token with
  | .error fault => .error fault
  | .ok cursor =>
    if batch.length < cursor.position.toNat then
      .error (.tokenPosition cursor.position.toNat batch.length)
    else
      .ok (s.readRows (max size 1) cursor.position cursor.after (batch.drop cursor.position.toNat))

/-- All pages from a token on; `fuel` bounds their number. -/
def pagesFrom (size : Nat) (batch : List GroupId) : Nat → PageToken → Except StoreFault (List Page)
  | 0, _ => .ok []
  | fuel + 1, token =>
    match s.fetchPage size batch token with
    | .error fault => .error fault
    | .ok page =>
      match page.next with
      | none => .ok [page]
      | some next => (pagesFrom size batch fuel next).map (page :: ·)

/-- Rows that a lookup over a batch returns. -/
def rowCount (batch : List GroupId) : Nat :=
  batch.foldl (fun n group => n + (s.edgesOf group).size) 0

/-- The pages of a lookup. Every page but the last holds a row, so there are no more than rows and
one. -/
def pages (size : Nat) (batch : List GroupId) : Except StoreFault (List Page) :=
  s.pagesFrom size batch (s.rowCount batch + 1) .first

/-- The rows of a lookup, drained page by page. -/
def lookup (size : Nat) (batch : List GroupId) : Except StoreFault (List MemberRow) :=
  (s.pages size batch).map fun pages => pages.flatMap Page.rows

end Store

end GroupBench
