import Rabbithole.Foundation.Utf8
import Rabbithole.Qwk.Replies

/-!
# Archives

An archive of uncompressed members: every member with a header before it, then a directory
with a record for each, and a record at the end that says where the directory is.
-/

namespace Rabbithole.Qwk

open Foundation List

def crcPolynomial : UInt32 := 0xEDB88320

def crcStep (crc : UInt32) : UInt32 :=
  let mask := 0 - (crc &&& 1)
  (crc >>> 1) ^^^ (crcPolynomial &&& mask)

def crcByte (crc : UInt32) (byte : UInt8) : UInt32 :=
  crcStep^[8] (crc ^^^ byte.toUInt32)

def crc32 (data : Bytes) : UInt32 :=
  ~~~ data.foldl crcByte 0xFFFFFFFF

example : crc32 "123456789".toUTF8.toList = 0xCBF43926 := by
  decide +kernel

/-- A member as it is stored, with the checksum that is written for it. -/
structure StoredMember where
  name : Bytes
  crc : UInt32
  data : Bytes
deriving DecidableEq

namespace StoredMember

def localFields (m : StoredMember) : List Bytes :=
  [Codec.littleEndian 4 0x04034b50, Codec.littleEndian 2 20, Codec.littleEndian 2 0,
    Codec.littleEndian 2 0, Codec.littleEndian 2 0, Codec.littleEndian 2 0,
    Codec.littleEndian 4 m.crc.toNat, Codec.littleEndian 4 m.data.length,
    Codec.littleEndian 4 m.data.length, Codec.littleEndian 2 m.name.length,
    Codec.littleEndian 2 0]

def localRecord (m : StoredMember) : Bytes :=
  m.localFields.flatten ++ (m.name ++ m.data)

/-- The fields of a member's record in the directory, with the place of its header. -/
def centralFields (m : StoredMember) (offset : Nat) : List Bytes :=
  [Codec.littleEndian 4 0x02014b50, Codec.littleEndian 2 20, Codec.littleEndian 2 20,
    Codec.littleEndian 2 0, Codec.littleEndian 2 0, Codec.littleEndian 2 0,
    Codec.littleEndian 2 0, Codec.littleEndian 4 m.crc.toNat,
    Codec.littleEndian 4 m.data.length, Codec.littleEndian 4 m.data.length,
    Codec.littleEndian 2 m.name.length, Codec.littleEndian 2 0, Codec.littleEndian 2 0,
    Codec.littleEndian 2 0, Codec.littleEndian 2 0, Codec.littleEndian 4 0,
    Codec.littleEndian 4 offset]

def centralRecord (m : StoredMember) (offset : Nat) : Bytes :=
  (m.centralFields offset).flatten ++ m.name

end StoredMember

def localWidths : List Nat := [4, 2, 2, 2, 2, 2, 4, 4, 4, 2, 2]

def centralWidths : List Nat := [4, 2, 2, 2, 2, 2, 2, 4, 4, 4, 2, 2, 2, 2, 2, 4, 4]

def endWidths : List Nat := [4, 2, 2, 2, 2, 4, 4, 2]

def locals (ms : List StoredMember) : Bytes :=
  ms.flatMap StoredMember.localRecord

/-- The directory of members the first of which stands at some offset. -/
def centrals : Nat -> List StoredMember -> Bytes
  | _, [] => []
  | offset, m :: ms => m.centralRecord offset ++ centrals (offset + m.localRecord.length) ms

def endFields (count centralSize centralOffset : Nat) : List Bytes :=
  [Codec.littleEndian 4 0x06054b50, Codec.littleEndian 2 0, Codec.littleEndian 2 0,
    Codec.littleEndian 2 count, Codec.littleEndian 2 count, Codec.littleEndian 4 centralSize,
    Codec.littleEndian 4 centralOffset, Codec.littleEndian 2 0]

def archiveOf (ms : List StoredMember) : Bytes :=
  locals ms ++ (centrals 0 ms ++
    (endFields ms.length (centrals 0 ms).length (locals ms).length).flatten)

def stored (member : List Char × Bytes) : StoredMember where
  name := utf8 member.fst
  crc := crc32 member.snd
  data := member.snd

def zipStore (members : List (List Char × Bytes)) : Bytes :=
  archiveOf (members.map stored)

/-!
## Lengths and places
-/

namespace StoredMember

theorem length_localFields (m : StoredMember) : m.localFields.map List.length = localWidths := by
  unfold localFields
  simp only [map_cons, map_nil, Codec.length_littleEndian]
  rfl

theorem length_centralFields (m : StoredMember) (offset : Nat) :
    (m.centralFields offset).map List.length = centralWidths := by
  unfold centralFields
  simp only [map_cons, map_nil, Codec.length_littleEndian]
  rfl

theorem length_localRecord (m : StoredMember) :
    m.localRecord.length = 30 + m.name.length + m.data.length := by
  unfold localRecord
  rw [length_append, length_layout m.length_localFields, length_append, ← Nat.add_assoc]
  rfl

theorem length_centralRecord (m : StoredMember) (offset : Nat) :
    (m.centralRecord offset).length = 46 + m.name.length := by
  unfold centralRecord
  rw [length_append, length_layout (m.length_centralFields offset)]
  rfl

end StoredMember

theorem length_endFields (count centralSize centralOffset : Nat) :
    (endFields count centralSize centralOffset).map List.length = endWidths := by
  unfold endFields
  simp only [map_cons, map_nil, Codec.length_littleEndian]
  rfl

theorem length_archiveOf (ms : List StoredMember) :
    (archiveOf ms).length = (locals ms).length + (centrals 0 ms).length + 22 := by
  unfold archiveOf
  rw [length_append, length_append, length_layout (length_endFields _ _ _), ← Nat.add_assoc]
  rfl

theorem locals_append (pre post : List StoredMember) :
    locals (pre ++ post) = locals pre ++ locals post :=
  flatMap_append

theorem centrals_append (offset : Nat) (pre post : List StoredMember) :
    centrals offset (pre ++ post) =
      centrals offset pre ++ centrals (offset + (locals pre).length) post := by
  induction pre generalizing offset with
  | nil => rfl
  | cons m pre ih =>
      show m.centralRecord offset ++ centrals _ (pre ++ post) = _
      rw [ih]
      show _ = m.centralRecord offset ++ centrals _ pre ++ centrals _ post
      rw [append_assoc]
      show _ = m.centralRecord offset ++ (_ ++ centrals (offset + (m.localRecord ++ locals pre).length)
        post)
      rw [length_append, Nat.add_assoc]

theorem archiveOf_local (pre post : List StoredMember) (m : StoredMember) :
    exists rest, archiveOf (pre ++ m :: post) =
      locals pre ++ (m.localFields.flatten ++ (m.name ++ (m.data ++ rest))) := by
  refine ⟨locals post ++ (centrals 0 (pre ++ m :: post) ++ (endFields (pre ++ m :: post).length
    (centrals 0 (pre ++ m :: post)).length (locals (pre ++ m :: post)).length).flatten), ?_⟩
  unfold archiveOf
  conv => lhs; lhs; rw [locals_append]
  show locals pre ++ (m.localRecord ++ locals post) ++ _ = _
  unfold StoredMember.localRecord
  simp only [append_assoc]

theorem archiveOf_central (pre post : List StoredMember) (m : StoredMember) :
    exists rest, archiveOf (pre ++ m :: post) = (locals (pre ++ m :: post) ++ centrals 0 pre) ++
        ((m.centralFields (locals pre).length).flatten ++ (m.name ++ rest)) := by
  refine ⟨centrals ((locals pre).length + m.localRecord.length) post ++
    (endFields (pre ++ m :: post).length
      (centrals 0 (pre ++ m :: post)).length (locals (pre ++ m :: post)).length).flatten, ?_⟩
  unfold archiveOf
  conv => lhs; rhs; lhs; rw [centrals_append, Nat.zero_add]
  show _ ++ ((centrals 0 pre ++ (m.centralRecord (locals pre).length ++ centrals _ post)) ++ _) = _
  unfold StoredMember.centralRecord
  simp only [append_assoc]

/-!
# Reading an archive of replies

The reader of archives finds the record at the end, walks the directory and checks each
member's header against it, takes out the message member, counts its records and has the
packet parser read it.
-/

def maxArchiveBytes : Nat := 8 * 1024 * 1024

def maxMemberBytes : Nat := 8 * 1024 * 1024

def maxEntries : Nat := 32

def maxTotalBytes : Nat := 16 * 1024 * 1024

def maxReplies : Nat := 1000

/-- Why an archive is not read. -/
structure ArchiveError where
  why : String
deriving DecidableEq

def require (ok : Bool) (why : String) : Except ArchiveError Unit :=
  if ok then .ok () else .error { why := why }

def checkedAdd (a b : Nat) (why : String) : Except ArchiveError Nat :=
  if a + b <= usizeMax then .ok (a + b) else .error { why := why }

def bytesAt (b : Bytes) (p n : Nat) : Except ArchiveError Bytes := do
  let stop ← checkedAdd p n "offset overflow"
  require (stop <= b.length) "truncated ZIP record"
  .ok (fieldAt b p n)

def u16At (b : Bytes) (p : Nat) : Except ArchiveError Nat :=
  (bytesAt b p 2).map Codec.ofLittleEndian

def u32At (b : Bytes) (p : Nat) : Except ArchiveError Nat :=
  (bytesAt b p 4).map Codec.ofLittleEndian

def complement (n : Nat) : Nat :=
  usizeMax - n

/-- The extra fields from a place on; each takes four bytes at least. -/
def extraFrom (b : Bytes) : Nat -> Nat -> Except ArchiveError Unit
  | 0, _ => .ok ()
  | fuel + 1, p =>
      if b.length <= p then .ok ()
      else do
        let id ← u16At b p
        require (id != 1) "ZIP64 is unsupported"
        let n ← u16At b (p + 2)
        let _ ← bytesAt b (p + 4) n
        extraFrom b fuel (p + 4 + n)

def extra (b : Bytes) : Except ArchiveError Unit :=
  extraFrom b b.length 0

def asciiLower (b : UInt8) : UInt8 :=
  if 0x41 <= b ∧ b <= 0x5A then b + 0x20 else b

def lowerName (name : Bytes) : Bytes :=
  name.map asciiLower

/-- A byte that a name may have: a graphic one, and no slash, backslash or colon. -/
def isNameByte (c : UInt8) : Bool :=
  0x21 <= c && c <= 0x7E && !(c == 0x2F || c == 0x5C || c == 0x3A)

def isSafeName (name : Bytes) : Bool :=
  !name.isEmpty && name.length <= 255 && name.all isNameByte && name != [0x2E] &&
    name != [0x2E, 0x2E]

def isValidId (bbsId : List Char) : Bool :=
  !bbsId.isEmpty && (utf8 bbsId).length <= 8 && bbsId.all isAsciiAlphanumeric

/-!
## The end record
-/

/-- The record at the end begins here: its comment ends with the bytes. -/
def isEnd (b : Bytes) (p : Nat) : Bool :=
  fieldAt b p 4 == [0x50, 0x4b, 5, 6] &&
    match u16At b (p + 20) with
    | .ok n => p + 22 + n == b.length
    | .error _ => false

def maxEndBytes : Nat := 22 + 65535

/-- The last place at which the record at the end can begin. -/
def findEnd (b : Bytes) : Option Nat :=
  (List.range (b.length - 21)).reverse.find? (fun p =>
    b.length <= p + maxEndBytes && isEnd b p)

def endPlace (b : Bytes) : Except ArchiveError Nat :=
  match findEnd b with
  | some p => .ok p
  | none => .error { why := "missing end record" }

structure EndRecord where
  place : Nat
  count : Nat
  central : Nat
deriving DecidableEq

def readEnd (b : Bytes) : Except ArchiveError EndRecord := do
  let place ← endPlace b
  let disk ← u16At b (place + 4)
  let centralDisk ← u16At b (place + 6)
  require (disk == 0 && centralDisk == 0) "split archives are unsupported"
  let count ← u16At b (place + 10)
  let diskCount ← u16At b (place + 8)
  require (0 < count && count <= maxEntries && diskCount == count) "entry count out of bounds"
  let centralLen ← u32At b (place + 12)
  let central ← u32At b (place + 16)
  require (central <= b.length && central + centralLen == place) "invalid central directory bounds"
  .ok { place := place, count := count, central := central }

/-!
## Members
-/

/-- What the directory says about a member. -/
structure CentralHeader where
  flags : Nat
  method : Nat
  crc : Nat
  compressed : Nat
  size : Nat

def readCentral (b : Bytes) (p : Nat) : Except ArchiveError CentralHeader := do
  let signature ← u32At b p
  require (signature == 0x02014b50) "invalid central directory"
  let _ ← bytesAt b p 46
  let version ← u16At b (p + 6)
  require (version <= 20) "unsupported ZIP version"
  let flags ← u16At b (p + 8)
  require (flags &&& complement (0x800 ||| 8 ||| 6) == 0) "unsupported ZIP flags or encryption"
  let method ← u16At b (p + 10)
  require (method == 0 || method == 8) "unsupported compression method"
  require (method == 8 || flags &&& 6 == 0) "invalid STORE flags"
  let crc ← u32At b (p + 16)
  let compressed ← u32At b (p + 20)
  let size ← u32At b (p + 24)
  require (compressed <= maxArchiveBytes && size <= maxMemberBytes) "member too large"
  .ok { flags := flags, method := method, crc := crc, compressed := compressed, size := size }

/-- Where it says the member is, and under which name. -/
structure CentralName where
  nameLen : Nat
  extraLen : Nat
  comment : Nat
  place : Nat
  name : Bytes

def readCentralName (b : Bytes) (p central : Nat) : Except ArchiveError CentralName := do
  let nameLen ← u16At b (p + 28)
  let extraLen ← u16At b (p + 30)
  let comment ← u16At b (p + 32)
  let disk ← u16At b (p + 34)
  require (disk == 0) "split archives are unsupported"
  let attrs ← u32At b (p + 38)
  require (attrs &&& 0x10 == 0 &&
    ((attrs >>> 16) &&& 0xf000 == 0 || (attrs >>> 16) &&& 0xf000 == 0x8000)) "non-regular member"
  let place ← u32At b (p + 42)
  require (place <= central) "local offset out of bounds"
  let name ← bytesAt b (p + 46) nameLen
  require (isSafeName name) "unsafe member name"
  .ok { nameLen := nameLen, extraLen := extraLen, comment := comment, place := place, name := name }

/-- A descriptor behind the data says the same as the directory. -/
def descriptorMatches (b : Bytes) (h : CentralHeader) (q : Nat) : Bool :=
  (u32At b q).toOption == some h.crc && (u32At b (q + 4)).toOption == some h.compressed &&
    (u32At b (q + 8)).toOption == some h.size

/-- Where a member with a descriptor ends; its signature is optional. -/
def descriptorEnd (b : Bytes) (h : CentralHeader) (stop : Nat) : Except ArchiveError Nat := do
  let signature ← u32At b stop
  if signature == 0x08074b50 && descriptorMatches b h (stop + 4) then .ok (stop + 16)
  else do
    require (descriptorMatches b h stop) "invalid data descriptor"
    .ok (stop + 12)

/-- The bytes that are stored for a member, and where it ends. -/
def readLocal (b : Bytes) (h : CentralHeader) (n : CentralName) :
    Except ArchiveError (Bytes × Nat) := do
  let place := n.place
  let signature ← u32At b place
  require (signature == 0x04034b50) "invalid local header"
  let _ ← bytesAt b place 30
  let version ← u16At b (place + 4)
  let flags ← u16At b (place + 6)
  let method ← u16At b (place + 8)
  require (version <= 20 && flags == h.flags && method == h.method) "local header mismatch"
  let localNameLen ← u16At b (place + 26)
  let localExtraLen ← u16At b (place + 28)
  let localName ← bytesAt b (place + 30) localNameLen
  require (localName == n.name) "local filename mismatch"
  let localExtra ← bytesAt b (place + 30 + localNameLen) localExtraLen
  extra localExtra
  let data ← checkedAdd place (30 + localNameLen + localExtraLen) "offset overflow"
  let payload ← bytesAt b data h.compressed
  let stop := data + h.compressed
  let crc ← u32At b (place + 14)
  let compressed ← u32At b (place + 18)
  let size ← u32At b (place + 22)
  if h.flags &&& 8 == 0 then do
    require (crc == h.crc && compressed == h.compressed && size == h.size)
      "local size or CRC mismatch"
    .ok (payload, stop)
  else do
    require ((crc == 0 || crc == h.crc) && (compressed == 0 || compressed == h.compressed) &&
      (size == 0 || size == h.size)) "local descriptor mismatch"
    let described ← descriptorEnd b h stop
    .ok (payload, described)

section Reader

-- The decompressor: it is given the payload and how much there can be of the output, and says
-- whether the stream ended, how much of the payload it took, and what came out.
variable (inflate : Bytes -> Nat -> Option (Bool × Nat × Bytes))

/-- The contents of a member. -/
def extract (h : CentralHeader) (payload : Bytes) : Except ArchiveError Bytes := do
  let decoded ←
    if h.method == 0 then do
      require (h.compressed == h.size) "invalid STORE size"
      .ok payload
    else
      match inflate payload (h.size + 1) with
      | none => .error { why := "invalid DEFLATE stream" }
      | some (ended, totalIn, out) => do
          require (ended && totalIn == h.compressed) "incomplete or trailing DEFLATE data"
          .ok out
  require (decoded.length == h.size) "decoded size mismatch"
  require ((crc32 decoded).toNat == h.crc) "CRC mismatch"
  .ok decoded

/-- What is taken for the message member at a member with some name. -/
def memberAt (expected : Bytes) (h : CentralHeader) (name payload : Bytes)
    (member : Option Bytes) : Except ArchiveError (Option Bytes) :=
  if lowerName name == lowerName expected then (extract inflate h payload).map some
  else .ok member

/-- What the walk along the directory has gathered. -/
structure Scan where
  p : Nat
  total : Nat := 0
  names : List Bytes := []
  ranges : List (Nat × Nat) := []
  member : Option Bytes := none

def scanMember (b expected : Bytes) (e : EndRecord) (s : Scan) : Except ArchiveError Scan := do
  let h ← readCentral b s.p
  let total ← checkedAdd s.total h.size "size overflow"
  require (total <= maxTotalBytes) "total output too large"
  let n ← readCentralName b s.p e.central
  require (!s.names.contains (lowerName n.name)) "duplicate member name"
  let centralExtra ← bytesAt b (s.p + 46 + n.nameLen) n.extraLen
  extra centralExtra
  let p ← checkedAdd s.p (46 + n.nameLen + n.extraLen + n.comment) "offset overflow"
  require (p <= e.place) "central record exceeds directory"
  let (payload, stop) ← readLocal b h n
  require (stop <= e.central) "member overlaps central directory"
  let member ← memberAt inflate expected h n.name payload s.member
  .ok { p := p, total := total, names := lowerName n.name :: s.names,
        ranges := s.ranges ++ [(n.place, stop)], member := member }

def scanMembers (b expected : Bytes) (e : EndRecord) : Nat -> Scan -> Except ArchiveError Scan
  | 0, s => .ok s
  | count + 1, s => do
      let s ← scanMember inflate b expected e s
      scanMembers b expected e count s

def sortRanges (ranges : List (Nat × Nat)) : List (Nat × Nat) :=
  ranges.mergeSort (fun r r' => r.fst < r'.fst || (r.fst == r'.fst && r.snd <= r'.snd))

/-- Each range begins where the one before it ends. -/
def accounted : Nat -> List (Nat × Nat) -> Except ArchiveError Nat
  | cursor, [] => .ok cursor
  | cursor, (first, stop) :: ranges => do
      require (first == cursor) "overlapping or unaccounted ZIP data"
      accounted stop ranges

/-- The message member of an archive. -/
def readMember (b : Bytes) (bbsId : List Char) : Except ArchiveError Bytes := do
  require (b.length <= maxArchiveBytes) "archive too large"
  require (isValidId bbsId) "invalid BBS identity"
  let e ← readEnd b
  let expected := utf8 (bbsId ++ ".MSG".toList)
  let s ← scanMembers inflate b expected e e.count { p := e.central }
  require (s.p == e.place) "central directory count mismatch"
  let cursor ← accounted 0 (sortRanges s.ranges)
  require (cursor == e.central) "unaccounted ZIP data"
  match s.member with
  | some member => .ok member
  | none => .error { why := "expected BBS message member missing" }

end Reader

/-!
## The packet in the member
-/

/-- The number that the count of a record's blocks says, read as text. -/
def countedBlocks (field : Bytes) : Option Nat :=
  ((fromUtf8? field).bind (fun s => parseUnsigned usizeMax (trimText s))).filter (fun n => 0 < n)

/-- Count the records from an offset on; each takes a block at least. -/
def countReplies (member : Bytes) : Nat -> Nat -> Nat -> Except ArchiveError Unit
  | 0, _, _ => .ok ()
  | fuel + 1, offset, count =>
      if member.length <= offset then .ok ()
      else do
        let field ← bytesAt member (offset + 116) 6
        let n ←
          match countedBlocks field with
          | some n => .ok n
          | none => .error { why := "invalid message block count" }
        require (n * 128 <= usizeMax) "message size overflow"
        let offset ← checkedAdd offset (n * 128) "message size overflow"
        require (offset <= member.length) "truncated message"
        require (count + 1 <= maxReplies) "too many replies"
        countReplies member fuel offset (count + 1)

def eqIgnoreAsciiCase (s t : List Char) : Bool :=
  s.map Char.toLower == t.map Char.toLower

/-- The packet of a member that was taken out. -/
def readPacket (member : Bytes) (bbsId : List Char) : Except ArchiveError ReplyPacket := do
  countReplies member member.length 128 0
  let packet ←
    match ReplyPacket.parse member with
    | .ok packet => .ok packet
    | .error _ => .error { why := "invalid message member" }
  require (eqIgnoreAsciiCase packet.header bbsId) "BBS header mismatch"
  .ok packet

def parseArchive (inflate : Bytes -> Nat -> Option (Bool × Nat × Bytes)) (b : Bytes)
    (bbsId : List Char) : Except ArchiveError ReplyPacket := do
  let member ← readMember inflate b bbsId
  readPacket member bbsId

end Rabbithole.Qwk
