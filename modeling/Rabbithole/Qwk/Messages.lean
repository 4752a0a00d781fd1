import Rabbithole.Foundation.Codec
import Rabbithole.Foundation.Text

/-!
# Text in fixed-width fields

A byte is the character of the same number.  A field is filled up with spaces, and read
without the spaces and NULs at its end.
-/

namespace Rabbithole.Qwk

open Foundation List

def decodeLatin1 (bytes : Bytes) : List Char :=
  bytes.map (fun b => Char.ofNat b.toNat)

/-- The byte of a character, and a question mark for one that has none. -/
def latin1Byte (c : Char) : UInt8 :=
  if c.toNat <= 0xFF then UInt8.ofNat c.toNat else 0x3F

def encodeLatin1 (s : List Char) : Bytes :=
  s.map latin1Byte

def isPadding (b : UInt8) : Bool :=
  b == 0x20 || b == 0

def writeField (width : Nat) (value : List Char) : Bytes :=
  let bytes := (encodeLatin1 value).take width
  bytes ++ List.replicate (width - bytes.length) 0x20

def readField (src : Bytes) : List Char :=
  decodeLatin1 (src.rdropWhile isPadding)

/-- Every character has a byte of its own. -/
def Latin1 (s : List Char) : Prop :=
  forall c, c ∈ s -> c.toNat <= 0xFF

/-- The text does not end in a space or a NUL. -/
def Unpadded (s : List Char) : Prop :=
  s.getLast? ≠ some ' ' ∧ s.getLast? ≠ some '\x00'

instance (s : List Char) : Decidable (Latin1 s) :=
  List.decidableBAll (fun c : Char => c.toNat <= 0xFF) s

instance (s : List Char) : Decidable (Unpadded s) :=
  inferInstanceAs (Decidable (s.getLast? ≠ some ' ' ∧ s.getLast? ≠ some '\x00'))

/-- What a field of some width holds unaltered. -/
structure FitsField (width : Nat) (value : List Char) : Prop where
  latin1 : Latin1 value
  unpadded : Unpadded value
  short : value.length <= width

instance (width : Nat) (value : List Char) : Decidable (FitsField width value) :=
  decidable_of_iff (Latin1 value ∧ Unpadded value ∧ value.length <= width)
    ⟨fun h => ⟨h.left, h.right.left, h.right.right⟩,
      fun h => ⟨h.latin1, h.unpadded, h.short⟩⟩

variable {c : Char} {bytes : Bytes}

theorem Unpadded.last {s : List Char} (h : Unpadded s) (hlast : s.getLast? = some c) :
    c ≠ ' ' ∧ c ≠ '\x00' := by
  constructor
  · intro hspace
    rw [hspace] at hlast
    exact h.left hlast
  · intro hnul
    rw [hnul] at hlast
    exact h.right hlast

/-!
## Characters and bytes
-/

theorem toNat_latin1Byte (h : c.toNat <= 0xFF) : (latin1Byte c).toNat = c.toNat := by
  unfold latin1Byte
  rw [if_pos h, UInt8.toNat_ofNat']
  omega

theorem ofNat_latin1Byte (h : c.toNat <= 0xFF) : Char.ofNat (latin1Byte c).toNat = c := by
  rw [toNat_latin1Byte h, Char.ofNat_toNat]

theorem toNat_ofNat_byte (b : UInt8) : (Char.ofNat b.toNat).toNat = b.toNat := by
  have hvalid : b.toNat.isValidChar := by
    have hlt := b.toNat_lt
    exact Or.inl (by omega)
  unfold Char.ofNat
  rw [dif_pos hvalid]
  rfl

theorem decodeLatin1_encodeLatin1 {s : List Char} (h : Latin1 s) :
    decodeLatin1 (encodeLatin1 s) = s := by
  unfold decodeLatin1 encodeLatin1
  rw [map_map]
  conv => rhs; rw [← map_id s]
  apply map_congr_left
  intro c hc
  exact ofNat_latin1Byte (h c hc)

theorem isPadding_latin1Byte (h : c.toNat <= 0xFF) (hspace : c ≠ ' ') (hnul : c ≠ '\x00') :
    isPadding (latin1Byte c) = false := by
  unfold isPadding
  rw [Bool.or_eq_false_iff]
  constructor
  · rw [beq_eq_false_iff_ne]
    intro heq
    apply hspace
    rw [← ofNat_latin1Byte h, heq]
    rfl
  · rw [beq_eq_false_iff_ne]
    intro heq
    apply hnul
    rw [← ofNat_latin1Byte h, heq]
    rfl

/-!
## Filling up and trimming
-/

theorem rdropWhile_replicate (count : Nat)
    (h : forall b, bytes.getLast? = some b -> isPadding b = false) :
    (bytes ++ List.replicate count 0x20).rdropWhile isPadding = bytes := by
  induction count with
  | zero =>
      rw [replicate_zero, append_nil, rdropWhile_eq_self_iff]
      intro hne hlast
      rw [h _ (getLast?_eq_some_getLast hne)] at hlast
      cases hlast
  | succ count ih =>
      rw [replicate_succ', ← append_assoc, rdropWhile_concat_pos _ _ _ rfl, ih]

@[simp] theorem length_writeField (width : Nat) (value : List Char) :
    (writeField width value).length = width := by
  unfold writeField
  rw [length_append, length_replicate, length_take]
  omega

theorem readField_writeField {width : Nat} {value : List Char} (h : FitsField width value) :
    readField (writeField width value) = value := by
  have hlength : (encodeLatin1 value).length <= width := by
    unfold encodeLatin1
    rw [length_map]
    exact h.short
  unfold writeField readField
  rw [take_of_length_le hlength, rdropWhile_replicate, decodeLatin1_encodeLatin1 h.latin1]
  intro b hb
  unfold encodeLatin1 at hb
  rw [getLast?_map, Option.map_eq_some_iff] at hb
  rcases hb with ⟨c, hlast, rfl⟩
  rcases h.unpadded.last hlast with ⟨hspace, hnul⟩
  exact isPadding_latin1Byte (h.latin1 c (mem_of_getLast? hlast)) hspace hnul

/-!
# The messages of a packet

A message is a record of blocks of 128 bytes: a header with its texts in fixed fields, and the
body, whose lines end in a byte of their own.  The header says how many blocks there are.
-/

def usizeMax : Nat := 2 ^ 64 - 1

def block : Nat := 128

def eol : UInt8 := 0xE3

def activeFlag : UInt8 := 0xE1

def killedFlag : UInt8 := 0xE2

def defaultProducer : List Char := "Produced by RabbitHole QWK codec".toList

/-- A message; its recipient and sender are what the header calls To and From. -/
structure QwkMessage where
  status : UInt8 := 0x20
  number : UInt32 := 0
  conference : UInt16 := 0
  date : List Char := []
  time : List Char := []
  recipient : List Char := []
  sender : List Char := []
  subject : List Char := []
  password : List Char := []
  reference : UInt32 := 0
  active : Bool := true
  body : List Char := []
deriving DecidableEq

/-- What the codec of a packet can fail with. -/
inductive QwkError where
  | truncated (need got : Nat)
  | badBlockCount (field : List Char) (reason : String)
  | partialRecord (recordLen remainder : Nat)
deriving DecidableEq

/-- A number as its digits. -/
def decimal (n : Nat) : List Char :=
  Nat.toDigits 10 n

/-!
## Writing
-/

def encodeBody (body : List Char) : Bytes :=
  body.map (fun c => if c = '\n' then eol else latin1Byte c)

def bodyBlocks (bodyLen : Nat) : Nat :=
  max ((bodyLen + block - 1) / block) 1

def blockLen (msg : QwkMessage) : Nat :=
  1 + bodyBlocks (encodeBody msg.body).length

def referenceText (reference : UInt32) : List Char :=
  if reference = 0 then [] else decimal reference.toNat

/-- The fields of a header, in their order. -/
def headerFields (msg : QwkMessage) (logical : UInt16) (totalBlocks : Nat) : List Bytes :=
  [[msg.status], writeField 7 (decimal msg.number.toNat), writeField 8 msg.date,
    writeField 5 msg.time, writeField 25 msg.recipient, writeField 25 msg.sender,
    writeField 25 msg.subject, writeField 12 msg.password,
    writeField 8 (referenceText msg.reference), writeField 6 (decimal totalBlocks),
    [if msg.active then activeFlag else killedFlag],
    Codec.littleEndian 2 msg.conference.toNat, Codec.littleEndian 2 logical.toNat, [0]]

def headerWidths : List Nat :=
  [1, 7, 8, 5, 25, 25, 25, 12, 8, 6, 1, 2, 2, 1]

def encodeMessage (msg : QwkMessage) (logical : UInt16) : Bytes :=
  let body := encodeBody msg.body
  let totalBlocks := 1 + bodyBlocks body.length
  (headerFields msg logical totalBlocks).flatten ++
    (body ++ List.replicate (bodyBlocks body.length * block - body.length) 0x20)

/-!
## Reading
-/

def decodeBody (bytes : Bytes) : List Char :=
  (bytes.rdropWhile isPadding).map (fun b => if b = eol then '\n' else Char.ofNat b.toNat)

/-- The number of blocks that a header says its record has. -/
def blockCount (hdr : Bytes) : Except QwkError Nat :=
  let blockField := readField (fieldAt hdr 116 6)
  let trimmed := trimText blockField
  if trimmed = [] then .error (.badBlockCount blockField "empty")
  else
    match parseUnsigned usizeMax trimmed with
    | none => .error (.badBlockCount blockField "not a base-10 integer")
    | some totalBlocks =>
        if totalBlocks < 1 then
          .error (.badBlockCount blockField "must count at least the header block")
        else .ok totalBlocks

def parseU32 (s : List Char) : UInt32 :=
  UInt32.ofNat ((parseUnsigned (2 ^ 32 - 1) (trimText s)).getD 0)

def readU16 (bytes : Bytes) : UInt16 :=
  UInt16.ofNat (Codec.ofLittleEndian bytes)

/-- The message that a whole record holds. -/
def messageOf (hdr body : Bytes) : QwkMessage where
  status := hdr.headD 0
  number := parseU32 (readField (fieldAt hdr 1 7))
  conference := readU16 (fieldAt hdr 123 2)
  date := readField (fieldAt hdr 8 8)
  time := readField (fieldAt hdr 16 5)
  recipient := readField (fieldAt hdr 21 25)
  sender := readField (fieldAt hdr 46 25)
  subject := readField (fieldAt hdr 71 25)
  password := readField (fieldAt hdr 96 12)
  reference := parseU32 (readField (fieldAt hdr 108 8))
  active := fieldAt hdr 122 1 == [activeFlag]
  body := decodeBody body

/-- The message at the front, its reader index, and how many bytes it takes. -/
def decodeMessage (bytes : Bytes) : Except QwkError (QwkMessage × UInt16 × Nat) :=
  if bytes.length < block then .error (.truncated block bytes.length)
  else
    let hdr := bytes.take block
    match blockCount hdr with
    | .error e => .error e
    | .ok totalBlocks =>
        let totalLen := totalBlocks * block
        if bytes.length < totalLen then .error (.truncated totalLen bytes.length)
        else
          .ok (messageOf hdr (fieldAt bytes block (totalLen - block)),
            readU16 (fieldAt hdr 125 2), totalLen)

theorem one_le_blockCount {hdr : Bytes} {totalBlocks : Nat}
    (h : blockCount hdr = .ok totalBlocks) : 1 <= totalBlocks := by
  unfold blockCount at h
  dsimp only at h
  split at h
  · cases h
  · split at h
    · cases h
    · split at h
      · cases h
      · rename_i hpos
        cases h
        exact Nat.le_of_not_lt hpos

theorem decodeMessage_ok {msg : QwkMessage} {logical : UInt16} {consumed : Nat}
    (h : decodeMessage bytes = .ok (msg, logical, consumed)) :
    exists totalBlocks, blockCount (bytes.take block) = .ok totalBlocks ∧
      consumed = totalBlocks * block ∧ block <= consumed ∧ consumed <= bytes.length ∧
      msg = messageOf (bytes.take block) (fieldAt bytes block (consumed - block)) ∧
      logical = readU16 (fieldAt (bytes.take block) 125 2) := by
  unfold decodeMessage at h
  split at h
  · cases h
  · dsimp only at h
    split at h
    · cases h
    · rename_i totalBlocks hcount
      split at h
      · cases h
      · rename_i hlong
        cases h
        have hpos := one_le_blockCount hcount
        refine ⟨totalBlocks, hcount, rfl, ?_, Nat.le_of_not_lt hlong, rfl, rfl⟩
        exact Nat.le_mul_of_pos_left block hpos

/-- The messages of some bytes, one behind another, with their reader indexes. -/
def decodeRecords (bytes : Bytes) : Except QwkError (List (QwkMessage × UInt16)) :=
  if bytes = [] then .ok []
  else
    match hread : decodeMessage bytes with
    | .error e => .error e
    | .ok (msg, logical, consumed) =>
        (decodeRecords (bytes.drop consumed)).map (fun others => (msg, logical) :: others)
termination_by bytes.length
decreasing_by
  rcases decodeMessage_ok hread with ⟨totalBlocks, hcount, hconsumed, hblock, hlength, hmsg⟩
  have hpos : 0 < block := by decide
  rw [length_drop]
  omega

theorem decodeRecords_nil : decodeRecords [] = .ok [] := by
  rw [decodeRecords, if_pos rfl]

theorem decodeRecords_of_ok {msg : QwkMessage} {logical : UInt16} {consumed : Nat}
    (h : decodeMessage bytes = .ok (msg, logical, consumed)) :
    decodeRecords bytes =
      (decodeRecords (bytes.drop consumed)).map (fun others => (msg, logical) :: others) := by
  have hne : bytes ≠ [] := by
    intro hnil
    rw [hnil] at h
    cases h
  rw [decodeRecords, if_neg hne]
  split
  · rename_i e heq
    rw [h] at heq
    cases heq
  · rename_i msg' logical' consumed' heq
    rw [h] at heq
    cases heq
    rfl

theorem decodeRecords_of_error {e : QwkError} (hne : bytes ≠ [])
    (h : decodeMessage bytes = .error e) : decodeRecords bytes = .error e := by
  rw [decodeRecords, if_neg hne]
  split
  · rename_i e' heq
    rw [h] at heq
    cases heq
    rfl
  · rename_i msg' logical' consumed' heq
    rw [h] at heq
    cases heq

structure MessagesDat where
  producer : List Char := defaultProducer
  messages : List QwkMessage
deriving DecidableEq

namespace MessagesDat

/-- The file of some messages, the reader index of the first of them being one. -/
def encode (dat : MessagesDat) : Bytes :=
  writeField block dat.producer ++
    (dat.messages.zipIdx 1).flatMap (fun e => encodeMessage e.fst (UInt16.ofNat e.snd))

def decode (bytes : Bytes) : Except QwkError MessagesDat :=
  if bytes.length < block then .error (.truncated block bytes.length)
  else
    (decodeRecords (bytes.drop block)).map (fun read =>
      { producer := readField (bytes.take block), messages := read.map Prod.fst })

end MessagesDat

end Rabbithole.Qwk
