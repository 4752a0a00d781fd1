import Mathlib.Data.List.Nodup
import Rabbithole.Foundation.Grouping
import Rabbithole.Foundation.Utf8
import Rabbithole.Qwk.Ndx
import Rabbithole.Qwk.Roundtrip

/-!
# Building a packet

A packet has the file of messages, the manifest and the door's id, and an index for every
conference with messages, whose pointers are counted from the lengths that the messages are
going to have.
-/

namespace Rabbithole.Qwk

open Foundation List

structure ControlDat where
  bbsName : List Char := []
  cityState : List Char := []
  phone : List Char := []
  sysop : List Char := []
  serial : List Char := []
  bbsId : List Char := []
  date : List Char := []
  username : List Char := []
  totalMessages : UInt32 := 0
  conferences : List (UInt16 × List Char) := []
  files : List (List Char) := []

def lineEnd : List Char := "\r\n".toList

namespace ControlDat

def lines (control : ControlDat) : List (List Char) :=
  [control.bbsName, control.cityState, control.phone, control.sysop,
    control.serial ++ ",".toList ++ control.bbsId, control.date, control.username,
    "0".toList, "0".toList, decimal control.totalMessages.toNat,
    decimal (control.conferences.length - 1)] ++
  control.conferences.flatMap (fun c => [decimal c.fst.toNat, c.snd]) ++
  control.files

def toBytes (control : ControlDat) : Bytes :=
  utf8 (control.lines.flatMap (fun line => line ++ lineEnd))

end ControlDat

structure DoorId where
  entries : List (List Char × List Char)

namespace DoorId

def qwke (door version system : List Char) : DoorId where
  entries :=
    [("DOOR".toList, door), ("VERSION".toList, version), ("SYSTEM".toList, system),
      ("CONTROLTYPE".toList, "ADD".toList), ("CONTROLNAME".toList, "QWKE".toList)]

def render (id : DoorId) : List Char :=
  id.entries.flatMap (fun e =>
    (if e.snd = [] then e.fst else e.fst ++ " = ".toList ++ e.snd) ++ lineEnd)

def toBytes (id : DoorId) : Bytes :=
  utf8 id.render

end DoorId

def pkgVersion : List Char := "0.268.0".toList

structure NdxFile where
  filename : List Char
  bytes : Bytes
deriving DecidableEq

structure QwkPacket where
  messagesDat : Bytes
  controlDat : Bytes
  doorId : Bytes
  indexes : List NdxFile
  bulletins : List (List Char × Bytes)

def zeroPadded (width n : Nat) : List Char :=
  List.replicate (width - (decimal n).length) '0' ++ decimal n

def ndxName (conference : Nat) : List Char :=
  zeroPadded 3 conference ++ ".NDX".toList

/-- The records of the indexes, each with its conference, from a block on. -/
def ndxEntries : UInt32 -> List QwkMessage -> List (Nat × NdxRecord)
  | _, [] => []
  | first, msg :: messages =>
      (msg.conference.toNat, { number := first, conference := UInt8.ofNat msg.conference.toNat }) ::
        ndxEntries (first + UInt32.ofNat (blockLen msg)) messages

def buildPacket (control : ControlDat) (messages : List QwkMessage) (door : Option DoorId) :
    QwkPacket where
  messagesDat := MessagesDat.encode { messages := messages }
  controlDat := { control with totalMessages := UInt32.ofNat messages.length }.toBytes
  doorId :=
    (door.getD (DoorId.qwke "RabbitHole".toList pkgVersion control.bbsName)).toBytes
  indexes :=
    (Grouping.group (ndxEntries 2 messages)).map (fun g =>
      { filename := ndxName g.fst, bytes := Ndx.encode g.snd })
  bulletins := []

/-!
# The indexes point at headers

The counted pointers run along with what is written: each is the block at which the record
of its message begins, and stays so through the format of the indexes and their grouping by
conference.
-/

/-!
## Names of indexes
-/

theorem ofDigits_replicate_zero (count : Nat) (digits : List Char) :
    ofDigits 10 (List.replicate count '0' ++ digits) = ofDigits 10 digits := by
  induction count with
  | zero => rfl
  | succ count ih =>
      rw [← ih]
      rfl

theorem ndxName_injective : Function.Injective ndxName := by
  intro n n' h
  have hpadded : zeroPadded 3 n = zeroPadded 3 n' := append_cancel_right h
  have hvalue := congrArg (ofDigits 10) hpadded
  unfold zeroPadded at hvalue
  rw [ofDigits_replicate_zero, ofDigits_replicate_zero] at hvalue
  unfold decimal at hvalue
  rw [(digits_toDigits n).left, (digits_toDigits n').left] at hvalue
  exact hvalue

/-!
## Pointers and records
-/

/-- The blocks at which messages begin, the first one given. -/
def headerBlocks : Nat -> List QwkMessage -> List Nat
  | _, [] => []
  | first, msg :: messages => first :: headerBlocks (first + blockLen msg) messages

/-- A pointer is where the record of a message begins, and what is decoded there is what the
record says. -/
structure PointsAt (dat : Bytes) (e : QwkMessage × Nat) (pointer : UInt32) : Prop where
  behindProducer : 2 <= pointer.toNat
  record : encodeMessage e.fst (UInt16.ofNat e.snd) <+: dat.drop ((pointer.toNat - 1) * block)
  decoded : (decimal (blockLen e.fst)).length <= 6 ->
    decodeMessage (dat.drop ((pointer.toNat - 1) * block)) =
      decodeMessage (encodeMessage e.fst (UInt16.ofNat e.snd))
  message : Fitting e.fst -> 'ã' ∉ e.fst.body ->
    decodeMessage (dat.drop ((pointer.toNat - 1) * block)) =
      .ok (e.fst, UInt16.ofNat e.snd, blockLen e.fst * block)

theorem pointsAt_append {before : Bytes} {pointer : UInt32} (hpointer : 2 <= pointer.toNat)
    (hbefore : before.length = (pointer.toNat - 1) * block) (e : QwkMessage × Nat) (rest : Bytes) :
    PointsAt (before ++ (encodeMessage e.fst (UInt16.ofNat e.snd) ++ rest)) e pointer := by
  have hdrop : (before ++ (encodeMessage e.fst (UInt16.ofNat e.snd) ++ rest)).drop
      ((pointer.toNat - 1) * block) = encodeMessage e.fst (UInt16.ofNat e.snd) ++ rest :=
    drop_left' hbefore
  constructor
  · exact hpointer
  · rw [hdrop]
    exact prefix_append _ _
  · intro hblocks
    have halone := decodeMessage_append hblocks (UInt16.ofNat e.snd) []
    rw [append_nil] at halone
    rw [hdrop, decodeMessage_append hblocks, halone]
  · intro hfit htilde
    rw [hdrop, decodeMessage_encodeMessage hfit, reread_eq_self.mpr htilde]

/-- What an entry of the indexes has to do with its message. -/
def EntryOf (dat : Bytes) (e : QwkMessage × Nat) (entry : Nat × NdxRecord) : Prop :=
  entry.fst = e.fst.conference.toNat ∧ entry.snd.number.toNat < 2 ^ 24 ∧
    PointsAt dat e entry.snd.number

variable {messages : List QwkMessage}

/-- The entries from a block on are those of the messages whose records are written from
there on. -/
theorem forall₂_ndxEntries {before : Bytes} {first : UInt32} {index : Nat}
    (hfirst : 2 <= first.toNat) (hbefore : before.length = (first.toNat - 1) * block)
    (hshort : (before ++ (messages.zipIdx index).flatMap
      (fun e => encodeMessage e.fst (UInt16.ofNat e.snd))).length < 2 ^ 24 * block) :
    Forall₂ (EntryOf (before ++ (messages.zipIdx index).flatMap
        (fun e => encodeMessage e.fst (UInt16.ofNat e.snd))))
      (messages.zipIdx index) (ndxEntries first messages) ∧
    (ndxEntries first messages).map (fun entry => entry.snd.number.toNat) =
      headerBlocks first.toNat messages := by
  induction messages generalizing before first index with
  | nil => exact ⟨Forall₂.nil, rfl⟩
  | cons msg messages ih =>
      have hpos : 1 <= blockLen msg := Nat.le_add_right 1 _
      rw [zipIdx_cons, flatMap_cons] at hshort ⊢
      have hroom : (first.toNat - 1 + blockLen msg) * block < 2 ^ 24 * block := by
        rw [length_append, length_append, length_encodeMessage, hbefore,
          ← Nat.add_assoc, ← Nat.add_mul] at hshort
        exact Nat.lt_of_le_of_lt (Nat.le_add_right _ _) hshort
      have hlt : first.toNat - 1 + blockLen msg < 2 ^ 24 :=
        Nat.lt_of_mul_lt_mul_right hroom
      have hnext : (first + UInt32.ofNat (blockLen msg)).toNat = first.toNat + blockLen msg := by
        rw [UInt32.toNat_add, UInt32.toNat_ofNat']
        omega
      have hbefore' : (before ++ encodeMessage msg (UInt16.ofNat index)).length =
          ((first + UInt32.ofNat (blockLen msg)).toNat - 1) * block := by
        rw [length_append, length_encodeMessage, hbefore, hnext, ← Nat.add_mul]
        congr 1
        omega
      have hshort' := hshort
      rw [← append_assoc] at hshort'
      rcases ih (by omega) hbefore' hshort' with ⟨hothers, hblocks⟩
      constructor
      · constructor
        · exact ⟨rfl, by show first.toNat < 2 ^ 24; omega,
            pointsAt_append hfirst hbefore (msg, index) _⟩
        · rw [append_assoc] at hothers
          exact hothers
      · show first.toNat :: _ = first.toNat :: headerBlocks (first.toNat + blockLen msg) messages
        rw [hblocks, hnext]

theorem entries_spec
    (hshort : (MessagesDat.encode { messages := messages }).length < 2 ^ 24 * block) :
    Forall₂ (EntryOf (MessagesDat.encode { messages := messages })) (messages.zipIdx 1)
      (ndxEntries 2 messages) ∧
    (ndxEntries 2 messages).map (fun entry => entry.snd.number.toNat) =
      headerBlocks 2 messages := by
  have hproducer : (writeField block defaultProducer).length = ((2 : UInt32).toNat - 1) * block :=
    length_writeField block defaultProducer
  exact forall₂_ndxEntries (Nat.le_refl 2) hproducer hshort

theorem number_lt_of_mem {dat : Bytes} {es : List (QwkMessage × Nat)}
    {entries : List (Nat × NdxRecord)} (h : Forall₂ (EntryOf dat) es entries) :
    forall entry, entry ∈ entries -> entry.snd.number.toNat < 2 ^ 24 := by
  induction h with
  | nil =>
      intro entry hentry
      cases hentry
  | cons hfirst _ ih =>
      intro entry hentry
      rcases mem_cons.mp hentry with rfl | hmem
      · exact hfirst.right.left
      · exact ih entry hmem

theorem forall₂_select {dat : Bytes} {es : List (QwkMessage × Nat)}
    {entries : List (Nat × NdxRecord)} (h : Forall₂ (EntryOf dat) es entries)
    (conference : UInt16) : Forall₂ (fun e r => PointsAt dat e r.number)
      (es.filter (fun e => e.fst.conference = conference))
      (Grouping.select conference.toNat entries) := by
  have hsame : forall e entry, EntryOf dat e entry ->
      (decide (e.fst.conference = conference) = true <->
        decide (entry.fst = conference.toNat) = true) := by
    intro e entry hentry
    rw [decide_eq_true_iff, decide_eq_true_iff, hentry.left, UInt16.toNat_inj]
  have hfiltered := rel_filter (fun {e entry} => hsame e entry) h
  unfold Grouping.select
  rw [forall₂_map_right_iff]
  exact hfiltered.imp (fun e entry hentry => hentry.right.right)

theorem headerBlocks_ascending (first : Nat) (messages : List QwkMessage) :
    (headerBlocks first messages).Pairwise (· < ·) ∧
      forall b, b ∈ headerBlocks first messages -> first <= b := by
  induction messages generalizing first with
  | nil =>
      constructor
      · exact Pairwise.nil
      · intro b hb
        cases hb
  | cons msg messages ih =>
      have hpos : 1 <= blockLen msg := Nat.le_add_right 1 _
      rcases ih (first + blockLen msg) with ⟨hascending, hle⟩
      constructor
      · rw [headerBlocks, pairwise_cons]
        constructor
        · intro b hb
          have hb' := hle b hb
          omega
        · exact hascending
      · intro b hb
        rcases mem_cons.mp hb with rfl | hmem
        · exact Nat.le_refl _
        · have hb' := hle b hmem
          omega

/-- The pointers of an index, as a reader decodes them. -/
def pointersOf (file : NdxFile) : List Nat :=
  match Ndx.decode file.bytes with
  | .ok records => records.map (fun r => r.number.toNat)
  | .error _ => []

/-!
## The indexes of a packet
-/

theorem conferences_ndxEntries (first : UInt32) (messages : List QwkMessage) :
    (ndxEntries first messages).map Prod.fst = messages.map (fun msg => msg.conference.toNat) := by
  induction messages generalizing first with
  | nil => rfl
  | cons msg messages ih =>
      show msg.conference.toNat :: _ = msg.conference.toNat :: _
      rw [ih]

theorem mem_keys_indexes {first : UInt32} {k : Nat} :
    k ∈ Grouping.keys (Grouping.group (ndxEntries first messages)) <->
      exists msg, msg ∈ messages ∧ msg.conference.toNat = k := by
  rw [Grouping.mem_keys_group, conferences_ndxEntries, mem_map]

theorem decode_group
    (hshort : (MessagesDat.encode { messages := messages }).length < 2 ^ 24 * block)
    {g : Nat × List NdxRecord} (hg : g ∈ Grouping.group (ndxEntries 2 messages)) :
    Ndx.decode (Ndx.encode g.snd) = .ok g.snd := by
  apply Ndx.decode_encode
  intro r hr
  rw [(Grouping.mem_group.mp hg).right] at hr
  exact number_lt_of_mem (entries_spec hshort).left _ (Grouping.mem_select.mp hr)

def indexOf (g : Nat × List NdxRecord) : NdxFile where
  filename := ndxName g.fst
  bytes := Ndx.encode g.snd

theorem nodup_names (messages : List QwkMessage) :
    (((Grouping.group (ndxEntries 2 messages)).map indexOf).map NdxFile.filename).Nodup := by
  have hkeys : (Grouping.keys (Grouping.group (ndxEntries 2 messages))).Nodup :=
    (Grouping.ascending_group _).imp (fun hlt => ne_of_lt hlt)
  have hnames : ((Grouping.group (ndxEntries 2 messages)).map indexOf).map NdxFile.filename =
      (Grouping.keys (Grouping.group (ndxEntries 2 messages))).map ndxName := by
    unfold Grouping.keys
    rw [map_map, map_map]
    rfl
  rw [hnames]
  exact Nodup.map ndxName_injective hkeys

theorem exists_index_iff (messages : List QwkMessage) (conference : UInt16) :
    (exists file, file ∈ (Grouping.group (ndxEntries 2 messages)).map indexOf ∧
        file.filename = ndxName conference.toNat) <->
      exists msg, msg ∈ messages ∧ msg.conference = conference := by
  constructor
  · rintro ⟨file, hfile, hname⟩
    rcases mem_map.mp hfile with ⟨g, hg, rfl⟩
    rcases mem_keys_indexes.mp (mem_map_of_mem hg) with ⟨msg, hmsg, hk⟩
    refine ⟨msg, hmsg, UInt16.toNat_inj.mp ?_⟩
    rw [hk]
    exact ndxName_injective hname
  · rintro ⟨msg, hmsg, rfl⟩
    rcases mem_map.mp (mem_keys_indexes.mpr ⟨msg, hmsg, rfl⟩) with ⟨g, hg, hk⟩
    refine ⟨indexOf g, mem_map_of_mem hg, ?_⟩
    rw [← hk]
    rfl

theorem pointers_perm
    (hshort : (MessagesDat.encode { messages := messages }).length < 2 ^ 24 * block) :
    (((Grouping.group (ndxEntries 2 messages)).map indexOf).flatMap pointersOf).Perm
      (headerBlocks 2 messages) := by
  have hpointers : ((Grouping.group (ndxEntries 2 messages)).map indexOf).flatMap pointersOf =
      ((Grouping.group (ndxEntries 2 messages)).flatMap Prod.snd).map
        (fun r => r.number.toNat) := by
    rw [flatMap_map, map_flatMap]
    apply flatMap_congr
    intro g hg
    unfold pointersOf indexOf
    dsimp only
    rw [decode_group hshort hg]
  rw [hpointers, ← (entries_spec hshort).right]
  have hperm := (Grouping.group_perm (ndxEntries 2 messages)).map (fun r => r.number.toNat)
  rw [map_map] at hperm
  exact hperm

/-- A packet has one index for each conference with messages, with a name of its own; it has
one record for each message, in their order, whose pointer is where the message begins; and
together the indexes have every such place once. -/
theorem indexes_point_at_headers (control : ControlDat) (messages : List QwkMessage)
    (door : Option DoorId)
    (hshort : (buildPacket control messages door).messagesDat.length < 2 ^ 24 * block) :
    let packet := buildPacket control messages door
    (packet.indexes.map NdxFile.filename).Nodup ∧
    (forall conference : UInt16,
      (exists file, file ∈ packet.indexes ∧ file.filename = ndxName conference.toNat) <->
        exists msg, msg ∈ messages ∧ msg.conference = conference) ∧
    (forall file, file ∈ packet.indexes -> exists (conference : UInt16) (records : List NdxRecord),
      file.filename = ndxName conference.toNat ∧ Ndx.decode file.bytes = .ok records ∧
      Forall₂ (fun e r => PointsAt packet.messagesDat e r.number)
        ((messages.zipIdx 1).filter (fun e => e.fst.conference = conference)) records) ∧
    (packet.indexes.flatMap pointersOf).Perm (headerBlocks 2 messages) ∧
    (headerBlocks 2 messages).Pairwise (· < ·) := by
  intro packet
  refine ⟨nodup_names messages, exists_index_iff messages, ?_, pointers_perm hshort,
    (headerBlocks_ascending 2 messages).left⟩
  intro file hfile
  rcases mem_map.mp hfile with ⟨g, hg, rfl⟩
  rcases mem_keys_indexes.mp (mem_map_of_mem hg) with ⟨msg, hmsg, hk⟩
  refine ⟨msg.conference, g.snd, ?_, decode_group hshort hg, ?_⟩
  · rw [hk]
  · rw [(Grouping.mem_group.mp hg).right, ← hk]
    exact forall₂_select (entries_spec hshort).left msg.conference

/-- A note to a conference. -/
def noteTo (conference : UInt16) (body : List Char) : QwkMessage where
  conference := conference
  number := 1
  recipient := "A".toList
  sender := "B".toList
  subject := "S".toList
  body := body

set_option maxRecDepth 8000 in
theorem indexes_point_at_headers_three :
    let messages := [noteTo 7 "one".toList, noteTo 1000 [], noteTo 7 "three".toList]
    ((buildPacket {} messages none).indexes.flatMap pointersOf).Perm (headerBlocks 2 messages) :=
  (indexes_point_at_headers {} [noteTo 7 "one".toList, noteTo 1000 [], noteTo 7 "three".toList]
    none (by decide)).right.right.right.left

set_option maxRecDepth 8000 in
/-- The body of a message does not end in a space any more when it is decoded. -/
theorem decoding_is_not_always_the_message :
    ¬ (forall (control : ControlDat) (messages : List QwkMessage) (door : Option DoorId),
      (buildPacket control messages door).messagesDat.length < 2 ^ 24 * block ->
      forall file, file ∈ (buildPacket control messages door).indexes ->
      exists records, Ndx.decode file.bytes = .ok records ∧
        forall r, r ∈ records -> exists msg logical consumed, msg ∈ messages ∧
          decodeMessage ((buildPacket control messages door).messagesDat.drop
            ((r.number.toNat - 1) * block)) = .ok (msg, logical, consumed)) := by
  intro hall
  have hfile : indexOf (7, [{ number := 2, conference := 7 }]) ∈
      (buildPacket {} [noteTo 7 "x ".toList] none).indexes := by
    decide
  have hindex : Ndx.decode (indexOf (7, [{ number := 2, conference := 7 }])).bytes =
      .ok [{ number := 2, conference := 7 }] := by
    decide
  have hthere : decodeMessage ((buildPacket {} [noteTo 7 "x ".toList] none).messagesDat.drop
      (((2 : UInt32).toNat - 1) * block)) = .ok (noteTo 7 "x".toList, 1, 2 * block) := by
    decide
  rcases hall {} [noteTo 7 "x ".toList] none (by decide) _ hfile with
    ⟨records, hrecords, hread⟩
  rw [hindex] at hrecords
  cases hrecords
  rcases hread _ mem_cons_self with ⟨msg, logical, consumed, hmsg, hmessage⟩
  rw [hthere] at hmessage
  cases hmessage
  exact absurd hmsg (by decide)

end Rabbithole.Qwk
