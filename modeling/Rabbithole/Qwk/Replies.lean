import Rabbithole.Qwk.Roundtrip

/-!
# Replies

The message member of a reply packet has the shape of the file of messages, but the number
of a reply's conference is carried where a message has its reader index.
-/

namespace Rabbithole.Qwk

open Foundation

structure ReplyMessage where
  conference : UInt16
  status : UInt8 := 0x20
  number : UInt32 := 0
  date : List Char := []
  time : List Char := []
  recipient : List Char := []
  sender : List Char := []
  subject : List Char := []
  password : List Char := []
  reference : UInt32 := 0
  body : List Char := []
deriving DecidableEq

namespace ReplyMessage

/-- The message that is written for a reply: its own conference field is left zero. -/
def toQwk (reply : ReplyMessage) : QwkMessage where
  status := reply.status
  number := reply.number
  conference := 0
  date := reply.date
  time := reply.time
  recipient := reply.recipient
  sender := reply.sender
  subject := reply.subject
  password := reply.password
  reference := reply.reference
  active := true
  body := reply.body

def fromQwk (msg : QwkMessage) (conference : UInt16) : ReplyMessage where
  conference := conference
  status := msg.status
  number := msg.number
  date := msg.date
  time := msg.time
  recipient := msg.recipient
  sender := msg.sender
  subject := msg.subject
  password := msg.password
  reference := msg.reference
  body := msg.body

end ReplyMessage

structure ReplyPacket where
  header : List Char := defaultProducer
  replies : List ReplyMessage
deriving DecidableEq

namespace ReplyPacket

def parse (bytes : Bytes) : Except QwkError ReplyPacket :=
  if bytes.length < block then .error (.truncated block bytes.length)
  else
    (decodeRecords (bytes.drop block)).map (fun read =>
      { header := readField (bytes.take block),
        replies := read.map (fun e => ReplyMessage.fromQwk e.fst e.snd) })

def encode (packet : ReplyPacket) : Bytes :=
  writeField block packet.header ++
    packet.replies.flatMap (fun reply => encodeMessage reply.toQwk reply.conference)

end ReplyPacket

def rereadReply (reply : ReplyMessage) : ReplyMessage :=
  { reply with body := reply.body.map rereadChar }

theorem rereadReply_eq_self {reply : ReplyMessage} :
    rereadReply reply = reply <-> 'ã' ∉ reply.body := by
  rw [← map_rereadChar_eq_self]
  unfold rereadReply
  constructor
  · intro heq
    exact congrArg ReplyMessage.body heq
  · intro heq
    rw [heq]

theorem drop_encode (packet : ReplyPacket) :
    packet.encode.drop block =
      packet.replies.flatMap (fun reply => encodeMessage reply.toQwk reply.conference) :=
  List.drop_left' (length_writeField _ _)

theorem decodeRecords_encode (packet : ReplyPacket)
    (h : forall reply, reply ∈ packet.replies -> Fitting reply.toQwk) :
    decodeRecords (packet.encode.drop block) =
      .ok (packet.replies.map (fun reply => (reread reply.toQwk, reply.conference))) := by
  rw [drop_encode]
  exact decodeRecords_flatMap ReplyMessage.toQwk ReplyMessage.conference h

theorem parse_encode (packet : ReplyPacket) (hheader : FitsField block packet.header)
    (h : forall reply, reply ∈ packet.replies -> Fitting reply.toQwk) :
    ReplyPacket.parse packet.encode =
      .ok { packet with replies := packet.replies.map rereadReply } := by
  have hlength : (writeField block packet.header).length = block := length_writeField _ _
  have htake : packet.encode.take block = writeField block packet.header :=
    List.take_left' hlength
  unfold ReplyPacket.parse
  rw [if_neg, decodeRecords_encode packet h, htake, readField_writeField hheader]
  · show Except.ok (ReplyPacket.mk packet.header ((packet.replies.map _).map _)) = _
    rw [List.map_map]
    rfl
  · unfold ReplyPacket.encode
    rw [List.length_append, hlength]
    exact Nat.not_lt_of_le (Nat.le_add_right block _)

/-- Packets whose texts and numbers fit are read back as they were if and only if no body
has the character whose byte ends a line. -/
theorem packets_read_back (dat : MessagesDat) (packet : ReplyPacket)
    (hdat : forall msg, msg ∈ dat.messages -> Fitting msg) (hheader : FitsField block packet.header)
    (h : forall reply, reply ∈ packet.replies -> Fitting reply.toQwk) :
    ((MessagesDat.decode dat.encode).map MessagesDat.messages = .ok dat.messages <->
      forall msg, msg ∈ dat.messages -> 'ã' ∉ msg.body) ∧
    ((ReplyPacket.parse packet.encode = .ok packet ∧
        (decodeRecords (packet.encode.drop block)).map (List.map Prod.snd) =
          .ok (packet.replies.map ReplyMessage.conference)) <->
      forall reply, reply ∈ packet.replies -> 'ã' ∉ reply.body) := by
  constructor
  · have hsame : (MessagesDat.decode dat.encode).map MessagesDat.messages = .ok dat.messages <->
        dat.messages.map reread = dat.messages := by
      rw [decode_encode dat hdat]
      constructor
      · intro heq
        exact Except.ok.inj heq
      · intro heq
        exact congrArg Except.ok heq
    rw [hsame, map_eq_self]
    constructor
    · intro heq msg hmsg
      exact reread_eq_self.mp (heq msg hmsg)
    · intro hnone msg hmsg
      exact reread_eq_self.mpr (hnone msg hmsg)
  · have hslots : (decodeRecords (packet.encode.drop block)).map (List.map Prod.snd) =
        .ok (packet.replies.map ReplyMessage.conference) := by
      rw [decodeRecords_encode packet h]
      show Except.ok ((packet.replies.map _).map Prod.snd) = _
      rw [List.map_map]
      rfl
    rw [and_iff_left hslots, parse_encode packet hheader h]
    have hsame : (Except.ok { packet with replies := packet.replies.map rereadReply } :
        Except QwkError ReplyPacket) = .ok packet <->
        packet.replies.map rereadReply = packet.replies := by
      constructor
      · intro heq
        exact congrArg ReplyPacket.replies (Except.ok.inj heq)
      · intro heq
        rw [heq]
    rw [hsame, map_eq_self]
    constructor
    · intro heq reply hreply
      exact rereadReply_eq_self.mp (heq reply hreply)
    · intro hnone reply hreply
      exact rereadReply_eq_self.mpr (hnone reply hreply)

/-- A message from one letter to another. -/
def note (body : List Char) : QwkMessage where
  number := 1
  recipient := "A".toList
  sender := "B".toList
  subject := "S".toList
  body := body

def noteBack (body : List Char) : ReplyMessage where
  conference := 7
  recipient := "A".toList
  sender := "B".toList
  subject := "S".toList
  body := body

theorem packets_read_back_note :
    (MessagesDat.decode (MessagesDat.encode { messages := [note "hi\nyou".toList] })).map
        MessagesDat.messages = .ok [note "hi\nyou".toList] ∧
      ReplyPacket.parse (ReplyPacket.encode { replies := [noteBack "ok".toList] }) =
        .ok { replies := [noteBack "ok".toList] } := by
  have hback := packets_read_back { messages := [note "hi\nyou".toList] }
    { replies := [noteBack "ok".toList] } (by decide) (by decide) (by decide)
  exact ⟨hback.left.mpr (by decide), (hback.right.mpr (by decide)).left⟩

/-- A body of one small a with a tilde fits, and comes back as an empty line. -/
theorem not_all_packets_read_back :
    ¬ ((forall dat : MessagesDat, (forall msg, msg ∈ dat.messages -> Fitting msg) ->
          (MessagesDat.decode dat.encode).map MessagesDat.messages = .ok dat.messages) ∧
        (forall packet : ReplyPacket, FitsField block packet.header ->
          (forall reply, reply ∈ packet.replies -> Fitting reply.toQwk) ->
          ReplyPacket.parse packet.encode = .ok packet)) := by
  intro hall
  have hfit : forall msg, msg ∈ [note "ã".toList] -> Fitting msg := by
    decide
  have hread := hall.left { messages := [note "ã".toList] } hfit
  rw [decode_encode _ hfit] at hread
  exact absurd (Except.ok.inj hread) (by decide)

end Rabbithole.Qwk
