import Rabbithole.Reticulum.Packet
import Rabbithole.Reticulum.Packing

/-!
# Canonical wire forms

Packets, tunnel messages and batches each have one encoding: what a decoder accepts is what
the encoder writes for the value read.  The decoders stand here once more with every index
checked, and none goes beyond the input.
-/

namespace Rabbithole.Reticulum

open Foundation List Option TunnelMessage

namespace TunnelMessage

/-- One message that takes up the whole input. -/
def decode (contentId : ContentId) (bytes : Bytes) : Except TunnelError TunnelMessage :=
  match decodeFrom contentId bytes 0 with
  | .error e => .error e
  | .ok (msg, consumed) =>
      if consumed ≠ bytes.length then .error (.trailingBytes (bytes.length - consumed))
      else .ok msg

/-!
## Tunnel messages
-/

theorem le_of_need_ok {bytes : Bytes} {cursor n : Nat} (h : need bytes cursor n = .ok ()) :
    cursor + n <= bytes.length := by
  unfold need at h
  split at h
  · cases h
  · split at h
    · cases h
    · rename_i hle
      exact Nat.le_of_not_lt hle

variable {contentId : ContentId} {bytes : Bytes} {offset : Nat} {msg : TunnelMessage}
  {next : Nat}

/-- The fields of a message that begins at the offset. -/
def fieldsAt (bytes : Bytes) (offset : Nat) : TunnelMessage where
  id := idOf (slice bytes offset 16)
  createdMs := UInt64.ofNat (Codec.ofHighFirst (slice bytes (offset + 16) 8))
  hops := bytes.getD (offset + 24) 0
  ttlHops := bytes.getD (offset + 25) 0
  priority := bytes.getD (offset + 26) 0
  payload := slice bytes (offset + 29) (Codec.ofHighFirst (slice bytes (offset + 27) 2))

theorem decodeFrom_ok (h : decodeFrom contentId bytes offset = .ok (msg, next)) :
    msg = fieldsAt bytes offset ∧ msg.verifyId contentId = true ∧
      msg.payload.length = Codec.ofHighFirst (slice bytes (offset + 27) 2) ∧
      msg.payload.length <= maxTunnelPayload ∧
      next = offset + 29 + msg.payload.length ∧ next <= bytes.length := by
  unfold decodeFrom at h
  cases hheader : need bytes offset tunnelMessageHeaderLen with
  | error e =>
      rw [hheader] at h
      cases h
  | ok u =>
      rw [hheader] at h
      simp only [bind, Except.bind] at h
      split at h
      · cases h
      · rename_i hsmall
        cases hpayload : need bytes (offset + 29)
            (Codec.ofHighFirst (slice bytes (offset + 27) 2)) with
        | error e =>
            rw [hpayload] at h
            cases h
        | ok u =>
            rw [hpayload] at h
            simp only [] at h
            split at h
            · rename_i hid
              cases h
              have hlong := le_of_need_ok hpayload
              have hlength := length_slice hlong
              refine ⟨rfl, hid, hlength, ?_, ?_, hlong⟩
              · rw [hlength]
                exact Nat.le_of_not_lt hsmall
              · rw [hlength]
            · cases h

theorem fieldsAt_laidOut (hlong : offset + 29 <= bytes.length)
    (hpayload : (fieldsAt bytes offset).payload.length =
      Codec.ofHighFirst (slice bytes (offset + 27) 2)) :
    bytes.drop offset = (fieldsAt bytes offset).laidOut
      (bytes.drop (offset + 29 + (fieldsAt bytes offset).payload.length)) := by
  have hid : (fieldsAt bytes offset).id.toList = slice bytes offset 16 :=
    toList_idOf (length_slice (by omega))
  have hcreatedLength : (slice bytes (offset + 16) 8).length = 8 := length_slice (by omega)
  have hcreated : Codec.highFirst 8 (fieldsAt bytes offset).createdMs.toNat =
      slice bytes (offset + 16) 8 := by
    have hbound := Codec.ofHighFirst_lt (slice bytes (offset + 16) 8)
    have hback := Codec.highFirst_ofHighFirst (slice bytes (offset + 16) 8)
    rw [hcreatedLength] at hbound hback
    unfold fieldsAt
    rw [UInt64.toNat_ofNat', Nat.mod_eq_of_lt (by omega)]
    exact hback
  have hcountLength : (slice bytes (offset + 27) 2).length = 2 := length_slice (by omega)
  have hcount : Codec.highFirst 2 (fieldsAt bytes offset).payload.length =
      slice bytes (offset + 27) 2 := by
    have hback := Codec.highFirst_ofHighFirst (slice bytes (offset + 27) 2)
    rw [hcountLength] at hback
    rw [hpayload]
    exact hback
  unfold laidOut
  rw [hid, hcreated, hcount]
  have hpayloadSlice : (fieldsAt bytes offset).payload =
      slice bytes (offset + 29) (fieldsAt bytes offset).payload.length := by
    rw [hpayload]
    rfl
  have hbehind := slice_append_drop bytes (offset + 29) (fieldsAt bytes offset).payload.length
  rw [← hpayloadSlice] at hbehind
  rw [hbehind, slice_append_drop bytes (offset + 27) 2]
  have hbytes : (fieldsAt bytes offset).hops :: (fieldsAt bytes offset).ttlHops ::
      (fieldsAt bytes offset).priority :: bytes.drop (offset + 27) = bytes.drop (offset + 24) := by
    have hthird := @getD_cons_drop bytes (offset + 26) (by omega)
    have hsecond := @getD_cons_drop bytes (offset + 25) (by omega)
    have hfirst := @getD_cons_drop bytes (offset + 24) (by omega)
    rw [← hfirst, ← hsecond, ← hthird]
    rfl
  rw [hbytes, slice_append_drop bytes (offset + 16) 8, slice_append_drop bytes offset 16]

theorem encode_of_decodeFrom (h : decodeFrom contentId bytes offset = .ok (msg, next)) :
    exists front, msg.encode = .ok front ∧ bytes.drop offset = front ++ bytes.drop next := by
  rcases decodeFrom_ok h with ⟨hmsg, -, hlength, hsmall, hnext, hlong⟩
  rcases encode_ok hsmall with ⟨front, hfront⟩
  refine ⟨front, hfront, ?_⟩
  rw [hmsg] at hlength hnext
  rw [encode_laidOut hfront, hmsg, hnext]
  exact fieldsAt_laidOut (by omega) hlength

theorem decode_encode (hid : msg.verifyId contentId = true) (h : msg.encode = .ok bytes) :
    decode contentId bytes = .ok msg := by
  have hlength := length_encode h
  have hsmall : bytes.length <= usizeMax := by
    unfold encode at h
    split at h
    · cases h
    · rename_i hsmall
      unfold encodedLen tunnelMessageHeaderLen at hlength
      unfold maxTunnelPayload at hsmall
      unfold usizeMax
      omega
  have hread := decodeFrom_encode hid h [] [] (by simpa using hsmall)
  rw [append_nil, nil_append, length_nil, Nat.zero_add] at hread
  unfold decode
  rw [hread]
  simp only []
  rw [if_neg (by rw [hlength]; exact fun hne => hne rfl)]

theorem encode_decode (h : decode contentId bytes = .ok msg) : msg.encode = .ok bytes := by
  unfold decode at h
  split at h
  · cases h
  · rename_i hread
    split at h
    · cases h
    · rename_i hall
      cases h
      rcases encode_of_decodeFrom hread with ⟨front, hfront, hdrop⟩
      rw [not_not.mp hall, drop_length, append_nil, drop_zero] at hdrop
      rw [hdrop]
      exact hfront

end TunnelMessage

/-!
## Batches
-/

namespace Batch

variable {contentId : ContentId} {bytes : Bytes}

theorem encodeMessages_of_decode {count cursor next : Nat} {messages : List TunnelMessage}
    (h : decodeMessages contentId bytes count cursor = .ok (messages, next)) :
    messages.length = count ∧ exists front, encodeMessages messages = .ok front ∧
      bytes.drop cursor = front ++ bytes.drop next := by
  induction count generalizing cursor messages with
  | zero =>
      cases h
      exact ⟨rfl, [], rfl, rfl⟩
  | succ count ih =>
      unfold decodeMessages at h
      split at h
      · cases h
      · rename_i msg mid hone
        cases hrest : decodeMessages contentId bytes count mid with
        | error e =>
            rw [hrest] at h
            cases h
        | ok found =>
            rcases found with ⟨rest, last⟩
            rw [hrest] at h
            cases h
            rcases ih hrest with ⟨hcount, behind, hbehind, hdrop⟩
            rcases encode_of_decodeFrom hone with ⟨front, hfront, hfirst⟩
            refine ⟨congrArg Nat.succ hcount, front ++ behind, ?_, ?_⟩
            · unfold encodeMessages
              rw [hfront, hbehind]
              rfl
            · rw [hfirst, hdrop, append_assoc]

theorem encode_decode {batch : Batch} (h : decode contentId bytes = .ok batch) :
    batch.encode = .ok bytes := by
  unfold decode at h
  split at h
  · cases h
  · rename_i hmtu
    split at h
    · cases h
    · rename_i hlong
      split at h
      · cases h
      · rename_i hversion
        cases hread : decodeMessages contentId bytes (bytes.getD 1 0).toNat
            batchEnvelopeHeaderLen with
        | error e =>
            rw [hread] at h
            cases h
        | ok found =>
            rcases found with ⟨messages, next⟩
            rw [hread] at h
            simp only [] at h
            split at h
            · cases h
            · rename_i hall
              cases h
              rcases encodeMessages_of_decode hread with ⟨hcount, front, hfront, hdrop⟩
              unfold batchEnvelopeHeaderLen at hlong hdrop
              rw [not_not.mp hall, drop_length, append_nil] at hdrop
              have hbytes : [batchVersion, UInt8.ofNat messages.length] ++ front = bytes := by
                rw [hcount, UInt8.ofNat_toNat, ← hdrop, ← not_not.mp hversion]
                have hfirst := @getD_cons_drop bytes 0 (by omega)
                have hsecond := @getD_cons_drop bytes 1 (by omega)
                rw [drop_zero] at hfirst
                rw [← hsecond] at hfirst
                exact hfirst
              have hfits : messages.length <= maxBatchMessages := by
                have hbound := (bytes.getD 1 0).toNat_lt
                unfold maxBatchMessages
                omega
              unfold encode
              rw [if_neg (Nat.not_lt.mpr hfits)]
              simp only []
              rw [hfront]
              simp only []
              rw [hbytes, if_neg hmtu]

end Batch

/-!
## Checked reads

An index past the end of the input would end the program.  Here it gives nothing.
-/

def byteAt (bytes : Bytes) (cursor : Nat) : Option UInt8 :=
  bytes[cursor]?

def rangeAt (bytes : Bytes) (cursor n : Nat) : Option Bytes :=
  if cursor + n <= bytes.length then some (slice bytes cursor n) else none

def tailAt (bytes : Bytes) (cursor : Nat) : Option Bytes :=
  if cursor <= bytes.length then some (bytes.drop cursor) else none

section Checked

variable {bytes : Bytes} {cursor n : Nat}

theorem byteAt_eq (h : cursor < bytes.length) : byteAt bytes cursor = some (bytes.getD cursor 0) := by
  unfold byteAt
  rw [getD_eq_getElem?_getD, getElem?_eq_getElem h]
  rfl

theorem rangeAt_eq (h : cursor + n <= bytes.length) :
    rangeAt bytes cursor n = some (slice bytes cursor n) :=
  if_pos h

theorem tailAt_eq (h : cursor <= bytes.length) : tailAt bytes cursor = some (bytes.drop cursor) :=
  if_pos h

end Checked

def TunnelMessage.decodeFromChecked (contentId : ContentId) (bytes : Bytes) (offset : Nat) :
    Option (Except TunnelError (TunnelMessage × Nat)) :=
  match need bytes offset tunnelMessageHeaderLen with
  | .error e => some (.error e)
  | .ok () => do
      let id <- rangeAt bytes offset 16
      let created <- rangeAt bytes (offset + 16) 8
      let hops <- byteAt bytes (offset + 24)
      let ttlHops <- byteAt bytes (offset + 25)
      let priority <- byteAt bytes (offset + 26)
      let count <- rangeAt bytes (offset + 27) 2
      let payloadLen := Codec.ofHighFirst count
      if maxTunnelPayload < payloadLen then some (.error (.tooLarge payloadLen))
      else
        match need bytes (offset + 29) payloadLen with
        | .error e => some (.error e)
        | .ok () => do
            let payload <- rangeAt bytes (offset + 29) payloadLen
            let msg : TunnelMessage :=
              ⟨idOf id, UInt64.ofNat (Codec.ofHighFirst created), hops, ttlHops, priority, payload⟩
            if msg.verifyId contentId then some (.ok (msg, offset + 29 + payloadLen))
            else some (.error .idMismatch)

def Batch.decodeMessagesChecked (contentId : ContentId) (bytes : Bytes) :
    Nat -> Nat -> Option (Except BatchError (List TunnelMessage × Nat))
  | 0, cursor => some (.ok ([], cursor))
  | count + 1, cursor => do
      match <- TunnelMessage.decodeFromChecked contentId bytes cursor with
      | .error e => some (.error (.badMessage e))
      | .ok (msg, next) => do
          let rest <- decodeMessagesChecked contentId bytes count next
          some (rest.map (fun read => (msg :: read.fst, read.snd)))

def Batch.decodeChecked (contentId : ContentId) (bytes : Bytes) :
    Option (Except BatchError Batch) :=
  if mtu < bytes.length then some (.error (.tooLarge bytes.length))
  else if bytes.length < batchEnvelopeHeaderLen then
    some (.error (.truncated batchEnvelopeHeaderLen bytes.length))
  else do
    let version <- byteAt bytes 0
    if version ≠ batchVersion then some (.error (.badVersion version))
    else do
      let count <- byteAt bytes 1
      match <- decodeMessagesChecked contentId bytes count.toNat batchEnvelopeHeaderLen with
      | .error e => some (.error e)
      | .ok (messages, cursor) =>
          if cursor ≠ bytes.length then some (.error (.trailingBytes (bytes.length - cursor)))
          else some (.ok ⟨messages⟩)

namespace Packet

def readTransportChecked (bytes : Bytes) :
    HeaderType -> Option (Except PacketError (Option Address × Nat))
  | .header1 => some (.ok (none, 2))
  | .header2 =>
      match read bytes 2 destinationHashLength with
      | .error e => some (.error e)
      | .ok () => do
          let id <- rangeAt bytes 2 16
          some (.ok (some (idOf id), 18))

def decodeChecked (bytes : Bytes) : Option (Except PacketError Packet) :=
  if mtu < bytes.length then some (.error (.tooLarge bytes.length))
  else
    match byteAt bytes 0, byteAt bytes 1 with
    | some flags, some hops => do
        match <- readTransportChecked bytes (headerTypeOf flags) with
        | .error e => some (.error e)
        | .ok (transportId, cursor) =>
            match read bytes cursor destinationHashLength with
            | .error e => some (.error e)
            | .ok () => do
                let destinationHash <- rangeAt bytes cursor 16
                match read bytes (cursor + 16) 1 with
                | .error e => some (.error e)
                | .ok () => do
                    let context <- byteAt bytes (cursor + 16)
                    let data <- tailAt bytes (cursor + 17)
                    some (.ok ⟨ifacOf flags, headerTypeOf flags, contextFlagOf flags,
                      propagationTypeOf flags, destinationTypeOf flags, packetTypeOf flags, hops,
                      transportId, idOf destinationHash, context, data⟩)
    | _, _ => some (.error (.truncated 2 bytes.length))

end Packet

/-!
## No read goes beyond the input
-/

section

variable (contentId : ContentId) (bytes : Bytes)
include contentId bytes

theorem TunnelMessage.decodeFromChecked_eq (offset : Nat) :
    decodeFromChecked contentId bytes offset = some (decodeFrom contentId bytes offset) := by
  unfold decodeFromChecked decodeFrom
  cases hheader : need bytes offset tunnelMessageHeaderLen with
  | error e => rfl
  | ok u =>
      have hlong := le_of_need_ok hheader
      unfold tunnelMessageHeaderLen at hlong
      simp only [bind, Except.bind]
      rw [rangeAt_eq (by omega), rangeAt_eq (by omega), rangeAt_eq (by omega),
        byteAt_eq (by omega), byteAt_eq (by omega), byteAt_eq (by omega)]
      simp only [bind_some]
      split
      · rfl
      · cases hpayload : need bytes (offset + 29)
            (Codec.ofHighFirst (slice bytes (offset + 27) 2)) with
        | error e => rfl
        | ok u =>
            simp only []
            rw [rangeAt_eq (le_of_need_ok hpayload)]
            simp only [bind_some]
            split
            · rfl
            · rfl

theorem Batch.decodeMessagesChecked_eq (count cursor : Nat) :
    decodeMessagesChecked contentId bytes count cursor =
      some (decodeMessages contentId bytes count cursor) := by
  induction count generalizing cursor with
  | zero => rfl
  | succ count ih =>
      unfold decodeMessagesChecked decodeMessages
      rw [decodeFromChecked_eq]
      cases TunnelMessage.decodeFrom contentId bytes cursor with
      | error e => rfl
      | ok found =>
          simp only [bind, bind_some]
          rw [ih]
          rfl

theorem Batch.decodeChecked_eq : decodeChecked contentId bytes = some (decode contentId bytes) := by
  unfold decodeChecked decode
  split
  · rfl
  · split
    · rfl
    · rename_i hlong
      unfold batchEnvelopeHeaderLen at hlong
      rw [byteAt_eq (by omega), byteAt_eq (by omega)]
      simp only [bind, bind_some]
      split
      · rfl
      · rw [decodeMessagesChecked_eq]
        cases decodeMessages contentId bytes (bytes.getD 1 0).toNat batchEnvelopeHeaderLen with
        | error e => rfl
        | ok found =>
            simp only [bind_some]
            split
            · rfl
            · rfl

end

namespace Packet

theorem readTransportChecked_eq (bytes : Bytes) (headerType : HeaderType) :
    readTransportChecked bytes headerType = some (readTransport bytes headerType) := by
  cases headerType with
  | header1 => rfl
  | header2 =>
      unfold readTransportChecked readTransport
      cases hread : read bytes 2 destinationHashLength with
      | error e => rfl
      | ok u =>
          have hrange : rangeAt bytes 2 16 = some (slice bytes 2 16) :=
            rangeAt_eq (le_of_read_ok hread)
          simp only []
          rw [hrange]
          rfl

theorem decodeChecked_eq (bytes : Bytes) : decodeChecked bytes = some (decode bytes) := by
  unfold decodeChecked decode
  split
  · rfl
  · cases bytes with
    | nil => rfl
    | cons flags behind =>
        cases behind with
        | nil => rfl
        | cons hops rest =>
            have hfirst : byteAt (flags :: hops :: rest) 0 = some flags := rfl
            have hsecond : byteAt (flags :: hops :: rest) 1 = some hops := rfl
            rw [hfirst, hsecond]
            simp only []
            rw [readTransportChecked_eq]
            simp only [bind, bind_some, Except.bind]
            split
            · rename_i heq
              rw [heq]
            · rename_i transportId cursor heq
              rw [heq]
              simp only []
              cases hdestination : read (flags :: hops :: rest) cursor destinationHashLength with
              | error e => rfl
              | ok u =>
                  have hrange : rangeAt (flags :: hops :: rest) cursor 16 =
                      some (slice (flags :: hops :: rest) cursor 16) :=
                    rangeAt_eq (le_of_read_ok hdestination)
                  simp only []
                  rw [hrange]
                  simp only [bind_some]
                  cases hcontext : read (flags :: hops :: rest) (cursor + 16) 1 with
                  | error e => rfl
                  | ok u =>
                      have hlong := le_of_read_ok hcontext
                      simp only []
                      rw [byteAt_eq (by omega), tailAt_eq (by omega)]
                      rfl

end Packet

/--
What was encoded is decoded, what is decoded was encoded, no decoder reads beyond its
input, and the hashed part of a packet is its types, destination, context and data.
-/
theorem mesh_wire_canonical (contentId : ContentId) :
    (forall p bytes, Packet.encode p = .ok bytes <-> Packet.decode bytes = .ok p) ∧
    (forall msg bytes, TunnelMessage.verifyId contentId msg = true -> msg.encode = .ok bytes ->
      TunnelMessage.decode contentId bytes = .ok msg) ∧
    (forall bytes msg, TunnelMessage.decode contentId bytes = .ok msg ->
      msg.encode = .ok bytes) ∧
    (forall batch bytes, (forall msg, msg ∈ batch.messages -> msg.verifyId contentId = true) ->
      Batch.encode batch = .ok bytes -> Batch.decode contentId bytes = .ok batch) ∧
    (forall bytes batch, Batch.decode contentId bytes = .ok batch ->
      batch.encode = .ok bytes) ∧
    (forall bytes, Packet.decodeChecked bytes = some (Packet.decode bytes) ∧
      Batch.decodeChecked contentId bytes = some (Batch.decode contentId bytes) ∧
      forall offset, TunnelMessage.decodeFromChecked contentId bytes offset =
        some (TunnelMessage.decodeFrom contentId bytes offset)) ∧
    (forall p q, Packet.hashablePart p = Packet.hashablePart q <->
      p.destinationType = q.destinationType ∧ p.packetType = q.packetType ∧
        p.destinationHash = q.destinationHash ∧ p.context = q.context ∧ p.data = q.data) := by
  refine ⟨?_, ?_, ?_, ?_, ?_, ?_, ?_⟩
  · intro p bytes
    exact ⟨Packet.decode_encode, Packet.encode_decode⟩
  · intro msg bytes hid h
    exact decode_encode hid h
  · intro bytes msg h
    exact encode_decode h
  · intro batch bytes hids h
    exact Batch.decode_encode hids h
  · intro bytes batch h
    exact Batch.encode_decode h
  · intro bytes
    exact ⟨Packet.decodeChecked_eq bytes, Batch.decodeChecked_eq contentId bytes,
      decodeFromChecked_eq contentId bytes⟩
  · intro p q
    exact Packet.hashablePart_eq_iff

end Rabbithole.Reticulum
