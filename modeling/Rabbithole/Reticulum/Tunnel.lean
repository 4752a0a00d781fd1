import Mathlib.Data.Vector.Defs
import Rabbithole.Foundation.Codec
import Rabbithole.Reticulum.Announce

/-!
# Tunnel messages

The unit of store-and-forward delivery: a payload with a content address, a priority, and
a hop count that grows at each relay up to a horizon.
-/

namespace Rabbithole.Reticulum

open Foundation
open List hiding Vector

abbrev PeerId := DestinationHash

abbrev TunnelId := Vector UInt8 16

def tunnelMessageHeaderLen : Nat := 16 + 8 + 1 + 1 + 1 + 2

def maxTunnelPayload : Nat := 384

inductive TunnelError where
  | truncated (needed got : Nat)
  | tooLarge (length : Nat)
  | idMismatch
  | trailingBytes (count : Nat)
deriving DecidableEq

structure TunnelMessage where
  id : TunnelId
  createdMs : UInt64
  hops : UInt8
  ttlHops : UInt8
  priority : UInt8
  payload : Bytes
deriving DecidableEq

namespace TunnelMessage

/-- `hops.saturating_add(1)`. -/
def forwarded (msg : TunnelMessage) : TunnelMessage :=
  { msg with hops := if msg.hops = 255 then 255 else msg.hops + 1 }

def atHorizon (msg : TunnelMessage) : Bool :=
  decide (msg.ttlHops <= msg.hops)

@[simp] theorem forwarded_id (msg : TunnelMessage) : msg.forwarded.id = msg.id := rfl

@[simp] theorem forwarded_ttlHops (msg : TunnelMessage) :
    msg.forwarded.ttlHops = msg.ttlHops := rfl

theorem atHorizon_iff {msg : TunnelMessage} :
    msg.atHorizon = true <-> msg.ttlHops.toNat <= msg.hops.toNat := by
  unfold atHorizon
  rw [decide_eq_true_iff, UInt8.le_iff_toNat_le]

theorem toNat_hops_forwarded {msg : TunnelMessage} (h : msg.hops.toNat < msg.ttlHops.toNat) :
    msg.forwarded.hops.toNat = msg.hops.toNat + 1 := by
  have hbound := msg.ttlHops.toNat_lt
  have hne : msg.hops ≠ 255 := by
    intro heq
    rw [heq] at h
    have hmax : (255 : UInt8).toNat = 255 := rfl
    omega
  unfold forwarded
  rw [if_neg hne, UInt8.toNat_add]
  have hone : (1 : UInt8).toNat = 1 := rfl
  omega

def encodedLen (msg : TunnelMessage) : Nat :=
  tunnelMessageHeaderLen + msg.payload.length

def encode (msg : TunnelMessage) : Except TunnelError Bytes :=
  if maxTunnelPayload < msg.payload.length then .error (.tooLarge msg.payload.length)
  else
    .ok (msg.id.toList ++ Codec.highFirst 8 msg.createdMs.toNat ++
      [msg.hops, msg.ttlHops, msg.priority] ++ Codec.highFirst 2 msg.payload.length ++ msg.payload)

end TunnelMessage

/-!
## Decoding

The content address is a hash of the fields that do not change in transit; the hash is a
parameter.
-/

/-- Creation time, horizon, priority and payload. -/
abbrev ContentId := UInt64 -> UInt8 -> UInt8 -> Bytes -> TunnelId

def usizeMax : Nat := 2 ^ 64 - 1

/-- So many bytes are there from the cursor on. -/
def need (bytes : Bytes) (cursor n : Nat) : Except TunnelError Unit :=
  if usizeMax < cursor + n then .error (.truncated usizeMax bytes.length)
  else if bytes.length < cursor + n then .error (.truncated (cursor + n) bytes.length)
  else .ok ()

def slice (bytes : Bytes) (cursor n : Nat) : Bytes :=
  (bytes.drop cursor).take n

def idOf (bytes : Bytes) : TunnelId :=
  Vector.ofFn (fun i => bytes.getD i 0)

namespace TunnelMessage

def verifyId (contentId : ContentId) (msg : TunnelMessage) : Bool :=
  decide (msg.id = contentId msg.createdMs msg.ttlHops msg.priority msg.payload)

def decodeFrom (contentId : ContentId) (bytes : Bytes) (offset : Nat) :
    Except TunnelError (TunnelMessage × Nat) := do
  need bytes offset tunnelMessageHeaderLen
  let id := idOf (slice bytes offset 16)
  let createdMs := UInt64.ofNat (Codec.ofHighFirst (slice bytes (offset + 16) 8))
  let hops := bytes.getD (offset + 24) 0
  let ttlHops := bytes.getD (offset + 25) 0
  let priority := bytes.getD (offset + 26) 0
  let payloadLen := Codec.ofHighFirst (slice bytes (offset + 27) 2)
  if maxTunnelPayload < payloadLen then .error (.tooLarge payloadLen)
  else do
    need bytes (offset + 29) payloadLen
    let payload := slice bytes (offset + 29) payloadLen
    let msg : TunnelMessage := ⟨id, createdMs, hops, ttlHops, priority, payload⟩
    if msg.verifyId contentId then .ok (msg, offset + 29 + payloadLen)
    else .error .idMismatch

end TunnelMessage

/-!
## What was encoded is decoded
-/

variable {bytes : Bytes} {cursor : Nat}

theorem need_ok {n : Nat} (h : cursor + n <= bytes.length) (hlength : bytes.length <= usizeMax) :
    need bytes cursor n = .ok () := by
  unfold need
  rw [if_neg (by omega), if_neg (by omega)]

theorem slice_append {n : Nat} (h : bytes.length = n) (rest : Bytes) :
    slice (bytes ++ rest) 0 n = bytes := by
  unfold slice
  rw [drop_zero, ← h, take_left]

theorem slice_skip {front rest : Bytes} {cursor : Nat} (k n : Nat)
    (hcursor : cursor = front.length + k) : slice (front ++ rest) cursor n = slice rest k n := by
  unfold slice
  rw [hcursor, drop_append, Nat.add_sub_cancel_left, drop_eq_nil_of_le (by omega),
    nil_append]

theorem getD_skip {front rest : Bytes} (k : Nat) (hcursor : cursor = front.length + k) :
    (front ++ rest).getD cursor 0 = rest.getD k 0 := by
  rw [hcursor, getD_eq_getElem?_getD, getD_eq_getElem?_getD,
    getElem?_append_right (by omega), Nat.add_sub_cancel_left]

theorem idOf_toList (id : TunnelId) : idOf id.toList = id := by
  unfold idOf
  apply Vector.ext
  intro i hi
  rw [Vector.getElem_ofFn, getD_eq_getElem?_getD, getElem?_eq_getElem (by simpa using hi)]
  simp

/-!
What lies behind a cursor is a slice and what lies behind the slice.
-/

theorem slice_append_drop (bytes : Bytes) (cursor n : Nat) :
    slice bytes cursor n ++ bytes.drop (cursor + n) = bytes.drop cursor := by
  unfold slice
  rw [← drop_drop, take_append_drop]

theorem getD_cons_drop {bytes : Bytes} {cursor : Nat} (h : cursor < bytes.length) :
    bytes.getD cursor 0 :: bytes.drop (cursor + 1) = bytes.drop cursor := by
  rw [drop_eq_getElem_cons h, getD_eq_getElem?_getD, getElem?_eq_getElem h]
  rfl

theorem length_slice {n : Nat} (h : cursor + n <= bytes.length) :
    (slice bytes cursor n).length = n := by
  unfold slice
  rw [length_take, length_drop]
  omega

theorem toList_idOf (h : bytes.length = 16) : (idOf bytes).toList = bytes := by
  apply ext_getElem
  · rw [Vector.length_toList, h]
  · intro i hleft hright
    rw [Vector.getElem_toList]
    unfold idOf
    rw [Vector.getElem_ofFn, getD_eq_getElem?_getD, getElem?_eq_getElem hright]
    rfl

namespace TunnelMessage

variable {msg : TunnelMessage} {bytes : Bytes}

theorem length_encode (h : msg.encode = .ok bytes) : bytes.length = msg.encodedLen := by
  unfold encode at h
  split at h
  · cases h
  · cases h
    unfold encodedLen tunnelMessageHeaderLen
    simp
    omega

theorem encode_ok (h : msg.payload.length <= maxTunnelPayload) :
    exists bytes, msg.encode = .ok bytes := by
  unfold encode
  rw [if_neg (Nat.not_lt.mpr h)]
  exact ⟨_, rfl⟩

/-- The parts of an encoded message, with what follows it. -/
def laidOut (msg : TunnelMessage) (rest : Bytes) : Bytes :=
  msg.id.toList ++ (Codec.highFirst 8 msg.createdMs.toNat ++
    (msg.hops :: msg.ttlHops :: msg.priority ::
      (Codec.highFirst 2 msg.payload.length ++ (msg.payload ++ rest))))

theorem encode_laidOut (h : msg.encode = .ok bytes) (rest : Bytes) :
    bytes ++ rest = msg.laidOut rest := by
  unfold encode at h
  split at h
  · cases h
  · cases h
    unfold laidOut
    simp

theorem decodeFrom_laidOut {contentId : ContentId} (hid : msg.verifyId contentId = true)
    (hsmall : msg.payload.length <= maxTunnelPayload) (front rest : Bytes)
    (hlength : (front ++ msg.laidOut rest).length <= usizeMax) :
    decodeFrom contentId (front ++ msg.laidOut rest) front.length =
      .ok (msg, front.length + msg.encodedLen) := by
  have htotal : (front ++ msg.laidOut rest).length =
      front.length + 29 + msg.payload.length + rest.length := by
    unfold laidOut
    simp
    omega
  have hidRead : slice (front ++ msg.laidOut rest) front.length 16 = msg.id.toList := by
    rw [slice_skip 0 16 (Nat.add_zero _).symm]
    exact slice_append (by simp) _
  have hcreated : slice (front ++ msg.laidOut rest) (front.length + 16) 8 =
      Codec.highFirst 8 msg.createdMs.toNat := by
    rw [slice_skip 16 8 rfl]
    unfold laidOut
    rw [slice_skip 0 8 (by simp)]
    exact slice_append (Codec.length_highFirst 8 _) _
  have hbytes : forall k, (front ++ msg.laidOut rest).getD (front.length + (24 + k)) 0 =
      (msg.hops :: msg.ttlHops :: msg.priority ::
        (Codec.highFirst 2 msg.payload.length ++ (msg.payload ++ rest))).getD k 0 := by
    intro k
    rw [getD_skip (24 + k) rfl]
    unfold laidOut
    rw [getD_skip (8 + k) (by simp; omega), getD_skip k (by simp)]
  have hbehind : forall k n, slice (front ++ msg.laidOut rest) (front.length + (27 + k)) n =
      slice (Codec.highFirst 2 msg.payload.length ++ (msg.payload ++ rest)) k n := by
    intro k n
    rw [slice_skip (27 + k) n rfl]
    unfold laidOut
    rw [slice_skip (11 + k) n (by simp; omega), slice_skip (3 + k) n (by simp; omega)]
    exact @slice_skip [msg.hops, msg.ttlHops, msg.priority] _ _ k n rfl
  have hlenRead : slice (front ++ msg.laidOut rest) (front.length + 27) 2 =
      Codec.highFirst 2 msg.payload.length := by
    rw [hbehind 0 2]
    exact slice_append (Codec.length_highFirst 2 _) _
  have hpayload : slice (front ++ msg.laidOut rest) (front.length + 29) msg.payload.length =
      msg.payload := by
    rw [hbehind 2, slice_skip 0 _ (by simp)]
    exact slice_append rfl _
  have hcount : Codec.ofHighFirst (Codec.highFirst 2 msg.payload.length) =
      msg.payload.length := by
    rw [Codec.ofHighFirst_highFirst, Nat.mod_eq_of_lt]
    unfold maxTunnelPayload at hsmall
    omega
  have hmillis : UInt64.ofNat (Codec.ofHighFirst (Codec.highFirst 8 msg.createdMs.toNat)) =
      msg.createdMs := by
    have hbound := msg.createdMs.toNat_lt
    rw [Codec.ofHighFirst_highFirst, Nat.mod_eq_of_lt (by omega), UInt64.ofNat_toNat]
  unfold decodeFrom
  rw [need_ok (by unfold tunnelMessageHeaderLen; omega) hlength, hidRead, hcreated, hlenRead,
    hcount, hbytes 0, hbytes 1, hbytes 2, idOf_toList, hmillis]
  simp only [bind, Except.bind]
  rw [if_neg (Nat.not_lt.mpr hsmall), need_ok (by omega) hlength, hpayload]
  show (if msg.verifyId contentId = true then
    Except.ok (msg, front.length + 29 + msg.payload.length) else _) = _
  rw [if_pos hid]
  unfold encodedLen tunnelMessageHeaderLen
  rw [Nat.add_assoc]

theorem decodeFrom_encode {contentId : ContentId} (hid : msg.verifyId contentId = true)
    (h : msg.encode = .ok bytes) (front rest : Bytes)
    (hlength : (front ++ (bytes ++ rest)).length <= usizeMax) :
    decodeFrom contentId (front ++ (bytes ++ rest)) front.length =
      .ok (msg, front.length + msg.encodedLen) := by
  have hsmall : msg.payload.length <= maxTunnelPayload := by
    unfold encode at h
    split at h
    · cases h
    · rename_i hlarge
      exact Nat.le_of_not_lt hlarge
  rw [encode_laidOut h rest] at hlength ⊢
  exact decodeFrom_laidOut hid hsmall front rest hlength

end TunnelMessage
end Rabbithole.Reticulum
