import Rabbithole.Reticulum.Batch

/-!
# Packets

A Reticulum packet packs six fields into its first byte; behind it stand the hop count, one
address or two, a context byte and the data.
-/

namespace Rabbithole.Reticulum

open Foundation
open List hiding Vector

inductive HeaderType where
  | header1
  | header2
deriving DecidableEq

inductive PropagationType where
  | broadcast
  | transport
deriving DecidableEq

inductive DestinationType where
  | single
  | group
  | plain
  | link
deriving DecidableEq

inductive PacketType where
  | data
  | announce
  | linkRequest
  | proof
deriving DecidableEq

def flagIfac : UInt8 := 0b10000000

def flagHeaderType : UInt8 := 0b01000000

def flagContext : UInt8 := 0b00100000

def flagPropagation : UInt8 := 0b00010000

def maskDestination : UInt8 := 0b00001100

def shiftDestination : UInt8 := 2

def maskPacket : UInt8 := 0b00000011

def destinationHashLength : Nat := 16

namespace HeaderType

def addressFields : HeaderType -> Nat
  | .header1 => 1
  | .header2 => 2

def encodedHeaderLen (t : HeaderType) : Nat :=
  2 + t.addressFields * destinationHashLength + 1

end HeaderType

namespace DestinationType

def toBits : DestinationType -> UInt8
  | .single => 0
  | .group => 1
  | .plain => 2
  | .link => 3

def fromBits (bits : UInt8) : DestinationType :=
  if bits &&& 0b11 = 0 then .single
  else if bits &&& 0b11 = 1 then .group
  else if bits &&& 0b11 = 2 then .plain
  else .link

end DestinationType

namespace PacketType

def toBits : PacketType -> UInt8
  | .data => 0
  | .announce => 1
  | .linkRequest => 2
  | .proof => 3

def fromBits (bits : UInt8) : PacketType :=
  if bits &&& 0b11 = 0 then .data
  else if bits &&& 0b11 = 1 then .announce
  else if bits &&& 0b11 = 2 then .linkRequest
  else .proof

end PacketType

/-- The 16 bytes of an address. -/
abbrev Address := Vector UInt8 16

structure Packet where
  ifac : Bool
  headerType : HeaderType
  contextFlag : Bool
  propagationType : PropagationType
  destinationType : DestinationType
  packetType : PacketType
  hops : UInt8
  transportId : Option Address
  destinationHash : Address
  context : UInt8
  data : Bytes
deriving DecidableEq

inductive PacketError where
  | truncated (needed got : Nat)
  | headerTransportMismatch
  | tooLarge (size : Nat)
deriving DecidableEq

/-- The byte of six fields. -/
def packFlags (ifac : Bool) (headerType : HeaderType) (contextFlag : Bool)
    (propagationType : PropagationType) (destinationType : DestinationType)
    (packetType : PacketType) : UInt8 :=
  let flags : UInt8 := 0
  let flags := if ifac then flags ||| flagIfac else flags
  let flags := if headerType = .header2 then flags ||| flagHeaderType else flags
  let flags := if contextFlag then flags ||| flagContext else flags
  let flags := if propagationType = .transport then flags ||| flagPropagation else flags
  let flags := flags ||| (destinationType.toBits <<< shiftDestination)
  flags ||| packetType.toBits

namespace Packet

def newHeader1 (destinationType : DestinationType) (packetType : PacketType)
    (destinationHash : Address) (context : UInt8) (data : Bytes) : Packet where
  ifac := false
  headerType := .header1
  contextFlag := false
  propagationType := .broadcast
  destinationType := destinationType
  packetType := packetType
  hops := 0
  transportId := none
  destinationHash := destinationHash
  context := context
  data := data

def newHeader2 (destinationType : DestinationType) (packetType : PacketType)
    (transportId destinationHash : Address) (context : UInt8) (data : Bytes) : Packet where
  ifac := false
  headerType := .header2
  contextFlag := false
  propagationType := .transport
  destinationType := destinationType
  packetType := packetType
  hops := 0
  transportId := some transportId
  destinationHash := destinationHash
  context := context
  data := data

def flags (p : Packet) : UInt8 :=
  packFlags p.ifac p.headerType p.contextFlag p.propagationType p.destinationType p.packetType

def encode (p : Packet) : Except PacketError Bytes :=
  if p.transportId.isSome ≠ decide (p.headerType = .header2) then
    .error .headerTransportMismatch
  else if mtu < p.headerType.encodedHeaderLen + p.data.length then
    .error (.tooLarge (p.headerType.encodedHeaderLen + p.data.length))
  else
    .ok ([p.flags, p.hops] ++ (p.transportId.map Vector.toList).getD [] ++
      p.destinationHash.toList ++ [p.context] ++ p.data)

end Packet

/-!
## Decoding
-/

def ifacOf (flags : UInt8) : Bool :=
  decide (flags &&& flagIfac ≠ 0)

def headerTypeOf (flags : UInt8) : HeaderType :=
  if flags &&& flagHeaderType ≠ 0 then .header2 else .header1

def contextFlagOf (flags : UInt8) : Bool :=
  decide (flags &&& flagContext ≠ 0)

def propagationTypeOf (flags : UInt8) : PropagationType :=
  if flags &&& flagPropagation ≠ 0 then .transport else .broadcast

def destinationTypeOf (flags : UInt8) : DestinationType :=
  DestinationType.fromBits ((flags &&& maskDestination) >>> shiftDestination)

def packetTypeOf (flags : UInt8) : PacketType :=
  PacketType.fromBits (flags &&& maskPacket)

namespace Packet

/-- So many bytes are there from the cursor on. -/
def read (bytes : Bytes) (cursor n : Nat) : Except PacketError Unit :=
  if usizeMax < cursor + n then .error (.truncated usizeMax bytes.length)
  else if bytes.length < cursor + n then .error (.truncated (cursor + n) bytes.length)
  else .ok ()

/-- The transport id, of a packet with two addresses, and where the next address begins. -/
def readTransport (bytes : Bytes) : HeaderType -> Except PacketError (Option Address × Nat)
  | .header1 => .ok (none, 2)
  | .header2 => do
      read bytes 2 destinationHashLength
      .ok (some (idOf (slice bytes 2 16)), 18)

def decode (bytes : Bytes) : Except PacketError Packet :=
  if mtu < bytes.length then .error (.tooLarge bytes.length)
  else
    match bytes with
    | [] => .error (.truncated 2 bytes.length)
    | [_] => .error (.truncated 2 bytes.length)
    | flags :: hops :: _ => do
        let (transportId, cursor) <- readTransport bytes (headerTypeOf flags)
        read bytes cursor destinationHashLength
        let destinationHash := idOf (slice bytes cursor 16)
        read bytes (cursor + 16) 1
        let context := bytes.getD (cursor + 16) 0
        .ok ⟨ifacOf flags, headerTypeOf flags, contextFlagOf flags, propagationTypeOf flags,
          destinationTypeOf flags, packetTypeOf flags, hops, transportId, destinationHash,
          context, bytes.drop (cursor + 17)⟩

/-- What stays the same while a packet is forwarded. -/
def hashablePart (p : Packet) : Bytes :=
  [p.flags &&& 0b00001111] ++ p.destinationHash.toList ++ [p.context] ++ p.data

end Packet

/-!
## The byte of flags

Its eight bits are the six fields and nothing else.
-/

theorem unpack_packFlags (ifac : Bool) (headerType : HeaderType) (contextFlag : Bool)
    (propagationType : PropagationType) (destinationType : DestinationType)
    (packetType : PacketType) :
    let flags := packFlags ifac headerType contextFlag propagationType destinationType packetType
    ifacOf flags = ifac ∧ headerTypeOf flags = headerType ∧ contextFlagOf flags = contextFlag ∧
      propagationTypeOf flags = propagationType ∧ destinationTypeOf flags = destinationType ∧
      packetTypeOf flags = packetType := by
  cases ifac <;> cases headerType <;> cases contextFlag <;> cases propagationType <;>
    cases destinationType <;> cases packetType <;> exact ⟨rfl, rfl, rfl, rfl, rfl, rfl⟩

def repack (flags : UInt8) : UInt8 :=
  packFlags (ifacOf flags) (headerTypeOf flags) (contextFlagOf flags) (propagationTypeOf flags)
    (destinationTypeOf flags) (packetTypeOf flags)

set_option maxRecDepth 8000 in
theorem repack_eq (flags : UInt8) : repack flags = flags := by
  have hall : ((List.range 256).all
      (fun n => decide (repack (UInt8.ofNat n) = UInt8.ofNat n))) = true := by
    decide
  have hflags := all_eq_true.mp hall flags.toNat (mem_range.mpr flags.toNat_lt)
  rw [UInt8.ofNat_toNat] at hflags
  exact of_decide_eq_true hflags

theorem low_packFlags (ifac : Bool) (headerType : HeaderType) (contextFlag : Bool)
    (propagationType : PropagationType) (destinationType : DestinationType)
    (packetType : PacketType) :
    packFlags ifac headerType contextFlag propagationType destinationType packetType &&&
      0b00001111 = packFlags false .header1 false .broadcast destinationType packetType := by
  cases ifac <;> cases headerType <;> cases contextFlag <;> cases propagationType <;>
    cases destinationType <;> cases packetType <;> rfl

/-!
## What was encoded is decoded, and what is decoded was encoded
-/

namespace Packet

theorem read_ok {bytes : Bytes} {cursor n : Nat} (h : cursor + n <= bytes.length)
    (hlength : bytes.length <= mtu) : read bytes cursor n = .ok () := by
  unfold mtu at hlength
  unfold read usizeMax
  rw [if_neg (by omega), if_neg (by omega)]

theorem le_of_read_ok {bytes : Bytes} {cursor n : Nat} (h : read bytes cursor n = .ok ()) :
    cursor + n <= bytes.length := by
  unfold read at h
  split at h
  · cases h
  · split at h
    · cases h
    · rename_i hle
      exact Nat.le_of_not_lt hle

def transportBytes (transportId : Option Address) : Bytes :=
  (transportId.map Vector.toList).getD []

section Transport

variable {transportId : Option Address} {headerType : HeaderType}

theorem readTransport_encoded {a b : UInt8} {behind : Bytes}
    (h : transportId.isSome = decide (headerType = .header2))
    (hlength : (a :: b :: (transportBytes transportId ++ behind)).length <= mtu) :
    readTransport (a :: b :: (transportBytes transportId ++ behind)) headerType =
      .ok (transportId, 2 + (transportBytes transportId).length) := by
  cases transportId with
  | none =>
      cases headerType with
      | header1 => rfl
      | header2 => cases h
  | some transportId =>
      cases headerType with
      | header1 => cases h
      | header2 =>
          have hbytes : transportBytes (some transportId) = transportId.toList := rfl
          rw [hbytes] at hlength ⊢
          have hslice : slice (a :: b :: (transportId.toList ++ behind)) 2 16 =
              transportId.toList :=
            slice_append (by simp) behind
          unfold readTransport destinationHashLength
          rw [read_ok (by simp) hlength, hslice, idOf_toList, Vector.length_toList]
          rfl

theorem length_transportBytes (h : transportId.isSome = decide (headerType = .header2)) :
    2 + (transportBytes transportId).length + 17 = headerType.encodedHeaderLen := by
  cases transportId with
  | none =>
      cases headerType with
      | header1 => rfl
      | header2 => cases h
  | some transportId =>
      cases headerType with
      | header1 => cases h
      | header2 =>
          have hbytes : transportBytes (some transportId) = transportId.toList := rfl
          rw [hbytes, Vector.length_toList]
          rfl

end Transport

variable {p : Packet} {bytes : Bytes}

theorem encode_eq_ok :
    p.encode = .ok bytes <->
      p.transportId.isSome = decide (p.headerType = .header2) ∧
      p.headerType.encodedHeaderLen + p.data.length <= mtu ∧
      bytes = p.flags :: p.hops :: (transportBytes p.transportId ++
        (p.destinationHash.toList ++ (p.context :: p.data))) := by
  unfold encode
  constructor
  · intro h
    split at h
    · cases h
    · rename_i hagree
      split at h
      · cases h
      · rename_i hfits
        cases h
        refine ⟨not_not.mp hagree, Nat.le_of_not_lt hfits, ?_⟩
        unfold transportBytes
        simp
  · rintro ⟨hagree, hfits, rfl⟩
    rw [if_neg (not_not.mpr hagree), if_neg (Nat.not_lt.mpr hfits)]
    unfold transportBytes
    simp

theorem read_behind (front : Bytes) (destinationHash : Address) (context : UInt8) (data : Bytes) :
    let bytes := front ++ (destinationHash.toList ++ context :: data)
    slice bytes front.length 16 = destinationHash.toList ∧
      bytes.getD (front.length + 16) 0 = context ∧ bytes.drop (front.length + 17) = data := by
  constructor
  · rw [slice_skip 0 16 (Nat.add_zero _).symm]
    exact slice_append (by simp) _
  · constructor
    · rw [getD_skip 16 rfl, getD_skip 0 (by simp)]
      rfl
    · rw [← drop_drop, drop_left]
      have hsplit : destinationHash.toList ++ context :: data =
          (destinationHash.toList ++ [context]) ++ data := by simp
      rw [hsplit]
      exact drop_left' (by simp)

theorem decode_encode (h : p.encode = .ok bytes) : decode bytes = .ok p := by
  rcases encode_eq_ok.mp h with ⟨hagree, hfits, rfl⟩
  have hheader := length_transportBytes hagree
  have hmtu : (p.flags :: p.hops :: (transportBytes p.transportId ++
      (p.destinationHash.toList ++ p.context :: p.data))).length <= mtu := by
    simp
    omega
  rcases unpack_packFlags p.ifac p.headerType p.contextFlag p.propagationType p.destinationType
    p.packetType with ⟨hifac, hheaderType, hcontext, hpropagation, hdestination, hpacket⟩
  rcases read_behind (p.flags :: p.hops :: transportBytes p.transportId) p.destinationHash
    p.context p.data with ⟨hslice, hbyte, hdrop⟩
  have hfront : (p.flags :: p.hops :: transportBytes p.transportId).length =
      2 + (transportBytes p.transportId).length := by
    simp
    omega
  rw [hfront] at hslice hbyte hdrop
  simp only [cons_append] at hslice hbyte hdrop
  unfold decode
  rw [if_neg (Nat.not_lt.mpr hmtu)]
  simp only []
  have hflags : headerTypeOf p.flags = p.headerType := hheaderType
  rw [hflags, readTransport_encoded hagree hmtu]
  simp only [bind, Except.bind]
  rw [read_ok (by unfold destinationHashLength; simp; omega) hmtu]
  simp only []
  rw [read_ok (by simp; omega) hmtu, hslice, hbyte, hdrop, idOf_toList]
  unfold flags
  rw [hifac, hcontext, hpropagation, hdestination, hpacket]

theorem readTransport_ok {headerType : HeaderType} {transportId : Option Address} {cursor : Nat}
    (h : readTransport bytes headerType = .ok (transportId, cursor)) :
    transportId.isSome = decide (headerType = .header2) ∧
      cursor = 2 + (transportBytes transportId).length ∧
      bytes.drop 2 = transportBytes transportId ++ bytes.drop cursor := by
  cases headerType with
  | header1 =>
      cases h
      exact ⟨rfl, rfl, rfl⟩
  | header2 =>
      unfold readTransport at h
      cases hread : read bytes 2 destinationHashLength with
      | error e =>
          rw [hread] at h
          cases h
      | ok u =>
          rw [hread] at h
          cases h
          have hlong : 2 + 16 <= bytes.length := le_of_read_ok hread
          have hid : transportBytes (some (idOf (slice bytes 2 16))) = slice bytes 2 16 :=
            toList_idOf (length_slice hlong)
          refine ⟨rfl, ?_, ?_⟩
          · rw [hid, length_slice hlong]
          · rw [hid]
            exact (slice_append_drop bytes 2 16).symm

theorem encode_decode (h : decode bytes = .ok p) : p.encode = .ok bytes := by
  unfold decode at h
  split at h
  · cases h
  · rename_i hmtu
    split at h
    · cases h
    · cases h
    · rename_i flags hops rest
      cases htransport : readTransport (flags :: hops :: rest) (headerTypeOf flags) with
      | error e =>
          rw [htransport] at h
          cases h
      | ok found =>
          rcases found with ⟨transportId, cursor⟩
          rcases readTransport_ok htransport with ⟨hagree, hcursor, hfront⟩
          rw [htransport] at h
          simp only [bind, Except.bind] at h
          cases hdestination : read (flags :: hops :: rest) cursor destinationHashLength with
          | error e =>
              rw [hdestination] at h
              cases h
          | ok u =>
              rw [hdestination] at h
              simp only [] at h
              cases hcontext : read (flags :: hops :: rest) (cursor + 16) 1 with
              | error e =>
                  rw [hcontext] at h
                  cases h
              | ok u =>
                  rw [hcontext] at h
                  cases h
                  have hlong := le_of_read_ok hdestination
                  have hcontextLong := le_of_read_ok hcontext
                  refine encode_eq_ok.mpr ⟨hagree, ?_, ?_⟩
                  · have hheader := length_transportBytes hagree
                    show (headerTypeOf flags).encodedHeaderLen +
                      ((flags :: hops :: rest).drop (cursor + 17)).length <= mtu
                    rw [length_drop]
                    omega
                  · have hrest : rest = transportBytes transportId ++
                        (flags :: hops :: rest).drop cursor := hfront
                    have hflags : flags = repack flags := (repack_eq flags).symm
                    have hdest := slice_append_drop (flags :: hops :: rest) cursor 16
                    have hcons := @getD_cons_drop (flags :: hops :: rest) (cursor + 16)
                      hcontextLong
                    rw [← hcons, ← toList_idOf (length_slice hlong)] at hdest
                    rw [← hdest] at hrest
                    exact congr (congrArg List.cons hflags) (congrArg (List.cons hops) hrest)

/-!
## What is hashed

The hash is over what no node on the way changes.
-/

theorem low_flags (p : Packet) :
    p.flags &&& 0b00001111 =
      packFlags false .header1 false .broadcast p.destinationType p.packetType :=
  low_packFlags _ _ _ _ _ _

theorem low_flags_inj {q : Packet} (h : p.flags &&& 0b00001111 = q.flags &&& 0b00001111) :
    p.destinationType = q.destinationType ∧ p.packetType = q.packetType := by
  rw [low_flags, low_flags] at h
  have hp := unpack_packFlags false .header1 false .broadcast p.destinationType p.packetType
  have hq := unpack_packFlags false .header1 false .broadcast q.destinationType q.packetType
  rw [h] at hp
  rcases hp with ⟨-, -, -, -, hdestination, hpacket⟩
  rcases hq with ⟨-, -, -, -, hdestination', hpacket'⟩
  exact ⟨hdestination.symm.trans hdestination', hpacket.symm.trans hpacket'⟩

theorem hashablePart_eq_iff {q : Packet} :
    p.hashablePart = q.hashablePart <->
      p.destinationType = q.destinationType ∧ p.packetType = q.packetType ∧
        p.destinationHash = q.destinationHash ∧ p.context = q.context ∧ p.data = q.data := by
  constructor
  · intro h
    unfold hashablePart at h
    simp only [append_assoc] at h
    have hcons : (p.flags &&& 0b00001111) :: (p.destinationHash.toList ++ p.context :: p.data) =
        (q.flags &&& 0b00001111) :: (q.destinationHash.toList ++ q.context :: q.data) := h
    rcases List.cons.inj hcons with ⟨hflags, hbehind⟩
    have hlength : p.destinationHash.toList.length = q.destinationHash.toList.length := by
      rw [Vector.length_toList, Vector.length_toList]
    rcases append_inj hbehind hlength with ⟨hhash, hrest⟩
    rcases low_flags_inj hflags with ⟨hdestination, hpacket⟩
    exact ⟨hdestination, hpacket, Vector.toList_inj.mp hhash, List.cons.inj hrest⟩
  · rintro ⟨hdestination, hpacket, hhash, hcontext, hdata⟩
    unfold hashablePart
    rw [low_flags, low_flags, hdestination, hpacket, hhash, hcontext, hdata]

end Packet
end Rabbithole.Reticulum
