import Rabbithole.Federation.Postcard
import Rabbithole.Foundation.Utf8
import Rabbithole.RateLimit.Limiter

/-!
# Signed server descriptors

A server's statement of what it is, and its signature over the canonical bytes.  It names the
key it is signed with, so whoever holds it can verify it, from whatever hands it came.
-/

namespace Rabbithole.Directory

open Foundation Federation RateLimit

def maxNameLen : Nat := 255

def maxDescriptionLen : Nat := 255

def maxSoftwareLen : Nat := 64

def maxCategories : Nat := 8

def maxCategoryLen : Nat := 32

structure SocketAddr where
  ip : IpAddr
  port : UInt16
deriving DecidableEq

namespace SocketAddr

def ipRank : IpAddr -> Nat
  | .v4 bits => bits.toNat
  | .v6 bits => 2 ^ 32 + bits.toNat

/-- The place among all addresses: first the host, then the port. -/
def rank (addr : SocketAddr) : Nat :=
  ipRank addr.ip * 2 ^ 16 + addr.port.toNat

theorem ipRank_injective : Function.Injective ipRank := by
  intro ip ip' h
  cases ip with
  | v4 bits =>
      cases ip' with
      | v4 bits' => exact congrArg IpAddr.v4 (BitVec.eq_of_toNat_eq h)
      | v6 bits' =>
          have hlt := bits.isLt
          simp only [ipRank] at h
          omega
  | v6 bits =>
      cases ip' with
      | v4 bits' =>
          have hlt := bits'.isLt
          simp only [ipRank] at h
          omega
      | v6 bits' => exact congrArg IpAddr.v6 (BitVec.eq_of_toNat_eq (Nat.add_left_cancel h))

theorem rank_injective : Function.Injective rank := by
  intro addr addr' h
  have hport := addr.port.toNat_lt
  have hport' := addr'.port.toNat_lt
  unfold rank at h
  have hip : ipRank addr.ip = ipRank addr'.ip := by omega
  have hports : addr.port.toNat = addr'.port.toNat := by omega
  cases addr with
  | mk ip port =>
      cases addr' with
      | mk ip' port' =>
          rw [SocketAddr.mk.injEq]
          exact ⟨ipRank_injective hip, UInt16.toNat_inj.mp hports⟩

end SocketAddr

structure Descriptor where
  serverKey : PublicKey
  name : List Char
  description : List Char
  /-- Where the server says that clients reach it. -/
  addr : SocketAddr
  categories : List (List Char)
  usersOnline : UInt16
  /-- Zero is unknown or unlimited. -/
  capacity : UInt16
  software : List Char
  /-- When it was issued, and what orders the statements of one server. -/
  timestamp : Int64
deriving DecidableEq

structure SignedDescriptor where
  descriptor : Descriptor
  sig : Signature
deriving DecidableEq

inductive DescriptorError where
  | badSignature
  | limits
deriving DecidableEq

/-!
## The canonical bytes
-/

/-- The primitives of the format, with the short integers that only descriptors have. -/
structure Format extends Postcard where
  u16 : Codec UInt16

namespace Format

def wire : Format where
  toPostcard := Postcard.wire
  u16 := Codec.varint.iso UInt16.ofNat UInt16.toNat (fun _ => UInt16.ofNat_toNat)

def chars (f : Format) : Codec (List Char) :=
  f.text.iso String.toList String.ofList (fun _ => String.toList_ofList)

/-- The octets of an address as they are. -/
def octets (count : Nat) : Codec (BitVec (8 * count)) where
  encode := fun bits => Codec.highFirst count bits.toNat
  decode := fun bytes =>
    (Codec.takeBytes count bytes).map (fun read =>
      (BitVec.ofNat (8 * count) (Codec.ofHighFirst read.fst), read.snd))
  decode_encode := by
    intro bits rest
    have hlt : bits.toNat < 256 ^ count := by
      have hbits := bits.isLt
      rwa [Nat.pow_mul] at hbits
    have htake := Codec.takeBytes_append (Codec.highFirst count bits.toNat) rest
    rw [Codec.length_highFirst] at htake
    rw [htake, Option.map_some, Codec.ofHighFirst_highFirst, Nat.mod_eq_of_lt hlt,
      BitVec.ofNat_toNat, BitVec.setWidth_eq]

/-- The version's number, then the address and the port. -/
def socketAddr (f : Format) : Codec SocketAddr where
  encode := fun addr =>
    match addr.ip with
    | .v4 bits => f.u32.encode 0 ++ ((octets 4).pair f.u16).encode (bits, addr.port)
    | .v6 bits => f.u32.encode 1 ++ ((octets 16).pair f.u16).encode (bits, addr.port)
  decode := fun bytes =>
    match f.u32.decode bytes with
    | none => none
    | some (version, rest) =>
        if version = 0 then
          (((octets 4).pair f.u16).decode rest).map (fun read =>
            (⟨.v4 read.fst.fst, read.fst.snd⟩, read.snd))
        else if version = 1 then
          (((octets 16).pair f.u16).decode rest).map (fun read =>
            (⟨.v6 read.fst.fst, read.fst.snd⟩, read.snd))
        else none
  decode_encode := by
    intro addr rest
    rcases addr with ⟨ip, port⟩
    cases ip with
    | v4 bits | v6 bits => simp [List.append_assoc]

/-- The fields in their order. -/
def descriptor (f : Format) : Codec Descriptor :=
  ((f.array 32).pair (f.chars.pair (f.chars.pair (f.socketAddr.pair
    ((Codec.list f.length f.chars).pair (f.u16.pair (f.u16.pair
      (f.chars.pair f.i64)))))))).iso
    (fun (serverKey, name, description, addr, categories, usersOnline, capacity, software,
        timestamp) =>
      ⟨serverKey, name, description, addr, categories, usersOnline, capacity, software, timestamp⟩)
    (fun d => (d.serverKey, d.name, d.description, d.addr, d.categories, d.usersOnline,
      d.capacity, d.software, d.timestamp))
    (fun _ => rfl)

def signedDescriptor (f : Format) : Codec SignedDescriptor :=
  (f.descriptor.pair f.signature).iso
    (fun (descriptor, sig) => ⟨descriptor, sig⟩)
    (fun signed => (signed.descriptor, signed.sig))
    (fun _ => rfl)

end Format

/-!
## Verification
-/

def descriptorContext : Bytes :=
  utf8 "rhp-trk-descriptor-v1".toList

namespace Descriptor

def withinLimits (d : Descriptor) : Bool :=
  (utf8 d.name).length <= maxNameLen
    && (utf8 d.description).length <= maxDescriptionLen
    && (utf8 d.software).length <= maxSoftwareLen
    && d.categories.length <= maxCategories
    && d.categories.all (fun c => !c.isEmpty && (utf8 c).length <= maxCategoryLen)

def signedBytes (f : Format) (d : Descriptor) : Bytes :=
  descriptorContext ++ f.descriptor.encode d

end Descriptor

namespace SignedDescriptor

def publicKey (signed : SignedDescriptor) : PublicKey :=
  signed.descriptor.serverKey

/-- The limits first, then the signature under the key that the document itself names. -/
def verify (scheme : Scheme) (f : Format) (signed : SignedDescriptor) :
    Except DescriptorError Unit :=
  if signed.descriptor.withinLimits = false then .error .limits
  else if scheme.verify signed.publicKey (signed.descriptor.signedBytes f) signed.sig then .ok ()
  else .error .badSignature

def toBytes (f : Format) (signed : SignedDescriptor) : Bytes :=
  f.signedDescriptor.encode signed

/-- Bytes behind the document are not looked at. -/
def ofBytes (f : Format) (bytes : Bytes) : Option SignedDescriptor :=
  f.signedDescriptor.fromBytes bytes

theorem ofBytes_toBytes (f : Format) (signed : SignedDescriptor) :
    ofBytes f (toBytes f signed) = some signed :=
  Codec.fromBytes_encode f.signedDescriptor signed

theorem verify_eq_ok_iff {scheme : Scheme} {f : Format} {signed : SignedDescriptor} :
    signed.verify scheme f = .ok () <->
      signed.descriptor.withinLimits = true ∧
        scheme.verify signed.publicKey (signed.descriptor.signedBytes f) signed.sig = true := by
  unfold verify
  cases signed.descriptor.withinLimits with
  | false => simp
  | true => simp

end SignedDescriptor

end Rabbithole.Directory
