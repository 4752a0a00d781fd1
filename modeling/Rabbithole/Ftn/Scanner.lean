import Mathlib.Data.Prod.Lex
import Rabbithole.Foundation.Grouping

/-!
# Scanning mail for the outbound

The messages to be sent are grouped under their destinations, and each group becomes a
packet whose header names both ends.  A header of type 2+ has both zones a second time, and
these count for whoever reads it.
-/

namespace Rabbithole.Ftn

open Foundation

structure FtnAddress where
  zone : UInt16
  net : UInt16
  node : UInt16
  point : UInt16

namespace FtnAddress

def key (address : FtnAddress) : Nat ×ₗ Nat ×ₗ Nat ×ₗ Nat :=
  toLex (address.zone.toNat, toLex (address.net.toNat,
    toLex (address.node.toNat, address.point.toNat)))

theorem key_injective : Function.Injective key := by
  intro a b h
  rcases a with ⟨zone, net, node, point⟩
  rcases b with ⟨zone', net', node', point'⟩
  have hzone := congrArg Prod.fst h
  have hnet := congrArg (fun k => (Prod.snd k).fst) h
  have hnode := congrArg (fun k => (Prod.snd (Prod.snd k)).fst) h
  have hpoint := congrArg (fun k => (Prod.snd (Prod.snd k)).snd) h
  rw [FtnAddress.mk.injEq]
  exact ⟨UInt16.toNat_inj.mp hzone, UInt16.toNat_inj.mp hnet, UInt16.toNat_inj.mp hnode,
    UInt16.toNat_inj.mp hpoint⟩

instance : LinearOrder FtnAddress :=
  LinearOrder.lift' key key_injective

def boss (address : FtnAddress) : FtnAddress :=
  { address with point := 0 }

end FtnAddress

structure DosDateTime where
  year : UInt16 := 0
  month : UInt16 := 0
  day : UInt16 := 0
  hour : UInt16 := 0
  minute : UInt16 := 0
  second : UInt16 := 0

structure Type2Plus where
  auxNet : UInt16 := 0
  capability : UInt16 := 0
  productCodeHigh : UInt8 := 0
  revisionHigh : UInt8 := 0
  origZone : UInt16 := 0
  destZone : UInt16 := 0
  origPoint : UInt16 := 0
  destPoint : UInt16 := 0
  productData : UInt32 := 0

structure PacketHeader where
  origNode : UInt16 := 0
  destNode : UInt16 := 0
  dateTime : DosDateTime := {}
  baud : UInt16 := 0
  origNet : UInt16 := 0
  destNet : UInt16 := 0
  productCodeLow : UInt8 := 0
  revisionLow : UInt8 := 0
  password : Vector UInt8 8 := Vector.replicate 8 0
  origZone : UInt16 := 0
  destZone : UInt16 := 0
  plus : Option Type2Plus := none

open List

namespace PacketHeader

/-- The net of a point is in the extension. -/
def origAddress (header : PacketHeader) : FtnAddress :=
  match header.plus with
  | some p =>
      { zone := p.origZone
        net := if header.origNet = 0xFFFF then p.auxNet else header.origNet
        node := header.origNode
        point := p.origPoint }
  | none =>
      { zone := header.origZone, net := header.origNet, node := header.origNode, point := 0 }

def destAddress (header : PacketHeader) : FtnAddress :=
  match header.plus with
  | some p =>
      { zone := p.destZone, net := header.destNet, node := header.destNode, point := p.destPoint }
  | none =>
      { zone := header.destZone, net := header.destNet, node := header.destNode, point := 0 }

end PacketHeader

structure PackedMessage where
  origNode : UInt16 := 0
  destNode : UInt16 := 0
  origNet : UInt16 := 0
  destNet : UInt16 := 0
  attributes : UInt16 := 0
  cost : UInt16 := 0
  dateTime : List Char := []
  recipient : List Char := []
  sender : List Char := []
  subject : List Char := []
  body : List UInt8 := []

structure Packet where
  header : PacketHeader
  messages : List PackedMessage

structure ScannedBundle where
  dest : FtnAddress
  packet : Packet

def buildPacket (template : PacketHeader) (orig dest : FtnAddress)
    (messages : List PackedMessage) : Packet where
  header :=
    { template with
      origZone := orig.zone
      origNet := orig.net
      origNode := orig.node
      destZone := dest.zone
      destNet := dest.net
      destNode := dest.node }
  messages := messages

def scan (template : PacketHeader) (orig : FtnAddress)
    (routed : List (FtnAddress × PackedMessage)) : List ScannedBundle :=
  (Grouping.group routed).map (fun g =>
    { dest := g.fst, packet := buildPacket template orig g.fst g.snd })

/-!
## One header
-/

section

variable (template : PacketHeader) (orig dest : FtnAddress) (messages : List PackedMessage)
include template orig dest messages

theorem destAddress_buildPacket :
    (buildPacket template orig dest messages).header.destAddress.boss = dest.boss ↔
      forall p, template.plus = some p -> p.destZone = dest.zone := by
  unfold PacketHeader.destAddress buildPacket FtnAddress.boss
  cases template.plus with
  | none =>
      constructor
      · intro _ p hp
        contradiction
      · intro _
        rfl
  | some p =>
      constructor
      · intro h p' hp
        cases hp
        exact congrArg FtnAddress.zone h
      · intro h
        rw [FtnAddress.mk.injEq]
        exact ⟨h p rfl, rfl, rfl, rfl⟩

theorem origAddress_buildPacket :
    (buildPacket template orig dest messages).header.origAddress.boss = orig.boss ↔
      forall p, template.plus = some p ->
        p.origZone = orig.zone ∧ (orig.net = 0xFFFF -> p.auxNet = 0xFFFF) := by
  unfold PacketHeader.origAddress buildPacket FtnAddress.boss
  cases template.plus with
  | none =>
      constructor
      · intro _ p hp
        contradiction
      · intro _
        rfl
  | some p =>
      dsimp only
      constructor
      · intro h p' hp
        cases hp
        refine ⟨congrArg FtnAddress.zone h, fun hnet => ?_⟩
        have haux := congrArg FtnAddress.net h
        dsimp only at haux
        rw [if_pos hnet] at haux
        rw [haux, hnet]
      · intro h
        obtain ⟨hzone, haux⟩ := h p rfl
        rw [FtnAddress.mk.injEq]
        refine ⟨hzone, ?_, rfl, rfl⟩
        split
        · rename_i hnet
          rw [haux hnet, hnet]
        · rfl

end

/-!
## All bundles
-/

/-- Every message is in the bundle of its destination, once and in order. -/
structure Partitions (routed : List (FtnAddress × PackedMessage))
    (bundles : List ScannedBundle) : Prop where
  distinct : (bundles.map ScannedBundle.dest).Nodup
  dests : forall dest, dest ∈ bundles.map ScannedBundle.dest ↔ dest ∈ routed.map Prod.fst
  messages : forall b, b ∈ bundles ->
    b.packet.messages = (routed.filter (fun r => r.fst = b.dest)).map Prod.snd
  complete : (bundles.flatMap (fun b => b.packet.messages)).Perm (routed.map Prod.snd)

/-- Both ends can be read back, up to a point's number. -/
def Addressed (orig : FtnAddress) (b : ScannedBundle) : Prop :=
  b.packet.header.destAddress.boss = b.dest.boss ∧
    b.packet.header.origAddress.boss = orig.boss

theorem mem_scan {template : PacketHeader} {orig : FtnAddress}
    {routed : List (FtnAddress × PackedMessage)} {b : ScannedBundle} :
    b ∈ scan template orig routed ↔
      exists dest messages, (dest, messages) ∈ Grouping.group routed ∧
        b = { dest := dest, packet := buildPacket template orig dest messages } := by
  unfold scan
  rw [mem_map]
  constructor
  · rintro ⟨⟨dest, messages⟩, hmem, rfl⟩
    exact ⟨dest, messages, hmem, rfl⟩
  · rintro ⟨dest, messages, hmem, rfl⟩
    exact ⟨(dest, messages), hmem, rfl⟩

section

variable (template : PacketHeader) (orig : FtnAddress) (routed : List (FtnAddress × PackedMessage))
include template orig routed

theorem map_dest_scan :
    (scan template orig routed).map ScannedBundle.dest =
      Grouping.keys (Grouping.group routed) :=
  map_map

theorem scan_partitions : Partitions routed (scan template orig routed) where
  distinct := by
    rw [map_dest_scan]
    exact (Grouping.ascending_group routed).imp ne_of_lt
  dests := by
    intro dest
    rw [map_dest_scan]
    exact Grouping.mem_keys_group
  messages := by
    intro b hb
    obtain ⟨dest, messages, hmem, rfl⟩ := mem_scan.mp hb
    exact (Grouping.mem_group.mp hmem).right
  complete := by
    unfold scan
    rw [flatMap_map]
    exact Grouping.group_perm routed

end

/-- The bundles are right, with headers that can be read back, exactly where a template's
extension has the zones of the two ends already. -/
theorem scan_exact (template : PacketHeader) (orig : FtnAddress)
    (routed : List (FtnAddress × PackedMessage)) :
    (Partitions routed (scan template orig routed) ∧
      forall b, b ∈ scan template orig routed -> Addressed orig b) ↔
      forall p, template.plus = some p -> forall r, r ∈ routed ->
        p.destZone = r.fst.zone ∧ p.origZone = orig.zone ∧
          (orig.net = 0xFFFF -> p.auxNet = 0xFFFF) := by
  constructor
  · rintro ⟨hparts, haddressed⟩ p hp r hr
    have hdest : r.fst ∈ (scan template orig routed).map ScannedBundle.dest :=
      (hparts.dests r.fst).mpr (mem_map_of_mem hr)
    obtain ⟨b, hb, hbdest⟩ := mem_map.mp hdest
    obtain ⟨hread, hsender⟩ := haddressed b hb
    obtain ⟨dest, messages, -, rfl⟩ := mem_scan.mp hb
    rw [← hbdest]
    exact ⟨(destAddress_buildPacket template orig dest messages).mp hread p hp,
      (origAddress_buildPacket template orig dest messages).mp hsender p hp⟩
  · intro h
    refine ⟨scan_partitions template orig routed, fun b hb => ?_⟩
    have hdest : b.dest ∈ routed.map Prod.fst :=
      ((scan_partitions template orig routed).dests b.dest).mp (mem_map_of_mem hb)
    obtain ⟨r, hr, hrdest⟩ := mem_map.mp hdest
    obtain ⟨dest, messages, -, rfl⟩ := mem_scan.mp hb
    constructor
    · refine (destAddress_buildPacket template orig dest messages).mpr fun p hp => ?_
      rw [(h p hp r hr).left, hrdest]
    · exact (origAddress_buildPacket template orig dest messages).mpr fun p hp =>
        (h p hp r hr).right

/-- A template of type 2+ that has no zones yet. -/
theorem not_scan_exact : ¬ (forall (template : PacketHeader) (orig : FtnAddress)
        (routed : List (FtnAddress × PackedMessage)),
      Partitions routed (scan template orig routed) ∧
        forall b, b ∈ scan template orig routed -> Addressed orig b) := by
  intro h
  have hall := (h { plus := some { capability := 1 } } ⟨2, 280, 464, 0⟩
    [(⟨2, 280, 1, 0⟩, {})]).right
  have hfirst := hall
    { dest := ⟨2, 280, 1, 0⟩
      packet := buildPacket { plus := some { capability := 1 } } ⟨2, 280, 464, 0⟩
        ⟨2, 280, 1, 0⟩ [{}] } mem_cons_self
  have hzone : (0 : UInt16) = 2 := congrArg FtnAddress.zone hfirst.left
  exact absurd hzone (by decide)

end Rabbithole.Ftn
