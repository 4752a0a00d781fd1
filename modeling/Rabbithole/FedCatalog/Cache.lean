import Rabbithole.Federation.Continuity
import Rabbithole.Federation.Peers
import Rabbithole.Federation.Pull

/-!
# The cache of peer catalogs

What is kept of each peer, in memory and in a file that the server has signed for itself.
A payload that is let go leaves its generation behind.
-/

namespace Rabbithole.FedCatalog

open Foundation Federation

def maxCatalogBytes : Nat := 4 * 1024 * 1024

def maxCachedCatalogs : Nat := 64

def maxCachedBytes : Nat := 32 * 1024 * 1024

def maxTrackedPeers : Nat := 4096

def maxFileBytes : Nat := maxCachedBytes + 4 * 1024 * 1024

def signatureBytes : Nat := 64

def maxServerLen : Nat := 253

def catalogContext : Bytes := asciiBytes "rhp-fed-catalog-v1"

def cacheContext : Bytes := asciiBytes "rabbithole-peer-catalog-cache-v1" ++ [0]

def isValidServerName (name : String) : Bool :=
  isValidName name maxServerLen

structure CatalogEntry where
  name : String
  size : UInt64
  hash : BitVec (8 * 32)
  area : String
  path : String
  mime : String
  timestamp : Int64
deriving DecidableEq

structure Catalog where
  serverKey : ServerKey
  generation : UInt64
  prevId : Option (BitVec (8 * 32))
  issuedAt : Int64
  entries : List CatalogEntry
deriving DecidableEq

structure SignedCatalog where
  catalog : Catalog
  sig : Signature
deriving DecidableEq

/-- What is known of a peer; revisions that differ are different allocations. -/
structure PeerCatalog where
  revision : Nat
  origin : Option String
  generation : Option UInt64
  signed : Option SignedCatalog
  bytes : Nat
  order : UInt64
deriving DecidableEq

/-- A peer nothing is known of. -/
def PeerCatalog.new (revision : Nat) : PeerCatalog where
  revision := revision
  origin := none
  generation := none
  signed := none
  bytes := 0
  order := 0

def PeerCatalog.hidden (peer : PeerCatalog) : PeerCatalog :=
  { peer with signed := none, bytes := 0 }

abbrev Peers := Dict ServerKey PeerCatalog

structure Record where
  key : ServerKey
  origin : String
  generation : UInt64
  order : UInt64
  signed : Option SignedCatalog
deriving DecidableEq

/-- The peer that a record is read as. -/
def Record.peer (record : Record) (revision size : Nat) : PeerCatalog where
  revision := revision
  origin := some record.origin
  generation := some record.generation
  signed := record.signed
  bytes := size
  order := record.order

structure Snapshot where
  version : UInt8
  peers : List Record

/-!
## On the wire
-/

namespace Wire

variable (p : Postcard)

def byte : Codec UInt8 :=
  (Codec.array 1).iso UInt8.ofBitVec UInt8.toBitVec UInt8.ofBitVec_toBitVec

def catalogEntry : Codec CatalogEntry :=
  (p.text.pair (p.u64.pair ((p.array 32).pair (p.text.pair (p.text.pair
    (p.text.pair p.i64)))))).iso
    (fun (name, size, hash, area, path, mime, timestamp) =>
      ⟨name, size, hash, area, path, mime, timestamp⟩)
    (fun e => (e.name, e.size, e.hash, e.area, e.path, e.mime, e.timestamp)) (fun _ => rfl)

def catalog : Codec Catalog :=
  ((p.array 32).pair (p.u64.pair ((p.array 32).option.pair (p.i64.pair
    (p.length.list (catalogEntry p)))))).iso
    (fun (serverKey, generation, prevId, issuedAt, entries) =>
      ⟨serverKey, generation, prevId, issuedAt, entries⟩)
    (fun c => (c.serverKey, c.generation, c.prevId, c.issuedAt, c.entries)) (fun _ => rfl)

def signedCatalog : Codec SignedCatalog :=
  ((catalog p).pair p.signature).iso (fun (catalog, sig) => ⟨catalog, sig⟩)
    (fun c => (c.catalog, c.sig)) (fun _ => rfl)

def record : Codec Record :=
  ((p.array 32).pair (p.text.pair (p.u64.pair (p.u64.pair (signedCatalog p).option)))).iso
    (fun (key, origin, generation, order, signed) => ⟨key, origin, generation, order, signed⟩)
    (fun r => (r.key, r.origin, r.generation, r.order, r.signed)) (fun _ => rfl)

def snapshot : Codec Snapshot :=
  (byte.pair (p.length.list (record p))).iso (fun (version, peers) => ⟨version, peers⟩)
    (fun s => (s.version, s.peers)) (fun _ => rfl)

end Wire

/-- The codec, the signatures and the server's own key, which verifies what it signs. -/
structure PeerCache where
  postcard : Postcard
  scheme : Scheme
  identity : IdentityKey
  verifies : forall message, scheme.verify identity.public_ message (identity.sign message) = true

inductive CacheError where
  | size
  | signature
  | decode
  | version
  | provenance
  | catalogSignature
  | generationMismatch
  | catalogTooLarge
  | retention
  | noOrigin
  | fileLimit
deriving DecidableEq

namespace PeerCache

variable (cache : PeerCache)

def toBytes (signed : SignedCatalog) : Bytes :=
  (Wire.signedCatalog cache.postcard).encode signed

def verify (signed : SignedCatalog) (key : ServerKey) : Bool :=
  decide (signed.catalog.serverKey = key) &&
    cache.scheme.verify key (catalogContext ++ (Wire.catalog cache.postcard).encode signed.catalog)
      signed.sig

/-!
## Reading
-/

/-- The size of a record's payload, which has to be in order. -/
def payloadSize (record : Record) : Except CacheError Nat :=
  match record.signed with
  | none => .ok 0
  | some signed =>
      if !cache.verify signed record.key then .error .catalogSignature
      else if signed.catalog.generation ≠ record.generation then .error .generationMismatch
      else
        let size := (cache.toBytes signed).length
        if maxCatalogBytes < size then .error .catalogTooLarge else .ok size

/-- The records so far, and the number and size of their payloads. -/
structure Loading where
  peers : Peers
  payloadCount : Nat
  payloadBytes : Nat

/-- A record is taken in under a revision of its own. -/
def load (first : Nat) (loading : Loading) (record : Record) : Except CacheError Loading :=
  if !isValidServerName record.origin || loading.peers.contains record.key then .error .provenance
  else
    match cache.payloadSize record with
    | .error e => .error e
    | .ok size => .ok {
        peers := loading.peers.insert record.key (record.peer (first + loading.peers.size) size)
        payloadCount := loading.payloadCount + (if record.signed.isSome then 1 else 0)
        payloadBytes := loading.payloadBytes + size }

def loadAll (first : Nat) : Loading -> List Record -> Except CacheError Loading
  | loading, [] => .ok loading
  | loading, record :: rest =>
      match cache.load first loading record with
      | .error e => .error e
      | .ok loading => loadAll first loading rest

/-- The file is authenticated before anything else is made of it. -/
def readBytes (first : Nat) (bytes : Bytes) : Except CacheError Peers :=
  if maxFileBytes < bytes.length ∨ bytes.length < signatureBytes then .error .size
  else
    match (Codec.array signatureBytes).decode bytes with
    | none => .error .size
    | some (signature, body) =>
        if !cache.scheme.verify cache.identity.public_ (cacheContext ++ body) signature then
          .error .signature
        else
          match (Wire.snapshot cache.postcard).fromBytes body with
          | none => .error .decode
          | some snapshot =>
              if snapshot.version ≠ 1 ∨ maxTrackedPeers < snapshot.peers.length then
                .error .version
              else
                match cache.loadAll first ⟨Dict.empty, 0, 0⟩ snapshot.peers with
                | .error e => .error e
                | .ok loading =>
                    if maxCachedCatalogs < loading.payloadCount ∨
                        maxCachedBytes < loading.payloadBytes then .error .retention
                    else .ok loading.peers

/-- No file is an empty cache. -/
def read (first : Nat) (file : Option Bytes) : Except CacheError Peers :=
  match file with
  | none => .ok Dict.empty
  | some bytes => cache.readBytes first bytes

/-!
## Writing
-/

/-- Peers that have sent a catalog are written. -/
def toRecord (key : ServerKey) (peer : PeerCatalog) : Except CacheError (Option Record) :=
  match peer.generation with
  | none => .ok none
  | some generation =>
      match peer.origin with
      | none => .error .noOrigin
      | some origin => .ok (some {
          key := key, origin := origin, generation := generation, order := peer.order,
          signed := peer.signed })

def toRecords : List (ServerKey × PeerCatalog) -> Except CacheError (List Record)
  | [] => .ok []
  | (key, peer) :: rest =>
      match toRecord key peer with
      | .error e => .error e
      | .ok record =>
          match toRecords rest with
          | .error e => .error e
          | .ok records => .ok (record.toList ++ records)

def keyBefore (a b : Record) : Bool :=
  decide ((Codec.array 32).encode a.key <= (Codec.array 32).encode b.key)

/-- What a successful write leaves in the file. -/
def write (peers : Peers) : Except CacheError Bytes :=
  match toRecords peers.entries with
  | .error e => .error e
  | .ok records =>
      let body := (Wire.snapshot cache.postcard).encode ⟨1, records.mergeSort keyBefore⟩
      let signature := cache.identity.sign (cacheContext ++ body)
      if maxFileBytes < signatureBytes + body.length then .error .fileLimit
      else .ok ((Codec.array signatureBytes).encode signature ++ body)

end PeerCache

/-!
## Retention
-/

def olderFirst (a b : UInt64 × ServerKey × Nat) : Bool :=
  decide (a.fst < b.fst) || (a.fst == b.fst &&
    decide ((Codec.array 32).encode a.snd.fst <= (Codec.array 32).encode b.snd.fst))

def retained (peers : Peers) : List (UInt64 × ServerKey × Nat) :=
  (peers.entries.filter (fun entry => entry.snd.signed.isSome)).map
    (fun entry => (entry.snd.order, entry.fst, entry.snd.bytes))

def trimFrom : List (UInt64 × ServerKey × Nat) -> Nat -> Nat -> Peers -> Peers
  | [], _, _, peers => peers
  | (_, key, size) :: rest, count, bytes, peers =>
      if count <= maxCachedCatalogs ∧ bytes <= maxCachedBytes then peers
      else
        trimFrom rest (count - 1) (bytes - size)
          (match peers.get? key with
          | none => peers
          | some peer => peers.insert key peer.hidden)

def trim (peers : Peers) : Peers :=
  trimFrom ((retained peers).mergeSort olderFirst) (retained peers).length
    ((retained peers).map (fun entry => entry.snd.snd)).sum peers

end Rabbithole.FedCatalog
