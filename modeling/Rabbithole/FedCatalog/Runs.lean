import Rabbithole.FedCatalog.Cache

/-!
# Peer catalogs in memory

A fetch is begun under an approval and is only good for it: a revocation, or another
origin, gives the peer a new revision.  What is stored goes through the file first.
-/

namespace Rabbithole.FedCatalog

open Foundation Federation

/-- `PeerRegistry::is_approved_origin`. -/
def isApprovedOrigin (registry : PeerRegistry) (key : ServerKey) (origin : String) : Bool :=
  match registry.inner.get? key with
  | none => false
  | some record => record.approved && decide (record.origin = some origin)

def approvedOrigin (registry : PeerRegistry) (key : ServerKey) : Option String :=
  ((registry.inner.get? key).filter PeerRecord.approved).bind PeerRecord.origin

structure CatalogState where
  peers : Peers
  /-- The allocation that comes next. -/
  nextRevision : Nat

structure CatalogFetch where
  key : ServerKey
  revision : Nat
  origin : String
deriving DecidableEq

inductive FetchError where
  | notApproved
  | invalidOrigin
  | limit
  | tooLarge
  | revoked
  | stale
  | exhausted
deriving DecidableEq

namespace CatalogState

def isApproved (registry : PeerRegistry) (key : ServerKey) (peer : PeerCatalog) : Bool :=
  (peer.origin.map (fun origin => isApprovedOrigin registry key origin)).getD false

/-- Boot: what the file has, without the payloads of peers that are not approved. -/
def loadPeers (cache : PeerCache) (s : CatalogState) (registry : PeerRegistry)
    (file : Option Bytes) : CatalogState :=
  if !s.peers.isEmpty then s
  else
    match cache.read s.nextRevision file with
    | .error _ => s
    | .ok peers =>
        { peers := peers.mapValues (fun key peer =>
            if isApproved registry key peer then peer else peer.hidden)
          nextRevision := s.nextRevision + peers.size }

/-- Every catalog of a peer whose origin is approved, by its key. -/
def approvedPeerCatalogs (s : CatalogState) (registry : PeerRegistry) : List SignedCatalog :=
  ((s.peers.entries.filter (fun entry => isApproved registry entry.fst entry.snd)).filterMap
    (fun entry => entry.snd.signed)).mergeSort
      (fun a b => decide ((Codec.array 32).encode a.catalog.serverKey <=
        (Codec.array 32).encode b.catalog.serverKey))

/-- What a revocation does before it is written: none where nothing is known of the peer. -/
def revokePeer (s : CatalogState) (key : ServerKey) : Option CatalogState :=
  (s.peers.get? key).map (fun peer => {
    peers := s.peers.insert key { peer.hidden with revision := s.nextRevision }
    nextRevision := s.nextRevision + 1 })

/-- The peer a fetch is begun of; another origin than before is another approval. -/
def fetchedPeer (s : CatalogState) (key : ServerKey) (origin : String) : PeerCatalog :=
  let peer := (s.peers.get? key).getD (PeerCatalog.new s.nextRevision)
  if peer.origin = some origin then peer
  else { peer.hidden with origin := some origin, revision := s.nextRevision + 1 }

def beginFetch (s : CatalogState) (registry : PeerRegistry) (key : ServerKey) :
    CatalogState × Except FetchError CatalogFetch :=
  match approvedOrigin registry key with
  | none => (s, .error .notApproved)
  | some origin =>
      if !isValidServerName origin then (s, .error .invalidOrigin)
      else if !s.peers.contains key && decide (maxTrackedPeers <= s.peers.size) then
        (s, .error .limit)
      else
        let peer := s.fetchedPeer key origin
        ({ peers := s.peers.insert key peer, nextRevision := s.nextRevision + 2 },
          .ok { key := key, revision := peer.revision, origin := origin })

def nextOrder (peers : Peers) : Option UInt64 :=
  let top := (peers.entries.map (fun entry => entry.snd.order.toNat)).foldl max 0
  if top + 1 < 2 ^ 64 then some (UInt64.ofNat (top + 1)) else none

/-- `store_verified` up to the write: the peers that are to be written, then kept. -/
def nextPeers (cache : PeerCache) (s : CatalogState) (registry : PeerRegistry)
    (fetch : CatalogFetch) (signed : SignedCatalog) : Except FetchError Peers :=
  let bytes := (cache.toBytes signed).length
  if maxCatalogBytes < bytes then .error .tooLarge
  else if !isApprovedOrigin registry fetch.key fetch.origin then .error .notApproved
  else
    match (s.peers.get? fetch.key).filter (fun peer => decide (peer.revision = fetch.revision)) with
    | none => .error .revoked
    | some peer =>
        if peer.generation.any (fun generation =>
            decide (signed.catalog.generation <= generation)) then .error .stale
        else
          match nextOrder s.peers with
          | none => .error .exhausted
          | some order => .ok (trim (s.peers.insert fetch.key { peer with
              generation := some signed.catalog.generation
              signed := some signed
              bytes := bytes
              order := order }))

end CatalogState

/-!
# Runs of a server with its cache

Tasks take the mutation lock for a store, a revocation or a flush; a store holds it from its
checks to the swap, with the write in between.  An approval holds the operators' lock from
its flush on, and a revocation waits for that lock.  The server may stop at any point.
-/

/-- A store that holds the mutation lock. -/
structure Storing where
  fetch : CatalogFetch
  signed : SignedCatalog
  next : Peers
  written : Bool

/-- What has happened is kept beside the state: how often a key was revoked, with what count
each fetch was begun, what was accepted, what of it was revoked, what the file was made of. -/
structure World where
  registry : PeerRegistry
  state : CatalogState
  file : Option Bytes
  storing : Option Storing
  approving : Option (ServerKey × String)
  fetches : List (CatalogFetch × Nat)
  revocations : ServerKey -> Nat
  accepted : List (ServerKey × SignedCatalog)
  withdrawn : List (ServerKey × SignedCatalog)
  saved : Peers

/-- A first start. -/
def World.opened (registry : PeerRegistry) : World where
  registry := registry
  state := { peers := Dict.empty, nextRevision := 0 }
  file := none
  storing := none
  approving := none
  fetches := []
  revocations := fun _ => 0
  accepted := []
  withdrawn := []
  saved := Dict.empty

namespace World

variable (cache : PeerCache)

/-- The file behind a write of some peers that goes through. -/
def saving (w : World) (peers : Peers) : Option World :=
  match cache.write peers with
  | .error _ => none
  | .ok bytes => some { w with file := some bytes, saved := peers }

def persist (w : World) (peers : Peers) (writes : Bool) : World :=
  if writes then (w.saving cache peers).getD w else w

end World

inductive Event where
  | beginFetch (key : ServerKey)
  /-- A catalog that verified under the key of the fetch, up to the write. -/
  | check (fetch : CatalogFetch) (signed : SignedCatalog)
  | write (writes : Bool)
  | swap
  | revoke (key : ServerKey) (writes : Bool)
  | flush (writes : Bool)
  /-- The flush of an approval, which has to go through. -/
  | beginApproval (key : ServerKey) (origin : String)
  | approve
  | restart

/-- What an event comes to, where the locks let it through. -/
def World.step (cache : PeerCache) (w : World) : Event -> Option World
  | .beginFetch key =>
      if w.storing.isSome then none
      else
        match w.state.beginFetch w.registry key with
        | (_, .error _) => some w
        | (state, .ok fetch) => some { w with
            state := state, fetches := (fetch, w.revocations key) :: w.fetches }
  | .check fetch signed =>
      if w.storing.isSome ∨ fetch ∉ w.fetches.map Prod.fst ∨
          cache.verify signed fetch.key = false then none
      else
        match w.state.nextPeers cache w.registry fetch signed with
        | .error _ => some w
        | .ok next => some { w with storing := some ⟨fetch, signed, next, false⟩ }
  | .write writes =>
      match w.storing with
      | none => none
      | some storing =>
          if storing.written then none
          else
            match if writes then w.saving cache storing.next else none with
            | none => some { w with storing := none }
            | some w' => some { w' with storing := some { storing with written := true } }
  | .swap =>
      match w.storing with
      | none => none
      | some storing =>
          if storing.written then some { w with
            state := { w.state with peers := storing.next }
            storing := none
            accepted := w.accepted ++ [(storing.fetch.key, storing.signed)] }
          else none
  | .revoke key writes =>
      if w.storing.isSome ∨ w.approving.isSome then none
      else
        let w' := { w with
          registry := (w.registry.revoke key).snd
          revocations := fun k => w.revocations k + if k = key then 1 else 0
          withdrawn := w.withdrawn ++ w.accepted.filter (fun entry => decide (entry.fst = key)) }
        match w.state.revokePeer key with
        | none => some w'
        | some state => some ({ w' with state := state }.persist cache state.peers writes)
  | .flush writes =>
      if w.storing.isSome then none else some (w.persist cache w.state.peers writes)
  | .beginApproval key origin =>
      if w.storing.isSome ∨ w.approving.isSome then none
      else (w.saving cache w.state.peers).map (fun w' => { w' with approving := some (key, origin) })
  | .approve =>
      w.approving.map (fun (key, origin) => { w with
        registry := (w.registry.approveOrigin key origin).snd, approving := none })
  | .restart => some { w with
      state := CatalogState.loadPeers cache ⟨Dict.empty, w.state.nextRevision⟩ w.registry w.file
      storing := none
      approving := none
      fetches := [] }

/-- Any interleaving, from a first start with some approvals. -/
inductive Reachable (cache : PeerCache) : World -> Prop where
  | opened (registry : PeerRegistry) : Reachable cache (World.opened registry)
  | step (w w' : World) (e : Event) (h : Reachable cache w) (hstep : w.step cache e = some w') :
      Reachable cache w'

end Rabbithole.FedCatalog
