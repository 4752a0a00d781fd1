import Rabbithole.FedCatalog.Written

/-!
# What holds throughout a run

Memory and the file remember the generation of all that was accepted.  A payload in memory
is newer than all that was withdrawn of its key; one in the file may be older, but then its
key is not approved, and is not about to be.
-/

namespace Rabbithole.FedCatalog

open Foundation Federation Option Dict

def generationOf (peers : Peers) (key : ServerKey) : Option UInt64 :=
  (peers.get? key).bind PeerCatalog.generation

/-- What was accepted is below the watermark. -/
def Marked (accepted : List (ServerKey × SignedCatalog)) (peers : Peers) : Prop :=
  forall key c, (key, c) ∈ accepted ->
    exists g, generationOf peers key = some g ∧ c.catalog.generation <= g

/-- The payload of a key is newer than what was withdrawn. -/
def Fresh (withdrawn : List (ServerKey × SignedCatalog)) (peers : Peers) (key : ServerKey) : Prop :=
  forall peer c, peers.get? key = some peer -> peer.signed = some c ->
    forall c', (key, c') ∈ withdrawn -> c'.catalog.generation < c.catalog.generation

section Peers

variable {cache : PeerCache} {peers peers' : Peers} {key : ServerKey}
variable {accepted withdrawn : List (ServerKey × SignedCatalog)}

theorem generationOf_insert (peers : Peers) (key k : ServerKey) (peer : PeerCatalog) :
    generationOf (peers.insert key peer) k =
      if k = key then peer.generation else generationOf peers k := by
  unfold generationOf
  rw [get?_insert]
  split
  · rfl
  · rfl

theorem Marked.of_eq (h : Marked accepted peers)
    (heq : forall k, generationOf peers' k = generationOf peers k) : Marked accepted peers' := by
  intro k c hmem
  rw [heq]
  exact h k c hmem

theorem Fresh.of_signed (h : Fresh withdrawn peers key)
    (hold : forall peer' c, peers'.get? key = some peer' -> peer'.signed = some c ->
      exists peer, peers.get? key = some peer ∧ peer.signed = some c) :
    Fresh withdrawn peers' key := by
  intro peer' c hpeer' hsigned' c' hmem
  rcases hold peer' c hpeer' hsigned' with ⟨peer, hpeer, hsigned⟩
  exact h peer c hpeer hsigned c' hmem

theorem Trimmed.generationOf (h : Trimmed peers peers') (k : ServerKey) :
    generationOf peers' k = generationOf peers k := by
  unfold FedCatalog.generationOf
  rcases h k with hsame | ⟨peer, hold, hhidden⟩
  · rw [hsame]
  · rw [hold, hhidden]
    rfl

theorem Trimmed.peer (h : Trimmed peers peers') {k : ServerKey} {peer' : PeerCatalog}
    (hpeer' : peers'.get? k = some peer') :
    exists peer, peers.get? k = some peer ∧ peer'.revision = peer.revision ∧
      peer'.origin = peer.origin ∧ forall c, peer'.signed = some c -> peer.signed = some c := by
  rcases h k with hsame | ⟨peer, hold, hhidden⟩
  · exact ⟨peer', hsame ▸ hpeer', rfl, rfl, fun _ hc => hc⟩
  · rw [hhidden] at hpeer'
    cases hpeer'
    exact ⟨peer, hold, rfl, rfl, fun _ hc => nomatch hc⟩

theorem SameHeard.generationOf (h : SameHeard peers peers') (k : ServerKey) :
    generationOf peers' k = generationOf peers k := by
  have hsame := congrArg (fun o => o.bind PeerData.generation) (h k)
  simp only [bind_map] at hsame
  have hdata : PeerData.generation ∘ PeerCatalog.data = PeerCatalog.generation := rfl
  rw [hdata] at hsame
  unfold FedCatalog.generationOf
  rw [hsame]
  cases peers.get? k with
  | none => rfl
  | some peer =>
      rw [filter_some]
      split
      · rfl
      · rename_i hheard
        unfold PeerCatalog.heard at hheard
        rw [not_isSome_iff_eq_none] at hheard
        exact hheard.symm

end Peers

/-!
## The maps
-/

/-- A map that memory may hold. -/
structure Safe (cache : PeerCache) (accepted withdrawn : List (ServerKey × SignedCatalog))
    (peers : Peers) : Prop where
  kept : Kept cache peers
  marked : Marked accepted peers
  fresh : forall key, Fresh withdrawn peers key

/-- Every revision in use has been given out. -/
def Allocated (s : CatalogState) : Prop :=
  forall key peer, s.peers.get? key = some peer -> peer.revision < s.nextRevision

namespace CatalogState

variable {cache : PeerCache} {s s' : CatalogState} {registry : PeerRegistry}
variable {accepted withdrawn : List (ServerKey × SignedCatalog)}

theorem fetchedPeer_cases (s : CatalogState) (key : ServerKey) (origin : String) :
    (s.peers.get? key = some (s.fetchedPeer key origin) ∧
      (s.fetchedPeer key origin).origin = some origin) ∨
    ((s.fetchedPeer key origin).signed = none ∧ (s.fetchedPeer key origin).bytes = 0 ∧
      (s.fetchedPeer key origin).origin = some origin ∧
      (s.fetchedPeer key origin).generation = generationOf s.peers key ∧
      (s.fetchedPeer key origin).revision = s.nextRevision + 1) := by
  unfold fetchedPeer generationOf
  cases s.peers.get? key with
  | none => exact Or.inr ⟨rfl, rfl, rfl, rfl, rfl⟩
  | some peer =>
      simp only [getD_some]
      split
      · rename_i hsame
        exact Or.inl ⟨rfl, hsame⟩
      · exact Or.inr ⟨rfl, rfl, rfl, rfl, rfl⟩

theorem beginFetch_ok {key : ServerKey} {fetch : CatalogFetch}
    (h : s.beginFetch registry key = (s', .ok fetch)) :
    fetch.key = key ∧ isValidServerName fetch.origin = true ∧
      (s.peers.contains key = true ∨ s.peers.size < maxTrackedPeers) ∧
      fetch.revision = (s.fetchedPeer key fetch.origin).revision ∧
      s' = { peers := s.peers.insert key (s.fetchedPeer key fetch.origin)
             nextRevision := s.nextRevision + 2 } := by
  unfold beginFetch at h
  split at h
  · cases h
  · rename_i origin _
    split at h
    · cases h
    · rename_i hname
      split at h
      · cases h
      · rename_i hroom
        cases h
        refine ⟨rfl, by simpa using hname, ?_, rfl, rfl⟩
        rw [Bool.and_eq_true, Bool.not_eq_true', decide_eq_true_iff, not_and_or] at hroom
        rcases hroom with hin | hless
        · left
          simpa using hin
        · right
          omega

theorem revokePeer_ok {key : ServerKey} (h : s.revokePeer key = some s') :
    exists peer, s.peers.get? key = some peer ∧
      s' = { peers := s.peers.insert key { peer.hidden with revision := s.nextRevision }
             nextRevision := s.nextRevision + 1 } := by
  unfold revokePeer at h
  rcases map_eq_some_iff.mp h with ⟨peer, hpeer, rfl⟩
  exact ⟨peer, hpeer, rfl⟩

theorem nextPeers_ok {fetch : CatalogFetch} {signed : SignedCatalog} {next : Peers}
    (h : s.nextPeers cache registry fetch signed = .ok next) :
    (cache.toBytes signed).length <= maxCatalogBytes ∧
      isApprovedOrigin registry fetch.key fetch.origin = true ∧
      exists peer order, s.peers.get? fetch.key = some peer ∧ peer.revision = fetch.revision ∧
        (forall g, peer.generation = some g -> g < signed.catalog.generation) ∧
        next = trim (s.peers.insert fetch.key { peer with
          generation := some signed.catalog.generation
          signed := some signed
          bytes := (cache.toBytes signed).length
          order := order }) := by
  unfold nextPeers at h
  simp only at h
  split at h
  · cases h
  · rename_i hsize
    split at h
    · cases h
    · rename_i happroved
      split at h
      · cases h
      · rename_i peer hpeer
        rcases filter_eq_some_iff.mp hpeer with ⟨hget, hrevision⟩
        split at h
        · cases h
        · rename_i hnewer
          split at h
          · cases h
          · rename_i order _
            cases h
            refine ⟨by omega, by simpa using happroved, peer, order, hget,
              of_decide_eq_true hrevision, ?_, rfl⟩
            intro g hg
            rw [hg, any_some, decide_eq_true_iff] at hnewer
            exact UInt64.not_le.mp hnewer

end CatalogState

section Safe

open CatalogState

variable {cache : PeerCache} {s s' : CatalogState} {registry : PeerRegistry}
variable {accepted withdrawn : List (ServerKey × SignedCatalog)}

theorem Safe.beginFetch (h : Safe cache accepted withdrawn s.peers) {key : ServerKey}
    {fetch : CatalogFetch} (hbegin : s.beginFetch registry key = (s', .ok fetch)) :
    Safe cache accepted withdrawn s'.peers := by
  rcases beginFetch_ok hbegin with ⟨_, hname, hroom, _, rfl⟩
  have hcases := fetchedPeer_cases s key fetch.origin
  generalize s.fetchedPeer key fetch.origin = peer at hcases
  show Safe cache accepted withdrawn (s.peers.insert key peer)
  have hgen : peer.generation = generationOf s.peers key := by
    rcases hcases with ⟨hsame, _⟩ | ⟨_, _, _, hgen, _⟩
    · unfold generationOf
      rw [hsame]
      rfl
    · exact hgen
  have horigin : peer.origin = some fetch.origin := by
    rcases hcases with ⟨_, horigin⟩ | ⟨_, _, horigin, _, _⟩
    · exact horigin
    · exact horigin
  have hsound : peer.Sound cache key := by
    rcases hcases with ⟨hsame, _⟩ | ⟨hsigned, hbytes, _, _, _⟩
    · exact h.kept.tracked.sound key peer hsame
    · constructor
      · intro c hc
        rw [hsigned] at hc
        cases hc
      · intro c hc
        rw [hsigned] at hc
        cases hc
      · intro c hc
        rw [hsigned] at hc
        cases hc
      · rw [hbytes]
        exact Nat.zero_le _
      · exact fun _ => hbytes
      · rw [horigin]
        exact fun _ => rfl
      · intro o ho
        rw [horigin] at ho
        cases ho
        exact hname
  refine ⟨h.kept.insert hsound hroom ?_, h.marked.of_eq ?_, ?_⟩
  · rcases hcases with ⟨hsame, _⟩ | ⟨hsigned, hbytes, _, _, _⟩
    · exact Or.inr hsame
    · left
      unfold PeerCatalog.payloads
      rw [hsigned]
      exact ⟨rfl, hbytes⟩
  · intro k
    rw [generationOf_insert]
    split
    · rename_i hkey
      rw [hkey, hgen]
    · rfl
  · intro k
    apply (h.fresh k).of_signed
    intro peer' c hpeer' hc
    rw [get?_insert] at hpeer'
    split at hpeer'
    · rename_i hkey
      cases hpeer'
      rcases hcases with ⟨hsame, _⟩ | ⟨hsigned, _⟩
      · exact ⟨peer, hkey ▸ hsame, hc⟩
      · rw [hsigned] at hc
        cases hc
    · exact ⟨peer', hpeer', hc⟩

theorem Safe.revokePeer {withdrawn' : List (ServerKey × SignedCatalog)}
    (h : Safe cache accepted withdrawn s.peers) {key : ServerKey}
    (hrevoke : s.revokePeer key = some s')
    (hmore : forall k c, k ≠ key -> (k, c) ∈ withdrawn' -> (k, c) ∈ withdrawn) :
    Safe cache accepted withdrawn' s'.peers := by
  rcases revokePeer_ok hrevoke with ⟨peer, hpeer, rfl⟩
  have hin : s.peers.contains key = true := by
    unfold Dict.contains
    rw [hpeer]
    rfl
  have hhidden := (h.kept.tracked.sound key peer hpeer).hidden
  refine ⟨h.kept.insert ?_ (Or.inl hin) (Or.inl ⟨rfl, rfl⟩), h.marked.of_eq ?_, ?_⟩
  · exact ⟨hhidden.verified, hhidden.current, hhidden.sized, hhidden.small, hhidden.empty,
      hhidden.pinned, hhidden.named⟩
  · intro k
    rw [generationOf_insert]
    split
    · rename_i hkey
      unfold generationOf
      rw [hkey, hpeer]
      rfl
    · rfl
  · intro k peer' c hpeer' hc c' hmem
    rw [get?_insert] at hpeer'
    split at hpeer'
    · cases hpeer'
      cases hc
    · rename_i hkey
      exact h.fresh k peer' c hpeer' hc c' (hmore k c' hkey hmem)

/-- What is to be written for a store, and kept then. -/
structure Stored (cache : PeerCache) (accepted withdrawn : List (ServerKey × SignedCatalog))
    (s : CatalogState) (fetch : CatalogFetch) (signed : SignedCatalog) (next : Peers) :
    Prop where
  safe : Safe cache accepted withdrawn next
  verified : cache.verify signed fetch.key = true
  current : exists peer, s.peers.get? fetch.key = some peer ∧ peer.revision = fetch.revision
  newer : forall g, generationOf s.peers fetch.key = some g -> g < signed.catalog.generation
  watermark : generationOf next fetch.key = some signed.catalog.generation
  same : forall k peer', next.get? k = some peer' -> exists peer, s.peers.get? k = some peer ∧
    peer'.revision = peer.revision ∧ peer'.origin = peer.origin

theorem Safe.nextPeers (h : Safe cache accepted withdrawn s.peers) {fetch : CatalogFetch}
    {signed : SignedCatalog} {next : Peers}
    (hwithdrawn : forall entry, entry ∈ withdrawn -> entry ∈ accepted)
    (hverified : cache.verify signed fetch.key = true)
    (horigin : forall peer, s.peers.get? fetch.key = some peer ->
      peer.revision = fetch.revision -> peer.origin = some fetch.origin)
    (hnext : s.nextPeers cache registry fetch signed = .ok next) :
    Stored cache accepted withdrawn s fetch signed next := by
  rcases nextPeers_ok hnext with ⟨hsize, _, peer, order, hpeer, hrevision, hnewer, rfl⟩
  have hold := h.kept.tracked.sound fetch.key peer hpeer
  have hpinned := horigin peer hpeer hrevision
  have hgeneration : generationOf s.peers fetch.key = peer.generation := by
    unfold generationOf
    rw [hpeer]
    rfl
  generalize hq : ({ peer with
    generation := some signed.catalog.generation
    signed := some signed
    bytes := (cache.toBytes signed).length
    order := order } : PeerCatalog) = q
  have hqgen : q.generation = some signed.catalog.generation := hq ▸ rfl
  have hqsigned : q.signed = some signed := hq ▸ rfl
  have hqbytes : q.bytes = (cache.toBytes signed).length := hq ▸ rfl
  have hqorigin : q.origin = peer.origin := hq ▸ rfl
  have hqrevision : q.revision = peer.revision := hq ▸ rfl
  have hsound : q.Sound cache fetch.key := by
    constructor
    · intro c hc
      rw [hqsigned] at hc
      cases hc
      exact hverified
    · intro c hc
      rw [hqsigned] at hc
      cases hc
      exact hqgen
    · intro c hc
      rw [hqsigned] at hc
      cases hc
      exact hqbytes
    · rw [hqbytes]
      exact hsize
    · rw [hqsigned]
      exact fun hnone => nomatch hnone
    · rw [hqorigin, hpinned]
      exact fun _ => rfl
    · rw [hqorigin]
      exact hold.named
  have hin : s.peers.contains fetch.key = true := by
    unfold Dict.contains
    rw [hpeer]
    rfl
  have hnewest : forall c, (fetch.key, c) ∈ accepted ->
      c.catalog.generation < signed.catalog.generation := by
    intro c hmem
    rcases h.marked fetch.key c hmem with ⟨g, hg, hle⟩
    rw [hgeneration] at hg
    exact UInt64.lt_of_le_of_lt hle (hnewer g hg)
  rcases trim_ok (h.kept.tracked.insert hsound (Or.inl hin)) with ⟨hkept, htrimmed⟩
  refine ⟨⟨hkept, ?_, ?_⟩, hverified, ⟨peer, hpeer, hrevision⟩, ?_, ?_, ?_⟩
  · intro k c hmem
    rw [htrimmed.generationOf, generationOf_insert]
    split
    · rename_i hkey
      refine ⟨signed.catalog.generation, hqgen, ?_⟩
      exact UInt64.le_of_lt (hnewest c (hkey ▸ hmem))
    · exact h.marked k c hmem
  · intro k peer' c hpeer' hc c' hmem
    rcases htrimmed.peer hpeer' with ⟨inserted, hinserted, _, _, hsame⟩
    rw [get?_insert] at hinserted
    have hc' := hsame c hc
    split at hinserted
    · rename_i hkey
      cases hinserted
      rw [hqsigned] at hc'
      cases hc'
      exact hnewest c' (hkey ▸ hwithdrawn _ hmem)
    · exact h.fresh k inserted c hinserted hc' c' hmem
  · intro g hg
    rw [hgeneration] at hg
    exact hnewer g hg
  · rw [htrimmed.generationOf, generationOf_insert, if_pos rfl, hqgen]
  · intro k peer' hpeer'
    rcases htrimmed.peer hpeer' with ⟨inserted, hinserted, hrev, horig, _⟩
    rw [get?_insert] at hinserted
    split at hinserted
    · rename_i hkey
      cases hinserted
      exact ⟨peer, hkey ▸ hpeer, hrev.trans hqrevision, horig.trans hqorigin⟩
    · exact ⟨inserted, hinserted, hrev, horig⟩

/-- What a start makes of the file: payloads that are not fresh are of keys that are not
approved, and stay hidden. -/
theorem Safe.loadPeers {saved : Peers} {bytes : Bytes} (hkept : Kept cache saved)
    (hmarked : Marked accepted saved)
    (hfresh : forall key, registry.isApproved key = true -> Fresh withdrawn saved key)
    (hwrite : cache.write saved = .ok bytes) (revision : Nat) : Safe cache accepted withdrawn
        (CatalogState.loadPeers cache ⟨Dict.empty, revision⟩ registry (some bytes)).peers ∧
      Allocated (CatalogState.loadPeers cache ⟨Dict.empty, revision⟩ registry (some bytes)) ∧
      revision <= (CatalogState.loadPeers cache ⟨Dict.empty, revision⟩ registry
        (some bytes)).nextRevision := by
  rcases PeerCache.read_write hkept hwrite revision with ⟨peers, hread, hsame, hkept', hrevs⟩
  have hload : CatalogState.loadPeers cache ⟨Dict.empty, revision⟩ registry (some bytes) =
      { peers := peers.mapValues (fun key peer =>
          if isApproved registry key peer then peer else peer.hidden)
        nextRevision := revision + peers.size } := by
    unfold CatalogState.loadPeers PeerCache.read
    rw [show (Dict.empty : Peers).isEmpty = true from rfl]
    simp only [Bool.not_true, Bool.false_eq_true, if_false]
    rw [hread]
  rw [hload]
  refine ⟨⟨hkept'.hide _, ?_, ?_⟩, ?_, Nat.le_add_right _ _⟩
  · apply hmarked.of_eq
    intro k
    rw [← hsame.generationOf k]
    unfold generationOf
    rw [get?_mapValues]
    cases peers.get? k with
    | none => rfl
    | some peer =>
        simp only [map_some, bind_some]
        split
        · rfl
        · rfl
  · intro k peer' c hpeer' hc
    rw [get?_mapValues] at hpeer'
    rcases map_eq_some_iff.mp hpeer' with ⟨peer, hpeer, rfl⟩
    split at hc
    · rename_i happroved
      rcases hsame.peer hpeer with ⟨old, hold, hdata⟩
      refine hfresh k ?_ old c hold ((congrArg PeerData.signed hdata).symm.trans hc)
      unfold isApproved at happroved
      cases horigin : peer.origin with
      | none =>
          rw [horigin] at happroved
          cases happroved
      | some origin =>
          rw [horigin, map_some, getD_some] at happroved
          unfold isApprovedOrigin at happroved
          unfold PeerRegistry.isApproved
          cases hrecord : registry.inner.get? k with
          | none =>
              rw [hrecord] at happroved
              cases happroved
          | some record =>
              rw [hrecord] at happroved
              simp only [Bool.and_eq_true] at happroved
              exact happroved.left
    · cases hc
  · intro k peer' hpeer'
    simp only [get?_mapValues] at hpeer'
    rcases map_eq_some_iff.mp hpeer' with ⟨peer, hpeer, rfl⟩
    have hrev := hrevs k peer hpeer
    split
    · exact hrev
    · exact hrev

end Safe

end Rabbithole.FedCatalog
