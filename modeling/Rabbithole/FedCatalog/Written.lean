import Rabbithole.FedCatalog.Kept

/-!
# A written cache reads back

Peers in order are written as records that pass every check of the reader: it finds the
same peers again, under new revisions, without those that have sent nothing yet.
-/

namespace Rabbithole.FedCatalog

open Foundation Federation List Option Dict

/-- What is in a cache of a peer: everything but the allocation. -/
structure PeerData where
  origin : Option String
  generation : Option UInt64
  signed : Option SignedCatalog
  bytes : Nat
  order : UInt64
deriving DecidableEq

def PeerCatalog.data (peer : PeerCatalog) : PeerData where
  origin := peer.origin
  generation := peer.generation
  signed := peer.signed
  bytes := peer.bytes
  order := peer.order

def PeerCatalog.heard (peer : PeerCatalog) : Bool :=
  peer.generation.isSome

/-- The same peers, of those that were heard of. -/
def SameHeard (peers read : Peers) : Prop :=
  forall key, (read.get? key).map PeerCatalog.data =
    ((peers.get? key).filter PeerCatalog.heard).map PeerCatalog.data

theorem SameHeard.peer {peers peers' : Peers} (h : SameHeard peers peers') {k : ServerKey} {peer' : PeerCatalog}
    (hpeer' : peers'.get? k = some peer') :
    exists peer, peers.get? k = some peer ∧ peer'.data = peer.data := by
  have hsame := h k
  rw [hpeer', map_some] at hsame
  rcases map_eq_some_iff.mp hsame.symm with ⟨peer, hpeer, hdata⟩
  exact ⟨peer, (filter_eq_some_iff.mp hpeer).left, hdata.symm⟩

theorem PeerCatalog.Sound.of_data {cache : PeerCache} {key : ServerKey} {peer peer' : PeerCatalog}
    (h : peer.Sound cache key) (hdata : peer'.data = peer.data) : peer'.Sound cache key := by
  have horigin : peer'.origin = peer.origin := congrArg PeerData.origin hdata
  have hgeneration : peer'.generation = peer.generation := congrArg PeerData.generation hdata
  have hsigned : peer'.signed = peer.signed := congrArg PeerData.signed hdata
  have hbytes : peer'.bytes = peer.bytes := congrArg PeerData.bytes hdata
  constructor
  · rw [hsigned]
    exact h.verified
  · rw [hsigned, hgeneration]
    exact h.current
  · rw [hsigned, hbytes]
    exact h.sized
  · rw [hbytes]
    exact h.small
  · rw [hsigned, hbytes]
    exact h.empty
  · rw [hgeneration, horigin]
    exact h.pinned
  · rw [horigin]
    exact h.named

namespace PeerCache

variable {cache : PeerCache}

/-- The record of a peer. -/
def recordOf (entry : ServerKey × PeerCatalog) : Option Record :=
  match entry.snd.generation, entry.snd.origin with
  | some generation, some origin => some {
      key := entry.fst, origin := origin, generation := generation,
      order := entry.snd.order, signed := entry.snd.signed }
  | _, _ => none

theorem toRecords_eq {entries : List (ServerKey × PeerCatalog)}
    (h : forall entry, entry ∈ entries -> entry.snd.generation.isSome = true ->
      entry.snd.origin.isSome = true) : toRecords entries = .ok (entries.filterMap recordOf) := by
  induction entries with
  | nil => rfl
  | cons entry rest ih =>
      rcases entry with ⟨key, peer⟩
      have hfirst := h (key, peer) mem_cons_self
      unfold toRecords toRecord
      rw [ih (fun other hother => h other (mem_cons_of_mem _ hother)), filterMap_cons]
      unfold recordOf
      simp only at hfirst ⊢
      cases hgen : peer.generation with
      | none => rfl
      | some generation =>
          rw [hgen] at hfirst
          rcases isSome_iff_exists.mp (hfirst rfl) with ⟨origin, horigin⟩
          rw [horigin]
          rfl

/-- A record that the reader takes, and the peer it stands for. -/
structure Readable (cache : PeerCache) (record : Record) (peer : PeerCatalog) : Prop where
  origin : peer.origin = some record.origin
  generation : peer.generation = some record.generation
  signed : peer.signed = record.signed
  order : peer.order = record.order
  sound : peer.Sound cache record.key

variable {peer : PeerCatalog} {record : Record} {peers : Peers} {key : ServerKey}

theorem readable_of_recordOf {entry : ServerKey × PeerCatalog}
    (hsound : entry.snd.Sound cache entry.fst) (h : recordOf entry = some record) :
    record.key = entry.fst ∧ Readable cache record entry.snd := by
  unfold recordOf at h
  split at h
  · rename_i generation origin hgen horigin
    cases h
    exact ⟨rfl, horigin, hgen, rfl, rfl, hsound⟩
  · cases h

theorem Readable.payloadSize (h : Readable cache record peer) :
    cache.payloadSize record = .ok peer.bytes := by
  unfold PeerCache.payloadSize
  cases hsigned : record.signed with
  | none =>
      rw [h.sound.empty (h.signed.trans hsigned)]
  | some c =>
      have hpayload := h.signed.trans hsigned
      have hverified := h.sound.verified c hpayload
      have hcurrent := h.sound.current c hpayload
      rw [h.generation] at hcurrent
      have hsmall := h.sound.small
      rw [h.sound.sized c hpayload] at hsmall ⊢
      simp only [hverified, Bool.not_true, Bool.false_eq_true, if_false]
      rw [if_neg (by rw [Option.some.inj hcurrent]; simp), if_neg (by omega)]

theorem Readable.load (h : Readable cache record peer) {loading : Loading}
    (hnew : loading.peers.get? record.key = none) (first : Nat) :
    cache.load first loading record = .ok {
      peers := loading.peers.insert record.key
        (record.peer (first + loading.peers.size) peer.bytes)
      payloadCount := loading.payloadCount + peer.payloads
      payloadBytes := loading.payloadBytes + peer.bytes } := by
  have hcontains : loading.peers.contains record.key = false := by
    unfold Dict.contains
    rw [hnew]
    rfl
  unfold PeerCache.load
  rw [h.sound.named record.origin h.origin, hcontains, h.payloadSize]
  unfold PeerCatalog.payloads
  rw [h.signed]
  rfl

theorem Readable.data (h : Readable cache record peer) (revision : Nat) :
    (record.peer revision peer.bytes).data = peer.data := by
  unfold PeerCatalog.data Record.peer
  rw [h.origin, h.generation, h.signed, h.order]

/-- What has been read in so far: every peer has a revision from those given out, and the
payloads have been counted. -/
structure Counted (first : Nat) (loading : Loading) : Prop where
  revisions : forall key peer, loading.peers.get? key = some peer ->
    peer.revision < first + loading.peers.size
  count : loading.peers.sum PeerCatalog.payloads = loading.payloadCount
  bytes : loading.peers.sum PeerCatalog.bytes = loading.payloadBytes

theorem counted_empty (first : Nat) : Counted first ⟨Dict.empty, 0, 0⟩ where
  revisions := fun _ _ hnone => nomatch hnone
  count := rfl
  bytes := rfl

theorem size_insert_new (hnew : peers.get? key = none) (peer : PeerCatalog) :
    (peers.insert key peer).size = peers.size + 1 := by
  have hsize := size_insert peers key peer
  have hcontains : peers.contains key = false := by
    unfold Dict.contains
    rw [hnew]
    rfl
  rw [hcontains, if_neg Bool.false_ne_true] at hsize
  exact hsize

theorem Counted.insert {first : Nat} {loading : Loading} (h : Counted first loading)
    (hnew : loading.peers.get? key = none) (hrev : peer.revision = first + loading.peers.size) :
    Counted first ⟨loading.peers.insert key peer, loading.payloadCount + peer.payloads,
      loading.payloadBytes + peer.bytes⟩ := by
  have hsize := size_insert_new hnew peer
  constructor
  · intro k q hq
    rw [get?_insert] at hq
    rw [hsize]
    split at hq
    · cases hq
      omega
    · have hold := h.revisions k q hq
      omega
  · have hsum := sum_insert_add PeerCatalog.payloads loading.peers key peer
    rw [hnew, h.count] at hsum
    exact hsum
  · have hsum := sum_insert_add PeerCatalog.bytes loading.peers key peer
    rw [hnew, h.bytes] at hsum
    exact hsum

/-- Records with keys of their own are loaded, each as its peer. -/
theorem loadAll_ok (first : Nat) {records : List (Record × PeerCatalog)} {loading : Loading}
    (hread : forall entry, entry ∈ records -> Readable cache entry.fst entry.snd)
    (hnodup : (records.map (fun entry => entry.fst.key)).Nodup)
    (hnew : forall entry, entry ∈ records -> loading.peers.get? entry.fst.key = none)
    (hcounted : Counted first loading) :
    exists loaded, cache.loadAll first loading (records.map Prod.fst) = .ok loaded ∧
      (forall entry, entry ∈ records ->
        (loaded.peers.get? entry.fst.key).map PeerCatalog.data = some entry.snd.data) ∧
      (forall key, key ∉ records.map (fun entry => entry.fst.key) ->
        loaded.peers.get? key = loading.peers.get? key) ∧
      Counted first loaded ∧
      loaded.peers.size = loading.peers.size + records.length ∧
      loaded.payloadCount =
        loading.payloadCount + (records.map (fun entry => entry.snd.payloads)).sum ∧
      loaded.payloadBytes =
        loading.payloadBytes + (records.map (fun entry => entry.snd.bytes)).sum := by
  induction records generalizing loading with
  | nil =>
      exact ⟨loading, rfl, fun _ hentry => absurd hentry not_mem_nil, fun _ _ => rfl,
        hcounted, rfl, rfl, rfl⟩
  | cons entry rest ih =>
      rcases entry with ⟨record, peer⟩
      have hr : Readable cache record peer := hread (record, peer) mem_cons_self
      have hn : loading.peers.get? record.key = none := hnew (record, peer) mem_cons_self
      have hload := hr.load hn first
      rw [map_cons, nodup_cons] at hnodup
      have hinsert := hcounted.insert hn
        (show (record.peer (first + loading.peers.size) peer.bytes).revision = _ from rfl)
      have hdata := hr.data (first + loading.peers.size)
      generalize record.peer (first + loading.peers.size) peer.bytes = q at hload hinsert hdata
      have hpayloads : q.payloads = peer.payloads := by
        unfold PeerCatalog.payloads
        rw [show q.signed = peer.signed from congrArg PeerData.signed hdata]
      rw [hpayloads, show q.bytes = peer.bytes from congrArg PeerData.bytes hdata] at hinsert
      have hnew' : forall other, other ∈ rest ->
          (loading.peers.insert record.key q).get? other.fst.key = none := by
        intro other hin
        rw [get?_insert, if_neg]
        · exact hnew other (mem_cons_of_mem _ hin)
        · intro heq
          exact hnodup.left (mem_map.mpr ⟨other, hin, heq⟩)
      rcases @ih ⟨loading.peers.insert record.key q, loading.payloadCount + peer.payloads,
        loading.payloadBytes + peer.bytes⟩
        (fun other hin => hread other (mem_cons_of_mem _ hin)) hnodup.right hnew' hinsert
        with ⟨loaded, hloaded, hrecords, hothers, hlast, hsize, hcount, hbytes⟩
      refine ⟨loaded, ?_, ?_, ?_, hlast, ?_, ?_, ?_⟩
      · rw [map_cons]
        unfold PeerCache.loadAll
        rw [hload]
        exact hloaded
      · intro other hin
        rcases mem_cons.mp hin with rfl | hin
        · rw [hothers record.key hnodup.left, get?_insert, if_pos rfl, map_some, hdata]
        · exact hrecords other hin
      · intro key hkey
        rw [map_cons, mem_cons, not_or] at hkey
        rw [hothers key hkey.right, get?_insert, if_neg hkey.left]
      · rw [hsize, length_cons, size_insert_new hn q]
        omega
      · rw [hcount, map_cons, sum_cons, Nat.add_assoc]
      · rw [hbytes, map_cons, sum_cons, Nat.add_assoc]

def written (peers : Peers) : List (Record × PeerCatalog) :=
  peers.entries.filterMap (fun entry => (recordOf entry).map (fun record => (record, entry.snd)))

theorem map_fst_written (peers : Peers) :
    (written peers).map Prod.fst = peers.entries.filterMap recordOf := by
  unfold written
  rw [map_filterMap]
  congr 1
  funext entry
  rw [Option.map_map]
  exact Option.map_id'

theorem mem_written (h : Tracked cache peers) (hmem : (record, peer) ∈ written peers) :
    peers.get? record.key = some peer ∧ Readable cache record peer := by
  rcases mem_filterMap.mp hmem with ⟨entry, hentry, hrecord⟩
  rcases map_eq_some_iff.mp hrecord with ⟨r, hr, heq⟩
  cases heq
  have hpeer := get?_eq_some_iff.mpr hentry
  rcases readable_of_recordOf (h.sound _ _ hpeer) hr with ⟨hkey, hreadable⟩
  rw [hkey]
  exact ⟨hpeer, hreadable⟩

theorem written_of_heard (h : Tracked cache peers) (hpeer : peers.get? key = some peer)
    (hheard : peer.heard = true) :
    exists record, (record, peer) ∈ written peers ∧ record.key = key := by
  rcases isSome_iff_exists.mp hheard with ⟨generation, hgen⟩
  rcases isSome_iff_exists.mp ((h.sound key peer hpeer).pinned hheard)
    with ⟨origin, horigin⟩
  refine ⟨⟨key, origin, generation, peer.order, peer.signed⟩, ?_, rfl⟩
  refine mem_filterMap.mpr ⟨(key, peer), get?_eq_some_iff.mp hpeer, ?_⟩
  unfold recordOf
  simp only [hgen, horigin, map_some]

theorem nodup_written (peers : Peers) :
    ((written peers).map (fun entry => entry.fst.key)).Nodup := by
  have hsub : forall entries : List (ServerKey × PeerCatalog), ((entries.filterMap (fun entry =>
        (recordOf entry).map (fun record => (record, entry.snd)))).map
          (fun entry => entry.fst.key)).Sublist (entries.map Prod.fst) := by
    intro entries
    induction entries with
    | nil => exact Sublist.refl _
    | cons entry rest ih =>
        rw [filterMap_cons]
        cases hrecord : recordOf entry with
        | none => exact Sublist.cons _ ih
        | some record =>
            have hkey : record.key = entry.fst := by
              unfold recordOf at hrecord
              split at hrecord
              · cases hrecord
                rfl
              · cases hrecord
            rw [map_some]
            simp only [map_cons]
            rw [hkey]
            exact ih.cons_cons _
  exact peers.nodup.sublist (hsub peers.entries)

theorem sum_written_le (measure : PeerCatalog -> Nat) (peers : Peers) :
    ((written peers).map (fun entry => measure entry.snd)).sum <= peers.sum measure := by
  unfold written Dict.sum
  induction peers.entries with
  | nil => exact Nat.le_refl _
  | cons entry rest ih =>
      rw [filterMap_cons, map_cons, sum_cons]
      cases recordOf entry with
      | none => exact ih.trans (Nat.le_add_left _ _)
      | some record =>
          rw [map_some]
          simp only [map_cons, sum_cons]
          exact Nat.add_le_add_left ih _

/-- A cache that was written is read: the same peers, under revisions of their own. -/
theorem read_write (h : Kept cache peers) {bytes : Bytes} (hwrite : cache.write peers = .ok bytes)
    (first : Nat) :
    exists read, cache.readBytes first bytes = .ok read ∧ SameHeard peers read ∧
      Kept cache read ∧
      forall key peer, read.get? key = some peer -> peer.revision < first + read.size := by
  have hrecords : toRecords peers.entries = .ok (peers.entries.filterMap recordOf) := by
    apply toRecords_eq
    intro entry hentry
    exact (h.tracked.sound _ _ (get?_eq_some_iff.mpr hentry)).pinned
  -- The records are sorted, and the peers beside them.
  have hsorted : ((written peers).mergeSort (fun a b => keyBefore a.fst b.fst)).map Prod.fst =
      (peers.entries.filterMap recordOf).mergeSort keyBefore := by
    rw [← map_fst_written]
    exact map_mergeSort (fun _ _ _ _ => rfl)
  have hperm := mergeSort_perm (written peers) (fun a b => keyBefore a.fst b.fst)
  generalize (written peers).mergeSort (fun a b => keyBefore a.fst b.fst) = records
    at hsorted hperm
  rcases @loadAll_ok cache first records ⟨Dict.empty, 0, 0⟩
    (fun entry hentry => (mem_written h.tracked (hperm.mem_iff.mp hentry)).right)
    ((hperm.map _).nodup_iff.mpr (nodup_written peers)) (fun _ _ => rfl)
    (counted_empty first)
    with ⟨loaded, hload, hread, hothers, hcounted, hsize, hcount, hbytes⟩
  rw [hsorted] at hload
  have hlength : ((peers.entries.filterMap recordOf).mergeSort keyBefore).length <=
      maxTrackedPeers := by
    rw [length_mergeSort]
    exact (length_filterMap_le _ _).trans h.tracked.size
  have hfew : loaded.peers.size <= maxTrackedPeers := by
    have hrecorded := hlength
    rw [← hsorted, length_map] at hrecorded
    rw [hsize]
    exact (Nat.zero_add _).le.trans hrecorded
  have hcounts : loaded.payloadCount <= maxCachedCatalogs := by
    rw [hcount, Nat.zero_add, (hperm.map _).sum_eq]
    exact (sum_written_le _ peers).trans h.count
  have hsizes : loaded.payloadBytes <= maxCachedBytes := by
    rw [hbytes, Nat.zero_add, (hperm.map _).sum_eq]
    exact (sum_written_le _ peers).trans h.bytes
  unfold PeerCache.write at hwrite
  rw [hrecords] at hwrite
  simp only at hwrite
  generalize (peers.entries.filterMap recordOf).mergeSort keyBefore = sorted
    at hwrite hload hlength
  generalize hbody : (Wire.snapshot cache.postcard).encode ⟨1, sorted⟩ = body at hwrite
  split at hwrite
  · cases hwrite
  · rename_i hfits
    cases hwrite
    have htotal : ((Codec.array signatureBytes).encode
        (cache.identity.sign (cacheContext ++ body)) ++ body).length =
          signatureBytes + body.length := by
      rw [length_append]
      exact congrArg (· + body.length) (Codec.length_littleEndian signatureBytes _)
    have hsplit : (Codec.array signatureBytes).decode ((Codec.array signatureBytes).encode
        (cache.identity.sign (cacheContext ++ body)) ++ body) =
          some (cache.identity.sign (cacheContext ++ body), body) := Codec.decode_encode _ _ _
    have hsame : SameHeard peers loaded.peers := by
      intro key
      by_cases hin : key ∈ records.map (fun entry => entry.fst.key)
      · rcases mem_map.mp hin with ⟨⟨record, peer⟩, hmem, rfl⟩
        rcases mem_written h.tracked (hperm.mem_iff.mp hmem) with ⟨hpeer, hreadable⟩
        have hheard : peer.heard = true := by
          unfold PeerCatalog.heard
          rw [hreadable.generation]
          rfl
        rw [hread _ hmem, hpeer, filter_some, if_pos hheard]
        rfl
      · rw [hothers key hin]
        cases hpeer : peers.get? key with
        | none => rfl
        | some peer =>
            rw [filter_some, if_neg]
            · rfl
            · intro hheard
              rcases written_of_heard h.tracked hpeer hheard with ⟨record, hmem, rfl⟩
              exact hin (mem_map.mpr ⟨_, hperm.mem_iff.mpr hmem, rfl⟩)
    refine ⟨loaded.peers, ?_, hsame, ⟨⟨?_, hfew⟩, ?_, ?_⟩, hcounted.revisions⟩
    · unfold readBytes
      rw [htotal, if_neg (by omega), hsplit]
      simp only [cache.verifies, Bool.not_true, Bool.false_eq_true, if_false]
      rw [← hbody, Codec.fromBytes_encode]
      simp only
      rw [if_neg (by simp only [ne_eq, not_true_eq_false, false_or]; omega), hload]
      simp only
      rw [if_neg (by omega)]
    · intro key peer hpeer
      rcases hsame.peer hpeer with ⟨old, hold, hdata⟩
      exact (h.tracked.sound key old hold).of_data hdata
    · rw [hcounted.count]
      exact hcounts
    · rw [hcounted.bytes]
      exact hsizes

end PeerCache

end Rabbithole.FedCatalog
