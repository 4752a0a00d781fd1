import Rabbithole.FedCatalog.Runs

/-!
# What is kept

A payload verifies under its key and is of the peer's last generation; the payloads are few
and small enough.  Peers are only ever hidden, fetched of, or given a newer catalog.
-/

namespace Rabbithole.FedCatalog

open Foundation Federation List Dict

def PeerCatalog.payloads (peer : PeerCatalog) : Nat :=
  if peer.signed.isSome then 1 else 0

structure PeerCatalog.Sound (cache : PeerCache) (key : ServerKey) (peer : PeerCatalog) : Prop where
  verified : forall c, peer.signed = some c -> cache.verify c key = true
  current : forall c, peer.signed = some c -> peer.generation = some c.catalog.generation
  sized : forall c, peer.signed = some c -> peer.bytes = (cache.toBytes c).length
  small : peer.bytes <= maxCatalogBytes
  empty : peer.signed = none -> peer.bytes = 0
  pinned : peer.generation.isSome = true -> peer.origin.isSome = true
  named : forall o, peer.origin = some o -> isValidServerName o = true

/-- Every peer in order, and not too many of them. -/
structure Tracked (cache : PeerCache) (peers : Peers) : Prop where
  sound : forall key peer, peers.get? key = some peer -> peer.Sound cache key
  size : peers.size <= maxTrackedPeers

structure Kept (cache : PeerCache) (peers : Peers) : Prop where
  tracked : Tracked cache peers
  count : peers.sum PeerCatalog.payloads <= maxCachedCatalogs
  bytes : peers.sum PeerCatalog.bytes <= maxCachedBytes

section Kept

variable {cache : PeerCache} {key : ServerKey} {peer : PeerCatalog} {peers : Peers}

theorem PeerCatalog.Sound.hidden (h : peer.Sound cache key) : peer.hidden.Sound cache key where
  verified := fun _ hc => nomatch hc
  current := fun _ hc => nomatch hc
  sized := fun _ hc => nomatch hc
  small := Nat.zero_le _
  empty := fun _ => rfl
  pinned := h.pinned
  named := h.named

theorem Tracked.insert (h : Tracked cache peers) (hpeer : peer.Sound cache key)
    (hroom : peers.contains key = true ∨ peers.size < maxTrackedPeers) :
    Tracked cache (peers.insert key peer) := by
  constructor
  · intro k q hq
    rw [get?_insert] at hq
    split at hq
    · rename_i hkey
      cases hq
      rw [hkey]
      exact hpeer
    · exact h.sound k q hq
  · have hsize := size_insert peers key peer
    have hold := h.size
    rcases hroom with hin | hless
    · rw [if_pos hin] at hsize
      omega
    · omega

theorem Kept.insert (h : Kept cache peers) (hpeer : peer.Sound cache key)
    (hroom : peers.contains key = true ∨ peers.size < maxTrackedPeers)
    (hlight : peer.payloads = 0 ∧ peer.bytes = 0 ∨ peers.get? key = some peer) :
    Kept cache (peers.insert key peer) := by
  refine ⟨h.tracked.insert hpeer hroom, ?_, ?_⟩
  · have hsum := sum_insert_add PeerCatalog.payloads peers key peer
    have hold := h.count
    rcases hlight with hnone | hsame
    · omega
    · rw [hsame] at hsum
      simp only [Option.map_some, Option.getD_some] at hsum
      omega
  · have hsum := sum_insert_add PeerCatalog.bytes peers key peer
    have hold := h.bytes
    rcases hlight with hnone | hsame
    · omega
    · rw [hsame] at hsum
      simp only [Option.map_some, Option.getD_some] at hsum
      omega

theorem kept_empty : Kept cache Dict.empty where
  tracked := {
    sound := fun _ _ hnone => nomatch hnone
    size := Nat.zero_le _ }
  count := Nat.zero_le _
  bytes := Nat.zero_le _

theorem Kept.hide (h : Kept cache peers) (keep : ServerKey -> PeerCatalog -> Bool) :
    Kept cache (peers.mapValues (fun k q => if keep k q then q else q.hidden)) := by
  have hpayloads : forall q : PeerCatalog, q.hidden.payloads <= q.payloads :=
    fun _ => Nat.zero_le _
  have hbytes : forall q : PeerCatalog, q.hidden.bytes <= q.bytes := fun _ => Nat.zero_le _
  refine ⟨⟨?_, ?_⟩, ?_, ?_⟩
  · intro k q hq
    rw [get?_mapValues, Option.map_eq_some_iff] at hq
    rcases hq with ⟨old, hold, rfl⟩
    split
    · exact h.tracked.sound k old hold
    · exact (h.tracked.sound k old hold).hidden
  · exact (size_filterMap_le _ peers).trans h.tracked.size
  · refine (sum_filterMap_le peers ?_).trans h.count
    intro k q q' heq
    cases heq
    show (if keep k q then q else q.hidden).payloads <= q.payloads
    split
    · exact Nat.le_refl _
    · exact hpayloads q
  · refine (sum_filterMap_le peers ?_).trans h.bytes
    intro k q q' heq
    cases heq
    show (if keep k q then q else q.hidden).bytes <= q.bytes
    split
    · exact Nat.le_refl _
    · exact hbytes q

/-!
## Trimming
-/

/-- What trimming leaves of a peer. -/
def Trimmed (peers peers' : Peers) : Prop :=
  forall key, peers'.get? key = peers.get? key ∨
    exists peer, peers.get? key = some peer ∧ peers'.get? key = some peer.hidden

theorem Trimmed.trans {peers' peers'' : Peers} (h : Trimmed peers peers')
    (h' : Trimmed peers' peers'') : Trimmed peers peers'' := by
  intro key
  rcases h key with hsame | ⟨peer, hold, hhidden⟩
  · rcases h' key with hsame' | ⟨peer, hold, hhidden⟩
    · exact Or.inl (hsame'.trans hsame)
    · exact Or.inr ⟨peer, hsame ▸ hold, hhidden⟩
  · right
    refine ⟨peer, hold, ?_⟩
    rcases h' key with hsame' | ⟨peer', hold', hhidden'⟩
    · rw [hsame', hhidden]
    · rw [hhidden] at hold'
      cases hold'
      exact hhidden'

/-- What is left to let go are the peers with payloads. -/
structure Trimming (peers : Peers) (rest : List (UInt64 × ServerKey × Nat)) : Prop where
  nodup : (rest.map (fun entry => entry.snd.fst)).Nodup
  there : forall entry, entry ∈ rest -> exists peer, peers.get? entry.snd.fst = some peer ∧
    peer.signed.isSome = true ∧ peer.bytes = entry.snd.snd
  count : peers.sum PeerCatalog.payloads = rest.length
  bytes : peers.sum PeerCatalog.bytes = (rest.map (fun entry => entry.snd.snd)).sum

theorem trimFrom_ok {rest : List (UInt64 × ServerKey × Nat)} (h : Tracked cache peers)
    (ht : Trimming peers rest) :
    Kept cache (trimFrom rest rest.length (rest.map (fun entry => entry.snd.snd)).sum peers) ∧
      Trimmed peers
        (trimFrom rest rest.length (rest.map (fun entry => entry.snd.snd)).sum peers) := by
  induction rest generalizing peers with
  | nil =>
      refine ⟨⟨h, ?_, ?_⟩, fun _ => Or.inl rfl⟩
      · rw [show trimFrom [] _ _ peers = peers from rfl, ht.count]
        exact Nat.zero_le _
      · rw [show trimFrom [] _ _ peers = peers from rfl, ht.bytes]
        exact Nat.zero_le _
  | cons entry rest ih =>
      rcases entry with ⟨order, k, size⟩
      rcases ht.there _ mem_cons_self with ⟨q, hq, hsigned, hbytes⟩
      have hnodup := nodup_cons.mp ht.nodup
      have hcount := ht.count
      have hsum := ht.bytes
      unfold trimFrom
      split
      · rename_i hfits
        refine ⟨⟨h, ?_, ?_⟩, fun _ => Or.inl rfl⟩
        · rw [hcount]
          exact hfits.left
        · rw [hsum]
          exact hfits.right
      · rw [length_cons, Nat.add_sub_cancel, map_cons, sum_cons,
          Nat.add_sub_cancel_left]
        simp only [hq]
        have hone : q.payloads = 1 := if_pos hsigned
        have hcount' := sum_insert_add PeerCatalog.payloads peers k q.hidden
        have hbytes' := sum_insert_add PeerCatalog.bytes peers k q.hidden
        rw [hq, Option.map_some, Option.getD_some] at hcount' hbytes'
        have hzero : q.hidden.payloads = 0 := rfl
        have hzero' : q.hidden.bytes = 0 := rfl
        simp only [] at hbytes
        rw [length_cons] at hcount
        rw [map_cons, sum_cons] at hsum
        simp only [] at hsum
        have hin : peers.contains k = true := by
          unfold Dict.contains
          rw [hq]
          rfl
        rcases ih (h.insert (h.sound k q hq).hidden (Or.inl hin)) {
          nodup := hnodup.right
          there := by
            intro other hother
            rcases ht.there other (mem_cons_of_mem _ hother) with ⟨q', hq', hrest⟩
            refine ⟨q', ?_, hrest⟩
            rw [get?_insert, if_neg]
            · exact hq'
            · intro heq
              exact hnodup.left (mem_map.mpr ⟨other, hother, heq⟩)
          count := by omega
          bytes := by omega } with ⟨hkept, htrimmed⟩
        refine ⟨hkept, Trimmed.trans ?_ htrimmed⟩
        intro k'
        rw [get?_insert]
        by_cases hkey : k' = k
        · right
          exact ⟨q, hkey ▸ hq, if_pos hkey⟩
        · exact Or.inl (if_neg hkey)

theorem trimming_retained (h : Tracked cache peers) : Trimming peers (retained peers) := by
  have hpayloads : forall entries : List (ServerKey × PeerCatalog),
      (entries.map (fun entry => entry.snd.payloads)).sum =
        (entries.filter (fun entry => entry.snd.signed.isSome)).length := by
    intro entries
    induction entries with
    | nil => rfl
    | cons entry rest ih =>
        rw [map_cons, sum_cons, ih]
        unfold PeerCatalog.payloads
        rw [filter_cons]
        split
        · rw [length_cons, Nat.add_comm]
        · exact Nat.zero_add _
  have hbytes : forall entries : List (ServerKey × PeerCatalog),
      (forall entry, entry ∈ entries -> entry.snd.signed = none -> entry.snd.bytes = 0) ->
      (entries.map (fun entry => entry.snd.bytes)).sum =
        ((entries.filter (fun entry => entry.snd.signed.isSome)).map
          (fun entry => entry.snd.bytes)).sum := by
    intro entries hempty
    induction entries with
    | nil => rfl
    | cons entry rest ih =>
        have hrest := ih (fun other hother => hempty other (mem_cons_of_mem _ hother))
        rw [map_cons, sum_cons, hrest, filter_cons]
        split
        · rw [map_cons, sum_cons]
        · rename_i hsigned
          rw [hempty entry mem_cons_self (by simpa using hsigned), Nat.zero_add]
  unfold retained
  constructor
  · rw [map_map]
    exact peers.nodup.sublist (filter_sublist.map _)
  · intro entry hentry
    rcases mem_map.mp hentry with ⟨⟨k, q⟩, hmem, rfl⟩
    rcases mem_filter.mp hmem with ⟨hin, hsigned⟩
    exact ⟨q, get?_eq_some_iff.mpr hin, hsigned, rfl⟩
  · rw [length_map]
    exact hpayloads peers.entries
  · rw [map_map]
    apply hbytes
    intro entry hentry hnone
    exact (h.sound entry.fst entry.snd (get?_eq_some_iff.mpr hentry)).empty hnone

theorem trim_ok (h : Tracked cache peers) : Kept cache (trim peers) ∧ Trimmed peers (trim peers) := by
  have hperm := mergeSort_perm (retained peers) olderFirst
  have hsorted : Trimming peers ((retained peers).mergeSort olderFirst) := by
    have hold := trimming_retained h
    constructor
    · exact (hperm.map _).nodup_iff.mpr hold.nodup
    · exact fun entry hentry => hold.there entry (hperm.mem_iff.mp hentry)
    · rw [hperm.length_eq]
      exact hold.count
    · rw [(hperm.map _).sum_eq]
      exact hold.bytes
  have htrim := trimFrom_ok h hsorted
  rw [hperm.length_eq, (hperm.map _).sum_eq] at htrim
  exact htrim

end Kept

end Rabbithole.FedCatalog
