import Rabbithole.FedCatalog.Coherent

/-!
# No replay, and no life after a revocation

Every event keeps memory and file coherent, whatever the tasks are in the middle of.
-/

namespace Rabbithole.FedCatalog

open Foundation Federation List Option

theorem isApproved_revoke (registry : PeerRegistry) (key : ServerKey) {k : ServerKey}
    (h : (registry.revoke key).snd.isApproved k = true) :
    k ≠ key ∧ registry.isApproved k = true := by
  unfold PeerRegistry.revoke PeerRegistry.isApproved at h
  unfold PeerRegistry.isApproved
  cases hrecord : registry.inner.get? key with
  | none =>
      rw [hrecord] at h
      refine ⟨?_, h⟩
      intro hkey
      simp only [hkey, hrecord, map_none, getD_none] at h
      cases h
  | some record =>
      rw [hrecord] at h
      simp only [Dict.get?_insert] at h
      split at h
      · cases h
      · rename_i hkey
        exact ⟨hkey, h⟩

namespace World

/-- What holds whenever an event may come. -/
structure Sound (cache : PeerCache) (w : World) : Prop where
  memory : Safe cache w.accepted w.withdrawn w.state.peers
  allocated : Allocated w.state
  kept : Kept cache w.saved
  marked : Marked w.accepted w.saved
  fresh : forall key, w.registry.isApproved key = true ∨ w.approving.isSome = true ->
    Fresh w.withdrawn w.saved key
  unwritten : w.file = none -> w.saved = Dict.empty
  file : forall bytes, w.file = some bytes -> cache.write w.saved = .ok bytes
  storing : forall st, w.storing = some st ->
    Stored cache w.accepted w.withdrawn w.state st.fetch st.signed st.next ∧
      st.fetch ∈ w.fetches.map Prod.fst ∧ (st.written = true -> w.saved = st.next)
  fetches : forall f n, (f, n) ∈ w.fetches -> f.revision < w.state.nextRevision ∧
    forall peer, w.state.peers.get? f.key = some peer -> peer.revision = f.revision ->
      n = w.revocations f.key ∧ peer.origin = some f.origin
  increasing : w.accepted.Pairwise (fun a b =>
    a.fst = b.fst -> a.snd.catalog.generation < b.snd.catalog.generation)
  verified : forall key c, (key, c) ∈ w.accepted -> cache.verify c key = true
  withdrawn : forall entry, entry ∈ w.withdrawn -> entry ∈ w.accepted

variable {cache : PeerCache} {w w' : World}

theorem saving_ok {peers : Peers} (h : w.saving cache peers = some w') :
    exists bytes, cache.write peers = .ok bytes ∧
      w' = { w with file := some bytes, saved := peers } := by
  unfold saving at h
  split at h
  · cases h
  · rename_i bytes hwrite
    cases h
    exact ⟨bytes, hwrite, rfl⟩

theorem sound_opened (registry : PeerRegistry) : (World.opened registry).Sound cache where
  memory := {
    kept := kept_empty
    marked := fun _ _ hmem => nomatch hmem
    fresh := fun _ _ _ hnone => nomatch hnone }
  allocated := fun _ _ hnone => nomatch hnone
  kept := kept_empty
  marked := fun _ _ hmem => nomatch hmem
  fresh := fun _ _ _ _ hnone => nomatch hnone
  unwritten := fun _ => rfl
  file := fun _ hnone => nomatch hnone
  storing := fun _ hnone => nomatch hnone
  fetches := fun _ _ hmem => nomatch hmem
  increasing := Pairwise.nil
  verified := fun _ _ hmem => nomatch hmem
  withdrawn := fun _ hmem => nomatch hmem

namespace Sound

theorem saving (h : w.Sound cache) {peers : Peers} (hsafe : Safe cache w.accepted w.withdrawn peers)
    (hstoring : forall st, w.storing = some st -> st.written = false)
    (hsaving : w.saving cache peers = some w') : w'.Sound cache := by
  rcases saving_ok hsaving with ⟨bytes, hwrite, rfl⟩
  exact {
    memory := h.memory
    allocated := h.allocated
    kept := hsafe.kept
    marked := hsafe.marked
    fresh := fun key _ => hsafe.fresh key
    unwritten := fun hnone => nomatch hnone
    file := by
      intro bytes' hbytes
      cases hbytes
      exact hwrite
    storing := by
      intro st hst
      refine ⟨(h.storing st hst).left, (h.storing st hst).right.left, ?_⟩
      intro hwritten
      rw [hstoring st hst] at hwritten
      cases hwritten
    fetches := h.fetches
    increasing := h.increasing
    verified := h.verified
    withdrawn := h.withdrawn }

theorem persist (h : w.Sound cache) {peers : Peers}
    (hsafe : Safe cache w.accepted w.withdrawn peers) (hstoring : w.storing = none)
    (writes : Bool) : (w.persist cache peers writes).Sound cache := by
  unfold World.persist
  split
  · cases hsaving : w.saving cache peers with
    | none => exact h
    | some w' =>
        refine h.saving hsafe ?_ hsaving
        intro st hst
        rw [hstoring] at hst
        cases hst
  · exact h

variable {key : ServerKey} {writes : Bool}

section

variable (h : w.Sound cache)
include h

theorem beginFetch (hstep : w.step cache (.beginFetch key) = some w') : w'.Sound cache := by
  simp only [step] at hstep
  split at hstep
  · cases hstep
  · rename_i hfree
    rw [not_isSome_iff_eq_none] at hfree
    split at hstep
    · cases hstep
      exact h
    · rename_i s' fetch hbegin
      cases hstep
      have hsafe := h.memory.beginFetch hbegin
      rcases CatalogState.beginFetch_ok hbegin with ⟨hkey, _, _, hrevision, rfl⟩
      have hcases := CatalogState.fetchedPeer_cases w.state key fetch.origin
      generalize w.state.fetchedPeer key fetch.origin = peer at hsafe hrevision hcases
      exact {
        memory := hsafe
        allocated := by
          intro k q hq
          simp only [Dict.get?_insert] at hq
          show q.revision < w.state.nextRevision + 2
          split at hq
          · cases hq
            rcases hcases with ⟨hsame, _⟩ | ⟨_, _, _, _, hrev⟩
            · have hold := h.allocated key peer hsame
              omega
            · omega
          · have hold := h.allocated k q hq
            omega
        kept := h.kept
        marked := h.marked
        fresh := h.fresh
        unwritten := h.unwritten
        file := h.file
        storing := by
          intro st hst
          rw [hfree] at hst
          cases hst
        fetches := by
          intro f n hmem
          rcases mem_cons.mp hmem with hnew | hold
          · -- The new one is of the peer that was put in.
            cases hnew
            constructor
            · show fetch.revision < w.state.nextRevision + 2
              rcases hcases with ⟨hsame, _⟩ | ⟨_, _, _, _, hrev⟩
              · have hold := h.allocated key peer hsame
                omega
              · omega
            · intro q hq _
              simp only [Dict.get?_insert, hkey, if_true] at hq
              cases hq
              refine ⟨by rw [hkey], ?_⟩
              rcases hcases with ⟨_, horigin⟩ | ⟨_, _, horigin, _, _⟩
              all_goals exact horigin
          · rcases h.fetches f n hold with ⟨hless, hgood⟩
            refine ⟨hless.trans (Nat.lt_add_of_pos_right (by decide)), ?_⟩
            intro q hq hrev
            simp only [Dict.get?_insert] at hq
            split at hq
            · rename_i hkey'
              cases hq
              rcases hcases with ⟨hsame, _⟩ | ⟨_, _, _, _, hnewrev⟩
              · exact hgood peer (hkey' ▸ hsame) hrev
              · omega
            · exact hgood q hq hrev
        increasing := h.increasing
        verified := h.verified
        withdrawn := h.withdrawn }

theorem check {fetch : CatalogFetch} {signed : SignedCatalog}
    (hstep : w.step cache (.check fetch signed) = some w') : w'.Sound cache := by
  simp only [step] at hstep
  split at hstep
  · cases hstep
  · rename_i hfree
    rw [not_or, not_or, not_isSome_iff_eq_none, not_not, Bool.not_eq_false] at hfree
    rcases hfree with ⟨_, hbegun, hverified⟩
    split at hstep
    · cases hstep
      exact h
    · rename_i next hnext
      cases hstep
      rcases mem_map.mp hbegun with ⟨⟨f, n⟩, hmem, rfl⟩
      exact {
        memory := h.memory
        allocated := h.allocated
        kept := h.kept
        marked := h.marked
        fresh := h.fresh
        unwritten := h.unwritten
        file := h.file
        storing := by
          intro st hst
          cases hst
          refine ⟨h.memory.nextPeers h.withdrawn hverified ?_ hnext, hbegun, fun hw => nomatch hw⟩
          intro peer hpeer hrev
          exact ((h.fetches f n hmem).right peer hpeer hrev).right
        fetches := h.fetches
        increasing := h.increasing
        verified := h.verified
        withdrawn := h.withdrawn }

theorem released : ({ w with storing := none } : World).Sound cache where
  memory := h.memory
  allocated := h.allocated
  kept := h.kept
  marked := h.marked
  fresh := h.fresh
  unwritten := h.unwritten
  file := h.file
  storing := fun _ hnone => nomatch hnone
  fetches := h.fetches
  increasing := h.increasing
  verified := h.verified
  withdrawn := h.withdrawn

theorem write (hstep : w.step cache (.write writes) = some w') : w'.Sound cache := by
  simp only [step] at hstep
  split at hstep
  · cases hstep
  · rename_i st hst
    split at hstep
    · cases hstep
    · rename_i hwritten
      rw [Bool.not_eq_true] at hwritten
      rcases h.storing st hst with ⟨hstored, hbegun, _⟩
      split at hstep
      · cases hstep
        exact h.released
      · rename_i w₁ hsaving
        cases hstep
        split at hsaving
        · have hone : forall st', w.storing = some st' -> st'.written = false := by
            intro st' hst'
            rw [hst] at hst'
            cases hst'
            exact hwritten
          have hsound := h.saving hstored.safe hone hsaving
          rcases saving_ok hsaving with ⟨bytes, _, rfl⟩
          exact {
            memory := hsound.memory
            allocated := hsound.allocated
            kept := hsound.kept
            marked := hsound.marked
            fresh := hsound.fresh
            unwritten := hsound.unwritten
            file := hsound.file
            storing := by
              intro st' hst'
              cases hst'
              exact ⟨hstored, hbegun, fun _ => rfl⟩
            fetches := hsound.fetches
            increasing := hsound.increasing
            verified := hsound.verified
            withdrawn := hsound.withdrawn }
        · cases hsaving

theorem swap (hstep : w.step cache .swap = some w') : w'.Sound cache := by
  simp only [step] at hstep
  split at hstep
  · cases hstep
  · rename_i st hst
    split at hstep
    · rename_i hwritten
      cases hstep
      rcases h.storing st hst with ⟨hstored, hbegun, hsaved⟩
      have hmarked : Marked (w.accepted ++ [(st.fetch.key, st.signed)]) st.next := by
        intro k c hmem
        rcases mem_append.mp hmem with hold | hnew
        · exact hstored.safe.marked k c hold
        · cases mem_singleton.mp hnew
          exact ⟨_, hstored.watermark, UInt64.le_refl _⟩
      have hnewer : forall c, (st.fetch.key, c) ∈ w.accepted ->
          c.catalog.generation < st.signed.catalog.generation := by
        intro c hmem
        rcases h.memory.marked _ c hmem with ⟨g, hg, hle⟩
        exact UInt64.lt_of_le_of_lt hle (hstored.newer g hg)
      exact {
        memory := {
          kept := hstored.safe.kept
          marked := hmarked
          fresh := hstored.safe.fresh }
        allocated := by
          intro k peer' hpeer'
          rcases hstored.same k peer' hpeer' with ⟨peer, hpeer, hrev, _⟩
          rw [hrev]
          exact h.allocated k peer hpeer
        kept := h.kept
        marked := by
          show Marked _ w.saved
          rw [hsaved hwritten]
          exact hmarked
        fresh := h.fresh
        unwritten := h.unwritten
        file := h.file
        storing := fun _ hnone => nomatch hnone
        fetches := by
          intro f n hmem
          rcases h.fetches f n hmem with ⟨hless, hgood⟩
          refine ⟨hless, ?_⟩
          intro peer' hpeer' hrevision
          rcases hstored.same f.key peer' hpeer' with ⟨peer, hpeer, hrev, horigin⟩
          rw [hrev] at hrevision
          rw [horigin]
          exact hgood peer hpeer hrevision
        increasing := by
          refine pairwise_append.mpr ⟨h.increasing, pairwise_singleton _ _, ?_⟩
          intro a ha b hb hkey
          cases mem_singleton.mp hb
          rcases a with ⟨k, c⟩
          cases hkey
          exact hnewer c ha
        verified := by
          intro k c hmem
          rcases mem_append.mp hmem with hold | hnew
          · exact h.verified k c hold
          · cases mem_singleton.mp hnew
            exact hstored.verified
        withdrawn := fun entry hmem => mem_append_left _ (h.withdrawn entry hmem) }
    · cases hstep

/-- The approval of a key is gone, and what it brought is withdrawn; the state may go on. -/
theorem withdraw (hfree : w.storing = none) (happroving : w.approving = none) {s' : CatalogState}
    (hs : w.state.revokePeer key = some s' ∨ w.state.revokePeer key = none ∧ s' = w.state) :
    ({ w with
      registry := (w.registry.revoke key).snd
      revocations := fun k => w.revocations k + if k = key then 1 else 0
      withdrawn := w.withdrawn ++ w.accepted.filter (fun entry => decide (entry.fst = key))
      state := s' } : World).Sound cache := by
  have hmore : forall k c, k ≠ key ->
      (k, c) ∈ w.withdrawn ++ w.accepted.filter (fun entry => decide (entry.fst = key)) ->
      (k, c) ∈ w.withdrawn := by
    intro k c hkey hmem
    rcases mem_append.mp hmem with hold | hnew
    · exact hold
    · exact absurd (of_decide_eq_true (mem_filter.mp hnew).right) hkey
  -- The key has no payload now, and none of its fetches is good any more.
  have hstate : Safe cache w.accepted
      (w.withdrawn ++ w.accepted.filter (fun entry => decide (entry.fst = key))) s'.peers ∧
      Allocated s' ∧ w.state.nextRevision <= s'.nextRevision ∧
      (forall k peer, s'.peers.get? k = some peer ->
        w.state.nextRevision <= peer.revision ∨
          k ≠ key ∧ w.state.peers.get? k = some peer) := by
    rcases hs with hsome | ⟨hnone, rfl⟩
    · have hsafe := h.memory.revokePeer hsome hmore
      rcases CatalogState.revokePeer_ok hsome with ⟨old, _, rfl⟩
      refine ⟨hsafe, ?_, Nat.le_succ _, ?_⟩
      · intro k peer hpeer
        simp only [Dict.get?_insert] at hpeer
        split at hpeer
        · cases hpeer
          exact Nat.lt_succ_self _
        · exact Nat.lt_succ_of_lt (h.allocated k peer hpeer)
      · intro k peer hpeer
        simp only [Dict.get?_insert] at hpeer
        split at hpeer
        · cases hpeer
          exact Or.inl (Nat.le_refl _)
        · rename_i hkey
          exact Or.inr ⟨hkey, hpeer⟩
    · have habsent : w.state.peers.get? key = none := by
        unfold CatalogState.revokePeer at hnone
        exact map_eq_none_iff.mp hnone
      have hother : forall k peer, w.state.peers.get? k = some peer -> k ≠ key := by
        intro k peer hpeer hkey
        rw [hkey, habsent] at hpeer
        cases hpeer
      refine ⟨⟨h.memory.kept, h.memory.marked, ?_⟩, h.allocated, Nat.le_refl _, ?_⟩
      · intro k peer c hpeer hc c' hmem
        exact h.memory.fresh k peer c hpeer hc c' (hmore k c' (hother k peer hpeer) hmem)
      · exact fun k peer hpeer => Or.inr ⟨hother k peer hpeer, hpeer⟩
  rcases hstate with ⟨hsafe, hallocated, hnext, hpeers⟩
  exact {
    memory := hsafe
    allocated := hallocated
    kept := h.kept
    marked := h.marked
    fresh := by
      intro k happroved
      rcases happroved with hk | hsome
      · rcases isApproved_revoke w.registry key hk with ⟨hkey, hold⟩
        intro peer c hpeer hc c' hmem
        exact h.fresh k (Or.inl hold) peer c hpeer hc c' (hmore k c' hkey hmem)
      · simp only [happroving] at hsome
        cases hsome
    unwritten := h.unwritten
    file := h.file
    storing := by
      intro st hst
      rw [hfree] at hst
      cases hst
    fetches := by
      intro f n hmem
      rcases h.fetches f n hmem with ⟨hless, hgood⟩
      refine ⟨hless.trans_le hnext, ?_⟩
      intro peer hpeer hrev
      rcases hpeers f.key peer hpeer with hnew | ⟨hkey, hold⟩
      · omega
      · simp only [if_neg hkey, Nat.add_zero]
        exact hgood peer hold hrev
    increasing := h.increasing
    verified := h.verified
    withdrawn := by
      intro entry hmem
      rcases mem_append.mp hmem with hold | hnew
      · exact h.withdrawn entry hold
      · exact (mem_filter.mp hnew).left }

theorem revoke (hstep : w.step cache (.revoke key writes) = some w') : w'.Sound cache := by
  simp only [step] at hstep
  split at hstep
  · cases hstep
  · rename_i hfree
    rw [not_or, not_isSome_iff_eq_none, not_isSome_iff_eq_none] at hfree
    split at hstep
    · rename_i hnone
      cases hstep
      exact h.withdraw hfree.left hfree.right (Or.inr ⟨hnone, rfl⟩)
    · rename_i s' hsome
      cases hstep
      have hsound := h.withdraw hfree.left hfree.right (Or.inl hsome)
      exact hsound.persist hsound.memory hfree.left writes

theorem flush (hstep : w.step cache (.flush writes) = some w') : w'.Sound cache := by
  simp only [step] at hstep
  split at hstep
  · cases hstep
  · rename_i hfree
    rw [not_isSome_iff_eq_none] at hfree
    cases hstep
    exact h.persist h.memory hfree writes

theorem beginApproval {origin : String}
    (hstep : w.step cache (.beginApproval key origin) = some w') : w'.Sound cache := by
  simp only [step] at hstep
  split at hstep
  · cases hstep
  · rename_i hfree
    rw [not_or, not_isSome_iff_eq_none, not_isSome_iff_eq_none] at hfree
    rcases map_eq_some_iff.mp hstep with ⟨w₁, hsaving, rfl⟩
    have hone : forall st, w.storing = some st -> st.written = false := by
      intro st hst
      rw [hfree.left] at hst
      cases hst
    have hsound := h.saving h.memory hone hsaving
    rcases saving_ok hsaving with ⟨bytes, _, rfl⟩
    exact {
      memory := hsound.memory
      allocated := hsound.allocated
      kept := hsound.kept
      marked := hsound.marked
      -- The file has just been made of the memory.
      fresh := fun k _ => h.memory.fresh k
      unwritten := hsound.unwritten
      file := hsound.file
      storing := hsound.storing
      fetches := hsound.fetches
      increasing := hsound.increasing
      verified := hsound.verified
      withdrawn := hsound.withdrawn }

theorem approve (hstep : w.step cache .approve = some w') : w'.Sound cache := by
  simp only [step] at hstep
  rcases map_eq_some_iff.mp hstep with ⟨⟨key, origin⟩, happroving, rfl⟩
  exact {
    memory := h.memory
    allocated := h.allocated
    kept := h.kept
    marked := h.marked
    fresh := fun k _ => h.fresh k (Or.inr (by rw [happroving]; rfl))
    unwritten := h.unwritten
    file := h.file
    storing := h.storing
    fetches := h.fetches
    increasing := h.increasing
    verified := h.verified
    withdrawn := h.withdrawn }

theorem restart (hstep : w.step cache .restart = some w') : w'.Sound cache := by
  simp only [step] at hstep
  cases hstep
  have hload : Safe cache w.accepted w.withdrawn (CatalogState.loadPeers cache
        ⟨Dict.empty, w.state.nextRevision⟩ w.registry w.file).peers ∧
      Allocated (CatalogState.loadPeers cache ⟨Dict.empty, w.state.nextRevision⟩ w.registry
        w.file) := by
    cases hfile : w.file with
    | none =>
        refine ⟨⟨kept_empty, ?_, fun _ _ _ hnone => nomatch hnone⟩, fun _ _ hnone => nomatch hnone⟩
        have hmarked := h.marked
        rw [h.unwritten hfile] at hmarked
        exact hmarked
    | some bytes =>
        rcases Safe.loadPeers h.kept h.marked (fun k hk => h.fresh k (Or.inl hk))
          (h.file bytes hfile) w.state.nextRevision with ⟨hsafe, hallocated, _⟩
        exact ⟨hsafe, hallocated⟩
  exact {
    memory := hload.left
    allocated := hload.right
    kept := h.kept
    marked := h.marked
    fresh := by
      intro k hk
      rcases hk with hk | hnone
      · exact h.fresh k (Or.inl hk)
      · cases hnone
    unwritten := h.unwritten
    file := h.file
    storing := fun _ hnone => nomatch hnone
    fetches := fun _ _ hmem => nomatch hmem
    increasing := h.increasing
    verified := h.verified
    withdrawn := h.withdrawn }

theorem step {e : Event} (hstep : w.step cache e = some w') : w'.Sound cache := by
  cases e with
  | beginFetch key => exact h.beginFetch hstep
  | check fetch signed => exact h.check hstep
  | write writes => exact h.write hstep
  | swap => exact h.swap hstep
  | revoke key writes => exact h.revoke hstep
  | flush writes => exact h.flush hstep
  | beginApproval key origin => exact h.beginApproval hstep
  | approve => exact h.approve hstep
  | restart => exact h.restart hstep

end

end Sound

theorem sound (h : Reachable cache w) : w.Sound cache := by
  induction h with
  | opened registry => exact sound_opened registry
  | step w w' e _ hstep ih => exact ih.step hstep

end World

/-!
## What the world sees
-/

theorem mem_approvedPeerCatalogs {s : CatalogState} {registry : PeerRegistry}
    {c : SignedCatalog} (h : c ∈ s.approvedPeerCatalogs registry) :
    exists key peer, s.peers.get? key = some peer ∧ peer.signed = some c := by
  unfold CatalogState.approvedPeerCatalogs at h
  rw [mem_mergeSort] at h
  rcases mem_filterMap.mp h with ⟨⟨key, peer⟩, hmem, hsigned⟩
  exact ⟨key, peer, Dict.get?_eq_some_iff.mpr (mem_filter.mp hmem).left, hsigned⟩

theorem PeerCache.serverKey_of_verify {cache : PeerCache} {c : SignedCatalog} {key : ServerKey}
    (h : cache.verify c key = true) : c.catalog.serverKey = key := by
  unfold PeerCache.verify at h
  rw [Bool.and_eq_true] at h
  exact of_decide_eq_true h.left

/-- Generations only rise, a fetch is good until a revocation, what was withdrawn stays away,
a store that fails changes nothing, the limits hold, and the file reads back. -/
theorem peer_catalogs_stay_withdrawn (cache : PeerCache) (w : World) (h : Reachable cache w) :
    w.accepted.Pairwise (fun a b =>
      a.fst = b.fst -> a.snd.catalog.generation < b.snd.catalog.generation) ∧
    (forall st, w.storing = some st -> st.fetch ∈ w.fetches.map Prod.fst ∧
      forall n, (st.fetch, n) ∈ w.fetches -> n = w.revocations st.fetch.key) ∧
    (forall fetch signed w', w.step cache (.check fetch signed) = some w' ->
      w'.storing.isSome = true -> isApprovedOrigin w.registry fetch.key fetch.origin = true) ∧
    (forall key c, (key, c) ∈ w.withdrawn -> c ∉ w.state.approvedPeerCatalogs w.registry) ∧
    (forall fetch signed w', w.step cache (.check fetch signed) = some w' ->
      w'.state = w.state ∧ (w'.storing = none -> w' = w)) ∧
    (forall writes w', w.step cache (.write writes) = some w' -> w'.state = w.state) ∧
    w.state.peers.sum PeerCatalog.payloads <= 64 ∧
    w.state.peers.sum PeerCatalog.bytes <= 32 * 1024 * 1024 ∧
    (forall key peer c, w.state.peers.get? key = some peer -> peer.signed = some c ->
      peer.bytes = (cache.toBytes c).length) ∧
    forall bytes, w.file = some bytes -> forall first, exists peers,
      cache.read first (some bytes) = .ok peers ∧ SameHeard w.saved peers := by
  have hsound := World.sound h
  refine ⟨hsound.increasing, ?_, ?_, ?_, ?_, ?_, hsound.memory.kept.count,
    hsound.memory.kept.bytes, ?_, ?_⟩
  · intro st hst
    rcases hsound.storing st hst with ⟨hstored, hbegun, _⟩
    refine ⟨hbegun, ?_⟩
    intro n hmem
    rcases hstored.current with ⟨peer, hpeer, hrev⟩
    exact ((hsound.fetches st.fetch n hmem).right peer hpeer hrev).left
  · intro fetch signed w' hstep hstoring
    simp only [World.step] at hstep
    split at hstep
    · cases hstep
    · rename_i hfree
      split at hstep
      · cases hstep
        exact absurd (Or.inl hstoring) hfree
      · rename_i next hnext
        exact (CatalogState.nextPeers_ok hnext).right.left
  · intro key c hmem happroved
    rcases mem_approvedPeerCatalogs happroved with ⟨k, peer, hpeer, hsigned⟩
    have hkey : k = key := by
      have hfirst := ((hsound.memory.kept.tracked.sound k peer hpeer).verified c hsigned)
      have hsecond := hsound.verified key c (hsound.withdrawn _ hmem)
      rw [← PeerCache.serverKey_of_verify hfirst, PeerCache.serverKey_of_verify hsecond]
    have hless := hsound.memory.fresh k peer c hpeer hsigned c (hkey ▸ hmem)
    exact absurd hless (UInt64.lt_irrefl _)
  · intro fetch signed w' hstep
    simp only [World.step] at hstep
    split at hstep
    · cases hstep
    · split at hstep
      · cases hstep
        exact ⟨rfl, fun _ => rfl⟩
      · cases hstep
        exact ⟨rfl, fun hnone => nomatch hnone⟩
  · intro writes w' hstep
    simp only [World.step] at hstep
    split at hstep
    · cases hstep
    · split at hstep
      · cases hstep
      · split at hstep
        · cases hstep
          rfl
        · rename_i w₁ hsaving
          cases hstep
          split at hsaving
          · rcases World.saving_ok hsaving with ⟨bytes, _, rfl⟩
            rfl
          · cases hsaving
  · intro key peer c hpeer hsigned
    exact (hsound.memory.kept.tracked.sound key peer hpeer).sized c hsigned
  · intro bytes hfile first
    rcases PeerCache.read_write hsound.kept (hsound.file bytes hfile) first
      with ⟨peers, hread, hsame, _⟩
    exact ⟨peers, hread, hsame⟩

theorem Reachable.run {cache : PeerCache} {events : List Event} {w w' : World}
    (h : Reachable cache w) (hrun : run? (World.step cache) w events = some w') :
    Reachable cache w' := by
  induction events generalizing w with
  | nil =>
      cases hrun
      exact h
  | cons e rest ih =>
      rcases run?_cons_some hrun with ⟨next, hstep, hrest⟩
      exact ih (h.step w next e hstep) hrest

namespace Stale

/-- A peer whose catalog is stored, then revoked while the file cannot be written. -/
def peer : ServerKey := 0x18f6e935c8ea02d78ec5136bf7ebfd91d9a12f60cd78fb645bc7a05a382417fd

def server : PublicKey := 0x5c6f0fb4018874f31b12941dbf0967ca725dba3c2ddb52fd95f10974dde3888a

def stored : SignedCatalog where
  catalog := ⟨peer, 7, none, 1700000000, []⟩
  sig :=
    0xe4074efd3ff8513accdb2387d55208d7053b5290f5a69115076e51ad880478561d27cafae3220527a48ffd0462f2b129338e093d189a537cd527ec35eb3fa87

def fileSignature : Signature :=
  0x7c3a9da3ec493e8e636aa648be154fdcaef0b3fb9ac5ab33bd12b23f447e18354c700f3de1772b4d4d4ed91eb687e389ac0798831db726bf983262438905e67

def scheme : Scheme where
  verify := fun key message sig => decide ((key = server ∧ sig = fileSignature) ∨
    (key = peer ∧ message = catalogContext ++ (Wire.catalog .wire).encode stored.catalog ∧
      sig = stored.sig))

def identity : IdentityKey where
  public_ := server
  sign := fun _ => fileSignature

theorem verifies (message : Bytes) :
    scheme.verify identity.public_ message (identity.sign message) = true := by
  unfold scheme identity
  simp only [true_and, true_or, decide_true]

def cache : PeerCache where
  postcard := .wire
  scheme := scheme
  identity := identity
  verifies := verifies

def registry : PeerRegistry :=
  PeerRegistry.new.seedApproved peer "peer" (some "peer.example")

def events : List Event :=
  [.beginFetch peer, .check ⟨peer, 1, "peer.example"⟩ stored, .write true, .swap,
    .revoke peer false, .restart]

def last : Option World :=
  run? (World.step cache) (World.opened registry) events

theorem last_ok : last.map (fun w => (w.withdrawn, w.file.isSome, w.saved.size)) =
    some ([(peer, stored)], true, 1) := by
  decide +kernel

end Stale

theorem peer_catalogs_stay_withdrawn_stale : exists w, Reachable Stale.cache w ∧
    w.withdrawn = [(Stale.peer, Stale.stored)] ∧ w.file.isSome = true ∧ w.saved.size = 1 ∧
    Stale.stored ∉ w.state.approvedPeerCatalogs w.registry := by
  rcases map_eq_some_iff.mp Stale.last_ok with ⟨w, hlast, heq⟩
  have hreach := (Reachable.opened Stale.registry).run hlast
  have hrule := peer_catalogs_stay_withdrawn Stale.cache w hreach
  simp only [Prod.mk.injEq] at heq
  rcases heq with ⟨hwithdrawn, hfile, hsize⟩
  refine ⟨w, hreach, hwithdrawn, hfile, hsize, ?_⟩
  exact hrule.right.right.right.left Stale.peer Stale.stored
    (by rw [hwithdrawn]; exact mem_singleton.mpr rfl)

end Rabbithole.FedCatalog
