import Rabbithole.Foundation.Dict
import Rabbithole.Foundation.Run

/-!
# The announce cache

An announce floods the network, so it is seen many times.  The cache holds the announce of
each destination accepted last, and answers a further one by it: a re-delivery, too early,
or accepted.
-/

namespace Rabbithole.Reticulum

open Foundation

structure DestinationHash where
  bytes : Vector UInt8 16
deriving DecidableEq

abbrev RandomHash := Vector UInt8 10

open List Option

/-- `u64::saturating_sub`. -/
def saturatingSub (a b : UInt64) : UInt64 :=
  if b <= a then a - b else 0

theorem toNat_saturatingSub (a b : UInt64) : (saturatingSub a b).toNat = a.toNat - b.toNat := by
  unfold saturatingSub
  split
  · rename_i hle
    exact UInt64.toNat_sub_of_le a b hle
  · rename_i hlt
    rw [UInt64.le_iff_toNat_le] at hlt
    have hzero : a.toNat - b.toNat = 0 := by omega
    rw [hzero]
    rfl

inductive AnnounceVerdict where
  | accept
  | duplicate
  | rateLimited
deriving DecidableEq

structure CacheEntry where
  randomHash : RandomHash
  acceptedAtMs : UInt64
deriving DecidableEq

def CacheEntry.expired (e : CacheEntry) (ttlMs nowMs : UInt64) : Bool :=
  decide (ttlMs <= saturatingSub nowMs e.acceptedAtMs)

structure AnnounceCache where
  ttlMs : UInt64
  minIntervalMs : UInt64
  entries : Dict DestinationHash CacheEntry

namespace AnnounceCache

def new (ttlMs minIntervalMs : UInt64) : AnnounceCache where
  ttlMs := ttlMs
  minIntervalMs := minIntervalMs
  entries := Dict.empty

def remember (cache : AnnounceCache) (destination : DestinationHash)
    (randomHash : RandomHash) (nowMs : UInt64) : AnnounceCache :=
  { cache with entries := cache.entries.insert destination ⟨randomHash, nowMs⟩ }

def observe (cache : AnnounceCache) (destination : DestinationHash)
    (randomHash : RandomHash) (nowMs : UInt64) : AnnounceVerdict × AnnounceCache :=
  match cache.entries.get? destination with
  | some entry =>
      if entry.expired cache.ttlMs nowMs then
        (.accept, cache.remember destination randomHash nowMs)
      else if entry.randomHash = randomHash then
        (.duplicate, cache)
      else if saturatingSub nowMs entry.acceptedAtMs < cache.minIntervalMs then
        (.rateLimited, cache)
      else
        (.accept, cache.remember destination randomHash nowMs)
  | none => (.accept, cache.remember destination randomHash nowMs)

def contains (cache : AnnounceCache) (destination : DestinationHash) (nowMs : UInt64) : Bool :=
  (cache.entries.get? destination).any (fun e => !e.expired cache.ttlMs nowMs)

def purgeExpired (cache : AnnounceCache) (nowMs : UInt64) : AnnounceCache :=
  { cache with entries := cache.entries.retain (fun _ e => !e.expired cache.ttlMs nowMs) }

end AnnounceCache

/-!
## What one announce does
-/

theorem CacheEntry.expired_iff {e : CacheEntry} {ttlMs nowMs : UInt64} :
    e.expired ttlMs nowMs = true <->
      ttlMs.toNat <= nowMs.toNat - e.acceptedAtMs.toNat := by
  unfold CacheEntry.expired
  rw [decide_eq_true_iff, UInt64.le_iff_toNat_le, toNat_saturatingSub]

theorem CacheEntry.expired_mono {e : CacheEntry} {ttlMs nowMs laterMs : UInt64}
    (h : e.expired ttlMs nowMs = true) (hle : nowMs <= laterMs) :
    e.expired ttlMs laterMs = true := by
  rw [CacheEntry.expired_iff] at h ⊢
  rw [UInt64.le_iff_toNat_le] at hle
  omega

namespace AnnounceCache

variable {cache : AnnounceCache} {destination : DestinationHash} {randomHash : RandomHash}
  {nowMs : UInt64}

/-- An entry does not stand in the way of an announce. -/
def Yields (cache : AnnounceCache) (e : CacheEntry) (randomHash : RandomHash)
    (nowMs : UInt64) : Prop :=
  e.expired cache.ttlMs nowMs = true ∨
    (e.randomHash ≠ randomHash ∧
      cache.minIntervalMs.toNat <= nowMs.toNat - e.acceptedAtMs.toNat)

theorem observe_cases (cache : AnnounceCache) (destination : DestinationHash)
    (randomHash : RandomHash) (nowMs : UInt64) :
    ((cache.observe destination randomHash nowMs).fst = .accept ∧
      (cache.observe destination randomHash nowMs).snd =
        cache.remember destination randomHash nowMs ∧
      forall e, cache.entries.get? destination = some e -> cache.Yields e randomHash nowMs) ∨
    ((cache.observe destination randomHash nowMs).fst ≠ .accept ∧
      (cache.observe destination randomHash nowMs).snd = cache) := by
  unfold observe
  cases hfound : cache.entries.get? destination with
  | none =>
      exact Or.inl ⟨rfl, rfl, fun e h => by cases h⟩
  | some entry =>
      simp only []
      split
      · rename_i hexpired
        refine Or.inl ⟨rfl, rfl, ?_⟩
        rintro e ⟨⟩
        exact Or.inl hexpired
      · split
        · exact Or.inr ⟨by simp, rfl⟩
        · rename_i hhash
          split
          · exact Or.inr ⟨by simp, rfl⟩
          · rename_i hinterval
            refine Or.inl ⟨rfl, rfl, ?_⟩
            rintro e ⟨⟩
            refine Or.inr ⟨hhash, ?_⟩
            rw [UInt64.lt_iff_toNat_lt, toNat_saturatingSub] at hinterval
            omega

end AnnounceCache

/-!
## Runs

A run is a list of calls whose clock does not go back.  Beside the cache it keeps what was
answered and which announces were accepted, both with the last first.
-/

inductive Call where
  | observe (destination : DestinationHash) (randomHash : RandomHash) (nowMs : UInt64)
  | contains (destination : DestinationHash) (nowMs : UInt64)
  | purgeExpired (nowMs : UInt64)
deriving DecidableEq

def Call.nowMs : Call -> UInt64
  | .observe _ _ nowMs => nowMs
  | .contains _ nowMs => nowMs
  | .purgeExpired nowMs => nowMs

def Call.isPurge : Call -> Bool
  | .purgeExpired _ => true
  | _ => false

inductive Answer where
  | verdict (v : AnnounceVerdict)
  | live (b : Bool)
deriving DecidableEq

structure Accepted where
  destination : DestinationHash
  randomHash : RandomHash
  atMs : UInt64
deriving DecidableEq

structure Ingest where
  cache : AnnounceCache
  clock : UInt64
  accepted : List Accepted
  answers : List Answer

namespace Ingest

def start (ttlMs minIntervalMs : UInt64) : Ingest where
  cache := AnnounceCache.new ttlMs minIntervalMs
  clock := 0
  accepted := []
  answers := []

def call (s : Ingest) : Call -> Ingest
  | .observe destination randomHash nowMs =>
      let (v, cache) := s.cache.observe destination randomHash nowMs
      { cache := cache
        clock := nowMs
        accepted :=
          if v = .accept then ⟨destination, randomHash, nowMs⟩ :: s.accepted else s.accepted
        answers := .verdict v :: s.answers }
  | .contains destination nowMs =>
      { s with
        clock := nowMs
        answers := .live (s.cache.contains destination nowMs) :: s.answers }
  | .purgeExpired nowMs =>
      { s with
        cache := s.cache.purgeExpired nowMs
        clock := nowMs }

def step (s : Ingest) (c : Call) : Option Ingest :=
  if s.clock <= c.nowMs then some (s.call c) else none

theorem call_observe (s : Ingest) (destination : DestinationHash) (randomHash : RandomHash)
    (nowMs : UInt64) :
    s.call (.observe destination randomHash nowMs) =
      ⟨(s.cache.observe destination randomHash nowMs).snd, nowMs,
        if (s.cache.observe destination randomHash nowMs).fst = .accept then
          ⟨destination, randomHash, nowMs⟩ :: s.accepted
        else s.accepted,
        .verdict (s.cache.observe destination randomHash nowMs).fst :: s.answers⟩ := rfl

theorem step_eq_some {s s' : Ingest} {c : Call} :
    s.step c = some s' <-> s.clock <= c.nowMs ∧ s.call c = s' := by
  unfold step
  split
  · rename_i hle
    simp [hle]
  · rename_i hlt
    simp [hlt]

end Ingest

/-- The same announce is not accepted again within the TTL. -/
def NoReplay (ttlMs : UInt64) (accepted : List Accepted) : Prop :=
  accepted.Pairwise (fun later earlier =>
    later.destination = earlier.destination -> later.randomHash = earlier.randomHash ->
      earlier.atMs.toNat + ttlMs.toNat <= later.atMs.toNat)

instance (ttlMs : UInt64) (accepted : List Accepted) : Decidable (NoReplay ttlMs accepted) :=
  inferInstanceAs (Decidable (Pairwise _ _))

/-- Accepted announces of one destination are this far apart. -/
def Spaced (gapMs : Nat) (accepted : List Accepted) : Prop :=
  accepted.Pairwise (fun later earlier =>
    later.destination = earlier.destination ->
      earlier.atMs.toNat + gapMs <= later.atMs.toNat)

/-- How far apart the cache keeps the accepted announces of one destination. -/
def gapMs (ttlMs minIntervalMs : UInt64) : Nat :=
  min minIntervalMs.toNat ttlMs.toNat

/-!
## What was accepted, and what the entry still says about it

An accepted announce is older than the TTL, or the entry of its destination is its own, or
the entry is a later one, at least a gap away.
-/

def Covered (ttlMs minIntervalMs : UInt64) (s : Ingest) (a : Accepted) : Prop :=
  a.atMs.toNat + ttlMs.toNat <= s.clock.toNat ∨
    exists e, s.cache.entries.get? a.destination = some e ∧
      ((e.randomHash = a.randomHash ∧ e.acceptedAtMs = a.atMs) ∨
        a.atMs.toNat + gapMs ttlMs minIntervalMs <= e.acceptedAtMs.toNat)

structure Ingest.Sound (ttlMs minIntervalMs : UInt64) (s : Ingest) : Prop where
  ttl : s.cache.ttlMs = ttlMs
  minInterval : s.cache.minIntervalMs = minIntervalMs
  past : forall destination e, s.cache.entries.get? destination = some e ->
    e.acceptedAtMs.toNat <= s.clock.toNat
  covered : forall a, a ∈ s.accepted -> Covered ttlMs minIntervalMs s a
  spaced : Spaced (gapMs ttlMs minIntervalMs) s.accepted
  fresh : ttlMs.toNat <= 2 * minIntervalMs.toNat -> NoReplay ttlMs s.accepted

section Accepting

variable {ttlMs minIntervalMs : UInt64} {s : Ingest} {destination : DestinationHash}
  {randomHash : RandomHash} {nowMs : UInt64}

variable {a : Accepted}

section

variable (hs : s.Sound ttlMs minIntervalMs) (hnow : s.clock <= nowMs)
  (hyields : forall e, s.cache.entries.get? destination = some e ->
      s.cache.Yields e randomHash nowMs)
include hs hnow hyields

theorem Ingest.Sound.apart (ha : a ∈ s.accepted) (hdest : destination = a.destination) :
    a.atMs.toNat + gapMs ttlMs minIntervalMs <= nowMs.toNat := by
  have hmin : gapMs ttlMs minIntervalMs <= minIntervalMs.toNat := Nat.min_le_left _ _
  have httl : gapMs ttlMs minIntervalMs <= ttlMs.toNat := Nat.min_le_right _ _
  rw [UInt64.le_iff_toNat_le] at hnow
  rcases hs.covered a ha with hold | ⟨e, hget, hentry⟩
  · omega
  · rw [← hdest] at hget
    have hpast := hs.past destination e hget
    have hat : a.atMs.toNat <= e.acceptedAtMs.toNat := by
      rcases hentry with ⟨-, hsame⟩ | hlater
      · rw [hsame]
      · omega
    rcases hyields e hget with hexpired | ⟨-, hinterval⟩
    · rw [CacheEntry.expired_iff, hs.ttl] at hexpired
      omega
    · rw [hs.minInterval] at hinterval
      omega

theorem Ingest.Sound.replay_late (htwo : ttlMs.toNat <= 2 * minIntervalMs.toNat)
    (ha : a ∈ s.accepted) (hdest : destination = a.destination)
    (hhash : randomHash = a.randomHash) : a.atMs.toNat + ttlMs.toNat <= nowMs.toNat := by
  rw [UInt64.le_iff_toNat_le] at hnow
  rcases hs.covered a ha with hold | ⟨e, hget, hentry⟩
  · omega
  · rw [← hdest] at hget
    have hpast := hs.past destination e hget
    rcases hyields e hget with hexpired | ⟨hother, hinterval⟩
    · rw [CacheEntry.expired_iff, hs.ttl] at hexpired
      rcases hentry with ⟨-, hsame⟩ | hlater
      · rw [hsame] at hexpired hpast
        omega
      · omega
    · rw [hs.minInterval] at hinterval
      rcases hentry with ⟨hsame, -⟩ | hlater
      · exact absurd (hsame.trans hhash.symm) hother
      · unfold gapMs at hlater
        omega

end

theorem Covered.tick {answers : List Answer} {accepted : List Accepted}
    (hcovered : Covered ttlMs minIntervalMs s a) (hnow : s.clock <= nowMs) :
    Covered ttlMs minIntervalMs ⟨s.cache, nowMs, accepted, answers⟩ a := by
  rw [UInt64.le_iff_toNat_le] at hnow
  rcases hcovered with hold | hentry
  · exact Or.inl (le_trans hold hnow)
  · exact Or.inr hentry

section

variable (hs : s.Sound ttlMs minIntervalMs) (hnow : s.clock <= nowMs)
include hs hnow

theorem Ingest.Sound.tick (answers : List Answer) :
    Ingest.Sound ttlMs minIntervalMs ⟨s.cache, nowMs, s.accepted, answers⟩ := by
  refine ⟨hs.ttl, hs.minInterval, ?_, ?_, hs.spaced, hs.fresh⟩
  · intro d e hget
    rw [UInt64.le_iff_toNat_le] at hnow
    exact le_trans (hs.past d e hget) hnow
  · intro a ha
    exact (hs.covered a ha).tick hnow

theorem Ingest.Sound.accept (hyields : forall e, s.cache.entries.get? destination = some e ->
      s.cache.Yields e randomHash nowMs) (answers : List Answer) : Ingest.Sound ttlMs minIntervalMs
      ⟨s.cache.remember destination randomHash nowMs, nowMs,
        ⟨destination, randomHash, nowMs⟩ :: s.accepted, answers⟩ := by
  have hget : forall d, (s.cache.remember destination randomHash nowMs).entries.get? d =
      if d = destination then some ⟨randomHash, nowMs⟩ else s.cache.entries.get? d := by
    intro d
    unfold AnnounceCache.remember
    exact Dict.get?_insert _ _ _ _
  refine ⟨hs.ttl, hs.minInterval, ?_, ?_, ?_, ?_⟩
  · intro d e h
    rw [hget] at h
    split at h
    · cases h
      exact le_refl _
    · rw [UInt64.le_iff_toNat_le] at hnow
      exact le_trans (hs.past d e h) hnow
  · intro a ha
    rcases mem_cons.mp ha with rfl | ha
    · exact Or.inr ⟨⟨randomHash, nowMs⟩, by rw [hget, if_pos rfl], Or.inl ⟨rfl, rfl⟩⟩
    · by_cases hdest : destination = a.destination
      · exact Or.inr ⟨⟨randomHash, nowMs⟩, by rw [hget, if_pos hdest.symm],
          Or.inr (hs.apart hnow hyields ha hdest)⟩
      · rcases hs.covered a ha with hold | ⟨e, he, hentry⟩
        · rw [UInt64.le_iff_toNat_le] at hnow
          exact Or.inl (le_trans hold hnow)
        · exact Or.inr ⟨e, by rw [hget, if_neg (Ne.symm hdest)]; exact he, hentry⟩
  · refine pairwise_cons.mpr ⟨?_, hs.spaced⟩
    intro a ha hdest
    exact hs.apart hnow hyields ha hdest
  · intro htwo
    refine pairwise_cons.mpr ⟨?_, hs.fresh htwo⟩
    intro a ha hdest hhash
    exact hs.replay_late hnow hyields htwo ha hdest hhash

theorem Ingest.Sound.purge : Ingest.Sound ttlMs minIntervalMs (s.call (.purgeExpired nowMs)) := by
  have hget : forall d, (s.cache.purgeExpired nowMs).entries.get? d =
      (s.cache.entries.get? d).filter (fun e => !e.expired s.cache.ttlMs nowMs) := by
    intro d
    exact Dict.get?_retain _ _ _
  rw [UInt64.le_iff_toNat_le] at hnow
  refine ⟨hs.ttl, hs.minInterval, ?_, ?_, hs.spaced, hs.fresh⟩
  · intro d e h
    have hkept : (s.cache.entries.get? d).filter
        (fun e => !e.expired s.cache.ttlMs nowMs) = some e := (hget d).symm.trans h
    exact le_trans (hs.past d e (filter_eq_some_iff.mp hkept).left) hnow
  · intro a ha
    rcases hs.covered a ha with hold | ⟨e, he, hentry⟩
    · exact Or.inl (le_trans hold hnow)
    · by_cases hexpired : e.expired s.cache.ttlMs nowMs = true
      · have hat : a.atMs.toNat <= e.acceptedAtMs.toNat := by
          rcases hentry with ⟨-, hsame⟩ | hlater
          · rw [hsame]
          · omega
        have hpast := hs.past a.destination e he
        rw [CacheEntry.expired_iff, hs.ttl] at hexpired
        refine Or.inl (show a.atMs.toNat + ttlMs.toNat <= nowMs.toNat from ?_)
        omega
      · refine Or.inr ⟨e, ?_, hentry⟩
        refine (hget a.destination).trans ?_
        rw [he, filter_some, if_pos]
        simpa using hexpired

end

end Accepting

theorem Ingest.start_sound (ttlMs minIntervalMs : UInt64) :
    (Ingest.start ttlMs minIntervalMs).Sound ttlMs minIntervalMs := by
  refine ⟨rfl, rfl, ?_, ?_, Pairwise.nil, fun _ => Pairwise.nil⟩
  · intro d e h
    cases h
  · intro a ha
    cases ha

theorem Ingest.Sound.step {ttlMs minIntervalMs : UInt64} (s : Ingest) (c : Call) (s' : Ingest)
    (hs : s.Sound ttlMs minIntervalMs) (hstep : s.step c = some s') :
    s'.Sound ttlMs minIntervalMs := by
  rcases Ingest.step_eq_some.mp hstep with ⟨hnow, rfl⟩
  cases c with
  | observe destination randomHash nowMs =>
      rw [Ingest.call_observe]
      rcases s.cache.observe_cases destination randomHash nowMs with
        ⟨hverdict, hcache, hyields⟩ | ⟨hverdict, hcache⟩
      · rw [hcache, if_pos hverdict]
        exact hs.accept hnow hyields _
      · rw [hcache, if_neg hverdict]
        exact hs.tick hnow _
  | contains destination nowMs =>
      exact hs.tick hnow _
  | purgeExpired nowMs =>
      exact hs.purge hnow

theorem Ingest.run_sound {ttlMs minIntervalMs : UInt64} {calls : List Call} {s : Ingest}
    (hrun : run? Ingest.step (Ingest.start ttlMs minIntervalMs) calls = some s) :
    s.Sound ttlMs minIntervalMs :=
  run?_invariant Ingest.Sound.step (Ingest.start_sound ttlMs minIntervalMs) hrun

/-!
## Purges

A purge drops what every later call would take for expired.  A run and the same run
without its purges therefore answer alike: at each destination they hold the same, or one
holds an expired entry where the other holds none.
-/

namespace AnnounceCache

/-- The verdict on an announce, read off the entry of its destination. -/
def judge (ttlMs minIntervalMs : UInt64) (entry : Option CacheEntry) (randomHash : RandomHash)
    (nowMs : UInt64) : AnnounceVerdict :=
  match entry with
  | none => .accept
  | some e =>
      if e.expired ttlMs nowMs then .accept
      else if e.randomHash = randomHash then .duplicate
      else if saturatingSub nowMs e.acceptedAtMs < minIntervalMs then .rateLimited
      else .accept

theorem observe_eq (cache : AnnounceCache) (destination : DestinationHash)
    (randomHash : RandomHash) (nowMs : UInt64) :
    cache.observe destination randomHash nowMs =
      (judge cache.ttlMs cache.minIntervalMs (cache.entries.get? destination) randomHash nowMs,
        if judge cache.ttlMs cache.minIntervalMs (cache.entries.get? destination) randomHash
            nowMs = .accept then
          cache.remember destination randomHash nowMs else cache) := by
  unfold observe judge
  cases cache.entries.get? destination with
  | none => rfl
  | some e =>
      simp only []
      split
      · rfl
      · split
        · rfl
        · split
          · rfl
          · rfl

end AnnounceCache

/-- One holds what the other holds, or nothing where the other has an expired entry. -/
def Thinned (ttlMs nowMs : UInt64) (thin full : Option CacheEntry) : Prop :=
  thin = full ∨ (thin = none ∧ exists e, full = some e ∧ e.expired ttlMs nowMs = true)

section Thinned

variable {ttlMs nowMs laterMs : UInt64} {thin full : Option CacheEntry}

section

variable (h : Thinned ttlMs nowMs thin full)
include h

theorem Thinned.mono (hle : nowMs <= laterMs) : Thinned ttlMs laterMs thin full := by
  rcases h with rfl | ⟨rfl, e, rfl, hexpired⟩
  · exact Or.inl rfl
  · exact Or.inr ⟨rfl, e, rfl, CacheEntry.expired_mono hexpired hle⟩

theorem Thinned.judge (minIntervalMs : UInt64) (randomHash : RandomHash) :
    AnnounceCache.judge ttlMs minIntervalMs thin randomHash nowMs =
      AnnounceCache.judge ttlMs minIntervalMs full randomHash nowMs := by
  rcases h with rfl | ⟨rfl, e, rfl, hexpired⟩
  · rfl
  · unfold AnnounceCache.judge
    simp only [hexpired, if_true]

theorem Thinned.live :
    thin.any (fun e => !e.expired ttlMs nowMs) =
      full.any (fun e => !e.expired ttlMs nowMs) := by
  rcases h with rfl | ⟨rfl, e, rfl, hexpired⟩
  · rfl
  · rw [any_none, any_some, hexpired]
    rfl

theorem Thinned.purge :
    Thinned ttlMs nowMs (thin.filter (fun e => !e.expired ttlMs nowMs)) full := by
  rcases h with rfl | ⟨rfl, e, rfl, hexpired⟩
  · cases thin with
    | none => exact Or.inl rfl
    | some e =>
        by_cases hexpired : e.expired ttlMs nowMs = true
        · refine Or.inr ⟨?_, e, rfl, hexpired⟩
          rw [filter_some, if_neg (by simpa using hexpired)]
        · refine Or.inl ?_
          rw [filter_some, if_pos (by simpa using hexpired)]
  · exact Or.inr ⟨rfl, e, rfl, hexpired⟩

end

end Thinned

/-- A run with purges beside the same run without. -/
structure SameAnswers (s t : Ingest) : Prop where
  ttl : s.cache.ttlMs = t.cache.ttlMs
  minInterval : s.cache.minIntervalMs = t.cache.minIntervalMs
  clock : t.clock <= s.clock
  answers : s.answers = t.answers
  accepted : s.accepted = t.accepted
  entries : forall d, Thinned t.cache.ttlMs s.clock (s.cache.entries.get? d)
    (t.cache.entries.get? d)

variable {s t : Ingest} {nowMs : UInt64} {destination : DestinationHash} {randomHash : RandomHash}

theorem SameAnswers.observe (h : SameAnswers s t) (hnow : s.clock <= nowMs) :
    SameAnswers (s.call (.observe destination randomHash nowMs))
      (t.call (.observe destination randomHash nowMs)) := by
  have hjudge := ((h.entries destination).mono hnow).judge t.cache.minIntervalMs randomHash
  rw [Ingest.call_observe, Ingest.call_observe, AnnounceCache.observe_eq,
    AnnounceCache.observe_eq, h.ttl, h.minInterval, hjudge]
  by_cases hverdict : AnnounceCache.judge t.cache.ttlMs t.cache.minIntervalMs
      (t.cache.entries.get? destination) randomHash nowMs = .accept
  · simp only [if_pos hverdict]
    refine ⟨h.ttl, h.minInterval, UInt64.le_refl _, by rw [h.answers], by rw [h.accepted], ?_⟩
    intro d
    unfold AnnounceCache.remember
    simp only [Dict.get?_insert]
    split
    · exact Or.inl rfl
    · exact (h.entries d).mono hnow
  · simp only [if_neg hverdict]
    exact ⟨h.ttl, h.minInterval, UInt64.le_refl _, by rw [h.answers], h.accepted,
      fun d => (h.entries d).mono hnow⟩

theorem SameAnswers.contains (h : SameAnswers s t) (hnow : s.clock <= nowMs) :
    SameAnswers (s.call (.contains destination nowMs)) (t.call (.contains destination nowMs)) := by
  have hlive : s.cache.contains destination nowMs = t.cache.contains destination nowMs := by
    unfold AnnounceCache.contains
    rw [h.ttl]
    exact ((h.entries destination).mono hnow).live
  refine ⟨h.ttl, h.minInterval, UInt64.le_refl _, ?_, h.accepted, fun d => (h.entries d).mono hnow⟩
  show Answer.live _ :: s.answers = Answer.live _ :: t.answers
  rw [hlive, h.answers]

theorem SameAnswers.purge (h : SameAnswers s t) (hnow : s.clock <= nowMs) :
    SameAnswers (s.call (.purgeExpired nowMs)) t := by
  refine ⟨h.ttl, h.minInterval, UInt64.le_trans h.clock hnow, h.answers, h.accepted, ?_⟩
  intro d
  have hget : (s.call (.purgeExpired nowMs)).cache.entries.get? d =
      (s.cache.entries.get? d).filter (fun e => !e.expired s.cache.ttlMs nowMs) :=
    Dict.get?_retain _ _ _
  rw [hget, h.ttl]
  exact ((h.entries d).mono hnow).purge

theorem SameAnswers.run {calls : List Call} {s' : Ingest} (h : SameAnswers s t)
    (hrun : run? Ingest.step s calls = some s') :
    exists t', run? Ingest.step t (calls.filter (fun c => !c.isPurge)) = some t' ∧
      SameAnswers s' t' := by
  induction calls generalizing s t with
  | nil =>
      cases hrun
      exact ⟨t, rfl, h⟩
  | cons c rest ih =>
      rcases run?_cons_some hrun with ⟨s1, hfirst, hrest⟩
      rcases Ingest.step_eq_some.mp hfirst with ⟨hnow, rfl⟩
      have hstep : t.step c = some (t.call c) :=
        Ingest.step_eq_some.mpr ⟨UInt64.le_trans h.clock hnow, rfl⟩
      cases c with
      | observe destination randomHash nowMs =>
          rcases ih (h.observe hnow) hrest with ⟨t', hrun', hsame⟩
          refine ⟨t', ?_, hsame⟩
          rw [filter_cons_of_pos rfl, run?_cons, hstep]
          exact hrun'
      | contains destination nowMs =>
          rcases ih (h.contains hnow) hrest with ⟨t', hrun', hsame⟩
          refine ⟨t', ?_, hsame⟩
          rw [filter_cons_of_pos rfl, run?_cons, hstep]
          exact hrun'
      | purgeExpired nowMs =>
          exact ih (h.purge hnow) hrest

theorem Ingest.start_sameAnswers (ttlMs minIntervalMs : UInt64) :
    SameAnswers (Ingest.start ttlMs minIntervalMs) (Ingest.start ttlMs minIntervalMs) :=
  ⟨rfl, rfl, UInt64.le_refl _, rfl, rfl, fun _ => Or.inl rfl⟩

/-!
## The verdicts of a cache

The entry of a destination is its last accepted announce only.  Two announces that take
turns push each other out, and each comes back two intervals after it was accepted; the
cache keeps its promise where two intervals make up the TTL.
-/

theorem AnnounceCache.judge_other {ttlMs minIntervalMs : UInt64} {e : CacheEntry}
    (hhash : e.randomHash ≠ randomHash)
    (hinterval : minIntervalMs.toNat <= nowMs.toNat - e.acceptedAtMs.toNat) :
    AnnounceCache.judge ttlMs minIntervalMs (some e) randomHash nowMs = .accept := by
  have hnot : ¬ saturatingSub nowMs e.acceptedAtMs < minIntervalMs := by
    rw [UInt64.lt_iff_toNat_lt, toNat_saturatingSub]
    omega
  unfold AnnounceCache.judge
  simp only [if_neg hhash, if_neg hnot, ite_self]

theorem Ingest.step_accept (hnow : s.clock <= nowMs)
    (hjudge : AnnounceCache.judge s.cache.ttlMs s.cache.minIntervalMs
      (s.cache.entries.get? destination) randomHash nowMs = .accept) :
    s.step (.observe destination randomHash nowMs) =
      some ⟨s.cache.remember destination randomHash nowMs, nowMs,
        ⟨destination, randomHash, nowMs⟩ :: s.accepted, .verdict .accept :: s.answers⟩ := by
  refine Ingest.step_eq_some.mpr ⟨hnow, ?_⟩
  rw [Ingest.call_observe, AnnounceCache.observe_eq, hjudge]
  rfl

/-- Two announces of a destination, the first of them once more, an interval apart. -/
def takingTurns (minIntervalMs : UInt64) (destination : DestinationHash)
    (first second : RandomHash) : List Call :=
  [.observe destination first 0, .observe destination second minIntervalMs,
    .observe destination first (minIntervalMs + minIntervalMs)]

theorem takingTurns_replay {ttlMs minIntervalMs : UInt64} (destination : DestinationHash)
    {first second : RandomHash} (hne : first ≠ second)
    (hshort : 2 * minIntervalMs.toNat < ttlMs.toNat) :
    exists s, run? Ingest.step (Ingest.start ttlMs minIntervalMs)
        (takingTurns minIntervalMs destination first second) = some s ∧
      ¬ NoReplay ttlMs s.accepted := by
  have htwo : (minIntervalMs + minIntervalMs).toNat = 2 * minIntervalMs.toNat := by
    have hbound := ttlMs.toNat_lt
    rw [UInt64.toNat_add, Nat.mod_eq_of_lt (by omega)]
    omega
  have hzero : (0 : UInt64).toNat = 0 := rfl
  refine ⟨_, run?_cons_of_some (Ingest.step_accept (UInt64.le_refl 0) rfl)
    (run?_cons_of_some (Ingest.step_accept ?_ ?_)
      (run?_cons_of_some (Ingest.step_accept ?_ ?_) rfl)), ?_⟩
  · exact UInt64.le_iff_toNat_le.mpr (Nat.zero_le _)
  · simp only [AnnounceCache.remember, Dict.get?_insert, if_true]
    exact AnnounceCache.judge_other hne (le_refl _)
  · refine UInt64.le_iff_toNat_le.mpr ?_
    simp only []
    omega
  · simp only [AnnounceCache.remember, Dict.get?_insert, if_true]
    refine AnnounceCache.judge_other (Ne.symm hne) ?_
    show minIntervalMs.toNat <= (minIntervalMs + minIntervalMs).toNat - minIntervalMs.toNat
    omega
  · intro hfresh
    have hlate := (pairwise_cons.mp hfresh).left ⟨destination, first, 0⟩
      (mem_cons_of_mem _ mem_cons_self) rfl rfl
    simp only [] at hlate
    omega

theorem announceCache_verdicts (ttlMs minIntervalMs : UInt64) :
    ((forall calls s, run? Ingest.step (Ingest.start ttlMs minIntervalMs) calls = some s ->
        NoReplay ttlMs s.accepted) <-> ttlMs.toNat <= 2 * minIntervalMs.toNat) ∧
      (forall calls s, run? Ingest.step (Ingest.start ttlMs minIntervalMs) calls = some s ->
        Spaced (min minIntervalMs.toNat ttlMs.toNat) s.accepted) ∧
      (forall calls s, run? Ingest.step (Ingest.start ttlMs minIntervalMs) calls = some s ->
        exists t, run? Ingest.step (Ingest.start ttlMs minIntervalMs)
            (calls.filter (fun c => !c.isPurge)) = some t ∧
          t.answers = s.answers ∧ t.accepted = s.accepted) := by
  refine ⟨⟨?_, ?_⟩, ?_, ?_⟩
  · intro hlawful
    by_contra hshort
    have hne : (Vector.replicate 10 0 : RandomHash) ≠ Vector.replicate 10 1 := by decide
    rcases takingTurns_replay ⟨Vector.replicate 16 0⟩ hne (Nat.lt_of_not_le hshort) with
      ⟨s, hrun, hreplay⟩
    exact hreplay (hlawful _ s hrun)
  · intro htwo calls s hrun
    exact (Ingest.run_sound hrun).fresh htwo
  · intro calls s hrun
    exact (Ingest.run_sound hrun).spaced
  · intro calls s hrun
    rcases (Ingest.start_sameAnswers ttlMs minIntervalMs).run hrun with ⟨t, hrun', hsame⟩
    exact ⟨t, hrun', hsame.answers.symm, hsame.accepted.symm⟩

theorem announceCache_replay : exists s, run? Ingest.step (Ingest.start 60000 5000)
        [.observe ⟨Vector.replicate 16 7⟩ (Vector.replicate 10 1) 0,
          .observe ⟨Vector.replicate 16 7⟩ (Vector.replicate 10 2) 5000,
          .observe ⟨Vector.replicate 16 7⟩ (Vector.replicate 10 1) 10000] = some s ∧
      s.accepted.length = 3 ∧ ¬ NoReplay 60000 s.accepted :=
  ⟨_, rfl, by decide, by decide⟩

end Rabbithole.Reticulum
