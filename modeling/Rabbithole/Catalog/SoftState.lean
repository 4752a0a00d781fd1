import Rabbithole.Foundation.Dict
import Rabbithole.Foundation.Run

/-!
# The swarm catalog

Who says they have which file: adverts by root, each of one session.  An advert goes when its
time is over, when it is withdrawn, and when its session closes.
-/

namespace Rabbithole.Catalog

open Foundation List Dict

abbrev Root := BitVec 256

structure Advert where
  accountId : Int
  sessionId : Nat
  screenName : String
  size : Nat
  name : String
  mime : String
  expiresAt : Nat
  /-- The session holds only part of the file. -/
  partial_ : Bool
deriving DecidableEq

structure AdvertiseOutcome where
  accepted : Nat
  total : Nat
deriving DecidableEq

structure NewAdvert where
  root : Root
  size : Nat
  name : String
  mime : String
  partial_ : Bool
deriving DecidableEq

structure PeerEndpoint where
  endpoint : String
  certFp : BitVec 256
deriving DecidableEq

abbrev Adverts := Dict Root (List Advert)

structure SwarmCatalog where
  inner : Adverts
  contacts : Dict Nat PeerEndpoint

/-- Drop the adverts that do not meet a condition, and the lists that are left empty. -/
def Adverts.sift (map : Adverts) (keep : Advert -> Bool) : Adverts :=
  map.filterMap (fun _ adverts =>
    if (adverts.filter keep).isEmpty then none else some (adverts.filter keep))

/-- The same for one root. -/
def Adverts.siftAt (map : Adverts) (root : Root) (keep : Advert -> Bool) : Adverts :=
  match map.get? root with
  | none => map
  | some adverts =>
      if (adverts.filter keep).isEmpty then map.erase root
      else map.insert root (adverts.filter keep)

def liveCountForAccount (map : Adverts) (accountId : Int) : Nat :=
  map.sum (fun adverts => adverts.countP (fun a => decide (a.accountId = accountId)))

def prune (map : Adverts) (now : Nat) : Adverts :=
  map.sift (fun a => decide (now < a.expiresAt))

/-- One session's call, the parts of it that all its entries share. -/
structure Announcer where
  accountId : Int
  sessionId : Nat
  screenName : String
  expiresAt : Nat
  maxPerAccount : Nat

namespace Announcer

def fresh (by_ : Announcer) (e : NewAdvert) : Advert where
  accountId := by_.accountId
  sessionId := by_.sessionId
  screenName := by_.screenName
  size := e.size
  name := e.name
  mime := e.mime
  expiresAt := by_.expiresAt
  partial_ := e.partial_

/-- The same session announces the root again: whole once said whole. -/
def refresh (by_ : Announcer) (e : NewAdvert) (existing : Advert) : Advert :=
  { existing with
    expiresAt := by_.expiresAt
    size := e.size
    name := e.name
    mime := e.mime
    screenName := by_.screenName
    partial_ := existing.partial_ && e.partial_ }

/-- Refresh the first advert of the session, if there is one. -/
def refreshFirst (by_ : Announcer) (e : NewAdvert) : List Advert -> Option (List Advert)
  | [] => none
  | a :: rest =>
      if a.sessionId = by_.sessionId then some (by_.refresh e a :: rest)
      else (by_.refreshFirst e rest).map (fun rest => a :: rest)

structure Tally where
  map : Adverts
  total : Nat
  accepted : Nat

/-- One entry of the call. -/
def announce (by_ : Announcer) (t : Tally) (e : NewAdvert) : Tally :=
  let adverts := (t.map.get? e.root).getD []
  match by_.refreshFirst e adverts with
  | some refreshed =>
      { t with map := t.map.insert e.root refreshed, accepted := t.accepted + 1 }
  | none =>
      if 0 < by_.maxPerAccount ∧ by_.maxPerAccount <= t.total then
        if adverts.isEmpty then { t with map := t.map.erase e.root }
        else { t with map := t.map.insert e.root adverts }
      else
        { map := t.map.insert e.root (adverts ++ [by_.fresh e])
          total := t.total + 1
          accepted := t.accepted + 1 }

end Announcer

namespace SwarmCatalog

def new : SwarmCatalog where
  inner := Dict.empty
  contacts := Dict.empty

def advertiseAt (s : SwarmCatalog) (entries : List NewAdvert) (accountId : Int)
    (sessionId : Nat) (screenName : String) (ttl maxPerAccount now : Nat) :
    AdvertiseOutcome × SwarmCatalog :=
  let map := prune s.inner now
  let by_ : Announcer := ⟨accountId, sessionId, screenName, now + ttl, maxPerAccount⟩
  let start : Announcer.Tally := ⟨map, liveCountForAccount map accountId, 0⟩
  let t := entries.foldl by_.announce start
  (⟨t.accepted % 2 ^ 32, t.total % 2 ^ 32⟩, { s with inner := t.map })

/-- Withdraw a session's adverts for some roots; for all of them when none is named. -/
def withdraw (s : SwarmCatalog) (sessionId : Nat) (roots : List Root) : SwarmCatalog :=
  let keep := fun (a : Advert) => decide (a.sessionId ≠ sessionId)
  if roots.isEmpty then { s with inner := s.inner.sift keep }
  else { s with inner := roots.foldl (fun map root => map.siftAt root keep) s.inner }

def sessionClosed (s : SwarmCatalog) (sessionId : Nat) : SwarmCatalog :=
  let s := s.withdraw sessionId []
  { s with contacts := s.contacts.erase sessionId }

def setContact (s : SwarmCatalog) (sessionId : Nat) (endpoint : PeerEndpoint) : SwarmCatalog :=
  { s with contacts := s.contacts.insert sessionId endpoint }

def renameSession (s : SwarmCatalog) (sessionId : Nat) (screenName : String) : SwarmCatalog :=
  { s with
    inner := s.inner.mapValues (fun _ adverts => adverts.map (fun a =>
      if a.sessionId = sessionId then { a with screenName := screenName } else a)) }

/-- Live sources for a root; expired ones are dropped on the way. -/
def findAt (s : SwarmCatalog) (root : Root) (now : Nat) : List Advert × SwarmCatalog :=
  let map := s.inner.siftAt root (fun a => decide (now < a.expiresAt))
  ((map.get? root).getD [], { s with inner := map })

end SwarmCatalog

/-!
## Runs
-/

inductive Op where
  | advertise (entries : List NewAdvert) (accountId : Int) (sessionId : Nat)
      (screenName : String) (ttl maxPerAccount now : Nat)
  | withdraw (sessionId : Nat) (roots : List Root)
  | sessionClosed (sessionId : Nat)
  | setContact (sessionId : Nat) (endpoint : PeerEndpoint)
  | renameSession (sessionId : Nat) (screenName : String)
  | find (root : Root) (now : Nat)

def Op.run (s : SwarmCatalog) : Op -> SwarmCatalog
  | .advertise entries accountId sessionId screenName ttl maxPerAccount now =>
      (s.advertiseAt entries accountId sessionId screenName ttl maxPerAccount now).snd
  | .withdraw sessionId roots => s.withdraw sessionId roots
  | .sessionClosed sessionId => s.sessionClosed sessionId
  | .setContact sessionId endpoint => s.setContact sessionId endpoint
  | .renameSession sessionId screenName => s.renameSession sessionId screenName
  | .find root now => (s.findAt root now).snd

def step (s : SwarmCatalog) (op : Op) : Option SwarmCatalog :=
  some (op.run s)

/-!
# What holds of the catalog

A root's list has one advert a session at most and is never kept empty.  What a call does to
the adverts of one root is said once, for every call.
-/

def Adverts.on (map : Adverts) (root : Root) : List Advert :=
  (map.get? root).getD []

/-- At most one advert a session, and no empty list. -/
structure Adverts.Tidy (map : Adverts) : Prop where
  single : forall root, ((map.on root).map Advert.sessionId).Nodup
  full : forall root, map.get? root ≠ some []

section Maps

variable {map : Adverts} {keep : Advert -> Bool} {root root' : Root}

theorem Adverts.on_insert (map : Adverts) (root root' : Root) (adverts : List Advert) :
    Adverts.on (map.insert root adverts) root' =
      if root' = root then adverts else map.on root' := by
  unfold Adverts.on
  rw [get?_insert]
  split
  · rfl
  · rfl

theorem Adverts.on_erase (map : Adverts) (root root' : Root) :
    Adverts.on (map.erase root) root' = if root' = root then [] else map.on root' := by
  unfold Adverts.on
  rw [get?_erase]
  split
  · rfl
  · rfl

theorem Adverts.get?_sift (map : Adverts) (keep : Advert -> Bool) (root : Root) :
    (map.sift keep).get? root =
      if ((map.on root).filter keep).isEmpty then none else some ((map.on root).filter keep) := by
  unfold Adverts.sift Adverts.on
  rw [get?_filterMap]
  cases map.get? root with
  | none => rfl
  | some adverts => rfl

theorem Adverts.on_sift (map : Adverts) (keep : Advert -> Bool) (root : Root) :
    (map.sift keep).on root = (map.on root).filter keep := by
  show ((map.sift keep).get? root).getD [] = _
  rw [Adverts.get?_sift]
  split
  · rename_i hempty
    exact (isEmpty_iff.mp hempty).symm
  · rfl

theorem Adverts.on_siftAt (map : Adverts) (keep : Advert -> Bool) (root root' : Root) :
    (map.siftAt root keep).on root' =
      if root' = root then (map.on root').filter keep else map.on root' := by
  unfold Adverts.siftAt
  cases hfound : map.get? root with
  | none =>
      simp only []
      split
      · rename_i heq
        subst heq
        unfold Adverts.on
        rw [hfound]
        rfl
      · rfl
  | some adverts =>
      have hon : map.on root = adverts := by
        unfold Adverts.on
        rw [hfound]
        rfl
      simp only []
      split
      · rename_i hempty
        rw [Adverts.on_erase]
        split
        · rename_i heq
          subst heq
          rw [hon]
          exact (isEmpty_iff.mp hempty).symm
        · rfl
      · rw [Adverts.on_insert]
        split
        · rename_i heq
          subst heq
          rw [hon]
        · rfl

theorem Adverts.Tidy.sift (h : map.Tidy) (keep : Advert -> Bool) : (map.sift keep).Tidy where
  single := by
    intro root
    rw [Adverts.on_sift]
    exact (h.single root).sublist (filter_sublist.map _)
  full := by
    intro root
    rw [Adverts.get?_sift]
    split
    · exact nofun
    · rename_i hne
      intro hnil
      apply hne
      rw [Option.some.inj hnil]
      rfl

theorem Adverts.Tidy.insert {adverts : List Advert} (h : map.Tidy) (hne : adverts ≠ [])
    (hsingle : (adverts.map Advert.sessionId).Nodup) : Adverts.Tidy (map.insert root adverts) where
  single := by
    intro root'
    rw [Adverts.on_insert]
    split
    · exact hsingle
    · exact h.single root'
  full := by
    intro root'
    rw [get?_insert]
    split
    · intro hnil
      exact hne (Option.some.inj hnil)
    · exact h.full root'

theorem Adverts.Tidy.erase (h : map.Tidy) : Adverts.Tidy (map.erase root) where
  single := by
    intro root'
    rw [Adverts.on_erase]
    split
    · exact nodup_nil
    · exact h.single root'
  full := by
    intro root'
    rw [get?_erase]
    split
    · intro heq
      cases heq
    · exact h.full root'

theorem Adverts.Tidy.siftAt (h : map.Tidy) (root : Root) (keep : Advert -> Bool) :
    (map.siftAt root keep).Tidy := by
  unfold Adverts.siftAt
  cases hfound : map.get? root with
  | none => exact h
  | some adverts =>
      simp only []
      split
      · exact h.erase
      · rename_i hne
        have hon : map.on root = adverts := by
          unfold Adverts.on
          rw [hfound]
          rfl
        apply h.insert
        · intro hnil
          exact hne (isEmpty_iff.mpr hnil)
        · rw [← hon]
          exact (h.single root).sublist (filter_sublist.map _)

end Maps

/-!
## One entry of an announcement
-/

section Announce

variable {by_ : Announcer} {e : NewAdvert} {adverts refreshed : List Advert}

theorem Announcer.refreshFirst_none (h : by_.refreshFirst e adverts = none) :
    forall a, a ∈ adverts -> a.sessionId ≠ by_.sessionId := by
  induction adverts with
  | nil =>
      intro a ha
      cases ha
  | cons first rest ih =>
      unfold Announcer.refreshFirst at h
      split at h
      · cases h
      · rename_i hne
        rw [Option.map_eq_none_iff] at h
        rw [forall_mem_cons]
        exact ⟨hne, ih h⟩

theorem Announcer.refreshFirst_some (h : by_.refreshFirst e adverts = some refreshed) :
    exists front a back, adverts = front ++ a :: back ∧
      refreshed = front ++ by_.refresh e a :: back := by
  induction adverts generalizing refreshed with
  | nil => cases h
  | cons first rest ih =>
      unfold Announcer.refreshFirst at h
      split at h
      · cases h
        exact ⟨[], first, rest, rfl, rfl⟩
      · rcases Option.map_eq_some_iff.mp h with ⟨rest', hrest, rfl⟩
        rcases ih hrest with ⟨front, a, back, hold, hnew⟩
        exact ⟨first :: front, a, back, by rw [hold]; rfl, by rw [hnew]; rfl⟩

/-- What one entry makes of the adverts of its root. -/
inductive Announced (by_ : Announcer) (e : NewAdvert) (adverts : List Advert) :
    List Advert -> Nat -> Prop where
  | refreshed (front : List Advert) (a : Advert) (back : List Advert)
      (hold : adverts = front ++ a :: back) :
      Announced by_ e adverts (front ++ by_.refresh e a :: back) 0
  | refused : Announced by_ e adverts adverts 0
  | added (hnew : forall a, a ∈ adverts -> a.sessionId ≠ by_.sessionId) :
      Announced by_ e adverts (adverts ++ [by_.fresh e]) 1

theorem Announcer.announce_spec (by_ : Announcer) (t : Announcer.Tally) (e : NewAdvert) :
    exists adverts more, Announced by_ e (t.map.on e.root) adverts more ∧
      (by_.announce t e).total = t.total + more ∧
      (0 < more -> 0 < by_.maxPerAccount -> t.total + more <= by_.maxPerAccount) ∧
      ((adverts = [] ∧ (by_.announce t e).map = t.map.erase e.root) ∨
        (adverts ≠ [] ∧ (by_.announce t e).map = t.map.insert e.root adverts)) := by
  unfold Announcer.announce
  have hon : (t.map.get? e.root).getD [] = t.map.on e.root := rfl
  rw [hon]
  simp only []
  cases hrefresh : by_.refreshFirst e (t.map.on e.root) with
  | some refreshed =>
      rcases Announcer.refreshFirst_some hrefresh with ⟨front, a, back, hold, hnew⟩
      refine ⟨refreshed, 0, ?_, rfl, ?_, Or.inr ⟨?_, rfl⟩⟩
      · rw [hnew]
        exact Announced.refreshed front a back hold
      · intro hmore
        cases hmore
      · rw [hnew]
        simp
  | none =>
      simp only []
      split
      · split
        · rename_i hempty
          refine ⟨_, 0, Announced.refused, rfl, ?_, Or.inl ⟨isEmpty_iff.mp hempty, rfl⟩⟩
          intro hmore
          cases hmore
        · rename_i hempty
          refine ⟨_, 0, Announced.refused, rfl, ?_, Or.inr ⟨?_, rfl⟩⟩
          · intro hmore
            cases hmore
          · intro hnil
            exact hempty (isEmpty_iff.mpr hnil)
      · rename_i hroom
        refine ⟨_, 1, Announced.added (Announcer.refreshFirst_none hrefresh), rfl, ?_,
          Or.inr ⟨by simp, rfl⟩⟩
        intro _ hcap
        exact Nat.succ_le_of_lt (Nat.lt_of_not_le (fun hle => hroom ⟨hcap, hle⟩))

/-- Every advert is still there under its session, and whole if it was. -/
def Extends (adverts adverts' : List Advert) : Prop :=
  forall a, a ∈ adverts -> exists a', a' ∈ adverts' ∧ a'.sessionId = a.sessionId ∧
    (a.partial_ = false -> a'.partial_ = false)

theorem Extends.refl (adverts : List Advert) : Extends adverts adverts :=
  fun a ha => ⟨a, ha, rfl, id⟩

theorem Extends.trans {a b c : List Advert} (hab : Extends a b) (hbc : Extends b c) :
    Extends a c := by
  intro x hx
  rcases hab x hx with ⟨y, hy, hsession, hwhole⟩
  rcases hbc y hy with ⟨z, hz, hsession', hwhole'⟩
  exact ⟨z, hz, hsession'.trans hsession, fun h => hwhole' (hwhole h)⟩

variable {adverts' : List Advert} {more : Nat}

section

variable (h : Announced by_ e adverts adverts' more)
include h

theorem Announced.single (hsingle : (adverts.map Advert.sessionId).Nodup) :
    (adverts'.map Advert.sessionId).Nodup := by
  cases h with
  | refreshed front a back hold =>
      rw [hold] at hsingle
      rw [map_append, map_cons] at hsingle ⊢
      exact hsingle
  | refused => exact hsingle
  | added hnew =>
      rw [map_append, map_singleton, nodup_append]
      refine ⟨hsingle, nodup_singleton _, ?_⟩
      intro session hsession session' hlast heq
      rcases mem_map.mp hsession with ⟨a, ha, hid⟩
      apply hnew a ha
      rw [hid, heq]
      exact mem_singleton.mp hlast

theorem Announced.extends : Extends adverts adverts' := by
  cases h with
  | refreshed front a back hold =>
      intro x hx
      rw [hold] at hx
      rcases mem_append.mp hx with hfront | hrest
      · exact ⟨x, mem_append_left _ hfront, rfl, id⟩
      · rcases mem_cons.mp hrest with heq | hback
        · subst heq
          refine ⟨by_.refresh e x, mem_append_right _ mem_cons_self, rfl, ?_⟩
          intro hwhole
          unfold Announcer.refresh
          rw [hwhole]
          rfl
        · exact ⟨x, mem_append_right _ (mem_cons_of_mem _ hback), rfl, id⟩
  | refused => exact Extends.refl adverts
  | added hnew => exact fun x hx => ⟨x, mem_append_left _ hx, rfl, id⟩

theorem Announced.count (accountId : Int) :
    adverts'.countP (fun a => decide (a.accountId = accountId)) =
      adverts.countP (fun a => decide (a.accountId = accountId)) +
        (if by_.accountId = accountId then more else 0) := by
  cases h with
  | refreshed front a back hold =>
      have hsame : (by_.refresh e a).accountId = a.accountId := rfl
      rw [hold, countP_append, countP_append, countP_cons, countP_cons, hsame]
      simp
  | refused => simp
  | added hnew =>
      have hfresh : (by_.fresh e).accountId = by_.accountId := rfl
      rw [countP_append, countP_singleton, hfresh]
      simp only [decide_eq_true_eq]

end

/-!
## A whole announcement
-/

variable {t : Announcer.Tally} {root : Root}

theorem Announcer.tidy_announce (h : t.map.Tidy) : (by_.announce t e).map.Tidy := by
  rcases by_.announce_spec t e with ⟨adverts, more, hannounced, _, _, ⟨_, hmap⟩ | ⟨hne, hmap⟩⟩
  · rw [hmap]
    exact h.erase
  · rw [hmap]
    exact h.insert hne (hannounced.single (h.single e.root))

theorem Announcer.extends_announce (root : Root) :
    Extends (t.map.on root) ((by_.announce t e).map.on root) := by
  rcases by_.announce_spec t e with ⟨adverts, more, hannounced, _, _, hcases⟩
  have hon : (by_.announce t e).map.on root = if root = e.root then adverts else t.map.on root := by
    rcases hcases with ⟨hnil, hmap⟩ | ⟨_, hmap⟩
    · rw [hmap, Adverts.on_erase, hnil]
    · rw [hmap, Adverts.on_insert]
  rw [hon]
  split
  · rename_i heq
    subst heq
    exact hannounced.extends
  · exact Extends.refl _

theorem Adverts.count_on (map : Adverts) (root : Root) (accountId : Int) :
    ((map.get? root).map (fun adverts =>
      adverts.countP (fun a => decide (a.accountId = accountId)))).getD 0 =
      (map.on root).countP (fun a => decide (a.accountId = accountId)) := by
  unfold Adverts.on
  cases map.get? root with
  | none => rfl
  | some adverts => rfl

theorem Announcer.count_announce (by_ : Announcer) (t : Announcer.Tally) (e : NewAdvert)
    (accountId : Int) :
    exists more, (by_.announce t e).total = t.total + more ∧
      (0 < more -> 0 < by_.maxPerAccount -> t.total + more <= by_.maxPerAccount) ∧
      liveCountForAccount (by_.announce t e).map accountId =
        liveCountForAccount t.map accountId + (if by_.accountId = accountId then more else 0) := by
  rcases by_.announce_spec t e with ⟨adverts, more, hannounced, htotal, hroom, hcases⟩
  refine ⟨more, htotal, hroom, ?_⟩
  have hcount := hannounced.count accountId
  have hold := Adverts.count_on t.map e.root accountId
  unfold liveCountForAccount
  rcases hcases with ⟨hnil, hmap⟩ | ⟨_, hmap⟩
  · have hsum := sum_erase_add
      (fun adverts => adverts.countP (fun a => decide (a.accountId = accountId))) t.map e.root
    rw [hnil, countP_nil] at hcount
    rw [hmap]
    omega
  · have hsum := sum_insert_add
      (fun adverts => adverts.countP (fun a => decide (a.accountId = accountId))) t.map e.root
      adverts
    rw [hmap]
    omega

theorem Announcer.fold_spec (by_ : Announcer) (entries : List NewAdvert) (t : Announcer.Tally)
    (h : t.map.Tidy) :
    (entries.foldl by_.announce t).map.Tidy ∧
      forall root, Extends (t.map.on root) ((entries.foldl by_.announce t).map.on root) := by
  induction entries generalizing t with
  | nil => exact ⟨h, fun root => Extends.refl _⟩
  | cons e rest ih =>
      rcases ih (by_.announce t e) (Announcer.tidy_announce h) with ⟨htidy, hextends⟩
      exact ⟨htidy, fun root => (Announcer.extends_announce root).trans (hextends root)⟩

theorem Announcer.count_fold_of_ne (by_ : Announcer) (entries : List NewAdvert) {accountId : Int}
    (hne : by_.accountId ≠ accountId) (t : Announcer.Tally) :
    liveCountForAccount (entries.foldl by_.announce t).map accountId =
      liveCountForAccount t.map accountId := by
  induction entries generalizing t with
  | nil => rfl
  | cons e rest ih =>
      rcases by_.count_announce t e accountId with
        ⟨more, _, _, hcount⟩
      rw [if_neg hne, Nat.add_zero] at hcount
      rw [foldl_cons, ih, hcount]

theorem Announcer.count_fold_le (entries : List NewAdvert) (hcap : 0 < by_.maxPerAccount)
    (t : Announcer.Tally) (htotal : t.total = liveCountForAccount t.map by_.accountId)
    (hle : t.total <= by_.maxPerAccount) :
    liveCountForAccount (entries.foldl by_.announce t).map by_.accountId <= by_.maxPerAccount := by
  induction entries generalizing t with
  | nil =>
      rw [foldl_nil, ← htotal]
      exact hle
  | cons e rest ih =>
      rcases by_.count_announce t e by_.accountId with
        ⟨more, hnext, hroom, hcount⟩
      rw [if_pos rfl] at hcount
      rw [foldl_cons]
      apply ih
      · rw [hnext, hcount, htotal]
      · rw [hnext]
        rcases Nat.eq_zero_or_pos more with hzero | hpos
        · rw [hzero]
          exact hle
        · exact hroom hpos hcap

end Announce

/-!
## Every call
-/

theorem Adverts.count_sift_le (map : Adverts) (keep : Advert -> Bool) (accountId : Int) :
    liveCountForAccount (map.sift keep) accountId <= liveCountForAccount map accountId := by
  apply sum_filterMap_le
  intro root adverts adverts' hchange
  split at hchange
  · cases hchange
  · cases hchange
    exact Sublist.countP_le filter_sublist

theorem Adverts.count_siftAt_le (map : Adverts) (root : Root) (keep : Advert -> Bool)
    (accountId : Int) :
    liveCountForAccount (map.siftAt root keep) accountId <=
      liveCountForAccount map accountId := by
  unfold Adverts.siftAt
  cases hfound : map.get? root with
  | none => exact Nat.le_refl _
  | some adverts =>
      simp only []
      split
      · have hsum := sum_erase_add
          (fun adverts => adverts.countP (fun a => decide (a.accountId = accountId))) map root
        unfold liveCountForAccount
        omega
      · have hsum := sum_insert_add
          (fun adverts => adverts.countP (fun a => decide (a.accountId = accountId))) map root
          (adverts.filter keep)
        have hfewer : (adverts.filter keep).countP (fun a => decide (a.accountId = accountId)) <=
            adverts.countP (fun a => decide (a.accountId = accountId)) :=
          Sublist.countP_le filter_sublist
        rw [hfound] at hsum
        simp only [Option.map_some, Option.getD_some] at hsum
        unfold liveCountForAccount
        omega

/-- What a call that adds nothing does: fewer adverts, the others by another name at most. -/
structure Adverts.Shrinks (map map' : Adverts) : Prop where
  tidy : map.Tidy -> map'.Tidy
  from_ : forall root a', a' ∈ map'.on root -> exists a, a ∈ map.on root ∧
    a.sessionId = a'.sessionId ∧ a.partial_ = a'.partial_
  count : forall accountId, liveCountForAccount map' accountId <= liveCountForAccount map accountId

theorem Adverts.Shrinks.of_subset {map map' : Adverts} (htidy : map.Tidy -> map'.Tidy)
    (hsubset : forall root, map'.on root ⊆ map.on root)
    (hcount : forall accountId,
      liveCountForAccount map' accountId <= liveCountForAccount map accountId) :
    map.Shrinks map' where
  tidy := htidy
  from_ := fun root a ha => ⟨a, hsubset root ha, rfl, rfl⟩
  count := hcount

theorem Adverts.Shrinks.refl (map : Adverts) : map.Shrinks map :=
  Adverts.Shrinks.of_subset id (fun _ => Subset.refl _) (fun _ => Nat.le_refl _)

theorem Adverts.Shrinks.trans {a b c : Adverts} (hab : a.Shrinks b) (hbc : b.Shrinks c) :
    a.Shrinks c where
  tidy := fun h => hbc.tidy (hab.tidy h)
  from_ := by
    intro root z hz
    rcases hbc.from_ root z hz with ⟨y, hy, hsession, hpartial⟩
    rcases hab.from_ root y hy with ⟨x, hx, hsession', hpartial'⟩
    exact ⟨x, hx, hsession'.trans hsession, hpartial'.trans hpartial⟩
  count := fun accountId => Nat.le_trans (hbc.count accountId) (hab.count accountId)

theorem Adverts.shrinks_sift (map : Adverts) (keep : Advert -> Bool) :
    map.Shrinks (map.sift keep) := by
  apply Adverts.Shrinks.of_subset
  · exact fun h => h.sift keep
  · intro root
    rw [Adverts.on_sift]
    intro a ha
    exact mem_of_mem_filter ha
  · exact map.count_sift_le keep

theorem Adverts.shrinks_siftAt (map : Adverts) (root : Root) (keep : Advert -> Bool) :
    map.Shrinks (map.siftAt root keep) := by
  apply Adverts.Shrinks.of_subset
  · exact fun h => h.siftAt root keep
  · intro root' a ha
    rw [Adverts.on_siftAt] at ha
    split at ha
    · exact mem_of_mem_filter ha
    · exact ha
  · exact map.count_siftAt_le root keep

theorem SwarmCatalog.shrinks_withdraw (s : SwarmCatalog) (sessionId : Nat)
    (roots : List Root) : s.inner.Shrinks (s.withdraw sessionId roots).inner := by
  unfold SwarmCatalog.withdraw
  simp only []
  split
  · exact s.inner.shrinks_sift _
  · generalize s.inner = map
    induction roots generalizing map with
    | nil => exact Adverts.Shrinks.refl map
    | cons first rest ih =>
        by_cases hrest : rest.isEmpty
        · rw [isEmpty_iff.mp hrest]
          exact map.shrinks_siftAt first _
        · exact (map.shrinks_siftAt first _).trans (ih hrest _)

theorem SwarmCatalog.on_rename (s : SwarmCatalog) (sessionId : Nat) (screenName : String)
    (root : Root) :
    (s.renameSession sessionId screenName).inner.on root =
      (s.inner.on root).map (fun a =>
        if a.sessionId = sessionId then { a with screenName := screenName } else a) := by
  unfold SwarmCatalog.renameSession Adverts.on
  simp only []
  rw [get?_mapValues]
  cases s.inner.get? root with
  | none => rfl
  | some adverts => rfl

variable {s : SwarmCatalog}

theorem SwarmCatalog.tidy_rename (h : s.inner.Tidy) (sessionId : Nat) (screenName : String) :
    (s.renameSession sessionId screenName).inner.Tidy where
  single := by
    intro root
    rw [SwarmCatalog.on_rename, map_map]
    have hsame : (Advert.sessionId ∘ fun a : Advert =>
        if a.sessionId = sessionId then { a with screenName := screenName } else a) =
        Advert.sessionId := by
      funext a
      rw [Function.comp_apply]
      split
      · rfl
      · rfl
    rw [hsame]
    exact h.single root
  full := by
    intro root hnil
    apply h.full root
    unfold SwarmCatalog.renameSession at hnil
    simp only [] at hnil
    rw [get?_mapValues] at hnil
    rcases Option.map_eq_some_iff.mp hnil with ⟨adverts, hadverts, hmap⟩
    rw [hadverts, map_eq_nil_iff.mp hmap]

theorem SwarmCatalog.shrinks_rename (s : SwarmCatalog) (sessionId : Nat) (screenName : String) :
    s.inner.Shrinks (s.renameSession sessionId screenName).inner where
  tidy := fun h => SwarmCatalog.tidy_rename h sessionId screenName
  from_ := by
    intro root a' ha'
    rw [SwarmCatalog.on_rename] at ha'
    rcases mem_map.mp ha' with ⟨a, ha, hrenamed⟩
    refine ⟨a, ha, ?_⟩
    rw [← hrenamed]
    split
    all_goals exact ⟨rfl, rfl⟩
  count := by
    intro accountId
    apply sum_filterMap_le
    intro root adverts adverts' hchange
    cases hchange
    rw [countP_map]
    apply Nat.le_of_eq
    congr 1
    funext a
    rw [Function.comp_apply]
    split
    · rfl
    · rfl

/-- The time a call is made at, when it looks at the clock. -/
def Op.now : Op -> Option Nat
  | .advertise _ _ _ _ _ _ now => some now
  | .find _ now => some now
  | _ => none

def Op.Caps (accountId : Int) (m : Nat) : Op -> Prop
  | .advertise _ account _ _ _ maxPerAccount _ => account = accountId -> maxPerAccount = m
  | _ => True

theorem Op.shrinks_or_advertise (s : SwarmCatalog) (op : Op) :
    s.inner.Shrinks (op.run s).inner ∨
      exists entries accountId sessionId screenName ttl maxPerAccount now,
        op = .advertise entries accountId sessionId screenName ttl maxPerAccount now := by
  cases op with
  | advertise entries accountId sessionId screenName ttl maxPerAccount now =>
      exact Or.inr ⟨entries, accountId, sessionId, screenName, ttl, maxPerAccount, now, rfl⟩
  | withdraw sessionId roots => exact Or.inl (s.shrinks_withdraw sessionId roots)
  | sessionClosed sessionId => exact Or.inl (s.shrinks_withdraw sessionId [])
  | setContact sessionId endpoint => exact Or.inl (Adverts.Shrinks.refl s.inner)
  | renameSession sessionId screenName =>
      exact Or.inl (s.shrinks_rename sessionId screenName)
  | find root now => exact Or.inl (s.inner.shrinks_siftAt root _)

theorem tidy_run (h : s.inner.Tidy) (op : Op) : (op.run s).inner.Tidy := by
  rcases op.shrinks_or_advertise s with hshrinks | ⟨_, _, _, _, _, _, now, rfl⟩
  · exact hshrinks.tidy h
  · exact (Announcer.fold_spec _ _ _ (h.sift _)).left

theorem whole_run (h : s.inner.Tidy) {op : Op} {root : Root} {a a' : Advert}
    (ha : a ∈ s.inner.on root) (hwhole : a.partial_ = false)
    (halive : forall now, op.now = some now -> now < a.expiresAt)
    (ha' : a' ∈ (op.run s).inner.on root) (hsession : a'.sessionId = a.sessionId) :
    a'.partial_ = false := by
  rcases op.shrinks_or_advertise s with hshrinks |
    ⟨entries, accountId, sessionId, screenName, ttl, maxPerAccount, now, rfl⟩
  · rcases hshrinks.from_ root a' ha' with ⟨before, hbefore, hsame, hpartial⟩
    have heq : before = a :=
      inj_on_of_nodup_map (h.single root) hbefore ha (hsame.trans hsession)
    rw [← hpartial, heq, hwhole]
  · have hkept : a ∈ (prune s.inner now).on root := by
      unfold prune
      rw [Adverts.on_sift, mem_filter]
      exact ⟨ha, decide_eq_true (halive now rfl)⟩
    rcases Announcer.fold_spec ⟨accountId, sessionId, screenName, now + ttl, maxPerAccount⟩ entries
      ⟨prune s.inner now, liveCountForAccount (prune s.inner now) accountId, 0⟩ (h.sift _) with
      ⟨htidy, hextends⟩
    rcases hextends root a hkept with ⟨after, hafter, hsame, hstays⟩
    have heq : a' = after :=
      inj_on_of_nodup_map (htidy.single root) ha' hafter (hsession.trans hsame.symm)
    rw [heq]
    exact hstays hwhole

theorem count_run_le {op : Op} {accountId : Int} {m : Nat} (hm : 0 < m)
    (hcaps : op.Caps accountId m) (h : liveCountForAccount s.inner accountId <= m) :
    liveCountForAccount (op.run s).inner accountId <= m := by
  rcases op.shrinks_or_advertise s with hshrinks | 
    ⟨entries, account, sessionId, screenName, ttl, maxPerAccount, now, rfl⟩
  · exact Nat.le_trans (hshrinks.count accountId) h
  · have hpruned : liveCountForAccount (prune s.inner now) accountId <= m :=
      Nat.le_trans (s.inner.count_sift_le _ accountId) h
    by_cases hown : account = accountId
    · have hcap := hcaps hown
      subst hcap
      subst hown
      exact Announcer.count_fold_le _ hm _ rfl hpruned
    · have hsame := Announcer.count_fold_of_ne
        ⟨account, sessionId, screenName, now + ttl, maxPerAccount⟩ entries hown
        ⟨prune s.inner now, liveCountForAccount (prune s.inner now) account, 0⟩
      rw [← hsame] at hpruned
      exact hpruned

/-!
## The catalog, in every run
-/

theorem tidy_reachable {ops : List Op} (hrun : run? step SwarmCatalog.new ops = some s) :
    s.inner.Tidy := by
  have hstep : forall (s : SwarmCatalog) (op : Op) (s' : SwarmCatalog),
      s.inner.Tidy -> step s op = some s' -> s'.inner.Tidy := by
    intro s op s' h hstep
    cases hstep
    exact tidy_run h op
  have hnew : SwarmCatalog.new.inner.Tidy := ⟨fun _ => nodup_nil, fun _ => nofun⟩
  exact run?_invariant hstep hnew hrun

theorem count_reachable {ops : List Op} {accountId : Int} {m : Nat} (hm : 0 < m)
    (hcaps : forall op, op ∈ ops -> op.Caps accountId m)
    (hrun : run? step SwarmCatalog.new ops = some s) :
    liveCountForAccount s.inner accountId <= m := by
  have hstep : forall (s : SwarmCatalog) (op : Op) (s' : SwarmCatalog),
      liveCountForAccount s.inner accountId <= m -> op.Caps accountId m ->
      step s op = some s' -> liveCountForAccount s'.inner accountId <= m := by
    intro s op s' h hcaps hstep
    cases hstep
    exact count_run_le hm hcaps h
  have halong : Along step (fun _ op => op.Caps accountId m) SwarmCatalog.new ops :=
    along_of_invariant (fun _ => True) (fun _ _ _ _ _ => trivial)
      (fun _ op hop _ => hcaps op hop) trivial
  have hnew : liveCountForAccount SwarmCatalog.new.inner accountId <= m := Nat.zero_le m
  exact run?_invariant_along hstep hnew halong hrun

/--
At most one advert a session and root and no empty list; only live adverts found; none
of a closed session left; whole for as long as it lives; and no more than the cap.
-/
theorem catalog_soft_state {ops : List Op} {s : SwarmCatalog}
    (hrun : run? step SwarmCatalog.new ops = some s) :
    s.inner.Tidy ∧
      (forall root now a, a ∈ (s.findAt root now).fst -> now < a.expiresAt) ∧
      (forall sessionId root a, a ∈ (s.sessionClosed sessionId).inner.on root ->
        a.sessionId ≠ sessionId) ∧
      (forall op root a a', a ∈ s.inner.on root -> a.partial_ = false ->
        (forall now, Op.now op = some now -> now < a.expiresAt) ->
        a' ∈ (op.run s).inner.on root -> a'.sessionId = a.sessionId -> a'.partial_ = false) ∧
      (forall accountId m, 0 < m -> (forall op, op ∈ ops -> op.Caps accountId m) ->
        liveCountForAccount s.inner accountId <= m ∧
        forall now, liveCountForAccount (prune s.inner now) accountId <= m) := by
  have htidy := tidy_reachable hrun
  refine ⟨htidy, ?_, ?_, ?_, ?_⟩
  · intro root now a ha
    have hfound : a ∈ (s.inner.siftAt root (fun a => decide (now < a.expiresAt))).on root := ha
    rw [Adverts.on_siftAt, if_pos rfl, mem_filter] at hfound
    exact of_decide_eq_true hfound.right
  · intro sessionId root a ha
    have hleft : a ∈ (s.inner.sift (fun a => decide (a.sessionId ≠ sessionId))).on root := ha
    rw [Adverts.on_sift, mem_filter] at hleft
    exact of_decide_eq_true hleft.right
  · intro op root a a' ha hwhole halive ha' hsession
    exact whole_run htidy ha hwhole halive ha' hsession
  · intro accountId m hm hcaps
    have hcount := count_reachable hm hcaps hrun
    exact ⟨hcount, fun now => Nat.le_trans (s.inner.count_sift_le _ accountId) hcount⟩

def pairOfOnes : List NewAdvert :=
  [⟨1#256, 9, "a", "", false⟩, ⟨1#256, 9, "a", "", true⟩, ⟨2#256, 9, "b", "", false⟩]

/-- Two sessions of one account, one root named twice, room for two. -/
def crowded : List Op :=
  [.advertise pairOfOnes 10 1 "ann" 60 2 0, .advertise pairOfOnes 10 2 "ann" 60 2 5]

theorem catalog_soft_state_crowded :
    exists s, run? step SwarmCatalog.new crowded = some s ∧
      liveCountForAccount s.inner 10 = 2 ∧ liveCountForAccount s.inner 10 <= 2 := by
  have hrun : run? step SwarmCatalog.new crowded =
      some (crowded.foldl Op.run SwarmCatalog.new) := rfl
  refine ⟨_, hrun, by decide, ?_⟩
  rcases catalog_soft_state hrun with ⟨_, _, _, _, hcap⟩
  refine (hcap 10 2 (by decide) ?_).left
  intro op hop
  rcases mem_cons.mp hop with rfl | hop
  · exact fun _ => rfl
  · rcases mem_singleton.mp hop with rfl
    exact fun _ => rfl

end Rabbithole.Catalog
