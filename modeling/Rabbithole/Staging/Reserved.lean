import Rabbithole.Foundation.Weighing
import Rabbithole.Staging.Index

/-!
# Every lease can be filled

A leased record counts with the cap of its lease, so that what is written through a lease
has been counted before.
-/

namespace Rabbithole.Staging

open Foundation Option Dict

variable {index index' : Index} {id : String} {h : Hashes} {disk : Disk} {now cap : Nat}
  {record : Record} {lease lease' : Lease}

namespace Index

/-!
## What the records weigh
-/

/-- Over all records: the cap of the lease, or the length where there is none. -/
def weight (index : Index) : Nat :=
  index.records.weigh index.held

theorem weight_split (index : Index) (id : String) :
    index.weight = ((index.records.get? id).map (index.held id)).getD 0 + index.reserved id :=
  weigh_split index.held index.records id

theorem reserved_congr (index : Index)
    (hrecords : forall k, k ≠ id -> index'.records.get? k = index.records.get? k)
    (hclaimed : forall k, k ≠ id -> index'.claimed.get? k = index.claimed.get? k) :
    index'.reserved id = index.reserved id := by
  apply weigh_congr
  · intro k
    rw [get?_erase, get?_erase]
    split
    · rfl
    · rename_i hk
      exact hrecords k hk
  · intro k r hk
    rw [get?_erase] at hk
    split at hk
    · cases hk
    · rename_i hne
      unfold held
      rw [hclaimed k hne]

/-- The bounds that hold at all times: a leased record is not longer than its cap. -/
structure Bounded (index : Index) : Prop where
  records : index.records.size <= maxRecords
  within : forall id r cap, index.records.get? id = some r ->
    index.claimed.get? id = some cap -> r.len <= cap
  weight : index.weight <= maxTotal

theorem bounded_empty : Bounded Index.empty where
  records := Nat.zero_le _
  within := fun _ _ _ hr _ => by cases hr
  weight := Nat.zero_le _

theorem Bounded.latch (hb : Bounded index) {result : Type} (outcome : Except StagingError result) :
    Bounded (index.latchError outcome) := by
  unfold latchError
  cases outcome with
  | ok _ => exact hb
  | error e =>
      simp only []
      split
      · exact ⟨hb.records, hb.within, hb.weight⟩
      · exact hb

theorem claimed_latch {result : Type} (index : Index) (outcome : Except StagingError result) :
    (index.latchError outcome).claimed = index.claimed := by
  unfold latchError
  cases outcome with
  | ok _ => rfl
  | error e =>
      simp only []
      split
      · rfl
      · rfl

theorem Bounded.erase (hb : Bounded index) (id : String) :
    Bounded { index with records := index.records.erase id } := by
  constructor
  · exact (size_filterMap_le _ _).trans hb.records
  · intro k r cap hr hcap
    rw [get?_erase] at hr
    split at hr
    · cases hr
    · exact hb.within k r cap hr hcap
  · have hweight := hb.weight
    rw [weight_split index id] at hweight
    rw [weight_split _ id, get?_erase, if_pos rfl, reserved_congr index]
    · show 0 + index.reserved id <= maxTotal
      omega
    · intro k hk
      rw [get?_erase, if_neg hk]
    · exact fun _ _ => rfl

theorem Bounded.insert (hb : Bounded index) (id : String) (record : Record)
    (hrecords : index'.records.size <= maxRecords)
    (hget : forall k, index'.records.get? k =
      if k = id then some record else index.records.get? k)
    (hothers : forall k, k ≠ id -> index'.claimed.get? k = index.claimed.get? k)
    (hwithin : forall cap, index'.claimed.get? id = some cap -> record.len <= cap)
    (hroom : index.reserved id + index'.held id record <= maxTotal) : Bounded index' := by
  constructor
  · exact hrecords
  · intro k r cap hr hcap
    rw [hget k] at hr
    split at hr
    · rename_i hk
      cases hr
      rw [hk] at hcap
      exact hwithin cap hcap
    · rename_i hk
      rw [hothers k hk] at hcap
      exact hb.within k r cap hr hcap
  · rw [weight_split index' id, hget id, if_pos rfl, map_some, getD_some, reserved_congr index]
    · omega
    · intro k hk
      rw [hget k, if_neg hk]
    · exact hothers

/-!
## The operations
-/

theorem removeAll_bounded (hb : Bounded index) (ids : List String) :
    Bounded (Index.removeAll disk ids index).snd ∧
      (Index.removeAll disk ids index).snd.claimed = index.claimed := by
  induction ids generalizing index with
  | nil => exact ⟨hb, rfl⟩
  | cons id rest ih =>
      unfold removeAll
      cases disk.remove id with
      | some e => exact ⟨hb, rfl⟩
      | none => exact ih (hb.erase id)

theorem expire_bounded (hb : Bounded index) (disk : Disk) (now : Nat) :
    Bounded (index.expire disk now).snd ∧ (index.expire disk now).snd.claimed = index.claimed :=
  removeAll_bounded hb _

theorem reset_bounded (hb : Bounded index) (h : Hashes) (disk : Disk) (now : Nat)
    (target : Target) (offer : Offer) (hfree : index.claimed.get? id = none) :
    Bounded (index.reset h disk now id target offer).snd ∧
      (index.reset h disk now id target offer).snd.claimed = index.claimed ∧
      (index.reset h disk now id target offer).snd.reserved id = index.reserved id ∧
      ((index.reset h disk now id target offer).fst = .ok () ->
        exists r, (index.reset h disk now id target offer).snd.records.get? id = some r ∧
          r.len = 0) := by
  unfold reset
  split
  · exact ⟨hb, rfl, rfl, fun hok => by cases hok⟩
  · simp only []
    have herased : Index.reserved { index with records := index.records.erase id } id =
        index.reserved id := by
      apply reserved_congr index
      · intro k hk
        rw [get?_erase, if_neg hk]
      · exact fun _ _ => rfl
    split
    · exact ⟨hb.erase id, rfl, herased, fun hok => by cases hok⟩
    · rename_i hroom
      split
      · exact ⟨hb.erase id, rfl, herased, fun hok => by cases hok⟩
      · refine ⟨?_, rfl, ?_, fun _ => ⟨_, by rw [get?_insert, if_pos rfl], rfl⟩⟩
        · refine (hb.erase id).insert id
            { version := 1, target := target, offer := offer, len := 0, digest := h.content [],
              expires := saturatingAdd now ttl } ?_ ?_ ?_ ?_ ?_
          · exact (Nat.le.intro (size_insert _ _ _)).trans (Nat.not_le.mp hroom)
          · intro k
            rw [get?_insert]
          · exact fun _ _ => rfl
          · intro cap hcap
            rw [hfree] at hcap
            cases hcap
          · have hweight := hb.weight
            rw [weight_split index id] at hweight
            rw [herased]
            unfold held
            show index.reserved id + (index.claimed.get? id).getD 0 <= maxTotal
            rw [hfree]
            show index.reserved id + 0 <= maxTotal
            omega
        · apply reserved_congr index
          · intro k hk
            rw [get?_insert, if_neg hk, get?_erase, if_neg hk]
          · exact fun _ _ => rfl

variable {r : Record}

theorem Bounded.grant (hb : Bounded index) (hr : index.records.get? id = some r)
    (hlen : r.len <= cap) (hroom : index.reserved id + cap <= maxTotal) :
    Bounded { index with claimed := index.claimed.insert id cap } := by
  refine hb.insert id r hb.records ?_ ?_ ?_ ?_
  · intro k
    split
    · rename_i hk
      rw [hk, hr]
    · rfl
  · intro k hk
    rw [get?_insert, if_neg hk]
  · intro cap' hcap
    rw [get?_insert, if_pos rfl] at hcap
    cases hcap
    exact hlen
  · unfold held
    rw [get?_insert, if_pos rfl]
    exact hroom

theorem load_some {target : Target} {offer : Offer} {resume : Bool} {data : Bytes}
    (hload : index.load disk id target offer resume cap = .ok (some data)) :
    exists r, index.records.get? id = some r ∧ r.len <= cap := by
  unfold load at hload
  split at hload
  · cases hload
  · rename_i r hr
    rcases filter_eq_some_iff.mp hr with ⟨hfound, hmatch⟩
    rw [Bool.and_eq_true, decide_eq_true_eq] at hmatch
    exact ⟨r, hfound, hmatch.right.right.right⟩

/-- What a claim does: it fails and takes nothing, or gives the lease that was free. -/
inductive Claimed (index : Index) (cap : Nat) :
    Except StagingError (String × Bytes) -> Index -> Prop where
  | failed (e : StagingError) (index' : Index) (hb : Bounded index')
      (hsame : index'.claimed = index.claimed) : Claimed index cap (.error e) index'
  | granted (id : String) (data : Bytes) (index' : Index) (hb : Bounded index')
      (hfree : index.claimed.get? id = none)
      (hclaimed : index'.claimed = index.claimed.insert id cap) :
      Claimed index cap (.ok (id, data)) index'

section

variable (hb : Bounded index)
include hb

theorem claim_claimed (h : Hashes) (disk : Disk) (now : Nat) (target : Target) (mode : ClaimMode)
    (cap : Nat) : Claimed index cap (index.claim h disk now target mode cap).fst
      (index.claim h disk now target mode cap).snd := by
  unfold claim
  split
  · exact .failed _ _ hb rfl
  · cases targetId h target with
    | error e => exact .failed _ _ hb rfl
    | ok id =>
        simp only []
        rcases expire_bounded hb disk now with ⟨hexpired, hsame⟩
        cases hexpire : index.expire disk now with
        | mk outcome expired =>
            rw [hexpire] at hexpired hsame
            cases outcome with
            | error e => exact .failed _ _ hexpired hsame
            | ok _ =>
                simp only [] at hexpired hsame ⊢
                split
                · exact .failed _ _ hexpired hsame
                · rename_i hfree
                  split
                  · exact .failed _ _ hexpired hsame
                  · split
                    · exact .failed _ _ hexpired hsame
                    · rename_i hroom
                      have hnone : expired.claimed.get? id = none := by
                        cases hget : expired.claimed.get? id with
                        | none => rfl
                        | some other =>
                            unfold Dict.contains at hfree
                            rw [hget] at hfree
                            exact absurd rfl hfree
                      split
                      · exact .failed _ _ hexpired hsame
                      · rename_i data hload
                        rcases load_some hload with ⟨r, hr, hlen⟩
                        refine .granted id data _ (hexpired.grant hr hlen (Nat.not_lt.mp hroom))
                          ?_ ?_
                        · rw [<- hsame, hnone]
                        · rw [<- hsame]
                      · rcases reset_bounded hexpired h disk now target
                          (expired.offerOf id mode).fst hnone with
                          ⟨hreset, hclaimed, hreserved, hrecord⟩
                        cases hdone : expired.reset h disk now id target
                            (expired.offerOf id mode).fst with
                        | mk outcome fresh =>
                            rw [hdone] at hreset hclaimed hreserved hrecord
                            cases outcome with
                            | error e => exact .failed _ _ hreset (hclaimed.trans hsame)
                            | ok done =>
                                rcases hrecord rfl with ⟨r, hr, hlen⟩
                                refine .granted id [] _ (hreset.grant hr ?_ ?_) ?_ ?_
                                · rw [hlen]
                                  exact Nat.zero_le _
                                · rw [hreserved]
                                  exact Nat.not_lt.mp hroom
                                · rw [<- hsame, hnone]
                                · show fresh.claimed.insert id cap = _
                                  rw [<- hsame, <- hclaimed]

theorem Bounded.update {old : Record} (hold : index.records.get? id = some old)
    (hlen : forall cap, index.claimed.get? id = some cap -> record.len <= cap)
    (hroom : index.reserved id + index.held id record <= maxTotal) :
    Bounded { index with records := index.records.insert id record } := by
  refine hb.insert id record ?_ ?_ ?_ hlen hroom
  · have hsize := size_insert index.records id record
    have hthere : index.records.contains id = true := by
      unfold Dict.contains
      rw [hold]
      rfl
    rw [if_pos hthere] at hsize
    have hrecords := hb.records
    show (index.records.insert id record).size <= maxRecords
    omega
  · intro k
    rw [get?_insert]
  · exact fun _ _ => rfl

theorem Bounded.updateLeased {old : Record} (hold : index.records.get? id = some old)
    (hcap : index.claimed.get? id = some cap) (hlen : record.len <= cap) :
    Bounded { index with records := index.records.insert id record } := by
  apply hb.update hold
  · intro cap' hcap'
    rw [hcap] at hcap'
    cases hcap'
    exact hlen
  · have hweight := hb.weight
    rw [weight_split index id, hold, map_some, getD_some] at hweight
    unfold held at *
    rw [hcap, getD_some] at *
    omega

theorem bind_bounded (hcap : index.claimed.get? lease.id = some lease.cap) (disk : Disk)
    (length : Nat) :
    Bounded (index.bindHotlineLength disk lease length).snd ∧
      (index.bindHotlineLength disk lease length).snd.claimed = index.claimed := by
  unfold bindHotlineLength
  split
  · exact ⟨hb, rfl⟩
  · split
    · exact ⟨hb, rfl⟩
    · rename_i old hold
      split
      · exact ⟨hb, rfl⟩
      · split
        · exact ⟨hb, rfl⟩
        · split
          · exact ⟨hb, rfl⟩
          · split
            · exact ⟨hb, rfl⟩
            · exact ⟨hb.updateLeased hold hcap (hb.within _ old _ hold hcap), rfl⟩

theorem append_bounded (hcap : index.claimed.get? lease.id = some lease.cap) (h : Hashes)
    (disk : Disk) (now offset : Nat) (bytes : Bytes) :
    Bounded (index.append h disk now lease offset bytes).snd.fst ∧
      (index.append h disk now lease offset bytes).snd.fst.claimed = index.claimed ∧
      (index.append h disk now lease offset bytes).snd.snd.id = lease.id ∧
      (index.append h disk now lease offset bytes).snd.snd.cap = lease.cap := by
  unfold append
  split
  · exact ⟨hb, rfl, rfl, rfl⟩
  · split
    · exact ⟨hb, rfl, rfl, rfl⟩
    · rename_i old hold
      simp only []
      split
      · exact ⟨hb, rfl, rfl, rfl⟩
      · split
        · exact ⟨hb, rfl, rfl, rfl⟩
        · rename_i hfits
          split
          · exact ⟨hb, rfl, rfl, rfl⟩
          · split
            · exact ⟨hb, rfl, rfl, rfl⟩
            · split
              · exact ⟨hb, rfl, rfl, rfl⟩
              · refine ⟨hb.updateLeased hold hcap ?_, rfl, rfl, rfl⟩
                rw [not_or, not_or] at hfits
                exact Nat.not_lt.mp hfits.right.left

theorem discard_bounded (disk : Disk) (lease : Lease) :
    Bounded (index.discard disk lease).snd ∧
      (index.discard disk lease).snd.claimed = index.claimed := by
  unfold discard
  split
  · exact ⟨hb, rfl⟩
  · exact ⟨hb.erase lease.id, rfl⟩

theorem dropClaim_bounded (hcap : index.claimed.get? lease.id = some lease.cap) :
    Bounded (index.dropClaim lease) := by
  cases hrecord : index.records.get? lease.id with
  | none =>
      constructor
      · exact hb.records
      · intro k r cap hr hcap'
        unfold dropClaim at hcap'
        rw [get?_erase] at hcap'
        split at hcap'
        · cases hcap'
        · exact hb.within k r cap hr hcap'
      · have hweight := hb.weight
        have hnone : (index.dropClaim lease).records.get? lease.id = none := hrecord
        rw [weight_split index lease.id, hrecord] at hweight
        rw [weight_split _ lease.id, hnone, reserved_congr index]
        · exact hweight
        · exact fun _ _ => rfl
        · intro k hk
          unfold dropClaim
          rw [get?_erase, if_neg hk]
  | some r =>
      refine hb.insert lease.id r hb.records ?_ ?_ ?_ ?_
      · intro k
        split
        · rename_i hk
          rw [hk]
          exact hrecord
        · rfl
      · intro k hk
        unfold dropClaim
        rw [get?_erase, if_neg hk]
      · intro cap hcap'
        unfold dropClaim at hcap'
        rw [get?_erase, if_pos rfl] at hcap'
        cases hcap'
      · have hweight := hb.weight
        have hlen := hb.within lease.id r lease.cap hrecord hcap
        rw [weight_split index lease.id, hrecord, map_some, getD_some] at hweight
        unfold held at *
        unfold dropClaim
        rw [hcap, getD_some] at hweight
        rw [get?_erase, if_pos rfl, getD_none]
        omega

end

theorem weight_eq_total (hclaimed : index.claimed = Dict.empty) : index.weight = index.total := by
  unfold weight total Dict.weigh Dict.sum held
  rw [hclaimed]
  rfl

theorem of_removed {gone : Option DiskError} {next : Except StagingError Index}
    (h : (match gone with
      | some e => Except.error (StagingError.disk e)
      | none => next) = .ok index') : next = .ok index' := by
  cases gone with
  | none => exact h
  | some e => cases h

theorem recover_bounded (h : Hashes) (now : Nat) (found : List Found) (hb : Bounded index)
    (hclaimed : index.claimed = Dict.empty) (hrecover : recover h now found index = .ok index') :
    Bounded index' ∧ index'.claimed = Dict.empty := by
  induction found generalizing index with
  | nil =>
      cases hrecover
      exact ⟨hb, hclaimed⟩
  | cons first rest ih =>
      unfold recover at hrecover
      simp only [] at hrecover
      split at hrecover
      · split at hrecover
        · cases hrecover
        · exact ih hb hclaimed (of_removed hrecover)
      · rename_i record _
        split at hrecover
        · rename_i hkept
          split at hrecover
          · have hnext : Bounded
                { index with records := index.records.insert first.id record } := by
              refine hb.insert first.id record ?_ ?_ ?_ ?_ ?_
              · exact (Nat.le.intro (size_insert _ _ _)).trans hkept.right.left
              · intro k
                rw [get?_insert]
              · exact fun _ _ => rfl
              · intro cap hcap
                rw [hclaimed] at hcap
                cases hcap
              · have htotal := hkept.right.right
                rw [<- weight_eq_total hclaimed, weight_split index first.id] at htotal
                unfold held
                show index.reserved first.id + (index.claimed.get? first.id).getD record.len <= _
                rw [hclaimed]
                show index.reserved first.id + record.len <= _
                omega
            exact ih hnext hclaimed hrecover
          · split at hrecover
            · cases hrecover
            · exact ih hb hclaimed (of_removed hrecover)
        · exact ih hb hclaimed (of_removed hrecover)

theorem Bounded.total_le (hb : Bounded index) (hr : index.records.get? id = some r) :
    index.total <= index.reserved id + r.len := by
  have hsplit := sum_erase_add Record.len index.records id
  rw [hr, map_some, getD_some] at hsplit
  have hothers : (index.records.erase id).weigh (fun _ other => other.len) <=
      (index.records.erase id).weigh index.held := by
    apply weigh_le
    intro k other hother
    unfold held
    rw [get?_erase] at hother
    split at hother
    · cases hother
    · cases hcap : index.claimed.get? k with
      | none => exact Nat.le_refl _
      | some cap => exact hb.within k other cap hother hcap
  have hsum : (index.records.erase id).sum Record.len <= index.reserved id := hothers
  unfold total
  omega

theorem append_has_room (hb : Bounded index) (hcap : index.claimed.get? lease.id = some lease.cap)
    (hr : index.records.get? lease.id = some r) (h : Hashes) (disk : Disk) (now : Nat)
    (bytes : Bytes) (hfits : r.len + bytes.length <= lease.cap) :
    (index.append h disk now lease r.len bytes).fst ≠ .error .byteLimit := by
  have hweight := hb.weight
  have htotal := hb.total_le hr
  rw [weight_split index lease.id, hr, map_some, getD_some] at hweight
  unfold held at hweight
  rw [hcap, getD_some] at hweight
  unfold append
  split
  · exact fun hno => by cases hno
  · rw [hr]
    simp only []
    split
    · exact fun hno => by cases hno
    · split
      · exact fun hno => by cases hno
      · split
        · exact fun hno => by cases hno
        · rw [if_neg (by omega)]
          split
          all_goals exact fun hno => by cases hno

end Index

/-!
## Every run
-/

/-- A claim is of one live lease, the only one of its target. -/
structure Sound (w : World) : Prop where
  bounded : w.index.Bounded
  claimed : forall id cap, w.index.claimed.get? id = some cap <->
    exists t l, w.leases.get? t = some l ∧ l.id = id ∧ l.cap = cap
  single : forall t t' l l', w.leases.get? t = some l -> w.leases.get? t' = some l' ->
    l.id = l'.id -> t = t'
  fresh : forall t l, w.leases.get? t = some l -> t < w.next

theorem sound_new : Sound World.new where
  bounded := Index.bounded_empty
  claimed := by
    intro id cap
    constructor
    · intro hno
      cases hno
    · rintro ⟨t, l, hl, -⟩
      cases hl
  single := fun _ _ _ _ hl => by cases hl
  fresh := fun _ _ hl => by cases hl

variable {w : World}

section

variable (hs : Sound w)
include hs

theorem Sound.same {index' : Index} (hb : index'.Bounded)
    (hclaimed : index'.claimed = w.index.claimed) : Sound { w with index := index' } where
  bounded := hb
  claimed := by
    intro id cap
    show index'.claimed.get? id = some cap <-> _
    rw [hclaimed]
    exact hs.claimed id cap
  single := hs.single
  fresh := hs.fresh

theorem Sound.held {t : Nat} {l : Lease} (hl : w.leases.get? t = some l) :
    w.index.claimed.get? l.id = some l.cap :=
  (hs.claimed l.id l.cap).mpr ⟨t, l, hl, rfl, rfl⟩

theorem Sound.claim {index' : Index} (hb : index'.Bounded) (hfree : w.index.claimed.get? id = none)
    (hclaimed : index'.claimed = w.index.claimed.insert id cap) (data : Bytes) : Sound
      { index := index'
        leases := w.leases.insert w.next { id := id, cap := cap, hashed := data }
        next := w.next + 1 } := by
  have hnew : forall t l, w.leases.get? t = some l -> t ≠ w.next ∧ l.id ≠ id := by
    intro t l hl
    constructor
    · exact Nat.ne_of_lt (hs.fresh t l hl)
    · intro hid
      have hheld := hs.held hl
      rw [hid, hfree] at hheld
      cases hheld
  constructor
  · exact hb
  · intro k cap'
    show index'.claimed.get? k = some cap' <-> _
    rw [hclaimed, get?_insert]
    constructor
    · intro hget
      split at hget
      · rename_i hk
        cases hget
        exact ⟨w.next, { id := id, cap := cap, hashed := data },
          by rw [get?_insert, if_pos rfl], hk.symm, rfl⟩
      · rcases (hs.claimed k cap').mp hget with ⟨t, l, hl, hid, hcap⟩
        refine ⟨t, l, ?_, hid, hcap⟩
        rw [get?_insert, if_neg (hnew t l hl).left]
        exact hl
    · rintro ⟨t, l, hl, hid, hcap⟩
      rw [get?_insert] at hl
      split at hl
      · cases hl
        rw [if_pos hid.symm, <- hcap]
      · have hne := (hnew t l hl).right
        rw [hid] at hne
        rw [if_neg hne]
        exact (hs.claimed k cap').mpr ⟨t, l, hl, hid, hcap⟩
  · intro t t' l l' hl hl' hid
    rw [get?_insert] at hl hl'
    split at hl
    · rename_i ht
      split at hl'
      · rename_i ht'
        rw [ht, ht']
      · cases hl
        exact absurd hid.symm (hnew t' l' hl').right
    · split at hl'
      · cases hl'
        exact absurd hid (hnew t l hl).right
      · exact hs.single t t' l l' hl hl' hid
  · intro t l hl
    rw [get?_insert] at hl
    split at hl
    · rename_i ht
      rw [ht]
      exact Nat.lt_succ_self _
    · exact Nat.lt_succ_of_lt (hs.fresh t l hl)

theorem Sound.feed {t : Nat} {l : Lease} (hl : w.leases.get? t = some l) (hid : lease'.id = l.id)
    (hcap : lease'.cap = l.cap) : Sound { w with leases := w.leases.insert t lease' } := by
  have hback : forall t' l', (w.leases.insert t lease').get? t' = some l' ->
      exists l0, w.leases.get? t' = some l0 ∧ l0.id = l'.id ∧ l0.cap = l'.cap := by
    intro t' l' hl'
    rw [get?_insert] at hl'
    split at hl'
    · rename_i ht
      cases hl'
      rw [ht]
      exact ⟨l, hl, hid.symm, hcap.symm⟩
    · exact ⟨l', hl', rfl, rfl⟩
  constructor
  · exact hs.bounded
  · intro k cap'
    rw [hs.claimed k cap']
    constructor
    · rintro ⟨t', l', hl', hid', hcap'⟩
      by_cases ht : t' = t
      · rw [ht, hl] at hl'
        cases hl'
        exact ⟨t, lease', by rw [get?_insert, if_pos rfl], hid.trans hid', hcap.trans hcap'⟩
      · exact ⟨t', l', by rw [get?_insert, if_neg ht, hl'], hid', hcap'⟩
    · rintro ⟨t', l', hl', hid', hcap'⟩
      rcases hback t' l' hl' with ⟨l0, hl0, hid0, hcap0⟩
      exact ⟨t', l0, hl0, hid0.trans hid', hcap0.trans hcap'⟩
  · intro t' t'' l' l'' hl' hl'' hsame
    rcases hback t' l' hl' with ⟨l0, hl0, hid0, -⟩
    rcases hback t'' l'' hl'' with ⟨l1, hl1, hid1, -⟩
    exact hs.single t' t'' l0 l1 hl0 hl1 (hid0.trans (hsame.trans hid1.symm))
  · intro t' l' hl'
    rcases hback t' l' hl' with ⟨l0, hl0, -⟩
    exact hs.fresh t' l0 hl0

theorem Sound.drop {t : Nat} {l : Lease} (hl : w.leases.get? t = some l) :
    Sound { w with index := w.index.dropClaim l, leases := w.leases.erase t } := by
  constructor
  · exact Index.dropClaim_bounded hs.bounded (hs.held hl)
  · intro k cap'
    unfold Index.dropClaim
    rw [get?_erase]
    constructor
    · intro hget
      split at hget
      · cases hget
      · rename_i hk
        rcases (hs.claimed k cap').mp hget with ⟨t', l', hl', hid, hcap⟩
        refine ⟨t', l', ?_, hid, hcap⟩
        rw [get?_erase, if_neg, hl']
        rintro rfl
        rw [hl] at hl'
        cases hl'
        exact hk hid.symm
    · rintro ⟨t', l', hl', hid, hcap⟩
      rw [get?_erase] at hl'
      split at hl'
      · cases hl'
      · rename_i ht
        rw [if_neg]
        · exact (hs.claimed k cap').mpr ⟨t', l', hl', hid, hcap⟩
        · intro hk
          exact ht (hs.single t' t l' l hl' hl (hid.trans hk))
  · intro t' t'' l' l'' hl' hl'' hsame
    rw [get?_erase] at hl' hl''
    split at hl'
    · cases hl'
    · split at hl''
      · cases hl''
      · exact hs.single t' t'' l' l'' hl' hl'' hsame
  · intro t' l' hl'
    rw [get?_erase] at hl'
    split at hl'
    · cases hl'
    · exact hs.fresh t' l' hl'

theorem Sound.step {w' : World} {a : Action} (hstep : w.step h a = some w') : Sound w' := by
  cases a with
  | claim disk now target mode cap =>
      have hclaim := Index.claim_claimed hs.bounded h disk now target mode cap
      unfold World.step at hstep
      simp only [] at hstep
      generalize w.index.claim h disk now target mode cap = result at hclaim hstep
      rcases result with ⟨outcome, index'⟩
      cases hclaim with
      | failed e index' hb hsame =>
          cases hstep
          exact hs.same (hb.latch _) ((Index.claimed_latch _ _).trans hsame)
      | granted id data index' hb hfree hclaimed =>
          cases hstep
          exact hs.claim hb hfree hclaimed data
  | bind disk lease length =>
      rcases map_eq_some_iff.mp hstep with ⟨l, hl, rfl⟩
      rcases Index.bind_bounded hs.bounded (hs.held hl) disk length with ⟨hb, hsame⟩
      exact hs.same (hb.latch _) ((Index.claimed_latch _ _).trans hsame)
  | append disk now lease offset bytes =>
      rcases map_eq_some_iff.mp hstep with ⟨l, hl, rfl⟩
      rcases Index.append_bounded hs.bounded (hs.held hl) h disk now offset bytes with
        ⟨hb, hsame, hid, hcap⟩
      exact (hs.same (hb.latch _) ((Index.claimed_latch _ _).trans hsame)).feed hl hid hcap
  | discard disk lease =>
      rcases map_eq_some_iff.mp hstep with ⟨l, hl, rfl⟩
      rcases Index.discard_bounded hs.bounded disk l with ⟨hb, hsame⟩
      exact hs.same (hb.latch _) ((Index.claimed_latch _ _).trans hsame)
  | drop lease =>
      rcases map_eq_some_iff.mp hstep with ⟨l, hl, rfl⟩
      exact hs.drop hl
  | restart now found =>
      unfold World.step at hstep
      simp only [] at hstep
      split at hstep
      · cases hstep
      · rename_i index' hrecover
        cases hstep
        rcases Index.recover_bounded h now found Index.bounded_empty rfl hrecover with
          ⟨hb, hclaimed⟩
        constructor
        · exact hb
        · intro k cap'
          show index'.claimed.get? k = some cap' <-> _
          rw [hclaimed]
          constructor
          · intro hno
            cases hno
          · rintro ⟨t, l, hl, -⟩
            cases hl
        · exact fun _ _ _ _ hl => by cases hl
        · exact fun _ _ hl => by cases hl

end

/-- Whatever uploaders and the disk do: a target has one live lease at most, there are at most
128 records, leased ones by their caps and the others by their lengths come to 256 MiB at
most, and an append within a lease is not refused for want of room. -/
theorem lease_can_be_filled (h : Hashes) {acts : List Action} {w : World}
    (hrun : run? (World.step h) World.new acts = some w) :
    (forall t t' l l', w.leases.get? t = some l -> w.leases.get? t' = some l' ->
      l.id = l'.id -> t = t') ∧
    w.index.records.size <= 128 ∧
    (w.index.records.entries.map (fun entry =>
      (w.index.claimed.get? entry.fst).getD entry.snd.len)).sum <= 256 * 2 ^ 20 ∧
    (forall t l, w.leases.get? t = some l -> w.index.claimed.get? l.id = some l.cap) ∧
    (forall t l r disk now bytes, w.leases.get? t = some l ->
      w.index.records.get? l.id = some r -> r.len + bytes.length <= l.cap ->
      (forall length, r.offer.length = some length -> r.len + bytes.length <= length) ->
      (w.index.append h disk now l r.len bytes).fst ≠ .error .byteLimit) := by
  have hs : Sound w := run?_invariant (fun _ _ _ hs hstep => Sound.step hs hstep) sound_new hrun
  refine ⟨hs.single, hs.bounded.records, hs.bounded.weight, fun t l hl => hs.held hl, ?_⟩
  intro t l r disk now bytes hl hr hfits _
  exact Index.append_has_room hs.bounded (hs.held hl) hr h disk now bytes hfits

/-- A target is known by its name. -/
def nameHashes : Hashes where
  target := fun target => String.ofList target.name
  content := fun _ => 0

/-- A disk that does what it is asked to. -/
def quietDisk : Disk where
  remove := fun _ => none
  saved := .ok []
  data := none
  record := none

def oneUpload : List Action :=
  [.claim quietDisk 0 ⟨.zmodem, 1, 1, none, ['a']⟩ (.exact ⟨some 4, none⟩) 4,
    .append quietDisk 5 0 0 [1, 2]]

theorem lease_can_be_filled_once :
    exists w l r, run? (World.step nameHashes) World.new oneUpload = some w ∧
      w.leases.get? 0 = some l ∧ w.index.records.get? l.id = some r ∧
      (w.index.append nameHashes quietDisk 9 l r.len [3, 4]).fst ≠ .error .byteLimit := by
  have hlease : (run? (World.step nameHashes) World.new oneUpload).bind
      (fun w => w.leases.get? 0) = some ⟨"a", 4, [1, 2]⟩ := by decide
  have hrecord : (run? (World.step nameHashes) World.new oneUpload).bind
      (fun w => w.index.records.get? "a") =
        some ⟨1, ⟨.zmodem, 1, 1, none, ['a']⟩, ⟨some 4, none⟩, 2, 0, 1805⟩ := by decide
  cases hrun : run? (World.step nameHashes) World.new oneUpload with
  | none =>
      rw [hrun] at hlease
      cases hlease
  | some w =>
      rw [hrun] at hlease hrecord
      refine ⟨w, _, _, rfl, hlease, hrecord, ?_⟩
      apply (lease_can_be_filled nameHashes hrun).right.right.right.right 0 _ _ _ _ _ hlease hrecord
      · decide
      · intro length hlength
        cases hlength
        decide

end Rabbithole.Staging
