import Rabbithole.Reticulum.Conservation

/-!
# How long a message waits

A plan sends groups from the front until one is to be held, and holds everything behind it as
well.  So a message that has waited long enough leaves if no group before its own is held.
-/

namespace Rabbithole.Reticulum

open Foundation List Option Dict

namespace Batcher

def perform (s : Batcher) : BatchCall -> Batcher
  | .enqueue peer msg nowMs => (s.enqueue peer msg nowMs).snd
  | .planBatches peer nowMs => (s.planBatches peer nowMs).snd

def performAll (s : Batcher) (calls : List BatchCall) : Batcher :=
  calls.foldl perform s

def queued? (s : Batcher) (peer : PeerId) (id : TunnelId) : Option Queued :=
  (s.peers.get? peer).bind (fun pq => pq.queue.get? id)

/-- The groups that a plan makes of what waits for a peer. -/
def groups (s : Batcher) (peer : PeerId) : List (List Queued) :=
  match s.peers.get? peer with
  | none => []
  | some pq => pack s.budget (ordered pq.queue)

/-- The bucket of a peer holds enough for all that waits. -/
def CanPay (s : Batcher) (peer : PeerId) (nowMs : UInt64) : Prop :=
  forall pq, s.peers.get? peer = some pq ->
    sentLen (s.groups peer) * micro <= (pq.bucket.refill nowMs).tokensMicro

def waited (s : Batcher) (nowMs : UInt64) (q : Queued) : Prop :=
  s.maxBatchAgeMs <= saturatingSub nowMs q.enqueuedMs

def ready (s : Batcher) (nowMs : UInt64) (group : List Queued) : Bool :=
  s.full group || s.aged nowMs group

/-- A message that has waited long enough stands behind a group that is to be held. -/
def HeldUp (s : Batcher) (nowMs : UInt64) (groups : List (List Queued)) : Prop :=
  exists front group behind q, groups = front ++ group :: behind ∧ s.ready nowMs group = false ∧
    q ∈ behind.flatten ∧ s.waited nowMs q

/-!
## Every queue is stored under its ids
-/

def AllKeyed (s : Batcher) : Prop :=
  forall peer pq, s.peers.get? peer = some pq -> Keyed pq.queue

theorem AllKeyed.enqueue {s : Batcher} (h : s.AllKeyed) (peer : PeerId) (msg : TunnelMessage)
    (nowMs : UInt64) : (s.enqueue peer msg nowMs).snd.AllKeyed := by
  obtain ⟨enqueuedMs, heq⟩ := s.enqueue_eq peer msg nowMs
  rw [heq]
  intro other pq hget
  have hqueue : Keyed (s.peerQueue peer nowMs).queue := by
    unfold peerQueue
    cases hpeer : s.peers.get? peer with
    | none => exact fun id q hq => by cases hq
    | some pq => exact h peer pq hpeer
  replace hget := (get?_insert _ _ _ _).symm.trans hget
  split at hget
  · cases hget
    intro id q hq
    dsimp only at hq
    rw [get?_insert] at hq
    split at hq
    · rename_i hid
      cases hq
      exact hid.symm
    · exact hqueue id q hq
  · exact h other pq hget

theorem AllKeyed.planBatches {s : Batcher} (h : s.AllKeyed) (peer : PeerId) (nowMs : UInt64) :
    (s.planBatches peer nowMs).snd.AllKeyed := by
  cases hget : s.peers.get? peer with
  | none =>
      unfold Batcher.planBatches
      rw [hget]
      exact h
  | some pq =>
      obtain ⟨sent, pq', hspec, heq⟩ := planBatches_spec nowMs hget (h peer pq hget)
      rw [heq]
      intro other found hfound
      replace hfound := (get?_insert _ _ _ _).symm.trans hfound
      split at hfound
      · cases hfound
        intro id q hq
        rw [hspec.queue id] at hq
        split at hq
        · cases hq
        · exact h peer pq hget id q hq
      · exact h other found hfound

theorem AllKeyed.performAll {s : Batcher} (h : s.AllKeyed) (calls : List BatchCall) :
    (s.performAll calls).AllKeyed := by
  induction calls generalizing s with
  | nil => exact h
  | cons call calls ih =>
      apply ih
      cases call with
      | enqueue peer msg nowMs => exact h.enqueue peer msg nowMs
      | planBatches peer nowMs => exact h.planBatches peer nowMs

theorem allKeyed_withRate (budget : Nat) (maxBatchAgeMs capacityBytes : UInt64)
    (rate : ByteRate) : (withRate budget maxBatchAgeMs capacityBytes rate).AllKeyed := by
  intro peer pq hget
  cases hget

/-!
## With enough tokens
-/

variable {s : Batcher} {nowMs : UInt64} {peer : PeerId}

theorem emit_of_rich {bucket : TokenBucket} (hlast : ¬ bucket.lastMs < nowMs)
    {groups : List (List Queued)} (hrich : sentLen groups * micro <= bucket.tokensMicro) :
    (s.emit nowMs bucket groups).fst = groups.takeWhile (s.ready nowMs) := by
  induction groups generalizing bucket with
  | nil => rfl
  | cons group rest ih =>
      have hsum : sentLen (group :: rest) * micro = groupLen group * micro + sentLen rest * micro := by
        unfold sentLen
        rw [map_cons, sum_cons, Nat.add_mul]
      rw [hsum] at hrich
      have hpaid : groupLen group * micro <= bucket.tokensMicro :=
        Nat.le_trans (Nat.le_add_right _ _) hrich
      have hheld : (!s.full group && !s.aged nowMs group) = !s.ready nowMs group := by
        unfold ready
        rw [Bool.not_or]
      rw [emit_cons s rfl, hheld]
      cases hready : s.ready nowMs group with
      | false =>
          rw [takeWhile_cons_of_neg (by rw [hready]; exact Bool.false_ne_true)]
          rfl
      | true =>
          rw [takeWhile_cons_of_pos hready, if_neg (by decide), trySpend_of_not_lt hlast,
            if_pos hpaid]
          dsimp only
          rw [if_pos rfl]
          have hrest : sentLen rest * micro <= bucket.tokensMicro - groupLen group * micro :=
            Nat.le_sub_of_add_le' hrich
          exact congrArg _ (@ih { bucket with
            tokensMicro := bucket.tokensMicro - groupLen group * micro } hlast hrest)

theorem queued?_planBatches (hpay : s.CanPay peer nowMs) (id : TunnelId) :
    (s.planBatches peer nowMs).snd.queued? peer id =
      if id ∈ ((s.groups peer).takeWhile (s.ready nowMs)).flatten.map (fun q => q.msg.id) then none
      else s.queued? peer id := by
  unfold queued? groups
  cases hget : s.peers.get? peer with
  | none =>
      unfold planBatches
      rw [hget]
      dsimp only
      rw [hget]
      rfl
  | some pq =>
      have hrich := hpay pq hget
      unfold groups at hrich
      rw [hget] at hrich
      unfold planBatches
      rw [hget]
      dsimp only
      split
      · rename_i hempty
        have hnone := isEmpty_iff.mp hempty id
        rw [get?_insert, if_pos rfl, bind_some, bind_some, hnone]
        split
        · rfl
        · rfl
      · rw [emit_of_rich (pq.bucket.lastMs_refill_not_lt nowMs) hrich]
        dsimp only
        have herased := fun ids => get?_foldl get?_erase ids pq.queue id
        rw [get?_insert, if_pos rfl, bind_some]
        split
        · exact (herased _).left ‹_›
        · exact (herased _).right ‹_›

theorem not_waited_of_held {group : List Queued} (hheld : s.ready nowMs group = false)
    {q : Queued} (hq : q ∈ group) : ¬ s.waited nowMs q := by
  intro hwaited
  unfold ready at hheld
  have haged := (Bool.or_eq_false_iff.mp hheld).right
  have hle : forall (rest : List Queued) (w : Nat), w <= rest.foldl
      (fun w q => max w (saturatingSub nowMs q.enqueuedMs).toNat) w := by
    intro rest
    induction rest with
    | nil => exact fun w => Nat.le_refl w
    | cons q rest ih => exact fun w => Nat.le_trans (Nat.le_max_left _ _) (ih _)
  have hmax : forall (rest : List Queued) (w : Nat), q ∈ rest ->
      (saturatingSub nowMs q.enqueuedMs).toNat <= rest.foldl
        (fun w q => max w (saturatingSub nowMs q.enqueuedMs).toNat) w := by
    intro rest
    induction rest with
    | nil => exact fun w hmem => absurd hmem not_mem_nil
    | cons first rest ih =>
        intro w hmem
        rcases mem_cons.mp hmem with rfl | hrest
        · exact Nat.le_trans (Nat.le_max_right _ _) (hle rest _)
        · exact ih _ hrest
  have hlong := Nat.le_trans (UInt64.le_iff_toNat_le.mp hwaited) (hmax group 0 hq)
  exact of_decide_eq_false haged hlong

theorem mem_groups (hkeyed : s.AllKeyed) {q : Queued} : q ∈ (s.groups peer).flatten ↔
      s.queued? peer q.msg.id = some q ∧ fits s.budget q = true := by
  unfold groups queued?
  cases hget : s.peers.get? peer with
  | none => exact ⟨fun h => absurd h not_mem_nil, fun h => by cases h.left⟩
  | some pq =>
      dsimp only
      rw [(pack_spec s.budget (ordered pq.queue)).right, mem_filter,
        mem_ordered (hkeyed peer pq hget), bind_some]

theorem nodup_groups (hkeyed : s.AllKeyed) :
    ((s.groups peer).flatten.map (fun q => q.msg.id)).Nodup := by
  unfold groups
  cases hget : s.peers.get? peer with
  | none => exact nodup_nil
  | some pq =>
      dsimp only
      rw [(pack_spec s.budget (ordered pq.queue)).right]
      exact (nodup_ordered (hkeyed peer pq hget)).sublist (filter_sublist.map _)

/-- Nobody who has waited long enough is left, exactly where no such message stands behind a group
that is to be held. -/
theorem waited_leave_iff (hkeyed : s.AllKeyed) (hpay : s.CanPay peer nowMs)
    (hfits : forall id q, s.queued? peer id = some q -> fits s.budget q = true) :
    (forall id q, (s.planBatches peer nowMs).snd.queued? peer id = some q ->
        ¬ s.waited nowMs q) ↔ ¬ s.HeldUp nowMs (s.groups peer) := by
  constructor
  · rintro h ⟨front, group, behind, q, hgroups, hheld, hq, hwaited⟩
    have hmem : q ∈ (s.groups peer).flatten := by
      rw [hgroups, flatten_append, flatten_cons]
      exact mem_append_right _ (mem_append_right _ hq)
    have hnodup := @nodup_groups s peer hkeyed
    have hsent : forall x, x ∈ ((s.groups peer).takeWhile (s.ready nowMs)).flatten ->
        x ∈ front.flatten := by
      intro x hx
      obtain ⟨g, hg, hxg⟩ := mem_flatten.mp hx
      refine mem_flatten.mpr ⟨g, ?_, hxg⟩
      rw [hgroups, takeWhile_append] at hg
      split at hg
      · rw [takeWhile_cons_of_neg (by rw [hheld]; exact Bool.false_ne_true),
          append_nil] at hg
        exact hg
      · exact (takeWhile_sublist _).subset hg
    have hstays : q.msg.id ∉
        ((s.groups peer).takeWhile (s.ready nowMs)).flatten.map (fun q => q.msg.id) := by
      intro hid
      rw [hgroups, flatten_append, map_append, nodup_append] at hnodup
      obtain ⟨x, hx, hxid⟩ := mem_map.mp hid
      refine hnodup.2.2 x.msg.id (mem_map_of_mem (hsent x hx)) q.msg.id ?_ hxid
      rw [flatten_cons]
      exact mem_map_of_mem (mem_append_right _ hq)
    apply h q.msg.id q ?_ hwaited
    rw [queued?_planBatches hpay, if_neg hstays]
    exact ((mem_groups hkeyed).mp hmem).left
  · intro h id q hleft hwaited
    rw [queued?_planBatches hpay] at hleft
    split at hleft
    · cases hleft
    · rename_i hstays
      have hid : q.msg.id = id := by
        unfold queued? at hleft
        obtain ⟨pq, hget, hqueue⟩ := bind_eq_some_iff.mp hleft
        exact hkeyed peer pq hget id q hqueue
      subst hid
      have hmem : q ∈ (s.groups peer).flatten :=
        (mem_groups hkeyed).mpr ⟨hleft, hfits _ q hleft⟩
      rw [← takeWhile_append_dropWhile (p := s.ready nowMs) (l := s.groups peer),
        flatten_append, mem_append] at hmem
      rcases hmem with hsent | hkept
      · exact hstays (mem_map_of_mem hsent)
      · cases hdrop : (s.groups peer).dropWhile (s.ready nowMs) with
        | nil =>
            rw [hdrop] at hkept
            exact absurd hkept not_mem_nil
        | cons group behind =>
            have hheld : s.ready nowMs group = false := by
              have hhead := head_dropWhile_not (s.ready nowMs)
                (show (s.groups peer).dropWhile (s.ready nowMs) ≠ [] by
                  rw [hdrop]
                  exact cons_ne_nil _ _)
              simp only [hdrop, head_cons] at hhead
              exact hhead
            rw [hdrop, flatten_cons] at hkept
            rcases mem_append.mp hkept with hin | hbehind
            · exact not_waited_of_held hheld hin hwaited
            · refine h ⟨(s.groups peer).takeWhile (s.ready nowMs), group, behind, q, ?_, hheld, hbehind,
                hwaited⟩
              rw [← hdrop]
              exact (takeWhile_append_dropWhile).symm

end Batcher

section Runs

variable {budget : Nat} {maxBatchAgeMs capacityBytes : UInt64} {rate : ByteRate}

/-- After any calls, a plan that can be paid for leaves nobody waiting too long, exactly where no
group that is neither full nor aged stands before somebody who has waited long enough. -/
theorem nobody_waits_past_age (calls : List BatchCall) {s : Batcher}
    (hreach : s = (Batcher.withRate budget maxBatchAgeMs capacityBytes rate).performAll calls)
    (peer : PeerId) (nowMs : UInt64) (hpay : s.CanPay peer nowMs)
    (hfits : forall id q, s.queued? peer id = some q -> Batcher.fits s.budget q = true) :
    (forall id q, (s.planBatches peer nowMs).snd.queued? peer id = some q ->
        ¬ s.waited nowMs q) ↔ ¬ s.HeldUp nowMs (s.groups peer) := by
  subst hreach
  exact Batcher.waited_leave_iff
    ((Batcher.allKeyed_withRate budget maxBatchAgeMs capacityBytes rate).performAll calls)
    hpay hfits

end Runs

theorem Batcher.fits_of_all {s : Batcher} {peer : PeerId} {pq : PeerQueue}
    (hget : s.peers.get? peer = some pq)
    (hall : pq.queue.entries.all (fun e => Batcher.fits s.budget e.snd) = true) (id : TunnelId)
    (q : Queued) (hq : s.queued? peer id = some q) : Batcher.fits s.budget q = true := by
  unfold queued? at hq
  rw [hget, bind_some] at hq
  exact all_eq_true.mp hall (id, q) (get?_eq_some_iff.mp hq)

theorem Batcher.canPay_of {s : Batcher} {peer : PeerId} {pq : PeerQueue} {nowMs : UInt64}
    (hget : s.peers.get? peer = some pq)
    (hpay : sentLen (s.groups peer) * micro <= (pq.bucket.refill nowMs).tokensMicro) :
    s.CanPay peer nowMs := by
  intro pq' hget'
  rw [hget] at hget'
  cases hget'
  exact hpay

def onePeer : PeerId := ⟨Vector.replicate 16 1⟩

def patient : TunnelMessage := ⟨Vector.replicate 16 2, 0, 0, 8, 0, [0]⟩

def urgent : TunnelMessage := ⟨Vector.replicate 16 3, 0, 0, 8, 1, []⟩

def small : Batcher := Batcher.withRate 60 1000 1000 ⟨0⟩

theorem nobody_waits_past_age_alone :
    (small.performAll [.enqueue onePeer patient 0]).groups onePeer = [[⟨patient, 0⟩]] ∧
      forall id q, ((small.performAll [.enqueue onePeer patient 0]).planBatches onePeer
          1000).snd.queued? onePeer id = some q ->
        ¬ (small.performAll [.enqueue onePeer patient 0]).waited 1000 q := by
  have hgroups : (small.performAll [.enqueue onePeer patient 0]).groups onePeer =
      [[⟨patient, 0⟩]] := by decide
  refine ⟨hgroups, (nobody_waits_past_age [.enqueue onePeer patient 0] rfl onePeer 1000
    (Batcher.canPay_of rfl (by decide)) (Batcher.fits_of_all rfl (by decide))).mpr ?_⟩
  rintro ⟨front, group, behind, q, hsplit, -, hq, -⟩
  have hlength := congrArg List.length (hgroups.symm.trans hsplit)
  simp only [length_append, length_cons, length_nil] at hlength
  have hnil : behind = [] := length_eq_zero_iff.mp (by omega)
  rw [hnil] at hq
  exact absurd hq not_mem_nil

/-- A newer message with priority keeps the older one from leaving. -/
theorem not_nobody_waits_past_age :
    ¬ (forall (budget : Nat) (maxBatchAgeMs capacityBytes : UInt64) (rate : ByteRate)
        (calls : List BatchCall) (s : Batcher),
      s = (Batcher.withRate budget maxBatchAgeMs capacityBytes rate).performAll calls ->
      forall (peer : PeerId) (nowMs : UInt64), s.CanPay peer nowMs ->
        (forall id q, s.queued? peer id = some q -> Batcher.fits s.budget q = true) ->
        forall id q, (s.planBatches peer nowMs).snd.queued? peer id = some q ->
          ¬ s.waited nowMs q) := by
  intro h
  refine h 60 1000 1000 ⟨0⟩ [.enqueue onePeer patient 0, .enqueue onePeer urgent 1000] _ rfl
    onePeer 1000 (Batcher.canPay_of rfl (by decide)) (Batcher.fits_of_all rfl (by decide))
    patient.id ⟨patient, 0⟩ (by decide) ?_
  exact UInt64.le_iff_toNat_le.mpr (by decide)

end Rabbithole.Reticulum
