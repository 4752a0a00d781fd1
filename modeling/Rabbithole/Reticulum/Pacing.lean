import Mathlib.Algebra.Order.BigOperators.Group.List
import Mathlib.Algebra.Order.Group.Nat
import Rabbithole.Reticulum.Packing

/-!
# Runs of the batcher

A run is a list of calls whose clock does not go back.  Beside the batcher it keeps which
messages were newly queued for whom, what was sent and when, and what each plan was.
-/

namespace Rabbithole.Reticulum

open Foundation List

inductive BatchCall where
  | enqueue (peer : PeerId) (msg : TunnelMessage) (nowMs : UInt64)
  | planBatches (peer : PeerId) (nowMs : UInt64)

def BatchCall.nowMs : BatchCall -> UInt64
  | .enqueue _ _ nowMs => nowMs
  | .planBatches _ nowMs => nowMs

structure Sending where
  peer : PeerId
  atMs : UInt64
  batch : Batch

structure Traffic where
  batcher : Batcher
  clock : UInt64
  queued : List (PeerId × TunnelId)
  sent : List Sending
  plans : List (List Batch)

namespace Traffic

def start (budget : Nat) (maxBatchAgeMs capacityBytes : UInt64) (rate : ByteRate) : Traffic where
  batcher := Batcher.withRate budget maxBatchAgeMs capacityBytes rate
  clock := 0
  queued := []
  sent := []
  plans := []

def call (t : Traffic) : BatchCall -> Traffic
  | .enqueue peer msg nowMs =>
      let (new, batcher) := t.batcher.enqueue peer msg nowMs
      { t with
        batcher := batcher
        clock := nowMs
        queued := if new then t.queued ++ [(peer, msg.id)] else t.queued }
  | .planBatches peer nowMs =>
      let (batches, batcher) := t.batcher.planBatches peer nowMs
      { t with
        batcher := batcher
        clock := nowMs
        sent := t.sent ++ batches.map (fun batch => ⟨peer, nowMs, batch⟩)
        plans := t.plans ++ [batches] }

def step (t : Traffic) (c : BatchCall) : Option Traffic :=
  if t.clock <= c.nowMs then some (t.call c) else none

def idsSent (t : Traffic) (peer : PeerId) : List TunnelId :=
  (t.sent.filter (fun x => decide (x.peer = peer))).flatMap
    (fun x => x.batch.messages.map TunnelMessage.id)

def waiting (t : Traffic) (peer : PeerId) (id : TunnelId) : Bool :=
  ((t.batcher.peers.get? peer).bind (fun pq => pq.queue.get? id)).isSome

end Traffic

/-!
## What a plan does
-/

theorem TokenBucket.lastMs_refill_not_lt (bucket : TokenBucket) (nowMs : UInt64) :
    ¬ (bucket.refill nowMs).lastMs < nowMs := by
  unfold TokenBucket.refill
  split
  · exact UInt64.lt_irrefl nowMs
  · assumption

namespace Batcher

/-- The queue and the bucket of a peer after a plan that sends these groups. -/
structure PlanSpec (s : Batcher) (pq : PeerQueue) (nowMs : UInt64) (sent : List (List Queued))
    (pq' : PeerQueue) : Prop where
  packs : forall group, group ∈ sent -> Packs s.budget group
  order : sent.flatten.Pairwise (fun a b => a.msg.order b.msg = .lt)
  nodup : (sent.flatten.map (fun q => q.msg.id)).Nodup
  queued : forall q, q ∈ sent.flatten -> pq.queue.get? q.msg.id = some q
  queue : forall id, pq'.queue.get? id =
    if id ∈ sent.flatten.map (fun q => q.msg.id) then none else pq.queue.get? id
  paid : sentLen sent * micro + pq'.bucket.tokensMicro = (pq.bucket.refill nowMs).tokensMicro
  bucket : pq'.bucket =
    { pq.bucket.refill nowMs with tokensMicro := pq'.bucket.tokensMicro }

theorem planBatches_spec {s : Batcher} {peer : PeerId} {pq : PeerQueue} (nowMs : UInt64)
    (hget : s.peers.get? peer = some pq) (hkeyed : Keyed pq.queue) :
    exists sent pq', PlanSpec s pq nowMs sent pq' ∧
      s.planBatches peer nowMs = (sent.map (fun group => ⟨group.map Queued.msg⟩),
        { s with peers := s.peers.insert peer pq' }) := by
  unfold planBatches
  rw [hget]
  simp only []
  split
  · refine ⟨[], ⟨pq.queue, pq.bucket.refill nowMs⟩, ⟨?_, Pairwise.nil, nodup_nil, ?_, ?_, ?_, rfl⟩,
      rfl⟩
    · intro group hgroup
      cases hgroup
    · intro q hq
      cases hq
    · intro id
      rfl
    · simp [sentLen]
  · rcases emit_spec s (pq.bucket.lastMs_refill_not_lt nowMs) (pack s.budget (ordered pq.queue))
      with ⟨hgiven, hpaid, hbucket⟩
    rcases pack_spec s.budget (ordered pq.queue) with ⟨hpacks, hflatten⟩
    have hsub : (s.emit nowMs (pq.bucket.refill nowMs)
        (pack s.budget (ordered pq.queue))).fst.flatten.Sublist (ordered pq.queue) := by
      rcases hgiven with ⟨behind, hgroups⟩
      have hfront := sublist_append_left (s.emit nowMs (pq.bucket.refill nowMs)
        (pack s.budget (ordered pq.queue))).fst.flatten behind.flatten
      rw [← flatten_append, hgroups, hflatten] at hfront
      exact hfront.trans filter_sublist
    refine ⟨_, ⟨_, _⟩, ⟨?_, ?_, ?_, ?_, ?_, hpaid, hbucket⟩, rfl⟩
    · intro group hgroup
      exact hpacks group (hgiven.subset hgroup)
    · exact (pairwise_ordered hkeyed).sublist hsub
    · exact (nodup_ordered hkeyed).sublist (hsub.map _)
    · intro q hq
      exact (mem_ordered hkeyed).mp (hsub.subset hq)
    · intro id
      have herased := fun ids => Dict.get?_foldl Dict.get?_erase ids pq.queue id
      split
      · exact (herased _).left ‹_›
      · exact (herased _).right ‹_›

end Batcher

/-!
# Pacing

What a bucket has given away since any moment, and what it still holds, is covered by its
capacity and by what the rate gave since; so what is sent in any interval is.
-/

def bytesSince (sent : List Sending) (peer : PeerId) (first : UInt64) : Nat :=
  ((sent.filter (fun x => decide (x.peer = peer ∧ first <= x.atMs))).map
    (fun x => x.batch.encodedLen)).sum

/-- The same up to another time. -/
def bytesWithin (sent : List Sending) (peer : PeerId) (first last : UInt64) : Nat :=
  ((sent.filter (fun x => decide (x.peer = peer ∧ first <= x.atMs ∧ x.atMs <= last))).map
    (fun x => x.batch.encodedLen)).sum

structure Paced (capacityBytes : UInt64) (rate : ByteRate) (sent : List Sending)
    (peer : PeerId) (bucket : TokenBucket) : Prop where
  capacity : bucket.capacityMicro = capacityBytes.toNat * micro
  sameRate : bucket.rate = rate
  level : bucket.tokensMicro <= bucket.capacityMicro
  past : forall x, x ∈ sent -> x.peer = peer -> x.atMs <= bucket.lastMs
  since : forall first, first <= bucket.lastMs ->
    bytesSince sent peer first * micro + bucket.tokensMicro <=
      capacityBytes.toNat * micro + rate.millibytesPerSec * (bucket.lastMs.toNat - first.toNat)

section Pacing

variable {capacityBytes : UInt64} {rate : ByteRate} {sent : List Sending} {peer : PeerId}
  {bucket : TokenBucket} {nowMs : UInt64}

theorem bytesSince_late (hpast : forall x, x ∈ sent -> x.peer = peer -> x.atMs <= bucket.lastMs)
    {first : UInt64} (hfirst : bucket.lastMs < first) : bytesSince sent peer first = 0 := by
  have hnone : sent.filter (fun x => decide (x.peer = peer ∧ first <= x.atMs)) = [] := by
    apply filter_eq_nil_iff.mpr
    intro x hx
    rw [decide_eq_true_iff]
    rintro ⟨hpeer, hat⟩
    exact UInt64.lt_irrefl _ (UInt64.lt_of_lt_of_le hfirst
      (UInt64.le_trans hat (hpast x hx hpeer)))
  unfold bytesSince
  rw [hnone]
  rfl

theorem bytesWithin_le (sent : List Sending) (peer : PeerId) (first last : UInt64) :
    bytesWithin sent peer first last <= bytesSince sent peer first := by
  unfold bytesWithin bytesSince
  apply Sublist.sum_le_sum
  · apply Sublist.map
    apply monotone_filter_right
    intro x hx
    rw [decide_eq_true_iff] at hx ⊢
    exact ⟨hx.left, hx.right.left⟩
  · intro n _
    exact Nat.zero_le n

theorem Paced.fresh (hnone : forall x, x ∈ sent -> x.peer ≠ peer) :
    Paced capacityBytes rate sent peer (TokenBucket.withRate capacityBytes rate nowMs) := by
  refine ⟨rfl, rfl, le_refl _, fun x hx hpeer => absurd hpeer (hnone x hx), ?_⟩
  intro first _
  have hzero : bytesSince sent peer first = 0 := by
    have hnil : sent.filter (fun x => decide (x.peer = peer ∧ first <= x.atMs)) = [] := by
      apply filter_eq_nil_iff.mpr
      intro x hx
      rw [decide_eq_true_iff]
      rintro ⟨hpeer, -⟩
      exact hnone x hx hpeer
    unfold bytesSince
    rw [hnil]
    rfl
  rw [hzero]
  show 0 * micro + capacityBytes.toNat * micro <= _
  omega

theorem Paced.refill (h : Paced capacityBytes rate sent peer bucket) (nowMs : UInt64) :
    Paced capacityBytes rate sent peer (bucket.refill nowMs) := by
  unfold TokenBucket.refill
  split
  · rename_i hlater
    have hlt := UInt64.lt_iff_toNat_lt.mp hlater
    have hgain : bucket.peekMicro nowMs <= bucket.tokensMicro +
        rate.millibytesPerSec * (nowMs.toNat - bucket.lastMs.toNat) := by
      unfold TokenBucket.peekMicro
      simp only [toNat_saturatingSub, h.sameRate]
      rw [Nat.mul_comm rate.millibytesPerSec]
      omega
    have hcap : bucket.peekMicro nowMs <= bucket.capacityMicro := Nat.min_le_right _ _
    refine ⟨h.capacity, h.sameRate, hcap, ?_, ?_⟩
    · intro x hx hpeer
      exact UInt64.le_trans (h.past x hx hpeer) (UInt64.le_of_lt hlater)
    · intro first hfirst
      show _ * micro + bucket.peekMicro nowMs <= _ + _ * (nowMs.toNat - first.toNat)
      by_cases hold : first <= bucket.lastMs
      · have hsince := h.since first hold
        have hspan : rate.millibytesPerSec * (nowMs.toNat - first.toNat) =
            rate.millibytesPerSec * (bucket.lastMs.toNat - first.toNat) +
              rate.millibytesPerSec * (nowMs.toNat - bucket.lastMs.toNat) := by
          rw [← Nat.mul_add]
          congr 1
          rw [UInt64.le_iff_toNat_le] at hold
          omega
        omega
      · rw [bytesSince_late h.past (UInt64.not_le.mp hold)]
        rw [h.capacity] at hcap
        omega
  · exact h

theorem bytesSince_append (batches : List Batch) (first : UInt64) (other : PeerId) :
    bytesSince (sent ++ batches.map (fun batch => ⟨peer, nowMs, batch⟩)) other first =
      bytesSince sent other first +
        if peer = other ∧ first <= nowMs then (batches.map Batch.encodedLen).sum else 0 := by
  unfold bytesSince
  rw [filter_append, map_append, sum_append]
  congr 1
  induction batches with
  | nil => simp
  | cons batch rest ih =>
      rw [map_cons, filter_cons]
      split
      · rename_i hsent
        rw [decide_eq_true_iff] at hsent
        rw [if_pos hsent, map_cons, sum_cons, ih, if_pos hsent, map_cons,
          sum_cons]
      · rename_i hsent
        rw [decide_eq_true_iff] at hsent
        rw [ih, if_neg hsent, if_neg hsent]

theorem bytesSince_other (batches : List Batch) {other : PeerId} (hne : peer ≠ other)
    (first : UInt64) :
    bytesSince (sent ++ batches.map (fun batch => ⟨peer, nowMs, batch⟩)) other first =
      bytesSince sent other first := by
  rw [bytesSince_append, if_neg (fun h => hne h.left), Nat.add_zero]

theorem Paced.spend (h : Paced capacityBytes rate sent peer bucket)
    (hnow : bucket.lastMs = nowMs) {batches : List Batch} {tokens : Nat}
    (hpaid : (batches.map Batch.encodedLen).sum * micro + tokens = bucket.tokensMicro) :
    Paced capacityBytes rate (sent ++ batches.map (fun batch => ⟨peer, nowMs, batch⟩)) peer
      { bucket with tokensMicro := tokens } := by
  refine ⟨h.capacity, h.sameRate, ?_, ?_, ?_⟩
  · show tokens <= bucket.capacityMicro
    have hlevel := h.level
    omega
  · intro x hx hpeer
    rcases mem_append.mp hx with hold | hnew
    · exact h.past x hold hpeer
    · rcases mem_map.mp hnew with ⟨batch, -, rfl⟩
      exact UInt64.le_iff_toNat_le.mpr (by rw [← hnow])
  · intro first hfirst
    have hsince := h.since first hfirst
    rw [bytesSince_append, if_pos ⟨rfl, by rw [← hnow]; exact hfirst⟩, Nat.add_mul]
    show _ + tokens <= _ + _ * (bucket.lastMs.toNat - _)
    omega

theorem Paced.other (h : Paced capacityBytes rate sent peer bucket) {other : PeerId}
    (hne : other ≠ peer) (batches : List Batch) (nowMs : UInt64) :
    Paced capacityBytes rate (sent ++ batches.map (fun batch => ⟨other, nowMs, batch⟩)) peer
      bucket := by
  refine ⟨h.capacity, h.sameRate, h.level, ?_, ?_⟩
  · intro x hx hpeer
    rcases mem_append.mp hx with hold | hnew
    · exact h.past x hold hpeer
    · rcases mem_map.mp hnew with ⟨batch, -, rfl⟩
      exact absurd hpeer hne
  · intro first hfirst
    rw [bytesSince_other batches hne]
    exact h.since first hfirst

/-- The bytes sent to a peer in an interval are within the capacity and the rate. -/
def WithinRate (capacityBytes : UInt64) (rate : ByteRate) (sent : List Sending) : Prop :=
  forall peer first last, first <= last ->
    bytesWithin sent peer first last * micro <=
      capacityBytes.toNat * micro + rate.millibytesPerSec * (last.toNat - first.toNat)

theorem bytesWithin_append_of_not (batches : List Batch) {other : PeerId} {first last : UInt64}
    (h : ¬ (peer = other ∧ first <= nowMs ∧ nowMs <= last)) :
    bytesWithin (sent ++ batches.map (fun batch => ⟨peer, nowMs, batch⟩)) other first last =
      bytesWithin sent other first last := by
  have hnone : (batches.map (fun batch => (⟨peer, nowMs, batch⟩ : Sending))).filter
      (fun x => decide (x.peer = other ∧ first <= x.atMs ∧ x.atMs <= last)) = [] := by
    apply filter_eq_nil_iff.mpr
    intro x hx
    rcases mem_map.mp hx with ⟨batch, -, rfl⟩
    rw [decide_eq_true_iff]
    exact h
  unfold bytesWithin
  rw [filter_append, hnone, append_nil]

theorem Paced.withinRate {batches : List Batch} (hold : WithinRate capacityBytes rate sent)
    (h : Paced capacityBytes rate (sent ++ batches.map (fun batch => ⟨peer, nowMs, batch⟩)) peer
      bucket) (hnow : bucket.lastMs = nowMs) : WithinRate capacityBytes rate
      (sent ++ batches.map (fun batch => ⟨peer, nowMs, batch⟩)) := by
  intro other first last hspan
  by_cases hpeer : peer = other
  · by_cases hearly : last < nowMs
    · rw [bytesWithin_append_of_not batches (fun hspan => UInt64.lt_irrefl _
        (UInt64.lt_of_lt_of_le hearly hspan.right.right))]
      exact hold other first last hspan
    · subst hpeer
      have hle := Nat.mul_le_mul_right micro (bytesWithin_le
        (sent ++ batches.map (fun batch => ⟨peer, nowMs, batch⟩)) peer first last)
      by_cases hfirst : first <= bucket.lastMs
      · have hsince := h.since first hfirst
        have hwider : rate.millibytesPerSec * (bucket.lastMs.toNat - first.toNat) <=
            rate.millibytesPerSec * (last.toNat - first.toNat) := by
          apply Nat.mul_le_mul_left
          rw [UInt64.lt_iff_toNat_lt] at hearly
          rw [hnow]
          omega
        omega
      · rw [bytesSince_late h.past (UInt64.not_le.mp hfirst)] at hle
        omega
  · rw [bytesWithin_append_of_not batches (fun hspan => hpeer hspan.left)]
    exact hold other first last hspan

end Pacing

end Rabbithole.Reticulum
