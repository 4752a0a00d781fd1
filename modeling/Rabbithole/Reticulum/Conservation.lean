import Rabbithole.Reticulum.Pacing

/-!
# Nothing queued is lost

What a run of the batcher keeps: what was newly queued was sent or waits, plans are in
order, batches keep to their limits, and no peer is sent more than its rate.
-/

namespace Rabbithole.Reticulum

open Foundation List Dict

/-- What holds of a peer's queue and bucket, after all that was sent to it. -/
structure PeerQueue.Sound (capacityBytes : UInt64) (rate : ByteRate)
    (good : TunnelMessage -> Prop) (sent : List Sending) (peer : PeerId) (nowMs : UInt64)
    (pq : PeerQueue) : Prop where
  keyed : Batcher.Keyed pq.queue
  good : forall id q, pq.queue.get? id = some q -> good q.msg
  past : pq.bucket.lastMs <= nowMs
  paced : Paced capacityBytes rate sent peer pq.bucket

/-- What is sent: few enough messages, within the budget, and only such as were queued. -/
def GoodBatch (budget : Nat) (good : TunnelMessage -> Prop) (batch : Batch) : Prop :=
  batch.messages.length <= maxBatchMessages ∧ batch.encodedLen <= budget ∧
    forall msg, msg ∈ batch.messages -> good msg

/-- A plan sends its messages in order. -/
def InOrder (plan : List Batch) : Prop :=
  (plan.flatMap Batch.messages).Pairwise (fun a b => a.order b = .lt)

/-- What was newly queued was sent or waits, each as often. -/
def Traffic.Conserved (t : Traffic) : Prop :=
  forall peer id, t.queued.count (peer, id) =
    (t.idsSent peer).count id + if t.waiting peer id then 1 else 0

structure Traffic.Sound (budget : Nat) (capacityBytes : UInt64) (rate : ByteRate)
    (good : TunnelMessage -> Prop) (t : Traffic) : Prop where
  sameBudget : t.batcher.budget = budget
  capacity : t.batcher.capacityBytes = capacityBytes
  sameRate : t.batcher.rate = rate
  peers : forall peer pq, t.batcher.peers.get? peer = some pq ->
    pq.Sound capacityBytes rate good t.sent peer t.clock
  absent : forall peer, t.batcher.peers.get? peer = none ->
    forall x, x ∈ t.sent -> x.peer ≠ peer
  within : WithinRate capacityBytes rate t.sent
  batches : forall x, x ∈ t.sent -> GoodBatch budget good x.batch
  order : forall plan, plan ∈ t.plans -> InOrder plan
  conserved : t.Conserved

section Steps

variable {budget : Nat} {capacityBytes : UInt64} {rate : ByteRate}
  {good : TunnelMessage -> Prop} {t : Traffic} {peer : PeerId} {msg : TunnelMessage}
  {nowMs : UInt64}

theorem PeerQueue.Sound.later {pq : PeerQueue} {sent : List Sending} {laterMs : UInt64}
    (h : pq.Sound capacityBytes rate good sent peer nowMs) (hle : nowMs <= laterMs) :
    pq.Sound capacityBytes rate good sent peer laterMs :=
  ⟨h.keyed, h.good, UInt64.le_trans h.past hle, h.paced⟩

theorem Traffic.Sound.peerQueue (h : t.Sound budget capacityBytes rate good)
    (hnow : t.clock <= nowMs) (peer : PeerId) :
    (t.batcher.peerQueue peer nowMs).Sound capacityBytes rate good t.sent peer nowMs ∧
      forall id, t.waiting peer id = ((t.batcher.peerQueue peer nowMs).queue.get? id).isSome := by
  unfold Batcher.peerQueue Traffic.waiting
  cases hget : t.batcher.peers.get? peer with
  | some pq => exact ⟨(h.peers peer pq hget).later hnow, fun id => rfl⟩
  | none =>
      refine ⟨⟨?_, ?_, UInt64.le_refl nowMs, ?_⟩, fun id => rfl⟩
      · intro id q hq
        cases hq
      · intro id q hq
        cases hq
      · rw [h.capacity, h.sameRate]
        exact Paced.fresh (h.absent peer hget)

theorem Batcher.enqueue_eq (s : Batcher) (peer : PeerId) (msg : TunnelMessage)
    (nowMs : UInt64) : exists enqueuedMs, s.enqueue peer msg nowMs =
      (((s.peerQueue peer nowMs).queue.get? msg.id).isNone,
        { s with
          peers := s.peers.insert peer
            { s.peerQueue peer nowMs with
              queue := (s.peerQueue peer nowMs).queue.insert msg.id ⟨msg, enqueuedMs⟩ } }) := by
  unfold Batcher.enqueue
  cases hget : (s.peerQueue peer nowMs).queue.get? msg.id with
  | none =>
      refine ⟨nowMs, ?_⟩
      simp only [hget]
      rfl
  | some existing =>
      refine ⟨existing.enqueuedMs, ?_⟩
      simp only [hget]
      rfl

theorem PeerQueue.Sound.insert {pq : PeerQueue} {sent : List Sending} {enqueuedMs : UInt64}
    (h : pq.Sound capacityBytes rate good sent peer nowMs) (hgood : good msg) :
    PeerQueue.Sound capacityBytes rate good sent peer nowMs
      { pq with queue := pq.queue.insert msg.id ⟨msg, enqueuedMs⟩ } := by
  refine ⟨?_, ?_, h.past, h.paced⟩
  · intro id q hq
    rw [get?_insert] at hq
    split at hq
    · rename_i hid
      cases hq
      exact hid.symm
    · exact h.keyed id q hq
  · intro id q hq
    rw [get?_insert] at hq
    split at hq
    · cases hq
      exact hgood
    · exact h.good id q hq

theorem waiting_insert {pq : PeerQueue} {t' : Traffic} {q : Queued}
    (hpeers : t'.batcher.peers = t.batcher.peers.insert peer
      { pq with queue := pq.queue.insert msg.id q })
    (hwaiting : forall id, t.waiting peer id = (pq.queue.get? id).isSome)
    (other : PeerId) (id : TunnelId) :
    t'.waiting other id = (decide (other = peer ∧ id = msg.id) || t.waiting other id) := by
  by_cases hother : other = peer
  · rw [hother, hwaiting]
    unfold Traffic.waiting
    rw [hpeers, get?_insert, if_pos rfl, Option.bind_some, get?_insert]
    by_cases hid : id = msg.id
    · simp [hid]
    · simp [hid]
  · unfold Traffic.waiting
    rw [hpeers, get?_insert, if_neg hother]
    simp [hother]

theorem Traffic.Conserved.enqueue {pq : PeerQueue} {t' : Traffic} {q : Queued} (h : t.Conserved)
    (hpeers : t'.batcher.peers = t.batcher.peers.insert peer
      { pq with queue := pq.queue.insert msg.id q })
    (hwaiting : forall id, t.waiting peer id = (pq.queue.get? id).isSome)
    (hqueued : t'.queued =
      if (pq.queue.get? msg.id).isNone then t.queued ++ [(peer, msg.id)] else t.queued)
    (hsent : t'.sent = t.sent) : t'.Conserved := by
  intro other id
  have hbefore := h other id
  have hids : t'.idsSent other = t.idsSent other := by
    unfold Traffic.idsSent
    rw [hsent]
  rw [hids, waiting_insert hpeers hwaiting, hqueued]
  by_cases hsame : other = peer ∧ id = msg.id
  · rcases hsame with ⟨rfl, rfl⟩
    rw [hwaiting] at hbefore
    cases hfound : pq.queue.get? msg.id with
    | none =>
        rw [hfound] at hbefore
        rw [Option.isNone_none, if_pos rfl, count_append, hbefore]
        simp
    | some old =>
        rw [hfound] at hbefore
        rw [Option.isNone_some, if_neg (by simp), hbefore]
        simp
  · have hcount : (if (pq.queue.get? msg.id).isNone then t.queued ++ [(peer, msg.id)]
        else t.queued).count (other, id) = t.queued.count (other, id) := by
      split
      · have hnot : (other, id) ∉ [(peer, msg.id)] := by
          intro hmem
          cases mem_singleton.mp hmem
          exact hsame ⟨rfl, rfl⟩
        rw [count_append, count_eq_zero_of_not_mem hnot, Nat.add_zero]
      · rfl
    rw [hcount, hbefore]
    simp [hsame]

theorem Traffic.Sound.enqueue (h : t.Sound budget capacityBytes rate good)
    (hnow : t.clock <= nowMs) (hgood : good msg) :
    (t.call (.enqueue peer msg nowMs)).Sound budget capacityBytes rate good := by
  rcases h.peerQueue hnow peer with ⟨hpq, hwaiting⟩
  rcases t.batcher.enqueue_eq peer msg nowMs with ⟨enqueuedMs, henqueue⟩
  simp only [Traffic.call, henqueue]
  refine ⟨h.sameBudget, h.capacity, h.sameRate, ?_, ?_, h.within, h.batches, h.order,
    h.conserved.enqueue rfl hwaiting rfl rfl⟩
  · intro other pq hget
    rw [get?_insert] at hget
    split at hget
    · rename_i heq
      cases hget
      rw [heq]
      exact hpq.insert hgood
    · exact (h.peers other pq hget).later hnow
  · intro other hget x hx
    rw [get?_insert] at hget
    split at hget
    · cases hget
    · exact h.absent other hget x hx

def batchesOf (sent : List (List Queued)) : List Batch :=
  sent.map (fun group => ⟨group.map Queued.msg⟩)

theorem sum_encodedLen_batchesOf (sent : List (List Queued)) :
    ((batchesOf sent).map Batch.encodedLen).sum = Batcher.sentLen sent := by
  unfold batchesOf Batcher.sentLen
  rw [map_map]
  rfl

theorem flatMap_batchesOf (sent : List (List Queued)) :
    (batchesOf sent).flatMap Batch.messages = sent.flatten.map Queued.msg := by
  unfold batchesOf
  rw [flatMap_map, map_flatten, flatMap_def]

theorem TokenBucket.lastMs_refill {bucket : TokenBucket} (h : bucket.lastMs <= nowMs) :
    (bucket.refill nowMs).lastMs = nowMs := by
  unfold TokenBucket.refill
  split
  · rfl
  · rename_i hnot
    exact UInt64.le_antisymm h (UInt64.not_lt.mp hnot)

section Plan

variable {pq pq' : PeerQueue} {groups : List (List Queued)}

section

variable (h : pq.Sound capacityBytes rate good t.sent peer nowMs)
  (hplan : Batcher.PlanSpec t.batcher pq nowMs groups pq')
include h hplan

theorem PeerQueue.Sound.plan : pq'.Sound capacityBytes rate good
        (t.sent ++ (batchesOf groups).map (fun batch => ⟨peer, nowMs, batch⟩)) peer nowMs ∧
      pq'.bucket.lastMs = nowMs := by
  have hlast := TokenBucket.lastMs_refill h.past
  have hkept : forall id q, pq'.queue.get? id = some q -> pq.queue.get? id = some q := by
    intro id q hq
    rw [hplan.queue] at hq
    split at hq
    · cases hq
    · exact hq
  have hpaid := hplan.paid
  rw [← sum_encodedLen_batchesOf] at hpaid
  have hpaced := (h.paced.refill nowMs).spend hlast hpaid
  rw [← hplan.bucket] at hpaced
  have hnow : pq'.bucket.lastMs = nowMs := by
    rw [hplan.bucket]
    exact hlast
  refine ⟨⟨?_, ?_, ?_, hpaced⟩, hnow⟩
  · intro id q hq
    exact h.keyed id q (hkept id q hq)
  · intro id q hq
    exact h.good id q (hkept id q hq)
  · rw [hnow]
    exact UInt64.le_refl nowMs

theorem PeerQueue.Sound.goodBatch {batch : Batch} (hbatch : batch ∈ batchesOf groups) :
    GoodBatch t.batcher.budget good batch := by
  rcases mem_map.mp hbatch with ⟨group, hgroup, rfl⟩
  have hpacks := hplan.packs group hgroup
  refine ⟨?_, hpacks.length, ?_⟩
  · rw [length_map]
    exact hpacks.few
  · intro m hm
    rcases mem_map.mp hm with ⟨q, hq, rfl⟩
    exact h.good _ q (hplan.queued q (mem_flatten.mpr ⟨group, hgroup, hq⟩))

end

theorem idsSent_append (t' : Traffic) (other : PeerId) (hsent : t'.sent = t.sent ++
      (batchesOf groups).map (fun batch => ⟨peer, nowMs, batch⟩)) :
    t'.idsSent other = t.idsSent other ++
      if peer = other then groups.flatten.map (fun q => q.msg.id) else [] := by
  unfold Traffic.idsSent
  rw [hsent, filter_append, flatMap_append]
  congr 1
  by_cases hpeer : peer = other
  · rw [if_pos hpeer, filter_eq_self.mpr]
    · rw [flatMap_map, ← map_flatMap, flatMap_batchesOf, map_map]
      rfl
    · intro x hx
      rcases mem_map.mp hx with ⟨batch, -, rfl⟩
      exact decide_eq_true hpeer
  · rw [if_neg hpeer, filter_eq_nil_iff.mpr]
    · rfl
    · intro x hx
      rcases mem_map.mp hx with ⟨batch, -, rfl⟩
      rw [decide_eq_true_iff]
      exact hpeer

theorem Traffic.Conserved.plan {t' : Traffic} (h : t.Conserved)
    (hget : t.batcher.peers.get? peer = some pq)
    (hplan : Batcher.PlanSpec t.batcher pq nowMs groups pq')
    (hpeers : t'.batcher.peers = t.batcher.peers.insert peer pq') (hqueued : t'.queued = t.queued)
    (hsent : t'.sent = t.sent ++
      (batchesOf groups).map (fun batch => ⟨peer, nowMs, batch⟩)) : t'.Conserved := by
  intro other id
  have hbefore := h other id
  rw [hqueued, idsSent_append t' other hsent, hbefore]
  by_cases hother : peer = other
  · subst hother
    have hold : t.waiting peer id = (pq.queue.get? id).isSome := by
      unfold Traffic.waiting
      rw [hget]
      rfl
    have hnew : t'.waiting peer id =
        if id ∈ groups.flatten.map (fun q => q.msg.id) then false else t.waiting peer id := by
      rw [hold]
      unfold Traffic.waiting
      rw [hpeers, get?_insert, if_pos rfl, Option.bind_some, hplan.queue]
      split
      · rfl
      · rfl
    rw [if_pos rfl, count_append, hnew]
    by_cases hmem : id ∈ groups.flatten.map (fun q => q.msg.id)
    · have hwaited : t.waiting peer id = true := by
        rcases mem_map.mp hmem with ⟨q, hq, rfl⟩
        rw [hold, hplan.queued q hq]
        rfl
      rw [count_eq_one_of_mem hplan.nodup hmem, hwaited, if_pos hmem]
      rfl
    · rw [count_eq_zero_of_not_mem hmem, if_neg hmem]
      rfl
  · rw [if_neg hother, append_nil]
    have hsame : t'.waiting other id = t.waiting other id := by
      unfold Traffic.waiting
      rw [hpeers, get?_insert, if_neg (Ne.symm hother)]
    rw [hsame]

end Plan

theorem Traffic.Sound.planBatches (h : t.Sound budget capacityBytes rate good)
    (hnow : t.clock <= nowMs) :
    (t.call (.planBatches peer nowMs)).Sound budget capacityBytes rate good := by
  cases hget : t.batcher.peers.get? peer with
  | none =>
      have hplan : t.batcher.planBatches peer nowMs = ([], t.batcher) := by
        unfold Batcher.planBatches
        rw [hget]
      have hconserved := h.conserved
      simp only [Traffic.call, hplan, map_nil, append_nil]
      refine ⟨h.sameBudget, h.capacity, h.sameRate,
        fun other q hother => (h.peers other q hother).later hnow, h.absent, h.within,
        h.batches, ?_, hconserved⟩
      intro plan hmem
      rcases mem_append.mp hmem with hold | hnew
      · exact h.order plan hold
      · rw [mem_singleton.mp hnew]
        exact Pairwise.nil
  | some pq =>
      have hpq := (h.peers peer pq hget).later hnow
      rcases Batcher.planBatches_spec nowMs hget hpq.keyed with ⟨groups, pq', hplan, heq⟩
      rcases hpq.plan hplan with ⟨hpq', hlast⟩
      have hconserved : (t.call (.planBatches peer nowMs)).Conserved :=
        h.conserved.plan hget hplan (by simp only [Traffic.call, heq]) rfl
          (by simp only [Traffic.call, heq]; rfl)
      simp only [Traffic.call, heq] at hconserved ⊢
      refine ⟨h.sameBudget, h.capacity, h.sameRate, ?_, ?_, ?_, ?_, ?_, hconserved⟩
      · intro other q hother
        rw [get?_insert] at hother
        split at hother
        · rename_i hsame
          cases hother
          rw [hsame]
          exact hpq'
        · rename_i hne
          have hold := (h.peers other q hother).later hnow
          exact ⟨hold.keyed, hold.good, hold.past,
            hold.paced.other (Ne.symm hne) (batchesOf groups) nowMs⟩
      · intro other hother x hx
        rw [get?_insert] at hother
        split at hother
        · cases hother
        · rename_i hne
          rcases mem_append.mp hx with hold | hnew
          · exact h.absent other hother x hold
          · rcases mem_map.mp hnew with ⟨batch, -, rfl⟩
            exact Ne.symm hne
      · exact hpq'.paced.withinRate h.within hlast
      · intro x hx
        rcases mem_append.mp hx with hold | hnew
        · exact h.batches x hold
        · rcases mem_map.mp hnew with ⟨batch, hbatch, rfl⟩
          rw [← h.sameBudget]
          exact hpq.goodBatch hplan hbatch
      · intro plan hmem
        rcases mem_append.mp hmem with hold | hnew
        · exact h.order plan hold
        · rw [mem_singleton.mp hnew]
          show Pairwise _ ((batchesOf groups).flatMap Batch.messages)
          rw [flatMap_batchesOf]
          exact pairwise_map.mpr hplan.order

end Steps

/-!
## Whole runs

The packing looks at the length of a message only, and the encoder has a cap of its own on
the payload: a message over the cap that still fits the budget is sent for, taken out of the
queue, and cannot be encoded.
-/

/-- The payload keeps to the encoder's cap, or the message is too long for any batch. -/
def Batchable (budget : Nat) (msg : TunnelMessage) : Prop :=
  msg.payload.length <= maxTunnelPayload ∨ budget < batchEnvelopeHeaderLen + msg.encodedLen

section Whole

variable {budget : Nat} {maxBatchAgeMs capacityBytes : UInt64} {rate : ByteRate}
  {good : TunnelMessage -> Prop} {t : Traffic} {calls : List BatchCall}

theorem Traffic.start_sound (budget : Nat) (maxBatchAgeMs capacityBytes : UInt64)
    (rate : ByteRate) (good : TunnelMessage -> Prop) :
    (Traffic.start budget maxBatchAgeMs capacityBytes rate).Sound
      (Batcher.withRate budget maxBatchAgeMs capacityBytes rate).budget capacityBytes rate
      good where
  sameBudget := rfl
  capacity := rfl
  sameRate := rfl
  peers _ _ h := by cases h
  absent _ _ _ hx := by cases hx
  within _ _ _ _ := by
    show 0 * micro <= _
    omega
  batches _ hx := by cases hx
  order _ hplan := by cases hplan
  conserved _ _ := rfl

theorem Traffic.run_sound (hgood : forall peer msg nowMs,
      BatchCall.enqueue peer msg nowMs ∈ calls -> good msg)
    (hrun : run? Traffic.step (Traffic.start budget maxBatchAgeMs capacityBytes rate) calls =
      some t) :
    t.Sound (Batcher.withRate budget maxBatchAgeMs capacityBytes rate).budget capacityBytes
      rate good := by
  have halong : Along Traffic.step
      (fun _ c => forall peer msg nowMs, c = .enqueue peer msg nowMs -> good msg)
      (Traffic.start budget maxBatchAgeMs capacityBytes rate) calls :=
    along_of_invariant (fun _ => True) (fun _ _ _ _ _ => trivial)
      (fun _ c hc _ peer msg nowMs heq => hgood peer msg nowMs (by rw [← heq]; exact hc)) trivial
  refine run?_invariant_along ?_
    (Traffic.start_sound budget maxBatchAgeMs capacityBytes rate good) halong hrun
  intro s c s' hs hcond hstep
  unfold Traffic.step at hstep
  split at hstep
  · rename_i hnow
    cases hstep
    cases c with
    | enqueue peer msg nowMs => exact hs.enqueue hnow (hcond peer msg nowMs rfl)
    | planBatches peer nowMs => exact hs.planBatches hnow
  · cases hstep

theorem encodedLen_le_of_mem {messages : List TunnelMessage} {msg : TunnelMessage}
    (h : msg ∈ messages) : batchEnvelopeHeaderLen + msg.encodedLen <= Batch.lengthOf messages := by
  unfold Batch.lengthOf
  exact Nat.add_le_add_left (le_sum_of_mem (mem_map_of_mem h)) _

theorem budget_le_mtu (budget : Nat) (maxBatchAgeMs capacityBytes : UInt64) (rate : ByteRate) :
    (Batcher.withRate budget maxBatchAgeMs capacityBytes rate).budget <= mtu := by
  have hmin : Batcher.minBudget <= mtu := by decide
  have hdefault : defaultBatchBudget <= mtu := by decide
  exact max_le hmin (le_trans (Nat.min_le_right _ _) hdefault)

theorem GoodBatch.encodes {contentId : ContentId} {batch : Batch} (h : GoodBatch budget
      (fun msg => msg.verifyId contentId = true ∧ Batchable budget msg) batch)
    (hmtu : budget <= mtu) :
    exists bytes, batch.encode = .ok bytes ∧ bytes.length = batch.encodedLen ∧
      Batch.decode contentId bytes = .ok batch := by
  rcases h with ⟨hfew, hlen, hgood⟩
  have hsmall : forall msg, msg ∈ batch.messages ->
      msg.payload.length <= maxTunnelPayload := by
    intro msg hmsg
    rcases (hgood msg hmsg).right with hshort | hlong
    · exact hshort
    · exact absurd (le_trans (encodedLen_le_of_mem hmsg) hlen) (Nat.not_le.mpr hlong)
  rcases Batch.encode_ok hfew hsmall (le_trans hlen hmtu) with ⟨bytes, hencode, hbytes⟩
  exact ⟨bytes, hencode, hbytes,
    Batch.decode_encode (fun msg hmsg => (hgood msg hmsg).left) hencode⟩

theorem batcher_conserves_and_paces {contentId : ContentId}
    (hids : forall peer msg nowMs, BatchCall.enqueue peer msg nowMs ∈ calls ->
      msg.verifyId contentId = true)
    (hrun : run? Traffic.step (Traffic.start budget maxBatchAgeMs capacityBytes rate) calls =
      some t) :
    (forall peer id, t.queued.count (peer, id) =
        (t.idsSent peer).count id + if t.waiting peer id then 1 else 0) ∧
      (forall plan, plan ∈ t.plans ->
        (plan.flatMap Batch.messages).Pairwise (fun a b => a.order b = .lt)) ∧
      (forall x, x ∈ t.sent -> x.batch.encodedLen <= t.batcher.budget) ∧
      (forall peer first last, first <= last -> bytesWithin t.sent peer first last * micro <=
        capacityBytes.toNat * micro + rate.millibytesPerSec * (last.toNat - first.toNat)) ∧
      ((forall peer msg nowMs, BatchCall.enqueue peer msg nowMs ∈ calls ->
          Batchable t.batcher.budget msg) ->
        forall x, x ∈ t.sent -> exists bytes, x.batch.encode = .ok bytes ∧
          bytes.length = x.batch.encodedLen ∧ Batch.decode contentId bytes = .ok x.batch) := by
  have hsound := Traffic.run_sound (fun peer msg nowMs hcall => hids peer msg nowMs hcall) hrun
  refine ⟨hsound.conserved, hsound.order, ?_, hsound.within, ?_⟩
  · intro x hx
    rw [hsound.sameBudget]
    exact (hsound.batches x hx).right.left
  · intro hshort x hx
    have hboth := Traffic.run_sound (fun peer msg nowMs hcall =>
      And.intro (hids peer msg nowMs hcall) (hshort peer msg nowMs hcall)) hrun
    have hbatch := hboth.batches x hx
    rw [← hsound.sameBudget] at hbatch
    refine hbatch.encodes ?_
    rw [hsound.sameBudget]
    exact budget_le_mtu _ _ _ _

end Whole

def sampleContentId : ContentId := fun createdMs _ _ _ =>
  if createdMs = 0 then #v[108, 185, 120, 31, 230, 130, 5, 107, 89, 192, 70, 19, 124, 72, 244, 30]
  else #v[129, 17, 71, 8, 30, 82, 121, 231, 152, 181, 4, 184, 113, 6, 16, 68]

def sampleCalls : List BatchCall :=
  [.enqueue ⟨Vector.replicate 16 1⟩ ⟨#v[108, 185, 120, 31, 230, 130, 5, 107, 89, 192, 70, 19, 124, 72, 244, 30],
      0, 0, 8, 0, [1, 2, 3]⟩ 0,
    .enqueue ⟨Vector.replicate 16 1⟩ ⟨#v[129, 17, 71, 8, 30, 82, 121, 231, 152, 181, 4, 184, 113, 6, 16, 68],
      5, 1, 8, 3, [4]⟩ 5,
    .planBatches ⟨Vector.replicate 16 1⟩ 30005]

theorem batcher_conserves_and_paces_sample :
    exists t, run? Traffic.step (Traffic.start 441 30000 441 ⟨300⟩) sampleCalls = some t ∧
      t.sent.map (fun x => x.batch.messages.map TunnelMessage.priority) = [[3, 0]] ∧
      forall x, x ∈ t.sent -> exists bytes, x.batch.encode = .ok bytes ∧
        bytes.length = x.batch.encodedLen ∧ Batch.decode sampleContentId bytes = .ok x.batch := by
  have hrun : exists t, run? Traffic.step (Traffic.start 441 30000 441 ⟨300⟩) sampleCalls =
      some t ∧ t.sent.map (fun x => x.batch.messages.map TunnelMessage.priority) = [[3, 0]] :=
    ⟨_, rfl, by decide⟩
  rcases hrun with ⟨t, hrun, hsent⟩
  have hcalls : forall peer msg nowMs, BatchCall.enqueue peer msg nowMs ∈ sampleCalls ->
      msg.verifyId sampleContentId = true ∧ msg.payload.length <= maxTunnelPayload := by
    intro peer msg nowMs hmem
    simp only [sampleCalls, mem_cons, not_mem_nil, or_false] at hmem
    rcases hmem with h | h | h
    · cases h
      decide
    · cases h
      decide
    · cases h
  have hall := batcher_conserves_and_paces (fun peer msg nowMs h => (hcalls peer msg nowMs h).left)
    hrun
  exact ⟨t, hrun, hsent, hall.right.right.right.right
    (fun peer msg nowMs h => Or.inl (hcalls peer msg nowMs h).right)⟩

/-- A byte over the cap of the payload, with the content id it really has. -/
def overCap : TunnelMessage :=
  ⟨#v[174, 44, 123, 74, 73, 41, 210, 107, 41, 70, 227, 240, 134, 118, 163, 81], 0, 0, 8, 0,
    List.replicate 385 0⟩

set_option maxRecDepth 4000 in
theorem overCap_sent_not_encoded : exists t, run? Traffic.step (Traffic.start 441 0 441 ⟨300⟩)
        [.enqueue ⟨Vector.replicate 16 1⟩ overCap 0, .planBatches ⟨Vector.replicate 16 1⟩ 0] =
        some t ∧
      t.sent.map (fun x => x.batch) = [⟨[overCap]⟩] ∧
      t.waiting ⟨Vector.replicate 16 1⟩ overCap.id = false ∧
      Batch.encode ⟨[overCap]⟩ = .error (.badMessage (.tooLarge 385)) :=
  ⟨_, rfl, rfl, rfl, rfl⟩

end Rabbithole.Reticulum
