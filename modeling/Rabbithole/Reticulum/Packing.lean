import Rabbithole.Reticulum.Batch

/-!
# What a plan packs

A batch that keeps to the limits is encoded and decoded again.  Packing puts the messages into
groups in their order, each within the budget, and what is sent is a front part.
-/

namespace Rabbithole.Reticulum

open Foundation List TunnelMessage

/-!
## The envelope
-/

namespace Batch

variable {contentId : ContentId} {messages : List TunnelMessage} {bytes : Bytes}

theorem encodeMessages_cons {msg : TunnelMessage} {rest : List TunnelMessage}
    (h : encodeMessages (msg :: rest) = .ok bytes) :
    exists first behind, msg.encode = .ok first ∧ encodeMessages rest = .ok behind ∧
      bytes = first ++ behind := by
  unfold encodeMessages at h
  cases hfirst : msg.encode with
  | error e =>
      rw [hfirst] at h
      cases h
  | ok first =>
      rw [hfirst] at h
      cases hrest : encodeMessages rest with
      | error e =>
          rw [hrest] at h
          cases h
      | ok behind =>
          rw [hrest] at h
          cases h
          exact ⟨first, behind, rfl, rfl, rfl⟩

theorem encodeMessages_ok
    (h : forall msg, msg ∈ messages -> msg.payload.length <= maxTunnelPayload) :
    exists bytes, encodeMessages messages = .ok bytes := by
  induction messages with
  | nil => exact ⟨[], rfl⟩
  | cons msg rest ih =>
      rcases encode_ok (h msg mem_cons_self) with ⟨first, hfirst⟩
      rcases ih (fun m hm => h m (mem_cons_of_mem _ hm)) with ⟨behind, hrest⟩
      refine ⟨first ++ behind, ?_⟩
      unfold encodeMessages
      rw [hfirst, hrest]
      rfl

theorem length_encodeMessages (h : encodeMessages messages = .ok bytes) :
    bytes.length = (messages.map TunnelMessage.encodedLen).sum := by
  induction messages generalizing bytes with
  | nil =>
      cases h
      rfl
  | cons msg rest ih =>
      rcases encodeMessages_cons h with ⟨first, behind, hfirst, hrest, rfl⟩
      rw [length_append, map_cons, sum_cons, length_encode hfirst, ih hrest]

theorem decodeMessages_encode (hids : forall msg, msg ∈ messages -> msg.verifyId contentId = true)
    (h : encodeMessages messages = .ok bytes) (front : Bytes)
    (hlength : (front ++ bytes).length <= usizeMax) :
    decodeMessages contentId (front ++ bytes) messages.length front.length =
      .ok (messages, (front ++ bytes).length) := by
  induction messages generalizing bytes front with
  | nil =>
      cases h
      rw [append_nil]
      rfl
  | cons msg rest ih =>
      rcases encodeMessages_cons h with ⟨first, behind, hfirst, hrest, rfl⟩
      have hone := decodeFrom_encode (hids msg mem_cons_self) hfirst front
        behind hlength
      have hnext : front.length + msg.encodedLen = (front ++ first).length := by
        rw [length_append, length_encode hfirst]
      have hothers := ih (fun m hm => hids m (mem_cons_of_mem _ hm)) hrest (front ++ first)
        (by rw [append_assoc]; exact hlength)
      rw [append_assoc] at hothers
      rw [length_cons]
      simp only [decodeMessages, hone, hnext, hothers]
      rfl

theorem encode_ok {batch : Batch} (hcount : batch.messages.length <= maxBatchMessages)
    (hsmall : forall msg, msg ∈ batch.messages -> msg.payload.length <= maxTunnelPayload)
    (hmtu : batch.encodedLen <= mtu) :
    exists bytes, batch.encode = .ok bytes ∧ bytes.length = batch.encodedLen := by
  rcases encodeMessages_ok hsmall with ⟨body, hbody⟩
  have hlength : ([batchVersion, UInt8.ofNat batch.messages.length] ++ body).length =
      batch.encodedLen := by
    unfold encodedLen lengthOf batchEnvelopeHeaderLen
    rw [length_append, length_encodeMessages hbody]
    rfl
  refine ⟨_, ?_, hlength⟩
  unfold encode
  rw [if_neg (Nat.not_lt.mpr hcount), hbody]
  simp only []
  rw [if_neg (by rw [hlength]; exact Nat.not_lt.mpr hmtu)]

theorem decode_encode {batch : Batch}
    (hids : forall msg, msg ∈ batch.messages -> msg.verifyId contentId = true)
    (h : batch.encode = .ok bytes) : decode contentId bytes = .ok batch := by
  unfold encode at h
  split at h
  · cases h
  · rename_i hcount
    cases hbody : encodeMessages batch.messages with
    | error e =>
        rw [hbody] at h
        cases h
    | ok body =>
        rw [hbody] at h
        simp only [] at h
        split at h
        · cases h
        · rename_i hmtu
          cases h
          have hlen : (UInt8.ofNat batch.messages.length).toNat = batch.messages.length := by
            unfold maxBatchMessages at hcount
            rw [UInt8.toNat_ofNat', Nat.mod_eq_of_lt (by omega)]
          have hread : decodeMessages contentId
              ([batchVersion, UInt8.ofNat batch.messages.length] ++ body)
              (([batchVersion, UInt8.ofNat batch.messages.length] ++ body).getD 1 0).toNat
              batchEnvelopeHeaderLen = .ok (batch.messages,
                ([batchVersion, UInt8.ofNat batch.messages.length] ++ body).length) := by
            have hsecond : ([batchVersion, UInt8.ofNat batch.messages.length] ++ body).getD 1 0 =
                UInt8.ofNat batch.messages.length := rfl
            rw [hsecond, hlen]
            exact decodeMessages_encode hids hbody
              [batchVersion, UInt8.ofNat batch.messages.length]
              (le_trans (Nat.le_of_not_lt hmtu) (by decide))
          unfold decode
          rw [if_neg hmtu, if_neg (by unfold batchEnvelopeHeaderLen; simp), if_neg (by simp),
            hread]
          simp

end Batch

/-!
## The order
-/

instance order_trans : Std.TransCmp TunnelMessage.order :=
  inferInstanceAs (Std.TransCmp (compareLex
    (fun a b => compareOn TunnelMessage.priority b a)
    (compareLex (compareOn TunnelMessage.createdMs) (compareOn TunnelMessage.id))))

/-- Of two queued messages one comes first or they are level. -/
instance : Std.Total (fun a b : Queued => (a.msg.order b.msg).isLE = true) where
  total a b := by
    have hswap : b.msg.order a.msg = (a.msg.order b.msg).swap := Std.OrientedCmp.eq_swap
    rw [hswap]
    cases a.msg.order b.msg with
    | lt | eq => exact Or.inl rfl
    | gt => exact Or.inr rfl

instance : IsTrans Queued (fun a b => (a.msg.order b.msg).isLE = true) where
  trans _ _ _ hab hbc := Std.TransCmp.isLE_trans hab hbc

theorem TunnelMessage.id_of_order_eq {a b : TunnelMessage} (h : a.order b = .eq) : a.id = b.id := by
  unfold TunnelMessage.order at h
  rw [Ordering.then_eq_eq, Ordering.then_eq_eq] at h
  exact Std.LawfulEqOrd.eq_of_compare h.right.right

namespace Batcher

/-- The entries of a queue are stored under the ids of their messages. -/
def Keyed (queue : Dict TunnelId Queued) : Prop :=
  forall id q, queue.get? id = some q -> q.msg.id = id

variable {queue : Dict TunnelId Queued} {budget : Nat}

theorem mem_ordered (hkeyed : Keyed queue) {q : Queued} :
    q ∈ ordered queue <-> queue.get? q.msg.id = some q := by
  unfold ordered
  rw [mem_insertionSort, mem_map]
  constructor
  · rintro ⟨⟨id, q'⟩, hmem, rfl⟩
    have hget := Dict.get?_eq_some_iff.mpr hmem
    rw [hkeyed id q' hget]
    exact hget
  · intro hget
    exact ⟨_, Dict.get?_eq_some_iff.mp hget, rfl⟩

theorem nodup_ordered (hkeyed : Keyed queue) : ((ordered queue).map (fun q => q.msg.id)).Nodup := by
  have hperm : ((ordered queue).map (fun q => q.msg.id)).Perm
      ((queue.entries.map Prod.snd).map (fun q => q.msg.id)) :=
    (perm_insertionSort _ _).map _
  have hkeys : (queue.entries.map Prod.snd).map (fun q => q.msg.id) =
      queue.entries.map Prod.fst := by
    rw [map_map]
    apply map_congr_left
    rintro ⟨id, q⟩ hmem
    exact hkeyed id q (Dict.get?_eq_some_iff.mpr hmem)
  rw [hkeys] at hperm
  exact hperm.nodup_iff.mpr queue.nodup

theorem pairwise_ordered (hkeyed : Keyed queue) :
    (ordered queue).Pairwise (fun a b => a.msg.order b.msg = .lt) := by
  have hsorted : (ordered queue).Pairwise (fun a b => (a.msg.order b.msg).isLE = true) :=
    pairwise_insertionSort _ _
  have hdistinct := pairwise_map.mp (nodup_ordered hkeyed)
  refine (hsorted.and hdistinct).imp ?_
  rintro a b ⟨hle, hne⟩
  cases horder : a.msg.order b.msg with
  | lt => rfl
  | eq => exact absurd (id_of_order_eq horder) hne
  | gt =>
      rw [horder] at hle
      cases hle

/-!
## Packing
-/

/-- A group that makes a batch: not empty, within the budget, and few enough. -/
structure Packs (budget : Nat) (group : List Queued) : Prop where
  some : group ≠ []
  few : group.length <= maxBatchMessages
  length : groupLen group <= budget

structure Sound (budget : Nat) (p : Packing) : Prop where
  groups : forall group, group ∈ p.groups -> Packs budget group
  current : p.current ≠ [] -> Packs budget p.current
  currentLen : p.currentLen = groupLen p.current

def packed (p : Packing) : List Queued :=
  p.groups.flatten ++ p.current

def fits (budget : Nat) (q : Queued) : Bool :=
  decide (batchEnvelopeHeaderLen + q.msg.encodedLen <= budget)

theorem groupLen_append (group : List Queued) (q : Queued) :
    groupLen (group ++ [q]) = groupLen group + q.msg.encodedLen := by
  unfold groupLen Batch.lengthOf
  rw [map_append, map_append, sum_append]
  simp [Nat.add_assoc]

theorem packs_singleton {q : Queued} (h : fits budget q = true) : Packs budget [q] := by
  refine ⟨by simp, (by decide : 1 <= maxBatchMessages), ?_⟩
  unfold fits at h
  unfold groupLen Batch.lengthOf
  simpa using h

theorem Sound.packOne {p : Packing} (h : Sound budget p) (q : Queued) :
    Sound budget (packOne budget p q) ∧
      packed (Batcher.packOne budget p q) = packed p ++ if fits budget q then [q] else [] := by
  unfold Batcher.packOne
  simp only []
  split
  · rename_i hbig
    refine ⟨h, ?_⟩
    rw [if_neg (by unfold fits; simpa using hbig), append_nil]
  · rename_i hsmall
    have hfits : fits budget q = true := by
      unfold fits
      simpa using hsmall
    rw [if_pos hfits]
    split
    · rename_i hclose
      simp only [Bool.and_eq_true, Bool.not_eq_true', isEmpty_eq_false_iff] at hclose
      refine ⟨⟨?_, fun _ => packs_singleton hfits, ?_⟩, ?_⟩
      · intro group hgroup
        rcases mem_append.mp hgroup with hold | hlast
        · exact h.groups group hold
        · rw [mem_singleton.mp hlast]
          exact h.current hclose.left
      · unfold groupLen Batch.lengthOf
        simp
      · unfold packed
        simp
    · rename_i hopen
      refine ⟨⟨h.groups, ?_, ?_⟩, ?_⟩
      · intro _
        by_cases hempty : p.current = []
        · rw [hempty]
          exact packs_singleton hfits
        · simp only [Bool.and_eq_true, Bool.not_eq_true', isEmpty_eq_false_iff,
            Bool.or_eq_true, decide_eq_false_iff_not, not_and, not_or, not_not] at hopen
          rcases hopen hempty with ⟨hsize, hcount⟩
          refine ⟨by simp, ?_, ?_⟩
          · rw [length_append]
            exact hcount
          · rw [groupLen_append, ← h.currentLen]
            exact hsize
      · rw [groupLen_append, ← h.currentLen]
      · unfold packed
        simp

theorem Sound.foldl {p : Packing} (h : Sound budget p) (queued : List Queued) :
    Sound budget (queued.foldl (Batcher.packOne budget) p) ∧
      packed (queued.foldl (Batcher.packOne budget) p) =
        packed p ++ queued.filter (fits budget) := by
  induction queued generalizing p with
  | nil => exact ⟨h, (append_nil _).symm⟩
  | cons q rest ih =>
      have hone := h.packOne q
      have hall := ih hone.left
      refine ⟨hall.left, ?_⟩
      rw [foldl_cons, hall.right, hone.right, append_assoc, filter_cons]
      split
      · rfl
      · rfl

theorem pack_spec (budget : Nat) (queued : List Queued) :
    (forall group, group ∈ pack budget queued -> Packs budget group) ∧
      (pack budget queued).flatten = queued.filter (fits budget) := by
  have hnew : Sound budget ⟨[], [], batchEnvelopeHeaderLen⟩ :=
    ⟨fun group hgroup => absurd hgroup not_mem_nil, fun hne => absurd rfl hne, rfl⟩
  have hall := hnew.foldl queued
  unfold pack
  simp only []
  split
  · rename_i hempty
    refine ⟨hall.left.groups, ?_⟩
    have hpacked := hall.right
    unfold packed at hpacked
    rw [List.isEmpty_iff.mp hempty] at hpacked
    simpa using hpacked
  · rename_i hcurrent
    constructor
    · intro group hgroup
      rcases mem_append.mp hgroup with hold | hlast
      · exact hall.left.groups group hold
      · rw [mem_singleton.mp hlast]
        exact hall.left.current (by simpa using hcurrent)
    · have hpacked := hall.right
      unfold packed at hpacked
      simpa using hpacked

/-!
## Sending
-/

def sentLen (sent : List (List Queued)) : Nat :=
  (sent.map groupLen).sum

variable {s : Batcher} {nowMs : UInt64}

theorem refill_of_not_lt {bucket : TokenBucket} (h : ¬ bucket.lastMs < nowMs) :
    bucket.refill nowMs = bucket := by
  unfold TokenBucket.refill
  rw [if_neg h]

theorem trySpend_of_not_lt {bucket : TokenBucket} (h : ¬ bucket.lastMs < nowMs) (bytes : Nat) :
    bucket.trySpend bytes nowMs =
      if bytes * micro <= bucket.tokensMicro then
        (true, { bucket with tokensMicro := bucket.tokensMicro - bytes * micro })
      else (false, bucket) := by
  unfold TokenBucket.trySpend
  rw [refill_of_not_lt h]

theorem emit_cons (s : Batcher) {behind : TokenBucket -> List (List Queued) ->
      List (List Queued) × TokenBucket} (hbehind : behind = s.emit nowMs) (bucket : TokenBucket)
    (group : List Queued) (rest : List (List Queued)) :
    s.emit nowMs bucket (group :: rest) =
      if !s.full group && !s.aged nowMs group then ([], bucket) else
        let (paid, bucket) := bucket.trySpend (groupLen group) nowMs
        if paid then
          let (sent, bucket) := behind bucket rest
          (group :: sent, bucket)
        else ([], bucket) := by
  -- spending is left open while the definition unfolds: the kernel would count its tokens
  have hemit : @emit = @emit := rfl
  conv at hemit => rhs; delta emit
  have hstep : @emit._f = @emit._f := rfl
  conv at hstep => rhs; delta emit._f
  rw [hemit, hstep] at hbehind ⊢
  obtain ⟨spend, hspend⟩ : exists spend, spend = TokenBucket.trySpend := ⟨_, rfl⟩
  rw [← hspend] at hbehind ⊢
  subst hbehind
  rfl

theorem emit_spec (s : Batcher) {bucket : TokenBucket} (hlast : ¬ bucket.lastMs < nowMs)
    (groups : List (List Queued)) :
    (s.emit nowMs bucket groups).fst <+: groups ∧
      sentLen (s.emit nowMs bucket groups).fst * micro +
        (s.emit nowMs bucket groups).snd.tokensMicro = bucket.tokensMicro ∧
      (s.emit nowMs bucket groups).snd =
        { bucket with tokensMicro := (s.emit nowMs bucket groups).snd.tokensMicro } := by
  induction groups generalizing bucket with
  | nil => exact ⟨prefix_refl _, by simp [sentLen, show s.emit nowMs bucket [] = ([], bucket) from rfl], rfl⟩
  | cons group rest ih =>
      rw [emit_cons s rfl]
      split
      · exact ⟨ nil_prefix, by simp [sentLen], rfl⟩
      · rw [trySpend_of_not_lt hlast]
        by_cases hpaid : groupLen group * micro <= bucket.tokensMicro
        · rw [if_pos hpaid]
          dsimp only
          rw [if_pos rfl]
          rcases @ih { bucket with tokensMicro := bucket.tokensMicro - groupLen group * micro }
            hlast with ⟨hgiven, htokens, hbucket⟩
          refine ⟨(prefix_cons_inj _).mpr hgiven, ?_, hbucket⟩
          have hsum : sentLen (group :: (s.emit nowMs { bucket with
              tokensMicro := bucket.tokensMicro - groupLen group * micro } rest).fst) =
              groupLen group + sentLen (s.emit nowMs { bucket with
                tokensMicro := bucket.tokensMicro - groupLen group * micro } rest).fst := by
            unfold sentLen
            rw [map_cons, sum_cons]
          rw [hsum, Nat.add_mul, Nat.add_assoc, htokens]
          exact Nat.add_sub_cancel' hpaid
        · rw [if_neg hpaid]
          exact ⟨ nil_prefix, by simp [sentLen], rfl⟩

end Batcher
end Rabbithole.Reticulum
