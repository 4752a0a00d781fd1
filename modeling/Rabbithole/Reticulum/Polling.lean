import Rabbithole.Reticulum.Batch

/-!
# Looking at a bucket

A bucket adds up what it has earned whenever it is looked at, and rounds nothing away.  So it
answers as one that stays as it is until something is spent.
-/

namespace Rabbithole.Reticulum

open List

inductive BucketOp where
  | refill (nowMs : UInt64)
  | availableBytes (nowMs : UInt64)
  | trySpend (bytes nowMs : UInt64)

def BucketOp.nowMs : BucketOp -> UInt64
  | .refill nowMs => nowMs
  | .availableBytes nowMs => nowMs
  | .trySpend _ nowMs => nowMs

inductive BucketAnswer where
  | done
  | available (bytes : Nat)
  | spent (paid : Bool)
deriving DecidableEq

namespace TokenBucket

def availableBytes (bucket : TokenBucket) (nowMs : UInt64) : UInt64 :=
  UInt64.ofNat (bucket.peekMicro nowMs / micro)

def call (bucket : TokenBucket) : BucketOp -> BucketAnswer × TokenBucket
  | .refill nowMs => (.done, bucket.refill nowMs)
  | .availableBytes nowMs => (.available (bucket.availableBytes nowMs).toNat, bucket)
  | .trySpend bytes nowMs =>
      let (paid, bucket) := bucket.trySpend bytes.toNat nowMs
      (.spent paid, bucket)

variable {bucket : TokenBucket} {nowMs : UInt64}

theorem trySpend_of_le {bytes cost : Nat} (hcost : bytes * micro = cost)
    (h : cost <= (bucket.refill nowMs).tokensMicro) :
    bucket.trySpend bytes nowMs = (true, { bucket.refill nowMs with
      tokensMicro := (bucket.refill nowMs).tokensMicro - cost }) := by
  subst hcost
  exact if_pos h

theorem trySpend_of_lt {bytes cost : Nat} (hcost : bytes * micro = cost)
    (h : ¬ cost <= (bucket.refill nowMs).tokensMicro) :
    bucket.trySpend bytes nowMs = (false, bucket.refill nowMs) := by
  subst hcost
  exact if_neg h

theorem call_trySpend (bucket : TokenBucket) (bytes nowMs : UInt64) :
    bucket.call (.trySpend bytes nowMs) = (.spent (bucket.trySpend bytes.toNat nowMs).fst,
      (bucket.trySpend bytes.toNat nowMs).snd) := by
  -- as in a round, spending is left open while the definition unfolds
  have hcall : @call = @call := rfl
  conv at hcall => rhs; delta call
  obtain ⟨spend, hspend⟩ : exists spend, spend = TokenBucket.trySpend := ⟨_, rfl⟩
  rw [← hspend] at hcall ⊢
  rw [hcall]

def answers : TokenBucket -> List BucketOp -> List BucketAnswer
  | _, [] => []
  | bucket, op :: ops => (bucket.call op).fst :: answers (bucket.call op).snd ops

def after (bucket : TokenBucket) (ops : List BucketOp) : TokenBucket :=
  ops.foldl (fun bucket op => (bucket.call op).snd) bucket

/-!
## Arithmetic that fails when it overflows

Every operation but those that saturate, in 128 bits.
-/

def checkedMul (a b : Nat) : Option Nat :=
  if a * b <= u128Max then some (a * b) else none

def checkedSub (a b : Nat) : Option Nat :=
  if b <= a then some (a - b) else none

def checkedCast (n : Nat) : Option Nat :=
  if n < 2 ^ 64 then some n else none

def withRateChecked (capacityBytes : UInt64) (rate : ByteRate) (nowMs : UInt64) :
    Option TokenBucket :=
  (checkedMul capacityBytes.toNat micro).map (fun capacityMicro =>
    { capacityMicro := capacityMicro
      rate := rate
      tokensMicro := capacityMicro
      lastMs := nowMs })

def callChecked (bucket : TokenBucket) : BucketOp -> Option (BucketAnswer × TokenBucket)
  | .refill nowMs => some (.done, bucket.refill nowMs)
  | .availableBytes nowMs =>
      (checkedCast (bucket.peekMicro nowMs / micro)).map (fun n => (.available n, bucket))
  | .trySpend bytes nowMs =>
      let bucket := bucket.refill nowMs
      (checkedMul bytes.toNat micro).bind (fun cost =>
        if cost <= bucket.tokensMicro then
          (checkedSub bucket.tokensMicro cost).map (fun left =>
            (.spent true, { bucket with tokensMicro := left }))
        else some (.spent false, bucket))

def answersChecked : TokenBucket -> List BucketOp -> Option (List BucketAnswer)
  | _, [] => some []
  | bucket, op :: ops =>
      (bucket.callChecked op).bind (fun called =>
        (answersChecked called.snd ops).map (fun rest => called.fst :: rest))

/-- The capacity is a number of bytes of 64 bits, and bounds the tokens. -/
structure Fits (bucket : TokenBucket) : Prop where
  tokens : bucket.tokensMicro <= bucket.capacityMicro
  capacity : bucket.capacityMicro < 2 ^ 64 * micro

theorem micro_small : 2 ^ 64 * micro <= u128Max := by
  decide

theorem fits_withRate (capacityBytes : UInt64) (rate : ByteRate) (nowMs : UInt64) :
    (withRate capacityBytes rate nowMs).Fits where
  tokens := Nat.le_refl _
  capacity := Nat.mul_lt_mul_of_pos_right capacityBytes.toNat_lt (by decide)

theorem Fits.peekMicro (h : bucket.Fits) (nowMs : UInt64) :
    bucket.peekMicro nowMs = min bucket.capacityMicro
      (bucket.tokensMicro + (nowMs.toNat - bucket.lastMs.toNat) * bucket.rate.millibytesPerSec) := by
  have hcapacity := Nat.lt_of_lt_of_le h.capacity micro_small
  unfold TokenBucket.peekMicro
  dsimp only
  rw [toNat_saturatingSub]
  generalize (nowMs.toNat - bucket.lastMs.toNat) * bucket.rate.millibytesPerSec = earned
  omega

theorem Fits.refill (h : bucket.Fits) (nowMs : UInt64) : (bucket.refill nowMs).Fits := by
  unfold TokenBucket.refill
  split
  · refine ⟨?_, h.capacity⟩
    show bucket.peekMicro nowMs <= bucket.capacityMicro
    rw [h.peekMicro]
    exact Nat.min_le_left _ _
  · exact h

theorem Fits.call {bucket : TokenBucket} (h : bucket.Fits) (op : BucketOp) :
    (bucket.call op).snd.Fits := by
  cases op with
  | refill nowMs => exact h.refill nowMs
  | availableBytes nowMs => exact h
  | trySpend bytes nowMs =>
      have hrefill := h.refill nowMs
      obtain ⟨cost, hcost⟩ : exists cost, bytes.toNat * micro = cost := ⟨_, rfl⟩
      by_cases hpaid : cost <= (bucket.refill nowMs).tokensMicro
      · rw [call_trySpend, trySpend_of_le hcost hpaid]
        exact ⟨Nat.le_trans (Nat.sub_le _ _) hrefill.tokens, hrefill.capacity⟩
      · rw [call_trySpend, trySpend_of_lt hcost hpaid]
        exact hrefill

theorem Fits.after (h : bucket.Fits) (ops : List BucketOp) : (bucket.after ops).Fits := by
  induction ops generalizing bucket with
  | nil => exact h
  | cons op ops ih => exact ih (h.call op)

theorem Fits.toNat_availableBytes (h : bucket.Fits) (nowMs : UInt64) :
    (bucket.availableBytes nowMs).toNat = bucket.peekMicro nowMs / micro := by
  have hpeek : bucket.peekMicro nowMs < 2 ^ 64 * micro := by
    rw [h.peekMicro]
    exact Nat.lt_of_le_of_lt (Nat.min_le_left _ _) h.capacity
  unfold availableBytes
  rw [UInt64.toNat_ofNat']
  exact Nat.mod_eq_of_lt (Nat.div_lt_of_lt_mul (by rwa [Nat.mul_comm] at hpeek))

/-!
## Nothing overflows
-/

theorem checkedMul_bytes (bytes : UInt64) :
    checkedMul bytes.toNat micro = some (bytes.toNat * micro) := by
  have hbytes : bytes.toNat * micro < 2 ^ 64 * micro :=
    Nat.mul_lt_mul_of_pos_right bytes.toNat_lt (by decide)
  exact if_pos (Nat.le_trans (Nat.le_of_lt hbytes) micro_small)

theorem withRateChecked_eq (capacityBytes : UInt64) (rate : ByteRate) (nowMs : UInt64) :
    withRateChecked capacityBytes rate nowMs = some (withRate capacityBytes rate nowMs) := by
  unfold withRateChecked
  rw [checkedMul_bytes]
  rfl

theorem Fits.callChecked (h : bucket.Fits) (op : BucketOp) :
    bucket.callChecked op = some (bucket.call op) := by
  cases op with
  | refill nowMs => rfl
  | availableBytes nowMs =>
      have hfits := h.toNat_availableBytes nowMs
      have hsmall : bucket.peekMicro nowMs / micro < 2 ^ 64 := by
        rw [← hfits]
        exact (bucket.availableBytes nowMs).toNat_lt
      unfold TokenBucket.callChecked TokenBucket.call checkedCast
      dsimp only
      rw [if_pos hsmall, hfits]
      rfl
  | trySpend bytes nowMs =>
      obtain ⟨cost, hcost⟩ : exists cost, bytes.toNat * micro = cost := ⟨_, rfl⟩
      by_cases hpaid : cost <= (bucket.refill nowMs).tokensMicro
      · rw [call_trySpend, trySpend_of_le hcost hpaid]
        unfold TokenBucket.callChecked checkedSub
        dsimp only
        rw [checkedMul_bytes, hcost, Option.bind_some, if_pos hpaid, if_pos hpaid]
        rfl
      · rw [call_trySpend, trySpend_of_lt hcost hpaid]
        unfold TokenBucket.callChecked
        dsimp only
        rw [checkedMul_bytes, hcost, Option.bind_some, if_neg hpaid]

theorem Fits.answersChecked (h : bucket.Fits) (ops : List BucketOp) :
    bucket.answersChecked ops = some (bucket.answers ops) := by
  induction ops generalizing bucket with
  | nil => rfl
  | cons op ops ih =>
      unfold TokenBucket.answersChecked
      rw [h.callChecked, Option.bind_some, ih (h.call op)]
      rfl

/-!
## Time that goes back
-/

theorem Fits.backwards (h : bucket.Fits) (hback : nowMs <= bucket.lastMs) :
    bucket.peekMicro nowMs = bucket.tokensMicro ∧ bucket.refill nowMs = bucket ∧
      forall bytes, (bucket.trySpend bytes nowMs).snd.lastMs = bucket.lastMs ∧
        (bucket.trySpend bytes nowMs).snd.tokensMicro <= bucket.tokensMicro := by
  have hrefill : bucket.refill nowMs = bucket := by
    unfold TokenBucket.refill
    rw [if_neg (UInt64.not_lt.mpr hback)]
  refine ⟨?_, hrefill, fun bytes => ?_⟩
  · rw [h.peekMicro, Nat.sub_eq_zero_of_le (UInt64.le_iff_toNat_le.mp hback), Nat.zero_mul,
      Nat.add_zero, Nat.min_eq_right h.tokens]
  · obtain ⟨cost, hcost⟩ : exists cost, bytes * micro = cost := ⟨_, rfl⟩
    by_cases hpaid : cost <= (bucket.refill nowMs).tokensMicro
    · rw [trySpend_of_le hcost hpaid, hrefill]
      exact ⟨rfl, Nat.sub_le _ _⟩
    · rw [trySpend_of_lt hcost hpaid, hrefill]
      exact ⟨rfl, Nat.le_refl _⟩

theorem le_lastMs_refill (bucket : TokenBucket) (nowMs : UInt64) :
    nowMs <= (bucket.refill nowMs).lastMs := by
  unfold TokenBucket.refill
  split
  · exact UInt64.le_refl _
  · rename_i hnot
    exact UInt64.not_lt.mp hnot

end TokenBucket

/-!
## A bucket that nobody looks at
-/

/-- What a bucket has is what it had when something was last spent, and what it has earned
since. -/
structure ExactBucket where
  capacityMicro : Nat
  millibytesPerSec : Nat
  tokensMicro : Nat
  lastMs : Nat

namespace ExactBucket

def start (capacityBytes : UInt64) (rate : ByteRate) (nowMs : UInt64) : ExactBucket where
  capacityMicro := capacityBytes.toNat * micro
  millibytesPerSec := rate.millibytesPerSec
  tokensMicro := capacityBytes.toNat * micro
  lastMs := nowMs.toNat

def level (bucket : ExactBucket) (nowMs : Nat) : Nat :=
  min bucket.capacityMicro
    (bucket.tokensMicro + (nowMs - bucket.lastMs) * bucket.millibytesPerSec)

def call (bucket : ExactBucket) : BucketOp -> BucketAnswer × ExactBucket
  | .refill _ => (.done, bucket)
  | .availableBytes nowMs => (.available (bucket.level nowMs.toNat / micro), bucket)
  | .trySpend bytes nowMs =>
      if bytes.toNat * micro <= bucket.level nowMs.toNat then
        (.spent true,
          { bucket with
            tokensMicro := bucket.level nowMs.toNat - bytes.toNat * micro
            lastMs := max bucket.lastMs nowMs.toNat })
      else (.spent false, bucket)

def answers : ExactBucket -> List BucketOp -> List BucketAnswer
  | _, [] => []
  | bucket, op :: ops => (bucket.call op).fst :: answers (bucket.call op).snd ops

theorem call_of_not_spent {bucket : ExactBucket} {op : BucketOp}
    (h : (bucket.call op).fst ≠ .spent true) : (bucket.call op).snd = bucket := by
  cases op with
  | refill nowMs => rfl
  | availableBytes nowMs => rfl
  | trySpend bytes nowMs =>
      unfold call at h ⊢
      dsimp only at h ⊢
      split
      · rename_i hpaid
        rw [if_pos hpaid] at h
        exact absurd rfl h
      · rfl

theorem answers_kept {bucket : ExactBucket} {ops : List (BucketOp × Bool)}
    (hquiet : forall x, x ∈ ops.zip (bucket.answers (ops.map Prod.fst)) ->
      x.fst.snd = false -> x.snd ≠ .spent true) :
    ((ops.zip (bucket.answers (ops.map Prod.fst))).filter (fun x => x.fst.snd)).map Prod.snd =
      bucket.answers ((ops.filter Prod.snd).map Prod.fst) := by
  induction ops generalizing bucket with
  | nil => rfl
  | cons op ops ih =>
      obtain ⟨op, kept⟩ := op
      have hrest := @ih (bucket.call op).snd fun x hx => hquiet x (mem_cons_of_mem _ hx)
      cases kept with
      | true =>
          show (bucket.call op).fst :: _ = (bucket.call op).fst :: _
          exact congrArg _ hrest
      | false =>
          have hsame := call_of_not_spent (hquiet ((op, false), (bucket.call op).fst)
            mem_cons_self rfl)
          rw [hsame] at hrest
          show (List.filter _ (ops.zip ((bucket.call op).snd.answers (ops.map Prod.fst)))).map _ = _
          rw [hsame]
          exact hrest

end ExactBucket

/-!
## Both side by side
-/

/-- The bucket has been looked at, the other has not.  No look was later than the clock. -/
structure Follows (clockMs : Nat) (idle : ExactBucket) (bucket : TokenBucket) : Prop where
  fits : bucket.Fits
  capacity : idle.capacityMicro = bucket.capacityMicro
  rate : idle.millibytesPerSec = bucket.rate.millibytesPerSec
  since : idle.lastMs <= bucket.lastMs.toNat
  latest : bucket.lastMs.toNat <= max idle.lastMs clockMs
  tokens : bucket.tokensMicro = idle.level bucket.lastMs.toNat

namespace Follows

variable {clockMs : Nat} {idle : ExactBucket} {bucket : TokenBucket}

theorem start (capacityBytes : UInt64) (rate : ByteRate) (nowMs : UInt64) :
    Follows clockMs (ExactBucket.start capacityBytes rate nowMs)
      (TokenBucket.withRate capacityBytes rate nowMs) where
  fits := TokenBucket.fits_withRate capacityBytes rate nowMs
  capacity := rfl
  rate := rfl
  since := Nat.le_refl _
  latest := Nat.le_max_left _ _
  tokens := by
    show capacityBytes.toNat * micro = min (capacityBytes.toNat * micro)
      (capacityBytes.toNat * micro + (nowMs.toNat - nowMs.toNat) * rate.millibytesPerSec)
    rw [Nat.sub_self, Nat.zero_mul, Nat.add_zero, Nat.min_self]

variable {nowMs : UInt64}

section

variable (h : Follows clockMs idle bucket) (hnow : clockMs <= nowMs.toNat)
include h hnow

theorem peekMicro : bucket.peekMicro nowMs = idle.level nowMs.toNat := by
  have hsince := h.since
  have hlatest := h.latest
  rw [h.fits.peekMicro, h.tokens]
  unfold ExactBucket.level
  rw [h.capacity, h.rate]
  have hsplit : (nowMs.toNat - idle.lastMs) * bucket.rate.millibytesPerSec =
      (bucket.lastMs.toNat - idle.lastMs) * bucket.rate.millibytesPerSec +
        (nowMs.toNat - bucket.lastMs.toNat) * bucket.rate.millibytesPerSec := by
    rw [← Nat.add_mul]
    congr 1
    omega
  rw [hsplit]
  omega

theorem refill : Follows nowMs.toNat idle (bucket.refill nowMs) := by
  have hlatest := h.latest
  unfold TokenBucket.refill
  split
  · rename_i hlater
    have hlater := UInt64.lt_iff_toNat_lt.mp hlater
    have hfits := h.fits.refill nowMs
    unfold TokenBucket.refill at hfits
    rw [if_pos (UInt64.lt_iff_toNat_lt.mpr hlater)] at hfits
    refine ⟨hfits, h.capacity, h.rate, ?_, Nat.le_max_right _ _, h.peekMicro hnow⟩
    exact Nat.le_trans h.since (Nat.le_of_lt hlater)
  · exact ⟨h.fits, h.capacity, h.rate, h.since, by omega, h.tokens⟩

theorem tokens_refill : (bucket.refill nowMs).tokensMicro = idle.level nowMs.toNat := by
  have hpeek := (h.refill hnow).peekMicro (Nat.le_refl _)
  rw [← hpeek]
  exact ((h.refill hnow).fits.backwards (bucket.le_lastMs_refill nowMs)).left.symm

theorem spend (cost : Nat) : Follows nowMs.toNat
      { idle with
        tokensMicro := idle.level nowMs.toNat - cost
        lastMs := max idle.lastMs nowMs.toNat }
      { bucket.refill nowMs with
        tokensMicro := (bucket.refill nowMs).tokensMicro - cost } := by
  have hrefill := h.refill hnow
  have hlast := UInt64.le_iff_toNat_le.mp (bucket.le_lastMs_refill nowMs)
  have hsince := hrefill.since
  have hlatest := hrefill.latest
  have hsame : (bucket.refill nowMs).lastMs.toNat = max idle.lastMs nowMs.toNat := by omega
  have hfits : (bucket.refill nowMs).tokensMicro - cost <= (bucket.refill nowMs).capacityMicro :=
    Nat.le_trans (Nat.sub_le _ _) hrefill.fits.tokens
  refine ⟨⟨hfits, hrefill.fits.capacity⟩, hrefill.capacity, hrefill.rate, Nat.le_of_eq hsame.symm,
    ?_, ?_⟩
  · show (bucket.refill nowMs).lastMs.toNat <= max (max idle.lastMs nowMs.toNat) nowMs.toNat
    omega
  · show (bucket.refill nowMs).tokensMicro - cost = min idle.capacityMicro
      (idle.level nowMs.toNat - cost +
        ((bucket.refill nowMs).lastMs.toNat - max idle.lastMs nowMs.toNat) * idle.millibytesPerSec)
    rw [hsame, Nat.sub_self, Nat.zero_mul, Nat.add_zero, ← h.tokens_refill hnow, hrefill.capacity]
    exact (Nat.min_eq_right hfits).symm

end

theorem call (h : Follows clockMs idle bucket) (op : BucketOp) (hnow : clockMs <= op.nowMs.toNat) :
    (bucket.call op).fst = (idle.call op).fst ∧
      Follows op.nowMs.toNat (idle.call op).snd (bucket.call op).snd := by
  cases op with
  | refill nowMs => exact ⟨rfl, h.refill hnow⟩
  | availableBytes nowMs =>
      replace hnow : clockMs <= nowMs.toNat := hnow
      have hlatest := h.latest
      have hanswer : (bucket.availableBytes nowMs).toNat = idle.level nowMs.toNat / micro := by
        rw [h.fits.toNat_availableBytes, h.peekMicro hnow]
      refine ⟨congrArg BucketAnswer.available hanswer, ?_⟩
      show Follows nowMs.toNat idle bucket
      exact ⟨h.fits, h.capacity, h.rate, h.since, by omega, h.tokens⟩
  | trySpend bytes nowMs =>
      replace hnow : clockMs <= nowMs.toNat := hnow
      obtain ⟨cost, hcost⟩ : exists cost, bytes.toNat * micro = cost := ⟨_, rfl⟩
      unfold ExactBucket.call
      dsimp only
      rw [hcost, ← h.tokens_refill hnow]
      by_cases hpaid : cost <= (bucket.refill nowMs).tokensMicro
      · have hspend := h.spend hnow cost
        rw [← h.tokens_refill hnow] at hspend
        rw [TokenBucket.call_trySpend, TokenBucket.trySpend_of_le hcost hpaid, if_pos hpaid]
        exact ⟨rfl, hspend⟩
      · rw [TokenBucket.call_trySpend, TokenBucket.trySpend_of_lt hcost hpaid, if_neg hpaid]
        exact ⟨rfl, h.refill hnow⟩

theorem answers (h : Follows clockMs idle bucket) {ops : List BucketOp}
    (hclock : (ops.map BucketOp.nowMs).Pairwise (· <= ·))
    (hlater : forall op, op ∈ ops -> clockMs <= op.nowMs.toNat) :
    bucket.answers ops = idle.answers ops := by
  induction ops generalizing clockMs idle bucket with
  | nil => rfl
  | cons op ops ih =>
      obtain ⟨hanswer, hnext⟩ := h.call op (hlater op mem_cons_self)
      obtain ⟨hfirst, hrest⟩ := pairwise_cons.mp hclock
      unfold TokenBucket.answers ExactBucket.answers
      rw [hanswer, ih hnext hrest]
      intro op' hop'
      exact UInt64.le_iff_toNat_le.mp (hfirst op'.nowMs (mem_map_of_mem hop'))

end Follows

namespace TokenBucket

variable (capacityBytes : UInt64) (rate : ByteRate) (startMs : UInt64)

theorem answers_eq_exact {ops : List BucketOp}
    (hclock : (ops.map BucketOp.nowMs).Pairwise (· <= ·)) :
    (withRate capacityBytes rate startMs).answers ops =
      (ExactBucket.start capacityBytes rate startMs).answers ops :=
  (Follows.start capacityBytes rate startMs).answers hclock fun _ _ => Nat.zero_le _

theorem answers_kept {ops : List (BucketOp × Bool)}
    (hclock : (ops.map (fun op => op.fst.nowMs)).Pairwise (· <= ·))
    (hquiet : forall x,
      x ∈ ops.zip ((withRate capacityBytes rate startMs).answers (ops.map Prod.fst)) ->
        x.fst.snd = false -> x.snd ≠ .spent true) :
    ((ops.zip ((withRate capacityBytes rate startMs).answers (ops.map Prod.fst))).filter
        (fun x => x.fst.snd)).map Prod.snd =
      (withRate capacityBytes rate startMs).answers ((ops.filter Prod.snd).map Prod.fst) := by
  have hall : ((ops.map Prod.fst).map BucketOp.nowMs).Pairwise (· <= ·) := by
    rw [map_map]
    exact hclock
  have hkept : (((ops.filter Prod.snd).map Prod.fst).map BucketOp.nowMs).Pairwise (· <= ·) := by
    rw [map_map]
    exact hclock.sublist (filter_sublist.map _)
  rw [answers_eq_exact capacityBytes rate startMs hall] at hquiet ⊢
  rw [answers_eq_exact capacityBytes rate startMs hkept]
  exact ExactBucket.answers_kept hquiet

theorem fromBytesPerSec_small (bytes : UInt64) :
    (ByteRate.fromBytesPerSec bytes).millibytesPerSec <= u128Max := by
  have hbytes := bytes.toNat_lt
  have hbound : 2 ^ 64 * 1000 <= u128Max := by decide
  show bytes.toNat * 1000 <= u128Max
  exact Nat.le_trans (Nat.mul_le_mul_right 1000 (Nat.le_of_lt hbytes)) hbound

/-- What a bucket that starts full at some time does in any run. -/
structure Steady (capacityBytes : UInt64) (rate : ByteRate) (startMs : UInt64) : Prop where
  answers : forall ops : List BucketOp, (ops.map BucketOp.nowMs).Pairwise (· <= ·) ->
    (withRate capacityBytes rate startMs).answers ops =
      (ExactBucket.start capacityBytes rate startMs).answers ops
  kept : forall ops : List (BucketOp × Bool),
    (ops.map (fun op => op.fst.nowMs)).Pairwise (· <= ·) ->
    (forall x, x ∈ ops.zip ((withRate capacityBytes rate startMs).answers (ops.map Prod.fst)) ->
      x.fst.snd = false -> x.snd ≠ .spent true) ->
    ((ops.zip ((withRate capacityBytes rate startMs).answers (ops.map Prod.fst))).filter
        (fun x => x.fst.snd)).map Prod.snd =
      (withRate capacityBytes rate startMs).answers ((ops.filter Prod.snd).map Prod.fst)
  backwards : forall (ops : List BucketOp) (bucket : TokenBucket) (nowMs : UInt64),
    bucket = (withRate capacityBytes rate startMs).after ops -> nowMs <= bucket.lastMs ->
      bucket.peekMicro nowMs = bucket.tokensMicro ∧ bucket.refill nowMs = bucket ∧
        forall bytes, (bucket.trySpend bytes nowMs).snd.lastMs = bucket.lastMs ∧
          (bucket.trySpend bytes nowMs).snd.tokensMicro <= bucket.tokensMicro
  created : withRateChecked capacityBytes rate startMs = some (withRate capacityBytes rate startMs)
  bytesPerSec : forall bytes, (ByteRate.fromBytesPerSec bytes).millibytesPerSec <= u128Max
  checked : forall ops : List BucketOp, (withRate capacityBytes rate startMs).answersChecked ops =
    some ((withRate capacityBytes rate startMs).answers ops)

/-- While the clock does not go back, the bucket answers as the exact one, whoever looks at it in
between; when the clock goes back nothing is earned; and nothing overflows, ever. -/
theorem polling_invisible : Steady capacityBytes rate startMs where
  answers := fun _ => answers_eq_exact capacityBytes rate startMs
  kept := fun _ => answers_kept capacityBytes rate startMs
  backwards := by
    rintro ops _ nowMs rfl hback
    exact ((fits_withRate capacityBytes rate startMs).after ops).backwards hback
  created := withRateChecked_eq capacityBytes rate startMs
  bytesPerSec := fromBytesPerSec_small
  checked := (fits_withRate capacityBytes rate startMs).answersChecked

end TokenBucket

end Rabbithole.Reticulum
