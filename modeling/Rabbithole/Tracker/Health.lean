import Mathlib.Algebra.Order.BigOperators.Group.List
import Rabbithole.Directory.Descriptor

/-!
# Health logs

What a tracker has seen of one address and port: a ring of observation buckets, when it was
first and last heard of, and how often it has expired.  An instant is a number of
nanoseconds.
-/

namespace Rabbithole.Tracker

open Directory

def seconds (n : Nat) : Nat :=
  n * 1000000000

/-- The whole seconds of a duration. -/
def asSecs (duration : Nat) : Nat :=
  duration / 1000000000

/-- Seconds. -/
def bucketLen : Nat := 15 * 60

def numBuckets : Nat := 96

def observationWindow : Nat := seconds (24 * 60 * 60)

/-- Seconds. -/
def heartbeatInterval : Nat := 5 * 60

def expectedPerBucket : Nat := 3

def u32Max : Nat := 2 ^ 32 - 1

def u64Max : Nat := 2 ^ 64 - 1

structure Bucket where
  /-- Counted from the log's first observation, not from the ring's first place. -/
  index : Nat
  seen : Nat
deriving DecidableEq

def emptyBucket : Bucket where
  index := u64Max
  seen := 0

structure HealthLog where
  epoch : Nat
  firstSeen : Nat
  lastSeen : Nat
  live : Bool
  flapCount : Nat
  buckets : Vector Bucket numBuckets
deriving DecidableEq

open List

structure HealthReport where
  addr : SocketAddr
  live : Bool
  uptimePermille : Nat
  firstSeenSecs : Nat
  lastSeenSecs : Nat
  flapCount : Nat
  sparkline : List Char
deriving DecidableEq

def bucketIndex (epoch now : Nat) : Nat :=
  asSecs (now - epoch) / bucketLen

/-- What was due in a bucket: the current one is judged by the time that has passed. -/
def expectedIn (bucket nowBucket elapsed : Nat) : Nat :=
  if bucket < nowBucket then expectedPerBucket
  else min (1 + (asSecs elapsed - nowBucket * bucketLen) / heartbeatInterval) expectedPerBucket

namespace HealthLog

theorem ring_place (bucket : Nat) : bucket % numBuckets < numBuckets :=
  Nat.mod_lt bucket (by decide)

def new (now : Nat) : HealthLog where
  epoch := now
  firstSeen := now
  lastSeen := now
  live := false
  flapCount := 0
  buckets := Vector.replicate numBuckets emptyBucket

def slot (log : HealthLog) (bucket : Nat) : Bucket :=
  have hplace := ring_place bucket
  log.buckets[bucket % numBuckets]

def seenIn (log : HealthLog) (bucket : Nat) : Nat :=
  if (log.slot bucket).index = bucket then (log.slot bucket).seen else 0

/-- A place that served an older bucket is taken over by the current one. -/
def recordHeartbeat (log : HealthLog) (now : Nat) : HealthLog :=
  let bucket := bucketIndex log.epoch now
  let seen := if (log.slot bucket).index = bucket then (log.slot bucket).seen else 0
  { log with
    lastSeen := max log.lastSeen now
    live := true
    buckets := log.buckets.set (bucket % numBuckets) ⟨bucket, min (seen + 1) u32Max⟩
      (ring_place bucket) }

/-- Going from live to expired is counted, being expired still is not. -/
def markExpired (log : HealthLog) (_now : Nat) : HealthLog :=
  if log.live then { log with live := false, flapCount := min (log.flapCount + 1) u32Max }
  else log

/-- The first bucket that counts, the current one, and the time since the epoch. -/
def window (log : HealthLog) (now : Nat) : Nat × Nat × Nat :=
  let elapsed := now - log.epoch
  let nowBucket := asSecs elapsed / bucketLen
  (nowBucket - (numBuckets - 1), nowBucket, elapsed)

def judged (log : HealthLog) (now : Nat) : List Nat :=
  let (start, nowBucket, _) := log.window now
  List.range' start (nowBucket + 1 - start)

def uptime24hPermille (log : HealthLog) (now : Nat) : Nat :=
  let (_, nowBucket, elapsed) := log.window now
  let credit := ((log.judged now).map (fun bucket =>
    let expected := expectedIn bucket nowBucket elapsed
    min (log.seenIn bucket) expected * 1000 / expected)).sum
  credit / max (log.judged now).length 1

def sparkline (log : HealthLog) (now : Nat) : List Char :=
  let (_, nowBucket, elapsed) := log.window now
  (log.judged now).map (fun bucket =>
    if log.seenIn bucket = 0 then '.'
    else if expectedIn bucket nowBucket elapsed <= log.seenIn bucket then '#'
    else '+')

def report (log : HealthLog) (addr : SocketAddr) (now : Nat) : HealthReport where
  addr := addr
  live := log.live
  uptimePermille := log.uptime24hPermille now
  firstSeenSecs := asSecs (now - log.firstSeen)
  lastSeenSecs := asSecs (now - log.lastSeen)
  flapCount := log.flapCount
  sparkline := log.sparkline now

/-!
## What is counted

The ring covers a day, so that the numbers of a report stay within their bounds.
-/

theorem uptime24hPermille_le (log : HealthLog) (now : Nat) : log.uptime24hPermille now <= 1000 := by
  unfold uptime24hPermille
  rcases log.window now with ⟨start, nowBucket, elapsed⟩
  have hterm : forall credit, credit ∈ (log.judged now).map (fun bucket =>
      min (log.seenIn bucket) (expectedIn bucket nowBucket elapsed) * 1000
        / expectedIn bucket nowBucket elapsed) -> credit <= 1000 := by
    intro credit hcredit
    rcases mem_map.mp hcredit with ⟨bucket, -, rfl⟩
    apply Nat.div_le_of_le_mul
    exact Nat.mul_le_mul_right 1000 (Nat.min_le_right _ _)
  have hsum := sum_le_card_nsmul _ 1000 hterm
  rw [length_map, Nat.nsmul_eq_mul] at hsum
  show _ / max (log.judged now).length 1 <= 1000
  apply Nat.div_le_of_le_mul
  exact Nat.le_trans hsum (Nat.mul_le_mul_right 1000 (Nat.le_max_left _ _))

/-!
## The ring and the history

A place of the ring says which bucket it was last written for, so that the counts of the last
day are those of the whole history, after any silence and any number of laps.
-/

def observed (epoch : Nat) (beats : List Nat) : HealthLog :=
  beats.foldl recordHeartbeat (new epoch)

def heardIn (epoch : Nat) (beats : List Nat) (bucket : Nat) : Nat :=
  beats.countP (fun beat => bucketIndex epoch beat = bucket)

theorem observed_snoc (epoch : Nat) (beats : List Nat) (beat : Nat) :
    observed epoch (beats ++ [beat]) = (observed epoch beats).recordHeartbeat beat := by
  unfold observed
  rw [foldl_append]
  rfl

theorem epoch_observed (epoch : Nat) (beats : List Nat) : (observed epoch beats).epoch = epoch := by
  induction beats using List.reverseRecOn with
  | nil => rfl
  | append_singleton beats beat ih =>
      rw [observed_snoc]
      exact ih

theorem bucketIndex_mono {epoch beat now : Nat} (h : beat <= now) :
    bucketIndex epoch beat <= bucketIndex epoch now :=
  Nat.div_le_div_right (Nat.div_le_div_right (Nat.sub_le_sub_right h epoch))

theorem seenIn_recordHeartbeat (log : HealthLog) (now bucket : Nat) :
    (log.recordHeartbeat now).seenIn bucket =
      if bucket = bucketIndex log.epoch now then min (log.seenIn bucket + 1) u32Max
      else if bucket % numBuckets = bucketIndex log.epoch now % numBuckets then 0
      else log.seenIn bucket := by
  unfold recordHeartbeat seenIn slot
  by_cases hbucket : bucket = bucketIndex log.epoch now
  · subst hbucket
    simp
  · by_cases hplace : bucket % numBuckets = bucketIndex log.epoch now % numBuckets
    · simp [hbucket, hplace, Ne.symm hbucket]
    · simp [hbucket, hplace, Vector.getElem_set_ne, Ne.symm hplace]

theorem seenIn_observed {epoch : Nat} {beats : List Nat} (hsorted : beats.Pairwise (· <= ·))
    {bucket : Nat} (hlap : forall beat, beat ∈ beats ->
      bucketIndex epoch beat < bucket + numBuckets) :
    (observed epoch beats).seenIn bucket = min (heardIn epoch beats bucket) u32Max := by
  induction beats using List.reverseRecOn generalizing bucket with
  | nil =>
      unfold observed seenIn slot new
      simp [heardIn, emptyBucket]
  | append_singleton beats beat ih =>
      rcases pairwise_append.mp hsorted with ⟨hfront, -, hlast⟩
      have hmono : forall b, b ∈ beats -> bucketIndex epoch b <= bucketIndex epoch beat :=
        fun b hb => bucketIndex_mono (hlast b hb beat (mem_singleton_self beat))
      have hcount : heardIn epoch (beats ++ [beat]) bucket =
          heardIn epoch beats bucket + (if bucketIndex epoch beat = bucket then 1 else 0) := by
        unfold heardIn
        rw [countP_append, countP_singleton]
        simp only [decide_eq_true_eq]
      have hold := @ih hfront bucket (fun b hb =>
        hlap b (mem_append_left _ hb))
      have hnew := hlap beat (mem_append_right _ (mem_singleton_self beat))
      rw [observed_snoc, seenIn_recordHeartbeat, epoch_observed, hcount, hold]
      by_cases hbucket : bucket = bucketIndex epoch beat
      · rw [if_pos hbucket, if_pos hbucket.symm]
        omega
      · rw [if_neg hbucket, if_neg (Ne.symm hbucket), Nat.add_zero]
        split
        · -- the place is the one of a bucket that is still to come
          rename_i hplace
          have hlater : bucketIndex epoch beat < bucket := by
            unfold numBuckets at hplace hnew
            omega
          have hzero : heardIn epoch beats bucket = 0 := by
            refine countP_eq_zero.mpr ?_
            intro b hb
            have hle := hmono b hb
            rw [decide_eq_true_eq]
            omega
          rw [hzero]
          rfl
        · rfl

def lastBuckets (epoch now : Nat) : List Nat :=
  (List.range (bucketIndex epoch now + 1)).drop (bucketIndex epoch now + 1 - numBuckets)

def dueIn (epoch now bucket : Nat) : Nat :=
  expectedIn bucket (bucketIndex epoch now) (now - epoch)

/-- The average credit of a history, the credit of each bucket rounded down. -/
def historyPermille (epoch : Nat) (beats : List Nat) (now : Nat) : Nat :=
  ((lastBuckets epoch now).map (fun bucket =>
    min (heardIn epoch beats bucket) (dueIn epoch now bucket) * 1000
      / dueIn epoch now bucket)).sum / (lastBuckets epoch now).length

def historySparkline (epoch : Nat) (beats : List Nat) (now : Nat) : List Char :=
  (lastBuckets epoch now).map (fun bucket =>
    if heardIn epoch beats bucket = 0 then '.'
    else if dueIn epoch now bucket <= heardIn epoch beats bucket then '#'
    else '+')

theorem judged_observed (epoch : Nat) (beats : List Nat) (now : Nat) :
    (observed epoch beats).judged now = lastBuckets epoch now := by
  unfold judged window lastBuckets
  rw [range_eq_range', drop_range', epoch_observed]
  simp only [bucketIndex, numBuckets]
  congr 1
  omega

theorem expectedIn_le (bucket nowBucket elapsed : Nat) :
    expectedIn bucket nowBucket elapsed <= 3 := by
  unfold expectedIn
  split
  · exact Nat.le_refl 3
  · exact Nat.min_le_right _ _

/-- What a log reports of the last day is what the whole history gives. -/
theorem report_equals_history {epoch now : Nat} {beats : List Nat}
    (hsorted : beats.Pairwise (· <= ·)) (hlater : forall beat, beat ∈ beats -> beat <= now) :
    (observed epoch beats).uptime24hPermille now = historyPermille epoch beats now ∧
      (observed epoch beats).sparkline now = historySparkline epoch beats now ∧
      (observed epoch beats).uptime24hPermille now <= 1000 := by
  have hseen : forall bucket, bucket ∈ lastBuckets epoch now ->
      (observed epoch beats).seenIn bucket = min (heardIn epoch beats bucket) u32Max := by
    intro bucket hbucket
    refine seenIn_observed hsorted ?_
    intro beat hbeat
    have hle := @bucketIndex_mono epoch _ _ (hlater beat hbeat)
    unfold lastBuckets at hbucket
    rw [range_eq_range', drop_range', mem_range'_1] at hbucket
    omega
  have hlength : 0 < (lastBuckets epoch now).length := by
    unfold lastBuckets numBuckets
    rw [length_drop, length_range]
    omega
  have hwindow : (observed epoch beats).window now =
      (bucketIndex epoch now - (numBuckets - 1), bucketIndex epoch now, now - epoch) := by
    unfold window bucketIndex
    rw [epoch_observed]
  refine ⟨?_, ?_, uptime24hPermille_le _ now⟩
  · unfold uptime24hPermille historyPermille
    rw [hwindow, judged_observed, Nat.max_eq_left hlength]
    apply congrArg (fun credits => List.sum credits / _)
    apply map_congr_left
    intro bucket hbucket
    have hdue := expectedIn_le bucket (bucketIndex epoch now) (now - epoch)
    have hmin : min (min (heardIn epoch beats bucket) u32Max) (dueIn epoch now bucket) =
        min (heardIn epoch beats bucket) (dueIn epoch now bucket) := by
      unfold dueIn u32Max
      omega
    rw [hseen bucket hbucket, ← hmin]
    rfl
  · unfold sparkline historySparkline
    rw [hwindow, judged_observed]
    apply map_congr_left
    intro bucket hbucket
    have hdue := expectedIn_le bucket (bucketIndex epoch now) (now - epoch)
    have hnone : min (heardIn epoch beats bucket) u32Max = 0 <->
        heardIn epoch beats bucket = 0 := by
      unfold u32Max
      omega
    have hfull : dueIn epoch now bucket <= min (heardIn epoch beats bucket) u32Max <->
        dueIn epoch now bucket <= heardIn epoch beats bucket := by
      unfold dueIn u32Max
      omega
    simp only [hseen bucket hbucket, hnone]
    apply if_congr Iff.rfl rfl
    exact if_congr hfull rfl rfl

/-- The average credit without rounding any bucket's, over six, which what is due divides. -/
def exactPermille (epoch : Nat) (beats : List Nat) (now : Nat) : Nat :=
  1000 * ((lastBuckets epoch now).map (fun bucket =>
    min (heardIn epoch beats bucket) (dueIn epoch now bucket) * (6 / dueIn epoch now bucket))).sum
      / (6 * (lastBuckets epoch now).length)

theorem thirds_round_down :
    (observed 0 [0, seconds 900, seconds 1200]).uptime24hPermille (seconds 1500) = 499 ∧
      exactPermille 0 [0, seconds 900, seconds 1200] (seconds 1500) = 500 := by
  decide

theorem report_equals_history_thirds :
    (observed 0 [0, seconds 900, seconds 1200]).uptime24hPermille (seconds 1500) =
        historyPermille 0 [0, seconds 900, seconds 1200] (seconds 1500) ∧
      (observed 0 [0, seconds 900, seconds 1200]).sparkline (seconds 1500) =
        historySparkline 0 [0, seconds 900, seconds 1200] (seconds 1500) ∧
      (observed 0 [0, seconds 900, seconds 1200]).uptime24hPermille (seconds 1500) <= 1000 :=
  report_equals_history (by decide) (by decide)

end HealthLog

end Rabbithole.Tracker
