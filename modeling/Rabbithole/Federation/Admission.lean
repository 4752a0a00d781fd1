import Mathlib.Tactic.Ring
import Rabbithole.Federation.Limiter

/-!
# What the ingest limiter admits

What a peer could spend at a time is its bucket refilled, or the capacity when it has
none.  Dropping full buckets does not change it; a call takes its cost from it or
nothing; between two calls it grows with the rate.
-/

namespace Rabbithole.Federation

open Foundation List Dict RateLimiter

/-!
## A bucket
-/

/-- Within its capacity, and not ahead of the clock. -/
structure Bucket.Fits (b : Bucket) (capacity : Rat) (mark : Int) : Prop where
  nonneg : 0 <= b.tokens
  full : b.tokens <= capacity
  past : b.lastMs <= mark

namespace Bucket

variable {b : Bucket} {capacity rate : Rat} {mark now later : Int}

theorem Fits.mono (h : b.Fits capacity mark) (hle : mark <= now) : b.Fits capacity now :=
  ⟨h.nonneg, h.full, le_trans h.past hle⟩

theorem Fits.fresh (hcapacity : 0 <= capacity) (now : Int) : Fits ⟨capacity, now⟩ capacity now :=
  ⟨hcapacity, le_refl _, le_refl _⟩

theorem Fits.refill (h : b.Fits capacity mark) (hcapacity : 0 <= capacity) (hrate : 0 <= rate)
    (hle : mark <= now) : (b.refill capacity rate now).Fits capacity now where
  nonneg := by
    have helapsed : (0 : Rat) <= ((max (saturatingSub now b.lastMs) 0 : Int) : Rat) := by
      exact_mod_cast le_max_right _ _
    have hgain := mul_nonneg helapsed hrate
    have htokens := h.nonneg
    apply le_min _ hcapacity
    linarith
  full := min_le_right _ _
  past := max_le (le_trans h.past hle) (le_refl _)

theorem refill_lastMs (h : b.Fits capacity mark) (hle : mark <= now) :
    (b.refill capacity rate now).lastMs = now :=
  max_eq_right (le_trans h.past hle)

theorem saturatingSub_self (now : Int) : saturatingSub now now = 0 := by
  unfold saturatingSub i64Max
  omega

theorem refill_same (hlast : b.lastMs = now) (hfull : b.tokens <= capacity) :
    b.refill capacity rate now = b := by
  unfold refill
  rw [hlast, saturatingSub_self]
  simp only [max_self, Int.cast_zero, zero_mul, add_zero, min_eq_left hfull]
  rw [← hlast]

theorem refill_refill (h : b.Fits capacity mark) (hle : mark <= now) :
    (b.refill capacity rate now).refill capacity rate now = b.refill capacity rate now :=
  refill_same (refill_lastMs h hle) (min_le_right _ _)

theorem refill_gain (h : b.Fits capacity mark) (hrate : 0 <= rate) (hle : mark <= now)
    (hlater : now <= later) :
    (b.refill capacity rate later).tokens <=
      (b.refill capacity rate now).tokens + rate * ((later - now : Int) : Rat) := by
  have hpast := h.past
  have helapsed : max (saturatingSub later b.lastMs) 0 <=
      max (saturatingSub now b.lastMs) 0 + (later - now) := by
    unfold saturatingSub i64Max
    omega
  have hcast : ((max (saturatingSub later b.lastMs) 0 : Int) : Rat) <=
      ((max (saturatingSub now b.lastMs) 0 : Int) : Rat) + ((later - now : Int) : Rat) := by
    exact_mod_cast helapsed
  have hgain := mul_le_mul_of_nonneg_right hcast hrate
  have hpassed : (0 : Rat) <= ((later - now : Int) : Rat) := by
    exact_mod_cast Int.sub_nonneg_of_le hlater
  have hearned := mul_nonneg hrate hpassed
  unfold refill
  simp only []
  rw [← min_add_add_right]
  apply le_min
  · apply le_trans (min_le_left _ _)
    linarith
  · apply le_trans (min_le_right _ _)
    linarith

theorem refill_later (h : b.Fits capacity mark) (hrate : 0 <= rate) (hle : mark <= now)
    (hlater : now <= later) (hstart : 0 <= b.lastMs) (hend : later <= i64Max) :
    (b.refill capacity rate now).refill capacity rate later = b.refill capacity rate later := by
  have hpast := h.past
  have hfirst : max (saturatingSub now b.lastMs) 0 = now - b.lastMs := by
    unfold saturatingSub i64Max
    unfold i64Max at hend
    omega
  have hsecond : max (saturatingSub later now) 0 = later - now := by
    unfold saturatingSub i64Max
    unfold i64Max at hend
    omega
  have hwhole : max (saturatingSub later b.lastMs) 0 = later - b.lastMs := by
    unfold saturatingSub i64Max
    unfold i64Max at hend
    omega
  have hlast : max b.lastMs now = now := max_eq_right (le_trans hpast hle)
  have hpassed : (0 : Rat) <= ((later - now : Int) : Rat) := by
    exact_mod_cast Int.sub_nonneg_of_le hlater
  have hearned := mul_nonneg hpassed hrate
  unfold refill
  simp only []
  rw [hlast, hfirst, hsecond, hwhole, max_eq_right hlater,
    max_eq_right (le_trans (le_trans hpast hle) hlater)]
  congr 1
  rw [← min_add_add_right, min_assoc]
  have hsum : b.tokens + ((now - b.lastMs : Int) : Rat) * rate +
      ((later - now : Int) : Rat) * rate = b.tokens + ((later - b.lastMs : Int) : Rat) * rate := by
    push_cast
    ring
  have hcap : min (capacity + ((later - now : Int) : Rat) * rate) capacity = capacity :=
    min_eq_right (le_add_of_nonneg_right hearned)
  rw [hsum, hcap]

theorem refill_full (hrate : 0 <= rate) (hfull : capacity <= b.tokens) :
    (b.refill capacity rate now).tokens = capacity := by
  have helapsed : (0 : Rat) <= ((max (saturatingSub now b.lastMs) 0 : Int) : Rat) := by
    exact_mod_cast le_max_right _ _
  have hgain := mul_nonneg helapsed hrate
  apply min_eq_right
  linarith

end Bucket

/-!
## The table
-/

namespace RateLimiter

def level (s : RateLimiter) (peer : PublicKey) (nowMs : Int) : Rat :=
  (s.current peer nowMs).tokens

/-- Every bucket fits, and the table does. -/
structure Sound (s : RateLimiter) (mark : Int) : Prop where
  capacity : 0 <= s.capacity
  rate : 0 <= s.refillPerMs
  buckets : forall peer b, s.buckets.get? peer = some b -> b.Fits s.capacity mark
  room : s.buckets.size <= s.maxPeers

variable {s : RateLimiter} {mark now later : Int} {peer k : PublicKey}

section

variable (h : s.Sound mark) (hle : mark <= now)
include h hle

theorem Sound.mono : s.Sound now :=
  ⟨h.capacity, h.rate, fun peer b hb => (h.buckets peer b hb).mono hle, h.room⟩

theorem Sound.getD : ((s.buckets.get? peer).getD ⟨s.capacity, now⟩).Fits s.capacity now := by
  cases hfound : s.buckets.get? peer with
  | none => exact Bucket.Fits.fresh h.capacity now
  | some b => exact (h.buckets peer b hfound).mono hle

theorem Sound.current : (s.current peer now).Fits s.capacity now :=
  (h.getD hle).refill h.capacity h.rate (le_refl now)

theorem Sound.lastMs_current : (s.current peer now).lastMs = now :=
  Bucket.refill_lastMs (h.getD hle) (le_refl now)

theorem Sound.level_le : s.level peer now <= s.capacity :=
  (h.current hle).full

theorem Sound.level_nonneg : 0 <= s.level peer now :=
  (h.current hle).nonneg

end

theorem level_none (hnone : s.buckets.get? peer = none) (now : Int) :
    s.level peer now = s.capacity := by
  unfold level current
  rw [hnone, Option.getD_none, Bucket.refill_same rfl (le_refl _)]

variable {kind : Call -> Bool} {stop start : Int} {b : Bucket}

theorem level_some (hb : s.buckets.get? peer = some b) (now : Int) :
    s.level peer now = (b.refill s.capacity s.refillPerMs now).tokens := by
  unfold level current
  rw [hb, Option.getD_some]

theorem Sound.level_gain (h : s.Sound mark) (hle : mark <= now) (hlater : now <= later) :
    s.level peer later <= s.level peer now + s.refillPerMs * ((later - now : Int) : Rat) := by
  cases hfound : s.buckets.get? peer with
  | none =>
      have hpassed : (0 : Rat) <= ((later - now : Int) : Rat) := by
        exact_mod_cast Int.sub_nonneg_of_le hlater
      have hearned := mul_nonneg h.rate hpassed
      rw [level_none hfound, level_none hfound]
      linarith
  | some b =>
      rw [level_some hfound, level_some hfound]
      exact Bucket.refill_gain (h.buckets peer b hfound) h.rate hle hlater

/-!
## One call
-/

theorem get?_evictFull (s : RateLimiter) (now : Int) (peer : PublicKey) :
    (s.evictFull now).buckets.get? peer = (s.buckets.get? peer).bind (fun b =>
        if (b.refill s.capacity s.refillPerMs now).tokens < s.capacity then
          some (b.refill s.capacity s.refillPerMs now)
        else none) := by
  unfold evictFull
  simp only []
  rw [get?_filterMap]

theorem Sound.evictFull (h : s.Sound mark) (hle : mark <= now) : (s.evictFull now).Sound now where
  capacity := h.capacity
  rate := h.rate
  buckets := by
    intro peer b hb
    rw [get?_evictFull] at hb
    rcases Option.bind_eq_some_iff.mp hb with ⟨old, hold, hnew⟩
    split at hnew
    · cases hnew
      exact (h.buckets peer old hold).refill h.capacity h.rate hle
    · cases hnew
  room := by
    exact le_trans (size_filterMap_le _ s.buckets) h.room

theorem Sound.level_evictFull (h : s.Sound mark) (hle : mark <= now) (hlater : now <= later)
    (hexact : now = later ∨
      (later <= i64Max ∧ forall peer b, s.buckets.get? peer = some b -> 0 <= b.lastMs)) :
    (s.evictFull now).level k later = s.level k later := by
  cases hfound : s.buckets.get? k with
  | none =>
      have hnone : (s.evictFull now).buckets.get? k = none := by
        rw [get?_evictFull, hfound]
        rfl
      rw [level_none hnone, level_none hfound]
      rfl
  | some b =>
      have htwice : (b.refill s.capacity s.refillPerMs now).refill s.capacity s.refillPerMs later =
          b.refill s.capacity s.refillPerMs later := by
        rcases hexact with rfl | ⟨hend, hstart⟩
        · exact Bucket.refill_refill (h.buckets k b hfound) hle
        · exact Bucket.refill_later (h.buckets k b hfound) h.rate hle hlater (hstart k b hfound)
            hend
      have hget := get?_evictFull s now k
      rw [hfound, Option.bind_some] at hget
      split at hget
      · rw [level_some hget, level_some hfound, ← htwice]
        rfl
      · rename_i hfull
        rw [level_none hget, level_some hfound, ← htwice,
          Bucket.refill_full h.rate (le_of_not_gt hfull)]
        rfl

theorem level_put_of_ne (hne : k ≠ peer) : (s.put peer b).level k later = s.level k later := by
  have hget : (s.put peer b).buckets.get? k = s.buckets.get? k := by
    unfold put
    rw [get?_insert, if_neg hne]
  unfold level current
  rw [hget]
  rfl

theorem level_put_self :
    (s.put peer b).level peer later = (b.refill s.capacity s.refillPerMs later).tokens := by
  have hget : (s.put peer b).buckets.get? peer = some b := by
    unfold put
    rw [get?_insert, if_pos rfl]
  rw [level_some hget]
  rfl

def paid (answer : Bool) (cost : Nat) : Rat :=
  if answer then cost else 0

theorem Sound.spend_eq (h : s.Sound mark) (hle : mark <= now) (cost : Nat) :
    s.spend peer cost now =
      (decide ((cost : Rat) <= s.level peer now), s.put peer
          ⟨s.level peer now - paid (decide ((cost : Rat) <= s.level peer now)) cost, now⟩) := by
  have hlast : (s.current peer now).lastMs = now := h.lastMs_current hle
  have hbucket : (⟨(s.current peer now).tokens, now⟩ : Bucket) = s.current peer now := by
    generalize s.current peer now = b at hlast
    subst hlast
    rfl
  unfold spend paid level
  simp only []
  split
  · rename_i hcost
    simp only [hcost, decide_true, if_true, hlast]
  · rename_i hcost
    simp only [hcost, decide_false, Bool.false_eq_true, if_false, sub_zero, hbucket]

theorem Sound.put {b : Bucket} (h : s.Sound mark) (hb : b.Fits s.capacity mark)
    (hroom : s.buckets.contains peer = true ∨ s.buckets.size < s.maxPeers) :
    (s.put peer b).Sound mark where
  capacity := h.capacity
  rate := h.rate
  buckets := by
    intro k found hfound
    unfold RateLimiter.put at hfound
    rw [get?_insert] at hfound
    split at hfound
    · cases hfound
      exact hb
    · exact h.buckets k found hfound
  room := by
    have hsize := size_insert s.buckets peer b
    show (s.buckets.insert peer b).size <= s.maxPeers
    rcases hroom with hknown | hless
    · rw [if_pos hknown] at hsize
      have hroom := h.room
      omega
    · split at hsize
      · omega
      · omega

theorem Sound.fits_paid (h : s.Sound mark) (hle : mark <= now) (peer : PublicKey) (cost : Nat) :
    Bucket.Fits ⟨s.level peer now - paid (decide ((cost : Rat) <= s.level peer now)) cost, now⟩
      s.capacity now where
  nonneg := by
    unfold paid
    split
    · rename_i hcost
      exact sub_nonneg_of_le (of_decide_eq_true hcost)
    · rw [sub_zero]
      exact h.level_nonneg hle
  full := by
    have hpaid : 0 <= paid (decide ((cost : Rat) <= s.level peer now)) cost := by
      unfold paid
      split
      · exact Nat.cast_nonneg cost
      · exact le_refl 0
    exact le_trans (sub_le_self _ hpaid) (h.level_le hle)
  past := le_refl now

theorem Sound.spend (h : s.Sound mark) (hle : mark <= now) (cost : Nat)
    (hroom : s.buckets.contains peer = true ∨ s.buckets.size < s.maxPeers) :
    (s.spend peer cost now).snd.Sound now := by
  rw [h.spend_eq hle]
  exact (h.mono hle).put (h.fits_paid hle peer cost) hroom

/-- What a call does: nothing, drop full buckets and refuse, or spend. -/
inductive Outcome (s : RateLimiter) (c : Call) : Bool × RateLimiter -> Prop where
  | free (hcost : c.cost = 0) : Outcome s c (true, s)
  | dear (hcost : c.cost ≠ 0) (hdear : s.capacity < c.cost) : Outcome s c (false, s)
  | full (hfull : s.lacksRoom c = true) : Outcome s c (false, s.evictFull c.nowMs)
  | spent (hcost : c.cost ≠ 0) (hcheap : (c.cost : Rat) <= s.capacity) (s₁ : RateLimiter)
      (hfrom : s₁ = s ∨ (s₁ = s.evictFull c.nowMs ∧ s.maxPeers <= s.buckets.size))
      (hroom : s₁.buckets.contains c.peer = true ∨ s₁.buckets.size < s₁.maxPeers) :
      Outcome s c (s₁.spend c.peer c.cost c.nowMs)

theorem call_outcome (s : RateLimiter) (c : Call) : Outcome s c (s.call c) := by
  unfold call tryAcquireMany
  split
  · rename_i hzero
    exact Outcome.free hzero
  · rename_i hcost
    split
    · rename_i hdear
      exact Outcome.dear hcost hdear
    · rename_i hcheap
      rw [not_lt] at hcheap
      split
      · rename_i hfull
        simp only []
        split
        · rename_i hstill
          apply Outcome.full
          unfold lacksRoom
          simp [hcost, hcheap, hfull.left, hfull.right]
          exact hstill
        · rename_i hroom
          exact Outcome.spent hcost hcheap _ (Or.inr ⟨rfl, hfull.right⟩)
            (Or.inr (Nat.lt_of_not_le hroom))
      · rename_i hroom
        apply Outcome.spent hcost hcheap _ (Or.inl rfl)
        rw [not_and_or, Bool.not_eq_false, Nat.not_le] at hroom
        exact hroom

theorem Sound.call {c : Call} (h : s.Sound mark) (hle : mark <= c.nowMs) :
    (s.call c).snd.Sound c.nowMs ∧ forall k, (s.call c).snd.level k c.nowMs =
      s.level k c.nowMs - (if k = c.peer then paid (s.call c).fst c.cost else 0) := by
  have houtcome := s.call_outcome c
  generalize s.call c = result at houtcome
  cases houtcome with
  | free hzero =>
      refine ⟨h.mono hle, ?_⟩
      intro k
      simp [paid, hzero]
  | dear hcost hdear =>
      refine ⟨h.mono hle, ?_⟩
      intro k
      simp [paid]
  | full hfull =>
      refine ⟨h.evictFull hle, ?_⟩
      intro k
      rw [h.level_evictFull hle (le_refl _) (Or.inl rfl)]
      simp [paid]
  | spent hcost hcheap s₁ hfrom hroom =>
      have hsame : s₁.Sound c.nowMs ∧ forall k, s₁.level k c.nowMs = s.level k c.nowMs := by
        rcases hfrom with rfl | ⟨rfl, _⟩
        · exact ⟨h.mono hle, fun _ => rfl⟩
        · exact ⟨h.evictFull hle, fun k => h.level_evictFull hle (le_refl _) (Or.inl rfl)⟩
      have hsound := hsame.left.spend (le_refl _) c.cost hroom
      refine ⟨hsound, ?_⟩
      intro k
      rw [hsame.left.spend_eq (le_refl _)]
      simp only []
      split
      · rename_i heq
        subst heq
        have hfits := hsame.left.fits_paid (le_refl _) c.peer c.cost
        rw [level_put_self, Bucket.refill_same rfl hfits.full, hsame.right]
      · rename_i hne
        rw [level_put_of_ne hne, hsame.right, sub_zero]

/-!
## A window of a run
-/

theorem admitted_cons (kind : Call -> Bool) (s : RateLimiter) (c : Call) (rest : List Call) :
    s.admitted kind (c :: rest) =
      (if (s.call c).fst && kind c then c.cost else 0) + (s.call c).snd.admitted kind rest := rfl

theorem admitted_of_late (hkind : forall c, kind c = true -> c.nowMs <= stop) (s : RateLimiter)
    {calls : List Call} (hlate : forall c, c ∈ calls -> stop < c.nowMs) :
    s.admitted kind calls = 0 := by
  induction calls generalizing s with
  | nil => rfl
  | cons c rest ih =>
      rw [forall_mem_cons] at hlate
      have hout : kind c = false := by
        cases hin : kind c with
        | false => rfl
        | true => exact absurd (hkind c hin) (not_le_of_gt hlate.left)
      rw [admitted_cons, hout, Bool.and_false, ih _ hlate.right]
      rfl

theorem capacity_call (s : RateLimiter) (c : Call) :
    (s.call c).snd.capacity = s.capacity ∧ (s.call c).snd.refillPerMs = s.refillPerMs ∧
      (s.call c).snd.maxPeers = s.maxPeers := by
  have houtcome := s.call_outcome c
  generalize s.call c = result at houtcome
  cases houtcome with
  | free hzero | dear hcost hdear | full hfull => exact ⟨rfl, rfl, rfl⟩
  | spent hcost hcheap s₁ hfrom hroom =>
      have hsame : s₁.capacity = s.capacity ∧ s₁.refillPerMs = s.refillPerMs ∧
          s₁.maxPeers = s.maxPeers := by
        rcases hfrom with rfl | ⟨rfl, _⟩
        all_goals exact ⟨rfl, rfl, rfl⟩
      unfold spend
      simp only []
      split
      · exact hsame
      · exact hsame

theorem Sound.covered {taken : Rat} (h : s.Sound mark)
    (hcredit : Credit s.capacity s.refillPerMs ((mark - start : Int) : Rat) taken (s.level k mark))
    (hstop : mark <= stop) :
    taken <= s.capacity + s.refillPerMs * ((stop - start : Int) : Rat) := by
  have htaken := hcredit.taken_le (h.level_nonneg (le_refl mark))
  have hspan : ((mark - start : Int) : Rat) <= ((stop - start : Int) : Rat) := by
    exact_mod_cast Int.sub_le_sub_right hstop start
  have hearned := mul_le_mul_of_nonneg_left hspan h.rate
  linarith

theorem counted_le_paid {c : Call} (hkind : kind c = true -> c.peer = k) (answer : Bool) :
    ((if answer && kind c then c.cost else 0 : Nat) : Rat) <=
      if k = c.peer then paid answer c.cost else 0 := by
  have hcost : (0 : Rat) <= c.cost := Nat.cast_nonneg c.cost
  cases hin : kind c with
  | false =>
      rw [Bool.and_false, if_neg Bool.false_ne_true, Nat.cast_zero]
      unfold paid
      split
      · split
        · exact hcost
        · exact le_refl 0
      · exact le_refl 0
  | true =>
      rw [if_pos (hkind hin).symm, Bool.and_true]
      unfold paid
      split
      · exact le_refl _
      · rw [Nat.cast_zero]

theorem Sound.admitted_le {taken : Rat}
    (hkind : forall c, kind c = true -> c.peer = k ∧ c.nowMs <= stop) (calls : List Call)
    (h : s.Sound mark)
    (hcredit : Credit s.capacity s.refillPerMs ((mark - start : Int) : Rat) taken (s.level k mark))
    (horder : InOrder calls) (hafter : forall c, c ∈ calls -> mark <= c.nowMs)
    (hstop : mark <= stop) :
    taken + (s.admitted kind calls : Rat) <=
      s.capacity + s.refillPerMs * ((stop - start : Int) : Rat) := by
  induction calls generalizing s mark taken with
  | nil =>
      show taken + ((0 : Nat) : Rat) <= _
      rw [Nat.cast_zero, add_zero]
      exact h.covered hcredit hstop
  | cons c rest ih =>
      rw [forall_mem_cons] at hafter
      unfold InOrder at horder
      rw [pairwise_cons] at horder
      rcases lt_or_ge stop c.nowMs with hlate | hearly
      · have hall : forall c', c' ∈ c :: rest -> stop < c'.nowMs := by
          rw [forall_mem_cons]
          exact ⟨hlate, fun c' hc' => lt_of_lt_of_le hlate (horder.left c' hc')⟩
        rw [admitted_of_late (fun c' hc' => (hkind c' hc').right) s hall, Nat.cast_zero, add_zero]
        exact h.covered hcredit hstop
      · rcases h.call hafter.left with ⟨hsound, hlevel⟩
        rcases s.capacity_call c with ⟨hcapacity, hrate, _⟩
        have hgained := hcredit.gain (h.level_gain (le_refl mark) hafter.left)
        have hspent := hgained.spend (if k = c.peer then paid (s.call c).fst c.cost else 0)
        have hspan : ((mark - start : Int) : Rat) + ((c.nowMs - mark : Int) : Rat) =
            ((c.nowMs - start : Int) : Rat) := by
          push_cast
          ring
        rw [← hlevel, hspan, ← hcapacity, ← hrate] at hspent
        have hrest := ih hsound hspent horder.right horder.left hearly
        rw [hcapacity, hrate] at hrest
        have hcounted := counted_le_paid (fun hin => (hkind c hin).left) (s.call c).fst
        rw [admitted_cons, Nat.cast_add]
        linarith

/-- A window of a run: the calls before it do not count. -/
theorem Sound.admitted_within
    (hkind : forall c, kind c = true -> c.peer = k ∧ start <= c.nowMs ∧ c.nowMs <= stop)
    (calls : List Call) (h : s.Sound mark) (horder : InOrder calls)
    (hafter : forall c, c ∈ calls -> mark <= c.nowMs) (hstop : start <= stop) :
    (s.admitted kind calls : Rat) <= s.capacity + s.refillPerMs * ((stop - start : Int) : Rat) := by
  have hspan : (0 : Rat) <= ((stop - start : Int) : Rat) := by
    exact_mod_cast Int.sub_nonneg_of_le hstop
  induction calls generalizing s mark with
  | nil =>
      have hearned := mul_nonneg h.rate hspan
      have hcapacity := h.capacity
      show ((0 : Nat) : Rat) <= _
      rw [Nat.cast_zero]
      linarith
  | cons c rest ih =>
      have hall := hafter
      rw [forall_mem_cons] at hafter
      have hlater := horder
      unfold InOrder at hlater
      rw [pairwise_cons] at hlater
      rcases lt_or_ge c.nowMs start with hbefore | hwithin
      · rcases s.capacity_call c with ⟨hcapacity, hrate, _⟩
        have hout : kind c = false := by
          cases hin : kind c with
          | false => rfl
          | true => exact absurd (hkind c hin).right.left (not_le_of_gt hbefore)
        have hrest := ih (h.call hafter.left).left hlater.right hlater.left
        rw [hcapacity, hrate] at hrest
        rw [admitted_cons, hout, Bool.and_false, if_neg Bool.false_ne_true, Nat.zero_add]
        exact hrest
      · have hfirst : forall c', c' ∈ c :: rest -> c.nowMs <= c'.nowMs := by
          rw [forall_mem_cons]
          exact ⟨le_refl _, hlater.left⟩
        have hcredit : Credit s.capacity s.refillPerMs ((c.nowMs - start : Int) : Rat) 0
            (s.level k c.nowMs) := by
          have hlevel : s.level k c.nowMs <= s.capacity := h.level_le hafter.left
          have hpassed : (0 : Rat) <= ((c.nowMs - start : Int) : Rat) := by
            exact_mod_cast Int.sub_nonneg_of_le hwithin
          have hearned := mul_nonneg h.rate hpassed
          unfold Credit
          linarith
        rcases lt_or_ge stop c.nowMs with hlate | hearly
        · have hgone : forall c', c' ∈ c :: rest -> stop < c'.nowMs :=
            fun c' hc' => lt_of_lt_of_le hlate (hfirst c' hc')
          have hearned := mul_nonneg h.rate hspan
          have hcapacity := h.capacity
          rw [admitted_of_late (fun c' hc' => (hkind c' hc').right.right) s hgone, Nat.cast_zero]
          linarith
        · have hbound := (h.mono hafter.left).admitted_le
            (fun c' hc' => ⟨(hkind c' hc').left, (hkind c' hc').right.right⟩) (c :: rest) hcredit
            horder hfirst hearly
          rw [zero_add] at hbound
          exact hbound

/-!
## The same without a bound

The other table is given the calls that this one has room for.  What a peer can spend
is the same in both, at any time from now on.
-/

structure Agrees (s u : RateLimiter) (mark : Int) : Prop where
  sound : s.Sound mark
  sound' : u.Sound mark
  capacity : u.capacity = s.capacity
  rate : u.refillPerMs = s.refillPerMs
  started : forall peer b, s.buckets.get? peer = some b -> 0 <= b.lastMs
  levels : forall k later, mark <= later -> later <= i64Max -> u.level k later = s.level k later

variable {u : RateLimiter}

theorem Agrees.mono (h : s.Agrees u mark) (hle : mark <= now) : s.Agrees u now where
  sound := h.sound.mono hle
  sound' := h.sound'.mono hle
  capacity := h.capacity
  rate := h.rate
  started := h.started
  levels := fun k later hlater hend => h.levels k later (le_trans hle hlater) hend

theorem Agrees.evictFull (h : s.Agrees u mark) (hle : mark <= now) (hstart : 0 <= now) :
    (s.evictFull now).Agrees u now where
  sound := h.sound.evictFull hle
  sound' := h.sound'.mono hle
  capacity := h.capacity
  rate := h.rate
  started := by
    intro peer b hb
    rw [get?_evictFull] at hb
    rcases Option.bind_eq_some_iff.mp hb with ⟨old, hold, hnew⟩
    split at hnew
    · cases hnew
      exact le_trans hstart (le_max_right _ _)
    · cases hnew
  levels := by
    intro k later hlater hend
    rw [h.levels k later (le_trans hle hlater) hend,
      h.sound.level_evictFull hle hlater (Or.inr ⟨hend, h.started⟩)]

theorem Agrees.spend (h : s.Agrees u now) (hstart : 0 <= now) (hend : now <= i64Max) (cost : Nat)
    (hroom : s.buckets.contains peer = true ∨ s.buckets.size < s.maxPeers)
    (hroom' : u.buckets.contains peer = true ∨ u.buckets.size < u.maxPeers) :
    (u.spend peer cost now).fst = (s.spend peer cost now).fst ∧
      (s.spend peer cost now).snd.Agrees (u.spend peer cost now).snd now := by
  have hsame := h.levels peer now (le_refl now) hend
  have hsound := h.sound.spend (le_refl now) cost hroom
  have hsound' := h.sound'.spend (le_refl now) cost hroom'
  rw [h.sound.spend_eq (le_refl now)] at hsound ⊢
  rw [h.sound'.spend_eq (le_refl now)] at hsound' ⊢
  rw [hsame] at hsound' ⊢
  refine ⟨rfl, hsound, hsound', h.capacity, h.rate, ?_, ?_⟩
  · intro k b hb
    have hget : (s.buckets.insert peer _).get? k = some b := hb
    rw [get?_insert] at hget
    split at hget
    · cases hget
      exact hstart
    · exact h.started k b hget
  · intro k later hlater hend'
    rcases eq_or_ne k peer with rfl | hne
    · rw [level_put_self, level_put_self, h.capacity, h.rate]
    · rw [level_put_of_ne hne, level_put_of_ne hne]
      exact h.levels k later hlater hend'

theorem call_lacking {c : Call} (hlacks : s.lacksRoom c = true) :
    s.call c = (false, s.evictFull c.nowMs) := by
  unfold lacksRoom at hlacks
  simp only [Bool.and_eq_true, decide_eq_true_eq, Bool.not_eq_true'] at hlacks
  rcases hlacks with ⟨⟨⟨⟨hcost, hcheap⟩, hunknown⟩, hfull⟩, hstill⟩
  unfold call tryAcquireMany
  rw [if_neg hcost, if_neg (not_lt_of_ge hcheap), if_pos ⟨hunknown, hfull⟩]
  exact if_pos hstill

theorem call_of_room (u : RateLimiter) (c : Call) (hless : u.buckets.size < u.maxPeers) :
    u.call c =
      if c.cost = 0 then (true, u) else if u.capacity < c.cost then (false, u)
      else u.spend c.peer c.cost c.nowMs := by
  have hroom : ¬ (u.buckets.contains c.peer = false ∧ u.maxPeers <= u.buckets.size) :=
    fun hfull => absurd hfull.right (not_le_of_gt hless)
  unfold call tryAcquireMany
  rw [if_neg hroom]

theorem Agrees.call_lacking {c : Call} (h : s.Agrees u mark) (hle : mark <= c.nowMs)
    (hstart : 0 <= c.nowMs) (hlacks : s.lacksRoom c = true) : (s.call c).snd.Agrees u c.nowMs := by
  rw [RateLimiter.call_lacking hlacks]
  exact h.evictFull hle hstart

theorem Agrees.call {c : Call} (h : s.Agrees u mark) (hle : mark <= c.nowMs)
    (hstart : 0 <= c.nowMs) (hend : c.nowMs <= i64Max) (hserved : s.lacksRoom c = false)
    (hless : u.buckets.size < u.maxPeers) :
    (u.call c).fst = (s.call c).fst ∧ (s.call c).snd.Agrees (u.call c).snd c.nowMs := by
  have houtcome := s.call_outcome c
  generalize s.call c = result at houtcome
  rw [u.call_of_room c hless, h.capacity]
  cases houtcome with
  | free hcost =>
      rw [if_pos hcost]
      exact ⟨rfl, h.mono hle⟩
  | dear hcost hdear =>
      rw [if_neg hcost, if_pos hdear]
      exact ⟨rfl, h.mono hle⟩
  | full hfull =>
      rw [hserved] at hfull
      cases hfull
  | spent hcost hcheap s₁ hfrom hroom =>
      rw [if_neg hcost, if_neg (not_lt_of_ge hcheap)]
      have hagrees : s₁.Agrees u c.nowMs := by
        rcases hfrom with rfl | ⟨rfl, _⟩
        · exact h.mono hle
        · exact h.evictFull hle hstart
      exact hagrees.spend hstart hend c.cost hroom (Or.inr hless)

/-!
## Whole runs
-/

theorem size_call_le (u : RateLimiter) (c : Call) :
    (u.call c).snd.buckets.size <= u.buckets.size + 1 := by
  have houtcome := u.call_outcome c
  generalize u.call c = result at houtcome
  have hevict : (u.evictFull c.nowMs).buckets.size <= u.buckets.size :=
    size_filterMap_le _ u.buckets
  cases houtcome with
  | free hcost | dear hcost hdear => exact Nat.le_succ _
  | full hfull => exact Nat.le_trans hevict (Nat.le_succ _)
  | spent hcost hcheap s₁ hfrom hroom =>
      have hfewer : s₁.buckets.size <= u.buckets.size := by
        rcases hfrom with rfl | ⟨rfl, _⟩
        · exact Nat.le_refl _
        · exact hevict
      have hput : forall b, (s₁.put c.peer b).buckets.size <= s₁.buckets.size + 1 := by
        intro b
        have hsize := size_insert s₁.buckets c.peer b
        show (s₁.buckets.insert c.peer b).size <= _
        omega
      unfold spend
      simp only []
      split
      all_goals exact Nat.le_trans (hput _) (Nat.succ_le_succ hfewer)

theorem after_cons (s : RateLimiter) (c : Call) (rest : List Call) :
    s.after (c :: rest) = (s.call c).snd.after rest := rfl

theorem maxPeers_after (s : RateLimiter) (calls : List Call) :
    (s.after calls).maxPeers = s.maxPeers := by
  induction calls generalizing s with
  | nil => rfl
  | cons c rest ih => rw [after_cons, ih, (s.capacity_call c).right.right]

theorem Sound.after (calls : List Call) (h : s.Sound mark) (horder : InOrder calls)
    (hafter : forall c, c ∈ calls -> mark <= c.nowMs)
    (hbefore : forall c, c ∈ calls -> c.nowMs <= later) (hle : mark <= later) :
    (s.after calls).Sound later := by
  induction calls generalizing s mark with
  | nil => exact h.mono hle
  | cons c rest ih =>
      rw [forall_mem_cons] at hafter hbefore
      unfold InOrder at horder
      rw [pairwise_cons] at horder
      rw [after_cons]
      exact ih (h.call hafter.left).left horder.right horder.left hbefore.right hbefore.left

theorem Agrees.after (calls : List Call) (h : s.Agrees u mark) (horder : InOrder calls)
    (hafter : forall c, c ∈ calls -> mark <= c.nowMs)
    (hclock : forall c, c ∈ calls -> 0 <= c.nowMs ∧ c.nowMs <= i64Max)
    (hbefore : forall c, c ∈ calls -> c.nowMs <= later) (hle : mark <= later)
    (hless : u.buckets.size + calls.length < u.maxPeers) :
    (s.after calls).Agrees (u.after (s.served calls)) later ∧
      (u.after (s.served calls)).buckets.size < u.maxPeers ∧
      (u.after (s.served calls)).maxPeers = u.maxPeers := by
  induction calls generalizing s u mark with
  | nil => exact ⟨h.mono hle, Nat.lt_of_le_of_lt (Nat.le_add_right _ _) hless, rfl⟩
  | cons c rest ih =>
      rw [forall_mem_cons] at hafter hbefore hclock
      unfold InOrder at horder
      rw [pairwise_cons] at horder
      rw [length_cons] at hless
      rw [after_cons]
      unfold served
      split
      · rename_i hlacks
        exact ih (h.call_lacking hafter.left hclock.left.left hlacks) horder.right horder.left
          hclock.right hbefore.right hbefore.left (by omega)
      · rename_i hserved
        rw [Bool.not_eq_true] at hserved
        rw [after_cons]
        have hstep :=
          (h.call hafter.left hclock.left.left hclock.left.right hserved (by omega)).right
        have hsize := u.size_call_le c
        have hmax := (u.capacity_call c).right.right
        have hrest := ih hstep horder.right horder.left hclock.right hbefore.right hbefore.left
          (by omega)
        rw [hmax] at hrest
        exact hrest

end RateLimiter

namespace RateLimiter

theorem sound_bounded (capacity : Nat) (rate : Rat) (maxPeers : Nat) (mark : Int) :
    (bounded capacity rate maxPeers).Sound mark where
  capacity := Nat.cast_nonneg capacity
  rate := div_nonneg (le_max_right rate 0) (by decide)
  buckets := fun _ _ hb => nomatch hb
  room := Nat.zero_le maxPeers

theorem agrees_bounded (capacity : Nat) (rate : Rat) (maxPeers others : Nat) (mark : Int) :
    (bounded capacity rate maxPeers).Agrees (bounded capacity rate others) mark where
  sound := sound_bounded capacity rate maxPeers mark
  sound' := sound_bounded capacity rate others mark
  capacity := rfl
  rate := rfl
  started := fun _ _ hb => nomatch hb
  levels := fun _ _ _ _ => rfl

theorem lacksRoom_of_contains {s : RateLimiter} {c : Call}
    (h : s.buckets.contains c.peer = true) : s.lacksRoom c = false := by
  unfold lacksRoom
  rw [h]
  simp

end RateLimiter

theorem exists_span (calls : List Call) :
    exists mark later, mark <= later ∧
      forall c, c ∈ calls -> mark <= c.nowMs ∧ c.nowMs <= later := by
  induction calls with
  | nil =>
      refine ⟨0, 0, le_refl _, ?_⟩
      intro c hc
      cases hc
  | cons c rest ih =>
      rcases ih with ⟨mark, later, hle, hspan⟩
      refine ⟨min c.nowMs mark, max c.nowMs later, ?_, ?_⟩
      · exact le_trans (min_le_right _ _) (le_trans hle (le_max_right _ _))
      · rw [forall_mem_cons]
        refine ⟨⟨min_le_left _ _, le_max_left _ _⟩, ?_⟩
        intro c' hc'
        exact ⟨le_trans (min_le_right _ _) (hspan c' hc').left,
          le_trans (hspan c' hc').right (le_max_right _ _)⟩

/--
In any window of a run a peer is admitted no more than the capacity and what the window
earns; a refused call spends nothing; the table keeps to its bound; and a peer that has or
finds room has the answer of an unbounded table without the calls that found none here.
-/
theorem ingest_bounded {capacity : Nat} {rate : Rat} {maxPeers : Nat} {s : RateLimiter}
    (hs : s = RateLimiter.bounded capacity rate maxPeers) {calls : List Call}
    (horder : InOrder calls) :
    (forall peer start stop, start <= stop ->
      (s.admitted (fun c => decide (c.peer = peer ∧ start <= c.nowMs ∧ c.nowMs <= stop)) calls :
        Rat) <= capacity + finiteRate rate / 1000 * ((stop - start : Int) : Rat)) ∧
    (forall front c, front ++ [c] <+: calls -> ((s.after front).call c).fst = false ->
      forall peer, ((s.after front).call c).snd.level peer c.nowMs =
        (s.after front).level peer c.nowMs) ∧
    (s.after calls).buckets.size <= maxPeers ∧
    (forall front c others, front ++ [c] <+: calls -> front.length < others ->
      (forall c', c' ∈ front ++ [c] -> 0 <= c'.nowMs ∧ c'.nowMs <= i64Max) ->
      ((s.after front).buckets.contains c.peer = true -> (s.after front).lacksRoom c = false) ∧
      ((s.after front).lacksRoom c = false -> ((s.after front).call c).fst =
        (((RateLimiter.bounded capacity rate others).after (s.served front)).call c).fst)) := by
  rcases exists_span calls with ⟨mark, later, hlater, hspan⟩
  have hfront : forall {front : List Call} {c : Call}, front ++ [c] <+: calls ->
      InOrder front ∧ (forall c', c' ∈ front -> mark <= c'.nowMs ∧ c'.nowMs <= c.nowMs) ∧
        mark <= c.nowMs := by
    intro front c hprefix
    have hsub := hprefix.sublist
    have hin := horder.sublist hsub
    rw [pairwise_append] at hin
    refine ⟨hin.left, ?_, (hspan c (hsub.subset (by simp))).left⟩
    intro c' hc'
    exact ⟨(hspan c' (hsub.subset (by simp [hc']))).left,
      hin.right.right c' hc' c mem_cons_self⟩
  have hsound : s.Sound mark := by
    rw [hs]
    exact sound_bounded capacity rate maxPeers mark
  refine ⟨?_, ?_, ?_, ?_⟩
  · intro peer start stop hle
    have hkind : forall c : Call,
        decide (c.peer = peer ∧ start <= c.nowMs ∧ c.nowMs <= stop) = true ->
          c.peer = peer ∧ start <= c.nowMs ∧ c.nowMs <= stop :=
      fun c hc => of_decide_eq_true hc
    have hwithin := hsound.admitted_within hkind calls horder (fun c hc => (hspan c hc).left) hle
    rw [hs] at hwithin ⊢
    exact hwithin
  · intro front c hprefix hrefused peer
    rcases hfront hprefix with ⟨hin, hbetween, hle⟩
    have hbefore := hsound.after front hin (fun c' hc' => (hbetween c' hc').left)
      (fun c' hc' => (hbetween c' hc').right) hle
    rw [(hbefore.call (le_refl _)).right peer, hrefused]
    simp [RateLimiter.paid]
  · have hend := hsound.after calls horder (fun c hc => (hspan c hc).left)
      (fun c hc => (hspan c hc).right) hlater
    have hroom := hend.room
    rw [maxPeers_after, hs] at hroom
    rw [hs]
    exact hroom
  · intro front c others hprefix hmany hclock
    rcases hfront hprefix with ⟨hin, hbetween, hle⟩
    refine ⟨lacksRoom_of_contains, ?_⟩
    intro hserved
    have hagrees := agrees_bounded capacity rate maxPeers others mark
    rw [← hs] at hagrees
    have hroom : (RateLimiter.bounded capacity rate others).buckets.size + front.length <
        (RateLimiter.bounded capacity rate others).maxPeers := by
      show 0 + front.length < others
      rw [Nat.zero_add]
      exact hmany
    have hafter := hagrees.after front hin (fun c' hc' => (hbetween c' hc').left)
      (fun c' hc' => hclock c' (mem_append_left _ hc'))
      (fun c' hc' => (hbetween c' hc').right) hle hroom
    have hnow := hclock c (mem_append_right _ mem_cons_self)
    have hcall := hafter.left.call (le_refl _) hnow.left hnow.right hserved
      (by rw [hafter.right.right]; exact hafter.right.left)
    exact hcall.left.symm

/-- A peer finds the table full, and comes back when there is room again. -/
def latecomer : List Call := [⟨1, 1, 0⟩, ⟨2, 1, 1⟩, ⟨2, 1, 1000⟩]

theorem ingest_bounded_latecomer :
    InOrder latecomer ∧
      ((RateLimiter.bounded 1 1 1).admitted (fun c =>
        decide (c.peer = 2 ∧ 0 <= c.nowMs ∧ c.nowMs <= 1000)) latecomer : Rat) <=
        (1 : Nat) + finiteRate 1 / 1000 * ((1000 - 0 : Int) : Rat) := by
  have horder : InOrder latecomer := by
    unfold InOrder latecomer
    decide
  exact ⟨horder, (ingest_bounded rfl horder).left 2 0 1000 (by decide)⟩

/-- A peer with a bucket is refused where the unbounded limiter lets it through. -/
theorem refused_where_unbounded_admits :
    InOrder (latecomer ++ [⟨2, 1, 1001⟩]) ∧
      ((RateLimiter.bounded 1 1 1).after latecomer).buckets.contains 2 = true ∧
      (((RateLimiter.bounded 1 1 1).after latecomer).call ⟨2, 1, 1001⟩).fst = false ∧
      (((RateLimiter.new 1 1).after latecomer).call ⟨2, 1, 1001⟩).fst = true := by
  refine ⟨?_, by decide +kernel, by decide +kernel, by decide +kernel⟩
  unfold InOrder latecomer
  decide

end Rabbithole.Federation
