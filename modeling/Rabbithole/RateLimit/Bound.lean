import Rabbithole.Foundation.Credit
import Rabbithole.RateLimit.Limiter

/-!
# How many requests get through

Callers read the clock before they take the lock, so a bucket may be advanced to an earlier
reading than before and count the stretch between the two again.  Where the readings of a
key's bucket do not step back, the bound holds, whatever else is checked, peeked at or swept.
-/

namespace Rabbithole.RateLimit

open Foundation List RateLimiter

/-- The reading of the clock that a call brings. -/
def Op.nowMs : Op -> Nat
  | .setPolicy _ _ => 0
  | .check _ nowMs => nowMs
  | .checkWith _ _ nowMs => nowMs
  | .peekWith _ _ nowMs => nowMs
  | .sweep nowMs => nowMs

/-- The reading of a check of a key, if the call is one. -/
def Op.reading (key : LimitKey) : Op -> Option Nat
  | .check k nowMs => if k = key then some nowMs else none
  | .checkWith k _ nowMs => if k = key then some nowMs else none
  | _ => none

def readings (key : LimitKey) (ops : List Op) : List Nat :=
  ops.filterMap (Op.reading key)

/-- The answer to a check of a key, if the call is one. -/
def Op.answer (key : LimitKey) (s : RateLimiter) : Op -> Option Decision
  | .check k nowMs => if k = key then some (s.check k nowMs).fst else none
  | .checkWith k policy nowMs =>
      if k = key then some (s.checkWith k policy nowMs).fst else none
  | _ => none

def Op.passed (key : LimitKey) (s : RateLimiter) (op : Op) : Nat :=
  if op.answer key s = some .allowed then 1 else 0

def allowed (key : LimitKey) : RateLimiter -> List Op -> Nat
  | _, [] => 0
  | s, op :: rest => op.passed key s + allowed key (op.run s) rest

/-- Whatever is checked or peeked at under the key is so under one policy. -/
def UnderPolicy (key : LimitKey) (policy : Policy) (s : RateLimiter) : Op -> Prop
  | .check k _ => k = key -> s.policies k.class_ = some policy
  | .checkWith k p _ => k = key -> p = policy
  | .peekWith k p _ => k = key -> p = policy
  | _ => True

/-!
## Order of the readings
-/

/-- The call advances the key's bucket: a check, or a peek that finds one. -/
def Op.uses (key : LimitKey) (s : RateLimiter) : Op -> Bool
  | .check k _ => decide (k = key)
  | .checkWith k _ _ => decide (k = key)
  | .peekWith k _ nowMs => decide (k = key) && ((s.tick nowMs).buckets key).isSome
  | _ => false

def Op.drops (key : LimitKey) (s : RateLimiter) (op : Op) : Bool :=
  (s.buckets key).isSome && ((op.run s).buckets key).isNone

def Op.latest (key : LimitKey) (s : RateLimiter) (mark : Nat) (op : Op) : Nat :=
  if op.uses key s || op.drops key s then max mark op.nowMs else mark

/-- No call advances the key's bucket to an earlier reading than one that reached it. -/
def InOrder (key : LimitKey) : RateLimiter -> Nat -> List Op -> Prop
  | _, _, [] => True
  | s, mark, op :: rest =>
      (op.uses key s = true -> mark <= op.nowMs) ∧
        InOrder key (op.run s) (op.latest key s mark) rest

/-!
## The budget of a key
-/

/-- The seconds from one reading to another. -/
def seconds (start mark : Nat) : Rat :=
  ((mark - start : Nat) : Rat) / 1000

theorem seconds_nonneg (start mark : Nat) : 0 <= seconds start mark := by
  unfold seconds
  positivity

theorem seconds_add {start mark later : Nat} (hstart : start <= mark) (h : mark <= later) :
    seconds start later = seconds start mark + seconds mark later := by
  unfold seconds
  rw [← add_div, ← Nat.cast_add]
  congr 2
  omega

theorem seconds_mono {start mark later : Nat} (h : mark <= later) :
    seconds start mark <= seconds start later := by
  unfold seconds
  have hsub : mark - start <= later - start := Nat.sub_le_sub_right h start
  have hcast : ((mark - start : Nat) : Rat) <= ((later - start : Nat) : Rat) := by
    exact_mod_cast hsub
  linarith

theorem seconds_max (mark nowMs : Nat) : seconds mark (max mark nowMs) = seconds mark nowMs := by
  unfold seconds
  congr 2
  omega

/--
What was allowed since a start is covered, with a bucket at the latest reading, or
with no bucket as with a full one.
-/
inductive Budget (policy : Policy) (start mark : Nat) (taken : Rat) : Option Bucket -> Prop
  | full (h : Credit (policy.capacity : Rat) policy.refillPerSec (seconds start mark) taken
      policy.capacity) : Budget policy start mark taken none
  | live {b : Bucket} (hstart : start <= mark) (hcapacity : b.capacity = policy.capacity)
      (hrate : b.refillPerSec = policy.refillPerSec) (hmark : b.updatedMs = mark)
      (htokens : 0 <= b.tokens)
      (h : Credit (policy.capacity : Rat) policy.refillPerSec (seconds start mark) taken
        b.tokens) : Budget policy start mark taken (some b)

/-- What a call leaves of a bucket that it does not use. -/
def Spared (nowMs : Nat) (b b' : Option Bucket) : Prop :=
  b' = b ∨ b' = b.filter (fun b => !b.expired nowMs)

section Budget

variable {policy : Policy} {start mark nowMs : Nat} {taken : Rat}

theorem Bucket.refill_tokens_nonneg (b : Bucket) (policy : Policy) (nowMs : Nat) :
    0 <= (b.refill policy nowMs).tokens :=
  le_max_right _ _

theorem Bucket.refill_tokens_le_capacity (b : Bucket) (policy : Policy) (nowMs : Nat) :
    (b.refill policy nowMs).tokens <= policy.capacity :=
  max_le (min_le_right _ _) (Nat.cast_nonneg _)

variable {b : Bucket}

theorem Bucket.refill_tokens_le (hrate : 0 <= policy.refillPerSec) (htokens : 0 <= b.tokens) :
    (b.refill policy nowMs).tokens <=
      b.tokens + policy.refillPerSec * seconds b.updatedMs nowMs := by
  have hgain : 0 <= policy.refillPerSec * seconds b.updatedMs nowMs :=
    mul_nonneg hrate (seconds_nonneg _ _)
  unfold Bucket.refill
  simp only []
  apply max_le
  · apply le_trans (min_le_left _ _)
    split
    · unfold seconds
      rw [mul_comm]
    · linarith
  · linarith

theorem Budget.taken_le {b : Option Bucket} (h : Budget policy start mark taken b) :
    taken <= policy.capacity + policy.refillPerSec * seconds start mark := by
  cases h with
  | full h =>
      exact h.taken_le (Nat.cast_nonneg _)
  | live hstart hcapacity hrate hmark htokens h =>
      exact h.taken_le htokens

theorem Budget.wait {later : Nat} (hrate : 0 <= policy.refillPerSec)
    (h : Budget policy start mark taken none) (hlater : mark <= later) :
    Budget policy start later taken none := by
  cases h with
  | full h =>
      apply Budget.full
      have hlonger : seconds start mark <= seconds start later := seconds_mono hlater
      have hmono := mul_le_mul_of_nonneg_left hlonger hrate
      unfold Credit at h ⊢
      linarith

theorem Budget.expire (h : Budget policy start mark taken (some b))
    (hexpired : b.expired nowMs = true) : Budget policy start (max mark nowMs) taken none := by
  cases h with
  | live hstart hcapacity hrate' hmark htokens h =>
      apply Budget.full
      rw [seconds_add hstart (le_max_left mark nowMs)]
      apply h.gain
      unfold Bucket.expired at hexpired
      simp only [Bool.and_eq_true, decide_eq_true_eq] at hexpired
      have hfull := hexpired.left
      rw [hcapacity, hrate', hmark] at hfull
      rw [seconds_max, mul_comm]
      exact hfull

theorem Budget.sweep {b : Option Bucket} (h : Budget policy start mark taken b) :
    Budget policy start
      (if b.isSome && (b.filter (fun b => !b.expired nowMs)).isNone then max mark nowMs
        else mark) taken (b.filter (fun b => !b.expired nowMs)) := by
  cases b with
  | none =>
      exact h
  | some bucket =>
      cases hexpired : bucket.expired nowMs with
      | true =>
          simp only [Option.filter_some, hexpired]
          exact h.expire hexpired
      | false =>
          simp only [Option.filter_some, hexpired]
          exact h

theorem Budget.spare {b b' : Option Bucket} (h : Budget policy start mark taken b)
    (hspared : Spared nowMs b b') :
    Budget policy start (if b.isSome && b'.isNone then max mark nowMs else mark) taken b' := by
  rcases hspared with hsame | hswept
  · subst hsame
    cases b' with
    | none | some b =>
        exact h
  · subst hswept
    exact h.sweep

theorem Budget.start_le {b : Option Bucket} (h : Budget policy start mark taken b)
    (hb : b ≠ none) : start <= mark := by
  cases h with
  | full h =>
      exact absurd rfl hb
  | live hstart hcapacity hrate hmark htokens h =>
      exact hstart

theorem Budget.advance {b : Option Bucket} (hrate : 0 <= policy.refillPerSec)
    (h : Budget policy start mark taken b) (hmark : mark <= nowMs) (hstart : start <= nowMs) :
    Budget policy start nowMs taken
      (some ((b.getD (Bucket.fresh policy nowMs)).refill policy nowMs)) := by
  cases h with
  | full h =>
      have hfull := (Budget.full h).wait hrate hmark
      cases hfull with
      | full hfull =>
          have htokens := (Bucket.fresh policy nowMs).refill_tokens_le_capacity policy nowMs
          refine Budget.live hstart rfl rfl rfl (Bucket.refill_tokens_nonneg _ _ _) ?_
          unfold Credit at hfull ⊢
          exact le_trans (add_le_add_right htokens taken) hfull
  | live hstart' hcapacity hrate' hupdated htokens h =>
      refine Budget.live hstart rfl rfl rfl (Bucket.refill_tokens_nonneg _ _ _) ?_
      rw [seconds_add hstart' hmark]
      apply h.gain
      rw [← hupdated]
      exact Bucket.refill_tokens_le hrate htokens

theorem Budget.take (h : Budget policy start mark taken (some b)) (hone : 1 <= b.tokens) :
    Budget policy start mark (taken + 1) (some { b with tokens := b.tokens - 1 }) := by
  cases h with
  | live hstart hcapacity hrate hmark htokens h =>
      exact Budget.live hstart hcapacity hrate hmark (sub_nonneg.mpr hone) h.take

theorem Budget.note (h : Budget policy start mark taken (some b)) :
    Budget policy start mark taken (some (b.note nowMs).snd) := by
  unfold Bucket.note
  split
  · cases h with
    | live hstart hcapacity hrate hmark htokens h =>
        exact Budget.live hstart hcapacity hrate hmark htokens h
  · exact h

end Budget

/-!
## What a call does to a key's bucket
-/

theorem RateLimiter.spared_tick (s : RateLimiter) (nowMs : Nat) (key : LimitKey) :
    Spared nowMs (s.buckets key) ((s.tick nowMs).buckets key) := by
  unfold RateLimiter.tick
  simp only []
  split
  · exact Or.inr rfl
  · exact Or.inl rfl

variable {s : RateLimiter} {key k : LimitKey} {policy : Policy} {nowMs : Nat}

theorem RateLimiter.buckets_put_of_ne {b : Bucket} (h : key ≠ k) :
    (s.put k b).buckets key = s.buckets key :=
  Function.update_of_ne h _ _

theorem RateLimiter.buckets_put_self (s : RateLimiter) (key : LimitKey) (b : Bucket) :
    (s.put key b).buckets key = some b :=
  Function.update_self _ _ _

theorem RateLimiter.spared_decide {consume : Bool} (h : key ≠ k) :
    Spared nowMs (s.buckets key) ((s.decide k policy nowMs consume).snd.buckets key) := by
  have htick := s.spared_tick nowMs key
  unfold RateLimiter.decide
  simp only []
  split
  · rw [buckets_put_of_ne h]
    exact htick
  · split
    · exact htick
    · split
      all_goals
        rw [buckets_put_of_ne h]
        exact htick

theorem RateLimiter.spared_check (h : key ≠ k) :
    Spared nowMs (s.buckets key) ((s.check k nowMs).snd.buckets key) := by
  unfold RateLimiter.check
  cases s.policies k.class_ with
  | none =>
      exact Or.inl rfl
  | some policy =>
      exact spared_decide h

theorem RateLimiter.decide_cases (s : RateLimiter) (key : LimitKey) (nowMs : Nat) (consume : Bool)
    (hcapacity : policy.capacity ≠ 0) (huse : consume = true ∨ (s.tick nowMs).buckets key ≠ none) :
    (1 <= ((s.tick nowMs).current key policy nowMs).tokens ∧
      (s.decide key policy nowMs consume).fst = .allowed ∧
      (s.decide key policy nowMs consume).snd.buckets key = some (if consume then
          { (s.tick nowMs).current key policy nowMs with
            tokens := ((s.tick nowMs).current key policy nowMs).tokens - 1 }
        else (s.tick nowMs).current key policy nowMs)) ∨
    ((s.decide key policy nowMs consume).fst ≠ .allowed ∧
      (s.decide key policy nowMs consume).snd.buckets key =
        some (((s.tick nowMs).current key policy nowMs).note nowMs).snd) := by
  have hfind : ¬ (consume = false ∧ (s.tick nowMs).buckets key = none) := by
    intro h
    rcases huse with hconsume | hpresent
    · rw [h.left] at hconsume
      cases hconsume
    · exact hpresent h.right
  unfold RateLimiter.decide
  simp only [if_neg hcapacity, if_neg hfind]
  split
  · rename_i hone
    exact Or.inl ⟨hone, rfl, buckets_put_self _ _ _⟩
  · refine Or.inr ⟨?_, buckets_put_self _ _ _⟩
    intro h
    cases h

theorem RateLimiter.spared_peek (hcapacity : policy.capacity ≠ 0)
    (h : (s.tick nowMs).buckets key = none) :
    Spared nowMs (s.buckets key) ((s.peekWith key policy nowMs).snd.buckets key) := by
  have htick := s.spared_tick nowMs key
  unfold RateLimiter.peekWith RateLimiter.decide
  simp only [if_neg hcapacity, h]
  exact htick

/-!
## One call
-/

section Call

variable {policy : Policy} {key : LimitKey} {start mark nowMs : Nat} {taken : Rat}
  {s : RateLimiter} {op : Op}

theorem Op.latest_of_uses (huse : op.uses key s = true) (h : mark <= op.nowMs) :
    op.latest key s mark = op.nowMs := by
  unfold Op.latest
  rw [huse, Bool.true_or, if_pos rfl]
  exact max_eq_right h

theorem Budget.unused (h : Budget policy start mark taken (s.buckets key))
    (huse : op.uses key s = false) (hanswer : op.answer key s = none)
    (hspared : Spared op.nowMs (s.buckets key) ((op.run s).buckets key)) :
    Budget policy start (op.latest key s mark) (taken + (op.passed key s : Rat))
      ((op.run s).buckets key) := by
  have hpassed : op.passed key s = 0 := by
    unfold Op.passed
    rw [hanswer]
    rfl
  unfold Op.latest Op.drops
  rw [huse, Bool.false_or, hpassed, Nat.cast_zero, add_zero]
  exact h.spare hspared

theorem Budget.current (hrate : 0 <= policy.refillPerSec)
    (h : Budget policy start mark taken (s.buckets key)) (hmark : mark <= nowMs)
    (hstart : start <= nowMs) :
    Budget policy start nowMs taken (some ((s.tick nowMs).current key policy nowMs)) := by
  apply Budget.advance hrate (h.spare (s.spared_tick nowMs key)) _ hstart
  split
  · exact max_le hmark le_rfl
  · exact hmark

section

variable (hcapacity : policy.capacity ≠ 0) (hrate : 0 <= policy.refillPerSec)
  (h : Budget policy start mark taken (s.buckets key)) (hmark : mark <= nowMs)
include hcapacity hrate h hmark

theorem Budget.checked (hstart : start <= nowMs) : Budget policy start nowMs
      (taken + (Op.passed key s (.checkWith key policy nowMs) : Rat))
      ((s.checkWith key policy nowMs).snd.buckets key) := by
  have hcurrent := h.current hrate hmark hstart
  unfold Op.passed Op.answer RateLimiter.checkWith
  simp only [if_true, Option.some_inj]
  rcases s.decide_cases key nowMs true hcapacity (Or.inl rfl) with
    ⟨hone, hallowed, hbuckets⟩ | ⟨hlimited, hbuckets⟩
  · rw [if_pos hallowed, hbuckets, if_pos rfl, Nat.cast_one]
    exact hcurrent.take hone
  · rw [if_neg hlimited, hbuckets, Nat.cast_zero, add_zero]
    exact hcurrent.note

theorem Budget.peeked (hfound : (s.tick nowMs).buckets key ≠ none) :
    Budget policy start nowMs taken ((s.peekWith key policy nowMs).snd.buckets key) := by
  have hbucket : s.buckets key ≠ none := by
    intro hnone
    rcases s.spared_tick nowMs key with hsame | hswept
    · exact hfound (hsame.trans hnone)
    · rw [hnone] at hswept
      exact hfound hswept
  have hcurrent := h.current hrate hmark (le_trans (h.start_le hbucket) hmark)
  unfold RateLimiter.peekWith
  rcases s.decide_cases key nowMs false hcapacity (Or.inr hfound) with
    ⟨hone, hallowed, hbuckets⟩ | ⟨hlimited, hbuckets⟩
  · rw [hbuckets, if_neg Bool.false_ne_true]
    exact hcurrent
  · rw [hbuckets]
    exact hcurrent.note

end

theorem RateLimiter.check_eq_checkWith (s : RateLimiter) (nowMs : Nat)
    (h : s.policies key.class_ = some policy) :
    s.check key nowMs = s.checkWith key policy nowMs := by
  unfold RateLimiter.check
  rw [h]

/-- Every call keeps the budget, when the readings that reach the bucket are in order. -/
theorem Budget.call (hcapacity : policy.capacity ≠ 0) (hrate : 0 <= policy.refillPerSec)
    (h : Budget policy start mark taken (s.buckets key)) (hpolicy : UnderPolicy key policy s op)
    (horder : op.uses key s = true -> mark <= op.nowMs)
    (hstart : forall t, op.reading key = some t -> start <= t) :
    Budget policy start (op.latest key s mark) (taken + (op.passed key s : Rat))
      ((op.run s).buckets key) := by
  cases op with
  | setPolicy class_ p =>
      exact h.unused rfl rfl (Or.inl rfl)
  | check k nowMs =>
      by_cases hk : k = key
      · subst hk
        have huse : (Op.check k nowMs).uses k s = true := decide_eq_true rfl
        have hsame := s.check_eq_checkWith nowMs (hpolicy rfl)
        have hpassed : Op.passed k s (.check k nowMs) =
            Op.passed k s (.checkWith k policy nowMs) := by
          simp only [Op.passed, Op.answer, hsame]
        have hbound := hstart nowMs (if_pos rfl)
        rw [Op.latest_of_uses huse (horder huse), hpassed]
        simp only [Op.run, hsame]
        exact h.checked hcapacity hrate (horder huse) hbound
      · exact h.unused (decide_eq_false hk) (if_neg hk)
          (spared_check (Ne.symm hk))
  | checkWith k p nowMs =>
      by_cases hk : k = key
      · subst hk
        have hp : p = policy := hpolicy rfl
        subst hp
        have huse : (Op.checkWith k p nowMs).uses k s = true := decide_eq_true rfl
        have hbound := hstart nowMs (if_pos rfl)
        rw [Op.latest_of_uses huse (horder huse)]
        exact h.checked hcapacity hrate (horder huse) hbound
      · exact h.unused (decide_eq_false hk) (if_neg hk)
          (spared_decide (Ne.symm hk))
  | peekWith k p nowMs =>
      by_cases hk : k = key
      · subst hk
        have hp : p = policy := hpolicy rfl
        subst hp
        cases hfound : (s.tick nowMs).buckets k with
        | none =>
            have huse : (Op.peekWith k p nowMs).uses k s = false := by
              simp [Op.uses, hfound]
            exact h.unused huse rfl (spared_peek hcapacity hfound)
        | some b =>
            have huse : (Op.peekWith k p nowMs).uses k s = true := by
              simp [Op.uses, hfound]
            have hne : (s.tick nowMs).buckets k ≠ none := by
              rw [hfound]
              exact Option.some_ne_none b
            rw [Op.latest_of_uses huse (horder huse),
              show Op.passed k s (.peekWith k p nowMs) = 0 from rfl, Nat.cast_zero, add_zero]
            exact h.peeked hcapacity hrate (horder huse) hne
      · have huse : (Op.peekWith k p nowMs).uses key s = false := by
          simp [Op.uses, hk]
        exact h.unused huse rfl (spared_decide (Ne.symm hk))
  | sweep nowMs =>
      exact h.unused rfl rfl (Or.inr rfl)

end Call

/-!
## Whole runs
-/

theorem Op.uses_of_passed {key : LimitKey} {s : RateLimiter} {op : Op} (h : op.passed key s ≠ 0) :
    op.uses key s = true ∧ op.reading key = some op.nowMs := by
  cases op with
  | setPolicy class_ policy | peekWith k policy nowMs | sweep nowMs =>
      exact absurd rfl h
  | check k nowMs | checkWith k policy nowMs =>
      by_cases hk : k = key
      · exact ⟨decide_eq_true hk, if_pos hk⟩
      · simp [Op.passed, Op.answer, hk] at h

section Whole

variable {policy : Policy} {key : LimitKey} {start stop : Nat}

theorem Budget.passed_le {mark : Nat} {taken : Rat} {s : RateLimiter} {op : Op}
    (hrate : 0 <= policy.refillPerSec)
    (h : Budget policy start (op.latest key s mark) (taken + (op.passed key s : Rat))
      ((op.run s).buckets key)) (horder : op.uses key s = true -> mark <= op.nowMs)
    (hstop : forall t, op.reading key = some t -> t <= stop)
    (htaken : taken <= policy.capacity + policy.refillPerSec * seconds start stop) :
    taken + (op.passed key s : Rat) <=
      policy.capacity + policy.refillPerSec * seconds start stop := by
  by_cases hpassed : op.passed key s = 0
  · rw [hpassed, Nat.cast_zero, add_zero]
    exact htaken
  · rcases Op.uses_of_passed hpassed with ⟨huse, hreading⟩
    have hcovered := h.taken_le
    rw [Op.latest_of_uses huse (horder huse)] at hcovered
    have hspan : seconds start op.nowMs <= seconds start stop :=
      seconds_mono (hstop op.nowMs hreading)
    have hmono := mul_le_mul_of_nonneg_left hspan hrate
    linarith

theorem Budget.allowed_le (hcapacity : policy.capacity ≠ 0) (hrate : 0 <= policy.refillPerSec)
    {s : RateLimiter} {mark : Nat} {taken : Rat} {ops : List Op}
    (h : Budget policy start mark taken (s.buckets key))
    (hpolicy : Along step (UnderPolicy key policy) s ops) (horder : InOrder key s mark ops)
    (hwithin : forall t, t ∈ readings key ops -> start <= t ∧ t <= stop)
    (htaken : taken <= policy.capacity + policy.refillPerSec * seconds start stop) :
    taken + (allowed key s ops : Rat) <=
      policy.capacity + policy.refillPerSec * seconds start stop := by
  induction ops generalizing s mark taken with
  | nil =>
      unfold allowed
      rw [Nat.cast_zero, add_zero]
      exact htaken
  | cons op rest ih =>
      have hfirst : forall t, op.reading key = some t -> start <= t ∧ t <= stop := by
        intro t ht
        exact hwithin t (mem_filterMap.mpr ⟨op, mem_cons_self, ht⟩)
      have hrest : forall t, t ∈ readings key rest -> start <= t ∧ t <= stop := by
        intro t ht
        rcases mem_filterMap.mp ht with ⟨later, hmem, hreading⟩
        exact hwithin t (mem_filterMap.mpr ⟨later, mem_cons_of_mem _ hmem, hreading⟩)
      have hnext := h.call hcapacity hrate hpolicy.left horder.left
        (fun t ht => (hfirst t ht).left)
      have hwhole := ih hnext (hpolicy.right _ rfl) horder.right hrest
        (hnext.passed_le hrate horder.left (fun t ht => (hfirst t ht).right) htaken)
      unfold allowed
      rw [Nat.cast_add, ← add_assoc]
      exact hwhole

/--
The checks of a key that are allowed are within the capacity and what the rate gives
over the span of their readings, when the readings that reach its bucket are in order.
-/
theorem allowed_within_refill {ops : List Op} {tMin tMax : Nat}
    (hcapacity : 1 <= policy.capacity) (hrate : 0 <= policy.refillPerSec)
    (hpolicy : Along step (UnderPolicy key policy) RateLimiter.new ops)
    (horder : InOrder key RateLimiter.new 0 ops) (hmin : (readings key ops).min? = some tMin)
    (hmax : (readings key ops).max? = some tMax) :
    (allowed key RateLimiter.new ops : Rat) <=
      policy.capacity + policy.refillPerSec * ((tMax : Rat) - tMin) / 1000 := by
  have hwithin : forall t, t ∈ readings key ops -> tMin <= t ∧ t <= tMax := by
    intro t ht
    exact ⟨(min?_eq_some_iff.mp hmin).right t ht,
      (max?_eq_some_iff.mp hmax).right t ht⟩
  have hspan : tMin <= tMax := (hwithin tMin (min?_eq_some_iff.mp hmin).left).right
  have hopen : Budget policy tMin 0 0 (RateLimiter.new.buckets key) := by
    apply Budget.full
    have hzero : seconds tMin 0 = 0 := by
      simp [seconds]
    rw [hzero]
    exact Credit.fresh
  have hspare : (0 : Rat) <= policy.capacity + policy.refillPerSec * seconds tMin tMax :=
    add_nonneg (Nat.cast_nonneg _) (mul_nonneg hrate (seconds_nonneg _ _))
  have hbound := hopen.allowed_le (Nat.one_le_iff_ne_zero.mp hcapacity) hrate hpolicy horder
    hwithin hspare
  rw [zero_add] at hbound
  unfold seconds at hbound
  rw [Nat.cast_sub hspan, ← mul_div_assoc] at hbound
  exact hbound

end Whole

def speaker : LimitKey where
  scope := .account 7
  class_ := "msg"

def neighbour : LimitKey where
  scope := .account 8
  class_ := "msg"

def onePerSecond : Policy where
  capacity := 1
  refillPerSec := 1

/-- Two callers at the start and two a second later, each pair taking the lock in turn. -/
def backAndForth : List Op :=
  [.checkWith speaker onePerSecond 0, .checkWith speaker onePerSecond 1000,
    .checkWith speaker onePerSecond 0, .checkWith speaker onePerSecond 1000]

/-- Late readings of other keys, a peek, a refusal, and a sweep that drops the bucket. -/
def inTurn : List Op :=
  [.checkWith speaker onePerSecond 0, .checkWith neighbour onePerSecond 900,
    .peekWith speaker onePerSecond 500, .checkWith speaker onePerSecond 500,
    .sweep 70000, .checkWith speaker onePerSecond 70000]

theorem along_underPolicy {key : LimitKey} {policy : Policy} {ops : List Op}
    (h : forall s op, op ∈ ops -> UnderPolicy key policy s op) :
    Along step (UnderPolicy key policy) RateLimiter.new ops :=
  along_of_invariant (fun _ => True) (fun _ _ _ _ _ => trivial)
    (fun s op hop _ => h s op hop) trivial

theorem allowed_within_refill_inTurn :
    allowed speaker RateLimiter.new inTurn = 2 ∧
      (allowed speaker RateLimiter.new inTurn : Rat) <= onePerSecond.capacity +
          onePerSecond.refillPerSec * (((70000 : Nat) : Rat) - (0 : Nat)) / 1000 := by
  have hpolicy : Along step (UnderPolicy speaker onePerSecond) RateLimiter.new inTurn := by
    apply along_underPolicy
    intro s op hop
    simp only [inTurn, mem_cons, not_mem_nil, or_false] at hop
    rcases hop with rfl | rfl | rfl | rfl | rfl | rfl <;> simp [UnderPolicy]
  have horder : InOrder speaker RateLimiter.new 0 inTurn := by
    simp only [InOrder, inTurn]
    decide +kernel
  refine ⟨by decide +kernel, ?_⟩
  exact allowed_within_refill (by decide) (by decide) hpolicy horder (by decide) (by decide)

/-- The second between the readings is counted twice. -/
theorem allowed_beyond_refill :
    Along step (UnderPolicy speaker onePerSecond) RateLimiter.new backAndForth ∧
      (readings speaker backAndForth).min? = some 0 ∧
      (readings speaker backAndForth).max? = some 1000 ∧
      ¬ (allowed speaker RateLimiter.new backAndForth : Rat) <= onePerSecond.capacity +
          onePerSecond.refillPerSec * (((1000 : Nat) : Rat) - (0 : Nat)) / 1000 := by
  have hpolicy : Along step (UnderPolicy speaker onePerSecond) RateLimiter.new
      backAndForth := by
    apply along_underPolicy
    intro s op hop
    simp only [backAndForth, mem_cons, not_mem_nil, or_false] at hop
    rcases hop with rfl | rfl | rfl | rfl <;> simp [UnderPolicy]
  exact ⟨hpolicy, by decide, by decide, by decide +kernel⟩

end Rabbithole.RateLimit
