import Rabbithole.RateLimit.Bound

/-!
# The sweep is not seen

A bucket that is dropped would have been full, and its note stale, at every later reading:
what the next fresh one is.  So no answer depends on when, or whether, buckets are pruned.
-/

namespace Rabbithole.RateLimit

open List Function

/-!
## Another moment for the pruning
-/

namespace RateLimiter

def tickWith (due : Nat -> Bool) (s : RateLimiter) (nowMs : Nat) : RateLimiter :=
  let s := { s with checks := (s.checks + 1) % 2 ^ 64 }
  if due s.checks then s.sweep nowMs else s

def everySo (checks : Nat) : Bool :=
  decide (checks % sweepEvery = 0)

/-- The answer for a key, and its bucket from then on. -/
def answer (policy : Policy) (nowMs : Nat) (consume : Bool) (b? : Option Bucket) :
    Decision × Option Bucket :=
  let b := (b?.getD (Bucket.fresh policy nowMs)).refill policy nowMs
  if policy.capacity = 0 then
    (.limited u64Max (b.note nowMs).fst, some (b.note nowMs).snd)
  else if consume = false ∧ b? = none then (.allowed, none)
  else if 1 <= b.tokens then
    (.allowed, some (if consume then { b with tokens := b.tokens - 1 } else b))
  else
    (.limited (retryAfter policy b.tokens) (b.note nowMs).fst, some (b.note nowMs).snd)

/-- A call whose pruning comes at other moments. -/
def decideWith (due : Nat -> Bool) (s : RateLimiter) (key : LimitKey) (policy : Policy)
    (nowMs : Nat) (consume : Bool) : Decision × RateLimiter :=
  let s := s.tickWith due nowMs
  let (decision, b?) := answer policy nowMs consume (s.buckets key)
  (decision, { s with buckets := Function.update s.buckets key b? })

theorem tick_eq (s : RateLimiter) (nowMs : Nat) : s.tick nowMs = s.tickWith everySo nowMs := by
  unfold tick tickWith everySo
  simp only [decide_eq_true_eq]

theorem decide_eq (s : RateLimiter) (key : LimitKey) (policy : Policy) (nowMs : Nat)
    (consume : Bool) : s.decide key policy nowMs consume =
      s.decideWith everySo key policy nowMs consume := by
  unfold RateLimiter.decide decideWith answer
  rw [tick_eq]
  generalize s.tickWith everySo nowMs = s
  unfold current put
  simp only
  split
  · rfl
  · split
    · rename_i habsent
      simp only
      rw [← habsent.right, update_eq_self]
    · split
      · rfl
      · rfl

end RateLimiter

/-!
## What later calls can see of a bucket
-/

def level (policy : Policy) (b? : Option Bucket) (nowMs : Nat) : Rat :=
  ((b?.getD (Bucket.fresh policy nowMs)).refill policy nowMs).tokens

def stale (b? : Option Bucket) (nowMs : Nat) : Bool :=
  match b? with
  | none => true
  | some b => b.noteStale nowMs

/-- No reading from now on tells the two apart. -/
def Alike (policy : Policy) (nowMs : Nat) (b? c? : Option Bucket) : Prop :=
  forall t, nowMs <= t -> level policy b? t = level policy c? t ∧ stale b? t = stale c? t

/-- The policy last applied is the policy of the class. -/
def Settled (policy : Policy) (b? : Option Bucket) : Prop :=
  forall b, b? = some b -> b.capacity = policy.capacity ∧ b.refillPerSec = policy.refillPerSec

section Alike

variable {policy : Policy} {nowMs : Nat} {b? c? d? : Option Bucket}

theorem Alike.refl (policy : Policy) (nowMs : Nat) (b? : Option Bucket) :
    Alike policy nowMs b? b? :=
  fun _ _ => ⟨rfl, rfl⟩

theorem Alike.symm (h : Alike policy nowMs b? c?) : Alike policy nowMs c? b? :=
  fun t ht => ⟨(h t ht).left.symm, (h t ht).right.symm⟩

theorem Alike.trans (h : Alike policy nowMs b? c?) (h' : Alike policy nowMs c? d?) :
    Alike policy nowMs b? d? :=
  fun t ht => ⟨(h t ht).left.trans (h' t ht).left, (h t ht).right.trans (h' t ht).right⟩

theorem Alike.later {later : Nat} (h : Alike policy nowMs b? c?) (hlater : nowMs <= later) :
    Alike policy later b? c? :=
  fun t ht => h t (hlater.trans ht)

variable {b c : Bucket}

theorem level_full {t : Nat} (h : policy.capacity <= b.tokens) :
    level policy (some b) t = policy.capacity := by
  have hcapacity : (0 : Rat) <= policy.capacity := Nat.cast_nonneg _
  unfold level Bucket.refill
  simp only [Option.getD_some]
  rw [min_eq_right, max_eq_left hcapacity]
  split
  · rename_i hgain
    have hseconds : (0 : Rat) <= ((t - b.updatedMs : Nat) : Rat) / 1000 * policy.refillPerSec :=
      mul_nonneg (by positivity) (le_of_lt hgain.left)
    linarith
  · exact h

theorem level_none (t : Nat) : level policy none t = policy.capacity :=
  level_full (le_refl _)

theorem level_expired (hsettled : Settled policy (some b)) (h : b.expired nowMs = true) {t : Nat}
    (ht : nowMs <= t) : level policy (some b) t = policy.capacity := by
  rcases hsettled b rfl with ⟨hcapacity, hrate⟩
  unfold Bucket.expired at h
  simp only [Bool.and_eq_true, decide_eq_true_eq] at h
  rcases h with ⟨hfull, _⟩
  rw [hcapacity, hrate] at hfull
  have hnonneg : (0 : Rat) <= policy.capacity := Nat.cast_nonneg _
  have hless : ((nowMs - b.updatedMs : Nat) : Rat) / 1000 <= ((t - b.updatedMs : Nat) : Rat) / 1000 :=
    seconds_mono ht
  have hstart : (0 : Rat) <= ((nowMs - b.updatedMs : Nat) : Rat) / 1000 := by positivity
  by_cases hpositive : 0 < policy.refillPerSec
  · by_cases hlater : 0 < t - b.updatedMs
    · unfold level Bucket.refill
      simp only [Option.getD_some]
      rw [if_pos ⟨hpositive, hlater⟩, min_eq_right, max_eq_left hnonneg]
      have hgain := mul_le_mul_of_nonneg_right hless (le_of_lt hpositive)
      linarith
    · -- No time has passed since the bucket was advanced.
      apply level_full
      have hzero : nowMs - b.updatedMs = 0 := by omega
      rw [hzero] at hfull
      simpa using hfull
  · apply level_full
    have hloss := mul_nonpos_of_nonneg_of_nonpos hstart (not_lt.mp hpositive)
    linarith

theorem noteStale_mono (h : b.noteStale nowMs = true) {t : Nat} (ht : nowMs <= t) :
    b.noteStale t = true := by
  unfold Bucket.noteStale at h ⊢
  cases hnoted : b.notedMs with
  | none => rfl
  | some noted =>
      rw [hnoted] at h
      simp only [decide_eq_true_eq] at h ⊢
      omega

theorem alike_expired (hsettled : Settled policy (some b)) (h : b.expired nowMs = true) :
    Alike policy nowMs (some b) none := by
  intro t ht
  have hstale : b.noteStale nowMs = true := by
    unfold Bucket.expired at h
    rw [Bool.and_eq_true] at h
    exact h.right
  exact ⟨(level_expired hsettled h ht).trans (level_none t).symm, noteStale_mono hstale ht⟩

theorem alike_of_same (htokens : b.tokens = c.tokens) (hupdated : b.updatedMs = c.updatedMs)
    (hstale : forall t, nowMs <= t -> b.noteStale t = c.noteStale t) :
    Alike policy nowMs (some b) (some c) := by
  intro t ht
  refine ⟨?_, hstale t ht⟩
  unfold level Bucket.refill
  simp only [Option.getD_some]
  rw [htokens, hupdated]

theorem note_fst (b : Bucket) (nowMs : Nat) : (b.note nowMs).fst = b.noteStale nowMs := by
  unfold Bucket.note
  cases b.noteStale nowMs with
  | true => rfl
  | false => rfl

theorem alike_note (htokens : b.tokens = c.tokens) (hupdated : b.updatedMs = c.updatedMs)
    (hstale : forall t, nowMs <= t -> b.noteStale t = c.noteStale t) :
    Alike policy nowMs (some (b.note nowMs).snd) (some (c.note nowMs).snd) := by
  unfold Bucket.note
  rw [hstale nowMs (Nat.le_refl _)]
  split
  · exact alike_of_same htokens hupdated (fun _ _ => rfl)
  · exact alike_of_same htokens hupdated hstale

theorem settled_note (h : Settled policy (some b)) : Settled policy (some (b.note nowMs).snd) := by
  intro c hc
  cases hc
  unfold Bucket.note
  split
  · exact h b rfl
  · exact h b rfl

def advanced (policy : Policy) (nowMs : Nat) (b? : Option Bucket) : Bucket :=
  (b?.getD (Bucket.fresh policy nowMs)).refill policy nowMs

theorem settled_advanced (policy : Policy) (nowMs : Nat) (b? : Option Bucket) :
    Settled policy (some (advanced policy nowMs b?)) := by
  intro b hb
  cases hb
  exact ⟨rfl, rfl⟩

theorem noteStale_advanced (policy : Policy) (nowMs : Nat) (b? : Option Bucket) (t : Nat) :
    (advanced policy nowMs b?).noteStale t = stale b? t := by
  cases b? with
  | none => rfl
  | some b => rfl

/-- What is done with a bucket that is there. -/
def used (policy : Policy) (nowMs : Nat) (consume : Bool) (b : Bucket) : Decision × Option Bucket :=
  if 1 <= b.tokens then
    (.allowed, some (if consume then { b with tokens := b.tokens - 1 } else b))
  else
    (.limited (RateLimiter.retryAfter policy b.tokens) (b.note nowMs).fst,
      some (b.note nowMs).snd)

theorem used_alike (consume : Bool) (htokens : b.tokens = c.tokens)
    (hupdated : b.updatedMs = c.updatedMs)
    (hstale : forall t, nowMs <= t -> b.noteStale t = c.noteStale t) :
    (used policy nowMs consume b).fst = (used policy nowMs consume c).fst ∧
      Alike policy nowMs (used policy nowMs consume b).snd (used policy nowMs consume c).snd := by
  unfold used
  rw [htokens]
  split
  · refine ⟨rfl, ?_⟩
    cases consume with
    | true => exact alike_of_same rfl hupdated hstale
    | false => exact alike_of_same htokens hupdated hstale
  · refine ⟨?_, alike_note htokens hupdated hstale⟩
    rw [note_fst, note_fst, hstale nowMs (Nat.le_refl _)]

theorem settled_used (consume : Bool) (h : Settled policy (some b)) :
    Settled policy (used policy nowMs consume b).snd := by
  unfold used
  split
  · intro c hc
    cases hc
    cases consume with
    | true | false => exact h b rfl
  · exact settled_note h

theorem answer_used (hcapacity : policy.capacity ≠ 0) (consume : Bool) (b? : Option Bucket) :
    (RateLimiter.answer policy nowMs consume b?).fst =
        (used policy nowMs consume (advanced policy nowMs b?)).fst ∧
      Alike policy nowMs (RateLimiter.answer policy nowMs consume b?).snd
        (used policy nowMs consume (advanced policy nowMs b?)).snd := by
  unfold RateLimiter.answer
  simp only [if_neg hcapacity]
  split
  · rename_i hpeek
    rcases hpeek with ⟨rfl, rfl⟩
    have hlevel : (advanced policy nowMs none).tokens = policy.capacity := level_none nowMs
    have hone : (1 : Rat) <= policy.capacity := by
      have hpositive : 1 <= policy.capacity := Nat.one_le_iff_ne_zero.mpr hcapacity
      exact_mod_cast hpositive
    unfold used
    rw [if_pos (by rw [hlevel]; exact hone)]
    refine ⟨rfl, ?_⟩
    intro t _
    refine ⟨?_, rfl⟩
    rw [level_none]
    exact (level_full (le_of_eq hlevel.symm)).symm
  · exact ⟨rfl, Alike.refl _ _ _⟩

theorem settled_answer (consume : Bool) (b? : Option Bucket) :
    Settled policy (RateLimiter.answer policy nowMs consume b?).snd := by
  unfold RateLimiter.answer
  simp only
  have hadvanced := settled_advanced policy nowMs b?
  split
  · exact settled_note hadvanced
  · split
    · intro b hb
      cases hb
    · exact settled_used consume hadvanced

theorem answer_alike (consume : Bool) (h : Alike policy nowMs b? c?) :
    (RateLimiter.answer policy nowMs consume b?).fst =
        (RateLimiter.answer policy nowMs consume c?).fst ∧
      Alike policy nowMs (RateLimiter.answer policy nowMs consume b?).snd
        (RateLimiter.answer policy nowMs consume c?).snd := by
  have htokens : (advanced policy nowMs b?).tokens = (advanced policy nowMs c?).tokens :=
    (h nowMs (Nat.le_refl _)).left
  have hupdated : (advanced policy nowMs b?).updatedMs = (advanced policy nowMs c?).updatedMs := rfl
  have hstale : forall t, nowMs <= t ->
      (advanced policy nowMs b?).noteStale t = (advanced policy nowMs c?).noteStale t := by
    intro t ht
    rw [noteStale_advanced, noteStale_advanced]
    exact (h t ht).right
  by_cases hcapacity : policy.capacity = 0
  · unfold RateLimiter.answer
    simp only [if_pos hcapacity]
    refine ⟨?_, alike_note htokens hupdated hstale⟩
    rw [note_fst, note_fst]
    exact congrArg _ (hstale nowMs (Nat.le_refl _))
  · rcases answer_used hcapacity consume b? with ⟨hfirst, halike⟩
    rcases answer_used hcapacity consume c? with ⟨hsecond, halike'⟩
    rcases used_alike consume htokens hupdated hstale with ⟨hsame, hafter⟩
    exact ⟨hfirst.trans (hsame.trans hsecond.symm), halike.trans (hafter.trans halike'.symm)⟩

end Alike

/-!
## Sequences of calls
-/

def Op.isSweep : Op -> Bool
  | .sweep _ => true
  | _ => false

/-- A check or a peek under the policy of its class, or a sweep. -/
def Op.Fixed (policies : String -> Policy) : Op -> Prop
  | .checkWith key policy _ => policy = policies key.class_
  | .peekWith key policy _ => policy = policies key.class_
  | .sweep _ => True
  | _ => False

/-- What a call answers. -/
def Op.decision (s : RateLimiter) : Op -> List Decision
  | .check key nowMs => [(s.check key nowMs).fst]
  | .checkWith key policy nowMs => [(s.checkWith key policy nowMs).fst]
  | .peekWith key policy nowMs => [(s.peekWith key policy nowMs).fst]
  | _ => []

def decisions : RateLimiter -> List Op -> List Decision
  | _, [] => []
  | s, op :: rest => op.decision s ++ decisions (op.run s) rest

/-- The same where pruning is due at other moments. -/
def Op.runWith (due : Nat -> Bool) (s : RateLimiter) : Op -> List Decision × RateLimiter
  | .checkWith key policy nowMs =>
      let (decision, s) := s.decideWith due key policy nowMs true
      ([decision], s)
  | .peekWith key policy nowMs =>
      let (decision, s) := s.decideWith due key policy nowMs false
      ([decision], s)
  | op => (op.decision s, op.run s)

def decisionsWith (due : Nat -> Bool) : RateLimiter -> List Op -> List Decision
  | _, [] => []
  | s, op :: rest => (op.runWith due s).fst ++ decisionsWith due (op.runWith due s).snd rest

theorem runWith_everySo (s : RateLimiter) (op : Op) :
    op.runWith RateLimiter.everySo s = (op.decision s, op.run s) := by
  cases op with
  | checkWith key policy nowMs =>
      show ([(s.decideWith RateLimiter.everySo key policy nowMs true).fst],
          (s.decideWith RateLimiter.everySo key policy nowMs true).snd) =
        ([(s.decide key policy nowMs true).fst], (s.decide key policy nowMs true).snd)
      rw [RateLimiter.decide_eq]
  | peekWith key policy nowMs =>
      show ([(s.decideWith RateLimiter.everySo key policy nowMs false).fst],
          (s.decideWith RateLimiter.everySo key policy nowMs false).snd) =
        ([(s.decide key policy nowMs false).fst], (s.decide key policy nowMs false).snd)
      rw [RateLimiter.decide_eq]
  | setPolicy class_ policy => rfl
  | check key nowMs => rfl
  | sweep nowMs => rfl

theorem decisions_eq (s : RateLimiter) (ops : List Op) :
    decisions s ops = decisionsWith RateLimiter.everySo s ops := by
  induction ops generalizing s with
  | nil => rfl
  | cons op rest ih =>
      unfold decisions decisionsWith
      rw [runWith_everySo, ih]

/-- The clock does not go back, and no sweep is ahead of a later check or peek. -/
def Timely (ops : List Op) : Prop :=
  ops.Pairwise (fun a b => b.isSweep = false -> a.nowMs <= b.nowMs)

/-- Two limiters that nothing tells apart from a reading on. -/
structure Same (policies : String -> Policy) (nowMs : Nat) (s s' : RateLimiter) : Prop where
  alike : forall key : LimitKey,
    Alike (policies key.class_) nowMs (s.buckets key) (s'.buckets key)
  settled : forall key : LimitKey, Settled (policies key.class_) (s.buckets key)
  settled' : forall key : LimitKey, Settled (policies key.class_) (s'.buckets key)

section Same

variable {policies : String -> Policy} {nowMs : Nat} {s s' : RateLimiter}

section

variable (h : Same policies nowMs s s')
include h

theorem Same.later {later : Nat} (hlater : nowMs <= later) : Same policies later s s' where
  alike := fun key => (h.alike key).later hlater
  settled := h.settled
  settled' := h.settled'

theorem Same.sweep {t : Nat} (ht : t <= nowMs) : Same policies nowMs (s.sweep t) s' := by
  refine ⟨?_, ?_, h.settled'⟩
  · intro key
    have halike := h.alike key
    have hsettled := h.settled key
    unfold RateLimiter.sweep
    simp only
    cases hb : s.buckets key with
    | none =>
        rw [hb] at halike
        exact halike
    | some b =>
        rw [hb] at halike hsettled
        rw [Option.filter_some]
        split
        · exact halike
        · rename_i hexpired
          rw [Bool.not_eq_true', Bool.not_eq_false] at hexpired
          exact ((alike_expired hsettled hexpired).later ht).symm.trans halike
  · intro key b hb
    exact h.settled key b (Option.filter_eq_some_iff.mp hb).left

theorem Same.tickWith (due : Nat -> Bool) :
    Same policies nowMs (s.tickWith due nowMs) (s'.tickWith (fun _ => false) nowMs) := by
  have hcounted : Same policies nowMs { s with checks := (s.checks + 1) % 2 ^ 64 }
      { s' with checks := (s'.checks + 1) % 2 ^ 64 } := ⟨h.alike, h.settled, h.settled'⟩
  unfold RateLimiter.tickWith
  simp only [Bool.false_eq_true, if_false]
  split
  · exact hcounted.sweep (Nat.le_refl _)
  · exact hcounted

theorem Same.decideWith (due : Nat -> Bool) (key : LimitKey) (consume : Bool) :
    (s.decideWith due key (policies key.class_) nowMs consume).fst =
        (s'.decideWith (fun _ => false) key (policies key.class_) nowMs consume).fst ∧
      Same policies nowMs (s.decideWith due key (policies key.class_) nowMs consume).snd
        (s'.decideWith (fun _ => false) key (policies key.class_) nowMs consume).snd := by
  have hticked := h.tickWith due
  unfold RateLimiter.decideWith
  generalize s.tickWith due nowMs = s at hticked
  generalize s'.tickWith (fun _ => false) nowMs = s' at hticked
  rcases answer_alike consume (hticked.alike key) with ⟨hsame, halike⟩
  refine ⟨hsame, ?_, ?_, ?_⟩
  · intro k
    by_cases hkey : k = key
    · subst hkey
      simp only [update_self]
      exact halike
    · simp only [update_of_ne hkey]
      exact hticked.alike k
  · intro k
    by_cases hkey : k = key
    · subst hkey
      simp only [update_self]
      exact settled_answer consume _
    · simp only [update_of_ne hkey]
      exact hticked.settled k
  · intro k
    by_cases hkey : k = key
    · subst hkey
      simp only [update_self]
      exact settled_answer consume _
    · simp only [update_of_ne hkey]
      exact hticked.settled' k

end

theorem decisionsWith_requests (due : Nat -> Bool) {ops : List Op}
    (hfixed : forall op, op ∈ ops -> op.Fixed policies) (htimely : Timely ops)
    (hlater : forall op, op ∈ ops -> op.isSweep = false -> nowMs <= op.nowMs)
    (h : Same policies nowMs s s') :
    decisionsWith due s ops =
      decisionsWith (fun _ => false) s' (ops.filter (fun op => !op.isSweep)) := by
  induction ops generalizing nowMs s s' with
  | nil => rfl
  | cons op rest ih =>
      have hrest := fun op hop => hfixed op (mem_cons_of_mem _ hop)
      rcases pairwise_cons.mp htimely with ⟨hafter, htimely'⟩
      have hthis := hfixed op mem_cons_self
      cases op with
      | setPolicy class_ policy | check key t => exact hthis.elim
      | sweep t =>
          -- The later of the two readings is not ahead of what is to come.
          have hboth := h.later (Nat.le_max_left nowMs t)
          refine ih hrest htimely' ?_ (hboth.sweep (Nat.le_max_right nowMs t))
          intro op' hop' hsweep
          exact Nat.max_le.mpr
            ⟨hlater op' (mem_cons_of_mem _ hop') hsweep, hafter op' hop' hsweep⟩
      | checkWith key policy t =>
          have hnow : nowMs <= t := hlater _ mem_cons_self rfl
          rcases (h.later hnow).decideWith due key true with ⟨hsame, hnext⟩
          cases hthis
          rw [filter_cons,
            show (!(Op.checkWith key (policies key.class_) t).isSweep) = true from rfl, if_pos rfl]
          unfold decisionsWith Op.runWith
          simp only
          rw [hsame, ih hrest htimely' (fun op' hop' hsweep => hafter op' hop' hsweep) hnext]
      | peekWith key policy t =>
          have hnow : nowMs <= t := hlater _ mem_cons_self rfl
          rcases (h.later hnow).decideWith due key false with ⟨hsame, hnext⟩
          cases hthis
          rw [filter_cons,
            show (!(Op.peekWith key (policies key.class_) t).isSweep) = true from rfl, if_pos rfl]
          unfold decisionsWith Op.runWith
          simp only
          rw [hsame, ih hrest htimely' (fun op' hop' hsweep => hafter op' hop' hsweep) hnext]

end Same

/-- Sweeps put in or left out, and pruning at other moments, change no answer. -/
theorem sweep_invisible (policies : String -> Policy) (due : Nat -> Bool) (ops ops' : List Op)
    (hfixed : forall op, op ∈ ops -> op.Fixed policies) (htimely : Timely ops)
    (htimely' : Timely ops')
    (hsame : ops.filter (fun op => !op.isSweep) = ops'.filter (fun op => !op.isSweep)) :
    decisions .new ops = decisions .new ops' ∧
      decisions .new ops = decisionsWith due .new ops' := by
  have hfixed' : forall op, op ∈ ops' -> op.Fixed policies := by
    intro op hop
    cases hsweep : op.isSweep with
    | true =>
        cases op with
        | sweep t => trivial
        | setPolicy class_ policy | check key t | checkWith key policy t | peekWith key policy t =>
            cases hsweep
    | false =>
        have hin : op ∈ ops'.filter (fun op => !op.isSweep) :=
          mem_filter.mpr ⟨hop, by rw [hsweep]; rfl⟩
        rw [← hsame] at hin
        exact hfixed op (mem_filter.mp hin).left
  have hstart : Same policies 0 .new .new := by
    refine ⟨fun key => Alike.refl _ _ _, ?_, ?_⟩
    all_goals
      intro key b hb
      cases hb
  have hplain : forall due, decisionsWith due .new ops =
      decisionsWith (fun _ => false) .new (ops.filter (fun op => !op.isSweep)) :=
    fun due => decisionsWith_requests due hfixed htimely (fun _ _ _ => Nat.zero_le _) hstart
  have hplain' : forall due, decisionsWith due .new ops' =
      decisionsWith (fun _ => false) .new (ops'.filter (fun op => !op.isSweep)) :=
    fun due => decisionsWith_requests due hfixed' htimely' (fun _ _ _ => Nat.zero_le _) hstart
  rw [decisions_eq, decisions_eq, hplain, hplain', hplain', hsame]
  exact ⟨rfl, rfl⟩

def burst : List Op :=
  [.checkWith ⟨.account 1, "msg"⟩ ⟨1, 1⟩ 0, .checkWith ⟨.account 1, "msg"⟩ ⟨1, 1⟩ 100,
    .checkWith ⟨.account 1, "msg"⟩ ⟨1, 1⟩ 70000]

def sweptBurst : List Op :=
  [.checkWith ⟨.account 1, "msg"⟩ ⟨1, 1⟩ 0, .checkWith ⟨.account 1, "msg"⟩ ⟨1, 1⟩ 100,
    .sweep 65000, .checkWith ⟨.account 1, "msg"⟩ ⟨1, 1⟩ 70000]

theorem sweep_invisible_burst :
    decisions .new burst = decisions .new sweptBurst ∧
      decisions .new burst = decisionsWith (fun _ => true) .new sweptBurst := by
  refine sweep_invisible (fun _ => ⟨1, 1⟩) (fun _ => true) burst sweptBurst ?_ ?_ ?_ rfl
  · intro op hop
    unfold burst at hop
    simp only [mem_cons, not_mem_nil, or_false] at hop
    rcases hop with rfl | rfl | rfl
    · rfl
    · rfl
    · rfl
  · unfold Timely burst
    decide
  · unfold Timely sweptBurst
    decide

end Rabbithole.RateLimit
