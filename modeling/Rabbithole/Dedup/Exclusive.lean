import Mathlib.Data.Finset.Card
import Rabbithole.Dedup.Store

/-!
# Exclusive claims

A key is in the seen set in the generation of one ring entry, so it is removed only when that
entry is popped or when the reservation of that generation is dropped.  It can be claimed
again only after one of the two.
-/

namespace Rabbithole.Dedup

open Foundation List

theorem Seen.forget_eq_some_iff {seen : Seen} {key k : SeenKey} {generation : Nat}
    {at_ : Int × Nat} :
    seen.forget key generation k = some at_ <->
      seen k = some at_ ∧ ¬ (key = k ∧ generation = at_.snd) := by
  unfold Seen.forget
  cases hkey : seen key with
  | none =>
      simp only []
      constructor
      · intro h
        refine ⟨h, ?_⟩
        rintro ⟨rfl, _⟩
        rw [hkey] at h
        cases h
      · exact And.left
  | some found =>
      rcases found with ⟨time, current⟩
      simp only []
      by_cases hgeneration : current = generation
      · rw [if_pos hgeneration]
        by_cases hk : key = k
        · subst hk
          rw [Function.update_self, hkey]
          constructor
          · intro h
            cases h
          · rintro ⟨h, hnot⟩
            cases h
            exact absurd ⟨rfl, hgeneration.symm⟩ hnot
        · rw [Function.update_of_ne (Ne.symm hk)]
          simp [hk]
      · rw [if_neg hgeneration]
        constructor
        · intro h
          refine ⟨h, ?_⟩
          rintro ⟨rfl, rfl⟩
          rw [hkey] at h
          cases h
          exact hgeneration rfl
        · exact And.left

/-- What popping leaves: the back of the ring, and the keys whose entry was not popped. -/
structure Drained (due : Entry -> List Entry -> Bool) (seen seen' : Seen)
    (popped order' : List Entry) : Prop where
  keys : forall k at_, seen' k = some at_ <->
    seen k = some at_ ∧ forall p, p ∈ popped -> ¬ (p.key = k ∧ p.generation = at_.snd)
  overdue : forall front p back, popped = front ++ p :: back -> due p (back ++ order') = true
  stop : forall first rest, order' = first :: rest -> due first rest = false

theorem drain_spec (due : Entry -> List Entry -> Bool) (seen : Seen) (order : List Entry) :
    exists popped, order = popped ++ (drain due seen order).snd ∧
      Drained due seen (drain due seen order).fst popped (drain due seen order).snd := by
  induction order generalizing seen with
  | nil =>
      refine ⟨[], rfl, ?_, ?_, ?_⟩
      · intro k at_
        simp [drain]
      · intro front p back h
        simp at h
      · intro first rest h
        cases h
  | cons first rest ih =>
      cases hdue : due first rest with
      | false =>
          have hdrain : drain due seen (first :: rest) = (seen, first :: rest) := by
            simp [drain, hdue]
          rw [hdrain]
          refine ⟨[], rfl, ?_, ?_, ?_⟩
          · intro k at_
            simp
          · intro front p back h
            simp at h
          · intro first' rest' h
            cases h
            exact hdue
      | true =>
          have hdrain : drain due seen (first :: rest) =
              drain due (seen.forget first.key first.generation) rest := by
            simp [drain, hdue]
          rw [hdrain]
          rcases ih (seen.forget first.key first.generation) with ⟨popped, hsplit, hdrained⟩
          refine ⟨first :: popped, ?_, ?_, ?_, hdrained.stop⟩
          · rw [cons_append, ← hsplit]
          · intro k at_
            rw [hdrained.keys, Seen.forget_eq_some_iff, forall_mem_cons, and_assoc]
          · intro front p back h
            cases front with
            | nil =>
                cases h
                rw [← hsplit]
                exact hdue
            | cons head front =>
                cases h
                exact hdrained.overdue front p back rfl

/-!
## The ring covers the set
-/

/-- Every key in the set has its insertion in the ring, whose generations rise. -/
structure Inner.Ringed (s : Inner) : Prop where
  rising : (s.order.map Entry.generation).Pairwise (· < ·)
  below : forall e, e ∈ s.order -> e.generation <= s.nextGeneration
  ringed : forall key time generation, s.seen key = some (time, generation) ->
    Entry.mk time key generation ∈ s.order

section Ringed

variable {s : Inner}

theorem Inner.Ringed.new (windowMs : Int) (capacity : Nat) :
    (Inner.new windowMs capacity).Ringed where
  rising := Pairwise.nil
  below := by
    intro e he
    cases he
  ringed := by
    intro key time generation h
    cases h

theorem Inner.Ringed.drained (h : s.Ringed) {due : Entry -> List Entry -> Bool} {seen : Seen}
    {popped order : List Entry} (hsplit : s.order = popped ++ order)
    (hdrained : Drained due s.seen seen popped order) :
    ({ s with seen := seen, order := order } : Inner).Ringed where
  rising := by
    have hrising := h.rising
    rw [hsplit, map_append] at hrising
    exact (pairwise_append.mp hrising).right.left
  below := by
    intro e he
    apply h.below e
    rw [hsplit]
    exact mem_append_right _ he
  ringed := by
    intro key time generation hseen
    rcases (hdrained.keys key (time, generation)).mp hseen with ⟨hbefore, hnot⟩
    have hmem := h.ringed key time generation hbefore
    rw [hsplit] at hmem
    rcases mem_append.mp hmem with hpopped | hleft
    · exact absurd ⟨rfl, rfl⟩ (hnot _ hpopped)
    · exact hleft

theorem Inner.Ringed.evict (h : s.Ringed) (nowMs : Int) : (s.evict nowMs).Ringed := by
  rcases drain_spec (fun first _ => decide (first.seenAtMs < i64Sub nowMs s.windowMs)) s.seen
    s.order with ⟨popped, hsplit, hdrained⟩
  exact h.drained hsplit hdrained

theorem Inner.Ringed.backstop (h : s.Ringed) : s.backstop.Ringed := by
  rcases drain_spec (fun _ rest => decide (s.capacity < rest.length + 1)) s.seen s.order with
    ⟨popped, hsplit, hdrained⟩
  exact h.drained hsplit hdrained

theorem Inner.push_seen (s : Inner) (key k : SeenKey) (nowMs : Int) (generation : Nat) :
    (s.push key nowMs generation).seen k =
      if k = key then some (nowMs, generation) else s.seen k := by
  unfold Inner.push
  simp only [Function.update_apply]

theorem Inner.Ringed.push (h : s.Ringed) (key : SeenKey) (nowMs : Int) :
    (s.push key nowMs (s.nextGeneration + 1)).Ringed where
  rising := by
    show (List.map _ (s.order ++ [_])).Pairwise _
    rw [map_append, pairwise_append]
    refine ⟨h.rising, pairwise_singleton _ _, ?_⟩
    intro a ha b hb
    rcases mem_map.mp ha with ⟨e, he, rfl⟩
    rw [map_singleton, mem_singleton] at hb
    subst hb
    exact Nat.lt_succ_of_le (h.below e he)
  below := by
    intro e he
    rcases mem_append.mp he with hold | hnew
    · exact Nat.le_succ_of_le (h.below e hold)
    · rw [mem_singleton.mp hnew]
      exact le_rfl
  ringed := by
    intro k time generation hseen
    rw [Inner.push_seen] at hseen
    split at hseen
    · rename_i hk
      subst hk
      cases hseen
      exact mem_append_right _ (mem_singleton.mpr rfl)
    · exact mem_append_left _ (h.ringed k time generation hseen)

theorem Inner.Ringed.forget (h : s.Ringed) (key : SeenKey) (generation : Nat) :
    ({ s with seen := s.seen.forget key generation } : Inner).Ringed where
  rising := h.rising
  below := h.below
  ringed := by
    intro k time current hseen
    exact h.ringed k time current (Seen.forget_eq_some_iff.mp hseen).left

theorem Inner.evict_length_le (s : Inner) (nowMs : Int) :
    (s.evict nowMs).order.length <= s.order.length := by
  rcases drain_spec (fun first _ => decide (first.seenAtMs < i64Sub nowMs s.windowMs)) s.seen
    s.order with ⟨popped, hsplit, _⟩
  have hlength := congrArg List.length hsplit
  rw [length_append] at hlength
  show (drain _ s.seen s.order).snd.length <= _
  omega

theorem Inner.backstop_length_le (s : Inner) : s.backstop.order.length <= s.capacity := by
  rcases drain_spec (fun _ rest => decide (s.capacity < rest.length + 1)) s.seen s.order with
    ⟨popped, hsplit, hdrained⟩
  show (drain _ s.seen s.order).snd.length <= _
  cases horder : (drain (fun _ rest => decide (s.capacity < rest.length + 1)) s.seen
      s.order).snd with
  | nil =>
      exact Nat.zero_le _
  | cons first rest =>
      have hstop := hdrained.stop first rest horder
      rw [decide_eq_false_iff_not] at hstop
      exact Nat.le_of_not_lt hstop

theorem Inner.record_cases (s : Inner) (key : SeenKey) (nowMs : Int) :
    s.record key nowMs = (none, s.evict nowMs) ∨
      ((s.evict nowMs).seen key = none ∧
        s.record key nowMs = (some (s.nextGeneration + 1),
          ((s.evict nowMs).push key nowMs (s.nextGeneration + 1)).backstop)) := by
  unfold Inner.record
  simp only []
  split
  · exact Or.inl rfl
  · rename_i hnew
    split
    · exact Or.inl rfl
    · exact Or.inr ⟨Option.not_isSome_iff_eq_none.mp hnew, rfl⟩

theorem Inner.Ringed.record (h : s.Ringed) (key : SeenKey) (nowMs : Int) :
    (s.record key nowMs).snd.Ringed := by
  rcases s.record_cases key nowMs with hrecord | ⟨_, hrecord⟩
  · rw [hrecord]
    exact h.evict nowMs
  · rw [hrecord]
    exact ((h.evict nowMs).push key nowMs).backstop

theorem Inner.record_length_le {key : SeenKey} {nowMs : Int} (h : s.order.length <= s.capacity) :
    (s.record key nowMs).snd.order.length <= s.capacity := by
  rcases s.record_cases key nowMs with hrecord | ⟨_, hrecord⟩
  · rw [hrecord]
    exact le_trans (s.evict_length_le nowMs) h
  · rw [hrecord]
    exact Inner.backstop_length_le _

theorem Inner.record_params (s : Inner) (key : SeenKey) (nowMs : Int) :
    (s.record key nowMs).snd.windowMs = s.windowMs ∧
      (s.record key nowMs).snd.capacity = s.capacity := by
  rcases s.record_cases key nowMs with hrecord | ⟨_, hrecord⟩
  all_goals
    rw [hrecord]
    exact ⟨rfl, rfl⟩

end Ringed

/-!
## One call
-/

theorem step_cases {w w' : World} {op : Op} (h : step w op = some w') :
    (exists key nowMs, op.asks = some (key, nowMs) ∧
      w'.inner = (w.inner.record key nowMs).snd) ∨
    (exists r, op = .commit r ∧ w'.inner = w.inner) ∨
    (exists r, op = .drop r ∧ r ∈ w.held ∧
      w'.inner = { w.inner with seen := w.inner.seen.forget r.key r.generation }) := by
  cases op with
  | checkAndRecord key nowMs =>
      cases h
      exact Or.inl ⟨key, nowMs, rfl, rfl⟩
  | reserve key nowMs =>
      cases h
      refine Or.inl ⟨key, nowMs, rfl, ?_⟩
      unfold World.reserve
      rcases w.inner.record key nowMs with ⟨generation, inner⟩
      cases generation with
      | none => rfl
      | some generation => rfl
  | commit r =>
      unfold step at h
      simp only [] at h
      split at h
      · cases h
        exact Or.inr (Or.inl ⟨r, rfl, rfl⟩)
      · cases h
  | drop r =>
      unfold step at h
      simp only [] at h
      split at h
      · rename_i hheld
        cases h
        exact Or.inr (Or.inr ⟨r, rfl, hheld, rfl⟩)
      · cases h

/-- The store of a run: its parameters, its ring within the capacity, its keys in the ring. -/
structure World.Kept (windowMs : Int) (capacity : Nat) (w : World) : Prop where
  sameWindow : w.inner.windowMs = windowMs
  sameCapacity : w.inner.capacity = capacity
  ringed : w.inner.Ringed
  bounded : w.inner.order.length <= capacity

section Kept

variable {windowMs : Int} {capacity : Nat} {w w' : World} {op : Op}

theorem World.Kept.new : (World.new windowMs capacity).Kept windowMs capacity where
  sameWindow := rfl
  sameCapacity := rfl
  ringed := Inner.Ringed.new windowMs capacity
  bounded := Nat.zero_le _

theorem World.Kept.step (h : w.Kept windowMs capacity) (hstep : step w op = some w') :
    w'.Kept windowMs capacity := by
  rcases step_cases hstep with ⟨key, nowMs, _, hinner⟩ | ⟨r, _, hinner⟩ | ⟨r, _, _, hinner⟩
  · have hparams := w.inner.record_params key nowMs
    have hlength : w.inner.order.length <= w.inner.capacity := by
      rw [h.sameCapacity]
      exact h.bounded
    constructor
    · rw [hinner, hparams.left, h.sameWindow]
    · rw [hinner, hparams.right, h.sameCapacity]
    · rw [hinner]
      exact h.ringed.record key nowMs
    · rw [hinner, ← h.sameCapacity]
      exact Inner.record_length_le hlength
  · constructor
    · rw [hinner, h.sameWindow]
    · rw [hinner, h.sameCapacity]
    · rw [hinner]
      exact h.ringed
    · rw [hinner]
      exact h.bounded
  · constructor
    · rw [hinner]
      exact h.sameWindow
    · rw [hinner]
      exact h.sameCapacity
    · rw [hinner]
      exact h.ringed.forget r.key r.generation
    · rw [hinner]
      exact h.bounded

theorem World.Kept.run {ops : List Op} (h : w.Kept windowMs capacity)
    (hrun : run? Dedup.step w ops = some w') : w'.Kept windowMs capacity :=
  run?_invariant (fun _ _ _ hkept hstep => hkept.step hstep) h hrun

theorem Inner.Ringed.one_entry {s : Inner} (h : s.Ringed) {key : SeenKey} {time : Int}
    {generation : Nat} (hseen : s.seen key = some (time, generation)) :
    s.order.countP (fun e => decide (e.key = key ∧ e.generation = generation)) = 1 := by
  have hmem := h.ringed key time generation hseen
  apply le_antisymm
  · have hnodup : (s.order.map Entry.generation).Nodup := h.rising.imp Nat.ne_of_lt
    calc s.order.countP (fun e => decide (e.key = key ∧ e.generation = generation))
        <= s.order.countP (fun e => e.generation == generation) := by
          apply countP_mono_left
          intro e _ he
          rw [decide_eq_true_iff] at he
          exact beq_iff_eq.mpr he.right
      _ = (s.order.map Entry.generation).count generation := by
          rw [List.count, countP_map]
          rfl
      _ <= 1 := nodup_iff_count_le_one.mp hnodup generation
  · exact countP_pos_iff.mpr ⟨_, hmem, by simp⟩

theorem Inner.Ringed.keys_le {s : Inner} (h : s.Ringed) :
    exists keys : Finset SeenKey, (forall k, k ∈ keys <-> s.seen k ≠ none) ∧
      keys.card <= s.order.length := by
  refine ⟨((s.order.filter (fun e =>
    decide (s.seen e.key ≠ none))).map Entry.key).toFinset, ?_, ?_⟩
  · intro k
    rw [mem_toFinset, mem_map]
    constructor
    · rintro ⟨e, he, rfl⟩
      exact of_decide_eq_true (mem_filter.mp he).right
    · intro hk
      rcases Option.ne_none_iff_exists'.mp hk with ⟨⟨time, generation⟩, hseen⟩
      exact ⟨_, mem_filter.mpr ⟨h.ringed k time generation hseen, decide_eq_true hk⟩, rfl⟩
  · calc _ <= _ := toFinset_card_le _
      _ <= s.order.length := by
        rw [length_map]
        exact length_filter_le _ _

end Kept

/-!
## Two claims of one key
-/

/-- How many calls of a run claim a key. -/
def insertions : World -> List Op -> Nat
  | _, [] => 0
  | w, op :: rest =>
      (op.claims w).toList.length +
        match step w op with
        | none => 0
        | some w' => insertions w' rest

/-- The key is in the set with an insertion that has so many others behind it. -/
def Inner.Tracks (s : Inner) (e : Entry) (behind : Nat) : Prop :=
  s.seen e.key = some (e.seenAtMs, e.generation) ∧
    exists front back, s.order = front ++ e :: back ∧ back.length = behind

/-- What frees a claimed key: its rollback, its age, or the insertions behind it. -/
inductive Freed (windowMs : Int) (capacity : Nat) (e : Entry) (ops : List Op)
    (behind : Nat) : Prop where
  | rollback (h : Op.drop ⟨e.key, e.generation⟩ ∈ ops)
  | window (nowMs : Int) (hreading : nowMs ∈ readings ops)
      (h : windowMs < nowMs - e.seenAtMs)
  | pressure (h : capacity <= behind)

theorem Inner.Tracks.drained {s : Inner} {e : Entry} {behind : Nat} (h : s.Tracks e behind)
    {due : Entry -> List Entry -> Bool} {seen : Seen} {popped order : List Entry}
    (hrising : (s.order.map Entry.generation).Pairwise (· < ·)) (hsplit : s.order = popped ++ order)
    (hdrained : Drained due s.seen seen popped order) :
    ({ s with seen := seen, order := order } : Inner).Tracks e behind ∨
      exists back, back.length = behind ∧ due e back = true := by
  rcases h with ⟨hseen, front, back, horder, hbehind⟩
  have hstays : forall mid, front = popped ++ mid -> order = mid ++ e :: back ->
      ({ s with seen := seen, order := order } : Inner).Tracks e behind := by
    intro mid hfront hmid
    refine ⟨(hdrained.keys _ _).mpr ⟨hseen, ?_⟩, mid, back, hmid, hbehind⟩
    rintro p hp ⟨_, hgeneration⟩
    rw [horder, map_append, map_cons, pairwise_append] at hrising
    have hin : p ∈ front := by
      rw [hfront]
      exact mem_append_left _ hp
    have hlt := hrising.right.right _ (mem_map_of_mem hin) _ mem_cons_self
    rw [hgeneration] at hlt
    exact lt_irrefl _ hlt
  rw [horder] at hsplit
  rcases append_eq_append_iff.mp hsplit with ⟨mid, hpopped, hback⟩ | ⟨mid, hfront, hmid⟩
  · cases mid with
    | nil =>
        rw [append_nil] at hpopped
        exact Or.inl (hstays [] (by rw [append_nil, hpopped]) hback.symm)
    | cons head mid =>
        cases hback
        exact Or.inr ⟨_, hbehind, hdrained.overdue front e mid hpopped⟩
  · exact Or.inl (hstays mid hfront hmid)

/-- The cutoff of a reading does not leave the range of `i64`. -/
def Fits (windowMs nowMs : Int) : Prop :=
  -2 ^ 63 <= nowMs - windowMs ∧ nowMs - windowMs < 2 ^ 63

theorem i64Sub_of_fits {windowMs nowMs : Int} (h : Fits windowMs nowMs) :
    i64Sub nowMs windowMs = nowMs - windowMs := by
  unfold Fits at h
  unfold i64Sub
  apply Int.bmod_eq_of_le
  · omega
  · omega

section Claims

variable {windowMs nowMs : Int} {capacity behind : Nat} {w w' : World} {op : Op} {e : Entry}
  {s : Inner}

theorem Inner.Tracks.evict (h : s.Tracks e behind) (hringed : s.Ringed)
    (hfits : Fits s.windowMs nowMs) :
    (s.evict nowMs).Tracks e behind ∨ s.windowMs < nowMs - e.seenAtMs := by
  rcases drain_spec (fun first _ => decide (first.seenAtMs < i64Sub nowMs s.windowMs)) s.seen
    s.order with ⟨popped, hsplit, hdrained⟩
  rcases h.drained hringed.rising hsplit hdrained with htracks | ⟨back, _, hdue⟩
  · exact Or.inl htracks
  · rw [decide_eq_true_iff, i64Sub_of_fits hfits] at hdue
    exact Or.inr (by omega)

theorem Inner.Tracks.backstop (h : s.Tracks e behind) (hringed : s.Ringed) :
    s.backstop.Tracks e behind ∨ s.capacity <= behind := by
  rcases drain_spec (fun _ rest => decide (s.capacity < rest.length + 1)) s.seen s.order with
    ⟨popped, hsplit, hdrained⟩
  rcases h.drained hringed.rising hsplit hdrained with htracks | ⟨back, hbehind, hdue⟩
  · exact Or.inl htracks
  · rw [decide_eq_true_iff] at hdue
    exact Or.inr (by omega)

variable {key : SeenKey} {ops : List Op}

theorem Inner.Tracks.push (h : s.Tracks e behind) (hkey : s.seen key = none) (nowMs : Int)
    (generation : Nat) : (s.push key nowMs generation).Tracks e (behind + 1) := by
  rcases h with ⟨hseen, front, back, horder, hbehind⟩
  have hne : e.key ≠ key := by
    intro heq
    rw [heq, hkey] at hseen
    cases hseen
  refine ⟨?_, front, back ++ [⟨nowMs, key, generation⟩], ?_, ?_⟩
  · rw [Inner.push_seen, if_neg hne]
    exact hseen
  · show s.order ++ _ = _
    rw [horder, append_assoc, cons_append]
  · rw [length_append, hbehind]
    rfl

theorem Inner.Tracks.forget {r : SeenReservation} (h : s.Tracks e behind)
    (hr : r ≠ ⟨e.key, e.generation⟩) :
    ({ s with seen := s.seen.forget r.key r.generation } : Inner).Tracks e behind := by
  refine ⟨Seen.forget_eq_some_iff.mpr ⟨h.left, ?_⟩, h.right⟩
  rintro ⟨hkey, hgeneration⟩
  cases r with
  | mk key generation =>
      cases hkey
      cases hgeneration
      exact hr rfl

theorem Op.claims_of_asks (h : op.asks = some (key, nowMs)) :
    op.claims w =
      (w.inner.record key nowMs).fst.map (fun generation => ⟨nowMs, key, generation⟩) := by
  unfold Op.claims
  rw [h]

theorem Op.claims_of_not_asks (h : op.asks = none) : op.claims w = none := by
  unfold Op.claims
  rw [h]

theorem Op.claims_new (hclaims : op.claims w = some e) :
    op.asks = some (e.key, e.seenAtMs) ∧ (w.inner.evict e.seenAtMs).seen e.key = none ∧
      e.generation = w.inner.nextGeneration + 1 ∧
      (w.inner.record e.key e.seenAtMs).snd =
        ((w.inner.evict e.seenAtMs).push e.key e.seenAtMs e.generation).backstop := by
  cases hasks : op.asks with
  | none =>
      rw [Op.claims_of_not_asks hasks] at hclaims
      cases hclaims
  | some asked =>
      rcases asked with ⟨key, nowMs⟩
      rw [Op.claims_of_asks hasks] at hclaims
      rcases w.inner.record_cases key nowMs with hrecord | ⟨hnew, hrecord⟩
      · rw [hrecord] at hclaims
        cases hclaims
      · rw [hrecord] at hclaims
        cases hclaims
        exact ⟨rfl, hnew, rfl, congrArg Prod.snd hrecord⟩

theorem inner_of_asks (hasks : op.asks = some (key, nowMs)) (hstep : step w op = some w') :
    w'.inner = (w.inner.record key nowMs).snd := by
  rcases step_cases hstep with ⟨key', nowMs', hasks', hinner⟩ | ⟨r, rfl, _⟩ | ⟨r, rfl, _, _⟩
  · rw [hasks] at hasks'
    cases hasks'
    exact hinner
  · cases hasks
  · cases hasks

theorem tracks_of_claims (hkept : w.Kept windowMs capacity) (hclaims : op.claims w = some e)
    (hstep : step w op = some w') : w'.inner.Tracks e 0 ∨ capacity <= 0 := by
  rcases Op.claims_new hclaims with ⟨hasks, hnew, hgeneration, hrecord⟩
  have hpushed : ((w.inner.evict e.seenAtMs).push e.key e.seenAtMs e.generation).Tracks e 0 := by
    refine ⟨?_, (w.inner.evict e.seenAtMs).order, [], rfl, rfl⟩
    rw [Inner.push_seen, if_pos rfl]
  have hringed := (hkept.ringed.evict e.seenAtMs).push e.key e.seenAtMs
  rw [inner_of_asks hasks hstep, hrecord, ← hkept.sameCapacity]
  apply hpushed.backstop
  rw [hgeneration]
  exact hringed

theorem tracks_step (hkept : w.Kept windowMs capacity) (h : w.inner.Tracks e behind)
    (hfits : forall nowMs, nowMs ∈ readings [op] -> Fits windowMs nowMs)
    (hstep : step w op = some w') :
    w'.inner.Tracks e (behind + (op.claims w).toList.length) ∨
      Freed windowMs capacity e [op] (behind + (op.claims w).toList.length) := by
  rcases step_cases hstep with ⟨key, nowMs, hasks, hinner⟩ | ⟨r, rfl, hinner⟩ |
    ⟨r, rfl, _, hinner⟩
  · have hreading : nowMs ∈ readings [op] := by
      simp [readings, hasks]
    have hfit := hfits nowMs hreading
    rw [← hkept.sameWindow] at hfit
    rw [Op.claims_of_asks hasks, hinner]
    rcases h.evict hkept.ringed hfit with hevicted | hold
    · rcases w.inner.record_cases key nowMs with hrecord | ⟨hnew, hrecord⟩
      · rw [hrecord]
        exact Or.inl hevicted
      · rw [hrecord]
        have hpushed := hevicted.push hnew nowMs (w.inner.nextGeneration + 1)
        rcases hpushed.backstop ((hkept.ringed.evict nowMs).push key nowMs) with
          htracks | hpressure
        · exact Or.inl htracks
        · apply Or.inr
          apply Freed.pressure
          rw [← hkept.sameCapacity]
          exact hpressure
    · apply Or.inr
      apply Freed.window nowMs hreading
      rw [← hkept.sameWindow]
      exact hold
  · rw [hinner, Op.claims_of_not_asks rfl]
    exact Or.inl h
  · by_cases hr : r = ⟨e.key, e.generation⟩
    · apply Or.inr
      apply Freed.rollback
      rw [hr]
      exact mem_singleton_self _
    · rw [hinner, Op.claims_of_not_asks rfl]
      exact Or.inl (h.forget hr)

theorem readings_append (front back : List Op) :
    readings (front ++ back) = readings front ++ readings back :=
  filterMap_append

theorem mem_readings_cons :
    nowMs ∈ readings (op :: ops) <-> nowMs ∈ readings [op] ∨ nowMs ∈ readings ops := by
  rw [← singleton_append, readings_append, mem_append]

theorem Freed.of_first {more : Nat} (h : Freed windowMs capacity e [op] behind) :
    Freed windowMs capacity e (op :: ops) (behind + more) := by
  cases h with
  | rollback h =>
      rw [mem_singleton] at h
      subst h
      exact Freed.rollback mem_cons_self
  | window nowMs hreading h =>
      exact Freed.window nowMs (mem_readings_cons.mpr (Or.inl hreading)) h
  | pressure h =>
      exact Freed.pressure (le_trans h (Nat.le_add_right _ _))

theorem Freed.of_rest (h : Freed windowMs capacity e ops behind) :
    Freed windowMs capacity e (op :: ops) behind := by
  cases h with
  | rollback h =>
      exact Freed.rollback (mem_cons_of_mem _ h)
  | window nowMs hreading h =>
      exact Freed.window nowMs (mem_readings_cons.mpr (Or.inr hreading)) h
  | pressure h =>
      exact Freed.pressure h

theorem tracks_run (hkept : w.Kept windowMs capacity) (h : w.inner.Tracks e behind)
    (hfits : forall nowMs, nowMs ∈ readings ops -> Fits windowMs nowMs)
    (hrun : run? step w ops = some w') :
    w'.inner.Tracks e (behind + insertions w ops) ∨
      Freed windowMs capacity e ops (behind + insertions w ops) := by
  induction ops generalizing w behind with
  | nil =>
      cases hrun
      exact Or.inl h
  | cons op rest ih =>
      rcases run?_cons_some hrun with ⟨next, hstep, hrest⟩
      have hcount : insertions w (op :: rest) =
          (op.claims w).toList.length + insertions next rest := by
        simp only [insertions, hstep]
      rw [hcount, ← Nat.add_assoc]
      rcases tracks_step hkept h
        (fun t ht => hfits t (mem_readings_cons.mpr (Or.inl ht))) hstep with htracks | hfreed
      · rcases ih (hkept.step hstep) htracks
          (fun t ht => hfits t (mem_readings_cons.mpr (Or.inr ht))) hrest with hlater | hfreed
        · exact Or.inl hlater
        · exact Or.inr hfreed.of_rest
      · exact Or.inr hfreed.of_first

/-!
## What removes a key
-/

theorem Drained.keeps {due : Entry -> List Entry -> Bool} {seen seen' : Seen}
    {popped order' : List Entry} (h : Drained due seen seen' popped order')
    (hrising : ((popped ++ order').map Entry.generation).Pairwise (· < ·))
    (hseen : seen e.key = some (e.seenAtMs, e.generation)) (hmem : e ∈ order') :
    seen' e.key = some (e.seenAtMs, e.generation) := by
  refine (h.keys _ _).mpr ⟨hseen, ?_⟩
  rintro p hp ⟨_, hgeneration⟩
  rw [map_append, pairwise_append] at hrising
  have hlt := hrising.right.right _ (mem_map_of_mem hp) _ (mem_map_of_mem hmem)
  rw [hgeneration] at hlt
  exact lt_irrefl _ hlt

theorem Inner.Ringed.seen_evict (h : s.Ringed)
    (hseen : s.seen e.key = some (e.seenAtMs, e.generation)) (hmem : e ∈ (s.evict nowMs).order) :
    (s.evict nowMs).seen e.key = some (e.seenAtMs, e.generation) := by
  rcases drain_spec (fun first _ => decide (first.seenAtMs < i64Sub nowMs s.windowMs)) s.seen
    s.order with ⟨popped, hsplit, hdrained⟩
  have hrising := h.rising
  rw [hsplit] at hrising
  exact hdrained.keeps hrising hseen hmem

theorem Inner.Ringed.seen_backstop (h : s.Ringed)
    (hseen : s.seen e.key = some (e.seenAtMs, e.generation)) (hmem : e ∈ s.backstop.order) :
    s.backstop.seen e.key = some (e.seenAtMs, e.generation) := by
  rcases drain_spec (fun _ rest => decide (s.capacity < rest.length + 1)) s.seen s.order with
    ⟨popped, hsplit, hdrained⟩
  have hrising := h.rising
  rw [hsplit] at hrising
  exact hdrained.keeps hrising hseen hmem

theorem Inner.backstop_order_subset (s : Inner) : s.backstop.order ⊆ s.order := by
  rcases drain_spec (fun _ rest => decide (s.capacity < rest.length + 1)) s.seen s.order with
    ⟨popped, hsplit, _⟩
  intro e he
  rw [hsplit]
  exact mem_append_right _ he

theorem Inner.Ringed.seen_record (h : s.Ringed)
    (hseen : s.seen e.key = some (e.seenAtMs, e.generation))
    (hmem : e ∈ (s.record key nowMs).snd.order) :
    (s.record key nowMs).snd.seen e.key = some (e.seenAtMs, e.generation) := by
  rcases s.record_cases key nowMs with hrecord | ⟨hnew, hrecord⟩
  · rw [hrecord] at hmem ⊢
    exact h.seen_evict hseen hmem
  · rw [hrecord] at hmem ⊢
    have hold : e ∈ (s.evict nowMs).order := by
      rcases mem_append.mp (Inner.backstop_order_subset _ hmem) with hold | hlast
      · exact hold
      · have hbelow := h.below e (h.ringed _ _ _ hseen)
        rw [mem_singleton.mp hlast] at hbelow
        exact absurd hbelow (Nat.not_succ_le_self _)
    have hevicted := h.seen_evict hseen hold
    have hne : e.key ≠ key := by
      intro heq
      rw [heq, hnew] at hevicted
      cases hevicted
    apply ((h.evict nowMs).push key nowMs).seen_backstop _ hmem
    rw [Inner.push_seen, if_neg hne]
    exact hevicted

theorem removed_by_own (hkept : w.Kept windowMs capacity) (hstep : step w op = some w')
    (hseen : w.inner.seen e.key = some (e.seenAtMs, e.generation))
    (hgone : w'.inner.seen e.key ≠ some (e.seenAtMs, e.generation)) :
    op = .drop ⟨e.key, e.generation⟩ ∨ (e ∈ w.inner.order ∧ e ∉ w'.inner.order) := by
  have hmem := hkept.ringed.ringed _ _ _ hseen
  rcases step_cases hstep with ⟨key, nowMs, _, hinner⟩ | ⟨r, _, hinner⟩ | ⟨r, rfl, _, hinner⟩
  · rw [hinner] at hgone ⊢
    exact Or.inr ⟨hmem, fun hleft => hgone (hkept.ringed.seen_record hseen hleft)⟩
  · rw [hinner] at hgone
    exact absurd hseen hgone
  · rw [hinner] at hgone
    apply Or.inl
    by_contra hother
    apply hgone
    refine Seen.forget_eq_some_iff.mpr ⟨hseen, ?_⟩
    rintro ⟨hkey, hgeneration⟩
    cases r with
    | mk key generation =>
        cases hkey
        cases hgeneration
        exact hother rfl

theorem freed_between {a b : Op} {mid : List Op} {w₁ w₂ : World} {e' : Entry}
    (hkept : w.Kept windowMs capacity) (hfirst : a.claims w = some e)
    (hstep : step w a = some w₁) (hrun : run? step w₁ mid = some w₂)
    (hsecond : b.claims w₂ = some e') (hkey : e'.key = e.key)
    (hfits : forall nowMs, nowMs ∈ readings mid -> Fits windowMs nowMs)
    (hfits' : Fits windowMs e'.seenAtMs)
    (horder : forall nowMs, nowMs ∈ readings mid -> nowMs <= e'.seenAtMs) :
    .drop ⟨e.key, e.generation⟩ ∈ mid ∨ windowMs < e'.seenAtMs - e.seenAtMs ∨
      capacity <= insertions w₁ mid := by
  have hkept₁ := hkept.step hstep
  rcases tracks_of_claims hkept hfirst hstep with htracks | hzero
  · rcases tracks_run hkept₁ htracks hfits hrun with hlater | hfreed
    · have hkept₂ := hkept₁.run hrun
      have hfit := hfits'
      rw [← hkept₂.sameWindow] at hfit
      rcases hlater.evict hkept₂.ringed hfit with hleft | hold
      · have habsent := (Op.claims_new hsecond).right.left
        rw [hkey, hleft.left] at habsent
        cases habsent
      · rw [hkept₂.sameWindow] at hold
        exact Or.inr (Or.inl hold)
    · cases hfreed with
      | rollback h =>
          exact Or.inl h
      | window nowMs hreading h =>
          have hle := horder nowMs hreading
          exact Or.inr (Or.inl (by omega))
      | pressure h =>
          rw [Nat.zero_add] at h
          exact Or.inr (Or.inr h)
  · exact Or.inr (Or.inr (le_trans hzero (Nat.zero_le _)))

end Claims

/--
In every run under a clock that does not step back: a key in the set has exactly one ring
entry of its generation, and there are at most as many keys as the capacity; two claims of a
key have between them the rollback of the first, more than the window, or as many other
claims as the capacity; and a key is removed only with its own entry or reservation.
-/
theorem claims_exclusive {windowMs : Int} {capacity : Nat} {ops : List Op} {w : World}
    (hrun : run? step (World.new windowMs capacity) ops = some w)
    (hclock : (readings ops).Pairwise (· <= ·))
    (hfits : forall nowMs, nowMs ∈ readings ops -> Fits windowMs nowMs) :
    ((forall key time generation, w.inner.seen key = some (time, generation) ->
        w.inner.order.countP
          (fun e => decide (e.key = key ∧ e.generation = generation)) = 1) ∧
      exists keys : Finset SeenKey, (forall k, k ∈ keys <-> w.inner.seen k ≠ none) ∧
        keys.card <= capacity) ∧
    (forall front a mid b back w₀ w₁ w₂ e e', ops = front ++ a :: (mid ++ b :: back) ->
      run? step (World.new windowMs capacity) front = some w₀ ->
      step w₀ a = some w₁ -> run? step w₁ mid = some w₂ ->
      a.claims w₀ = some e -> b.claims w₂ = some e' -> e'.key = e.key ->
      .drop ⟨e.key, e.generation⟩ ∈ mid ∨ windowMs < e'.seenAtMs - e.seenAtMs ∨
        capacity <= insertions w₁ mid) ∧
    (forall op w' key time generation, step w op = some w' ->
      w.inner.seen key = some (time, generation) ->
      w'.inner.seen key ≠ some (time, generation) ->
      op = .drop ⟨key, generation⟩ ∨
        (⟨time, key, generation⟩ ∈ w.inner.order ∧
          ⟨time, key, generation⟩ ∉ w'.inner.order)) := by
  have hkept : w.Kept windowMs capacity := World.Kept.new.run hrun
  refine ⟨⟨?_, ?_⟩, ?_, ?_⟩
  · intro key time generation hseen
    exact hkept.ringed.one_entry hseen
  · rcases hkept.ringed.keys_le with ⟨keys, hkeys, hcard⟩
    exact ⟨keys, hkeys, le_trans hcard hkept.bounded⟩
  · intro front a mid b back w₀ w₁ w₂ e e' hsplit hfront hstep hmid hfirst hsecond hkey
    have hasks := (Op.claims_new hsecond).left
    have hlast : readings (b :: back) = e'.seenAtMs :: readings back := by
      simp [readings, hasks]
    have hreadings : readings ops =
        readings front ++ (readings [a] ++ (readings mid ++ readings (b :: back))) := by
      rw [hsplit, readings_append, ← singleton_append, readings_append, readings_append]
    have hinside : forall nowMs, nowMs ∈ readings mid -> nowMs ∈ readings ops := by
      intro nowMs hmem
      rw [hreadings]
      simp [hmem]
    have hreading : e'.seenAtMs ∈ readings ops := by
      rw [hreadings, hlast]
      simp
    apply freed_between (World.Kept.new.run hfront) hfirst hstep hmid hsecond hkey
    · intro nowMs hmem
      exact hfits nowMs (hinside nowMs hmem)
    · exact hfits _ hreading
    · intro nowMs hmem
      rw [hreadings, hlast] at hclock
      have htail := (pairwise_append.mp (pairwise_append.mp hclock).right.left).right.left
      exact (pairwise_append.mp htail).right.right nowMs hmem _ mem_cons_self
  · intro op w' key time generation hstep hseen hgone
    exact removed_by_own (e := ⟨time, key, generation⟩) hkept hstep hseen hgone

/-- A reservation rolled back and taken again, a refused copy, and a renewal by age. -/
def echoes : List Op :=
  [.reserve (.ftn "2:250/1 dead") 0, .drop ⟨.ftn "2:250/1 dead", 1⟩,
    .reserve (.ftn "2:250/1 dead") 5, .checkAndRecord (.ftn "2:250/1 dead") 11,
    .checkAndRecord (.event 7) 11, .checkAndRecord (.ftn "2:250/1 dead") 20,
    .drop ⟨.ftn "2:250/1 dead", 2⟩]

theorem claims_exclusive_echoes :
    exists w, run? step (World.new 10 2) echoes = some w ∧
      (exists keys : Finset SeenKey, (forall k, k ∈ keys <-> w.inner.seen k ≠ none) ∧
        keys.card <= 2) ∧ w.inner.seen (.ftn "2:250/1 dead") = some (20, 4) := by
  have hdefined : exists w, run? step (World.new 10 2) echoes = some w ∧
      w.inner.seen (.ftn "2:250/1 dead") = some (20, 4) := by
    refine ⟨_, rfl, ?_⟩
    decide
  rcases hdefined with ⟨w, hrun, hseen⟩
  have hfits : forall nowMs, nowMs ∈ readings echoes -> Fits 10 nowMs := by
    unfold Fits
    decide
  exact ⟨w, hrun, (claims_exclusive hrun (by decide) hfits).left.right, hseen⟩

end Rabbithole.Dedup
