import Mathlib.Logic.Function.Basic

/-!
# Stamped memo tables

Answers are kept under a key, with a stamp; only those of the current stamp count.  A table is
sound when what it keeps for an input's key is the input's answer, and stays so if the key
determines the answer.
-/

namespace Rabbithole.Foundation

open Function

/-- Stamped answers by key. -/
abbrev Memo (key stamp value : Type*) := key -> Option (stamp × value)

namespace Memo

variable {input key stamp value : Type*}

/-- The answer under a key, if it is of the current stamp. -/
def current [DecidableEq stamp] (memo : Memo key stamp value) (now : stamp) (k : key) :
    Option value :=
  match memo k with
  | some (made, v) => if made = now then some v else none
  | none => none

def insert [DecidableEq key] (memo : Memo key stamp value) (k : key) (entry : stamp × value) :
    Memo key stamp value :=
  Function.update memo k (some entry)

def cleared : Memo key stamp value :=
  fun _ => none

/-- What the table keeps for a valid input is its answer. -/
def Sound [DecidableEq stamp] (valid : input -> Prop) (keyOf : input -> key)
    (answer : input -> value) (now : stamp) (memo : Memo key stamp value) : Prop :=
  forall x, valid x -> forall v, memo.current now (keyOf x) = some v -> v = answer x

variable [DecidableEq stamp] {valid : input -> Prop} {keyOf : input -> key}
  {answer : input -> value} {now : stamp} {memo : Memo key stamp value}

theorem sound_cleared : Sound valid keyOf answer now (cleared : Memo key stamp value) := by
  intro x hx v hv
  cases hv

theorem current_insert [DecidableEq key] (k k' : key) (v : value) :
    (memo.insert k (now, v)).current now k' =
      if k' = k then some v else memo.current now k' := by
  unfold current insert
  by_cases h : k' = k
  · subst h
    simp
  · rw [update_of_ne h, if_neg h]

theorem Sound.insert [DecidableEq key] {x : input} (h : Sound valid keyOf answer now memo)
    (hkey : forall y, valid y -> keyOf y = keyOf x -> answer y = answer x) :
    Sound valid keyOf answer now (memo.insert (keyOf x) (now, answer x)) := by
  intro y hy v hv
  rw [current_insert] at hv
  split at hv
  · rename_i heq
    cases hv
    exact (hkey y hy heq).symm
  · exact h y hy v hv

end Memo

/-!
# A table and its mirror

A call changes the table for one key, and brings the change to the mirror in a step of its
own.  The mirror answers right for the keys no call has still to bring a change of, as long
as no change is brought after the table was changed the other way, with nobody left to bring
that.
-/

@[ext] structure WriteThrough (caller key : Type*) where
  table : key -> Bool
  mirror : key -> Bool
  /-- What each call has changed in the table and not in the mirror. -/
  pending : caller -> Option (key × Bool)

namespace WriteThrough

variable {caller key : Type*} {w : WriteThrough caller key} {c : caller} {k : key} {p : Bool}

/-- No call has a change of the key to bring. -/
def Quiet (w : WriteThrough caller key) (k : key) : Prop :=
  forall c p, w.pending c ≠ some (k, p)

def Settled (w : WriteThrough caller key) : Prop :=
  forall k, w.Quiet k -> w.mirror k = w.table k

/-- The table is as the call left it, or another call still comes to the mirror. -/
def InTime (w : WriteThrough caller key) (c : caller) (k : key) (p : Bool) : Prop :=
  w.table k = p ∨ exists c' p', c' ≠ c ∧ w.pending c' = some (k, p')

theorem Settled.agrees (h : w.Settled) (hidle : forall c, w.pending c = none) :
    w.mirror = w.table := by
  funext k
  apply h k
  intro c p hpending
  rw [hidle c] at hpending
  cases hpending

/-!
## Changes
-/

variable [DecidableEq caller] [DecidableEq key]

/-- A call puts a key into the table, or takes it out. -/
def store (w : WriteThrough caller key) (c : caller) (k : key) (p : Bool) :
    WriteThrough caller key where
  table := Function.update w.table k p
  mirror := w.mirror
  pending := Function.update w.pending c (some (k, p))

/-- The call does the same with the mirror. -/
def bring (w : WriteThrough caller key) (c : caller) (k : key) (p : Bool) :
    WriteThrough caller key where
  table := w.table
  mirror := Function.update w.mirror k p
  pending := Function.update w.pending c none

theorem pending_store (c' : caller) :
    (w.store c k p).pending c' = if c' = c then some (k, p) else w.pending c' :=
  update_apply w.pending c (some (k, p)) c'

theorem pending_bring (c' : caller) :
    (w.bring c k p).pending c' = if c' = c then none else w.pending c' :=
  update_apply w.pending c none c'

theorem Settled.store (h : w.Settled) (hfree : w.pending c = none) : (w.store c k p).Settled := by
  intro k' hquiet
  have hother : k' ≠ k := by
    rintro rfl
    apply hquiet c p
    rw [pending_store, if_pos rfl]
  have hbefore : w.Quiet k' := by
    intro c' p' hpending
    have hcaller : c' ≠ c := by
      rintro rfl
      rw [hfree] at hpending
      cases hpending
    apply hquiet c' p'
    rw [pending_store, if_neg hcaller]
    exact hpending
  show w.mirror k' = Function.update w.table k p k'
  rw [update_of_ne hother]
  exact h k' hbefore

theorem quiet_bring :
    (w.bring c k p).Quiet k <->
      forall c' p', c' ≠ c -> w.pending c' ≠ some (k, p') := by
  constructor
  · intro hquiet c' p' hcaller hother
    apply hquiet c' p'
    rw [pending_bring, if_neg hcaller]
    exact hother
  · intro hnone c' p' hother
    rw [pending_bring] at hother
    split at hother
    · cases hother
    · rename_i hcaller
      exact hnone c' p' hcaller hother

theorem Settled.bring (h : w.Settled) (hpending : w.pending c = some (k, p))
    (htime : w.InTime c k p) : (w.bring c k p).Settled := by
  intro k' hquiet
  show Function.update w.mirror k p k' = w.table k'
  by_cases hkey : k' = k
  · rw [hkey, update_self]
    rw [hkey] at hquiet
    rcases htime with htable | ⟨c', p', hcaller, hother⟩
    · exact htable.symm
    · exact absurd hother (quiet_bring.mp hquiet c' p' hcaller)
  · rw [update_of_ne hkey]
    apply h k'
    intro c' p' hother
    have hcaller : c' ≠ c := by
      rintro rfl
      rw [hpending] at hother
      cases hother
      exact hkey rfl
    apply hquiet c' p'
    rw [pending_bring, if_neg hcaller]
    exact hother

theorem wrong_of_late (hlate : ¬ w.InTime c k p) :
    (w.bring c k p).Quiet k ∧ (w.bring c k p).mirror k ≠ (w.bring c k p).table k := by
  unfold InTime at hlate
  rw [not_or] at hlate
  constructor
  · rw [quiet_bring]
    intro c' p' hcaller hother
    exact hlate.right ⟨c', p', hcaller, hother⟩
  · show Function.update w.mirror k p k ≠ w.table k
    rw [update_self]
    exact Ne.symm hlate.left

end WriteThrough

end Rabbithole.Foundation
