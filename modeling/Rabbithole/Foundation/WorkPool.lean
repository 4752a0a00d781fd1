import Mathlib.Data.Finset.Basic

/-!
# Work pools with duplicate copies

Workers draw units from a queue and land them.  A unit in flight may be taken again as a
copy, and whoever lands it first wins.  A worker that fails hands back what it took from
the queue, and lets go of a copy.

Every unit is in one of three collections, the queue repeats nothing, and a unit in flight
has one original holder.
-/

namespace Rabbithole.Foundation

open List Function

/-- A pool of work; the flag of a held unit tells a copy from the original. -/
structure Pool (unit worker : Type*) [DecidableEq unit] where
  pending : List unit
  inFlight : Finset unit
  done : Finset unit
  held : worker -> Option (unit × Bool)
  pending_nodup : pending.Nodup
  pending_inFlight : forall u, u ∈ pending -> u ∉ inFlight
  pending_done : forall u, u ∈ pending -> u ∉ done
  inFlight_done : forall u, u ∈ inFlight -> u ∉ done
  holder : forall u, u ∈ inFlight -> exists w, held w = some (u, false)
  holder_unique : forall u w w', held w = some (u, false) ->
    held w' = some (u, false) -> w = w'
  held_live : forall w u, held w = some (u, false) -> u ∈ inFlight ∨ u ∈ done
  held_known : forall w u c, held w = some (u, c) ->
    u ∈ pending ∨ u ∈ inFlight ∨ u ∈ done

namespace Pool

variable {unit worker : Type*} [DecidableEq unit]

/-- All units the pool accounts for. -/
def units (p : Pool unit worker) : Finset unit :=
  p.pending.toFinset ∪ p.inFlight ∪ p.done

theorem mem_units {p : Pool unit worker} {u : unit} :
    u ∈ p.units <-> u ∈ p.pending ∨ u ∈ p.inFlight ∨ u ∈ p.done := by
  unfold units
  rw [Finset.mem_union, Finset.mem_union, mem_toFinset, or_assoc]

/-- A fresh pool: nothing held, nothing in flight. -/
def fresh (pending : List unit) (done : Finset unit) (hnodup : pending.Nodup)
    (hdone : forall u, u ∈ pending -> u ∉ done) : Pool unit worker where
  pending := pending
  inFlight := ∅
  done := done
  held := fun _ => none
  pending_nodup := hnodup
  pending_inFlight := by
    intro u _ hu
    simp at hu
  pending_done := hdone
  inFlight_done := by
    intro u hu
    simp at hu
  holder := by
    intro u hu
    simp at hu
  holder_unique := by
    intro u w w' hw
    cases hw
  held_live := by
    intro w u hw
    cases hw
  held_known := by
    intro w u c hw
    cases hw

/-!
## Settling

Removing a done unit from both queues changes nothing: it is in neither.
-/

theorem pending_filter_of_done (p : Pool unit worker) {u : unit} (hu : u ∈ p.done) :
    p.pending.filter (fun v => decide (v ≠ u)) = p.pending := by
  rw [filter_eq_self]
  intro v hv
  have hne : v ≠ u := by
    intro h
    exact p.pending_done v hv (h ▸ hu)
  simpa using hne

theorem inFlight_erase_of_done (p : Pool unit worker) {u : unit}
    (hu : u ∈ p.done) : p.inFlight.erase u = p.inFlight := by
  apply Finset.erase_eq_of_notMem
  intro hin
  exact p.inFlight_done u hin hu

variable [DecidableEq worker]

omit [DecidableEq unit] in
theorem update_held_some {held : worker -> Option (unit × Bool)} {w w' : worker}
    {x : unit × Bool} (h : Function.update held w none w' = some x) :
    w' ≠ w ∧ held w' = some x := by
  by_cases heq : w' = w
  · subst heq
    rw [update_self] at h
    cases h
  · rw [update_of_ne heq] at h
    exact ⟨heq, h⟩

theorem holder_of_mem_erase (p : Pool unit worker) {w : worker} {u v : unit} {c : Bool}
    (hw : p.held w = some (u, c)) (hin : v ∈ p.inFlight.erase u) :
    exists w', Function.update p.held w none w' = some (v, false) := by
  rcases Finset.mem_erase.mp hin with ⟨hne, hvin⟩
  rcases p.holder v hvin with ⟨w', hw'⟩
  have heq : w' ≠ w := by
    intro h
    rw [h, hw] at hw'
    cases hw'
    exact hne rfl
  refine ⟨w', ?_⟩
  rw [update_of_ne heq]
  exact hw'

/-!
## Moves
-/

/-- A free worker takes a unit from the queue. -/
def take (p : Pool unit worker) (w : worker) (u : unit)
    (hfree : p.held w = none) (hu : u ∈ p.pending) : Pool unit worker where
  pending := p.pending.erase u
  inFlight := insert u p.inFlight
  done := p.done
  held := Function.update p.held w (some (u, false))
  pending_nodup := p.pending_nodup.erase u
  pending_inFlight := by
    intro v hv hin
    rw [p.pending_nodup.mem_erase_iff] at hv
    rcases Finset.mem_insert.mp hin with hvu | hvin
    · exact hv.left hvu
    · exact p.pending_inFlight v hv.right hvin
  pending_done := by
    intro v hv
    exact p.pending_done v (mem_of_mem_erase hv)
  inFlight_done := by
    intro v hin
    rcases Finset.mem_insert.mp hin with hvu | hvin
    · subst hvu
      exact p.pending_done v hu
    · exact p.inFlight_done v hvin
  holder := by
    intro v hin
    by_cases hvu : v = u
    · subst hvu
      exact ⟨w, by rw [update_self]⟩
    · rcases Finset.mem_insert.mp hin with h | hvin
      · exact absurd h hvu
      · rcases p.holder v hvin with ⟨w', hw'⟩
        have hne : w' ≠ w := by
          intro h
          rw [h, hfree] at hw'
          cases hw'
        exact ⟨w', by rw [update_of_ne hne]; exact hw'⟩
  holder_unique := by
    have hnew : forall w', w' ≠ w -> p.held w' ≠ some (u, false) := by
      intro w' _ hw'
      rcases p.held_live w' u hw' with hin | hdone
      · exact p.pending_inFlight u hu hin
      · exact p.pending_done u hu hdone
    intro v w1 w2 h1 h2
    by_cases hw1 : w1 = w
    · by_cases hw2 : w2 = w
      · rw [hw1, hw2]
      · rw [hw1, update_self] at h1
        rw [update_of_ne hw2] at h2
        cases h1
        exact absurd h2 (hnew w2 hw2)
    · rw [update_of_ne hw1] at h1
      by_cases hw2 : w2 = w
      · rw [hw2, update_self] at h2
        cases h2
        exact absurd h1 (hnew w1 hw1)
      · rw [update_of_ne hw2] at h2
        exact p.holder_unique v w1 w2 h1 h2
  held_live := by
    intro w' v hw'
    by_cases heq : w' = w
    · rw [heq, update_self] at hw'
      cases hw'
      exact Or.inl (Finset.mem_insert_self u p.inFlight)
    · rw [update_of_ne heq] at hw'
      rcases p.held_live w' v hw' with hin | hdone
      · exact Or.inl (Finset.mem_insert_of_mem hin)
      · exact Or.inr hdone
  held_known := by
    intro w' v c hw'
    by_cases heq : w' = w
    · rw [heq, update_self] at hw'
      cases hw'
      exact Or.inr (Or.inl (Finset.mem_insert_self u p.inFlight))
    · rw [update_of_ne heq] at hw'
      by_cases hvu : v = u
      · subst hvu
        exact Or.inr (Or.inl (Finset.mem_insert_self v p.inFlight))
      · rcases p.held_known w' v c hw' with hpend | hin | hdone
        · exact Or.inl ((mem_erase_of_ne hvu).mpr hpend)
        · exact Or.inr (Or.inl (Finset.mem_insert_of_mem hin))
        · exact Or.inr (Or.inr hdone)

/-- A free worker takes a copy of a unit in flight. -/
def copy (p : Pool unit worker) (w : worker) (u : unit)
    (hfree : p.held w = none) (hu : u ∈ p.inFlight) : Pool unit worker where
  pending := p.pending
  inFlight := p.inFlight
  done := p.done
  held := Function.update p.held w (some (u, true))
  pending_nodup := p.pending_nodup
  pending_inFlight := p.pending_inFlight
  pending_done := p.pending_done
  inFlight_done := p.inFlight_done
  holder := by
    intro v hin
    rcases p.holder v hin with ⟨w', hw'⟩
    have hne : w' ≠ w := by
      intro h
      rw [h, hfree] at hw'
      cases hw'
    exact ⟨w', by rw [update_of_ne hne]; exact hw'⟩
  holder_unique := by
    have hold : forall v w', Function.update p.held w (some (u, true)) w' =
        some (v, false) -> p.held w' = some (v, false) := by
      intro v w' h
      by_cases heq : w' = w
      · rw [heq, update_self] at h
        cases h
      · rw [update_of_ne heq] at h
        exact h
    intro v w1 w2 h1 h2
    exact p.holder_unique v w1 w2 (hold v w1 h1) (hold v w2 h2)
  held_live := by
    intro w' v hw'
    by_cases heq : w' = w
    · rw [heq, update_self] at hw'
      cases hw'
    · rw [update_of_ne heq] at hw'
      exact p.held_live w' v hw'
  held_known := by
    intro w' v c hw'
    by_cases heq : w' = w
    · rw [heq, update_self] at hw'
      cases hw'
      exact Or.inr (Or.inl hu)
    · rw [update_of_ne heq] at hw'
      exact p.held_known w' v c hw'

/-- A holder lands its unit, original or copy, and settles it. -/
def land (p : Pool unit worker) (w : worker) (u : unit) (c : Bool)
    (hw : p.held w = some (u, c)) : Pool unit worker where
  pending := p.pending.filter (fun v => decide (v ≠ u))
  inFlight := p.inFlight.erase u
  done := insert u p.done
  held := Function.update p.held w none
  pending_nodup := p.pending_nodup.filter _
  pending_inFlight := by
    intro v hv hin
    exact p.pending_inFlight v (mem_filter.mp hv).left
      (Finset.mem_of_mem_erase hin)
  pending_done := by
    intro v hv hdone
    rcases mem_filter.mp hv with ⟨hpend, hne⟩
    rcases Finset.mem_insert.mp hdone with hvu | hvd
    · simp [hvu] at hne
    · exact p.pending_done v hpend hvd
  inFlight_done := by
    intro v hin hdone
    rcases Finset.mem_erase.mp hin with ⟨hne, hvin⟩
    rcases Finset.mem_insert.mp hdone with hvu | hvd
    · exact hne hvu
    · exact p.inFlight_done v hvin hvd
  holder := fun _ hin => p.holder_of_mem_erase hw hin
  holder_unique := by
    intro v w1 w2 h1 h2
    exact p.holder_unique v w1 w2 (update_held_some h1).right
      (update_held_some h2).right
  held_live := by
    intro w' v hw'
    rcases p.held_live w' v (update_held_some hw').right with hin | hdone
    · by_cases hvu : v = u
      · subst hvu
        exact Or.inr (Finset.mem_insert_self v p.done)
      · exact Or.inl (Finset.mem_erase.mpr ⟨hvu, hin⟩)
    · exact Or.inr (Finset.mem_insert_of_mem hdone)
  held_known := by
    intro w' v c hw'
    by_cases hvu : v = u
    · subst hvu
      exact Or.inr (Or.inr (Finset.mem_insert_self v p.done))
    · rcases p.held_known w' v c (update_held_some hw').right with
        hpend | hin | hdone
      · exact Or.inl (mem_filter.mpr ⟨hpend, by simpa using hvu⟩)
      · exact Or.inr (Or.inl (Finset.mem_erase.mpr ⟨hvu, hin⟩))
      · exact Or.inr (Or.inr (Finset.mem_insert_of_mem hdone))

/-- A holder lets go of a unit that is done, or of a copy. -/
def letGo (p : Pool unit worker) (w : worker) (u : unit) (c : Bool)
    (hw : p.held w = some (u, c)) (hok : u ∈ p.done ∨ c = true) : Pool unit worker where
  pending := p.pending
  inFlight := p.inFlight
  done := p.done
  held := Function.update p.held w none
  pending_nodup := p.pending_nodup
  pending_inFlight := p.pending_inFlight
  pending_done := p.pending_done
  inFlight_done := p.inFlight_done
  holder := by
    intro v hin
    rcases p.holder v hin with ⟨w', hw'⟩
    have heq : w' ≠ w := by
      intro h
      rw [h, hw] at hw'
      cases hw'
      rcases hok with hdone | hcopy
      · exact p.inFlight_done u hin hdone
      · cases hcopy
    exact ⟨w', by rw [update_of_ne heq]; exact hw'⟩
  holder_unique := by
    intro v w1 w2 h1 h2
    exact p.holder_unique v w1 w2 (update_held_some h1).right
      (update_held_some h2).right
  held_live := by
    intro w' v hw'
    exact p.held_live w' v (update_held_some hw').right
  held_known := by
    intro w' v c' hw'
    exact p.held_known w' v c' (update_held_some hw').right

/-- The original holder of a unit that is not done puts it back in the queue. -/
def giveBack (p : Pool unit worker) (w : worker) (u : unit)
    (hw : p.held w = some (u, false)) (hu : u ∉ p.done) : Pool unit worker where
  pending := p.pending ++ [u]
  inFlight := p.inFlight.erase u
  done := p.done
  held := Function.update p.held w none
  pending_nodup := by
    have hin : u ∈ p.inFlight := by
      rcases p.held_live w u hw with h | h
      · exact h
      · exact absurd h hu
    rw [nodup_append]
    refine ⟨p.pending_nodup, nodup_singleton u, ?_⟩
    intro v hv v' hv' heq
    rw [mem_singleton] at hv'
    rw [heq, hv'] at hv
    exact p.pending_inFlight u hv hin
  pending_inFlight := by
    intro v hv hin
    rcases Finset.mem_erase.mp hin with ⟨hne, hvin⟩
    rcases mem_append.mp hv with hpend | hlast
    · exact p.pending_inFlight v hpend hvin
    · exact hne (mem_singleton.mp hlast)
  pending_done := by
    intro v hv
    rcases mem_append.mp hv with hpend | hlast
    · exact p.pending_done v hpend
    · rw [mem_singleton.mp hlast]
      exact hu
  inFlight_done := by
    intro v hin
    exact p.inFlight_done v (Finset.mem_of_mem_erase hin)
  holder := fun _ hin => p.holder_of_mem_erase hw hin
  holder_unique := by
    intro v w1 w2 h1 h2
    exact p.holder_unique v w1 w2 (update_held_some h1).right
      (update_held_some h2).right
  held_live := by
    intro w' v hw'
    rcases update_held_some hw' with ⟨hne, hold⟩
    rcases p.held_live w' v hold with hin | hdone
    · by_cases hvu : v = u
      · subst hvu
        exact absurd (p.holder_unique v w' w hold hw) hne
      · exact Or.inl (Finset.mem_erase.mpr ⟨hvu, hin⟩)
    · exact Or.inr hdone
  held_known := by
    intro w' v c hw'
    by_cases hvu : v = u
    · exact Or.inl (mem_append.mpr (Or.inr (mem_singleton.mpr hvu)))
    · rcases p.held_known w' v c (update_held_some hw').right with
        hpend | hin | hdone
      · exact Or.inl (mem_append.mpr (Or.inl hpend))
      · exact Or.inr (Or.inl (Finset.mem_erase.mpr ⟨hvu, hin⟩))
      · exact Or.inr (Or.inr hdone)

/-- One move of a pool. -/
inductive Move : Pool unit worker -> Pool unit worker -> Prop where
  | take (p : Pool unit worker) (w : worker) (u : unit)
      (hfree : p.held w = none) (hu : u ∈ p.pending) : Move p (p.take w u hfree hu)
  | copy (p : Pool unit worker) (w : worker) (u : unit)
      (hfree : p.held w = none) (hu : u ∈ p.inFlight) : Move p (p.copy w u hfree hu)
  | land (p : Pool unit worker) (w : worker) (u : unit) (c : Bool)
      (hw : p.held w = some (u, c)) (hu : u ∉ p.done) : Move p (p.land w u c hw)
  | letGo (p : Pool unit worker) (w : worker) (u : unit) (c : Bool)
      (hw : p.held w = some (u, c)) (hok : u ∈ p.done ∨ c = true) :
      Move p (p.letGo w u c hw hok)
  | giveBack (p : Pool unit worker) (w : worker) (u : unit)
      (hw : p.held w = some (u, false)) (hu : u ∉ p.done) :
      Move p (p.giveBack w u hw hu)

/-!
## What moves keep

No move loses or invents a unit, and no unit that is done stops being done.
-/

theorem Move.units_eq {p q : Pool unit worker} (h : Move p q) : q.units = p.units := by
  cases h with
  | take w u hfree hu =>
      ext v
      rw [mem_units, mem_units]
      show v ∈ p.pending.erase u ∨ v ∈ insert u p.inFlight ∨ v ∈ p.done <-> _
      by_cases hvu : v = u
      · subst hvu
        simp [hu]
      · simp [mem_erase_of_ne hvu, hvu]
  | copy w u hfree hu => rfl
  | land w u c hw hu =>
      ext v
      rw [mem_units, mem_units]
      show v ∈ p.pending.filter (fun v => decide (v ≠ u)) ∨
        v ∈ p.inFlight.erase u ∨ v ∈ insert u p.done <-> _
      by_cases hvu : v = u
      · subst hvu
        have hknown := p.held_known w v c hw
        simp [hknown]
      · simp [hvu]
  | letGo w u c hw hok => rfl
  | giveBack w u hw hu =>
      ext v
      rw [mem_units, mem_units]
      show v ∈ p.pending ++ [u] ∨ v ∈ p.inFlight.erase u ∨ v ∈ p.done <-> _
      by_cases hvu : v = u
      · subst hvu
        have hknown := p.held_known w v false hw
        simp [hknown]
      · simp [hvu]

theorem units_eq_of_reaches {p q : Pool unit worker}
    (h : Relation.ReflGen Move p q) : q.units = p.units := by
  cases h with
  | refl => rfl
  | single hmove => exact hmove.units_eq

end Pool

end Rabbithole.Foundation
