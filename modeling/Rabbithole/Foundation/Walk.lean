import Mathlib.Data.List.Nodup
import Mathlib.Data.List.Perm.Subperm

/-!
# Walking a forest with a stack

What is on top of the stack is visited and what is below it is pushed.  Where nothing is
below two things or below itself, the walk comes to an end and has visited whatever is
reached from the start, each once.
-/

namespace Rabbithole.Foundation
namespace Walk

open List

variable {α : Type*} (below : α -> List α)

/-- The stack has its top first. -/
def walk : Nat -> List α -> List α -> Option (List α)
  | 0, _, _ => none
  | _ + 1, [], visited => some visited
  | fuel + 1, p :: stack, visited =>
      walk fuel ((below p).reverse ++ stack) (visited ++ [p])

inductive Reached (start : α) : α -> Prop where
  | start : Reached start start
  | step (p q : α) (hp : Reached start p) (hq : q ∈ below p) : Reached start q

structure Forest (start : α) : Prop where
  nodup : forall p, (below p).Nodup
  apart : forall p q r, r ∈ below p -> r ∈ below q -> p = q
  top : forall p, start ∉ below p

variable {below}

/-- What holds between two turns. -/
structure Between (below : α -> List α) (start : α) (visited stack : List α) : Prop where
  nodup : (visited ++ stack).Nodup
  reached : forall p, p ∈ visited ++ stack -> Reached below start p
  started : start ∈ visited ++ stack
  /-- Whatever was found was found below something visited. -/
  came : forall q, q ∈ visited ++ stack -> q = start ∨ exists p, p ∈ visited ∧ q ∈ below p
  closed : forall p, p ∈ visited -> below p ⊆ visited ++ stack

theorem between_start (start : α) : Between below start [] [start] where
  nodup := nodup_singleton start
  reached := fun _ hp => mem_singleton.mp hp ▸ .start
  started := mem_singleton_self start
  came := fun _ hq => Or.inl (mem_singleton.mp hq)
  closed := fun _ hp => absurd hp not_mem_nil

/-- A turn keeps it: what is pushed was not there, as it is below nothing else. -/
theorem Between.turn {start p : α} {visited stack : List α} (hforest : Forest below start)
    (h : Between below start visited (p :: stack)) :
    Between below start (visited ++ [p]) ((below p).reverse ++ stack) := by
  have hperm : (visited ++ [p] ++ ((below p).reverse ++ stack)).Perm
      ((below p).reverse ++ (visited ++ p :: stack)) := by
    have hsplit : visited ++ p :: stack = visited ++ [p] ++ stack := by simp
    rw [hsplit, ← append_assoc, ← append_assoc]
    exact Perm.append_right stack perm_append_comm
  have hmem : forall q, q ∈ visited ++ [p] ++ ((below p).reverse ++ stack) <->
      q ∈ below p ∨ q ∈ visited ++ p :: stack := by
    intro q
    rw [hperm.mem_iff, mem_append, mem_reverse]
  have hp : p ∉ visited := by
    intro hin
    have hdisj := (nodup_append.mp h.nodup).right.right
    exact hdisj p hin p mem_cons_self rfl
  constructor
  · rw [hperm.nodup_iff, nodup_append]
    refine ⟨nodup_reverse.mpr (hforest.nodup p), h.nodup, ?_⟩
    intro q hq r hr heq
    subst heq
    have hq' := mem_reverse.mp hq
    rcases h.came q hr with rfl | ⟨p', hp', hbelow⟩
    · exact hforest.top p hq'
    · exact hp (hforest.apart p p' q hq' hbelow ▸ hp')
  · intro q hq
    rcases (hmem q).mp hq with hbelow | hold
    · exact .step p q (h.reached p (mem_append_right _ mem_cons_self)) hbelow
    · exact h.reached q hold
  · exact (hmem start).mpr (Or.inr h.started)
  · intro q hq
    rcases (hmem q).mp hq with hbelow | hold
    · exact Or.inr ⟨p, mem_append_right _ (mem_singleton_self p), hbelow⟩
    · rcases h.came q hold with rfl | ⟨p', hp', hbelow⟩
      · exact Or.inl rfl
      · exact Or.inr ⟨p', mem_append_left _ hp', hbelow⟩
  · intro p' hp' q hq
    apply (hmem q).mpr
    rcases mem_append.mp hp' with hold | hnew
    · exact Or.inr (h.closed p' hold hq)
    · rw [mem_singleton.mp hnew] at hq
      exact Or.inl hq

theorem Between.all {start : α} {visited : List α} (h : Between below start visited []) {p : α}
    (hp : Reached below start p) : p ∈ visited := by
  induction hp with
  | start =>
      have hstart := h.started
      rw [append_nil] at hstart
      exact hstart
  | step p q _ hq ih =>
      have hclosed := h.closed p ih hq
      rw [append_nil] at hclosed
      exact hclosed

section

variable {start : α} {all : List α} (hforest : Forest below start)
  (hall : forall p, Reached below start p -> p ∈ all)
include hforest hall

theorem walk_from (fuel : Nat) {visited stack : List α} (h : Between below start visited stack)
    (hfuel : all.length < fuel + visited.length) :
    exists whole, walk below fuel stack visited = some whole ∧ Between below start whole [] := by
  induction fuel generalizing visited stack with
  | zero =>
      exfalso
      have hsub := (h.nodup.subperm (fun p hp => hall p (h.reached p hp))).length_le
      rw [length_append] at hsub
      omega
  | succ fuel ih =>
      cases stack with
      | nil => exact ⟨visited, rfl, h⟩
      | cons p stack =>
          apply ih (h.turn hforest)
          rw [length_append, length_singleton]
          omega

theorem walk_visits {fuel : Nat} (hfuel : all.length < fuel) :
    exists whole, walk below fuel [start] [] = some whole ∧ whole.Nodup ∧
      forall p, p ∈ whole <-> Reached below start p := by
  rcases walk_from hforest hall fuel (between_start start) hfuel with ⟨whole, hwalk, hend⟩
  refine ⟨whole, hwalk, ?_, ?_⟩
  · have hnodup := hend.nodup
    rw [append_nil] at hnodup
    exact hnodup
  · intro p
    constructor
    · intro hp
      exact hend.reached p (mem_append_left _ hp)
    · exact hend.all

end

end Walk
end Rabbithole.Foundation
