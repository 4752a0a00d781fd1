import Mathlib.Data.List.Count

/-!
# Numbering

The members of a list that satisfy a test, numbered from the end of the list on.  A list that
grows at its front keeps the numbers it has given.
-/

namespace Rabbithole.Foundation

open List

variable {α β : Type*} {test : α -> Bool}

def IsNth (test : α -> Bool) (x : α) (n : Nat) : List α -> Prop
  | [] => False
  | y :: rest => (y = x ∧ test y = true ∧ rest.countP test = n) ∨ IsNth test x n rest

theorem isNth_append_cons {x : α} (htest : test x = true) (front back : List α) :
    IsNth test x (back.countP test) (front ++ x :: back) := by
  induction front with
  | nil => exact Or.inl ⟨rfl, htest, rfl⟩
  | cons y front ih => exact Or.inr ih

namespace IsNth

variable {n : Nat} {xs : List α}

theorem passes {x : α} (h : IsNth test x n xs) : test x = true := by
  induction xs with
  | nil => cases h
  | cons y rest ih =>
      rcases h with ⟨rfl, htest, _⟩ | hrest
      · exact htest
      · exact ih hrest

theorem lt_countP {x : α} (h : IsNth test x n xs) : n < xs.countP test := by
  induction xs with
  | nil => cases h
  | cons y rest ih =>
      rw [countP_cons]
      rcases h with ⟨rfl, htest, rfl⟩ | hrest
      · rw [if_pos htest]
        exact Nat.lt_succ_self _
      · exact Nat.lt_add_right _ (ih hrest)

theorem unique {x y : α} (hx : IsNth test x n xs) (hy : IsNth test y n xs) : x = y := by
  induction xs with
  | nil => cases hx
  | cons z rest ih =>
      rcases hx with ⟨rfl, _, hn⟩ | hx
      · rcases hy with ⟨rfl, _, _⟩ | hy
        · rfl
        · exact absurd hn (Nat.ne_of_gt hy.lt_countP)
      · rcases hy with ⟨rfl, _, hn⟩ | hy
        · exact absurd hn (Nat.ne_of_gt hx.lt_countP)
        · exact ih hx hy

end IsNth

variable {xs : List α}

theorem exists_isNth {n : Nat} (h : n < xs.countP test) : exists x, IsNth test x n xs := by
  induction xs with
  | nil => cases h
  | cons y rest ih =>
      by_cases hrest : n < rest.countP test
      · rcases ih hrest with ⟨x, hx⟩
        exact ⟨x, Or.inr hx⟩
      · rw [countP_cons] at h
        by_cases htest : test y = true
        · rw [if_pos htest] at h
          exact ⟨y, Or.inl ⟨rfl, htest, by omega⟩⟩
        · rw [if_neg htest] at h
          exact absurd h hrest

theorem exists_isNth_of_mem {x : α} (hx : x ∈ xs) (htest : test x = true) :
    exists n, IsNth test x n xs := by
  rcases append_of_mem hx with ⟨front, back, rfl⟩
  exact ⟨_, isNth_append_cons htest front back⟩

theorem countP_le_of_image {ys : List β} {f : α -> β} {keep : α -> Bool} (hnodup : (xs.map f).Nodup)
    (himage : forall x, x ∈ xs -> keep x = true -> f x ∈ ys) : xs.countP keep <= ys.length := by
  rw [countP_eq_length_filter, ← length_map f]
  apply Subperm.length_le
  apply subperm_of_subset
  · exact hnodup.sublist (Sublist.map f filter_sublist)
  · intro y hy
    rcases mem_map.mp hy with ⟨x, hx, rfl⟩
    rcases mem_filter.mp hx with ⟨hx, hkeep⟩
    exact himage x hx hkeep

end Rabbithole.Foundation
