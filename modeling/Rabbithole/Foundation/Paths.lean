import Mathlib.Data.List.Infix

/-!
# Paths of names

A path is names with a separator between each two.  What goes on behind a path and a separator
is below it, and is rebased when the path gives way to a new one.
-/

namespace Rabbithole.Foundation
namespace Paths

open List

variable {α : Type*} {sep : α}

def Below (sep : α) (p q : List α) : Prop :=
  (p ++ [sep]) <+: q

instance [DecidableEq α] (p q : List α) : Decidable (Below sep p q) :=
  inferInstanceAs (Decidable ((p ++ [sep]) <+: q))

theorem below_iff {p q : List α} : Below sep p q <-> exists rest, q = p ++ sep :: rest := by
  constructor
  all_goals
    rintro ⟨rest, rfl⟩
    exact ⟨rest, by rw [append_assoc, singleton_append]⟩

theorem Below.length_lt {p q : List α} (h : Below sep p q) : p.length < q.length := by
  rcases below_iff.mp h with ⟨rest, rfl⟩
  simp

theorem not_below_self (p : List α) : ¬ Below sep p p :=
  fun h => Nat.lt_irrefl _ h.length_lt

theorem Below.trans {p q r : List α} (hpq : Below sep p q) (hqr : Below sep q r) :
    Below sep p r := by
  rcases below_iff.mp hpq with ⟨mid, rfl⟩
  rcases below_iff.mp hqr with ⟨rest, rfl⟩
  exact below_iff.mpr ⟨mid ++ sep :: rest, by simp⟩

theorem join_inj {p q x y : List α} (hx : sep ∉ x) (hy : sep ∉ y)
    (h : p ++ sep :: x = q ++ sep :: y) : p = q ∧ x = y := by
  rcases append_eq_append_iff.mp h with ⟨mid, rfl, hmid⟩ | ⟨mid, rfl, hmid⟩
  · cases mid with
    | nil =>
        rw [nil_append, List.cons.injEq] at hmid
        exact ⟨(append_nil p).symm, hmid.right⟩
    | cons c mid =>
        rw [cons_append, List.cons.injEq] at hmid
        exact absurd (by rw [hmid.right]; simp) hx
  · cases mid with
    | nil =>
        rw [nil_append, List.cons.injEq] at hmid
        exact ⟨append_nil q, hmid.right.symm⟩
    | cons c mid =>
        rw [cons_append, List.cons.injEq] at hmid
        exact absurd (by rw [hmid.right]; simp) hy

theorem not_below_name {p name : List α} (hname : sep ∉ name) : ¬ Below sep p name := by
  intro h
  rcases below_iff.mp h with ⟨rest, rfl⟩
  simp at hname

theorem below_child_iff {p q name : List α} (hname : sep ∉ name) :
    Below sep p (q ++ sep :: name) <-> p = q ∨ Below sep p q := by
  constructor
  · intro h
    rcases below_iff.mp h with ⟨rest, hrest⟩
    rcases append_eq_append_iff.mp hrest with ⟨mid, rfl, hmid⟩ | ⟨mid, rfl, hmid⟩
    · cases mid with
      | nil => exact Or.inl (append_nil q)
      | cons c mid =>
          rw [cons_append, List.cons.injEq] at hmid
          exact absurd (by rw [hmid.right]; simp) hname
    · cases mid with
      | nil => exact Or.inl (append_nil p).symm
      | cons c mid =>
          rw [cons_append, List.cons.injEq] at hmid
          rw [← hmid.left]
          exact Or.inr (below_iff.mpr ⟨mid, rfl⟩)
  · rintro (rfl | h)
    · exact below_iff.mpr ⟨name, rfl⟩
    · exact h.trans (below_iff.mpr ⟨name, rfl⟩)

section Rebase

variable [DecidableEq α]

def rebase (sep : α) (old new path : List α) : List α :=
  if Below sep old path then new ++ path.drop old.length else path

theorem rebase_below (old new rest : List α) :
    rebase sep old new (old ++ sep :: rest) = new ++ sep :: rest := by
  unfold rebase
  rw [if_pos (below_iff.mpr ⟨rest, rfl⟩), drop_left]

theorem rebase_of_not_below {old new path : List α} (h : ¬ Below sep old path) :
    rebase sep old new path = path :=
  if_neg h

theorem rebase_child {old new path name : List α} (hname : sep ∉ name) (hne : old ≠ path) :
    rebase sep old new (path ++ sep :: name) = rebase sep old new path ++ sep :: name := by
  by_cases hbelow : Below sep old path
  · rcases below_iff.mp hbelow with ⟨rest, rfl⟩
    rw [rebase_below, append_assoc, cons_append, rebase_below, append_assoc, cons_append]
  · rw [rebase_of_not_below hbelow, rebase_of_not_below]
    intro h
    rcases (below_child_iff hname).mp h with rfl | h'
    · exact hne rfl
    · exact hbelow h'

theorem below_rebase {old new path : List α} (h : Below sep old path) :
    Below sep new (rebase sep old new path) := by
  rcases below_iff.mp h with ⟨rest, rfl⟩
  rw [rebase_below]
  exact below_iff.mpr ⟨rest, rfl⟩

theorem rebase_inj_of_below {old new path path' : List α} (h : Below sep old path)
    (h' : Below sep old path') (heq : rebase sep old new path = rebase sep old new path') :
    path = path' := by
  rcases below_iff.mp h with ⟨rest, rfl⟩
  rcases below_iff.mp h' with ⟨rest', rfl⟩
  rw [rebase_below, rebase_below] at heq
  rw [append_cancel_left heq]

end Rebase

end Paths
end Rabbithole.Foundation
