import Mathlib.Data.List.Basic

/-!
# Operations whose order does not matter

Operations that commute with each other, and of which a second application does
nothing, leave a state that depends only on which of them were applied: not on
the order, and not on how often.
-/

namespace Rabbithole.Foundation

variable {op state : Type*}

/-- On a list of operations, the order and the number of repeats do not matter. -/
structure Unordered (act : op -> state -> state) (ops : List op) : Prop where
  comm : forall a, a ∈ ops -> forall b, b ∈ ops ->
    forall s, act a (act b s) = act b (act a s)
  again : forall a, a ∈ ops -> forall s, act a (act a s) = act a s

def applyAll (act : op -> state -> state) (ops : List op) (s : state) : state :=
  ops.foldl (fun s a => act a s) s

theorem applyAll_cons (act : op -> state -> state) (a : op) (ops : List op) (s : state) :
    applyAll act (a :: ops) s = applyAll act ops (act a s) := rfl

namespace Unordered

variable {act : op -> state -> state} {ops : List op}

section

variable (h : Unordered act ops)
include h

theorem act_applyAll {a : op} (ha : a ∈ ops) {done : List op} (hsub : done ⊆ ops) (s : state) :
    act a (applyAll act done s) = applyAll act done (act a s) := by
  induction done generalizing s with
  | nil =>
      rfl
  | cons b rest ih =>
      rw [List.cons_subset] at hsub
      rw [applyAll_cons, ih hsub.right, applyAll_cons, h.comm a ha b hsub.left]

theorem act_absorbed {a : op} {done : List op} (ha : a ∈ done) (hsub : done ⊆ ops) (s : state) :
    act a (applyAll act done s) = applyAll act done s := by
  induction done generalizing s with
  | nil =>
      cases ha
  | cons b rest ih =>
      rw [List.cons_subset] at hsub
      rw [applyAll_cons]
      cases ha with
      | head =>
          rw [h.act_applyAll hsub.left hsub.right, h.again _ hsub.left]
      | tail _ hrest =>
          exact ih hrest hsub.right (act b s)

theorem applyAll_absorbed {front back : List op} (hfront : front ⊆ back) (hback : back ⊆ ops)
    (s : state) : applyAll act front (applyAll act back s) = applyAll act back s := by
  induction front with
  | nil =>
      rfl
  | cons a rest ih =>
      rw [List.cons_subset] at hfront
      rw [applyAll_cons, h.act_absorbed hfront.left hback]
      exact ih hfront.right

theorem applyAll_comm {front back : List op} (hfront : front ⊆ ops) (hback : back ⊆ ops)
    (s : state) :
    applyAll act front (applyAll act back s) = applyAll act back (applyAll act front s) := by
  induction front generalizing s with
  | nil =>
      rfl
  | cons a rest ih =>
      rw [List.cons_subset] at hfront
      rw [applyAll_cons, applyAll_cons, h.act_applyAll hfront.left hback, ih hfront.right]

theorem applyAll_eq_of_same {left right : List op} (hleft : left ⊆ ops) (hlr : left ⊆ right)
    (hrl : right ⊆ left) (s : state) : applyAll act left s = applyAll act right s := by
  have hright : right ⊆ ops := List.Subset.trans hrl hleft
  calc
    applyAll act left s = applyAll act right (applyAll act left s) :=
      (h.applyAll_absorbed hrl hleft s).symm
    _ = applyAll act left (applyAll act right s) := h.applyAll_comm hright hleft s
    _ = applyAll act right s := h.applyAll_absorbed hlr hright s

end

end Unordered

end Rabbithole.Foundation
