import Mathlib.Order.Lattice
import Mathlib.Data.List.Induction

/-!
# Entries grouped under their keys

An ordered map whose values are lists, filled by putting each entry behind the others of its
key.  What is under a key is what the entries have with this key, in their order.
-/

namespace Rabbithole.Foundation
namespace Grouping

open List

variable {key value : Type*} [LinearOrder key]

/-- Put a value behind those of its key, and keep the keys ascending. -/
def push (k : key) (v : value) : List (key × List value) -> List (key × List value)
  | [] => [(k, [v])]
  | (k', vs) :: groups =>
      if k < k' then (k, [v]) :: (k', vs) :: groups
      else if k = k' then (k', vs ++ [v]) :: groups
      else (k', vs) :: push k v groups

def group (entries : List (key × value)) : List (key × List value) :=
  entries.foldl (fun groups e => push e.fst e.snd groups) []

def select (k : key) (entries : List (key × value)) : List value :=
  (entries.filter (fun e => e.fst = k)).map Prod.snd

def valuesOf (k : key) (groups : List (key × List value)) : List value :=
  (groups.filter (fun g => g.fst = k)).flatMap Prod.snd

def keys (groups : List (key × List value)) : List key :=
  groups.map Prod.fst

variable {k : key} {groups : List (key × List value)} {v : value} {entries : List (key × value)}

theorem mem_keys_push {k' : key} : k' ∈ keys (push k v groups) <-> k' = k ∨ k' ∈ keys groups := by
  induction groups with
  | nil =>
      show k' ∈ [k] <-> k' = k ∨ k' ∈ []
      simp
  | cons first groups ih =>
      rcases first with ⟨k1, vs⟩
      unfold push
      split
      · exact mem_cons
      · split
        · rename_i heq
          subst heq
          show k' ∈ k :: keys groups <-> k' = k ∨ k' ∈ k :: keys groups
          simp
        · show k' ∈ k1 :: keys (push k v groups) <-> k' = k ∨ k' ∈ k1 :: keys groups
          rw [mem_cons, mem_cons, ih]
          tauto

theorem ascending_push (h : (keys groups).Pairwise (· < ·)) :
    (keys (push k v groups)).Pairwise (· < ·) := by
  induction groups with
  | nil => exact pairwise_singleton _ k
  | cons first groups ih =>
      rcases first with ⟨k1, vs⟩
      have hall : (k1 :: keys groups).Pairwise (· < ·) := h
      rcases pairwise_cons.mp hall with ⟨hfirst, hgroups⟩
      unfold push
      split
      · rename_i hlt
        show (k :: k1 :: keys groups).Pairwise (· < ·)
        rw [pairwise_cons]
        constructor
        · intro k' hk'
          rcases mem_cons.mp hk' with rfl | hmem
          · exact hlt
          · exact lt_trans hlt (hfirst k' hmem)
        · exact hall
      · rename_i hnot
        split
        · exact hall
        · rename_i hne
          show (k1 :: keys (push k v groups)).Pairwise (· < ·)
          rw [pairwise_cons]
          constructor
          · intro k' hk'
            rcases mem_keys_push.mp hk' with rfl | hmem
            · exact lt_of_le_of_ne (not_lt.mp hnot) (Ne.symm hne)
            · exact hfirst k' hmem
          · exact ih hgroups

theorem valuesOf_cons (k k' : key) (vs : List value) (groups : List (key × List value)) :
    valuesOf k ((k', vs) :: groups) = (if k' = k then vs else []) ++ valuesOf k groups := by
  unfold valuesOf
  by_cases hk : k' = k
  · rw [if_pos hk, filter_cons_of_pos (by simpa using hk), flatMap_cons]
  · rw [if_neg hk, filter_cons_of_neg (by simpa using hk), nil_append]

theorem valuesOf_of_not_mem (h : k ∉ keys groups) : valuesOf k groups = [] := by
  induction groups with
  | nil => rfl
  | cons first groups ih =>
      rcases first with ⟨k', vs⟩
      have hne : k' ≠ k := fun heq => h (heq ▸ mem_cons_self)
      rw [valuesOf_cons, if_neg hne, nil_append]
      exact ih (fun hmem => h (mem_cons_of_mem k' hmem))

theorem valuesOf_of_mem {vs : List value} (h : (keys groups).Pairwise (· < ·))
    (hmem : (k, vs) ∈ groups) : valuesOf k groups = vs := by
  induction groups with
  | nil => cases hmem
  | cons first groups ih =>
      rcases first with ⟨k', vs'⟩
      rcases pairwise_cons.mp h with ⟨hfirst, hgroups⟩
      rw [valuesOf_cons]
      rcases mem_cons.mp hmem with heq | hmem
      · cases heq
        have hnone : k ∉ keys groups := fun hk => lt_irrefl k (hfirst k hk)
        rw [if_pos rfl, valuesOf_of_not_mem hnone, append_nil]
      · have hk : k ∈ keys groups := mem_map_of_mem hmem
        rw [if_neg (ne_of_lt (hfirst k hk)), nil_append]
        exact ih hgroups hmem

theorem valuesOf_push {k' : key} (h : (keys groups).Pairwise (· < ·)) :
    valuesOf k' (push k v groups) = valuesOf k' groups ++ if k = k' then [v] else [] := by
  induction groups with
  | nil => exact (valuesOf_cons k' k [v] []).trans (append_nil _)
  | cons first groups ih =>
      rcases first with ⟨k1, vs⟩
      rcases pairwise_cons.mp h with ⟨hfirst, hgroups⟩
      unfold push
      split
      · rename_i hlt
        rw [valuesOf_cons]
        by_cases hk : k = k'
        · subst hk
          have hnone : k ∉ keys ((k1, vs) :: groups) := by
            intro hmem
            rcases mem_cons.mp hmem with heq | hmem
            · exact ne_of_lt hlt heq
            · exact lt_irrefl k (lt_trans hlt (hfirst k hmem))
          rw [valuesOf_of_not_mem hnone, append_nil, nil_append]
        · rw [if_neg hk, nil_append, append_nil]
      · split
        · rename_i heq
          subst heq
          rw [valuesOf_cons, valuesOf_cons]
          by_cases hk : k = k'
          · subst hk
            have hnone : k ∉ keys groups := fun hmem => lt_irrefl k (hfirst k hmem)
            rw [if_pos rfl, if_pos rfl, if_pos rfl, valuesOf_of_not_mem hnone, append_nil,
              append_nil]
          · rw [if_neg hk, if_neg hk, if_neg hk, nil_append, append_nil]
        · rw [valuesOf_cons, valuesOf_cons, ih hgroups, append_assoc]

theorem ne_nil_push (h : forall g, g ∈ groups -> g.snd ≠ []) :
    forall g, g ∈ push k v groups -> g.snd ≠ [] := by
  induction groups with
  | nil =>
      intro g hg
      rw [mem_singleton.mp hg]
      exact cons_ne_nil v []
  | cons first groups ih =>
      rcases first with ⟨k1, vs⟩
      have hothers : forall g, g ∈ groups -> g.snd ≠ [] :=
        fun g hg => h g (mem_cons_of_mem _ hg)
      unfold push
      split
      · intro g hg
        rcases mem_cons.mp hg with rfl | hmem
        · exact cons_ne_nil v []
        · exact h g hmem
      · split
        · intro g hg
          rcases mem_cons.mp hg with rfl | hmem
          · exact append_ne_nil_of_right_ne_nil vs (cons_ne_nil v [])
          · exact hothers g hmem
        · intro g hg
          rcases mem_cons.mp hg with rfl | hmem
          · exact h _ mem_cons_self
          · exact ih hothers g hmem

theorem push_perm (k : key) (v : value) (groups : List (key × List value)) :
    ((push k v groups).flatMap Prod.snd).Perm (groups.flatMap Prod.snd ++ [v]) := by
  induction groups with
  | nil => exact Perm.refl _
  | cons first groups ih =>
      rcases first with ⟨k1, vs⟩
      unfold push
      split
      · exact perm_append_comm
      · split
        · rw [flatMap_cons, flatMap_cons, append_assoc, append_assoc]
          exact Perm.append_left vs perm_append_comm
        · rw [flatMap_cons, flatMap_cons, append_assoc]
          exact Perm.append_left vs ih

/-!
## All entries
-/

theorem group_append (entries : List (key × value)) (e : key × value) :
    group (entries ++ [e]) = push e.fst e.snd (group entries) := by
  unfold group
  rw [foldl_append]
  rfl

theorem select_append (k : key) (entries : List (key × value)) (e : key × value) :
    select k (entries ++ [e]) = select k entries ++ if e.fst = k then [e.snd] else [] := by
  unfold select
  rw [filter_append, map_append]
  congr 1
  by_cases hk : e.fst = k
  · rw [if_pos hk, filter_cons_of_pos (by simpa using hk)]
    rfl
  · rw [if_neg hk, filter_cons_of_neg (by simpa using hk)]
    rfl

theorem ascending_group (entries : List (key × value)) :
    (keys (group entries)).Pairwise (· < ·) := by
  induction entries using List.reverseRecOn with
  | nil => exact Pairwise.nil
  | append_singleton entries e ih =>
      rw [group_append]
      exact ascending_push ih

theorem ne_nil_group (entries : List (key × value)) :
    forall g, g ∈ group entries -> g.snd ≠ [] := by
  induction entries using List.reverseRecOn with
  | nil =>
      intro g hg
      cases hg
  | append_singleton entries e ih =>
      rw [group_append]
      exact ne_nil_push ih

theorem valuesOf_group (entries : List (key × value)) (k : key) :
    valuesOf k (group entries) = select k entries := by
  induction entries using List.reverseRecOn with
  | nil => rfl
  | append_singleton entries e ih =>
      rw [group_append, valuesOf_push (ascending_group entries), ih, select_append]

theorem mem_group {vs : List value} :
    (k, vs) ∈ group entries <-> vs ≠ [] ∧ vs = select k entries := by
  have hsorted := ascending_group entries
  constructor
  · intro hmem
    constructor
    · exact ne_nil_group entries (k, vs) hmem
    · rw [← valuesOf_group, valuesOf_of_mem hsorted hmem]
  · rintro ⟨hne, rfl⟩
    have hkey : k ∈ keys (group entries) := by
      by_contra hnone
      rw [← valuesOf_group, valuesOf_of_not_mem hnone] at hne
      exact hne rfl
    rcases mem_map.mp hkey with ⟨⟨k', vs⟩, hmem, heq⟩
    dsimp only at heq
    subst heq
    rw [← valuesOf_group, valuesOf_of_mem hsorted hmem]
    exact hmem

theorem mem_select : v ∈ select k entries <-> (k, v) ∈ entries := by
  unfold select
  rw [mem_map]
  constructor
  · rintro ⟨⟨k', v'⟩, hmem, rfl⟩
    rcases mem_filter.mp hmem with ⟨hentry, hk⟩
    rw [← of_decide_eq_true hk]
    exact hentry
  · intro hentry
    exact ⟨(k, v), mem_filter.mpr ⟨hentry, decide_eq_true rfl⟩, rfl⟩

theorem mem_keys_group : k ∈ keys (group entries) <-> k ∈ entries.map Prod.fst := by
  constructor
  · intro hkey
    rcases mem_map.mp hkey with ⟨⟨k', vs⟩, hmem, rfl⟩
    rcases mem_group.mp hmem with ⟨hne, rfl⟩
    rcases exists_mem_of_ne_nil _ hne with ⟨v, hv⟩
    exact mem_map_of_mem (mem_select.mp hv)
  · intro hkey
    rcases mem_map.mp hkey with ⟨⟨k', v⟩, hmem, rfl⟩
    exact mem_map_of_mem (mem_group.mpr ⟨ne_nil_of_mem (mem_select.mpr hmem), rfl⟩)

theorem group_perm (entries : List (key × value)) :
    ((group entries).flatMap Prod.snd).Perm (entries.map Prod.snd) := by
  induction entries using List.reverseRecOn with
  | nil => exact Perm.refl _
  | append_singleton entries e ih =>
      rw [group_append, map_append]
      exact (push_perm e.fst e.snd (group entries)).trans (Perm.append_right _ ih)

end Grouping
end Rabbithole.Foundation
