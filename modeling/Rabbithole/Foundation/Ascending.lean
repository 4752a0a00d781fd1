import Mathlib.Order.Lattice

/-!
# Ordered maps

A map whose entries stand in the order of their keys.  It is what comes of putting its
entries in one by one, in whatever order others are put in.
-/

namespace Rabbithole.Foundation

open List

variable {key value : Type*} [LinearOrder key]

structure Ascending (key value : Type*) [LinearOrder key] where
  entries : List (key × value)
  ascending : (entries.map Prod.fst).Pairwise (· < ·)

namespace Ascending

def empty : Ascending key value where
  entries := []
  ascending := Pairwise.nil

/-- Put a value in its place, or in that of the one with its key. -/
def insertInto (k : key) (v : value) : List (key × value) -> List (key × value)
  | [] => [(k, v)]
  | (k', v') :: rest =>
      if k < k' then (k, v) :: (k', v') :: rest
      else if k = k' then (k, v) :: rest
      else (k', v') :: insertInto k v rest

variable {entries : List (key × value)}

theorem mem_keys_insertInto {k k' : key} {v : value}
    (h : k' ∈ (insertInto k v entries).map Prod.fst) : k' = k ∨ k' ∈ entries.map Prod.fst := by
  induction entries with
  | nil => exact Or.inl (mem_singleton.mp h)
  | cons first rest ih =>
      rcases first with ⟨k1, v1⟩
      unfold insertInto at h
      split at h
      · exact mem_cons.mp h
      · split at h
        · rcases mem_cons.mp h with rfl | hrest
          · exact Or.inl rfl
          · exact Or.inr (mem_cons_of_mem _ hrest)
        · rcases mem_cons.mp h with rfl | hrest
          · exact Or.inr mem_cons_self
          · rcases ih hrest with heq | hmem
            · exact Or.inl heq
            · exact Or.inr (mem_cons_of_mem _ hmem)

theorem ascending_insertInto {k : key} {v : value} (h : (entries.map Prod.fst).Pairwise (· < ·)) :
    ((insertInto k v entries).map Prod.fst).Pairwise (· < ·) := by
  induction entries with
  | nil => exact pairwise_singleton _ k
  | cons first rest ih =>
      rcases first with ⟨k1, v1⟩
      obtain ⟨hfirst, hrest⟩ := pairwise_cons.mp h
      unfold insertInto
      split
      · rename_i hlt
        refine pairwise_cons.mpr ⟨fun k' hk' => ?_, h⟩
        rcases mem_cons.mp hk' with rfl | hmem
        · exact hlt
        · exact lt_trans hlt (hfirst k' hmem)
      · rename_i hnot
        split
        · rename_i heq
          subst heq
          exact h
        · rename_i hne
          refine pairwise_cons.mpr ⟨fun k' hk' => ?_, ih hrest⟩
          rcases mem_keys_insertInto hk' with rfl | hmem
          · exact lt_of_le_of_ne (not_lt.mp hnot) (Ne.symm hne)
          · exact hfirst k' hmem

def insert (m : Ascending key value) (k : key) (v : value) : Ascending key value where
  entries := insertInto k v m.entries
  ascending := ascending_insertInto m.ascending

def ofList (entries : List (key × value)) : Ascending key value :=
  entries.foldl (fun m e => m.insert e.fst e.snd) empty

@[ext] theorem ext {m m' : Ascending key value} (h : m.entries = m'.entries) : m = m' := by
  cases m
  cases m'
  cases h
  rfl

theorem insertInto_of_lt {k : key} {v : value} (h : forall e, e ∈ entries -> e.fst < k) :
    insertInto k v entries = entries ++ [(k, v)] := by
  induction entries with
  | nil => rfl
  | cons first rest ih =>
      rcases first with ⟨k1, v1⟩
      have hlt : k1 < k := h (k1, v1) mem_cons_self
      unfold insertInto
      rw [if_neg (lt_asymm hlt), if_neg (ne_of_gt hlt), ih fun e he => h e (mem_cons_of_mem _ he)]
      rfl

theorem entries_foldl_insert {m : Ascending key value}
    (h : ((m.entries ++ entries).map Prod.fst).Pairwise (· < ·)) :
    (entries.foldl (fun m e => m.insert e.fst e.snd) m).entries = m.entries ++ entries := by
  induction entries generalizing m with
  | nil => exact (append_nil _).symm
  | cons e entries ih =>
      rw [map_append, map_cons] at h
      have hlast : forall e', e' ∈ m.entries -> e'.fst < e.fst := by
        intro e' he'
        exact (pairwise_append.mp h).2.2 _ (mem_map_of_mem he') _ mem_cons_self
      have hinsert : (m.insert e.fst e.snd).entries = m.entries ++ [e] := insertInto_of_lt hlast
      rw [foldl_cons, ih, hinsert, append_assoc]
      · rfl
      · rw [hinsert, append_assoc, map_append]
        exact h

theorem ofList_entries (m : Ascending key value) : ofList m.entries = m :=
  ext (entries_foldl_insert m.ascending)

end Ascending
end Rabbithole.Foundation
