import Mathlib.Algebra.BigOperators.Group.List.Basic
import Mathlib.Algebra.Ring.Nat
import Mathlib.Data.List.Nodup

/-!
# Finite maps

A finite map is a list of entries, no two with the same key, in no order that means
anything.  Insert, erase and a pass that changes or drops each entry are described by what a
lookup finds after them, and sums over the values by what one insert adds.
-/

namespace Rabbithole.Foundation

open List Option

structure Dict (key value : Type*) where
  entries : List (key × value)
  nodup : (entries.map Prod.fst).Nodup

namespace Dict

variable {key value : Type*}

def empty : Dict key value where
  entries := []
  nodup := nodup_nil

def size (d : Dict key value) : Nat :=
  d.entries.length

def isEmpty (d : Dict key value) : Bool :=
  d.entries.isEmpty

def sum (measure : value -> Nat) (d : Dict key value) : Nat :=
  (d.entries.map (fun entry => measure entry.snd)).sum

variable {entries : List (key × value)}

theorem nodup_filterMap (h : (entries.map Prod.fst).Nodup) (change : key -> value -> Option value) :
    ((entries.filterMap (fun entry =>
      (change entry.fst entry.snd).map (Prod.mk entry.fst))).map Prod.fst).Nodup := by
  have hsub : ((entries.filterMap (fun entry =>
      (change entry.fst entry.snd).map (Prod.mk entry.fst))).map Prod.fst).Sublist
        (entries.map Prod.fst) := by
    clear h
    induction entries with
    | nil =>
        exact Sublist.refl _
    | cons entry rest ih =>
        rw [filterMap_cons]
        cases change entry.fst entry.snd with
        | none => exact Sublist.cons _ ih
        | some v => exact ih.cons_cons _
  exact h.sublist hsub

/-- Change or drop every entry. -/
def filterMap (change : key -> value -> Option value) (d : Dict key value) : Dict key value where
  entries := d.entries.filterMap (fun entry =>
    (change entry.fst entry.snd).map (Prod.mk entry.fst))
  nodup := nodup_filterMap d.nodup change

def retain (keep : key -> value -> Bool) (d : Dict key value) : Dict key value :=
  d.filterMap (fun k v => if keep k v then some v else none)

def mapValues (change : key -> value -> value) (d : Dict key value) : Dict key value :=
  d.filterMap (fun k v => some (change k v))

variable [DecidableEq key]

def get? (d : Dict key value) (k : key) : Option value :=
  (d.entries.find? (fun entry => decide (entry.fst = k))).map Prod.snd

def contains (d : Dict key value) (k : key) : Bool :=
  (d.get? k).isSome

def erase (d : Dict key value) (k : key) : Dict key value :=
  d.retain (fun k' _ => decide (k' ≠ k))

def modify (d : Dict key value) (k : key) (change : value -> value) : Dict key value :=
  d.mapValues (fun k' v => if k' = k then change v else v)

variable {d : Dict key value} {k : key}

theorem get?_eq_some_iff {v : value} : d.get? k = some v <-> (k, v) ∈ d.entries := by
  unfold get?
  constructor
  · intro h
    rcases map_eq_some_iff.mp h with ⟨entry, hfound, rfl⟩
    have hkey : entry.fst = k := by simpa using find?_some hfound
    rw [← hkey]
    exact mem_of_find?_eq_some hfound
  · intro h
    cases hfound : d.entries.find? (fun entry => decide (entry.fst = k)) with
    | none =>
        have hnot := find?_eq_none.mp hfound (k, v) h
        simp at hnot
    | some entry =>
        have hkey : entry.fst = k := by simpa using find?_some hfound
        have hsame := inj_on_of_nodup_map d.nodup
          (mem_of_find?_eq_some hfound) h hkey
        rw [hsame]
        rfl

theorem get?_eq_none_iff : d.get? k = none <-> k ∉ d.entries.map Prod.fst := by
  constructor
  · intro h hmem
    rcases mem_map.mp hmem with ⟨entry, hentry, rfl⟩
    have hsome : d.get? entry.fst = some entry.snd := get?_eq_some_iff.mpr hentry
    rw [h] at hsome
    cases hsome
  · intro h
    cases hfound : d.get? k with
    | none => rfl
    | some v => exact absurd (mem_map_of_mem (get?_eq_some_iff.mp hfound)) h

theorem isEmpty_iff : d.isEmpty = true <-> forall k, d.get? k = none := by
  unfold isEmpty
  rw [List.isEmpty_iff]
  constructor
  · intro h k
    rw [get?_eq_none_iff, h]
    simp
  · intro h
    apply eq_nil_iff_forall_not_mem.mpr
    rintro ⟨k, v⟩ hmem
    have hsome : d.get? k = some v := get?_eq_some_iff.mpr hmem
    rw [h k] at hsome
    cases hsome

theorem get?_filterMap (change : key -> value -> Option value) (d : Dict key value) (k : key) :
    (d.filterMap change).get? k = (d.get? k).bind (change k) := by
  apply Option.ext
  intro v
  rw [get?_eq_some_iff, bind_eq_some_iff]
  unfold filterMap
  rw [mem_filterMap]
  constructor
  · rintro ⟨⟨k', old⟩, hmem, hchange⟩
    rcases map_eq_some_iff.mp hchange with ⟨new, hnew, heq⟩
    cases heq
    exact ⟨old, get?_eq_some_iff.mpr hmem, hnew⟩
  · rintro ⟨old, hold, hchange⟩
    refine ⟨(k, old), get?_eq_some_iff.mp hold, ?_⟩
    rw [hchange]
    rfl

@[simp] theorem get?_retain (keep : key -> value -> Bool) (d : Dict key value) (k : key) :
    (d.retain keep).get? k = (d.get? k).filter (keep k) := by
  unfold retain
  rw [get?_filterMap]
  cases d.get? k with
  | none => rfl
  | some v =>
      rw [bind_some, filter_some]

@[simp] theorem get?_mapValues (change : key -> value -> value) (d : Dict key value) (k : key) :
    (d.mapValues change).get? k = (d.get? k).map (change k) := by
  unfold mapValues
  rw [get?_filterMap]
  cases d.get? k with
  | none => rfl
  | some v => rfl

@[simp] theorem get?_erase (d : Dict key value) (k k' : key) :
    (d.erase k).get? k' = if k' = k then none else d.get? k' := by
  unfold erase
  rw [get?_retain]
  by_cases h : k' = k
  all_goals
    cases d.get? k' with
    | none => simp
    | some v => simp [h]

@[simp] theorem get?_modify (d : Dict key value) (k k' : key) (change : value -> value) :
    (d.modify k change).get? k' =
      (d.get? k').map (fun v => if k' = k then change v else v) := by
  unfold modify
  rw [get?_mapValues]

/-!
## Insert
-/

theorem not_mem_erase (d : Dict key value) (k : key) : k ∉ (d.erase k).entries.map Prod.fst := by
  rw [← get?_eq_none_iff, get?_erase, if_pos rfl]

def insert (d : Dict key value) (k : key) (v : value) : Dict key value where
  entries := (k, v) :: (d.erase k).entries
  nodup := nodup_cons.mpr ⟨d.not_mem_erase k, (d.erase k).nodup⟩

@[simp] theorem get?_insert (d : Dict key value) (k k' : key) (v : value) :
    (d.insert k v).get? k' = if k' = k then some v else d.get? k' := by
  by_cases h : k' = k
  · rw [if_pos h, get?_eq_some_iff, h]
    exact mem_cons_self
  · rw [if_neg h]
    have hrest : (d.erase k).get? k' = d.get? k' := by
      rw [get?_erase, if_neg h]
    rw [← hrest]
    unfold get? insert
    rw [find?_cons_of_neg]
    simp [Ne.symm h]

def insertAll (d : Dict key value) (entries : List (key × value)) : Dict key value :=
  entries.foldl (fun d entry => d.insert entry.fst entry.snd) d

theorem get?_foldl {f : Dict key value -> key -> Dict key value} {found : Option value}
    (h : forall d k k', (f d k).get? k' = if k' = k then found else d.get? k') (keys : List key)
    (d : Dict key value) (k : key) :
    (k ∈ keys -> (keys.foldl f d).get? k = found) ∧
      (k ∉ keys -> (keys.foldl f d).get? k = d.get? k) := by
  induction keys generalizing d with
  | nil => exact ⟨nofun, fun _ => rfl⟩
  | cons first rest ih =>
      rw [foldl_cons, mem_cons]
      constructor
      · intro hk
        by_cases hrest : k ∈ rest
        · exact (ih (f d first)).left hrest
        · rw [(ih (f d first)).right hrest, h, if_pos (hk.resolve_right hrest)]
      · intro hk
        rw [(ih (f d first)).right (fun hrest => hk (Or.inr hrest)), h,
          if_neg (fun hfirst => hk (Or.inl hfirst))]

theorem get?_insertAll {v : value} (h : (d.insertAll entries).get? k = some v) :
    (k, v) ∈ entries ∨ d.get? k = some v := by
  induction entries generalizing d with
  | nil => exact Or.inr h
  | cons first rest ih =>
      rcases ih h with hrest | hfirst
      · exact Or.inl (mem_cons_of_mem _ hrest)
      · rw [get?_insert] at hfirst
        split at hfirst
        · rename_i hsame
          cases hfirst
          rw [hsame]
          exact Or.inl mem_cons_self
        · exact Or.inr hfirst

theorem isSome_insertAll (h : (exists v, (k, v) ∈ entries) ∨ (d.get? k).isSome = true) :
    ((d.insertAll entries).get? k).isSome = true := by
  induction entries generalizing d with
  | nil =>
      rcases h with ⟨v, hv⟩ | hold
      · cases hv
      · exact hold
  | cons first rest ih =>
      apply ih
      rw [get?_insert]
      rcases h with ⟨v, hv⟩ | hold
      · rcases mem_cons.mp hv with rfl | hrest
        · rw [if_pos rfl]
          exact Or.inr rfl
        · exact Or.inl ⟨v, hrest⟩
      · right
        split
        · rfl
        · exact hold

/-!
## Sums
-/

theorem entries_erase (d : Dict key value) (k : key) :
    (d.erase k).entries = d.entries.filter (fun entry => decide (entry.fst ≠ k)) := by
  unfold erase retain filterMap
  simp only []
  induction d.entries with
  | nil => rfl
  | cons entry rest ih =>
      by_cases h : entry.fst = k
      all_goals
        simp [h] at ih ⊢
        exact ih

omit [DecidableEq key] in
theorem sum_filterMap_le {measure : value -> Nat} {change : key -> value -> Option value}
    (d : Dict key value) (h : forall k v v', change k v = some v' -> measure v' <= measure v) :
    (d.filterMap change).sum measure <= d.sum measure := by
  unfold sum filterMap
  simp only []
  induction d.entries with
  | nil => exact Nat.le_refl _
  | cons entry rest ih =>
      rw [filterMap_cons]
      cases hchange : change entry.fst entry.snd with
      | none =>
          rw [map_cons, sum_cons]
          exact Nat.le_trans ih (Nat.le_add_left _ _)
      | some v =>
          simp only [map_some, map_cons, sum_cons]
          exact Nat.add_le_add (h entry.fst entry.snd v hchange) ih

theorem sum_erase_add (measure : value -> Nat) (d : Dict key value) (k : key) :
    (d.erase k).sum measure + ((d.get? k).map measure).getD 0 = d.sum measure := by
  unfold sum get?
  rw [entries_erase]
  have hnodup := d.nodup
  generalize d.entries = entries at hnodup
  induction entries with
  | nil => rfl
  | cons entry rest ih =>
      rw [map_cons, nodup_cons] at hnodup
      have hrest := ih hnodup.right
      by_cases h : entry.fst = k
      · have hothers : rest.filter (fun other => decide (other.fst ≠ k)) = rest := by
          rw [filter_eq_self]
          intro other hother
          apply decide_eq_true
          intro heq
          apply hnodup.left
          rw [h, ← heq]
          exact mem_map_of_mem hother
        rw [filter_cons_of_neg (by simp [h]), hothers, find?_cons_of_pos (by simp [h])]
        simp only [map_some, getD_some, map_cons, sum_cons]
        exact Nat.add_comm _ _
      · rw [filter_cons_of_pos (by simp [h]), find?_cons_of_neg (by simp [h])]
        simp only [map_cons, sum_cons]
        rw [Nat.add_assoc, hrest]

theorem sum_insert_add (measure : value -> Nat) (d : Dict key value) (k : key) (v : value) :
    (d.insert k v).sum measure + ((d.get? k).map measure).getD 0 = d.sum measure + measure v := by
  have hinsert : (d.insert k v).sum measure = measure v + (d.erase k).sum measure := by
    unfold sum insert
    simp only [map_cons, sum_cons]
  rw [hinsert, Nat.add_assoc, sum_erase_add, Nat.add_comm]

/-!
## How many entries
-/

omit [DecidableEq key] in
theorem size_eq_sum (d : Dict key value) : d.size = d.sum (fun _ => 1) := by
  unfold size sum
  generalize d.entries = entries
  induction entries with
  | nil => rfl
  | cons entry entries ih =>
      rw [length_cons, map_cons, sum_cons, ih, Nat.add_comm]

omit [DecidableEq key] in
theorem size_filterMap_le (change : key -> value -> Option value) (d : Dict key value) :
    (d.filterMap change).size <= d.size := by
  rw [size_eq_sum, size_eq_sum]
  exact d.sum_filterMap_le (fun _ _ _ _ => Nat.le_refl 1)

theorem size_insert (d : Dict key value) (k : key) (v : value) :
    (d.insert k v).size + (if d.contains k then 1 else 0) = d.size + 1 := by
  have hsum := sum_insert_add (fun _ => 1) d k v
  rw [← size_eq_sum, ← size_eq_sum] at hsum
  rw [← hsum]
  congr 1
  unfold contains
  cases d.get? k with
  | none => rfl
  | some v => rfl

theorem size_erase_add (d : Dict key value) (k : key) :
    (d.erase k).size + (if d.contains k then 1 else 0) = d.size := by
  have hsum := sum_erase_add (fun _ => 1) d k
  rw [← size_eq_sum, ← size_eq_sum] at hsum
  rw [← hsum]
  congr 1
  unfold contains
  cases d.get? k with
  | none => rfl
  | some v => rfl

theorem size_insertAll_le (entries : List (key × value)) (d : Dict key value) :
    (d.insertAll entries).size <= d.size + entries.length := by
  induction entries generalizing d with
  | nil => exact Nat.le_refl _
  | cons first rest ih =>
      have hrest := ih (d.insert first.fst first.snd)
      have hfirst := size_insert d first.fst first.snd
      rw [length_cons]
      show ((d.insert first.fst first.snd).insertAll rest).size <= _
      omega

end Dict

end Rabbithole.Foundation
