import Mathlib.Data.List.Nodup

/-!
# Tables with a primary key

A table is a list of rows, in the order they were inserted, no two with the same key.  An
insert leaves an existing row alone.
-/

namespace Rabbithole.Foundation

open List

structure Table {row key : Type*} (keyOf : row -> key) where
  rows : List row
  nodup : (rows.map keyOf).Nodup

namespace Table

variable {row key : Type*} {keyOf : row -> key}

theorem ext_rows {t t' : Table keyOf} (h : t.rows = t'.rows) : t = t' := by
  cases t with
  | mk rows nodup =>
      cases t' with
      | mk rows' nodup' =>
          cases h
          rfl

def empty (keyOf : row -> key) : Table keyOf where
  rows := []
  nodup := nodup_nil

def delete (t : Table keyOf) (p : row -> Bool) : Table keyOf where
  rows := t.rows.filter (fun r => !p r)
  nodup := t.nodup.sublist (filter_sublist.map keyOf)

variable [DecidableEq key]

def find? (t : Table keyOf) (k : key) : Option row :=
  t.rows.find? (fun r => decide (keyOf r = k))

variable {t : Table keyOf} {k : key} {r : row}

theorem find?_eq_some_iff : t.find? k = some r <-> r ∈ t.rows ∧ keyOf r = k := by
  constructor
  · intro h
    exact ⟨mem_of_find?_eq_some h, by simpa using find?_some h⟩
  · intro h
    rcases h with ⟨hmem, hkey⟩
    cases hfound : t.find? k with
    | none =>
        have hnot := find?_eq_none.mp hfound r hmem
        simp [hkey] at hnot
    | some other =>
        have hother : other ∈ t.rows := mem_of_find?_eq_some hfound
        have hsame : keyOf other = k := by simpa using find?_some hfound
        have heq := inj_on_of_nodup_map t.nodup hother hmem (by rw [hsame, hkey])
        rw [heq]

theorem find?_eq_none_iff : t.find? k = none <-> forall r, r ∈ t.rows -> keyOf r ≠ k := by
  unfold find?
  rw [find?_eq_none]
  simp

theorem keyOf_of_find? (h : t.find? k = some r) : keyOf r = k :=
  (find?_eq_some_iff.mp h).right

/-- Insert a row, unless one with its key is there. -/
def insert (t : Table keyOf) (r : row) : Table keyOf :=
  if h : t.find? (keyOf r) = none then
    { rows := t.rows ++ [r]
      nodup := by
        rw [map_append, nodup_append]
        refine ⟨t.nodup, nodup_singleton _, ?_⟩
        intro k hk k' hk' heq
        rcases mem_map.mp hk with ⟨other, hother, hkey⟩
        rw [map_singleton, mem_singleton] at hk'
        exact find?_eq_none_iff.mp h other hother (by rw [hkey, heq, hk']) }
  else
    t

/-- Change the row with a key, its key excepted. -/
def update (t : Table keyOf) (k : key) (change : row -> row)
    (hkey : forall r, keyOf (change r) = keyOf r) : Table keyOf where
  rows := t.rows.map (fun r => if keyOf r = k then change r else r)
  nodup := by
    rw [map_map]
    have hsame : keyOf ∘ (fun r => if keyOf r = k then change r else r) = keyOf := by
      funext r
      show keyOf (if keyOf r = k then change r else r) = keyOf r
      split
      · exact hkey r
      · rfl
    rw [hsame]
    exact t.nodup

/-!
## Reading back
-/

theorem insert_of_present {old : row} (h : t.find? (keyOf r) = some old) : t.insert r = t := by
  unfold insert
  rw [dif_neg]
  rw [h]
  simp

theorem rows_insert_of_absent (h : t.find? (keyOf r) = none) :
    (t.insert r).rows = t.rows ++ [r] := by
  unfold insert
  rw [dif_pos h]

theorem find?_insert (t : Table keyOf) (r : row) (k : key) :
    (t.insert r).find? k =
      match t.find? k with
      | some old => some old
      | none => if keyOf r = k then some r else none := by
  cases habsent : t.find? (keyOf r) with
  | some old =>
      rw [insert_of_present habsent]
      cases hk : t.find? k with
      | some found => rfl
      | none =>
          have hne : keyOf r ≠ k := by
            intro heq
            rw [heq, hk] at habsent
            cases habsent
          simp [hne]
  | none =>
      unfold find?
      rw [rows_insert_of_absent habsent, find?_append]
      cases hk : t.rows.find? (fun r => decide (keyOf r = k)) with
      | some found => rfl
      | none =>
          by_cases heq : keyOf r = k
          · simp [heq]
          · simp [heq]

theorem find?_update (t : Table keyOf) (k k' : key) (change : row -> row)
    (hkey : forall r, keyOf (change r) = keyOf r) :
    (t.update k change hkey).find? k' =
      (t.find? k').map (fun r => if k' = k then change r else r) := by
  cases hfound : t.find? k' with
  | none =>
      rw [find?_eq_none_iff] at hfound
      rw [Option.map_none, find?_eq_none_iff]
      intro r hr
      rcases mem_map.mp hr with ⟨old, hold, heq⟩
      have hsame : keyOf r = keyOf old := by
        rw [← heq]
        split
        · exact hkey old
        · rfl
      rw [hsame]
      exact hfound old hold
  | some old =>
      rcases find?_eq_some_iff.mp hfound with ⟨hmem, hk⟩
      rw [Option.map_some, find?_eq_some_iff]
      constructor
      · apply mem_map.mpr
        refine ⟨old, hmem, ?_⟩
        rw [hk]
      · split
        · rw [hkey, hk]
        · exact hk

theorem keys_update (t : Table keyOf) (k : key) (change : row -> row)
    (hkey : forall r, keyOf (change r) = keyOf r) :
    (t.update k change hkey).rows.map keyOf = t.rows.map keyOf := by
  show (t.rows.map _).map keyOf = _
  rw [map_map]
  apply map_congr_left
  intro r _
  show keyOf (if keyOf r = k then change r else r) = keyOf r
  split
  · exact hkey r
  · rfl

theorem update_eq_self {change : row -> row} {hkey : forall r, keyOf (change r) = keyOf r}
    (h : forall r, t.find? k = some r -> change r = r) : t.update k change hkey = t := by
  apply ext_rows
  have hmap : t.rows.map (fun r => if keyOf r = k then change r else r) = t.rows.map id := by
    apply map_congr_left
    intro r hr
    split
    · rename_i hk
      exact h r (find?_eq_some_iff.mpr ⟨hr, hk⟩)
    · rfl
  rw [map_id] at hmap
  exact hmap

theorem find?_delete (t : Table keyOf) (p : row -> Bool) (k : key) :
    (t.delete p).find? k = (t.find? k).filter (fun r => !p r) := by
  cases hfound : t.find? k with
  | none =>
      rw [find?_eq_none_iff] at hfound
      rw [Option.filter_none, find?_eq_none_iff]
      intro r hr
      exact hfound r (mem_of_mem_filter hr)
  | some old =>
      rcases find?_eq_some_iff.mp hfound with ⟨hmem, hk⟩
      cases hp : p old with
      | false =>
          rw [Option.filter_some, hp]
          show _ = some old
          rw [find?_eq_some_iff]
          exact ⟨mem_filter.mpr ⟨hmem, by simp [hp]⟩, hk⟩
      | true =>
          rw [Option.filter_some, hp]
          show _ = none
          rw [find?_eq_none_iff]
          intro r hr hkey
          rcases mem_filter.mp hr with ⟨hr, hkeep⟩
          have heq := inj_on_of_nodup_map t.nodup hr hmem (by rw [hkey, hk])
          rw [heq, hp] at hkeep
          cases hkeep

end Table

end Rabbithole.Foundation
