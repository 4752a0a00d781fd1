import Mathlib.Data.List.Induction
import Rabbithole.Foundation.Listing

/-!
# Keyed lists

A list that is searched by a key, and changed in place or lengthened at a key.  What is
found in it after a change follows from what was found before.
-/

namespace Rabbithole.Foundation

open List

variable {item key rank : Type*}

section

variable [DecidableEq key]

def findKey (f : item -> key) (items : List item) (k : key) : Option item :=
  items.find? (fun a => decide (f a = k))

/-- Change the first item of a key, or put one at the end. -/
def upsert (f : item -> key) (k : key) (change : Option item -> item) : List item -> List item
  | [] => [change none]
  | a :: rest =>
      if f a = k then change (some a) :: rest else a :: upsert f k change rest

theorem findKey_cons (f : item -> key) (a : item) (items : List item) (k : key) :
    findKey f (a :: items) k = if f a = k then some a else findKey f items k := by
  unfold findKey
  rw [find?_cons]
  by_cases hkey : f a = k
  · rw [decide_eq_true hkey, if_pos hkey]
  · rw [decide_eq_false hkey, if_neg hkey]

variable {items : List item}

theorem key_of_findKey {f : item -> key} {k : key} {a : item} (h : findKey f items k = some a) :
    a ∈ items ∧ f a = k := by
  unfold findKey at h
  have hkey := find?_some h
  exact ⟨mem_of_find?_eq_some h, of_decide_eq_true hkey⟩

theorem findKey_eq_none_iff {f : item -> key} {k : key} :
    findKey f items k = none <-> forall a, a ∈ items -> f a ≠ k := by
  unfold findKey
  rw [find?_eq_none]
  simp only [decide_eq_true_eq]

theorem findKey_eq_some_iff {f : item -> key} {items : List item} (hnodup : (items.map f).Nodup)
    {k : key} {a : item} : findKey f items k = some a <-> a ∈ items ∧ f a = k := by
  constructor
  · exact key_of_findKey
  · rintro ⟨hmem, rfl⟩
    cases hfound : findKey f items (f a) with
    | none => exact absurd rfl (findKey_eq_none_iff.mp hfound a hmem)
    | some b =>
        rcases key_of_findKey hfound with ⟨hb, hkey⟩
        rw [inj_on_of_nodup_map hnodup hb hmem hkey]

/-- A change that leaves the key. -/
structure AtKey (f : item -> key) (k : key) (change : Option item -> item) : Prop where
  new : f (change none) = k
  old : forall a, f a = k -> f (change (some a)) = k

variable {f : item -> key} {k : key} {change : Option item -> item}

theorem map_upsert (h : AtKey f k change) (items : List item) :
    (upsert f k change items).map f =
      if k ∈ items.map f then items.map f else items.map f ++ [k] := by
  induction items with
  | nil =>
      rw [map_nil, if_neg not_mem_nil]
      exact congrArg (fun k => [k]) h.new
  | cons a items ih =>
      unfold upsert
      rw [map_cons]
      by_cases hkey : f a = k
      · rw [if_pos hkey, map_cons, h.old a hkey, if_pos (by rw [hkey]; exact mem_cons_self),
          hkey]
      · rw [if_neg hkey, map_cons, ih]
        by_cases hin : k ∈ items.map f
        · rw [if_pos hin, if_pos (mem_cons_of_mem _ hin)]
        · rw [if_neg hin, if_neg, cons_append]
          rw [mem_cons, not_or]
          exact ⟨fun heq => hkey heq.symm, hin⟩

theorem nodup_upsert (h : AtKey f k change) (hnodup : (items.map f).Nodup) :
    ((upsert f k change items).map f).Nodup := by
  rw [map_upsert h]
  split
  · exact hnodup
  · rename_i hnew
    exact nodup_append.mpr ⟨hnodup, nodup_singleton _, by
      intro a ha b hb heq
      rw [mem_singleton] at hb
      exact hnew (hb ▸ heq ▸ ha)⟩

theorem findKey_upsert (h : AtKey f k change) (items : List item) (k' : key) :
    findKey f (upsert f k change items) k' =
      if k' = k then some (change (findKey f items k)) else findKey f items k' := by
  induction items with
  | nil =>
      unfold upsert
      rw [findKey_cons, h.new]
      by_cases hk : k' = k
      · rw [if_pos hk.symm, if_pos hk]
        rfl
      · rw [if_neg (fun heq => hk heq.symm), if_neg hk]
  | cons a items ih =>
      unfold upsert
      rw [findKey_cons f a items k, findKey_cons f a items k']
      by_cases hkey : f a = k
      · rw [if_pos hkey, if_pos hkey, findKey_cons, h.old a hkey, hkey]
        by_cases hk : k' = k
        · rw [if_pos hk.symm, if_pos hk]
        · rw [if_neg (fun heq => hk heq.symm), if_neg hk, if_neg (fun heq => hk heq.symm)]
      · rw [if_neg hkey, if_neg hkey, findKey_cons, ih]
        by_cases hk : k' = k
        · rw [if_pos hk, if_neg (fun heq => hkey (heq.trans hk)), if_pos hk]
        · rw [if_neg hk, if_neg hk]

theorem mem_upsert {a : item} (hmem : a ∈ upsert f k change items) :
    a ∈ items ∨ a = change none ∨ exists b, b ∈ items ∧ a = change (some b) := by
  induction items with
  | nil => exact Or.inr (Or.inl (mem_singleton.mp hmem))
  | cons b items ih =>
      unfold upsert at hmem
      split at hmem
      · rcases mem_cons.mp hmem with rfl | hold
        · exact Or.inr (Or.inr ⟨b, mem_cons_self, rfl⟩)
        · exact Or.inl (mem_cons_of_mem _ hold)
      · rcases mem_cons.mp hmem with rfl | hrest
        · exact Or.inl mem_cons_self
        · rcases ih hrest with hold | hnew | ⟨c, hc, heq⟩
          · exact Or.inl (mem_cons_of_mem _ hold)
          · exact Or.inr (Or.inl hnew)
          · exact Or.inr (Or.inr ⟨c, mem_cons_of_mem _ hc, heq⟩)

end

/-!
## The first of the lowest rank
-/

section

variable [LinearOrder rank]

def lower (f : item -> rank) (a : item) : Option item -> item
  | none => a
  | some b => if f a < f b then a else b

def firstLeast (f : item -> rank) (items : List item) : Option item :=
  items.foldl (fun best a => some (lower f a best)) none

theorem firstLeast_concat (f : item -> rank) (items : List item) (a : item) :
    firstLeast f (items ++ [a]) = some (lower f a (firstLeast f items)) := by
  unfold firstLeast
  rw [foldl_append]
  rfl

variable {f : item -> rank} {items : List item}

theorem firstLeast_eq_none_iff : firstLeast f items = none <-> items = [] := by
  constructor
  · intro h
    rcases eq_nil_or_concat items with hnil | ⟨front, a, rfl⟩
    · exact hnil
    · rw [concat_eq_append, firstLeast_concat] at h
      cases h
  · rintro rfl
    rfl

theorem firstLeast_spec {a : item} (h : firstLeast f items = some a) :
    a ∈ items ∧ forall b, b ∈ items -> f a <= f b := by
  induction items using List.reverseRecOn generalizing a with
  | nil => cases h
  | append_singleton items c ih =>
      rw [firstLeast_concat] at h
      cases hbest : firstLeast f items with
      | none =>
          rw [firstLeast_eq_none_iff] at hbest
          rw [hbest] at h ⊢
          cases h
          refine ⟨mem_singleton.mpr rfl, ?_⟩
          intro b hb
          rw [nil_append, mem_singleton] at hb
          exact le_of_eq (by rw [hb]; rfl)
      | some best =>
          rw [hbest] at h
          rcases ih hbest with ⟨hmem, hleast⟩
          unfold lower at h
          simp only [Option.some.injEq] at h
          split at h
          · rename_i hless
            subst h
            refine ⟨mem_append_right _ (mem_singleton.mpr rfl), ?_⟩
            intro b hb
            rcases mem_append.mp hb with hold | hnew
            · exact le_of_lt (lt_of_lt_of_le hless (hleast b hold))
            · exact le_of_eq (by rw [mem_singleton.mp hnew])
          · rename_i hnot
            subst h
            refine ⟨mem_append_left _ hmem, ?_⟩
            intro b hb
            rcases mem_append.mp hb with hold | hnew
            · exact hleast b hold
            · rw [mem_singleton.mp hnew]
              exact le_of_not_gt hnot

theorem firstLeast_cons {a : item} (h : forall b, b ∈ items -> f a <= f b) :
    firstLeast f (a :: items) = some a := by
  induction items using List.reverseRecOn with
  | nil => rfl
  | append_singleton items c ih =>
      rw [<- cons_append, firstLeast_concat, ih (fun b hb => h b (mem_append_left _ hb))]
      have hle := h c (mem_append_right _ (mem_singleton.mpr rfl))
      unfold lower
      simp only [if_neg (not_lt_of_ge hle)]

theorem firstLeast_perm {items' : List item} (hperm : items.Perm items')
    (hone : forall a b, a ∈ items -> b ∈ items -> (forall c, c ∈ items -> f a <= f c) ->
      f a = f b -> a = b) : firstLeast f items = firstLeast f items' := by
  cases hfirst : firstLeast f items with
  | none =>
      rw [firstLeast_eq_none_iff] at hfirst
      rw [hfirst] at hperm
      rw [nil_perm.mp hperm]
      rfl
  | some a =>
      cases hsecond : firstLeast f items' with
      | none =>
          rw [firstLeast_eq_none_iff] at hsecond
          rw [hsecond] at hperm
          rw [perm_nil.mp hperm] at hfirst
          cases hfirst
      | some b =>
          rcases firstLeast_spec hfirst with ⟨ha, hleast⟩
          rcases firstLeast_spec hsecond with ⟨hb, hleast'⟩
          have hrank := le_antisymm (hleast b (hperm.mem_iff.mpr hb))
            (hleast' a (hperm.mem_iff.mp ha))
          rw [hone a b ha (hperm.mem_iff.mpr hb) hleast hrank]

end

end Rabbithole.Foundation
