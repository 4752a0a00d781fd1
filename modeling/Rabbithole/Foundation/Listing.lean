import Mathlib.Data.List.Lex
import Mathlib.Data.List.Sort
import Mathlib.Data.Prod.Lex
import Rabbithole.Foundation.Dict

/-!
# Listings

Items in the order of a key.  What is listed from a finite map does not depend on the
order in which the map happens to hold its entries, as long as no two items have the
same key.
-/

namespace Rabbithole.Foundation

open List

variable {item rank key value : Type*}

section

variable [LinearOrder rank]

def listBy (f : item -> rank) (items : List item) : List item :=
  items.insertionSort (fun a b => f a <= f b)

theorem perm_listBy (f : item -> rank) (items : List item) : (listBy f items).Perm items :=
  perm_insertionSort _ items

@[simp] theorem mem_listBy {f : item -> rank} {items : List item} {a : item} :
    a ∈ listBy f items <-> a ∈ items :=
  (perm_listBy f items).mem_iff

theorem pairwise_listBy (f : item -> rank) (items : List item) :
    (listBy f items).Pairwise (fun a b => f a <= f b) := by
  have htotal : Std.Total (fun a b : item => f a <= f b) := ⟨fun a b => le_total (f a) (f b)⟩
  have htrans : IsTrans item (fun a b => f a <= f b) := ⟨fun _ _ _ => le_trans⟩
  exact pairwise_insertionSort _ items

theorem listBy_perm {f : item -> rank} {items items' : List item} (hperm : items.Perm items')
    (hinj : forall a b, a ∈ items -> b ∈ items -> f a = f b -> a = b) :
    listBy f items = listBy f items' := by
  apply Perm.eq_of_pairwise _ (pairwise_listBy f items) (pairwise_listBy f items')
  · exact (perm_listBy f items).trans (hperm.trans (perm_listBy f items').symm)
  · intro a b ha hb hle hge
    rw [mem_listBy] at ha hb
    exact hinj a b ha (hperm.mem_iff.mpr hb) (le_antisymm hle hge)

theorem filter_orderedInsert (f : item -> rank) (r : rank) (a : item) (items : List item) :
    (items.orderedInsert (fun a b => f a <= f b) a).filter (fun b => decide (f b = r)) =
      (a :: items).filter (fun b => decide (f b = r)) := by
  induction items with
  | nil => rfl
  | cons b items ih =>
      rw [orderedInsert_cons]
      split
      · rfl
      · rename_i hbefore
        rw [filter_cons, ih, filter_cons, filter_cons, filter_cons]
        -- The two are not of one rank, so at most one of them is kept.
        by_cases ha : f a = r
        · have hb : f b ≠ r := by
            intro hb
            exact hbefore (le_of_eq (ha.trans hb.symm))
          simp only [ha, hb, decide_true, decide_false, if_true, Bool.false_eq_true, if_false]
        · simp only [ha, decide_false, Bool.false_eq_true, if_false]

theorem filter_listBy (f : item -> rank) (r : rank) (items : List item) :
    (listBy f items).filter (fun b => decide (f b = r)) =
      items.filter (fun b => decide (f b = r)) := by
  induction items with
  | nil => rfl
  | cons a items ih =>
      unfold listBy
      rw [insertionSort_cons, filter_orderedInsert, filter_cons, filter_cons]
      unfold listBy at ih
      rw [ih]

theorem listBy_perm_iff (f : item -> rank) (items : List item) :
    (forall items', items'.Perm items -> listBy f items' = listBy f items) <->
      forall a b, a ∈ items -> b ∈ items -> f a = f b -> a = b := by
  constructor
  · intro h a b ha hb hrank
    have hfront : forall c, c ∈ items -> f c = f a ->
        ((listBy f items).filter (fun d => decide (f d = f a))).head? = some c := by
      intro c hc hsame
      rcases append_of_mem hc with ⟨front, back, rfl⟩
      rw [← h (c :: (front ++ back)) perm_middle.symm, filter_listBy, filter_cons,
        if_pos (decide_eq_true hsame)]
      rfl
    have hfirst := hfront a ha rfl
    rw [hfront b hb hrank.symm] at hfirst
    exact (Option.some.inj hfirst).symm
  · intro h items' hperm
    exact (listBy_perm hperm.symm h).symm

end

namespace Dict

theorem nodup_entries (d : Dict key value) : d.entries.Nodup :=
  Nodup.of_map Prod.fst d.nodup

variable [DecidableEq key]

theorem entries_perm {d d' : Dict key value} (h : forall k, d.get? k = d'.get? k) :
    d.entries.Perm d'.entries := by
  apply (perm_ext_iff_of_nodup d.nodup_entries d'.nodup_entries).mpr
  intro entry
  rw [show entry = (entry.fst, entry.snd) from rfl, <- get?_eq_some_iff, <- get?_eq_some_iff,
    h entry.fst]

end Dict

end Rabbithole.Foundation
