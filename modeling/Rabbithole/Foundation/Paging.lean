import Mathlib.Data.List.Perm.Subperm
import Rabbithole.Foundation.Listing

/-!
# Pages of a listing

A listing by a key that no two items share is strictly ordered.  Its first page can be
read from the first pages of its parts.
-/

namespace Rabbithole.Foundation

open List

variable {item rank : Type*} [LinearOrder rank] {f : item -> rank} {items a b : List item}

theorem strict_listBy (h : (items.map f).Nodup) :
    (listBy f items).Pairwise (fun x y => f x < f y) := by
  have hnodup : ((listBy f items).map f).Nodup := ((perm_listBy f items).map f).nodup_iff.mpr h
  rw [nodup_iff_pairwise_ne, pairwise_map] at hnodup
  exact ((pairwise_listBy f items).and hnodup).imp
    (fun hboth => lt_of_le_of_ne hboth.left hboth.right)

theorem nodup_listBy (h : (items.map f).Nodup) : (listBy f items).Nodup :=
  (perm_listBy f items).nodup_iff.mpr (Nodup.of_map f h)

theorem listBy_eq_of_strict {l : List item} (h : l.Pairwise (fun x y => f x < f y))
    (hperm : items.Perm l) : listBy f items = l := by
  apply Perm.eq_of_pairwise _ (pairwise_listBy f items) (h.imp le_of_lt)
  · exact (perm_listBy f items).trans hperm
  · intro x y hx hy hle hge
    have hsame : f x = f y := le_antisymm hle hge
    have hnodup : (l.map f).Nodup := by
      rw [nodup_iff_pairwise_ne, pairwise_map]
      exact h.imp ne_of_lt
    exact inj_on_of_nodup_map hnodup (hperm.subset (mem_listBy.mp hx)) hy hsame

theorem listBy_filter (h : (items.map f).Nodup) (p : item -> Bool) :
    listBy f (items.filter p) = (listBy f items).filter p :=
  listBy_eq_of_strict ((strict_listBy h).filter p) ((perm_listBy f items).symm.filter p)

/-- An item of the first page of the whole is on the first page of its own part: the page
of the part is full of items before it otherwise, and these are before it in the whole. -/
theorem mem_take_part (h : (items.map f).Nodup) {part : List item}
    (hpart : (part.map f).Nodup) (hsub : part ⊆ items) {n : Nat} {x : item}
    (hx : x ∈ (listBy f items).take n) (hmem : x ∈ part) : x ∈ (listBy f part).take n := by
  by_contra hout
  have hstrict := strict_listBy h
  have hpartStrict := strict_listBy hpart
  have hsplit : x ∈ (listBy f part).take n ++ (listBy f part).drop n := by
    rw [take_append_drop]
    exact mem_listBy.mpr hmem
  rw [<- take_append_drop n (listBy f part)] at hpartStrict
  have hlater : x ∈ (listBy f part).drop n := (mem_append.mp hsplit).resolve_left hout
  have hbefore : forall y, y ∈ (listBy f part).take n -> f y < f x :=
    fun y hy => (pairwise_append.mp hpartStrict).right.right y hy x hlater
  -- the page of the part is full
  have hfull : ((listBy f part).take n).length = n := by
    rw [length_take]
    have hlong := length_pos_of_mem hlater
    rw [length_drop] at hlong
    omega
  -- and all of it is on the page of the whole, before the item
  have hinto : (listBy f part).take n ⊆
      ((listBy f items).take n).filter (fun y => decide (f y < f x)) := by
    intro y hy
    rw [mem_filter, decide_eq_true_eq]
    refine ⟨?_, hbefore y hy⟩
    have hwhole : y ∈ (listBy f items).take n ++ (listBy f items).drop n := by
      rw [take_append_drop, mem_listBy]
      exact hsub (mem_listBy.mp (mem_of_mem_take hy))
    rcases mem_append.mp hwhole with hearly | hlate
    · exact hearly
    · rw [<- take_append_drop n (listBy f items)] at hstrict
      have hafter := (pairwise_append.mp hstrict).right.right x hx y hlate
      exact absurd hafter (lt_asymm (hbefore y hy))
  have hnodup := (nodup_listBy hpart).sublist (take_sublist n _)
  have hcount := (subperm_of_subset hnodup hinto).length_le
  have hless : (((listBy f items).take n).filter (fun y => decide (f y < f x))).length <
      ((listBy f items).take n).length :=
    length_filter_lt_length_iff_exists.mpr
      ⟨x, hx, fun hlt => lt_irrefl _ (of_decide_eq_true hlt)⟩
  have hpage := length_take_le n (listBy f items)
  omega

theorem take_listBy_append (h : ((a ++ b).map f).Nodup) (n : Nat) :
    (listBy f ((listBy f a).take n ++ (listBy f b).take n)).take n =
      (listBy f (a ++ b)).take n := by
  have hparts := nodup_append.mp (map_append ▸ h)
  classical
  let kept : item -> Bool := fun x => decide (x ∈ (listBy f a).take n ++ (listBy f b).take n)
  have hsorted : listBy f ((listBy f a).take n ++ (listBy f b).take n) =
      (listBy f (a ++ b)).filter kept := by
    apply listBy_eq_of_strict ((strict_listBy h).filter kept)
    apply (perm_ext_iff_of_nodup _ ((nodup_listBy h).filter kept)).mpr
    · intro x
      rw [mem_filter, mem_listBy, decide_eq_true_eq]
      constructor
      · intro hx
        refine ⟨?_, hx⟩
        rcases mem_append.mp hx with hxa | hxb
        · exact mem_append_left _ (mem_listBy.mp (mem_of_mem_take hxa))
        · exact mem_append_right _ (mem_listBy.mp (mem_of_mem_take hxb))
      · exact fun hx => hx.right
    · have hboth : (listBy f a ++ listBy f b).Nodup :=
        ((perm_listBy f a).append (perm_listBy f b)).nodup_iff.mpr (Nodup.of_map f h)
      exact hboth.sublist ((take_sublist n _).append (take_sublist n _))
  have hfront : ((listBy f (a ++ b)).take n).filter kept = (listBy f (a ++ b)).take n := by
    rw [filter_eq_self]
    intro x hx
    rw [decide_eq_true_eq]
    rcases mem_append.mp (mem_listBy.mp (mem_of_mem_take hx)) with hxa | hxb
    · exact mem_append_left _
        (mem_take_part h hparts.left (subset_append_left a b) hx hxa)
    · exact mem_append_right _
        (mem_take_part h hparts.right.left (subset_append_right a b) hx hxb)
  rw [hsorted]
  conv_lhs => rw [<- take_append_drop n (listBy f (a ++ b)), filter_append, hfront]
  by_cases hlong : n <= (listBy f (a ++ b)).length
  · rw [take_append_of_le_length (by rw [length_take, Nat.min_eq_left hlong]),
      take_take, Nat.min_self]
  · rw [drop_eq_nil_of_le (Nat.le_of_not_le hlong), filter_nil, append_nil,
      take_take, Nat.min_self]

end Rabbithole.Foundation
