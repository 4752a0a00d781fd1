import Mathlib.Algebra.Order.BigOperators.Group.List
import Mathlib.Algebra.Order.Group.Nat
import Rabbithole.Foundation.Listing

/-!
# Weighing a finite map

The sum over the entries of a measure that looks at the key as well.  It is the part of
one key and the part of the others, and the part of the others depends on these alone.
-/

namespace Rabbithole.Foundation
namespace Dict

variable {key value : Type*}

def weigh (measure : key -> value -> Nat) (d : Dict key value) : Nat :=
  (d.entries.map (fun entry => measure entry.fst entry.snd)).sum

variable [DecidableEq key]

theorem weigh_congr {measure measure' : key -> value -> Nat} {d d' : Dict key value}
    (hget : forall k, d.get? k = d'.get? k)
    (hmeasure : forall k v, d.get? k = some v -> measure k v = measure' k v) :
    d.weigh measure = d'.weigh measure' := by
  unfold weigh
  rw [<- ((entries_perm hget).map (fun entry => measure' entry.fst entry.snd)).sum_eq]
  congr 1
  apply List.map_congr_left
  intro entry hentry
  exact hmeasure entry.fst entry.snd (get?_eq_some_iff.mpr hentry)

theorem weigh_le {measure measure' : key -> value -> Nat} {d : Dict key value}
    (h : forall k v, d.get? k = some v -> measure k v <= measure' k v) :
    d.weigh measure <= d.weigh measure' := by
  unfold weigh
  apply List.sum_le_sum
  intro entry hentry
  exact h entry.fst entry.snd (get?_eq_some_iff.mpr hentry)

theorem weigh_split (measure : key -> value -> Nat) (d : Dict key value) (k : key) :
    d.weigh measure = ((d.get? k).map (measure k)).getD 0 + (d.erase k).weigh measure := by
  cases hk : d.get? k with
  | none =>
      have hsame : forall k', d.get? k' = (d.erase k).get? k' := by
        intro k'
        rw [get?_erase]
        split
        · rename_i heq
          rw [heq, hk]
        · rfl
      rw [weigh_congr hsame (fun _ _ _ => rfl)]
      exact (Nat.zero_add _).symm
  | some v =>
      have hsame : forall k', d.get? k' = (d.insert k v).get? k' := by
        intro k'
        rw [get?_insert]
        split
        · rename_i heq
          rw [heq, hk]
        · rfl
      rw [weigh_congr hsame (fun _ _ _ => rfl)]
      unfold weigh insert
      rw [List.map_cons, List.sum_cons]
      rfl

end Dict
end Rabbithole.Foundation
