import Mathlib.Tactic.Linarith

/-!
# Credit of a token bucket

A bucket starts full, gains at a steady rate up to its capacity, and gives tokens away.
With what it holds they never exceed the capacity and what the elapsed time earned, as long
as no stretch of time is counted twice.
-/

namespace Rabbithole.Foundation

variable {K : Type*} [Field K] [LinearOrder K] [IsStrictOrderedRing K]

/-- Taken and held are covered by the capacity and the elapsed time. -/
def Credit (capacity rate elapsed taken level : K) : Prop :=
  taken + level <= capacity + rate * elapsed

namespace Credit

variable {capacity rate elapsed passed taken level level' : K}

theorem fresh : Credit capacity rate 0 0 capacity := by
  unfold Credit
  linarith

section

variable (h : Credit capacity rate elapsed taken level)
include h

theorem gain (hlevel : level' <= level + rate * passed) :
    Credit capacity rate (elapsed + passed) taken level' := by
  unfold Credit at h ⊢
  rw [mul_add]
  linarith

theorem spend (cost : K) : Credit capacity rate elapsed (taken + cost) (level - cost) := by
  unfold Credit at h ⊢
  linarith

theorem take : Credit capacity rate elapsed (taken + 1) (level - 1) :=
  h.spend 1

theorem taken_le (hlevel : 0 <= level) : taken <= capacity + rate * elapsed := by
  unfold Credit at h
  linarith

end

end Credit

end Rabbithole.Foundation
