import Mathlib.Tactic.Ring

/-!
# Single-precision numbers

Sign, exponent and mantissa, and the conversions from and to whole numbers: to the nearest
number there is, ties to the even one, and back to the nearest whole number, halves away from
zero.
-/

namespace Rabbithole.Foundation

structure Binary32 where
  sign : Bool
  exponent : BitVec 8
  mantissa : BitVec 23
deriving DecidableEq

namespace Binary32

def zero : Binary32 where
  sign := false
  exponent := 0
  mantissa := 0

def isZero (x : Binary32) : Bool :=
  x.exponent == 0 && x.mantissa == 0

def isFinite (x : Binary32) : Bool :=
  x.exponent != 255

def isNan (x : Binary32) : Bool :=
  !x.isFinite && x.mantissa != 0

/-- A number without its last bits, rounded to the nearest and a tie to the even one. -/
def roundHalfEven (n bits : Nat) : Nat :=
  let q := n / 2 ^ bits
  let r := n % 2 ^ bits
  if 2 ^ bits < 2 * r ∨ (2 * r = 2 ^ bits ∧ q % 2 = 1) then q + 1 else q

/-- The nearest number to a whole number. -/
def ofU32 (n : UInt32) : Binary32 :=
  if n = 0 then zero
  else
    let e := Nat.log2 n.toNat
    if e <= 23 then
      { sign := false
        exponent := BitVec.ofNat 8 (e + 127)
        mantissa := BitVec.ofNat 23 (n.toNat * 2 ^ (23 - e)) }
    else
      let rounded := roundHalfEven n.toNat (e - 23)
      { sign := false
        exponent := BitVec.ofNat 8 (if rounded = 2 ^ 24 then e + 128 else e + 127)
        mantissa := BitVec.ofNat 23 rounded }

/-- The mantissa with its leading bit, which subnormal numbers do not have. -/
def significand (x : Binary32) : Nat :=
  if x.exponent = 0 then x.mantissa.toNat else 2 ^ 23 + x.mantissa.toNat

/-- The nearest whole number, within what a word of 32 bits holds. -/
def roundToU32 (x : Binary32) : UInt32 :=
  if x.isNan || x.sign then 0
  else
    let e := max x.exponent.toNat 1
    let rounded :=
      if 150 <= e then x.significand * 2 ^ (e - 150)
      else (x.significand + 2 ^ (149 - e)) / 2 ^ (150 - e)
    UInt32.ofNat (min rounded (2 ^ 32 - 1))

example : (ofU32 16777217).roundToU32 = 16777216 := by
  decide

/-!
## Whole numbers of 24 bits are exact
-/

theorem ofU32_small {n : UInt32} (hpos : n ≠ 0) (h : n.toNat < 2 ^ 24) :
    exists e, e <= 23 ∧ (ofU32 n).sign = false ∧ (ofU32 n).exponent.toNat = e + 127 ∧
      2 ^ 23 + (ofU32 n).mantissa.toNat = n.toNat * 2 ^ (23 - e) := by
  have hne : n.toNat ≠ 0 := fun heq => hpos (UInt32.toNat_inj.mp heq)
  have he : Nat.log2 n.toNat <= 23 := Nat.le_of_lt_succ ((Nat.log2_lt hne).mpr h)
  have hlow : 2 ^ Nat.log2 n.toNat <= n.toNat := Nat.log2_self_le hne
  have hhigh : n.toNat < 2 ^ (Nat.log2 n.toNat + 1) := Nat.lt_log2_self
  have hof : ofU32 n =
      { sign := false
        exponent := BitVec.ofNat 8 (Nat.log2 n.toNat + 127)
        mantissa := BitVec.ofNat 23 (n.toNat * 2 ^ (23 - Nat.log2 n.toNat)) } := by
    unfold ofU32
    rw [if_neg hpos]
    exact if_pos he
  generalize Nat.log2 n.toNat = e at he hlow hhigh hof
  have htop : 2 ^ e * 2 ^ (23 - e) = 2 ^ 23 := by
    rw [← Nat.pow_add, Nat.add_sub_cancel' he]
  have hnext : 2 ^ (e + 1) * 2 ^ (23 - e) = 2 ^ 23 * 2 := by
    rw [← htop, Nat.pow_succ]
    ring
  have hlow' : 2 ^ 23 <= n.toNat * 2 ^ (23 - e) := by
    rw [← htop]
    exact Nat.mul_le_mul_right _ hlow
  have hhigh' : n.toNat * 2 ^ (23 - e) < 2 ^ 23 * 2 := by
    rw [← hnext]
    exact Nat.mul_lt_mul_of_pos_right hhigh (Nat.two_pow_pos _)
  refine ⟨e, he, ?_, ?_, ?_⟩
  · rw [hof]
  · rw [hof]
    show (e + 127) % 2 ^ 8 = e + 127
    exact Nat.mod_eq_of_lt (by omega)
  · rw [hof]
    show 2 ^ 23 + n.toNat * 2 ^ (23 - e) % 2 ^ 23 = n.toNat * 2 ^ (23 - e)
    omega

theorem roundToU32_ofU32 {n : UInt32} (h : n.toNat < 2 ^ 24) : (ofU32 n).roundToU32 = n := by
  by_cases hpos : n = 0
  · rw [hpos]
    decide
  · rcases ofU32_small hpos h with ⟨e, he, hsign, hexponent, hmantissa⟩
    have hzero : (ofU32 n).exponent ≠ 0 := by
      intro heq
      rw [heq] at hexponent
      exact absurd hexponent (by show 0 ≠ e + 127; omega)
    have hfinite : (ofU32 n).isFinite = true := by
      unfold isFinite
      rw [bne_iff_ne]
      intro heq
      rw [heq] at hexponent
      exact absurd hexponent (by show 255 ≠ e + 127; omega)
    have hsignificand : (ofU32 n).significand = n.toNat * 2 ^ (23 - e) := by
      unfold significand
      rw [if_neg hzero, hmantissa]
    have hmax : max (e + 127) 1 = e + 127 := by omega
    have hrounded : (if 150 <= e + 127 then n.toNat * 2 ^ (23 - e) * 2 ^ (e + 127 - 150)
        else (n.toNat * 2 ^ (23 - e) + 2 ^ (149 - (e + 127))) / 2 ^ (150 - (e + 127))) =
        n.toNat := by
      by_cases hlast : e = 23
      · subst hlast
        rw [if_pos (Nat.le_refl 150), Nat.pow_zero, Nat.mul_one, Nat.mul_one]
      · have hshift : 23 - e = 22 - e + 1 := by omega
        have hhalf : 2 ^ (22 - e) < 2 ^ (22 - e) * 2 := by
          have hpow := Nat.two_pow_pos (22 - e)
          omega
        have hexp : 149 - (e + 127) = 22 - e ∧ 150 - (e + 127) = 22 - e + 1 := by omega
        rw [if_neg (by omega), hexp.left, hexp.right, hshift, Nat.pow_succ, Nat.mul_comm,
          Nat.mul_add_div (Nat.mul_pos (Nat.two_pow_pos _) Nat.two_pos),
          Nat.div_eq_of_lt hhalf, Nat.add_zero]
    have hnan : (ofU32 n).isNan = false := by
      unfold isNan
      rw [hfinite]
      rfl
    unfold roundToU32
    rw [hnan, hsign, Bool.or_false, if_neg Bool.false_ne_true]
    dsimp only
    rw [hexponent, hmax, hsignificand, hrounded, Nat.min_eq_left (by omega)]
    exact UInt32.ofNat_toNat

end Binary32

end Rabbithole.Foundation
