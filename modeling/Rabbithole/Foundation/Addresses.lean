import Rabbithole.Foundation.Text

/-!
# What readers take

A reader takes some characters from the front of a text.  Which and how many is known of a
reader from the readers it is made of; so the texts of addresses are short, and a colon tells
one kind from the other.
-/

namespace Rabbithole.Foundation

open List

/-- A reader that takes at most so many characters, all of one kind. -/
def Takes (p : Char -> Prop) (most : Nat) (read : List Char -> Option (List Char)) : Prop :=
  forall s rest, read s = some rest ->
    exists front, s = front ++ rest ∧ (forall c, c ∈ front -> p c) ∧ front.length <= most

section

variable {p : Char -> Prop} {most more : Nat} {read next : List Char -> Option (List Char)}

theorem Takes.bind (hread : Takes p most read) (hnext : Takes p more next) :
    Takes p (most + more) (fun s => (read s).bind next) := by
  intro s rest h
  rcases Option.bind_eq_some_iff.mp h with ⟨middle, hmiddle, hrest⟩
  rcases hread s middle hmiddle with ⟨front, rfl, hfront, hlength⟩
  rcases hnext middle rest hrest with ⟨back, rfl, hback, hlength'⟩
  refine ⟨front ++ back, (append_assoc front back rest).symm, ?_, ?_⟩
  · intro c hc
    rcases mem_append.mp hc with hc | hc
    · exact hfront c hc
    · exact hback c hc
  · rw [length_append]
    omega

theorem Takes.mono {p' : Char -> Prop} {most' : Nat} (h : Takes p most read)
    (hp : forall c, p c -> p' c) (hmost : most <= most') : Takes p' most' read := by
  intro s rest hs
  rcases h s rest hs with ⟨front, heq, hfront, hlength⟩
  exact ⟨front, heq, fun c hc => hp c (hfront c hc), Nat.le_trans hlength hmost⟩

theorem takes_readNumber (radix maxDigits max : Nat) (zeroPrefix : Bool) :
    Takes (fun c => (toDigit radix c).isSome = true) maxDigits
      (readNumber radix maxDigits max zeroPrefix) := by
  intro s rest h
  unfold readNumber at h
  generalize hdigits : s.takeWhile (fun c => (toDigit radix c).isSome) = digits at h
  have hs : s = digits ++ s.drop digits.length := by
    have hprefix := takeWhile_prefix (l := s) (fun c => (toDigit radix c).isSome)
    rw [hdigits] at hprefix
    rcases hprefix with ⟨back, hback⟩
    rw [← hback, drop_left]
  dsimp only at h
  split at h
  · cases h
  · rename_i hcount
    split at h
    · cases h
    · split at h
      · cases h
        refine ⟨digits, hs, ?_, by omega⟩
        intro c hc
        rw [← hdigits] at hc
        exact mem_takeWhile_imp (p := fun c => (toDigit radix c).isSome) hc
      · cases h

theorem Takes.eq_of_readSeparator {sep : Char} {index : Nat} {s rest : List Char}
    (hread : Takes p most read) (hsep : p sep) (h : readSeparator sep index read s = some rest) :
    exists front, s = front ++ rest ∧ (forall c, c ∈ front -> p c) ∧ front.length <= most + 1 ∧
      (0 < index -> sep ∈ front) := by
  unfold readSeparator at h
  split at h
  · rename_i hindex
    rcases hread s rest h with ⟨front, heq, hfront, hlength⟩
    exact ⟨front, heq, hfront, by omega, by omega⟩
  · cases s with
    | nil => cases h
    | cons c behind =>
        dsimp only at h
        split at h
        · rename_i hc
          rcases hread behind rest h with ⟨front, rfl, hfront, hlength⟩
          refine ⟨sep :: front, by rw [hc]; rfl, ?_, by rw [length_cons]; omega,
            fun _ => mem_cons_self⟩
          intro d hd
          rcases mem_cons.mp hd with rfl | hd
          · exact hsep
          · exact hfront d hd
        · cases h

theorem Takes.readSeparator {sep : Char} (index : Nat) (hread : Takes p most read) (hsep : p sep) :
    Takes p (most + 1) (readSeparator sep index read) := by
  intro s rest h
  rcases hread.eq_of_readSeparator hsep h with ⟨front, heq, hfront, hlength, -⟩
  exact ⟨front, heq, hfront, hlength⟩

end

/-!
## Addresses of four parts
-/

/-- A digit in decimal, or a dot. -/
def IsIpv4Char (c : Char) : Prop :=
  (toDigit 10 c).isSome = true ∨ c = '.'

theorem takes_readIpv4 : Takes IsIpv4Char 15 readIpv4 := by
  have hpart : forall index, Takes IsIpv4Char 4 (readIpv4Part index) := by
    intro index
    apply Takes.readSeparator index _ (Or.inr rfl)
    exact (takes_readNumber 10 3 255 false).mono (fun c hc => Or.inl hc) (Nat.le_refl 3)
  have hfirst : Takes IsIpv4Char 3 (readIpv4Part 0) :=
    (takes_readNumber 10 3 255 false).mono (fun c hc => Or.inl hc) (Nat.le_refl 3)
  exact ((hfirst.bind (hpart 1)).bind (hpart 2)).bind (hpart 3)

theorem not_isIpv4Char_colon : ¬ IsIpv4Char ':' := by
  unfold IsIpv4Char
  decide

theorem colon_not_mem_of_readIpv4 {s : List Char} (h : readIpv4 s = some []) : ':' ∉ s := by
  rcases takes_readIpv4 s [] h with ⟨front, rfl, hfront, -⟩
  rw [append_nil]
  intro hmem
  exact not_isIpv4Char_colon (hfront ':' hmem)

/-!
## Addresses of eight groups
-/

/--
So many characters are taken with the groups, an address of four parts among them or not; and
every group behind another has its colon.
-/
theorem readGroups_takes {left index size : Nat} {v4 : Bool} {s rest : List Char}
    (h : readGroups left index s = (size, v4, rest)) :
    exists front, s = front ++ rest ∧ index <= size ∧ size <= index + left ∧
      front.length <= 5 * (size - index) + (if v4 then 6 else 0) ∧
      (index + 2 < size ∨ (0 < index ∧ index < size) -> ':' ∈ front) := by
  induction left generalizing index s with
  | zero =>
      cases h
      exact ⟨[], rfl, Nat.le_refl _, Nat.le_refl _, Nat.zero_le _, by omega⟩
  | succ left ih =>
      have hv4 : Takes (fun _ => True) 15 readIpv4 :=
        takes_readIpv4.mono (fun _ _ => trivial) (Nat.le_refl 15)
      have hgroup : Takes (fun _ => True) 4 (readNumber 16 4 65535 true) :=
        (takes_readNumber 16 4 65535 true).mono (fun _ _ => trivial) (Nat.le_refl 4)
      unfold readGroups at h
      split at h
      · rename_i behind hread
        cases h
        split at hread
        · rename_i hleft
          rcases hv4.eq_of_readSeparator trivial hread with ⟨front, hs, -, hlength, hcolon⟩
          refine ⟨front, hs, by omega, by omega, by rw [if_pos rfl]; omega, ?_⟩
          intro hmany
          exact hcolon (by omega)
        · cases hread
      · split at h
        · rename_i behind hread
          rcases hgroup.eq_of_readSeparator trivial hread with ⟨front, hs, -, hlength, hcolon⟩
          rcases ih h with ⟨back, hbehind, hle, hbound, hback, hmore⟩
          refine ⟨front ++ back, ?_, by omega, by omega, ?_, ?_⟩
          · rw [hs, hbehind, append_assoc]
          · rw [length_append]
            omega
          · intro hmany
            rcases Nat.lt_or_ge (index + 1) size with hlt | hlast
            · exact mem_append_right front (hmore (Or.inr ⟨Nat.succ_pos index, hlt⟩))
            · exact mem_append_left back (hcolon (by omega))
        · cases h
          exact ⟨[], rfl, Nat.le_refl _, by omega, Nat.zero_le _, by omega⟩

theorem readIpv6_takes {s rest : List Char} (h : readIpv6 s = some rest) :
    exists front, s = front ++ rest ∧ front.length <= 46 ∧ ':' ∈ front := by
  unfold readIpv6 at h
  rcases hgroups : readGroups 8 0 s with ⟨size, v4, behind⟩
  rcases readGroups_takes hgroups with ⟨front, hs, -, hsize, hlength, hcolon⟩
  rw [hgroups] at h
  dsimp only at h
  split at h
  · rename_i hall
    cases h
    refine ⟨front, hs, ?_, hcolon (by omega)⟩
    cases v4 with
    | true =>
        rw [if_pos rfl] at hlength
        omega
    | false =>
        rw [if_neg Bool.false_ne_true] at hlength
        omega
  · split at h
    · cases h
    · rename_i hv4
      rw [if_neg hv4] at hlength
      split at h
      · rename_i tail
        rcases hmore : readGroups (8 - (size + 1)) 0 tail with ⟨size', v4', behind'⟩
        rcases readGroups_takes hmore with ⟨back, htail, -, hsize', hlength', -⟩
        rw [hmore] at h
        cases h
        refine ⟨front ++ ':' :: ':' :: back, ?_, ?_, ?_⟩
        · rw [hs, htail, append_assoc]
          rfl
        · have hback : back.length <= 5 * size' + 6 := by
            refine Nat.le_trans hlength' ?_
            split
            · omega
            · omega
          rw [length_append, length_cons, length_cons]
          omega
        · exact mem_append_right front mem_cons_self
      · cases h

theorem isIpv6Addr_short {s : List Char} (h : isIpv6Addr s = true) : s.length <= 46 ∧ ':' ∈ s := by
  rcases readIpv6_takes (eq_of_beq h) with ⟨front, rfl, hlength, hcolon⟩
  rw [append_nil]
  exact ⟨hlength, hcolon⟩

theorem readIpv4_of_isIpv6Addr {s : List Char} (h : isIpv6Addr s = true) : readIpv4 s = none := by
  have hread : readIpv6 s = some [] := eq_of_beq h
  cases hv4 : readIpv4 s with
  | none => rfl
  | some rest =>
      have hgroups : readGroups 8 0 s = (2, true, rest) := by
        have hseparator : readSeparator ':' 0 readIpv4 s = some rest := hv4
        unfold readGroups
        rw [if_pos (by decide), hseparator]
      unfold readIpv6 at hread
      rw [hgroups] at hread
      cases hread

theorem isIpAddr_iff (s : List Char) :
    isIpAddr s = true <-> readIpv4 s = some [] ∨ isIpv6Addr s = true := by
  unfold isIpAddr
  cases hv4 : readIpv4 s with
  | none => simp
  | some rest =>
      have hnot : ¬ isIpv6Addr s = true := by
        intro hv6
        rw [readIpv4_of_isIpv6Addr hv6] at hv4
        cases hv4
      simp [hnot]

end Rabbithole.Foundation
