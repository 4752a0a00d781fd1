import Mathlib.Data.List.Forall2
import Mathlib.Data.List.Induction

/-!
# Newsgroup patterns

A pattern is a list of items between commas, and the last item whose glob matches a name
decides about it.  A glob is matched by a loop that remembers one star: where the pattern
goes on behind it, and how much of the text it has not taken.
-/

namespace Rabbithole.Nntp

open List

/-!
## The loop
-/

/-- A star to come back to: the pattern behind it, and the text from where it was tried. -/
abbrev Star : Type := List Char × List Char

/-- How much text a star can still be made to take. -/
def reach (star : Option Star) (text : List Char) : Nat :=
  match star with
  | some (_, kept) => kept.length
  | none => text.length + 1

/-- What is left of the pattern and of the text, and the star that was met last. -/
structure Globbing where
  pat : List Char
  text : List Char
  star : Option Star
  ahead : text.length <= reach star text

namespace Globbing

def start (pat text : List Char) : Globbing :=
  ⟨pat, text, none, Nat.le_succ _⟩

def meet (behind text : List Char) : Globbing :=
  ⟨behind, text, some (behind, text), Nat.le_refl _⟩

end Globbing

theorem reach_cons {star : Option Star} {c : Char} {text : List Char}
    (h : (c :: text).length <= reach star (c :: text)) : text.length <= reach star text := by
  cases star with
  | none => exact Nat.le_succ _
  | some entry => exact Nat.le_of_succ_le h

theorem length_tail_lt_of_pos {l : List Char} (h : 0 < l.length) : l.tail.length < l.length := by
  rw [length_tail]
  exact Nat.sub_lt h Nat.one_pos

theorem length_tail_lt {l : List Char} {c : Char} (h : l.head? = some c) :
    l.tail.length < l.length := by
  apply length_tail_lt_of_pos
  cases l with
  | nil => cases h
  | cons d l => exact Nat.succ_pos _

def globLoop (s : Globbing) : Bool :=
  match htext : s.text with
  | [] => s.pat.all (fun c => c == '*')
  | c :: text =>
      if s.pat.head? = some '?' ∨ s.pat.head? = some c then
        globLoop ⟨s.pat.tail, text, s.star, reach_cons (htext ▸ s.ahead)⟩
      else if s.pat.head? = some '*' then globLoop (Globbing.meet s.pat.tail s.text)
      else
        match hstar : s.star with
        -- a mismatch: the star takes one more character
        | some (behind, kept) => globLoop (Globbing.meet behind kept.tail)
        | none => false
termination_by (reach s.star s.text, s.pat.length + s.text.length)
decreasing_by
  · rw [htext]
    apply Prod.Lex.right'
    · cases s.star with
      | none => exact Nat.le_succ _
      | some entry => exact Nat.le_refl _
    · rw [length_cons]
      exact Nat.add_lt_add_of_le_of_lt (length_tail ▸ Nat.sub_le _ _) (Nat.lt_succ_self _)
  · rename_i hstar
    apply Prod.Lex.right'
    · exact s.ahead
    · exact Nat.add_lt_add_right (length_tail_lt hstar) _
  · apply Prod.Lex.left
    have hahead := s.ahead
    rw [hstar, htext] at hahead
    show kept.tail.length < reach s.star s.text
    rw [hstar]
    exact length_tail_lt_of_pos (Nat.lt_of_lt_of_le (Nat.succ_pos _) hahead)

def globMatch (pat text : List Char) : Bool :=
  globLoop (Globbing.start pat text)

def negated (item : List Char) : Bool :=
  item.head? == some '!'

def body (item : List Char) : List Char :=
  if negated item then item.tail else item

def Wildmat.matches (pattern name : List Char) : Bool :=
  (pattern.splitOn ',').foldl
    (fun result item => if globMatch (body item) name then !negated item else result) false

/-!
## What a glob says

The definition cuts the name into pieces, one for each character of the pattern.  The loop
compares before it looks for a star, so a star before a star of the name takes just that one.
-/

def Takes (x : Char) (piece : List Char) : Prop :=
  if x = '*' then True
  else if x = '?' then piece.length = 1
  else piece = [x]

def Glob (pat name : List Char) : Prop :=
  exists pieces, Forall₂ Takes pat pieces ∧ pieces.flatten = name

def Tight : List Char -> List Char -> Prop
  | [], name => name = []
  | x :: pat, name =>
      if x = '*' then
        if name.head? = some '*' then Tight pat name.tail
        else exists rest, rest <:+ name ∧ Tight pat rest
      else
        match name with
        | [] => False
        | c :: rest => (x = '?' ∨ x = c) ∧ Tight pat rest

/-- The character takes the one it stands before. -/
def One (x c : Char) : Prop :=
  x = '?' ∨ x = c

variable {x c : Char} {pat name text seg w rest : List Char}

theorem tight_one (h : One x c) : Tight (x :: pat) (c :: text) <-> Tight pat text := by
  rw [Tight]
  split
  · rename_i hstar
    have hc : c = '*' := by
      rcases h with hone | heq
      · cases hstar.symm.trans hone
      · rw [<- heq, hstar]
    rw [head?_cons, if_pos (congrArg some hc)]
    exact Iff.rfl
  · exact and_iff_right h

theorem tight_star (hc : c ≠ '*') :
    Tight ('*' :: pat) (c :: text) <-> exists rest, rest <:+ c :: text ∧ Tight pat rest := by
  rw [Tight, if_pos rfl, head?_cons, if_neg (fun h => hc (Option.some.inj h))]

theorem not_tight (h : ¬ One x c) (hstar : x ≠ '*') : ¬ Tight (x :: pat) (c :: text) := by
  rw [Tight, if_neg hstar]
  exact fun htight => h htight.left

theorem tight_nil : Tight pat [] <-> pat.all (fun c => c == '*') = true := by
  induction pat with
  | nil => exact Iff.intro (fun _ => rfl) (fun _ => rfl)
  | cons x pat ih =>
      rw [Tight, all_cons, Bool.and_eq_true, beq_iff_eq, <- ih]
      split
      · rename_i hstar
        rw [if_neg (fun h => nomatch h)]
        constructor
        · rintro ⟨rest, hsuffix, htight⟩
          rw [suffix_nil.mp hsuffix] at htight
          exact ⟨hstar, htight⟩
        · intro htight
          exact ⟨[], nil_suffix, htight.right⟩
      · rename_i hstar
        exact Iff.intro False.elim (fun h => hstar h.left)

theorem tight_cons (hstar : x ≠ '*') : Tight (x :: pat) name <->
    exists c rest, name = c :: rest ∧ One x c ∧ Tight pat rest := by
  cases name with
  | nil =>
      rw [Tight, if_neg hstar]
      exact Iff.intro False.elim (fun ⟨_, _, hnil, _⟩ => nomatch hnil)
  | cons c rest =>
      rw [Tight, if_neg hstar]
      constructor
      · exact fun h => ⟨c, rest, rfl, h⟩
      · rintro ⟨_, _, heq, h⟩
        cases heq
        exact h

theorem Tight.behind (h : Tight (x :: pat) name) : exists rest, rest <:+ name ∧ Tight pat rest := by
  by_cases hstar : x = '*'
  · unfold Tight at h
    rw [if_pos hstar] at h
    split at h
    · exact ⟨name.tail, tail_suffix name, h⟩
    · exact h
  · rcases (tight_cons hstar).mp h with ⟨c, rest, rfl, -, htight⟩
    exact ⟨rest, suffix_cons c rest, htight⟩

theorem tight_along (h : Forall₂ One seg w) :
    Tight (seg ++ pat) (w ++ text) <-> Tight pat text := by
  induction h with
  | nil => exact Iff.rfl
  | cons hone _ ih =>
      rw [cons_append, cons_append, tight_one hone]
      exact ih

/-- A match that starts later is never behind one that takes a character at a time: where
the two meet, they go on together. -/
theorem tight_catch_up (h : Forall₂ One seg w) (hsuffix : rest <:+ w ++ text)
    (htight : Tight (seg ++ pat) rest) : exists rest', rest' <:+ text ∧ Tight pat rest' := by
  induction h generalizing rest with
  | nil => exact ⟨rest, hsuffix, htight⟩
  | @cons x c seg w hone _ ih =>
      rw [cons_append] at hsuffix htight
      rcases suffix_cons_iff.mp hsuffix with heq | hlater
      · rw [heq, tight_one hone] at htight
        exact ih suffix_rfl htight
      · rcases htight.behind with ⟨behind, hbehind, htight⟩
        exact ih (hbehind.trans hlater) htight

/-!
## The loop finds every such match
-/

theorem cons_of_head (h : pat.head? = some '?' ∨ pat.head? = some c) :
    exists x rest, pat = x :: rest ∧ One x c := by
  cases pat with
  | nil => rcases h with h | h <;> cases h
  | cons x rest =>
      refine ⟨x, rest, rfl, ?_⟩
      rcases h with h | h
      · exact Or.inl (Option.some.inj h)
      · exact Or.inr (Option.some.inj h)

theorem not_tight_head (hone : ¬ (pat.head? = some '?' ∨ pat.head? = some c))
    (hstar : pat.head? ≠ some '*') : ¬ Tight pat (c :: text) := by
  cases pat with
  | nil => exact fun h => nomatch h
  | cons x rest =>
      apply not_tight
      · rintro (rfl | rfl)
        · exact hone (Or.inl rfl)
        · exact hone (Or.inr rfl)
      · rintro rfl
        exact hstar rfl

namespace Globbing

/-- Since the star was met, each character has taken one. -/
def Along (s : Globbing) : Prop :=
  forall behind kept, s.star = some (behind, kept) ->
    exists seg w, behind = seg ++ s.pat ∧ kept = w ++ s.text ∧ Forall₂ One seg w

/-- There is a match from here, or from where the star can still be made to take more. -/
def Accepts (s : Globbing) : Prop :=
  match s.star with
  | none => Tight s.pat s.text
  | some (behind, kept) => exists rest, rest <:+ kept ∧ Tight behind rest

theorem along_meet (behind text : List Char) : (meet behind text).Along := by
  intro behind' kept heq
  cases heq
  exact ⟨[], [], rfl, rfl, Forall₂.nil⟩

theorem accepts_meet (behind text : List Char) :
    (meet behind text).Accepts <-> exists rest, rest <:+ text ∧ Tight behind rest :=
  Iff.rfl

theorem accepts_one {s : Globbing} {ahead : text.length <= reach s.star text}
    (htext : s.text = c :: text) (hone : s.pat.head? = some '?' ∨ s.pat.head? = some c)
    (h : s.Along) :
    (⟨s.pat.tail, text, s.star, ahead⟩ : Globbing).Along ∧
      ((⟨s.pat.tail, text, s.star, ahead⟩ : Globbing).Accepts <-> s.Accepts) := by
  rcases cons_of_head hone with ⟨x, pat, hpat, hone⟩
  rw [hpat, tail_cons]
  constructor
  · intro behind kept hstar
    rcases h behind kept hstar with ⟨seg, w, hbehind, hkept, halong⟩
    refine ⟨seg ++ [x], w ++ [c], ?_, ?_, ?_⟩
    · rw [hbehind, hpat, append_assoc, singleton_append]
    · rw [hkept, htext, append_assoc, singleton_append]
    · exact rel_append halong (Forall₂.cons hone Forall₂.nil)
  · unfold Accepts
    simp only []
    split
    · rw [htext, hpat, tight_one hone]
    · exact Iff.rfl

theorem accepts_star {s : Globbing} (htext : s.text = c :: text) (hpat : s.pat = '*' :: pat)
    (hc : c ≠ '*') (h : s.Along) :
    s.Accepts <-> exists rest, rest <:+ c :: text ∧ Tight pat rest := by
  unfold Accepts
  split
  · rw [htext, hpat, tight_star hc]
  · rename_i behind kept hstar
    rcases h behind kept hstar with ⟨seg, w, hbehind, hkept, halong⟩
    rw [hbehind, hkept, htext, hpat]
    constructor
    · rintro ⟨rest, hsuffix, htight⟩
      rcases tight_catch_up halong hsuffix htight with ⟨rest', hsuffix', htight'⟩
      rcases htight'.behind with ⟨rest'', hsuffix'', htight''⟩
      exact ⟨rest'', hsuffix''.trans hsuffix', htight''⟩
    · intro hrest
      exact ⟨w ++ c :: text, suffix_rfl, (tight_along halong).mpr ((tight_star hc).mpr hrest)⟩

theorem accepts_mismatch {s : Globbing} (htext : s.text = c :: text)
    (hpat : ¬ Tight s.pat (c :: text)) (h : s.Along) :
    s.Accepts <-> exists behind kept, s.star = some (behind, kept) ∧
      exists rest, rest <:+ kept.tail ∧ Tight behind rest := by
  unfold Accepts
  split
  · rename_i hstar
    rw [htext]
    constructor
    · exact fun htight => absurd htight hpat
    · rintro ⟨behind, kept, hsome, -⟩
      cases hstar.symm.trans hsome
  · rename_i behind kept hstar
    rcases h behind kept hstar with ⟨seg, w, hbehind, hkept, halong⟩
    constructor
    · rintro ⟨rest, hsuffix, htight⟩
      refine ⟨behind, kept, hstar, rest, ?_, htight⟩
      cases hfirst : kept with
      | nil =>
          rw [hfirst] at hsuffix
          exact hsuffix
      | cons d later =>
          rw [hfirst] at hsuffix
          rcases suffix_cons_iff.mp hsuffix with heq | hlater
          · rw [heq, <- hfirst, hbehind, hkept, tight_along halong, htext] at htight
            exact absurd htight hpat
          · exact hlater
    · rintro ⟨behind', kept', hsome, rest, hsuffix, htight⟩
      cases hstar.symm.trans hsome
      exact ⟨rest, hsuffix.trans (tail_suffix kept), htight⟩

theorem accepts_end {s : Globbing} (htext : s.text = []) (h : s.Along) :
    s.Accepts <-> s.pat.all (fun c => c == '*') = true := by
  rw [<- tight_nil]
  unfold Accepts
  split
  · rw [htext]
  · rename_i behind kept hstar
    rcases h behind kept hstar with ⟨seg, w, hbehind, hkept, halong⟩
    rw [hbehind, hkept, htext]
    constructor
    · rintro ⟨rest, hsuffix, htight⟩
      rcases tight_catch_up halong hsuffix htight with ⟨rest', hsuffix', htight'⟩
      rw [suffix_nil.mp hsuffix'] at htight'
      exact htight'
    · intro htight
      exact ⟨w ++ [], suffix_rfl, (tight_along halong).mpr htight⟩

end Globbing

open Globbing in
theorem globLoop_iff {s : Globbing} (h : s.Along) : globLoop s = true <-> s.Accepts := by
  fun_induction globLoop s with
  | case1 s htext => exact (accepts_end htext h).symm
  | case2 s c text htext hone ih =>
      have hahead := reach_cons (htext ▸ s.ahead)
      have hnext := @accepts_one c text s hahead htext hone h
      rw [ih hnext.left, hnext.right]
  | case3 s c text htext hone hstar ih =>
      rw [ih (along_meet _ _), accepts_meet, htext]
      cases hpat : s.pat with
      | nil =>
          rw [hpat] at hstar
          cases hstar
      | cons x pat =>
          rw [hpat] at hstar
          cases hstar
          have hc : c ≠ '*' := by
            rintro rfl
            exact hone (Or.inr (congrArg List.head? hpat))
          exact (accepts_star htext hpat hc h).symm
  | case4 s c text htext hone hmeet behind kept hstar ih =>
      rw [ih (along_meet _ _), accepts_meet, accepts_mismatch htext (not_tight_head hone hmeet) h]
      constructor
      · exact fun hrest => ⟨behind, kept, hstar, hrest⟩
      · rintro ⟨behind', kept', hsome, hrest⟩
        cases hstar.symm.trans hsome
        exact hrest
  | case5 s c text htext hone hmeet hstar =>
      rw [accepts_mismatch htext (not_tight_head hone hmeet) h]
      constructor
      · exact fun hfalse => nomatch hfalse
      · rintro ⟨behind, kept, hsome, -⟩
        cases hstar.symm.trans hsome

theorem globMatch_iff : globMatch pat text = true <-> Tight pat text := by
  unfold globMatch
  exact globLoop_iff (fun _ _ h => nomatch h)

/-!
## Against the definition
-/

theorem glob_cons : Glob (x :: pat) name <->
    exists piece rest, name = piece ++ rest ∧ Takes x piece ∧ Glob pat rest := by
  constructor
  · rintro ⟨pieces, htakes, rfl⟩
    cases htakes with
    | @cons _ piece _ pieces htake htakes =>
        exact ⟨piece, pieces.flatten, flatten_cons, htake, pieces, htakes, rfl⟩
  · rintro ⟨piece, rest, rfl, htake, pieces, htakes, rfl⟩
    exact ⟨piece :: pieces, Forall₂.cons htake htakes, flatten_cons⟩

theorem takes_iff (hstar : x ≠ '*') {piece : List Char} :
    Takes x piece <-> exists c, piece = [c] ∧ One x c := by
  unfold Takes One
  rw [if_neg hstar]
  split
  · rename_i hone
    rw [length_eq_one_iff]
    exact ⟨fun ⟨c, hc⟩ => ⟨c, hc, Or.inl hone⟩, fun ⟨c, hc, _⟩ => ⟨c, hc⟩⟩
  · rename_i hone
    constructor
    · exact fun heq => ⟨x, heq, Or.inr rfl⟩
    · rintro ⟨c, hc, hsame⟩
      rw [hc, hsame.resolve_left hone]

theorem Tight.glob (h : Tight pat name) : Glob pat name := by
  induction pat generalizing name with
  | nil => exact ⟨[], Forall₂.nil, h.symm⟩
  | cons x pat ih =>
      rw [glob_cons]
      by_cases hstar : x = '*'
      · rcases h.behind with ⟨rest, ⟨piece, hpiece⟩, htight⟩
        have htakes : Takes x piece := by
          unfold Takes
          rw [if_pos hstar]
          trivial
        exact ⟨piece, rest, hpiece.symm, htakes, ih htight⟩
      · rcases (tight_cons hstar).mp h with ⟨c, rest, rfl, hone, htight⟩
        exact ⟨[c], rest, rfl, (takes_iff hstar).mpr ⟨c, rfl, hone⟩, ih htight⟩

theorem tight_of_glob (hnone : '*' ∉ name) (h : Glob pat name) : Tight pat name := by
  induction pat generalizing name with
  | nil =>
      rcases h with ⟨pieces, htakes, rfl⟩
      cases htakes
      rfl
  | cons x pat ih =>
      rcases glob_cons.mp h with ⟨piece, rest, rfl, htake, hglob⟩
      have htight := ih (fun hmem => hnone (mem_append_right piece hmem)) hglob
      by_cases hstar : x = '*'
      · unfold Tight
        rw [if_pos hstar, if_neg (fun h => hnone (mem_of_head? h))]
        exact ⟨rest, suffix_append piece rest, htight⟩
      · rcases (takes_iff hstar).mp htake with ⟨c, rfl, hone⟩
        exact (tight_cons hstar).mpr ⟨c, rest, rfl, hone, htight⟩

/-!
## Items
-/

/-- The last item whose glob matches the name is there, and is not negated. -/
def Selects (globs : List Char -> List Char -> Prop) (items : List (List Char))
    (name : List Char) : Prop :=
  exists before item after, items = before ++ item :: after ∧ globs (body item) name ∧
    negated item = false ∧ forall later, later ∈ after -> ¬ globs (body later) name

theorem selects_concat {globs : List Char -> List Char -> Prop} {items : List (List Char)}
    {item : List Char} : Selects globs (items ++ [item]) name <->
      (globs (body item) name ∧ negated item = false) ∨
        (¬ globs (body item) name ∧ Selects globs items name) := by
  constructor
  · rintro ⟨before, item', after, heq, hglob, hplain, hlast⟩
    rcases eq_nil_or_concat after with rfl | ⟨later, last, rfl⟩
    · rcases append_inj' heq rfl with ⟨-, heq⟩
      cases heq
      exact Or.inl ⟨hglob, hplain⟩
    · rw [concat_eq_append] at heq hlast
      rw [<- cons_append, <- append_assoc] at heq
      rcases append_inj' heq rfl with ⟨hitems, hlasts⟩
      cases hlasts
      exact Or.inr ⟨hlast item (mem_append_right later mem_cons_self), before, item',
        later, hitems, hglob, hplain, fun l hl => hlast l (mem_append_left _ hl)⟩
  · rintro (⟨hglob, hplain⟩ | ⟨hnot, before, item', after, heq, hglob, hplain, hlast⟩)
    · exact ⟨items, item, [], rfl, hglob, hplain, fun _ hl => nomatch hl⟩
    · refine ⟨before, item', after ++ [item], ?_, hglob, hplain, ?_⟩
      · rw [heq, append_assoc, cons_append]
      · intro later hlater
        rcases mem_append.mp hlater with hafter | hitem
        · exact hlast later hafter
        · rw [mem_singleton.mp hitem]
          exact hnot

theorem matches_iff {pattern : List Char} : Wildmat.matches pattern name = true <->
    Selects Tight (pattern.splitOn ',') name := by
  unfold Wildmat.matches
  induction pattern.splitOn ',' using List.reverseRecOn with
  | nil =>
      constructor
      · exact fun h => nomatch h
      · rintro ⟨before, item, after, heq, -⟩
        cases before <;> cases heq
  | append_singleton items item ih =>
      rw [foldl_append, selects_concat, <- ih, foldl_cons, foldl_nil, <- globMatch_iff]
      cases globMatch (body item) name with
      | true => simp
      | false => simp

end Rabbithole.Nntp
