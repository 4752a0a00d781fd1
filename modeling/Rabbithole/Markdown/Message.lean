import Rabbithole.Foundation.Lines
import Rabbithole.Markdown.Markup

/-!
# Markdown over lines

The blocks of a message: fenced code, rules, headings, quotes, lists and paragraphs.  A
list stays open from item to item, and is closed before any other block.
-/

namespace Rabbithole.Markdown

open Foundation List

def trimStartText (s : List Char) : List Char :=
  s.dropWhile isWhitespace

def trimEndText (s : List Char) : List Char :=
  s.rdropWhile isWhitespace

def isFence (line : List Char) : Bool :=
  "```".toList.isPrefixOf (trimStartText line)

def isQuote (line : List Char) : Bool :=
  "&gt;".toList.isPrefixOf (trimStartText line)

def isRule (trimmed : List Char) : Bool :=
  trimmed == "---".toList || trimmed == "***".toList || trimmed == "___".toList

def headingLevel (line : List Char) : Option Nat :=
  let n := (line.takeWhile (fun c => c == '#')).length
  if 1 <= n ∧ n <= 6 ∧ (line.drop n).head? = some ' ' then some n else none

/-- The tag of the list, and the text of the item. -/
def listItem (line : List Char) : Option (String × List Char) :=
  match line with
  | '-' :: ' ' :: rest => some ("ul", rest)
  | '*' :: ' ' :: rest => some ("ul", rest)
  | '+' :: ' ' :: rest => some ("ul", rest)
  | _ =>
      let digits := (line.takeWhile Char.isDigit).length
      match line.drop digits with
      | '.' :: ' ' :: rest => if 0 < digits then some ("ol", rest) else none
      | _ => none

/-- Where a paragraph ends. -/
def isBreak (line : List Char) : Bool :=
  let l := trimStartText line
  l.isEmpty || isFence line || isQuote line || (headingLevel l).isSome || (listItem l).isSome ||
    isRule l

def closeList (list : Option String) : List Char :=
  match list with
  | none => []
  | some tag => closeTag tag

def joinBreaks (lines : List (List Char)) : List Char :=
  "<br/>".toList.intercalate lines

def langOf (info : List Char) : List Char :=
  ((trimText info).takeWhile (fun c => c.isAlphanum || c == '-' || c == '+')).take 16

def renderCode (info : List Char) (body : List (List Char)) : List Char :=
  let lang := langOf info
  let cls := if lang.isEmpty then [] else " class=\"lang-".toList ++ lang ++ ['"']
  "<pre".toList ++ cls ++ ['>'] ++ openTag "code" ++
    trimEndText (body.flatMap (fun line => line ++ ['\n'])) ++ closeTag "code" ++ closeTag "pre"

def headingTag (level : Nat) : String :=
  if min level 3 = 1 then "h1" else if min level 3 = 2 then "h2" else "h3"

def renderHeading (level : Nat) (trimmed : List Char) : List Char :=
  openTag (headingTag level) ++ inline (trimText (trimmed.drop level)) ++
    closeTag (headingTag level)

/-- Quoted lines are one quote. -/
def renderQuote (lines : List (List Char)) : List Char :=
  openTag "blockquote" ++
    inline (joinBreaks (lines.map (fun line => trimText ((trimStartText line).drop 4)))) ++
      closeTag "blockquote"

def renderItem (item : List Char) : List Char :=
  openTag "li" ++ inline item ++ closeTag "li"

def renderParagraph (lines : List (List Char)) : List Char :=
  openTag "p" ++ inline (joinBreaks (lines.map trimEndText)) ++ closeTag "p"

/-- The lines of a message, with the list that is open. -/
def blocks : List (List Char) -> Option String -> List Char
  | [], list => closeList list
  | line :: rest, list =>
      let trimmed := trimStartText line
      if isFence line then
        let body := rest.takeWhile (fun l => !isFence l)
        closeList list ++ (renderCode (trimmed.drop 3) body ++
          blocks ((rest.dropWhile (fun l => !isFence l)).drop 1) none)
      else if trimmed.isEmpty then closeList list ++ blocks rest none
      else if isRule trimmed then closeList list ++ ("<hr/>".toList ++ blocks rest none)
      else
        match headingLevel trimmed with
        | some level => closeList list ++ (renderHeading level trimmed ++ blocks rest none)
        | none =>
            if isQuote line then
              closeList list ++ (renderQuote (line :: rest.takeWhile isQuote) ++
                blocks (rest.dropWhile isQuote) none)
            else
              match listItem trimmed with
              | some (tag, item) =>
                  (if list = some tag then [] else closeList list ++ openTag tag) ++
                    (renderItem item ++ blocks rest (some tag))
              | none =>
                  closeList list ++ (renderParagraph
                    (line :: rest.takeWhile (fun l => !isBreak l)) ++
                      blocks (rest.dropWhile (fun l => !isBreak l)) none)
termination_by lines => lines.length
decreasing_by
  all_goals
    simp only [length_cons, length_drop]
    first
    | exact Nat.lt_succ_self _
    | exact Nat.lt_succ_of_le (length_dropWhile_le _ _)
    | exact Nat.lt_succ_of_le ((Nat.sub_le _ _).trans (length_dropWhile_le _ _))

def toHtml (src : List Char) : List Char :=
  blocks (lines (escape src)) none

/-!
# Messages become markup

The lines of an escaped text are text, and so is what the blocks take of them; an open list
is closed before the end.
-/

/-- A line of escaped text. -/
def TextLine (s : List Char) : Prop :=
  forall c, c ∈ s -> isText c = true

variable {s item : List Char} {ls : List (List Char)}

theorem textLine_of_all (h : s.all isText = true) : TextLine s :=
  all_eq_true.mp h

theorem isText_escapeChar (c : Char) : TextLine (escapeChar c) := by
  unfold escapeChar
  split
  · exact textLine_of_all (by decide)
  · split
    · exact textLine_of_all (by decide)
    · split
      · exact textLine_of_all (by decide)
      · split
        · exact textLine_of_all (by decide)
        · split
          · exact textLine_of_all (by decide)
          · rename_i hlt hgt hquote _
            intro d hd
            rw [mem_singleton.mp hd]
            unfold isText
            simp [hlt, hgt, hquote]

theorem textLine_escape (src : List Char) : TextLine (escape src) := by
  intro c hc
  rcases mem_flatMap.mp hc with ⟨d, -, hd⟩
  exact isText_escapeChar d c hd

theorem TextLine.subset {t : List Char} (hs : TextLine s) (hsub : t ⊆ s) : TextLine t :=
  fun c hc => hs c (hsub hc)

theorem subset_intercalate (sep : List Char) {parts : List (List Char)} {part : List Char}
    (h : part ∈ parts) : part ⊆ sep.intercalate parts := by
  induction parts with
  | nil => cases h
  | cons first rest ih =>
      cases rest with
      | nil =>
          rw [mem_singleton.mp h, intercalate_singleton]
          exact fun _ hc => hc
      | cons second rest =>
          rw [intercalate_cons_cons]
          rcases mem_cons.mp h with rfl | hrest
          · exact fun _ hc => mem_append_left _ (mem_append_left _ hc)
          · exact fun _ hc => mem_append_right _ (ih hrest hc)

theorem subset_of_mem_lines {line : List Char} (h : line ∈ lines s) : line ⊆ s := by
  rcases mem_lines h with ⟨part, hpart, hline⟩
  have hsub := subset_intercalate ['\n'] hpart
  rw [intercalate_splitOn] at hsub
  rcases hline with rfl | rfl
  · exact hsub
  · exact fun _ hc => hsub (mem_append_left _ hc)

theorem trimText_subset (s : List Char) : trimText s ⊆ s :=
  fun _ hc => (dropWhile_suffix _).subset (( rdropWhile_prefix _ _).subset hc)

theorem trimStartText_subset (s : List Char) : trimStartText s ⊆ s :=
  fun _ hc => (dropWhile_suffix _).subset hc

theorem trimEndText_subset (s : List Char) : trimEndText s ⊆ s :=
  fun _ hc => ( rdropWhile_prefix _ _).subset hc

theorem TextLine.marked (h : TextLine s) : Marked s :=
  marked_of_text h

theorem joinBreaks_marked (h : forall l, l ∈ ls -> TextLine l) : Marked (joinBreaks ls) := by
  unfold joinBreaks
  induction ls with
  | nil => exact .nil
  | cons first rest ih =>
      have hfirst := (h first mem_cons_self).marked
      have hrest := ih (fun l hl => h l (mem_cons_of_mem _ hl))
      cases rest with
      | nil =>
          rw [intercalate_singleton]
          exact hfirst
      | cons second rest =>
          rw [intercalate_cons_cons, append_assoc]
          exact hfirst.append (.br _ hrest)

/-!
## Blocks
-/

theorem renderItem_markup (h : TextLine item) : Markup (renderItem item) :=
  (inline_markup h.marked).wrap (allowed_plain .li)

theorem renderParagraph_markup (h : forall l, l ∈ ls -> TextLine l) :
    Markup (renderParagraph ls) := by
  have hjoined : Marked (joinBreaks (ls.map trimEndText)) := by
    apply joinBreaks_marked
    intro l hl
    rcases mem_map.mp hl with ⟨l', hl', rfl⟩
    exact (h l' hl').subset (trimEndText_subset l')
  exact (inline_markup hjoined).wrap (allowed_plain .p)

theorem renderQuote_markup (h : forall l, l ∈ ls -> TextLine l) : Markup (renderQuote ls) := by
  have hjoined : Marked (joinBreaks
      (ls.map (fun line => trimText ((trimStartText line).drop 4)))) := by
    apply joinBreaks_marked
    intro l hl
    rcases mem_map.mp hl with ⟨l', hl', rfl⟩
    apply (h l' hl').subset
    intro c hc
    exact trimStartText_subset l' (drop_subset 4 _ (trimText_subset _ hc))
  exact (inline_markup hjoined).wrap (allowed_plain .blockquote)

theorem renderHeading_markup {trimmed : List Char} (level : Nat) (h : TextLine trimmed) :
    Markup (renderHeading level trimmed) := by
  have htext : TextLine (trimText (trimmed.drop level)) :=
    h.subset (fun c hc => drop_subset level _ (trimText_subset _ hc))
  have hin := inline_markup htext.marked
  unfold renderHeading headingTag
  split
  · exact hin.wrap (allowed_plain .h1)
  · split
    · exact hin.wrap (allowed_plain .h2)
    · exact hin.wrap (allowed_plain .h3)

theorem langOf_allowed (info : List Char) : (Element.preLang (langOf info)).Allowed := by
  unfold langOf
  constructor
  · exact length_take_le _ _
  · intro c hc
    have htake := mem_of_mem_take hc
    exact mem_takeWhile_imp (p := isLangChar) htake

theorem opening_pre : (Element.plain .pre).opening = "<pre".toList ++ [] ++ ['>'] := by
  decide

theorem opening_preLang (lang : List Char) : (Element.preLang lang).opening =
    "<pre".toList ++ (" class=\"lang-".toList ++ lang ++ ['"']) ++ ['>'] := by
  have hword : "<pre class=\"lang-".toList = "<pre".toList ++ " class=\"lang-".toList := by decide
  have hend : "\">".toList = ['"'] ++ ['>'] := by decide
  unfold Element.opening
  rw [hword, hend]
  simp only [append_assoc]

theorem renderCode_markup {info : List Char} {body : List (List Char)}
    (h : forall l, l ∈ body -> TextLine l) : Markup (renderCode info body) := by
  have htext : TextLine (trimEndText (body.flatMap (fun line => line ++ ['\n']))) := by
    intro c hc
    rcases mem_flatMap.mp (trimEndText_subset _ hc) with ⟨line, hline, hmem⟩
    rcases mem_append.mp hmem with hfront | hend
    · exact h line hline c hfront
    · rw [mem_singleton.mp hend]
      decide
  have hcode := htext.marked.markup.wrap (allowed_plain .code)
  unfold renderCode
  simp only []
  split
  · have hpre := hcode.wrap (allowed_plain .pre)
    rw [opening_pre] at hpre
    simp only [append_assoc] at hpre ⊢
    exact hpre
  · have hpre := hcode.wrap (langOf_allowed info)
    rw [opening_preLang] at hpre
    simp only [append_assoc] at hpre ⊢
    exact hpre

/-!
## Lists
-/

/-- What is put out closes the list that is open. -/
def Closes : Option String -> List Char -> Prop
  | none, out => Markup out
  | some tag, out => exists inner rest, out = inner ++ closeTag tag ++ rest ∧
      Markup inner ∧ Markup rest

theorem closes_block {block tail : List Char} (list : Option String) (hblock : Markup block)
    (htail : Closes none tail) : Closes list (closeList list ++ (block ++ tail)) := by
  cases list with
  | none => exact hblock.append htail
  | some tag => exact ⟨[], block ++ tail, rfl, .nil, hblock.append htail⟩

theorem listItem_tag {line : List Char} {tag : String} (h : listItem line = some (tag, item)) :
    (tag = "ul" ∨ tag = "ol") ∧ item <:+ line := by
  unfold listItem at h
  split at h
  · cases h
    exact ⟨Or.inl rfl, ['-', ' '], rfl⟩
  · cases h
    exact ⟨Or.inl rfl, ['*', ' '], rfl⟩
  · cases h
    exact ⟨Or.inl rfl, ['+', ' '], rfl⟩
  · simp only [] at h
    split at h
    · rename_i rest hdrop
      split at h
      · cases h
        have hbehind := drop_suffix (line.takeWhile Char.isDigit).length line
        rw [hdrop] at hbehind
        exact ⟨Or.inr rfl, (suffix_append ['.', ' '] item).trans hbehind⟩
      · cases h
    · cases h

theorem closes_item {tail : List Char} {tag : String} (list : Option String)
    (htag : tag = "ul" ∨ tag = "ol") (hitem : Markup item) (htail : Closes (some tag) tail) :
    Closes list ((if list = some tag then [] else closeList list ++ openTag tag) ++
      (item ++ tail)) := by
  rcases htail with ⟨inner, rest, rfl, hinner, hrest⟩
  split
  · rename_i hlist
    rw [hlist]
    refine ⟨item ++ inner, rest, ?_, hitem.append hinner, hrest⟩
    simp only [nil_append, append_assoc]
  · have hwhole : Markup (openTag tag ++ (item ++ inner) ++ closeTag tag ++ rest) := by
      rcases htag with rfl | rfl
      · exact .element (.plain .ul) _ _ trivial (hitem.append hinner) hrest
      · exact .element (.plain .ol) _ _ trivial (hitem.append hinner) hrest
    have hsame : (closeList list ++ openTag tag) ++ (item ++ (inner ++ closeTag tag ++ rest)) =
        closeList list ++ ((openTag tag ++ (item ++ inner) ++ closeTag tag ++ rest) ++ []) := by
      simp only [append_assoc, append_nil]
    rw [hsame]
    exact closes_block list hwhole .nil

theorem mem_of_takeWhile {p : List Char -> Bool} {rest : List (List Char)} {l : List Char}
    (h : l ∈ rest.takeWhile p) : l ∈ rest :=
  ( takeWhile_prefix p).subset h

theorem mem_of_dropWhile {p : List Char -> Bool} {rest : List (List Char)} {l : List Char}
    (h : l ∈ rest.dropWhile p) : l ∈ rest :=
  (dropWhile_suffix p).subset h

/-- Every list of lines closes what is open and is markup otherwise. -/
theorem blocks_closes (ls : List (List Char)) (list : Option String)
    (h : forall l, l ∈ ls -> TextLine l) : Closes list (blocks ls list) := by
  induction ls, list using blocks.induct with
  | case1 list =>
      rw [blocks]
      have hclose := closes_block list .nil (show Closes none [] from .nil)
      rw [append_nil, append_nil] at hclose
      exact hclose
  | case2 line rest list hfence ih =>
      have hrest : forall l, l ∈ rest -> TextLine l := fun l hl => h l (mem_cons_of_mem _ hl)
      have htail := ih (fun l hl => hrest l (mem_of_dropWhile (mem_of_mem_drop hl)))
      rw [blocks]
      simp only []
      rw [if_pos hfence]
      exact closes_block list
        (renderCode_markup (fun l hl => hrest l (mem_of_takeWhile hl))) htail
  | case3 line rest list trimmed hfence hempty ih =>
      have htail := ih (fun l hl => h l (mem_cons_of_mem _ hl))
      rw [blocks]
      simp only []
      rw [if_neg hfence, if_pos hempty]
      exact closes_block list .nil htail
  | case4 line rest list trimmed hfence hempty hrule ih =>
      have htail := ih (fun l hl => h l (mem_cons_of_mem _ hl))
      rw [blocks]
      simp only []
      rw [if_neg hfence, if_neg hempty, if_pos hrule]
      exact closes_block list (.hr [] .nil) htail
  | case5 line rest list trimmed hfence hempty hrule level hlevel ih =>
      have hline := (h line mem_cons_self).subset (trimStartText_subset line)
      have htail := ih (fun l hl => h l (mem_cons_of_mem _ hl))
      rw [blocks]
      simp only []
      rw [if_neg hfence, if_neg hempty, if_neg hrule, hlevel]
      exact closes_block list (renderHeading_markup level hline) htail
  | case6 line rest list trimmed hfence hempty hrule hlevel hquote ih =>
      have hrest : forall l, l ∈ rest -> TextLine l := fun l hl => h l (mem_cons_of_mem _ hl)
      have htail := ih (fun l hl => hrest l (mem_of_dropWhile hl))
      rw [blocks]
      simp only []
      rw [if_neg hfence, if_neg hempty, if_neg hrule, hlevel]
      simp only []
      rw [if_pos hquote]
      refine closes_block list (renderQuote_markup ?_) htail
      intro l hl
      rcases mem_cons.mp hl with rfl | hmem
      · exact h l mem_cons_self
      · exact hrest l (mem_of_takeWhile hmem)
  | case7 line rest list trimmed hfence hempty hrule hlevel hquote tag item hitem ih =>
      have hline := (h line mem_cons_self).subset (trimStartText_subset line)
      have htail := ih (fun l hl => h l (mem_cons_of_mem _ hl))
      rcases listItem_tag hitem with ⟨htag, hsuffix⟩
      rw [blocks]
      simp only []
      rw [if_neg hfence, if_neg hempty, if_neg hrule, hlevel]
      simp only []
      rw [if_neg hquote, hitem]
      exact closes_item list htag (renderItem_markup (hline.subset hsuffix.subset)) htail
  | case8 line rest list trimmed hfence hempty hrule hlevel hquote hitem ih =>
      have hrest : forall l, l ∈ rest -> TextLine l := fun l hl => h l (mem_cons_of_mem _ hl)
      have htail := ih (fun l hl => hrest l (mem_of_dropWhile hl))
      rw [blocks]
      simp only []
      rw [if_neg hfence, if_neg hempty, if_neg hrule, hlevel]
      simp only []
      rw [if_neg hquote, hitem]
      refine closes_block list (renderParagraph_markup ?_) htail
      intro l hl
      rcases mem_cons.mp hl with rfl | hmem
      · exact h l mem_cons_self
      · exact hrest l (mem_of_takeWhile hmem)

/-- Whatever a message says, a page is given text, tags of the fixed set, and every one of
them closed. -/
theorem messages_become_markup (src : List Char) :
    Markup (toHtml src) ∧ Markup (inlineToHtml src) := by
  have htext := textLine_escape src
  constructor
  · exact blocks_closes (lines (escape src)) none
      (fun _ hline => htext.subset (subset_of_mem_lines hline))
  · exact inline_markup htext.marked

end Rabbithole.Markdown
