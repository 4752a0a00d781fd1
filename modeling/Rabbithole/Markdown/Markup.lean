import Rabbithole.Markdown.Inline

/-!
# What a page may be given

Text without the characters that make markup, and tags of a fixed set, properly nested and
all closed.  Escaped text with breaks between its lines becomes only that.
-/

namespace Rabbithole.Markdown

open Foundation List

/-- Elements without attributes. -/
inductive Name where
  | p
  | strong
  | em
  | del
  | code
  | pre
  | h1
  | h2
  | h3
  | blockquote
  | ul
  | ol
  | li
deriving DecidableEq

namespace Name

def text : Name -> String
  | p => "p"
  | strong => "strong"
  | em => "em"
  | del => "del"
  | code => "code"
  | pre => "pre"
  | h1 => "h1"
  | h2 => "h2"
  | h3 => "h3"
  | blockquote => "blockquote"
  | ul => "ul"
  | ol => "ol"
  | li => "li"

end Name

inductive Element where
  | plain (name : Name)
  | preLang (lang : List Char)
  | link (href : List Char)

def isLangChar (c : Char) : Bool :=
  c.isAlphanum || c == '-' || c == '+'

namespace Element

def opening : Element -> List Char
  | plain name => openTag name.text
  | preLang lang => "<pre class=\"lang-".toList ++ lang ++ "\">".toList
  | link href => openLink href

def closing : Element -> List Char
  | plain name => closeTag name.text
  | preLang _ => closeTag "pre"
  | link _ => closeTag "a"

/-- A language is short and of plain characters; a target has no quote and a known scheme. -/
def Allowed : Element -> Prop
  | plain _ => True
  | preLang lang => lang.length <= 16 ∧ forall c, c ∈ lang -> isLangChar c = true
  | link href => '"' ∉ href ∧
      exists scheme, scheme ∈ safeSchemes ∧ scheme <+: toAsciiLowercase href

end Element

def isText (c : Char) : Bool :=
  c != '<' && c != '>' && c != '"'

inductive Markup : List Char -> Prop where
  | nil : Markup []
  | text (c : Char) (rest : List Char) (hc : isText c = true) (hrest : Markup rest) :
      Markup (c :: rest)
  | br (rest : List Char) (hrest : Markup rest) : Markup ("<br/>".toList ++ rest)
  | hr (rest : List Char) (hrest : Markup rest) : Markup ("<hr/>".toList ++ rest)
  | element (e : Element) (inner rest : List Char) (he : e.Allowed) (hinner : Markup inner)
      (hrest : Markup rest) : Markup (e.opening ++ inner ++ e.closing ++ rest)

variable {s before after : List Char} {c : Char}

theorem Markup.append {t : List Char} (hs : Markup s) (ht : Markup t) : Markup (s ++ t) := by
  induction hs with
  | nil => exact ht
  | text c rest hc _ ih => exact .text c _ hc ih
  | br rest _ ih =>
      rw [append_assoc]
      exact .br _ ih
  | hr rest _ ih =>
      rw [append_assoc]
      exact .hr _ ih
  | element e inner rest he hinner _ _ ih =>
      rw [append_assoc]
      exact .element e inner _ he hinner ih

theorem Markup.wrap {e : Element} {inner : List Char} (he : e.Allowed) (hinner : Markup inner) :
    Markup (e.opening ++ inner ++ e.closing) := by
  have hwhole := Markup.element e inner [] he hinner .nil
  rw [append_nil] at hwhole
  exact hwhole

/-!
## Escaped text
-/

/-- Text, with breaks where lines were joined. -/
inductive Marked : List Char -> Prop where
  | nil : Marked []
  | text (c : Char) (rest : List Char) (hc : isText c = true) (hrest : Marked rest) :
      Marked (c :: rest)
  | br (rest : List Char) (hrest : Marked rest) : Marked ('<' :: 'b' :: 'r' :: '/' :: '>' :: rest)

theorem Marked.markup (h : Marked s) : Markup s := by
  induction h with
  | nil => exact .nil
  | text c rest hc _ ih => exact .text c rest hc ih
  | br rest _ ih => exact .br rest ih

theorem Marked.append {t : List Char} (hs : Marked s) (ht : Marked t) : Marked (s ++ t) := by
  induction hs with
  | nil => exact ht
  | text c rest hc _ ih => exact .text c _ hc ih
  | br rest _ ih => exact .br _ ih

theorem marked_of_text (h : forall c, c ∈ s -> isText c = true) : Marked s := by
  induction s with
  | nil => exact .nil
  | cons c rest ih =>
      exact .text c rest (h c mem_cons_self) (ih (fun d hd => h d (mem_cons_of_mem _ hd)))

theorem Marked.not_mem (h : Marked s) : '"' ∉ s := by
  induction h with
  | nil => exact not_mem_nil
  | text c rest hc _ ih =>
      rw [mem_cons, not_or]
      refine ⟨?_, ih⟩
      rintro rfl
      exact absurd hc (by decide)
  | br rest _ ih => simp [ih]

def isMark (c : Char) : Bool :=
  !("<br/>".toList.contains c)

theorem behind_word {word rest : List Char} (hc : c ∉ word)
    (h : before ++ c :: after = word ++ rest) :
    exists before', before = word ++ before' ∧ before' ++ c :: after = rest := by
  induction word generalizing before with
  | nil => exact ⟨before, rfl, h⟩
  | cons d word ih =>
      rw [mem_cons, not_or] at hc
      cases before with
      | nil => exact absurd (List.cons.inj h).left hc.left
      | cons e before =>
          rw [cons_append, cons_append, List.cons.injEq] at h
          rcases ih hc.right h.right with ⟨before', hbefore, hrest⟩
          exact ⟨before', by rw [h.left, hbefore, cons_append], hrest⟩

theorem Marked.cut (h : Marked (before ++ c :: after)) (hc : isMark c = true) :
    Marked before ∧ isText c = true ∧ Marked after := by
  generalize hs : before ++ c :: after = s at h
  induction h generalizing before with
  | nil => simp at hs
  | text d rest hd hrest ih =>
      cases before with
      | nil =>
          cases hs
          exact ⟨.nil, hd, hrest⟩
      | cons e before =>
          rw [cons_append] at hs
          cases hs
          rcases ih rfl with ⟨hbefore, hafter⟩
          exact ⟨.text _ before hd hbefore, hafter⟩
  | br rest hrest ih =>
      have hword : c ∉ "<br/>".toList := by
        intro hmem
        unfold isMark at hc
        rw [contains_iff_mem.mpr hmem] at hc
        cases hc
      rcases behind_word hword hs with ⟨before', rfl, hafter⟩
      rcases ih hafter with ⟨hbefore, hrest⟩
      exact ⟨.br before' hbefore, hrest⟩

theorem Marked.cutBefore (h : Marked (before ++ after))
    (hmark : forall c after', after = c :: after' -> isMark c = true) :
    Marked before ∧ Marked after := by
  cases after with
  | nil =>
      rw [append_nil] at h
      exact ⟨h, .nil⟩
  | cons c after =>
      have hc := hmark c after rfl
      rcases h.cut hc with ⟨hbefore, htext, hafter⟩
      exact ⟨hbefore, .text c after htext hafter⟩

/-!
## What is rendered
-/

theorem safeHref_allowed {target href : List Char} (htarget : Marked target)
    (h : safeHref target = some href) : (Element.link href).Allowed := by
  unfold safeHref at h
  simp only [] at h
  split at h
  · cases h
  · split at h
    · rename_i hscheme
      cases h
      constructor
      · intro hquote
        apply htarget.not_mem
        exact dropWhile_suffix _ |>.subset ( rdropWhile_prefix _ _ |>.subset hquote)
      · rcases any_eq_true.mp hscheme with ⟨scheme, hmem, hprefix⟩
        exact ⟨scheme, hmem, isPrefixOf_iff_prefix.mp hprefix⟩
    · cases h

def opens (c : Char) : Bool :=
  c == '`' || c == '*' || c == '~' || c == '_' || c == '[' || c == 'h' || c == 'H'

theorem pieceAt_plain (hc : opens c = false) (rest : List Char) : pieceAt c rest = .plain := by
  unfold opens at hc
  simp only [Bool.or_eq_false_iff, beq_eq_false_iff_ne] at hc
  rcases hc with ⟨⟨⟨⟨⟨⟨hcode, hstar⟩, htilde⟩, hunder⟩, hbracket⟩, hh⟩, hH⟩
  unfold pieceAt pairAt
  simp [hcode, hstar, htilde, hunder, hbracket, hh, hH]

theorem inline_cons (c : Char) (rest : List Char) :
    inline (c :: rest) =
      match pieceAt c rest with
      | .code body after => openTag "code" ++ body ++ closeTag "code" ++ inline after
      | .pair tag inner after => openTag tag ++ inline inner ++ closeTag tag ++ inline after
      | .emphasis inner after => openTag "em" ++ inline inner ++ closeTag "em" ++ inline after
      | .link text target after =>
          (match safeHref target with
            | some href => openLink href ++ inline text ++ closeTag "a"
            | none => inline text) ++ inline after
      | .address url after =>
          (match safeHref url with
            | some href => openLink href ++ url ++ closeTag "a"
            | none => url) ++ inline after
      | .plain => c :: inline rest := by
  rw [inline]
  split
  · rename_i hpiece
    rw [hpiece]
  · rename_i hpiece
    rw [hpiece]
  · rename_i hpiece
    rw [hpiece]
  · rename_i hpiece
    exact hpiece ▸ rfl
  · rename_i hpiece
    exact hpiece ▸ rfl
  · rename_i hpiece
    rw [hpiece]

theorem inline_plain {rest : List Char} (h : pieceAt c rest = .plain) :
    inline (c :: rest) = c :: inline rest := by
  rw [inline_cons, h]

theorem inline_break (rest : List Char) :
    inline ('<' :: 'b' :: 'r' :: '/' :: '>' :: rest) = "<br/>".toList ++ inline rest := by
  rw [inline_plain (pieceAt_plain (by decide) _), inline_plain (pieceAt_plain (by decide) _),
    inline_plain (pieceAt_plain (by decide) _), inline_plain (pieceAt_plain (by decide) _),
    inline_plain (pieceAt_plain (by decide) _)]
  rfl

theorem isMark_of_trailing (h : isWhitespace c = true ∨ isTrailing c = true) : isMark c = true := by
  cases hmark : isMark c with
  | true => rfl
  | false =>
      unfold isMark at hmark
      rw [Bool.not_eq_false', contains_iff_mem] at hmark
      have hword : c ∈ ['<', 'b', 'r', '/', '>'] := hmark
      simp only [mem_cons, not_mem_nil, or_false] at hword
      rcases hword with rfl | rfl | rfl | rfl | rfl
      all_goals exact absurd h (by decide)

theorem allowed_plain (name : Name) : (Element.plain name).Allowed := trivial

/-- The rendering of escaped text is markup: every piece is cut at marks, so that its parts
are escaped text again. -/
theorem inline_markup (h : Marked s) : Markup (inline s) := by
  induction hn : s.length using Nat.strongRecOn generalizing s with
  | ind n ih =>
      have hless : forall t : List Char, t.length < n -> Marked t -> Markup (inline t) :=
        fun t ht hmarked => ih t.length ht hmarked rfl
      cases h with
      | nil =>
          rw [inline]
          exact .nil
      | br rest hrest =>
          rw [inline_break]
          apply Markup.br
          apply hless rest _ hrest
          rw [<- hn]
          simp only [length_cons]
          omega
      | text c rest hc hrest =>
          rw [length_cons] at hn
          have hof := pieceAt_of c rest
          have hpart : forall t, t ∈ (pieceAt c rest).parts -> Marked t -> Markup (inline t) := by
            intro t ht hmarked
            apply hless t _ hmarked
            have hle := length_le_of_part hof ht
            omega
          generalize hpiece : pieceAt c rest = piece at hof hpart
          rw [inline_cons, hpiece]
          cases hof with
          | code body after hsplit =>
              rw [hsplit] at hrest
              rcases hrest.cut (by decide) with ⟨hbody, -, hafter⟩
              have hwrap := hbody.markup.wrap (allowed_plain .code)
              exact hwrap.append (hpart after (by simp [Piece.parts]) hafter)
          | pair marker tag inner after htag hsplit =>
              have hmark : isMark marker = true := by
                rcases htag with ⟨rfl, -⟩ | ⟨rfl, -⟩
                · decide
                · decide
              rw [hsplit, <- nil_append (marker :: _)] at hrest
              have hbehind := (hrest.cut hmark).right.right
              rcases hbehind.cut hmark with ⟨hinner, -, hrest'⟩
              rw [<- nil_append (marker :: after)] at hrest'
              have hafter := (hrest'.cut hmark).right.right
              have hin := hpart inner (by simp [Piece.parts]) hinner
              have hout := hpart after (by simp [Piece.parts]) hafter
              rcases htag with ⟨-, rfl⟩ | ⟨-, rfl⟩
              · exact (hin.wrap (allowed_plain .strong)).append hout
              · exact (hin.wrap (allowed_plain .del)).append hout
          | emphasis inner after hmark hsplit =>
              have hcut : isMark c = true := by
                rcases hmark with rfl | rfl
                · decide
                · decide
              rw [hsplit] at hrest
              rcases hrest.cut hcut with ⟨hinner, -, hafter⟩
              have hin := hpart inner (by simp [Piece.parts]) hinner
              have hout := hpart after (by simp [Piece.parts]) hafter
              exact (hin.wrap (allowed_plain .em)).append hout
          | link text target after hsplit =>
              rw [hsplit] at hrest
              rcases hrest.cut (by decide) with ⟨htext, -, hbehind⟩
              rw [<- nil_append ('(' :: _)] at hbehind
              have htarget := (hbehind.cut (by decide)).right.right
              rcases htarget.cut (by decide) with ⟨htarget, -, hafter⟩
              have hin := hpart text (by simp [Piece.parts]) htext
              have hout := hpart after (by simp [Piece.parts]) hafter
              simp only []
              split
              · rename_i href hhref
                exact (hin.wrap (safeHref_allowed htarget hhref)).append hout
              · exact hin.append hout
          | address url after hsplit hend =>
              have hwhole : Marked (c :: url ++ after) := by
                rw [cons_append, <- hsplit]
                exact .text c rest hc hrest
              rcases hwhole.cutBefore
                (fun d after' hd => isMark_of_trailing (hend d after' hd)) with ⟨hurl, hafter⟩
              have hout := hpart after (by simp [Piece.parts]) hafter
              simp only []
              split
              · rename_i href hhref
                exact (hurl.markup.wrap (safeHref_allowed hurl hhref)).append hout
              · exact hurl.markup.append hout
          | plain =>
              exact .text c _ hc (hless rest (by omega) hrest)

end Rabbithole.Markdown
