import Rabbithole.Foundation.Text

/-!
# Markdown within a line

Every character is escaped before anything else looks at it, and the marks are found in
the escaped text.  A place in the text is what stands before it and behind it.
-/

namespace Rabbithole.Markdown

open Foundation List

def escapeChar (c : Char) : List Char :=
  if c = '&' then "&amp;".toList
  else if c = '<' then "&lt;".toList
  else if c = '>' then "&gt;".toList
  else if c = '"' then "&quot;".toList
  else if c = '\'' then "&#39;".toList
  else [c]

def escape (s : List Char) : List Char :=
  s.flatMap escapeChar

def safeSchemes : List (List Char) :=
  ["http://".toList, "https://".toList, "mailto:".toList]

def toAsciiLowercase (s : List Char) : List Char :=
  s.map Char.toLower

/-- The target of a link, if it is one that may be linked to. -/
def safeHref (escaped : List Char) : Option (List Char) :=
  let probe := toAsciiLowercase (trimText escaped)
  if probe.isEmpty || probe.any isWhitespace then none
  else if safeSchemes.any (fun scheme => scheme.isPrefixOf probe) then some (trimText escaped)
  else none

/-- What is before and behind the next doubled character. -/
def findPair (c : Char) : List Char -> Option (List Char × List Char)
  | x :: y :: rest =>
      if x = c ∧ y = c then some ([], rest)
      else (findPair c (y :: rest)).map (fun (before, after) => (x :: before, after))
  | _ => none

/-- What is before and behind the parenthesis that closes so many. -/
def closeParen : Nat -> List Char -> Option (List Char × List Char)
  | _, [] => none
  | depth, c :: rest =>
      if c = ')' ∧ depth = 1 then some ([], rest)
      else
        let depth := if c = '(' then depth + 1 else if c = ')' then depth - 1 else depth
        (closeParen depth rest).map (fun (before, after) => (c :: before, after))

/-- Behind an opening bracket: the text, the target, and what is behind the link. -/
def linkAt (rest : List Char) : Option (List Char × List Char × List Char) :=
  match splitOnce ']' rest with
  | some (text, '(' :: behind) =>
      (closeParen 1 behind).map (fun (target, after) => (text, target, after))
  | _ => none

def startsUrl (s : List Char) : Bool :=
  let rest := toAsciiLowercase (s.take 8)
  "http://".toList.isPrefixOf rest || "https://".toList.isPrefixOf rest

def isTrailing (c : Char) : Bool :=
  c == '.' || c == ',' || c == ')' || c == ';' || c == ':' || c == '!' || c == '?'

/-- A bare address: as far as there is no white space, less the punctuation at its end. -/
def urlAt (s : List Char) : List Char × List Char :=
  let word := s.takeWhile (fun c => !isWhitespace c)
  let url := word.rdropWhile isTrailing
  (url, s.drop url.length)

/-- What stands at a place of the text. -/
inductive Piece where
  | code (body after : List Char)
  | pair (tag : String) (inner after : List Char)
  | emphasis (inner after : List Char)
  | link (text target after : List Char)
  | address (url after : List Char)
  | plain

def pairAt (marker : Char) (tag : String) (c : Char) (rest : List Char) : Option Piece :=
  if c = marker ∧ rest.head? = some marker then
    (findPair marker rest.tail).map (fun (inner, after) => .pair tag inner after)
  else none

/-- Code comes first, then the doubled marks, and then the single ones. -/
def pieceAt (c : Char) (rest : List Char) : Piece :=
  let code := if c = '`' then splitOnce '`' rest else none
  match code with
  | some (body, after) => .code body after
  | none =>
      match (pairAt '*' "strong" c rest).or (pairAt '~' "del" c rest) with
      | some piece => piece
      | none =>
          if (c = '*' ∨ c = '_') ∧ rest.head? ≠ some c then
            match splitOnce c rest with
            | some (inner, after) => .emphasis inner after
            | none => .plain
          else if c = '[' then
            match linkAt rest with
            | some (text, target, after) => .link text target after
            | none => .plain
          else if (c = 'h' ∨ c = 'H') ∧ startsUrl (c :: rest) = true then
            .address (urlAt (c :: rest)).fst (urlAt (c :: rest)).snd
          else .plain

def openTag (tag : String) : List Char :=
  '<' :: tag.toList ++ ['>']

def closeTag (tag : String) : List Char :=
  '<' :: '/' :: tag.toList ++ ['>']

def openLink (href : List Char) : List Char :=
  "<a href=\"".toList ++ href ++ "\" rel=\"noopener noreferrer nofollow\" target=\"_blank\">".toList

/-!
## How long the pieces are
-/

theorem findPair_eq {c : Char} {s before after : List Char}
    (h : findPair c s = some (before, after)) : s = before ++ c :: c :: after := by
  induction s generalizing before with
  | nil => cases h
  | cons x rest ih =>
      cases rest with
      | nil => cases h
      | cons y rest =>
          unfold findPair at h
          split at h
          · rename_i heq
            cases h
            rw [heq.left, heq.right]
            rfl
          · rcases Option.map_eq_some_iff.mp h with ⟨⟨b, a⟩, hfound, heq⟩
            cases heq
            rw [ih hfound]
            rfl

theorem closeParen_eq {depth : Nat} {s before after : List Char}
    (h : closeParen depth s = some (before, after)) : s = before ++ ')' :: after := by
  induction s generalizing depth before with
  | nil => cases h
  | cons c rest ih =>
      unfold closeParen at h
      split at h
      · rename_i heq
        cases h
        rw [heq.left]
        rfl
      · rcases Option.map_eq_some_iff.mp h with ⟨⟨b, a⟩, hfound, heq⟩
        cases heq
        rw [ih hfound]
        rfl

theorem linkAt_eq {s text target after : List Char} (h : linkAt s = some (text, target, after)) :
    s = text ++ ']' :: '(' :: (target ++ ')' :: after) := by
  unfold linkAt at h
  split at h
  · rename_i text' behind hsplit
    rcases Option.map_eq_some_iff.mp h with ⟨⟨t, a⟩, hclose, heq⟩
    cases heq
    rw [(eq_of_splitOnce hsplit).left, closeParen_eq hclose]
  · cases h

theorem rdropWhile_append (p : Char -> Bool) (s : List Char) :
    s.rdropWhile p ++ (s.reverse.takeWhile p).reverse = s := by
  unfold List.rdropWhile
  rw [<- reverse_append, takeWhile_append_dropWhile, reverse_reverse]

theorem dropWhile_head {p : Char -> Bool} {s after : List Char} {d : Char}
    (h : s.dropWhile p = d :: after) : p d = false := by
  have hhead := head?_dropWhile_not p s
  rw [h, head?_cons] at hhead
  exact hhead

/-- An address is not empty, and ends at white space or at punctuation. -/
theorem urlAt_eq {c : Char} (rest : List Char) (hc : isWhitespace c = false)
    (htrailing : isTrailing c = false) :
    exists url', (urlAt (c :: rest)).fst = c :: url' ∧
      c :: rest = (urlAt (c :: rest)).fst ++ (urlAt (c :: rest)).snd ∧
      forall d after, (urlAt (c :: rest)).snd = d :: after ->
        isWhitespace d = true ∨ isTrailing d = true := by
  have hword := rdropWhile_append isTrailing ((c :: rest).takeWhile (fun c => !isWhitespace c))
  have hline := takeWhile_append_dropWhile (p := fun c => !isWhitespace c) (l := c :: rest)
  rw [<- hword, append_assoc] at hline
  have hsnd : (urlAt (c :: rest)).snd =
      (((c :: rest).takeWhile (fun c => !isWhitespace c)).reverse.takeWhile isTrailing).reverse ++
        (c :: rest).dropWhile (fun c => !isWhitespace c) := by
    unfold urlAt
    simp only []
    exact (congrArg (List.drop _) hline.symm).trans drop_left
  have hfirst : c ∈ (c :: rest).takeWhile (fun c => !isWhitespace c) := by
    rw [takeWhile_cons_of_pos (by rw [hc]; rfl)]
    exact mem_cons_self
  have hne : (urlAt (c :: rest)).fst ≠ [] := by
    intro hnil
    have hall := rdropWhile_eq_nil_iff.mp hnil c hfirst
    rw [htrailing] at hall
    cases hall
  rcases exists_cons_of_ne_nil hne with ⟨d, url', hurl⟩
  have hsplit : c :: rest = (urlAt (c :: rest)).fst ++ (urlAt (c :: rest)).snd := by
    rw [hsnd]
    exact hline.symm
  have hd : d = c := by
    rw [hurl, cons_append] at hsplit
    exact (List.cons.inj hsplit).left.symm
  refine ⟨url', by rw [hurl, hd], hsplit, ?_⟩
  intro e after hafter
  rw [hsnd] at hafter
  cases htail : (((c :: rest).takeWhile (fun c => !isWhitespace c)).reverse.takeWhile
      isTrailing).reverse with
  | nil =>
      rw [htail, nil_append] at hafter
      left
      have hspace := dropWhile_head hafter
      rw [Bool.not_eq_false'] at hspace
      exact hspace
  | cons f tail =>
      rw [htail, cons_append] at hafter
      right
      rw [<- (List.cons.inj hafter).left]
      have hmem : f ∈ ((c :: rest).takeWhile (fun c => !isWhitespace c)).reverse.takeWhile
          isTrailing := by
        rw [<- mem_reverse, htail]
        exact mem_cons_self
      exact mem_takeWhile_imp hmem

/-- How a piece and the text make each other up. -/
inductive PieceOf (c : Char) (rest : List Char) : Piece -> Prop where
  | code (body after : List Char) (h : rest = body ++ '`' :: after) :
      PieceOf c rest (.code body after)
  | pair (marker : Char) (tag : String) (inner after : List Char)
      (htag : (marker = '*' ∧ tag = "strong") ∨ (marker = '~' ∧ tag = "del"))
      (h : rest = marker :: (inner ++ marker :: marker :: after)) :
      PieceOf c rest (.pair tag inner after)
  | emphasis (inner after : List Char) (hc : c = '*' ∨ c = '_') (h : rest = inner ++ c :: after) :
      PieceOf c rest (.emphasis inner after)
  | link (text target after : List Char)
      (h : rest = text ++ ']' :: '(' :: (target ++ ')' :: after)) :
      PieceOf c rest (.link text target after)
  | address (url after : List Char) (h : rest = url ++ after)
      (hend : forall d after', after = d :: after' -> isWhitespace d = true ∨ isTrailing d = true) :
      PieceOf c rest (.address (c :: url) after)
  | plain : PieceOf c rest .plain

theorem pairAt_of {marker c : Char} {tag : String} {rest : List Char} {piece : Piece}
    (h : pairAt marker tag c rest = some piece) :
    exists inner after, piece = .pair tag inner after ∧
      rest = marker :: (inner ++ marker :: marker :: after) := by
  unfold pairAt at h
  split at h
  · rename_i hmarker
    rcases Option.map_eq_some_iff.mp h with ⟨⟨inner, after⟩, hfound, rfl⟩
    refine ⟨inner, after, rfl, ?_⟩
    cases rest with
    | nil => cases hmarker.right
    | cons d rest =>
        have hd : d = marker := Option.some.inj hmarker.right
        rw [hd, <- findPair_eq hfound]
        rfl
  · cases h

theorem pieceAt_of (c : Char) (rest : List Char) : PieceOf c rest (pieceAt c rest) := by
  unfold pieceAt
  simp only []
  split
  · rename_i body after hcode
    split at hcode
    · exact .code body after (eq_of_splitOnce hcode).left
    · cases hcode
  · split
    · rename_i piece hpair
      rcases Option.or_eq_some_iff.mp hpair with hstrong | ⟨-, hdel⟩
      · rcases pairAt_of hstrong with ⟨inner, after, rfl, hrest⟩
        exact .pair '*' "strong" inner after (Or.inl ⟨rfl, rfl⟩) hrest
      · rcases pairAt_of hdel with ⟨inner, after, rfl, hrest⟩
        exact .pair '~' "del" inner after (Or.inr ⟨rfl, rfl⟩) hrest
    · split
      · rename_i hmark
        split
        · rename_i inner after hsplit
          exact .emphasis inner after hmark.left (eq_of_splitOnce hsplit).left
        · exact .plain
      · split
        · split
          · rename_i text target after hlink
            exact .link text target after (linkAt_eq hlink)
          · exact .plain
        · split
          · rename_i hstart
            have hplain : isWhitespace c = false ∧ isTrailing c = false := by
              rcases hstart.left with rfl | rfl
              · decide
              · decide
            rcases urlAt_eq rest hplain.left hplain.right with
              ⟨url, hurl, hsplit, hend⟩
            rw [hurl] at hsplit ⊢
            exact .address url _ (List.cons.inj hsplit).right hend
          · exact .plain

/-!
## Rendering
-/

/-- The parts of a piece. -/
def Piece.parts : Piece -> List (List Char)
  | .code body after => [body, after]
  | .pair _ inner after => [inner, after]
  | .emphasis inner after => [inner, after]
  | .link text target after => [text, target, after]
  | .address _ after => [after]
  | .plain => []

theorem length_le_of_part {c : Char} {rest : List Char} {piece : Piece}
    (h : PieceOf c rest piece) {part : List Char} (hpart : part ∈ piece.parts) :
    part.length <= rest.length := by
  cases h with
  | code body after h | emphasis inner after hc h =>
      rw [h, length_append, length_cons]
      simp only [Piece.parts, mem_cons, not_mem_nil, or_false] at hpart
      rcases hpart with rfl | rfl
      · omega
      · omega
  | pair marker tag inner after htag h =>
      rw [h, length_cons, length_append, length_cons, length_cons]
      simp only [Piece.parts, mem_cons, not_mem_nil, or_false] at hpart
      rcases hpart with rfl | rfl
      · omega
      · omega
  | link text target after h =>
      rw [h, length_append, length_cons, length_cons, length_append, length_cons]
      simp only [Piece.parts, mem_cons, not_mem_nil, or_false] at hpart
      rcases hpart with rfl | rfl | rfl
      · omega
      · omega
      · omega
  | address url after h hend =>
      rw [h, length_append]
      simp only [Piece.parts, mem_cons, not_mem_nil, or_false] at hpart
      rw [hpart]
      exact Nat.le_add_left _ _
  | plain => cases hpart

/-- A line of escaped text, with its marks rendered. -/
def inline : List Char -> List Char
  | [] => []
  | c :: rest =>
      match _hpiece : pieceAt c rest with
      | .code body after => openTag "code" ++ body ++ closeTag "code" ++ inline after
      | .pair tag inner after => openTag tag ++ inline inner ++ closeTag tag ++ inline after
      | .emphasis inner after => openTag "em" ++ inline inner ++ closeTag "em" ++ inline after
      | .link text target after =>
          (match safeHref target with
            | some href => openLink href ++ inline text ++ closeTag "a"
            | none => inline text) ++ inline after
      | .address url after =>
          (match safeHref url with
            | some href => openLink href ++ url ++ closeTag "a"
            | none => url) ++ inline after
      | .plain => c :: inline rest
termination_by s => s.length
decreasing_by
  all_goals
    have hof := pieceAt_of c rest
    first
    | exact Nat.lt_succ_self _
    | rw [_hpiece] at hof
      exact Nat.lt_succ_of_le (length_le_of_part hof (by simp [Piece.parts]))

def inlineToHtml (src : List Char) : List Char :=
  inline (escape src)

end Rabbithole.Markdown
