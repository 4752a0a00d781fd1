import Rabbithole.Markdown.Message

/-!
# Escaped characters that stay whole

What is put out is whole text and bare addresses, each address once as a target, in front of
a quote.  So the output has its entities whole just where the addresses have theirs.
-/

namespace Rabbithole.Markdown

open Foundation List

instance (priority := high) decidableMem (p : Char -> Prop) [DecidablePred p] (s : List Char) :
    Decidable (forall c, c ∈ s -> p c) :=
  decidableBAll p s

def entities : List (List Char) :=
  ["&amp;".toList, "&lt;".toList, "&gt;".toList, "&quot;".toList, "&#39;".toList]

/-- Every ampersand begins an entity. -/
def Whole (s : List Char) : Prop :=
  forall before after, s = before ++ '&' :: after ->
    exists entity, entity ∈ entities ∧ entity <+: '&' :: after

/-- The bare addresses that `inline` comes to, less the punctuation at their ends. -/
def addresses : List Char -> List (List Char)
  | [] => []
  | c :: rest =>
      match _hpiece : pieceAt c rest with
      | .code _ after => addresses after
      | .pair _ inner after => addresses inner ++ addresses after
      | .emphasis inner after => addresses inner ++ addresses after
      | .link text _ after => addresses text ++ addresses after
      | .address url after => url :: addresses after
      | .plain => addresses rest
termination_by s => s.length
decreasing_by
  all_goals
    have hof := pieceAt_of c rest
    first
    | exact Nat.lt_succ_self _
    | rw [_hpiece] at hof
      exact Nat.lt_succ_of_le (length_le_of_part hof (by simp [Piece.parts]))

/-- The texts that the blocks of a message hand to `inline`. -/
def texts : List (List Char) -> List (List Char)
  | [] => []
  | line :: rest =>
      let trimmed := trimStartText line
      if isFence line then texts ((rest.dropWhile (fun l => !isFence l)).drop 1)
      else if trimmed.isEmpty then texts rest
      else if isRule trimmed then texts rest
      else
        match headingLevel trimmed with
        | some level => trimText (trimmed.drop level) :: texts rest
        | none =>
            if isQuote line then
              joinBreaks ((line :: rest.takeWhile isQuote).map
                (fun line => trimText ((trimStartText line).drop 4))) ::
                  texts (rest.dropWhile isQuote)
            else
              match listItem trimmed with
              | some (_, item) => item :: texts rest
              | none =>
                  joinBreaks ((line :: rest.takeWhile (fun l => !isBreak l)).map trimEndText) ::
                    texts (rest.dropWhile (fun l => !isBreak l))
termination_by lines => lines.length
decreasing_by
  all_goals
    simp only [length_cons, length_drop]
    first
    | exact Nat.lt_succ_self _
    | exact Nat.lt_succ_of_le (length_dropWhile_le _ _)
    | exact Nat.lt_succ_of_le ((Nat.sub_le _ _).trans (length_dropWhile_le _ _))

/-!
## Whole text
-/

variable {s t before after : List Char} {c : Char}

/-- The character is in no entity. -/
def Apart (c : Char) : Prop :=
  c ∉ entities.flatten

instance : DecidablePred Apart :=
  fun _ => inferInstanceAs (Decidable (¬ _))

theorem whole_of_not_mem (h : '&' ∉ s) : Whole s := by
  rintro before after rfl
  exact absurd (mem_append_right _ mem_cons_self) h

theorem Whole.suffix (h : Whole s) (ht : t <:+ s) : Whole t := by
  rcases ht with ⟨front, rfl⟩
  rintro before after rfl
  exact h (front ++ before) after (by rw [append_assoc])

theorem Whole.append (hs : Whole s) (ht : Whole t) : Whole (s ++ t) := by
  intro before after hsplit
  rcases append_eq_append_iff.mp hsplit with ⟨mid, rfl, hmid⟩ | ⟨mid, rfl, hmid⟩
  · exact ht mid after hmid
  · cases mid with
    | nil => exact ht [] after hmid.symm
    | cons d mid =>
        rcases cons.inj hmid with ⟨rfl, rfl⟩
        rcases hs before mid rfl with ⟨entity, hentity, hprefix⟩
        exact ⟨entity, hentity, hprefix.trans (prefix_append _ t)⟩

theorem Whole.cut (h : Whole (before ++ c :: after)) (hc : Apart c) : Whole before := by
  rintro front behind rfl
  rcases h front (behind ++ c :: after) (by simp) with ⟨entity, hentity, hprefix⟩
  refine ⟨entity, hentity, ?_⟩
  have hinner : ('&' :: behind) <+: '&' :: (behind ++ c :: after) := prefix_append _ _
  rcases prefix_or_prefix_of_prefix hprefix hinner with hle | ⟨rest, rfl⟩
  · exact hle
  · cases rest with
    | nil => exact ⟨[], by simp⟩
    | cons d rest =>
        have hbehind := (prefix_append_right_inj ('&' :: behind)).mp
          (show '&' :: behind ++ d :: rest <+: '&' :: behind ++ c :: after from hprefix)
        rw [(cons_prefix_cons.mp hbehind).left] at hentity
        exact absurd (mem_flatten.mpr ⟨_, hentity, mem_append_right _ mem_cons_self⟩) hc

theorem Whole.parts (h : Whole (before ++ c :: after)) (hc : Apart c) :
    Whole before ∧ Whole after :=
  ⟨h.cut hc, h.suffix ⟨before ++ [c], by simp⟩⟩

theorem apart_of_isWhitespace (h : isWhitespace c = true) : Apart c := by
  have hall : forall d, d ∈ entities.flatten -> isWhitespace d = false := by decide
  intro hc
  rw [hall c hc] at h
  cases h

theorem Whole.trimEnd (h : Whole s) : Whole (trimEndText s) := by
  have hsplit := rdropWhile_append isWhitespace s
  cases hback : (s.reverse.takeWhile isWhitespace).reverse with
  | nil =>
      rw [hback, append_nil] at hsplit
      rwa [<- hsplit] at h
  | cons c back =>
      rw [hback] at hsplit
      rw [<- hsplit] at h
      have hc : c ∈ s.reverse.takeWhile isWhitespace := by
        rw [<- mem_reverse, hback]
        exact mem_cons_self
      exact h.cut (apart_of_isWhitespace (mem_takeWhile_imp hc))

theorem Whole.trim (h : Whole s) : Whole (trimText s) :=
  (h.suffix (dropWhile_suffix _)).trimEnd

theorem whole_openLink (h : Whole s) : Whole (openLink s) :=
  ((whole_of_not_mem (by decide)).append h).append (whole_of_not_mem (by decide))

/-!
## What is put out
-/

/-- Whole text, and addresses that are linked to. -/
inductive Shows : List Char -> List (List Char) -> Prop where
  | nil : Shows [] []
  | whole (front : List Char) (h : Whole front) {out : List Char} {urls : List (List Char)}
      (hout : Shows out urls) : Shows (front ++ out) urls
  | address (url : List Char) {out : List Char} {urls : List (List Char)} (hout : Shows out urls) :
      Shows (openLink url ++ url ++ closeTag "a" ++ out) (url :: urls)

variable {out out' : List Char} {urls urls' : List (List Char)}

theorem Shows.append (h : Shows out urls) (h' : Shows out' urls') :
    Shows (out ++ out') (urls ++ urls') := by
  induction h with
  | nil => exact h'
  | whole front hfront _ ih =>
      rw [append_assoc]
      exact .whole front hfront ih
  | address url _ ih =>
      rw [append_assoc]
      exact .address url ih

theorem shows_whole (h : Whole s) : Shows s [] := by
  rw [<- append_nil s]
  exact .whole s h .nil

theorem Shows.tagged (h : Shows out urls) (hs : '&' ∉ s) (ht : '&' ∉ t) :
    Shows (s ++ out ++ t) urls := by
  have hall := ((shows_whole (whole_of_not_mem hs)).append h).append
    (shows_whole (whole_of_not_mem ht))
  rwa [nil_append, append_nil] at hall

theorem Shows.whole_iff (h : Shows out urls) : Whole out <-> forall url, url ∈ urls -> Whole url := by
  induction h with
  | nil => exact ⟨fun _ => nofun, fun _ => whole_of_not_mem not_mem_nil⟩
  | whole front hfront _ ih =>
      exact ⟨fun hall => ih.mp (hall.suffix (suffix_append _ _)),
        fun hall => hfront.append (ih.mpr hall)⟩
  | @address url out urls _ ih =>
      rw [forall_mem_cons]
      constructor
      · intro hall
        refine ⟨?_, ih.mp (hall.suffix (suffix_append _ _))⟩
        have hquote : exists back, openLink url ++ url ++ closeTag "a" ++ out =
            ("<a href=\"".toList ++ url) ++ '"' :: back := by
          refine ⟨" rel=\"noopener noreferrer nofollow\" target=\"_blank\">".toList ++ url ++
            closeTag "a" ++ out, ?_⟩
          unfold openLink
          simp only [append_assoc]
          rfl
        rcases hquote with ⟨back, heq⟩
        rw [heq] at hall
        exact (hall.cut (by decide)).suffix (suffix_append _ _)
      · rintro ⟨hurl, hurls⟩
        exact (((whole_openLink hurl).append hurl).append (whole_of_not_mem (by decide))).append
          (ih.mpr hurls)

/-!
## Within a line
-/

theorem isWhitespace_toLower (c : Char) : isWhitespace c.toLower = isWhitespace c := by
  unfold Char.toLower
  split
  · rename_i hupper
    have hall : forall n : Fin 128, isWhitespace (Char.ofNat n).toLower =
        isWhitespace (Char.ofNat n) := by decide
    have hlt := UInt32.le_iff_toNat_le.mp hupper.right
    have hc := hall ⟨c.toNat, Nat.lt_of_le_of_lt hlt (by decide)⟩
    rw [Char.ofNat_toNat] at hc
    delta Char.toLower at hc
    rwa [dif_pos hupper] at hc
  · rfl

theorem prefix_rdropWhile {p : Char -> Bool} (front back : List Char) (hc : p c = false) :
    front ++ [c] <+: (front ++ [c] ++ back).rdropWhile p := by
  induction back using List.reverseRecOn with
  | nil =>
      have hkept := rdropWhile_concat_neg p front c (by simp [hc])
      simp [hkept]
  | append_singleton back d ih =>
      rw [<- append_assoc]
      by_cases hd : p d = true
      · rwa [rdropWhile_concat_pos _ _ _ hd]
      · rw [rdropWhile_concat_neg _ _ _ hd, append_assoc (front ++ [c])]
        exact prefix_append _ _

/-- An address has nothing but its scheme to show for being linked to. -/
theorem safeHref_address (h : startsUrl s = true) :
    safeHref (urlAt s).fst = some (urlAt s).fst := by
  have hscheme : exists scheme, scheme ∈ safeSchemes ∧ scheme.getLast? = some '/' ∧
      (forall c, c ∈ scheme -> isWhitespace c = false) ∧
      scheme <+: toAsciiLowercase (s.take 8) := by
    unfold startsUrl at h
    rcases Bool.or_eq_true_iff.mp h with hplain | hsecure
    · exact ⟨_, mem_cons_self, rfl, by decide, isPrefixOf_iff_prefix.mp hplain⟩
    · exact ⟨_, mem_cons_of_mem _ mem_cons_self, rfl, by decide, isPrefixOf_iff_prefix.mp hsecure⟩
  rcases hscheme with ⟨scheme, hmem, hslash, hspace, behind, hprefix⟩
  rcases append_eq_map_iff.mp hprefix with ⟨front, rest, htake, hfront, -⟩
  have hs : s = front ++ (rest ++ s.drop 8) := by rw [<- append_assoc, <- htake, take_append_drop]
  have hkept : forall c, c ∈ front -> (!isWhitespace c) = true := by
    intro c hc
    rw [<- isWhitespace_toLower, hspace _ (hfront ▸ mem_map_of_mem hc)]
    rfl
  have hurl : front <+: (urlAt s).fst := by
    rcases eq_nil_or_concat' front with rfl | ⟨front', d, rfl⟩
    · exact nil_prefix
    · rw [<- hfront, map_append, map_singleton, getLast?_concat] at hslash
      have hd : isTrailing d = false := by
        have hall : forall e, e ∈ ".,);:!?".toList -> e.toLower ≠ '/' := by decide
        cases htrailing : isTrailing d with
        | false => rfl
        | true =>
            refine absurd (Option.some.inj hslash) (hall d ?_)
            simpa [isTrailing, or_assoc] using htrailing
      unfold urlAt
      rw [hs, takeWhile_append_of_pos hkept]
      exact prefix_rdropWhile front' _ hd
  have hword : forall c, c ∈ (urlAt s).fst -> isWhitespace c = false := by
    intro c hc
    have hkeep := mem_takeWhile_imp (( rdropWhile_prefix _ _).subset hc)
    rwa [Bool.not_eq_true'] at hkeep
  have hprobe : scheme <+: toAsciiLowercase (urlAt s).fst := hfront ▸ hurl.map Char.toLower
  have hany : safeSchemes.any (fun scheme => scheme.isPrefixOf (toAsciiLowercase (urlAt s).fst)) =
      true := any_eq_true.mpr ⟨scheme, hmem, isPrefixOf_iff_prefix.mpr hprobe⟩
  unfold safeHref
  rw [trimText_eq_self hword]
  dsimp only
  rw [if_neg, if_pos hany]
  rw [Bool.or_eq_true_iff, not_or]
  constructor
  · rw [List.isEmpty_iff]
    intro hnil
    rw [hnil, prefix_nil] at hprobe
    rw [hprobe] at hslash
    cases hslash
  · rw [any_eq_true]
    rintro ⟨c, hc, hwhite⟩
    rcases mem_map.mp hc with ⟨d, hd, rfl⟩
    rw [isWhitespace_toLower, hword d hd] at hwhite
    cases hwhite

theorem address_of {rest url : List Char} (h : pieceAt c rest = .address url after) :
    safeHref url = some url := by
  unfold pieceAt at h
  dsimp only at h
  split at h
  · cases h
  · split at h
    · rename_i piece hpair
      rcases Option.or_eq_some_iff.mp hpair with hstrong | ⟨-, hdel⟩
      · rcases pairAt_of hstrong with ⟨_, _, rfl, -⟩
        cases h
      · rcases pairAt_of hdel with ⟨_, _, rfl, -⟩
        cases h
    · split at h
      · split at h
        · cases h
        · cases h
      · split at h
        · split at h
          · cases h
          · cases h
        · split at h
          · rename_i hstart
            cases h
            exact safeHref_address hstart.right
          · cases h

theorem addresses_cons (c : Char) (rest : List Char) :
    addresses (c :: rest) =
      match pieceAt c rest with
      | .code _ after => addresses after
      | .pair _ inner after => addresses inner ++ addresses after
      | .emphasis inner after => addresses inner ++ addresses after
      | .link text _ after => addresses text ++ addresses after
      | .address url after => url :: addresses after
      | .plain => addresses rest := by
  rw [addresses]
  split <;> rename_i hpiece <;> rw [hpiece]

theorem whole_entity {entity : List Char} (h : entity ∈ entities) : Whole entity := by
  intro before after hsplit
  cases before with
  | nil => exact ⟨entity, h, hsplit ▸ prefix_rfl⟩
  | cons c before =>
      have hall : forall e, e ∈ entities -> '&' ∉ e.tail := by decide
      refine absurd ?_ (hall entity h)
      rw [hsplit]
      exact mem_append_right before mem_cons_self

theorem entity_plain {entity : List Char} (h : forall c, c ∈ entity -> opens c = false)
    (rest : List Char) : inline (entity ++ rest) = entity ++ inline rest ∧
      addresses (entity ++ rest) = addresses rest := by
  induction entity with
  | nil => exact ⟨rfl, rfl⟩
  | cons c entity ih =>
      have hpiece := pieceAt_plain (h c mem_cons_self) (entity ++ rest)
      rcases ih (fun d hd => h d (mem_cons_of_mem c hd)) with ⟨hinline, haddresses⟩
      rw [cons_append, inline_plain hpiece, hinline, addresses_cons, hpiece]
      exact ⟨rfl, haddresses⟩

theorem whole_href {target href : List Char} (h : Whole target)
    (hhref : safeHref target = some href) : Whole href := by
  unfold safeHref at hhref
  dsimp only at hhref
  split at hhref
  · cases hhref
  · split at hhref
    · cases hhref
      exact h.trim
    · cases hhref

theorem inline_shows (h : Whole s) : Shows (inline s) (addresses s) := by
  induction hn : s.length using Nat.strongRecOn generalizing s with
  | ind n ih =>
      have hless : forall t : List Char, t.length < n -> Whole t -> Shows (inline t) (addresses t) :=
        fun t ht hwhole => ih t.length ht hwhole rfl
      cases s with
      | nil =>
          rw [inline, addresses]
          exact .nil
      | cons c rest =>
          rw [length_cons] at hn
          have hrest := h.suffix (suffix_cons c rest)
          by_cases hc : c = '&'
          · subst hc
            rcases h [] rest rfl with ⟨entity, hentity, behind, hsplit⟩
            have hall : forall e, e ∈ entities ->
                (forall d, d ∈ e -> opens d = false) ∧ 0 < e.length := by decide
            rcases hall entity hentity with ⟨hplain, hpos⟩
            have hlength := congrArg length hsplit
            rw [length_append, length_cons] at hlength
            rw [<- hsplit] at h ⊢
            rw [(entity_plain hplain behind).left, (entity_plain hplain behind).right]
            exact .whole entity (whole_entity hentity)
              (hless behind (by omega) (h.suffix (suffix_append _ _)))
          · have hof := pieceAt_of c rest
            have hpart : forall t, t ∈ (pieceAt c rest).parts -> Whole t ->
                Shows (inline t) (addresses t) := by
              intro t ht hwhole
              have hle := length_le_of_part hof ht
              exact hless t (by omega) hwhole
            generalize hpiece : pieceAt c rest = piece at hof hpart
            rw [inline_cons, addresses_cons, hpiece]
            cases hof with
            | code body after hsplit =>
                rw [hsplit] at hrest
                rcases hrest.parts (by decide) with ⟨hbody, hafter⟩
                exact ((shows_whole hbody).tagged (by decide) (by decide)).append
                  (hpart after (by simp [Piece.parts]) hafter)
            | pair marker tag inner after htag hsplit =>
                have hapart : Apart marker ∧ '&' ∉ openTag tag ∧ '&' ∉ closeTag tag := by
                  rcases htag with ⟨rfl, rfl⟩ | ⟨rfl, rfl⟩
                  · decide
                  · decide
                rw [hsplit] at hrest
                rcases (hrest.suffix (suffix_cons _ _)).parts hapart.left with ⟨hinner, hbehind⟩
                exact ((hpart inner (by simp [Piece.parts]) hinner).tagged hapart.right.left
                  hapart.right.right).append
                    (hpart after (by simp [Piece.parts]) (hbehind.suffix (suffix_cons _ _)))
            | emphasis inner after hmark hsplit =>
                have hapart : Apart c := by
                  rcases hmark with rfl | rfl
                  · decide
                  · decide
                rw [hsplit] at hrest
                rcases hrest.parts hapart with ⟨hinner, hafter⟩
                exact ((hpart inner (by simp [Piece.parts]) hinner).tagged (by decide)
                  (by decide)).append (hpart after (by simp [Piece.parts]) hafter)
            | link text target after hsplit =>
                rw [hsplit] at hrest
                rcases hrest.parts (by decide) with ⟨htext, hbehind⟩
                rcases (hbehind.suffix (suffix_cons _ _)).parts (by decide) with ⟨htarget, hafter⟩
                have hin := hpart text (by simp [Piece.parts]) htext
                refine Shows.append ?_ (hpart after (by simp [Piece.parts]) hafter)
                split
                · rename_i href hhref
                  have hlink := ((shows_whole (whole_openLink (whole_href htarget hhref))).append
                    hin).append (shows_whole (whole_of_not_mem (show '&' ∉ closeTag "a" by decide)))
                  rwa [append_nil] at hlink
                · exact hin
            | address url after hsplit hend =>
                have hafter : Whole after := hrest.suffix (hsplit ▸ suffix_append url after)
                dsimp only
                rw [address_of hpiece]
                exact .address _ (hpart after (by simp [Piece.parts]) hafter)
            | plain =>
                refine .whole [c] (whole_of_not_mem ?_) (hless rest (by omega) hrest)
                rw [mem_singleton]
                exact Ne.symm hc

/-!
## Over lines
-/

variable {ls : List (List Char)}

theorem whole_escape (src : List Char) : Whole (escape src) := by
  induction src with
  | nil => exact whole_of_not_mem not_mem_nil
  | cons c src ih =>
      refine Whole.append ?_ ih
      unfold escapeChar
      split_ifs with hamp
      · exact whole_entity (by decide)
      · exact whole_entity (by decide)
      · exact whole_entity (by decide)
      · exact whole_entity (by decide)
      · exact whole_entity (by decide)
      · exact whole_of_not_mem (by rw [mem_singleton]; exact Ne.symm hamp)

theorem whole_lines (h : Whole s) : forall line, line ∈ lines s -> Whole line := by
  have hparts : forall parts : List (List Char), Whole (['\n'].intercalate parts) ->
      forall part, part ∈ parts -> Whole part := by
    intro parts hwhole
    induction parts with
    | nil => exact nofun
    | cons first parts ih =>
        cases parts with
        | nil =>
            rw [intercalate_singleton] at hwhole
            rwa [forall_mem_singleton]
        | cons second parts =>
            rw [intercalate_cons_cons, append_assoc] at hwhole
            rcases Whole.parts hwhole (by decide) with ⟨hfirst, hrest⟩
            exact forall_mem_cons.mpr ⟨hfirst, ih hrest⟩
  intro line hline
  rcases mem_lines hline with ⟨part, hpart, hend⟩
  have hwhole := hparts (s.splitOn '\n') (by rwa [intercalate_splitOn]) part hpart
  rcases hend with rfl | rfl
  · exact hwhole
  · exact hwhole.cut (by decide)

theorem whole_joinBreaks (h : forall l, l ∈ ls -> Whole l) : Whole (joinBreaks ls) := by
  unfold joinBreaks
  induction ls with
  | nil => exact whole_of_not_mem not_mem_nil
  | cons first rest ih =>
      rcases forall_mem_cons.mp h with ⟨hfirst, hrest⟩
      cases rest with
      | nil => rwa [intercalate_singleton]
      | cons second rest =>
          rw [intercalate_cons_cons]
          exact (hfirst.append (whole_of_not_mem (by decide))).append (ih hrest)

theorem shows_renderCode {info : List Char} {body : List (List Char)}
    (h : forall l, l ∈ body -> Whole l) : Shows (renderCode info body) [] := by
  have hlines : Whole (body.flatMap (fun line => line ++ ['\n'])) := by
    induction body with
    | nil => exact whole_of_not_mem not_mem_nil
    | cons line body ih =>
        rcases forall_mem_cons.mp h with ⟨hline, hbody⟩
        exact (hline.append (whole_of_not_mem (by decide))).append (ih hbody)
  have hlang : '&' ∉ langOf info := by
    intro hmem
    have hchar := (langOf_allowed info).right '&' hmem
    cases hchar
  have hcls : '&' ∉ (if (langOf info).isEmpty then []
      else " class=\"lang-".toList ++ langOf info ++ ['"']) := by
    split
    · exact not_mem_nil
    · simp [hlang]
  unfold renderCode
  refine shows_whole (((((Whole.append ?_ (whole_of_not_mem (by decide))).append
    (whole_of_not_mem (by decide))).append hlines.trimEnd).append
      (whole_of_not_mem (by decide))).append (whole_of_not_mem (by decide)))
  exact (whole_of_not_mem (by decide)).append (whole_of_not_mem hcls)

theorem closeList_shows {list : Option String} {block tail : List Char}
    (hlist : list = none ∨ list = some "ul" ∨ list = some "ol") (hblock : Shows block urls)
    (htail : Shows tail urls') : Shows (closeList list ++ (block ++ tail)) (urls ++ urls') := by
  refine .whole _ (whole_of_not_mem ?_) (hblock.append htail)
  rcases hlist with rfl | rfl | rfl
  · decide
  · decide
  · decide

theorem blocks_shows (ls : List (List Char)) (list : Option String)
    (hlist : list = none ∨ list = some "ul" ∨ list = some "ol") (h : forall l, l ∈ ls -> Whole l) :
    Shows (blocks ls list) ((texts ls).flatMap addresses) := by
  induction ls, list using blocks.induct with
  | case1 list =>
      rw [blocks, texts]
      have hclose := closeList_shows hlist .nil .nil
      rwa [append_nil, append_nil] at hclose
  | case2 line rest list hfence ih =>
      have hrest := (forall_mem_cons.mp h).right
      rw [blocks, texts]
      dsimp only
      rw [if_pos hfence, if_pos hfence]
      exact closeList_shows hlist (shows_renderCode fun l hl => hrest l (mem_of_takeWhile hl))
        (ih (Or.inl rfl) fun l hl => hrest l (mem_of_dropWhile (mem_of_mem_drop hl)))
  | case3 line rest list trimmed hfence hempty ih =>
      rw [blocks, texts]
      dsimp only
      rw [if_neg hfence, if_pos hempty, if_neg hfence, if_pos hempty]
      exact closeList_shows hlist .nil (ih (Or.inl rfl) (forall_mem_cons.mp h).right)
  | case4 line rest list trimmed hfence hempty hrule ih =>
      rw [blocks, texts]
      dsimp only
      rw [if_neg hfence, if_neg hempty, if_pos hrule, if_neg hfence, if_neg hempty, if_pos hrule]
      exact closeList_shows hlist (shows_whole (whole_of_not_mem (by decide)))
        (ih (Or.inl rfl) (forall_mem_cons.mp h).right)
  | case5 line rest list trimmed hfence hempty hrule level hlevel ih =>
      rcases forall_mem_cons.mp h with ⟨hline, hrest⟩
      have htext := inline_shows
        ((hline.suffix (dropWhile_suffix _)).suffix (drop_suffix level trimmed)).trim
      rw [blocks, texts]
      dsimp only
      rw [if_neg hfence, if_neg hempty, if_neg hrule, hlevel, if_neg hfence, if_neg hempty,
        if_neg hrule]
      refine closeList_shows hlist ?_ (ih (Or.inl rfl) hrest)
      unfold renderHeading headingTag
      split_ifs
      all_goals exact htext.tagged (by decide) (by decide)
  | case6 line rest list trimmed hfence hempty hrule hlevel hquote ih =>
      rcases forall_mem_cons.mp h with ⟨hline, hrest⟩
      rw [blocks, texts]
      dsimp only
      rw [if_neg hfence, if_neg hempty, if_neg hrule, hlevel, if_neg hfence, if_neg hempty,
        if_neg hrule]
      dsimp only
      rw [if_pos hquote, if_pos hquote]
      refine closeList_shows hlist (.tagged (inline_shows (whole_joinBreaks ?_)) (by decide)
        (by decide)) (ih (Or.inl rfl) fun l hl => hrest l (mem_of_dropWhile hl))
      intro l hl
      rcases mem_map.mp hl with ⟨l', hl', rfl⟩
      have hwhole := forall_mem_cons.mpr ⟨hline, fun l hl => hrest l (mem_of_takeWhile hl)⟩ l' hl'
      exact ((hwhole.suffix (dropWhile_suffix _)).suffix (drop_suffix 4 _)).trim
  | case7 line rest list trimmed hfence hempty hrule hlevel hquote tag item hitem ih =>
      rcases forall_mem_cons.mp h with ⟨hline, hrest⟩
      rcases listItem_tag hitem with ⟨htag, hsuffix⟩
      have htext := inline_shows ((hline.suffix (dropWhile_suffix _)).suffix hsuffix)
      rw [blocks, texts]
      dsimp only
      rw [if_neg hfence, if_neg hempty, if_neg hrule, hlevel, if_neg hfence, if_neg hempty,
        if_neg hrule]
      dsimp only
      rw [if_neg hquote, hitem, if_neg hquote]
      refine .whole _ ?_ ((htext.tagged (by decide) (by decide)).append (ih (by tauto) hrest))
      split
      · exact whole_of_not_mem not_mem_nil
      · refine whole_of_not_mem ?_
        rcases hlist with rfl | rfl | rfl <;> rcases htag with rfl | rfl <;> decide
  | case8 line rest list trimmed hfence hempty hrule hlevel hquote hitem ih =>
      rcases forall_mem_cons.mp h with ⟨hline, hrest⟩
      rw [blocks, texts]
      dsimp only
      rw [if_neg hfence, if_neg hempty, if_neg hrule, hlevel, if_neg hfence, if_neg hempty,
        if_neg hrule]
      dsimp only
      rw [if_neg hquote, hitem, if_neg hquote]
      refine closeList_shows hlist (.tagged (inline_shows (whole_joinBreaks ?_)) (by decide)
        (by decide)) (ih (Or.inl rfl) fun l hl => hrest l (mem_of_dropWhile hl))
      intro l hl
      rcases mem_map.mp hl with ⟨l', hl', rfl⟩
      exact (forall_mem_cons.mpr ⟨hline, fun l hl => hrest l (mem_of_takeWhile hl)⟩ l' hl').trimEnd

theorem entities_whole_iff (src : List Char) :
    (Whole (toHtml src) <-> forall text, text ∈ texts (lines (escape src)) ->
        forall url, url ∈ addresses text -> Whole url) ∧
      (Whole (inlineToHtml src) <-> forall url, url ∈ addresses (escape src) -> Whole url) := by
  constructor
  · have hshows := blocks_shows (lines (escape src)) none (Or.inl rfl)
      (whole_lines (whole_escape src))
    unfold toHtml
    rw [hshows.whole_iff]
    exact ⟨fun h text htext url hurl => h url (mem_flatMap_of_mem htext hurl),
      fun h url hurl => by
        rcases mem_flatMap.mp hurl with ⟨text, htext, hmem⟩
        exact h text htext url hmem⟩
  · exact (inline_shows (whole_escape src)).whole_iff

/-- The semicolon of a quote is taken for the end of a sentence. -/
theorem quote_behind_address :
    ¬ (Whole (toHtml "http://a\"".toList) ∧ Whole (inlineToHtml "http://a\"".toList)) := by
  rintro ⟨-, hwhole⟩
  have hshows := inline_shows (whole_escape "http://a\"".toList)
  have hmet : "http://a&quot".toList ∈ addresses (escape "http://a\"".toList) := by
    show _ ∈ addresses ('h' :: "ttp://a&quot;".toList)
    rw [addresses_cons]
    exact mem_cons_self
  rcases hshows.whole_iff.mp hwhole _ hmet "http://a".toList "quot".toList rfl with
    ⟨entity, hentity, hprefix⟩
  have hall : forall e, e ∈ entities -> e.isPrefixOf ('&' :: "quot".toList) = false := by decide
  have hnone := hall entity hentity
  rw [ isPrefixOf_iff_prefix.mpr hprefix] at hnone
  cases hnone

end Rabbithole.Markdown
