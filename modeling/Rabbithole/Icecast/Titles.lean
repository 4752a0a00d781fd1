import Rabbithole.Icecast.Metaint

/-!
# Titles that are read back

A value is written between quotes as it is, and read up to a quote and a semicolon that end
it.  What it says decides whether that is where it was written to end.
-/

namespace Rabbithole.Icecast

open Foundation List Option

/-- The value at the front of a text, as a reader finds it. -/
def readValue (body : List Char) : List Char :=
  let candidates := (List.range (body.length - 1)).filter (isTerminator body)
  let value :=
    match (candidates.find? (endsValue body)).or candidates.getLast? with
    | some i => body.take i
    | none => body
  unescapeQuotes value

theorem extractAttr_eq (text key : List Char) :
    extractAttr text key = (findText (key ++ "='".toList) (text.map Char.toLower)).map
      (fun start => readValue (text.drop (start + (key ++ "='".toList).length))) := by
  unfold extractAttr readValue
  simp only []
  cases findText (key ++ "='".toList) (text.map Char.toLower) with
  | none => rfl
  | some start => rfl

/-- A value ends where it was written to, and nothing in it is read as something else. -/
structure Plain (value rest : List Char) : Prop where
  unescaped : unescapeQuotes value = value
  open_ : value.getLast? ≠ some '\\'
  inside : forall i, i < value.length -> isTerminator (value ++ attributeEnd ++ rest) i = true ->
    endsValue (value ++ attributeEnd ++ rest) i = false

variable {value rest body : List Char}

theorem length_unescapeQuotes_le (s : List Char) : (unescapeQuotes s).length <= s.length := by
  fun_induction unescapeQuotes s with
  | case1 s ih => exact Nat.le_trans (Nat.succ_le_succ ih) (Nat.le_succ _)
  | case2 c s _ ih => exact Nat.succ_le_succ ih
  | case3 => exact Nat.le_refl 0

theorem eq_nil_of_unescapeQuotes (value more : List Char)
    (h : unescapeQuotes (value ++ more) = value) : more = [] := by
  induction value with
  | nil =>
      cases more with
      | nil => rfl
      | cons c more =>
          rw [nil_append] at h
          unfold unescapeQuotes at h
          split at h
          · cases h
          · cases h
          · rename_i hnil
            exact hnil
  | cons c value ih =>
      rw [cons_append] at h
      unfold unescapeQuotes at h
      split at h
      · rename_i s heq
        rw [(List.cons.inj heq).left] at h
        exact absurd (List.cons.inj h).left (by decide)
      · rename_i d s _ heq
        rw [← (List.cons.inj heq).right] at h
        exact ih (List.cons.inj h).right
      · rename_i heq
        cases heq

theorem unescapeQuotes_tail {c : Char} {s : List Char} (h : unescapeQuotes (c :: s) = c :: s) :
    unescapeQuotes s = s := by
  unfold unescapeQuotes at h
  split at h
  · rename_i s' heq
    rw [(List.cons.inj heq).left] at h
    exact absurd (List.cons.inj h).left (by decide)
  · rename_i d s' _ heq
    rw [← (List.cons.inj heq).right] at h
    exact (List.cons.inj h).right
  · rename_i heq
    cases heq

theorem isTerminator_lt {i : Nat} (h : isTerminator body i = true) : i + 1 < body.length := by
  unfold isTerminator at h
  rw [Bool.and_eq_true, Bool.and_eq_true, beq_iff_eq, beq_iff_eq] at h
  exact (List.getElem?_eq_some_iff.mp h.left.right).fst

theorem readValue_of_first {i : Nat} (hat : isTerminator body i = true)
    (hends : endsValue body i = true)
    (hfirst : forall j, j < i -> isTerminator body j = true -> endsValue body j = false) :
    readValue body = unescapeQuotes (body.take i) := by
  have hlt := isTerminator_lt hat
  have hfind : ((List.range (body.length - 1)).filter (isTerminator body)).find?
      (endsValue body) = some i := by
    rw [find?_filter]
    have hsplit : List.range (body.length - 1) =
        List.range i ++ i :: List.range' (i + 1) (body.length - 1 - (i + 1)) := by
      have happend := range'_append_1 (s := 0) (m := i) (n := body.length - 1 - i)
      rw [range_eq_range', range_eq_range', ← range'_succ,
        show body.length - 1 - (i + 1) + 1 = body.length - 1 - i by omega]
      rw [Nat.zero_add, show i + (body.length - 1 - i) = body.length - 1 by omega] at happend
      exact happend.symm
    rw [hsplit, find?_append, find?_eq_none.mpr, find?_cons_of_pos]
    · rfl
    · rw [hat, hends]
      rfl
    · intro j hj hboth
      rw [decide_eq_true_eq] at hboth
      rw [hfirst j (mem_range.mp hj) hboth.left] at hboth
      exact absurd hboth.right (by decide)
  unfold readValue
  simp only [hfind, some_or]

theorem readValue_cases (body : List Char) :
    (exists i, isTerminator body i = true ∧ readValue body = unescapeQuotes (body.take i)) ∨
      readValue body = unescapeQuotes body := by
  unfold readValue
  simp only []
  split
  · rename_i i hi
    refine .inl ⟨i, ?_, rfl⟩
    rcases or_eq_some_iff.mp hi with hfind | ⟨-, hlast⟩
    · exact (mem_filter.mp (mem_of_find?_eq_some hfind)).right
    · exact (mem_filter.mp (mem_of_getLast? hlast)).right
  · exact .inr rfl

/-- What may follow a value: nothing, or another attribute. -/
def Follows (rest : List Char) : Prop :=
  rest = [] ∨ isWhitespace (rest.headD ' ') = false ∧ looksLikeAttrStart rest = true

theorem endsValue_written (hrest : Follows rest) :
    endsValue (value ++ attributeEnd ++ rest) value.length = true := by
  have hdrop : (value ++ attributeEnd ++ rest).drop (value.length + 2) = rest :=
    drop_left' (by rw [length_append]; rfl)
  unfold endsValue
  rw [hdrop]
  rcases hrest with rfl | ⟨hhead, hlooks⟩
  · rfl
  · cases rest with
    | nil => rfl
    | cons c rest =>
        rw [dropWhile_cons_of_neg (by rw [show isWhitespace c = false from hhead]; decide)]
        exact hlooks

theorem isTerminator_written_iff :
    isTerminator (value ++ attributeEnd ++ rest) value.length = true <->
      value.getLast? ≠ some '\\' := by
  have hbehind : (value ++ attributeEnd ++ rest) = value ++ '\'' :: ';' :: rest := by
    rw [append_assoc]
    rfl
  unfold isTerminator
  rw [hbehind, getElem?_append_right (Nat.le_refl _),
    getElem?_append_right (Nat.le_succ _), Nat.sub_self,
    show value.length.succ - value.length = 1 by omega]
  cases hvalue : value.length with
  | zero =>
      rw [length_eq_zero_iff.mp hvalue]
      simp
  | succ n =>
      rw [getLast?_eq_getElem?, hvalue, Nat.add_sub_cancel, getElem?_append_left (by omega)]
      simp

/-- A value is read back exactly where it is plain. -/
theorem readValue_eq_iff (hrest : Follows rest) :
    readValue (value ++ attributeEnd ++ rest) = value <-> Plain value rest := by
  have htake : (value ++ attributeEnd ++ rest).take value.length = value := by
    rw [append_assoc, take_left]
  constructor
  · intro h
    have hat : isTerminator (value ++ attributeEnd ++ rest) value.length = true ∧
        unescapeQuotes value = value := by
      have hlonger : forall more, unescapeQuotes (value ++ more) = value -> more = [] :=
        eq_nil_of_unescapeQuotes value
      rcases readValue_cases (value ++ attributeEnd ++ rest) with ⟨i, hi, hread⟩ | hread
      · rw [h] at hread
        have hlt := isTerminator_lt hi
        have hle := length_unescapeQuotes_le ((value ++ attributeEnd ++ rest).take i)
        rw [← hread, length_take] at hle
        have hmore : (value ++ attributeEnd ++ rest).take i =
            value ++ (attributeEnd ++ rest).take (i - value.length) := by
          rw [append_assoc, take_append, take_of_length_le (by omega)]
        rw [hmore] at hread
        have hnil := hlonger _ hread.symm
        have hsame : i = value.length := by
          have hlength := congrArg List.length hnil
          rw [length_take, length_nil] at hlength
          rw [append_assoc, length_append] at hlt
          omega
        rw [hnil, append_nil] at hread
        exact ⟨by rw [← hsame]; exact hi, hread.symm⟩
      · rw [h, append_assoc] at hread
        cases hlonger _ hread.symm
    refine ⟨hat.right, isTerminator_written_iff.mp hat.left, ?_⟩
    -- the first end before the one that was written would have cut the value short
    intro i
    induction i using Nat.strong_induction_on with
    | _ i ih =>
        intro hlt hi
        by_contra hends
        rw [Bool.not_eq_false] at hends
        have hread := readValue_of_first hi hends (fun j hj => ih j hj (Nat.lt_trans hj hlt))
        have hle := length_unescapeQuotes_le ((value ++ attributeEnd ++ rest).take i)
        rw [← hread, h, length_take] at hle
        omega
  · intro h
    rw [readValue_of_first (isTerminator_written_iff.mpr h.open_) (endsValue_written hrest)
      h.inside, htake, h.unescaped]

/-!
## Where a URL is looked for
-/

theorem findText_spec {needle s : List Char} {i : Nat} (h : findText needle s = some i) :
    exists front back, s = front ++ needle ++ back ∧ front.length = i := by
  induction s generalizing i with
  | nil =>
      unfold findText at h
      split at h
      · rename_i hempty
        cases h
        exact ⟨[], [], by rw [List.isEmpty_iff.mp hempty]; rfl, rfl⟩
      · cases h
  | cons c s ih =>
      unfold findText at h
      split at h
      · rename_i hprefix
        cases h
        rcases isPrefixOf_iff_prefix.mp hprefix with ⟨back, hback⟩
        exact ⟨[], back, hback.symm, rfl⟩
      · rcases map_eq_some_iff.mp h with ⟨j, hj, rfl⟩
        rcases ih hj with ⟨front, back, hs, hlength⟩
        exact ⟨c :: front, back, by rw [hs]; rfl, by rw [length_cons, hlength]⟩

theorem isPrefixOf_append_sep {needle : List Char} {sep : Char} (hsep : sep ∉ needle)
    (s rest : List Char) : needle.isPrefixOf (s ++ sep :: rest) = needle.isPrefixOf s := by
  induction needle generalizing s with
  | nil => rfl
  | cons d needle ih =>
      rw [mem_cons, not_or] at hsep
      cases s with
      | nil =>
          show (d == sep && needle.isPrefixOf rest) = false
          rw [beq_eq_false_iff_ne.mpr (Ne.symm hsep.left), Bool.false_and]
      | cons c s =>
          show (d == c && needle.isPrefixOf (s ++ sep :: rest)) = (d == c && needle.isPrefixOf s)
          rw [ih hsep.right]

theorem findText_cons (needle : List Char) (c : Char) (s : List Char) :
    findText needle (c :: s) =
      if needle.isPrefixOf (c :: s) then some 0 else (findText needle s).map (· + 1) :=
  rfl

theorem findText_append_sep {needle : List Char} {sep : Char} (hsep : sep ∉ needle)
    (hne : needle ≠ []) (s rest : List Char) :
    findText needle (s ++ sep :: rest) =
      (findText needle s).or ((findText needle rest).map (· + (s.length + 1))) := by
  induction s with
  | nil =>
      have hnot := isPrefixOf_append_sep hsep [] rest
      have hnil : needle.isPrefixOf [] = false ∧ findText needle [] = none := by
        cases needle with
        | nil => exact absurd rfl hne
        | cons d needle => exact ⟨rfl, rfl⟩
      rw [nil_append] at hnot ⊢
      rw [findText_cons, hnot, hnil.left, hnil.right]
      rfl
  | cons c s ih =>
      rw [cons_append, findText_cons, ← cons_append, isPrefixOf_append_sep hsep, ih,
        findText_cons]
      split
      · rfl
      · cases findText needle s with
        | some i => rfl
        | none => cases findText needle rest <;> rfl

def following : Option (List Char) -> List Char
  | none => []
  | some url => streamUrlKey ++ url ++ attributeEnd

theorem follows_following (url : Option (List Char)) : Follows (following url) := by
  cases url with
  | none => exact .inl rfl
  | some url => exact .inr ⟨rfl, rfl⟩

def urlNeedle : List Char := "streamurl='".toList

/-- Where a title with its last quote has the name of a URL in it, if it has. -/
def urlInTitle (title : List Char) : Option Nat :=
  findText urlNeedle ((title ++ ['\'']).map Char.toLower)

def behindUrl (title : List Char) (i : Nat) : List Char :=
  (title ++ ['\'']).drop (i + 11)

theorem findText_skip {c : Char} {needle front : List Char} (h : c ∉ front) (s : List Char) :
    findText (c :: needle) (front ++ s) = (findText (c :: needle) s).map (· + front.length) := by
  induction front with
  | nil => cases hs : findText (c :: needle) s <;> simp [hs]
  | cons d front ih =>
      rw [mem_cons, not_or] at h
      have hnot : (c :: needle).isPrefixOf (d :: (front ++ s)) = false := by
        show (c == d && needle.isPrefixOf (front ++ s)) = false
        rw [beq_eq_false_iff_ne.mpr h.left, Bool.false_and]
      rw [cons_append, findText_cons, hnot, ih h.right]
      cases findText (c :: needle) s <;> rfl

theorem findText_behind_title (s : List Char) :
    findText urlNeedle (streamTitleKey.map Char.toLower ++ s) =
      (findText urlNeedle s).map (· + 13) := by
  have hkey : streamTitleKey.map Char.toLower = 's' :: "treamtitle='".toList := by decide
  have hneedle : urlNeedle = 's' :: "treamurl='".toList := by decide
  have hnot : urlNeedle.isPrefixOf ('s' :: ("treamtitle='".toList ++ s)) = false := rfl
  rw [hkey, cons_append, findText_cons, hnot, hneedle, findText_skip (by decide)]
  cases findText ('s' :: "treamurl='".toList) s <;> rfl

theorem extractAttr_url (title : List Char) (url : Option (List Char)) :
    extractAttr (attributes title url) "streamurl".toList =
      match urlInTitle title with
      | some i => some (readValue (behindUrl title i ++ ';' :: following url))
      | none => url.map (fun u => readValue (u ++ attributeEnd)) := by
  have hneedle : "streamurl".toList ++ "='".toList = urlNeedle := by decide
  have htext : attributes title url =
      streamTitleKey ++ ((title ++ ['\'']) ++ ';' :: following url) := by
    unfold attributes following
    cases url <;> simp [attributeEnd]
  have hlower : (attributes title url).map Char.toLower =
      streamTitleKey.map Char.toLower ++
        ((title ++ ['\'']).map Char.toLower ++ ';' :: (following url).map Char.toLower) := by
    rw [htext, map_append, map_append]
    rfl
  rw [extractAttr_eq, hneedle, hlower, findText_behind_title,
    findText_append_sep (by decide) (by decide)]
  have hurl : findText urlNeedle ((following url).map Char.toLower) = url.map (fun _ => 0) := by
    cases url with
    | none => rfl
    | some u =>
        show findText urlNeedle ((streamUrlKey ++ u ++ attributeEnd).map Char.toLower) = _
        rw [append_assoc, map_append]
        have hkey : streamUrlKey.map Char.toLower = urlNeedle := by decide
        rw [hkey, findText_append]
        rfl
  rw [hurl]
  cases hin : urlInTitle title with
  | some i =>
      unfold urlInTitle at hin
      rw [hin]
      simp only [some_or, map_some]
      rcases findText_spec hin with ⟨front, back, hsplit, hfront⟩
      have hlength := congrArg List.length hsplit
      have hbody : (attributes title url).drop (i + 13 + urlNeedle.length) =
          behindUrl title i ++ ';' :: following url := by
        have h11 : urlNeedle.length = 11 := by decide
        have h13 : streamTitleKey.length = 13 := by decide
        simp only [length_map, length_append, h11, hfront] at hlength
        rw [htext, h11, show i + 13 + 11 = streamTitleKey.length + (i + 11) by omega,
          ← drop_drop, drop_left, drop_append_of_le_length]
        · rfl
        · rw [length_append]
          omega
      rw [hbody]
  | none =>
      unfold urlInTitle at hin
      rw [hin]
      cases url with
      | none => rfl
      | some u =>
          simp only [none_or, map_some, Nat.zero_add]
          have hbody : (attributes title (some u)).drop
              (((title ++ ['\'']).map Char.toLower).length + 1 + 13 + urlNeedle.length) =
              u ++ attributeEnd := by
            have hall : attributes title (some u) =
                (streamTitleKey ++ title ++ attributeEnd ++ streamUrlKey) ++
                  (u ++ attributeEnd) := by
              unfold attributes
              simp only [append_assoc]
            rw [hall]
            apply drop_left'
            have h11 : urlNeedle.length = 11 := by decide
            have h13 : streamTitleKey.length = 13 := by decide
            have h11' : streamUrlKey.length = 11 := by decide
            have h2 : attributeEnd.length = 2 := by decide
            simp only [length_append, length_map, h11, h13, h11', h2, length_singleton]
            omega
          rw [hbody]

/-!
## Blocks that are read back
-/

/-- The end of a plain value is plain, if no backslash stands before it. -/
theorem Plain.suffix {front : List Char} (h : Plain (front ++ value) rest)
    (hfront : front.getLast? ≠ some '\\') : Plain value rest := by
  have hbody : front ++ value ++ attributeEnd ++ rest =
      front ++ (value ++ attributeEnd ++ rest) := by
    simp only [append_assoc]
  refine ⟨?_, ?_, ?_⟩
  · have hall := h.unescaped
    clear h hfront hbody
    induction front with
    | nil => exact hall
    | cons c front ih => exact ih (unescapeQuotes_tail hall)
  · intro hlast
    refine h.open_ ?_
    rw [getLast?_append, hlast]
    rfl
  · intro i hi hat
    have hinside := h.inside (front.length + i) (by rw [length_append]; omega)
    rw [hbody] at hinside
    have hends : endsValue (front ++ (value ++ attributeEnd ++ rest)) (front.length + i) =
        endsValue (value ++ attributeEnd ++ rest) i := by
      unfold endsValue
      rw [Nat.add_assoc, ← drop_drop, drop_left]
    rw [hends] at hinside
    refine hinside ?_
    unfold isTerminator at hat ⊢
    rw [getElem?_append_right (Nat.le_add_right _ _), Nat.add_assoc,
      getElem?_append_right (Nat.le_add_right _ _), Nat.add_sub_cancel_left,
      Nat.add_sub_cancel_left]
    rw [Bool.and_eq_true] at hat ⊢
    refine ⟨hat.left, ?_⟩
    cases i with
    | zero =>
        rw [Nat.add_zero, Bool.or_eq_true]
        cases front with
        | nil => exact .inl rfl
        | cons c front =>
            refine .inr ?_
            rw [getElem?_append_left (by simp), ← getLast?_eq_getElem?]
            exact bne_iff_ne.mpr hfront
    | succ i =>
        rw [show front.length + (i + 1) - 1 = front.length + i by omega,
          getElem?_append_right (Nat.le_add_right _ _), Nat.add_sub_cancel_left]
        exact Bool.or_eq_true _ _ |>.mpr (.inr (by simpa using hat.right))

def lone : List Char := ";StreamUrl=".toList

theorem not_isTerminator_lone {k : Nat} (hk : k < 11) (more : List Char) :
    isTerminator (lone ++ more) k = false := by
  unfold isTerminator
  rw [getElem?_append_left (show k < lone.length from hk)]
  have hquote : forall k : Fin 11, (lone[k.val]? == some '\'') = false := by decide
  rw [hquote ⟨k, hk⟩, Bool.false_and, Bool.false_and]

theorem plain_lone (rest : List Char) : Plain lone rest where
  unescaped := by decide
  open_ := by decide
  inside := by
    intro i hi hat
    rw [append_assoc, not_isTerminator_lone hi] at hat
    cases hat

theorem unescapeQuotes_append {front : List Char} (h : '\\' ∉ front) (s : List Char) :
    unescapeQuotes (front ++ s) = front ++ unescapeQuotes s := by
  induction front with
  | nil => rfl
  | cons c front ih =>
      rw [mem_cons, not_or] at h
      have hstep := unescapeQuotes.eq_2 c (front ++ s) (fun _ hc _ => h.left hc.symm)
      rw [cons_append, hstep, ih h.right, cons_append]

theorem unescapeQuotes_lone (more : List Char) :
    unescapeQuotes (lone ++ '\'' :: more) = lone ++ '\'' :: unescapeQuotes more := by
  have happend := @unescapeQuotes_append (lone ++ ['\'']) (by decide) more
  rw [append_assoc, append_assoc] at happend
  exact happend

theorem readValue_lone (u : List Char) :
    readValue (lone ++ '\'' :: (u ++ attributeEnd)) = u <-> u = lone := by
  constructor
  · intro h
    by_contra hne
    have hlong : exists more, u = lone ++ '\'' :: more := by
      rcases readValue_cases (lone ++ '\'' :: (u ++ attributeEnd)) with ⟨k, hk, hread⟩ | hread
      · rcases Nat.lt_trichotomy k 11 with hlt | rfl | hgt
        · rw [not_isTerminator_lone hlt] at hk
          cases hk
        · rw [h] at hread
          exact absurd hread hne
        · rw [h, take_append, take_of_length_le (Nat.le_of_lt hgt),
            show k - lone.length = k - 12 + 1 by show k - 11 = _; omega, take_succ_cons,
            unescapeQuotes_lone] at hread
          exact ⟨_, hread⟩
      · rw [h, unescapeQuotes_lone] at hread
        exact ⟨_, hread⟩
    rcases hlong with ⟨more, rfl⟩
    have hbody : lone ++ '\'' :: ((lone ++ '\'' :: more) ++ attributeEnd) =
        lone ++ attributeEnd ++ (streamUrlKey ++ (more ++ attributeEnd)) := by
      simp only [append_assoc]
      rfl
    rw [hbody, (readValue_eq_iff (.inr ⟨rfl, rfl⟩)).mpr (plain_lone _)] at h
    exact hne h.symm
  · rintro rfl
    decide

/-- A title has the name of a URL in it, and what stands behind it reads as the right URL. -/
def ByChance (behind : List Char) : Option (List Char) -> Prop
  | none => behind = ['\'']
  | some u => behind = u ++ ['\''] ∨ behind = [] ∧ u = lone

/-- What is read back: the title is plain, and the name of a URL stands in it nowhere, or
where what follows is the URL by chance. -/
structure ReadsBack (title : List Char) (url : Option (List Char)) : Prop where
  plain : Plain title (following url)
  apart : urlInTitle title = none -> forall u, url = some u -> Plain u []
  inside : forall i, urlInTitle title = some i -> ByChance (behindUrl title i) url

theorem parseStreamTitle_encode {title : List Char} {url : Option (List Char)}
    (hfits : (utf8 (attributes title url)).length <= maxPayload) :
    parseStreamTitle (encodeStreamTitle title url).tail = .ok
      { title := readValue (title ++ attributeEnd ++ following url)
        url := (extractAttr (attributes title url) "streamurl".toList).filter
          (fun u => !u.isEmpty) } := by
  have hattributes : attributes title url = streamTitleKey ++
      (title ++ attributeEnd ++ following url) := by
    unfold attributes following
    cases url <;> simp only [append_assoc]
  have hlast : exists front, utf8 (attributes title url) = front ++ [0x3B] := by
    have hend : exists front, attributes title url = front ++ [';'] := by
      cases url with
      | none =>
          exact ⟨streamTitleKey ++ title ++ ['\''], by unfold attributes; simp [attributeEnd]⟩
      | some u =>
          exact ⟨streamTitleKey ++ title ++ attributeEnd ++ streamUrlKey ++ u ++ ['\''], by
            unfold attributes
            simp [attributeEnd]⟩
    rcases hend with ⟨front, hfront⟩
    exact ⟨utf8 front, by rw [hfront, utf8_append]; rfl⟩
  have htext : fromUtf8Lossy ((encodeStreamTitle title url).tail.rdropWhile (fun b => b == 0)) =
      attributes title url := by
    unfold encodeStreamTitle payloadOf
    simp only [if_neg (Nat.not_lt.mpr hfits), tail_cons]
    rcases hlast with ⟨front, hfront⟩
    rw [rdropWhile_append_replicate _ _ rfl, hfront,
      rdropWhile_concat_neg _ _ _ (by decide), ← hfront, fromUtf8Lossy_utf8]
  have htitle : extractAttr (attributes title url) "streamtitle".toList =
      some (readValue (title ++ attributeEnd ++ following url)) := by
    have hkey : streamTitleKey.map Char.toLower = "streamtitle".toList ++ "='".toList := by decide
    have h13 : 0 + ("streamtitle".toList ++ "='".toList).length = streamTitleKey.length := by decide
    rw [extractAttr_eq, hattributes, map_append, hkey, findText_append, map_some, h13, drop_left]
  unfold parseStreamTitle
  simp only [htext, htitle]

theorem filter_some_eq_iff {value : List Char} {u : List Char} (hu : u ≠ []) :
    (some value).filter (fun u => !u.isEmpty) = some u <-> value = u := by
  cases value with
  | nil => exact ⟨nofun, fun h => absurd h.symm hu⟩
  | cons c value => exact some_inj

/-- A title and a URL are read back as they were written exactly where the title says nothing
that is read as an attribute or the end of one. -/
theorem reads_back_iff {title : List Char} {url : Option (List Char)}
    (hfits : (utf8 (attributes title url)).length <= maxPayload) (hurl : url ≠ some []) :
    parseStreamTitle (encodeStreamTitle title url).tail = .ok ⟨title, url⟩ <->
      ReadsBack title url := by
  rw [parseStreamTitle_encode hfits, extractAttr_url, Except.ok.injEq, StreamTitle.mk.injEq,
    readValue_eq_iff (follows_following url)]
  have hsplit : ReadsBack title url <-> Plain title (following url) ∧
      (urlInTitle title = none -> forall u, url = some u -> Plain u []) ∧
      forall i, urlInTitle title = some i -> ByChance (behindUrl title i) url :=
    ⟨fun h => ⟨h.plain, h.apart, h.inside⟩, fun h => ⟨h.left, h.right.left, h.right.right⟩⟩
  rw [hsplit]
  refine and_congr_right fun hplain => ?_
  cases hin : urlInTitle title with
  | none =>
      cases url with
      | none => simp
      | some u =>
          have hvalue := @readValue_eq_iff u [] (.inl rfl)
          rw [append_nil] at hvalue
          simp only [map_some]
          rw [filter_some_eq_iff (fun h => hurl (by rw [h])), hvalue]
          simp
  | some i =>
      rcases findText_spec hin with ⟨front, back, hfound, hfront⟩
      have hpre : exists pre, title ++ ['\''] = pre ++ behindUrl title i ∧
          pre.getLast? ≠ some '\\' := by
        refine ⟨(title ++ ['\'']).take (i + 11), (take_append_drop _ _).symm, ?_⟩
        intro hlast
        have hlower : ((title ++ ['\'']).take (i + 11)).map Char.toLower = front ++ urlNeedle := by
          rw [map_take, hfound, take_left']
          rw [length_append, hfront]
          rfl
        have hquote := congrArg List.getLast? hlower
        rw [getLast?_map, hlast, getLast?_append,
          show urlNeedle.getLast? = some '\'' by decide, some_or] at hquote
        exact absurd hquote (by decide)
      rcases hpre with ⟨pre, htitle, hpre⟩
      simp only [reduceCtorEq, false_implies, true_and, Option.some.injEq, forall_eq']
      rcases eq_nil_or_concat (behindUrl title i) with hnil | ⟨value, c, hconcat⟩
      · rw [hnil]
        cases url with
        | none =>
            show (some (readValue [';'])).filter (fun u => !u.isEmpty) = none <-> [] = ['\'']
            decide
        | some u =>
            have hbody : [] ++ ';' :: following (some u) = lone ++ '\'' :: (u ++ attributeEnd) := by
              show ';' :: (streamUrlKey ++ u ++ attributeEnd) = _
              rw [append_assoc]
              rfl
            rw [hbody, filter_some_eq_iff (fun h => hurl (by rw [h])), readValue_lone]
            simp [ByChance]
      · -- the value is the end of the title, and as plain
        rw [concat_eq_append] at hconcat
        rw [hconcat, ← append_assoc] at htitle
        rcases append_inj' htitle rfl with ⟨htail, hc⟩
        have hc' : c = '\'' := (List.cons.inj hc).left.symm
        rw [htail] at hplain
        have hvalue := (readValue_eq_iff (follows_following url)).mpr (hplain.suffix hpre)
        have hbody : behindUrl title i ++ ';' :: following url =
            value ++ attributeEnd ++ following url := by
          rw [hconcat, hc', append_assoc, append_assoc]
          rfl
        rw [hbody, hvalue, hconcat, hc']
        cases url with
        | none => cases value <;> simp [ByChance]
        | some u =>
            rw [filter_some_eq_iff (fun h => hurl (by rw [h]))]
            simp [ByChance]

theorem reads_back_lagomorphs :
    parseStreamTitle (encodeStreamTitle "Warren".toList (some "http".toList)).tail =
        .ok ⟨"Warren".toList, some "http".toList⟩ <->
      ReadsBack "Warren".toList (some "http".toList) :=
  reads_back_iff (by decide) (by decide)

/-- A title sets a URL that the station did not. -/
theorem title_sets_url :
    parseStreamTitle (encodeStreamTitle "a';StreamUrl='evil".toList none).tail =
      .ok ⟨"a".toList, some "evil".toList⟩ := by
  decide

end Rabbithole.Icecast
