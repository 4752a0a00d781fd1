import Rabbithole.Link.Canonical

/-!
# Where links are cut

The parser finds places among the bytes of a link and cuts the text there, which ends the
program where it is inside a character.  It is only the two characters behind a percent
sign that can be cut so.
-/

namespace Rabbithole.Link

open Foundation List Option

/-!
## The source's slices

Of each slice the outer option is `none` where the program ends.
-/

def toAsciiLowercase (b : UInt8) : UInt8 :=
  if 65 <= b && b <= 90 then b + 32 else b

def stripRnsSchemeSliced (s : List Char) : Option (Option Bytes) :=
  if 4 <= (utf8 s).length ∧ ((utf8 s).take 4).map toAsciiLowercase = [114, 110, 115, 58] then
    (slice s 4 (utf8 s).length).map some
  else some none

/-- The authority, and what is behind the first slash. -/
def splitSlashSliced (rest : List Char) : Option (Option (Bytes × Bytes)) :=
  match (utf8 rest).idxOf? 47 with
  | none => some none
  | some i =>
      match slice rest 0 i, slice rest (i + 1) (utf8 rest).length with
      | some authority, some pathq => some (some (authority, pathq))
      | _, _ => none

def escapeValue : Bytes -> Option UInt8
  | [x, y] => fromStrRadix16 x y
  | _ => none

/-- What is decoded from place `i` on. -/
def pctBytesSliced (s : List Char) : Nat -> Nat -> Option Bytes
  | 0, _ => some []
  | fuel + 1, i =>
      match (utf8 s)[i]? with
      | none => some []
      | some b =>
          if b = 37 ∧ i + 2 < (utf8 s).length then
            match slice s (i + 1) (i + 3) with
            | none => none
            | some digits =>
                match escapeValue digits with
                | some v => (pctBytesSliced s fuel (i + 3)).map (fun out => v :: out)
                | none => (pctBytesSliced s fuel (i + 1)).map (fun out => b :: out)
          else (pctBytesSliced s fuel (i + 1)).map (fun out => b :: out)

def pctDecodeSliced (s : List Char) : Option (List Char) :=
  (pctBytesSliced s (utf8 s).length 0).map fromUtf8Lossy

/-!
## The scheme of destination hashes
-/

variable {s : List Char} {c : Char} {b : UInt8} {bytes : Bytes}

theorem asciiByte_inj {d : Char} (hc : c.val.toNat <= 127) (hd : d.val.toNat <= 127)
    (h : asciiByte c = asciiByte d) : c = d := by
  have hnat := congrArg UInt8.toNat h
  rw [toNat_asciiByte hc, toNat_asciiByte hd] at hnat
  exact Char.ext (UInt32.toNat.inj hnat)

theorem ascii_head (hb : b.toNat < 128) (h : utf8 s = b :: bytes) :
    exists c rest, s = c :: rest ∧ c.val.toNat <= 127 ∧ asciiByte c = b ∧ utf8 rest = bytes := by
  have hvalid : b.toNat.isValidChar := Or.inl (by omega)
  have hnat : (Char.ofNat b.toNat).val.toNat = b.toNat := by
    rw [Char.ofNat, dif_pos hvalid]
    rfl
  have hascii : (Char.ofNat b.toNat).val.toNat <= 127 := by omega
  have hbyte : asciiByte (Char.ofNat b.toNat) = b := by
    apply UInt8.toNat.inj
    rw [toNat_asciiByte hascii, hnat]
  rw [← hbyte] at h
  rcases @eq_append_of_utf8 _ hascii _ [] _ h with ⟨before, behind, hs, hfront, hback⟩
  cases before with
  | nil => exact ⟨_, behind, hs, hascii, hbyte, hback⟩
  | cons c before =>
      rcases utf8EncodeChar_continues c with ⟨first, rest, heq, -⟩
      have hbytes : String.utf8EncodeChar c ++ utf8 before = [] := hfront
      rw [heq] at hbytes
      cases hbytes

theorem toLower_ascii (h : c.val.toNat <= 127) :
    c.toLower.val.toNat <= 127 ∧ toAsciiLowercase (asciiByte c) = asciiByte c.toLower := by
  have hall : forall n : Fin 128, (Char.ofNat n).toLower.val.toNat <= 127 ∧
      toAsciiLowercase (asciiByte (Char.ofNat n)) = asciiByte (Char.ofNat n).toLower := by
    decide
  have hc := hall ⟨c.toNat, Nat.lt_succ_of_le h⟩
  rw [Char.ofNat_toNat] at hc
  exact hc

theorem ascii_of_toLower (h : c.toLower.val.toNat <= 127) : c.val.toNat <= 127 := by
  unfold Char.toLower at h
  split at h
  · rename_i hupper
    have hle := hupper.right
    rw [UInt32.le_iff_toNat_le] at hle
    exact Nat.le_trans hle (by decide)
  · exact h

set_option maxRecDepth 8000 in
theorem toAsciiLowercase_ascii (h : (toAsciiLowercase b).toNat < 128) : b.toNat < 128 := by
  have hall : forall n : Fin 256, (toAsciiLowercase (UInt8.ofNat n)).toNat < 128 ->
      (UInt8.ofNat n).toNat < 128 := by
    decide
  have hb := hall ⟨b.toNat, b.toNat_lt⟩
  rw [UInt8.ofNat_toNat] at hb
  exact hb h

theorem scheme_head {d : Char} (hd : d.val.toNat <= 127) (h : utf8 s = b :: bytes)
    (hb : toAsciiLowercase b = asciiByte d) :
    exists c rest, s = c :: rest ∧ c.val.toNat <= 127 ∧ c.toLower = d ∧ utf8 rest = bytes := by
  have hbyte : b.toNat < 128 := by
    apply toAsciiLowercase_ascii
    rw [hb, toNat_asciiByte hd]
    omega
  rcases ascii_head hbyte h with ⟨c, rest, hs, hc, hcb, hrest⟩
  rcases toLower_ascii hc with ⟨hlower, heq⟩
  refine ⟨c, rest, hs, hc, asciiByte_inj hlower hd ?_, hrest⟩
  rw [← heq, hcb, hb]

theorem utf8_cons_ascii (h : c.val.toNat <= 127) (s : List Char) :
    utf8 (c :: s) = asciiByte c :: utf8 s := by
  show String.utf8EncodeChar c ++ utf8 s = _
  rw [utf8EncodeChar_ascii h]
  rfl

theorem toLower_colon (hc : c.val.toNat <= 127) : c.toLower = ':' <-> c = ':' := by
  have hall : forall n : Fin 128, (Char.ofNat n).toLower = ':' <-> Char.ofNat n = ':' := by
    decide
  have hcolon := hall ⟨c.toNat, Nat.lt_succ_of_le hc⟩
  rw [Char.ofNat_toNat] at hcolon
  exact hcolon

theorem rns_bytes_iff :
    (4 <= (utf8 s).length ∧ ((utf8 s).take 4).map toAsciiLowercase = [114, 110, 115, 58]) <->
      exists r n s' rest, s = r :: n :: s' :: ':' :: rest ∧ r.toLower = 'r' ∧ n.toLower = 'n' ∧
        s'.toLower = 's' := by
  constructor
  · rintro ⟨hlength, hscheme⟩
    rcases hbytes : utf8 s with _ | ⟨first, _ | ⟨second, _ | ⟨third, _ | ⟨fourth, bytes⟩⟩⟩⟩
    · rw [hbytes] at hlength
      exact absurd hlength (by decide)
    · rw [hbytes] at hlength
      exact absurd hlength (by simp)
    · rw [hbytes] at hlength
      exact absurd hlength (by simp)
    · rw [hbytes] at hlength
      exact absurd hlength (by simp)
    · rw [hbytes] at hscheme
      simp only [take_succ_cons, take_zero, map_cons, map_nil] at hscheme
      injection hscheme with hr hscheme
      injection hscheme with hn hscheme
      injection hscheme with hs hscheme
      injection hscheme with hcolon _
      rcases scheme_head (d := 'r') (by decide) hbytes hr with ⟨r, more, rfl, -, hr, hbytes⟩
      rcases scheme_head (d := 'n') (by decide) hbytes hn with ⟨n, more, rfl, -, hn, hbytes⟩
      rcases scheme_head (d := 's') (by decide) hbytes hs with ⟨s', more, rfl, -, hs, hbytes⟩
      rcases scheme_head (d := ':') (by decide) hbytes hcolon with
        ⟨colon, rest, rfl, hascii, hcolon, -⟩
      rw [(toLower_colon hascii).mp hcolon]
      exact ⟨r, n, s', rest, rfl, hr, hn, hs⟩
  · rintro ⟨r, n, s', rest, rfl, hr, hn, hs⟩
    have hrascii : r.val.toNat <= 127 := ascii_of_toLower (by rw [hr]; decide)
    have hnascii : n.val.toNat <= 127 := ascii_of_toLower (by rw [hn]; decide)
    have hsascii : s'.val.toNat <= 127 := ascii_of_toLower (by rw [hs]; decide)
    rw [utf8_cons_ascii hrascii, utf8_cons_ascii hnascii, utf8_cons_ascii hsascii,
      utf8_cons_ascii (by decide)]
    constructor
    · simp only [length_cons]
      omega
    · simp only [take_succ_cons, take_zero, map_cons, map_nil,
        (toLower_ascii hrascii).right, (toLower_ascii hnascii).right, (toLower_ascii hsascii).right,
        hr, hn, hs]
      decide

theorem stripRnsScheme_eq_some {rest : List Char} :
    stripRnsScheme s = some rest <->
      exists r n s', s = r :: n :: s' :: ':' :: rest ∧ r.toLower = 'r' ∧ n.toLower = 'n' ∧
        s'.toLower = 's' := by
  constructor
  · intro h
    unfold stripRnsScheme at h
    split at h
    · rename_i r n s' colon rest'
      split at h
      · rename_i hscheme
        rcases hscheme with ⟨hr, hn, hs, rfl⟩
        cases h
        exact ⟨r, n, s', rfl, hr, hn, hs⟩
      · cases h
    · cases h
  · rintro ⟨r, n, s', rfl, hr, hn, hs⟩
    rw [stripRnsScheme_cons, if_pos ⟨hr, hn, hs, rfl⟩]

theorem stripRnsSchemeSliced_eq (s : List Char) :
    stripRnsSchemeSliced s = some ((stripRnsScheme s).map utf8) := by
  unfold stripRnsSchemeSliced
  split
  · rename_i hscheme
    rcases rns_bytes_iff.mp hscheme with ⟨r, n, s', rest, rfl, hr, hn, hs⟩
    have hrascii : r.val.toNat <= 127 := ascii_of_toLower (by rw [hr]; decide)
    have hnascii : n.val.toNat <= 127 := ascii_of_toLower (by rw [hn]; decide)
    have hsascii : s'.val.toNat <= 127 := ascii_of_toLower (by rw [hs]; decide)
    have hfront : (utf8 [r, n, s', ':']).length = 4 := by
      rw [utf8_cons_ascii hrascii, utf8_cons_ascii hnascii, utf8_cons_ascii hsascii]
      rfl
    have hslice := slice_append [r, n, s', ':'] rest []
    rw [hfront, append_nil] at hslice
    replace hslice : slice (r :: n :: s' :: ':' :: rest) 4
      (utf8 (r :: n :: s' :: ':' :: rest)).length = some (utf8 rest) := hslice
    rw [hslice, stripRnsScheme_eq_some.mpr ⟨r, n, s', rfl, hr, hn, hs⟩]
    rfl
  · rename_i hscheme
    cases hstrip : stripRnsScheme s with
    | none => rfl
    | some rest =>
        rcases stripRnsScheme_eq_some.mp hstrip with ⟨r, n, s', hs, hletters⟩
        exact absurd (rns_bytes_iff.mpr ⟨r, n, s', rest, hs, hletters⟩) hscheme

/-!
## The slash behind the authority
-/

theorem byte_not_mem_utf8 {sep : Char} (hsep : sep.val.toNat <= 127) (h : sep ∉ s) :
    asciiByte sep ∉ utf8 s := by
  intro hmem
  rcases mem_flatMap.mp hmem with ⟨c, hc, hbyte⟩
  refine not_mem_utf8EncodeChar hsep ?_ hbyte
  rintro rfl
  exact h hc

theorem splitSlashSliced_eq (rest : List Char) :
    splitSlashSliced rest =
      some ((splitOnce '/' rest).map (fun parts => (utf8 parts.fst, utf8 parts.snd))) := by
  have hslash : ('/' : Char).val.toNat <= 127 := by decide
  unfold splitSlashSliced
  by_cases hmem : '/' ∈ rest
  · rcases eq_append_cons_of_mem hmem with ⟨front, back, rfl, hfront⟩
    have hbytes : utf8 (front ++ '/' :: back) = utf8 front ++ 47 :: utf8 back := by
      rw [utf8_append, utf8_cons_ascii hslash]
      rfl
    have hplace : (utf8 (front ++ '/' :: back)).idxOf? 47 = some (utf8 front).length := by
      rw [hbytes, idxOf?_eq_some_iff]
      refine ⟨by rw [length_append, length_cons]; omega, ?_, ?_⟩
      · rw [getElem_append_right (Nat.le_refl _)]
        simp
      · intro j hj hsame
        rw [getElem_append_left hj] at hsame
        apply byte_not_mem_utf8 hslash hfront
        show (47 : UInt8) ∈ utf8 front
        rw [← hsame]
        exact getElem_mem hj
    have hauthority : slice (front ++ '/' :: back) 0 (utf8 front).length = some (utf8 front) :=
      slice_append [] front ('/' :: back)
    have hpathq : slice (front ++ '/' :: back) ((utf8 front).length + 1)
        (utf8 (front ++ '/' :: back)).length = some (utf8 back) := by
      have hslice := slice_append (front ++ ['/']) back []
      rw [append_nil, utf8_append front ['/'], length_append, append_assoc,
        singleton_append] at hslice
      exact hslice
    rw [hplace, splitOnce_append back hfront]
    dsimp only
    rw [hauthority, hpathq]
    rfl
  · have hplace : (utf8 rest).idxOf? 47 = none :=
      idxOf?_eq_none_iff.mpr (byte_not_mem_utf8 hslash hmem)
    rw [hplace, splitOnce_eq_none.mpr hmem]
    rfl

/-!
## Escapes
-/

/-- Behind a percent sign a character begins, but two bytes further it may be inside one. -/
theorem slice_percent {i : Nat} {x y : UInt8} {rest : Bytes}
    (h : (utf8 s).drop i = 37 :: x :: y :: rest) :
    slice s (i + 1) (i + 3) =
      if rest.head?.any isContinuation then none else some [x, y] := by
  have hpercent : ('%' : Char).val.toNat <= 127 := by decide
  have hlength : i + (rest.length + 3) = (utf8 s).length := by
    have hdrop := congrArg List.length h
    rw [length_drop] at hdrop
    simp only [length_cons] at hdrop
    omega
  have hstart : isCharBoundary s (i + 1) = true := by
    have hbytes : utf8 s = (utf8 s).take i ++ asciiByte '%' :: x :: y :: rest := by
      show utf8 s = (utf8 s).take i ++ 37 :: x :: y :: rest
      rw [← h, take_append_drop]
    rcases eq_append_of_utf8 hpercent hbytes with ⟨before, behind, hs, hbefore, -⟩
    have hplace : (utf8 (before ++ ['%'])).length = i + 1 := by
      rw [utf8_append, length_append, hbefore, length_take_of_le (by omega)]
      rfl
    have hboundary := isCharBoundary_append (before ++ ['%']) behind
    rw [hplace, append_assoc, singleton_append, ← hs] at hboundary
    exact hboundary
  have hbyte : (utf8 s)[i + 3]? = rest.head? := by
    rw [← getElem?_drop, h, head?_eq_getElem?]
    rfl
  have hstop : isCharBoundary s (i + 3) = !rest.head?.any isContinuation := by
    unfold isCharBoundary
    rw [hbyte]
    cases rest with
    | nil =>
        have hend : i + 3 = (utf8 s).length := hlength
        simp [hend]
    | cons b rest =>
        have hinside : i + 3 ≠ (utf8 s).length := by
          rw [length_cons] at hlength
          omega
        simp [hinside]
  have hdigits : ((utf8 s).take (i + 3)).drop (i + 1) = [x, y] := by
    rw [drop_take, ← drop_drop, h, show i + 3 - (i + 1) = 2 by omega]
    rfl
  unfold slice
  rw [hstart, hstop, hdigits]
  cases rest.head?.any isContinuation with
  | true => exact if_neg (fun hslice => nomatch hslice.right.right)
  | false => exact if_pos ⟨by omega, rfl, rfl⟩

theorem drop_of_getElem? {i : Nat} (h : bytes[i]? = some b) :
    bytes.drop i = b :: bytes.drop (i + 1) := by
  rcases List.getElem?_eq_some_iff.mp h with ⟨hlt, hb⟩
  rw [List.drop_eq_getElem_cons hlt, hb]

theorem pctBytesSliced_eq (s : List Char) {fuel i : Nat} (h : (utf8 s).length <= i + fuel) :
    pctBytesSliced s fuel i = pctBytes ((utf8 s).drop i) := by
  induction fuel generalizing i with
  | zero =>
      rw [drop_eq_nil_of_le (show (utf8 s).length <= i from h), pctBytes]
      rfl
  | succ fuel ih =>
      unfold pctBytesSliced
      cases hb : (utf8 s)[i]? with
      | none =>
          rw [drop_eq_nil_of_le (getElem?_eq_none_iff.mp hb), pctBytes]
      | some b =>
          have hdrop := drop_of_getElem? hb
          have hnext := ih (i := i + 1) (by omega)
          dsimp only
          split
          · rename_i hescape
            rcases hescape with ⟨rfl, hroom⟩
            have hx : (utf8 s)[i + 1]? = some (utf8 s)[i + 1] := getElem?_eq_getElem _
            have hy : (utf8 s)[i + 2]? = some (utf8 s)[i + 2] := getElem?_eq_getElem hroom
            rw [drop_of_getElem? hx, drop_of_getElem? hy] at hdrop
            rw [drop_of_getElem? hx, drop_of_getElem? hy] at hnext
            rw [slice_percent hdrop, hdrop, pctBytes]
            by_cases hcut : ((utf8 s).drop (i + 2 + 1)).head?.any isContinuation = true
            · rw [if_pos hcut, if_pos hcut]
            · rw [if_neg hcut, if_neg hcut]
              dsimp only [escapeValue]
              cases fromStrRadix16 (utf8 s)[i + 1] (utf8 s)[i + 2] with
              | none =>
                  dsimp only
                  rw [hnext]
              | some v =>
                  dsimp only
                  rw [ih (by omega)]
          · rename_i hplain
            rw [hnext, hdrop]
            by_cases hpercent : b = 37
            · -- too few bytes are left for an escape
              have hshort : (utf8 s).length <= i + 2 := by
                rcases Nat.lt_or_ge (i + 2) (utf8 s).length with hlt | hle
                · exact absurd ⟨hpercent, hlt⟩ hplain
                · exact hle
              rw [pctBytes]
              intro x y rest _ hrest
              have hlength := congrArg List.length hrest
              rw [length_drop] at hlength
              simp only [length_cons] at hlength
              omega
            · exact (pctBytes_cons _ hpercent).symm

theorem pctDecodeSliced_eq (s : List Char) : pctDecodeSliced s = pctDecode s := by
  unfold pctDecodeSliced pctDecode
  rw [pctBytesSliced_eq s (Nat.le_of_eq (Nat.zero_add _).symm), drop_zero]

/-!
# Which links end the program

Every text is accepted or refused, but for the link to a file with a percent sign two bytes
before the inside of a character: the slice that should hold the digits of the escape cuts
that character.
-/

/-- A percent sign stands before two bytes that end inside a character. -/
def tornEscape : List Char -> Bool
  | [] => false
  | c :: rest => (c == '%' && (utf8 rest)[2]?.any isContinuation) || tornEscape rest

theorem pctBytes_plain {front : Bytes} (bytes : Bytes) (h : 37 ∉ front) :
    pctBytes (front ++ bytes) = none <-> pctBytes bytes = none := by
  induction front with
  | nil => exact Iff.rfl
  | cons b front ih =>
      rw [mem_cons, not_or] at h
      rw [cons_append, pctBytes_cons _ (Ne.symm h.left), map_eq_none_iff]
      exact ih h.right

theorem pctBytes_percent (bytes : Bytes) :
    pctBytes (37 :: bytes) = none <->
      bytes[2]?.any isContinuation = true ∨ pctBytes bytes = none := by
  have hshort : forall bytes : Bytes, (forall x y rest, bytes = x :: y :: rest -> False) ->
      pctBytes (37 :: bytes) = (pctBytes bytes).map (fun out => 37 :: out) := by
    intro bytes hbytes
    rw [pctBytes]
    intro x y rest _ hrest
    exact hbytes x y rest hrest
  rcases bytes with _ | ⟨x, _ | ⟨y, rest⟩⟩
  · rw [hshort [] (by simp), map_eq_none_iff]
    exact ⟨Or.inr, fun h => h.elim (by simp) id⟩
  · rw [hshort [x] (by simp), map_eq_none_iff]
    exact ⟨Or.inr, fun h => h.elim (by simp) id⟩
  · have hthird : (x :: y :: rest)[2]? = rest.head? := head?_eq_getElem?.symm
    rw [hthird, pctBytes]
    by_cases hcut : rest.head?.any isContinuation = true
    · rw [if_pos hcut]
      exact ⟨fun _ => Or.inl hcut, fun _ => rfl⟩
    · rw [if_neg hcut]
      have hrest : pctBytes (x :: y :: rest) = none ->
          (rest.head?.any isContinuation = true ∨ pctBytes (x :: y :: rest) = none) := Or.inr
      cases hvalue : fromStrRadix16 x y with
      | none =>
          rw [map_eq_none_iff]
          exact ⟨hrest, fun h => h.resolve_left hcut⟩
      | some v =>
          -- the digits are no percent signs
          rcases fromStrRadix16_not_separator hvalue with ⟨hx, -, hy, -⟩
          have hdigits : pctBytes (x :: y :: rest) = none <-> pctBytes rest = none :=
            @pctBytes_plain [x, y] rest (by simp [Ne.symm hx, Ne.symm hy])
          rw [map_eq_none_iff, ← hdigits]
          exact ⟨hrest, fun h => h.resolve_left hcut⟩

theorem pctDecode_eq_none_iff (s : List Char) : pctDecode s = none <-> tornEscape s = true := by
  unfold pctDecode
  rw [map_eq_none_iff]
  induction s with
  | nil => exact ⟨nofun, nofun⟩
  | cons c s ih =>
      unfold tornEscape
      rw [Bool.or_eq_true, Bool.and_eq_true, beq_iff_eq, ← ih]
      by_cases hc : c = '%'
      · rw [hc, utf8_cons_ascii (by decide)]
        show pctBytes (37 :: utf8 s) = none <-> _
        rw [pctBytes_percent]
        exact or_congr ⟨fun h => ⟨rfl, h⟩, And.right⟩ Iff.rfl
      · have hbytes : utf8 (c :: s) = String.utf8EncodeChar c ++ utf8 s := rfl
        have hplain : 37 ∉ String.utf8EncodeChar c :=
          @not_mem_utf8EncodeChar '%' (by decide) c hc
        rw [hbytes, pctBytes_plain _ hplain]
        exact ⟨Or.inr, fun h => h.resolve_left (fun hpercent => hc hpercent.left)⟩

/-!
## Links to files
-/

def queryText : Option (List Char) -> List Char
  | some query => '?' :: query
  | none => []

/-- The parts of a link to a file, as they are written. -/
structure FileText where
  authority : List Char
  area : List Char
  rel : List Char
  query : Option (List Char)

namespace FileText

def body (f : FileText) : List Char :=
  "files".toList ++ '/' :: (f.area ++ '/' :: f.rel)

def text (f : FileText) : List Char :=
  "rabbit://".toList ++ (f.authority ++ '/' :: (f.body ++ queryText f.query))

def segments (f : FileText) : List (List Char) :=
  (f.rel.splitOn '/').filter (fun seg => !seg.isEmpty)

/-- The path that is decoded: the segments which are not empty. -/
def path (f : FileText) : List Char :=
  ['/'].intercalate f.segments

/-- The parser comes to decode the area and the path. -/
structure Accepted (hex : Hex) (f : FileText) : Prop where
  authority : exists authority, parseAuthority f.authority = .ok authority
  authorityEnd : '/' ∉ f.authority
  area : f.area ≠ []
  areaEnd : '/' ∉ f.area
  question : '?' ∉ f.area ∧ '?' ∉ f.rel
  segments : f.segments ≠ []
  root : exists root, queryRoot hex (queryPairs f.query) = .ok root

def Torn (f : FileText) : Prop :=
  tornEscape f.area = true ∨ tornEscape f.path = true

end FileText

theorem splitQuery_query {body : List Char} (query : Option (List Char)) (h : '?' ∉ body) :
    splitQuery (body ++ queryText query) = (body, query) := by
  unfold splitQuery queryText
  cases query with
  | none =>
      dsimp only
      rw [append_nil, splitOnce_eq_none.mpr h]
  | some query =>
      dsimp only
      rw [splitOnce_append query h]

theorem eq_of_splitQuery {pathq body : List Char} {query : Option (List Char)}
    (h : splitQuery pathq = (body, query)) : '?' ∉ body ∧ pathq = body ++ queryText query := by
  unfold splitQuery at h
  cases hsplit : splitOnce '?' pathq with
  | none =>
      rw [hsplit] at h
      cases h
      exact ⟨splitOnce_eq_none.mp hsplit, (append_nil pathq).symm⟩
  | some parts =>
      rcases parts with ⟨front, back⟩
      rw [hsplit] at h
      cases h
      rcases eq_of_splitOnce hsplit with ⟨heq, hfront⟩
      exact ⟨hfront, heq⟩

namespace FileText

theorem splitOn_body {f : FileText} (h : '/' ∉ f.area) :
    f.body.splitOn '/' = "files".toList :: f.area :: f.rel.splitOn '/' := by
  have hkind : '/' ∉ "files".toList := by decide
  unfold body
  rw [splitOn_append_cons_self_of_not_mem hkind, splitOn_append_cons_self_of_not_mem h]

theorem question_not_mem_body {f : FileText} (h : '?' ∉ f.area ∧ '?' ∉ f.rel) : '?' ∉ f.body := by
  have hkind : '?' ∉ "files".toList := by decide
  unfold body
  simp only [mem_append, mem_cons, not_or]
  exact ⟨hkind, by decide, h.left, by decide, h.right⟩

end FileText

/-!
## Where the parser ends
-/

section

variable {hex : Hex}

theorem parseFile_panicked_iff {segs pairs : List (List Char)} :
    parseFile hex segs pairs = .error .panicked <->
      exists area more, segs = area :: more ∧ area ≠ [] ∧
        more.filter (fun seg => !seg.isEmpty) ≠ [] ∧
        (exists root, queryRoot hex pairs = .ok root) ∧
        (tornEscape area = true ∨
          tornEscape (['/'].intercalate (more.filter (fun seg => !seg.isEmpty))) = true) := by
  cases segs with
  | nil => exact ⟨nofun, nofun⟩
  | cons area more =>
      simp only [← pctDecode_eq_none_iff]
      constructor
      · intro h
        unfold parseFile at h
        dsimp only at h
        split at h
        · cases h
        · rename_i harea
          split at h
          · cases h
          · rename_i hmore
            refine ⟨area, more, rfl, fun hnil => harea (List.isEmpty_iff.mpr hnil),
              fun hnil => hmore (List.isEmpty_iff.mpr hnil), ?_⟩
            split at h
            · cases h
            · rename_i root hroot
              refine ⟨⟨root, hroot⟩, ?_⟩
              split at h
              · rename_i hdecoded
                exact Or.inl hdecoded
              · split at h
                · rename_i hdecoded
                  exact Or.inr hdecoded
                · cases h
      · rintro ⟨area', more', hsegs, harea, hmore, ⟨root, hroot⟩, htorn⟩
        cases hsegs
        have harea : area.isEmpty = false := by
          rw [← Bool.not_eq_true, List.isEmpty_iff]
          exact harea
        have hmore : (more.filter (fun seg => !seg.isEmpty)).isEmpty = false := by
          rw [← Bool.not_eq_true, List.isEmpty_iff]
          exact hmore
        unfold parseFile
        simp only [harea, hmore, hroot, Bool.false_eq_true, if_false]
        rcases htorn with hdecoded | hdecoded
        · rw [hdecoded]
        · cases pctDecode area with
          | none => rfl
          | some area =>
              dsimp only
              rw [hdecoded]

theorem parseTarget_panicked_iff {kind : List Char} {segs pairs : List (List Char)} :
    parseTarget hex kind segs pairs = .error .panicked <->
      kind = "files".toList ∧ parseFile hex segs pairs = .error .panicked := by
  unfold parseTarget
  split
  · rename_i hkind
    have hfiles : kind ≠ "files".toList := by
      rw [hkind]
      decide
    refine ⟨fun h => ?_, fun h => absurd h.left hfiles⟩
    split at h
    · cases h
    · cases h
  · split
    · rename_i hkind
      have hfiles : kind ≠ "files".toList := by
        rw [hkind]
        decide
      refine ⟨fun h => ?_, fun h => absurd h.left hfiles⟩
      split at h
      · cases h
      · cases h
    · split
      · rename_i hfiles
        exact ⟨fun h => ⟨hfiles, h⟩, And.right⟩
      · rename_i hfiles
        exact ⟨nofun, fun h => absurd h.left hfiles⟩

theorem parsePath_panicked_iff {authority : LinkAuthority} {pathq : List Char} :
    parsePath hex authority pathq = .error .panicked <->
      pathq ≠ [] ∧ parseTarget hex (((splitQuery pathq).fst.splitOn '/').headD [])
        ((splitQuery pathq).fst.splitOn '/').tail (queryPairs (splitQuery pathq).snd) =
          .error .panicked := by
  unfold parsePath
  cases pathq with
  | nil => exact ⟨nofun, fun h => absurd rfl h.left⟩
  | cons c pathq =>
      rw [isEmpty_cons, if_neg Bool.false_ne_true]
      dsimp only
      cases htarget : parseTarget hex (((splitQuery (c :: pathq)).fst.splitOn '/').headD [])
          ((splitQuery (c :: pathq)).fst.splitOn '/').tail
          (queryPairs (splitQuery (c :: pathq)).snd) with
      | error stop =>
          dsimp only
          constructor
          · intro h
            cases h
            exact ⟨cons_ne_nil c pathq, rfl⟩
          · rintro ⟨_, h⟩
            cases h
            rfl
      | ok target =>
          refine ⟨fun h => ?_, fun h => nomatch h.right⟩
          dsimp only at h
          split at h
          · cases h
          · cases h

theorem parse_panicked_iff {s : List Char} :
    parse hex s = .error .panicked <->
      exists front pathq authority, s = "rabbit://".toList ++ (front ++ '/' :: pathq) ∧
        '/' ∉ front ∧ parseAuthority front = .ok authority ∧
        parsePath hex authority pathq = .error .panicked := by
  constructor
  · intro h
    unfold parse at h
    split at h
    · cases h
    · rename_i rest hscheme
      split at h
      · cases h
      · rename_i front pathq hsplit
        split at h
        · cases h
        · rename_i authority hauthority
          rcases eq_of_splitOnce hsplit with ⟨hrest, hfront⟩
          refine ⟨front, pathq, authority, ?_, hfront, hauthority, h⟩
          rw [← hrest]
          exact (append_eq_of_isPrefixOf?_eq_some hscheme).symm
  · rintro ⟨front, pathq, authority, rfl, hfront, hauthority, h⟩
    unfold parse
    rw [isPrefixOf?_append]
    dsimp only
    rw [splitOnce_append _ hfront]
    dsimp only
    rw [hauthority]
    exact h

/-- The program ends at the links to a file whose area or path is torn. -/
theorem parse_panicked_iff_torn {s : List Char} :
    parse hex s = .error .panicked <->
      exists f : FileText, f.Accepted hex ∧ s = f.text ∧ f.Torn := by
  rw [parse_panicked_iff]
  constructor
  · rintro ⟨front, pathq, authority, rfl, hfront, hauthority, h⟩
    rcases parseTarget_panicked_iff.mp (parsePath_panicked_iff.mp h).right with ⟨hkind, hfile⟩
    rcases parseFile_panicked_iff.mp hfile with ⟨area, more, hsegs, harea, hmore, hroot, htorn⟩
    rcases @eq_of_splitQuery pathq (splitQuery pathq).fst (splitQuery pathq).snd rfl with ⟨hquestion, hpathq⟩
    generalize (splitQuery pathq).fst = body at *
    generalize (splitQuery pathq).snd = query at *
    have hparts : body.splitOn '/' = "files".toList :: area :: more := by
      cases hbody : body.splitOn '/' with
      | nil => exact absurd hbody (splitOn_ne_nil '/' body)
      | cons kind segs =>
          rw [hbody] at hkind hsegs
          rw [← hkind, ← hsegs]
          rfl
    have hslash : forall part, part ∈ body.splitOn '/' -> '/' ∉ part := fun part hpart =>
      not_mem_of_mem_splitOn hpart
    rw [hparts] at hslash
    have hnil : more ≠ [] := by
      rintro rfl
      exact hmore rfl
    have hrel : (['/'].intercalate more).splitOn '/' = more := by
      apply splitOn_intercalate '/' _ hnil
      intro part hpart
      exact hslash part (mem_cons_of_mem _ (mem_cons_of_mem _ hpart))
    have hbody : body = "files".toList ++ '/' :: (area ++ '/' :: ['/'].intercalate more) := by
      have hjoined : ['/'].intercalate (body.splitOn '/') = body := intercalate_splitOn '/'
      rw [← hjoined, hparts, intercalate_cons_of_ne_nil (cons_ne_nil area more),
        intercalate_cons_of_ne_nil hnil]
      simp
    let f : FileText := ⟨front, area, ['/'].intercalate more, query⟩
    have hsegments : f.segments = more.filter (fun seg => !seg.isEmpty) :=
      congrArg (fun parts => parts.filter (fun seg => !seg.isEmpty)) hrel
    refine ⟨f, ⟨⟨authority, hauthority⟩, hfront, harea, ?_, ?_, ?_, hroot⟩, ?_, ?_⟩
    · exact hslash area (mem_cons_of_mem _ mem_cons_self)
    · rw [hbody] at hquestion
      simp only [mem_append, mem_cons, not_or] at hquestion
      exact ⟨hquestion.right.right.left, hquestion.right.right.right.right⟩
    · rw [hsegments]
      exact hmore
    · unfold FileText.text FileText.body
      rw [hpathq, hbody]
    · unfold FileText.Torn FileText.path
      rw [hsegments]
      exact htorn
  · rintro ⟨f, h, rfl, htorn⟩
    rcases h.authority with ⟨authority, hauthority⟩
    refine ⟨f.authority, _, authority, rfl, h.authorityEnd, hauthority, ?_⟩
    rw [parsePath_panicked_iff, splitQuery_query f.query (FileText.question_not_mem_body h.question)]
    dsimp only
    rw [FileText.splitOn_body h.areaEnd, headD_cons, tail_cons, parseTarget_panicked_iff,
      parseFile_panicked_iff]
    refine ⟨?_, rfl, f.area, _, rfl, h.area, h.segments, h.root, htorn⟩
    unfold FileText.body
    exact nofun

end

/--
No slice of the parser cuts a character but the one for the digits of an escape: a text is
accepted or refused exactly when it is no link to a file with a torn area or path.
-/
theorem parse_total_iff_not_torn (hex : Hex) (s : List Char) :
    (parse hex s ≠ .error .panicked <->
        forall f : FileText, f.Accepted hex -> s = f.text -> ¬ f.Torn) ∧
      stripRnsSchemeSliced s = some ((stripRnsScheme s).map utf8) ∧
      splitSlashSliced s =
        some ((splitOnce '/' s).map (fun parts => (utf8 parts.fst, utf8 parts.snd))) ∧
      pctDecodeSliced s = pctDecode s ∧
      (pctDecodeSliced s ≠ none <-> tornEscape s = false) := by
  refine ⟨?_, stripRnsSchemeSliced_eq s, splitSlashSliced_eq s, pctDecodeSliced_eq s, ?_⟩
  · rw [ne_eq, parse_panicked_iff_torn]
    constructor
    · intro h f hf hs htorn
      exact h ⟨f, hf, hs, htorn⟩
    · rintro h ⟨f, hf, hs, htorn⟩
      exact h f hf hs htorn
  · rw [pctDecodeSliced_eq, ne_eq, pctDecode_eq_none_iff, Bool.not_eq_true]

/-- A letter between the percent sign and a character of two bytes. -/
theorem parse_ends_inside_character :
    ¬ (forall s : List Char, parse lowerHex s ≠ .error .panicked) := by
  intro hall
  apply hall "rabbit://h/files/a/%aé".toList
  decide

end Rabbithole.Link
