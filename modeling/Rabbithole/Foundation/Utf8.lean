import Mathlib.Data.List.GetD
import Rabbithole.Foundation.Codec

/-!
# UTF-8 with replacement

The text of any bytes at all: what is no character is read as the replacement
character.  An ASCII character is never read from anything but its own byte, so that
the text can be split at it where the bytes can.
-/

namespace Rabbithole.Foundation

open List

def utf8 (s : List Char) : Bytes :=
  s.flatMap String.utf8EncodeChar

def decodeChar? (bytes : Bytes) : Option Char :=
  bytes.toByteArray.utf8DecodeChar? 0

def isContinuation (b : UInt8) : Bool :=
  b &&& 192 == 128

/-- The second byte can follow the first one, which is that of three or four. -/
def opensChar (first second : UInt8) : Bool :=
  (first == 0xE0 && 0xA0 <= second && second <= 0xBF) ||
    (0xE1 <= first && first <= 0xEC && 0x80 <= second && second <= 0xBF) ||
    (first == 0xED && 0x80 <= second && second <= 0x9F) ||
    (0xEE <= first && first <= 0xEF && 0x80 <= second && second <= 0xBF) ||
    (first == 0xF0 && 0x90 <= second && second <= 0xBF) ||
    (0xF1 <= first && first <= 0xF3 && 0x80 <= second && second <= 0xBF) ||
    (first == 0xF4 && 0x80 <= second && second <= 0x8F)

/-- How many bytes one replacement stands for, where no character is at the front. -/
def brokenLength : Bytes -> Nat
  | first :: second :: rest =>
      if opensChar first second then
        if 0xF0 <= first && rest.head?.any isContinuation then 3 else 2
      else 1
  | _ => 1

/-- The character that is read, and the bytes it is read from. -/
def lossyStep (bytes : Bytes) : Char × Nat :=
  match decodeChar? bytes with
  | some c => (c, c.utf8Size)
  | none => ('\ufffd', brokenLength bytes)

def lossyFrom : Nat -> Bytes -> List Char
  | 0, _ => []
  | _ + 1, [] => []
  | fuel + 1, b :: bytes =>
      (lossyStep (b :: bytes)).fst ::
        lossyFrom fuel ((b :: bytes).drop (lossyStep (b :: bytes)).snd)

def fromUtf8Lossy (bytes : Bytes) : List Char :=
  lossyFrom bytes.length bytes

/-- What there is of a character whose last bytes are missing. -/
def isUnfinished : Bytes -> Bool
  | [first] => 0xC2 <= first && first <= 0xF4
  | [first, second] => opensChar first second
  | [first, second, third] => 0xF0 <= first && opensChar first second && isContinuation third
  | _ => false

inductive Utf8Error where
  | unfinished
  | invalid
deriving DecidableEq

/-- What the first bytes that are no character come to. -/
def checkUtf8From : Nat -> Bytes -> Option Utf8Error
  | 0, _ => none
  | _ + 1, [] => none
  | fuel + 1, b :: bytes =>
      match decodeChar? (b :: bytes) with
      | some c => checkUtf8From fuel ((b :: bytes).drop c.utf8Size)
      | none => some (if isUnfinished (b :: bytes) then .unfinished else .invalid)

def checkUtf8 (bytes : Bytes) : Option Utf8Error :=
  checkUtf8From bytes.length bytes

def fromUtf8? (bytes : Bytes) : Option (List Char) :=
  (Codec.textOf? bytes).map String.toList

theorem bytesOf_ofList (s : List Char) : Codec.bytesOf (String.ofList s) = utf8 s := by
  unfold Codec.bytesOf utf8
  rw [String.toByteArray_ofList]
  unfold List.utf8Encode
  exact toList_data_toByteArray

variable {bytes : Bytes}

theorem fromUtf8?_eq_some_iff {s : List Char} : fromUtf8? bytes = some s <-> bytes = utf8 s := by
  unfold fromUtf8?
  rw [Option.map_eq_some_iff]
  constructor
  · rintro ⟨text, htext, rfl⟩
    rw [← bytesOf_ofList, String.ofList_toList]
    exact (Codec.bytesOf_of_textOf? htext).symm
  · rintro rfl
    refine ⟨String.ofList s, ?_, String.toList_ofList⟩
    rw [← bytesOf_ofList]
    exact Codec.textOf?_bytesOf _

/-!
## Characters
-/

theorem decodeChar?_append (c : Char) (rest : Bytes) :
    decodeChar? (String.utf8EncodeChar c ++ rest) = some c := by
  unfold decodeChar?
  rw [toByteArray_append]
  exact ByteArray.utf8DecodeChar?_utf8EncodeChar_append

theorem eq_append_of_decodeChar? {c : Char} (h : decodeChar? bytes = some c) :
    exists rest, bytes = String.utf8EncodeChar c ++ rest := by
  rcases ByteArray.exists_of_utf8DecodeChar?_eq_some h with ⟨rest, hrest⟩
  refine ⟨rest.data.toList, ?_⟩
  have hlist := congrArg (fun b => b.data.toList) hrest
  simpa using hlist

theorem le_of_mem_utf8EncodeChar {c : Char} {b : UInt8} (hwide : 127 < c.val.toNat)
    (h : b ∈ String.utf8EncodeChar c) : 128 <= b.toNat := by
  unfold String.utf8EncodeChar at h
  simp only [if_neg (Nat.not_le_of_lt hwide)] at h
  split at h
  · simp only [mem_cons, not_mem_nil, or_false] at h
    rcases h with rfl | rfl
    all_goals
      rw [UInt8.toNat_ofNat']
      omega
  · split at h
    · simp only [mem_cons, not_mem_nil, or_false] at h
      rcases h with rfl | rfl | rfl
      all_goals
        rw [UInt8.toNat_ofNat']
        omega
    · simp only [mem_cons, not_mem_nil, or_false] at h
      rcases h with rfl | rfl | rfl | rfl
      all_goals
        rw [UInt8.toNat_ofNat']
        omega

theorem lossyStep_encoded (c : Char) (rest : Bytes) :
    lossyStep (String.utf8EncodeChar c ++ rest) = (c, c.utf8Size) := by
  unfold lossyStep
  rw [decodeChar?_append]

theorem brokenLength_pos (bytes : Bytes) : 1 <= brokenLength bytes := by
  unfold brokenLength
  split
  · split
    · split
      · decide
      · decide
    · decide
  · decide

theorem lossyStep_pos (bytes : Bytes) : 1 <= (lossyStep bytes).snd := by
  unfold lossyStep
  split
  · rename_i c _
    exact c.utf8Size_pos
  · exact brokenLength_pos bytes

/-!
## Whole texts
-/

theorem lossyFrom_eq {fuel : Nat} (h : bytes.length <= fuel) :
    lossyFrom fuel bytes = fromUtf8Lossy bytes := by
  unfold fromUtf8Lossy
  generalize hmore : bytes.length = more at h
  replace hmore : bytes.length <= more := Nat.le_of_eq hmore
  induction more generalizing fuel bytes with
  | zero =>
      have hnil : bytes = [] := length_eq_zero_iff.mp (Nat.le_zero.mp hmore)
      subst hnil
      cases fuel with
      | zero => rfl
      | succ fuel => rfl
  | succ more ih =>
      cases fuel with
      | zero => cases h
      | succ fuel =>
          cases bytes with
          | nil => rfl
          | cons b bytes =>
              have hstep := lossyStep_pos (b :: bytes)
              unfold lossyFrom
              rw [ih (Nat.le_of_succ_le_succ h)]
              rw [length_drop]
              rw [length_cons] at hmore ⊢
              omega

theorem fromUtf8Lossy_of_ne_nil (h : bytes ≠ []) :
    fromUtf8Lossy bytes =
      (lossyStep bytes).fst :: fromUtf8Lossy (bytes.drop (lossyStep bytes).snd) := by
  cases bytes with
  | nil => exact absurd rfl h
  | cons b bytes =>
      have hstep := lossyStep_pos (b :: bytes)
      have hrest : ((b :: bytes).drop (lossyStep (b :: bytes)).snd).length <= bytes.length := by
        rw [length_drop, length_cons]
        omega
      show lossyFrom (bytes.length + 1) (b :: bytes) = _
      unfold lossyFrom
      rw [lossyFrom_eq hrest]

theorem fromUtf8Lossy_encoded (c : Char) (rest : Bytes) :
    fromUtf8Lossy (String.utf8EncodeChar c ++ rest) = c :: fromUtf8Lossy rest := by
  have hsize := String.length_utf8EncodeChar c
  have hne : String.utf8EncodeChar c ++ rest ≠ [] := by
    intro hnil
    have hlength := congrArg List.length hnil
    have hpos := c.utf8Size_pos
    rw [length_append, hsize, length_nil] at hlength
    omega
  rw [fromUtf8Lossy_of_ne_nil hne, lossyStep_encoded]
  show c :: fromUtf8Lossy ((String.utf8EncodeChar c ++ rest).drop c.utf8Size) = _
  rw [← hsize, drop_left]

theorem fromUtf8Lossy_utf8 (s : List Char) : fromUtf8Lossy (utf8 s) = s := by
  induction s with
  | nil => rfl
  | cons c s ih =>
      show fromUtf8Lossy (String.utf8EncodeChar c ++ utf8 s) = _
      rw [fromUtf8Lossy_encoded, ih]

theorem fromUtf8Lossy_eq_nil_iff : fromUtf8Lossy bytes = [] <-> bytes = [] := by
  constructor
  · intro h
    by_contra hne
    rw [fromUtf8Lossy_of_ne_nil hne] at h
    cases h
  · rintro rfl
    rfl

/-!
## Splitting at an ASCII character
-/

section Ascii

variable {sep : Char}

def asciiByte (c : Char) : UInt8 :=
  c.val.toUInt8

theorem utf8EncodeChar_ascii (hsep : sep.val.toNat <= 127) :
    String.utf8EncodeChar sep = [asciiByte sep] := by
  apply String.utf8EncodeChar_eq_singleton
  rw [Char.utf8Size_eq_one_iff, UInt32.le_iff_toNat_le]
  exact hsep

theorem toNat_asciiByte (hsep : sep.val.toNat <= 127) : (asciiByte sep).toNat = sep.val.toNat := by
  unfold asciiByte
  rw [UInt32.toNat_toUInt8]
  omega

theorem not_mem_utf8EncodeChar (hsep : sep.val.toNat <= 127) {c : Char} (hne : c ≠ sep) :
    asciiByte sep ∉ String.utf8EncodeChar c := by
  intro hmem
  have hbyte := toNat_asciiByte hsep
  rcases Nat.lt_or_ge 127 c.val.toNat with hwide | hnarrow
  · have hbig := le_of_mem_utf8EncodeChar hwide hmem
    omega
  · rw [utf8EncodeChar_ascii hnarrow, mem_singleton] at hmem
    have hsame := congrArg UInt8.toNat hmem
    rw [hbyte, toNat_asciiByte hnarrow] at hsame
    apply hne
    apply Char.ext
    exact UInt32.toNat.inj hsame.symm

theorem opensChar_ascii {first second : UInt8} (h : second.toNat < 128) :
    opensChar first second = false := by
  have hlow : forall bound : UInt8, 128 <= bound.toNat -> decide (bound <= second) = false := by
    intro bound hbound
    apply decide_eq_false
    rw [UInt8.le_iff_toNat_le]
    omega
  unfold opensChar
  simp only [hlow 0xA0 (by decide), hlow 0x80 (by decide), hlow 0x90 (by decide),
    Bool.and_false, Bool.false_and, Bool.or_false]

theorem isContinuation_ascii {b : UInt8} (h : b.toNat < 128) : isContinuation b = false := by
  have hall : forall n : Fin 128, isContinuation (UInt8.ofNat n) = false := by decide
  have hb := hall ⟨b.toNat, h⟩
  rw [UInt8.ofNat_toNat] at hb
  exact hb

theorem brokenLength_append {front back : Bytes} {b : UInt8} (hne : front ≠ [])
    (hb : b.toNat < 128) : brokenLength (front ++ b :: back) = brokenLength front := by
  rcases front with _ | ⟨first, _ | ⟨second, _ | ⟨third, rest⟩⟩⟩
  · exact absurd rfl hne
  · show (if opensChar first b then _ else 1) = 1
    rw [opensChar_ascii hb]
    rfl
  · show (if opensChar first second then
        if 0xF0 <= first && isContinuation b then 3 else 2 else 1) = brokenLength [first, second]
    rw [isContinuation_ascii hb]
    rfl
  · rfl

theorem brokenLength_le (bytes : Bytes) (hne : bytes ≠ []) :
    brokenLength bytes <= bytes.length := by
  rcases bytes with _ | ⟨first, _ | ⟨second, _ | ⟨third, rest⟩⟩⟩
  · exact absurd rfl hne
  · exact Nat.le_refl 1
  · show (if opensChar first second then
        if 0xF0 <= first && false then 3 else 2 else 1) <= 2
    rw [Bool.and_false]
    split
    · exact Nat.le_refl 2
    · exact Nat.le_succ 1
  · unfold brokenLength
    simp only [length_cons]
    split
    · split
      · omega
      · omega
    · omega

/-- What is read from the front does not depend on what is behind an ASCII character. -/
theorem lossyStep_append (hsep : sep.val.toNat <= 127) {front back : Bytes} (hne : front ≠ [])
    (hfront : asciiByte sep ∉ front) :
    lossyStep (front ++ asciiByte sep :: back) = lossyStep front ∧
      (lossyStep front).snd <= front.length ∧ (lossyStep front).fst ≠ sep := by
  have hbyte := toNat_asciiByte hsep
  cases hread : decodeChar? front with
  | some c =>
      rcases eq_append_of_decodeChar? hread with ⟨rest, rfl⟩
      have hc : c ≠ sep := by
        rintro rfl
        apply hfront
        rw [utf8EncodeChar_ascii hsep]
        exact mem_cons_self
      rw [append_assoc, lossyStep_encoded, lossyStep_encoded, length_append,
        String.length_utf8EncodeChar]
      exact ⟨rfl, Nat.le_add_right _ _, hc⟩
  | none =>
      have hwhole : decodeChar? (front ++ asciiByte sep :: back) = none := by
        cases hother : decodeChar? (front ++ asciiByte sep :: back) with
        | none => rfl
        | some c =>
            rcases eq_append_of_decodeChar? hother with ⟨rest, heq⟩
            rcases append_eq_append_iff.mp heq with ⟨more, hmore, htail⟩ | ⟨more, hmore, _⟩
            · cases more with
              | nil =>
                  rw [append_nil] at hmore
                  have hagain := decodeChar?_append c []
                  rw [hmore, append_nil, hread] at hagain
                  cases hagain
              | cons b more =>
                  cases htail
                  have hc : c = sep := by
                    by_contra hdiffer
                    apply not_mem_utf8EncodeChar hsep hdiffer
                    rw [hmore]
                    exact mem_append_right front mem_cons_self
                  rw [hc, utf8EncodeChar_ascii hsep] at hmore
                  have hlength := congrArg List.length hmore
                  have hpos := length_pos_of_ne_nil hne
                  rw [length_append, length_singleton, length_cons] at hlength
                  omega
            · rw [hmore, decodeChar?_append] at hread
              cases hread
      have hreplaced : '\ufffd' ≠ sep := by
        rintro rfl
        exact absurd hsep (by decide)
      unfold lossyStep
      rw [hread, hwhole, brokenLength_append hne (by omega)]
      exact ⟨rfl, brokenLength_le front hne, hreplaced⟩

theorem not_mem_fromUtf8Lossy (hsep : sep.val.toNat <= 127) {bytes : Bytes}
    (h : asciiByte sep ∉ bytes) : sep ∉ fromUtf8Lossy bytes := by
  generalize hmore : bytes.length = more
  replace hmore : bytes.length <= more := Nat.le_of_eq hmore
  induction more generalizing bytes with
  | zero =>
      rw [length_eq_zero_iff.mp (Nat.le_zero.mp hmore)]
      exact not_mem_nil
  | succ more ih =>
      rcases eq_or_ne bytes [] with rfl | hne
      · exact not_mem_nil
      · rcases @lossyStep_append sep hsep bytes [] hne h with ⟨_, _, hdiffer⟩
        have hstep := lossyStep_pos bytes
        rw [fromUtf8Lossy_of_ne_nil hne, mem_cons, not_or]
        refine ⟨Ne.symm hdiffer, ih ?_ ?_⟩
        · intro hmem
          exact h (mem_of_mem_drop hmem)
        · rw [length_drop]
          omega

theorem fromUtf8Lossy_append (hsep : sep.val.toNat <= 127) {front : Bytes} (back : Bytes)
    (h : asciiByte sep ∉ front) :
    fromUtf8Lossy (front ++ asciiByte sep :: back) =
      fromUtf8Lossy front ++ sep :: fromUtf8Lossy back := by
  generalize hmore : front.length = more
  replace hmore : front.length <= more := Nat.le_of_eq hmore
  have hbase : fromUtf8Lossy (asciiByte sep :: back) = sep :: fromUtf8Lossy back := by
    have hread := fromUtf8Lossy_encoded sep back
    rw [utf8EncodeChar_ascii hsep] at hread
    exact hread
  induction more generalizing front with
  | zero =>
      rw [length_eq_zero_iff.mp (Nat.le_zero.mp hmore)]
      exact hbase
  | succ more ih =>
      rcases eq_or_ne front [] with rfl | hne
      · exact hbase
      · rcases @lossyStep_append sep hsep front back hne h with ⟨hsame, hfits, _⟩
        have hstep := lossyStep_pos front
        have hwhole : front ++ asciiByte sep :: back ≠ [] := by
          intro hnil
          exact hne (append_eq_nil_iff.mp hnil).left
        have hrest : asciiByte sep ∉ front.drop (lossyStep front).snd := by
          intro hmem
          exact h (mem_of_mem_drop hmem)
        rw [fromUtf8Lossy_of_ne_nil hwhole, hsame, drop_append_of_le_length hfits,
          ih hrest, fromUtf8Lossy_of_ne_nil hne, cons_append]
        rw [length_drop]
        omega

theorem splitOn_fromUtf8Lossy (hsep : sep.val.toNat <= 127) (bytes : Bytes) :
    (fromUtf8Lossy bytes).splitOn sep = (bytes.splitOn (asciiByte sep)).map fromUtf8Lossy := by
  generalize hmore : bytes.length = more
  replace hmore : bytes.length <= more := Nat.le_of_eq hmore
  induction more generalizing bytes with
  | zero =>
      rw [length_eq_zero_iff.mp (Nat.le_zero.mp hmore)]
      rfl
  | succ more ih =>
      by_cases hmem : asciiByte sep ∈ bytes
      · rcases eq_append_cons_of_mem hmem with ⟨front, back, rfl, hfront⟩
        have hback : back.length <= more := by
          rw [length_append, length_cons] at hmore
          omega
        rw [fromUtf8Lossy_append hsep back hfront, splitOn_append_cons_self_of_not_mem hfront,
          splitOn_append_cons_self_of_not_mem (not_mem_fromUtf8Lossy hsep hfront),
          ih back hback]
        rfl
      · rw [splitOn_eq_singleton hmem, splitOn_eq_singleton (not_mem_fromUtf8Lossy hsep hmem)]
        rfl

end Ascii

/-!
## Where characters begin
-/

/-- The last place up to here where a character begins. -/
def charBoundary (bytes : Bytes) : Nat -> Nat
  | 0 => 0
  | place + 1 =>
      if isContinuation (bytes.getD (place + 1) 0) then charBoundary bytes place else place + 1

set_option maxRecDepth 8000 in
theorem isContinuation_ofNat {n : Nat} (h : n < 256) :
    isContinuation (UInt8.ofNat n) = decide (128 <= n ∧ n < 192) := by
  have hall : forall m : Fin 256,
      isContinuation (UInt8.ofNat m) = decide (128 <= m.val ∧ m.val < 192) := by decide
  exact hall ⟨n, h⟩

theorem utf8EncodeChar_continues (c : Char) :
    exists first rest, String.utf8EncodeChar c = first :: rest ∧
      isContinuation first = false ∧ forall b, b ∈ rest -> isContinuation b = true := by
  have hfirst : forall n, n < 256 -> n < 128 ∨ 192 <= n ->
      isContinuation (UInt8.ofNat n) = false := by
    intro n hbyte hn
    rw [isContinuation_ofNat hbyte]
    exact decide_eq_false (by omega)
  have hrest : forall n, isContinuation (UInt8.ofNat (n % 64 + 128)) = true := by
    intro n
    rw [isContinuation_ofNat (by omega)]
    exact decide_eq_true (by omega)
  unfold String.utf8EncodeChar
  simp only []
  split
  · exact ⟨_, _, rfl, hfirst _ (by omega) (by omega), nofun⟩
  · split
    · refine ⟨_, _, rfl, hfirst _ (by omega) (by omega), ?_⟩
      intro b hb
      rw [mem_singleton.mp hb]
      exact hrest _
    · split
      · refine ⟨_, _, rfl, hfirst _ (by omega) (by omega), ?_⟩
        intro b hb
        simp only [mem_cons, not_mem_nil, or_false] at hb
        rcases hb with rfl | rfl
        · exact hrest _
        · exact hrest _
      · refine ⟨_, _, rfl, hfirst _ (by omega) (by omega), ?_⟩
        intro b hb
        simp only [mem_cons, not_mem_nil, or_false] at hb
        rcases hb with rfl | rfl | rfl
        all_goals exact hrest _

theorem not_isContinuation_head (s : List Char) : isContinuation ((utf8 s).getD 0 0) = false := by
  cases s with
  | nil => rfl
  | cons c s =>
      rcases utf8EncodeChar_continues c with ⟨first, rest, heq, hfirst, -⟩
      show isContinuation ((String.utf8EncodeChar c ++ utf8 s).getD 0 0) = false
      rw [heq]
      exact hfirst

theorem charBoundary_inside {first : UInt8} {rest back : Bytes} {place : Nat}
    (hrest : forall b, b ∈ rest -> isContinuation b = true) (h : place <= rest.length) :
    charBoundary (first :: rest ++ back) place = 0 := by
  induction place with
  | zero => rfl
  | succ place ih =>
      have hbyte : (first :: rest ++ back).getD (place + 1) 0 = rest[place] := by
        rw [cons_append, getD_cons_succ, getD_append _ _ _ _ h, getD_eq_getElem _ _ h]
      unfold charBoundary
      rw [hbyte, hrest _ (getElem_mem h), if_pos rfl]
      exact ih (by omega)

theorem charBoundary_behind {front : Bytes} {s : List Char} {place : Nat} (hfront : front ≠ []) :
    charBoundary (front ++ utf8 s) (front.length + place) =
      front.length + charBoundary (utf8 s) place := by
  have hpos := length_pos_iff.mpr hfront
  induction place with
  | zero =>
      rcases Nat.exists_eq_add_one_of_ne_zero (Nat.ne_of_gt hpos) with ⟨n, hn⟩
      have hbyte : (front ++ utf8 s).getD (n + 1) 0 = (utf8 s).getD 0 0 := by
        rw [← hn, getD_append_right _ _ _ _ (Nat.le_refl _), Nat.sub_self]
      rw [Nat.add_zero, hn]
      unfold charBoundary
      rw [hbyte, not_isContinuation_head, if_neg Bool.false_ne_true]
  | succ place ih =>
      have hbyte : (front ++ utf8 s).getD (front.length + place + 1) 0 =
          (utf8 s).getD (place + 1) 0 := by
        rw [Nat.add_assoc, getD_append_right _ _ _ _ (by omega), Nat.add_sub_cancel_left]
      rw [← Nat.add_assoc]
      unfold charBoundary
      rw [hbyte]
      split
      · exact ih
      · rw [Nat.add_assoc]

theorem charBoundary_utf8 (s : List Char) {place : Nat} (h : place < (utf8 s).length) :
    exists front back, s = front ++ back ∧ charBoundary (utf8 s) place = (utf8 front).length ∧
      (utf8 front).length <= place ∧ place < (utf8 front).length + 4 := by
  induction s generalizing place with
  | nil => cases h
  | cons c s ih =>
      rcases utf8EncodeChar_continues c with ⟨first, rest, heq, hfirst, hrest⟩
      have hbytes : utf8 (c :: s) = first :: rest ++ utf8 s := by
        show String.utf8EncodeChar c ++ utf8 s = _
        rw [heq]
      have hsize : rest.length + 1 <= 4 := by
        have hlength := String.length_utf8EncodeChar c
        rw [heq, length_cons] at hlength
        have hle := c.utf8Size_le_four
        omega
      rcases Nat.lt_or_ge rest.length place with hbehind | hinside
      · rcases Nat.exists_eq_add_of_le hbehind with ⟨k, rfl⟩
        have hk : k < (utf8 s).length := by
          rw [hbytes, length_append, length_cons] at h
          omega
        rcases ih hk with ⟨front, back, rfl, hboundary, hle, hlt⟩
        have hfrontBytes : (utf8 (c :: front)).length = rest.length + 1 + (utf8 front).length := by
          show (String.utf8EncodeChar c ++ utf8 front).length = _
          rw [heq, length_append, length_cons]
        refine ⟨c :: front, back, rfl, ?_, ?_, ?_⟩
        · have hstep := @charBoundary_behind _ (front ++ back) k
            (cons_ne_nil first rest)
          rw [length_cons] at hstep
          rw [hbytes, hfrontBytes]
          show charBoundary _ (rest.length + 1 + k) = _
          rw [hstep, hboundary]
        all_goals
          rw [hfrontBytes]
          omega
      · refine ⟨[], c :: s, rfl, ?_, Nat.zero_le _, ?_⟩
        · rw [hbytes]
          exact charBoundary_inside hrest hinside
        · show place < 0 + 4
          omega

theorem fromUtf8Lossy_utf8_append (s : List Char) (rest : Bytes) :
    fromUtf8Lossy (utf8 s ++ rest) = s ++ fromUtf8Lossy rest := by
  induction s with
  | nil => rfl
  | cons c s ih =>
      show fromUtf8Lossy (String.utf8EncodeChar c ++ utf8 s ++ rest) = _
      rw [append_assoc, fromUtf8Lossy_encoded, ih]
      rfl

/-!
## Slices

A part of a text by places in its bytes.  Both must be where a character begins, or the end.
-/

theorem utf8_append (s t : List Char) : utf8 (s ++ t) = utf8 s ++ utf8 t := by
  unfold utf8
  rw [flatMap_append]

def isCharBoundary (s : List Char) (place : Nat) : Bool :=
  place == 0 || place == (utf8 s).length ||
    (utf8 s)[place]?.any (fun b => !isContinuation b)

/-- The bytes from one place to another.  There are none where the program ends instead. -/
def slice (s : List Char) (start stop : Nat) : Option Bytes :=
  if start <= stop ∧ isCharBoundary s start = true ∧ isCharBoundary s stop = true then
    some (((utf8 s).take stop).drop start)
  else none

theorem isCharBoundary_append (front back : List Char) :
    isCharBoundary (front ++ back) (utf8 front).length = true := by
  unfold isCharBoundary
  rw [utf8_append]
  cases back with
  | nil => simp [utf8]
  | cons c back =>
      rcases utf8EncodeChar_continues c with ⟨first, rest, heq, hfirst, -⟩
      have hbytes : utf8 (c :: back) = first :: (rest ++ utf8 back) := by
        show String.utf8EncodeChar c ++ utf8 back = _
        rw [heq, cons_append]
      rw [hbytes, getElem?_append_right (Nat.le_refl _), Nat.sub_self]
      simp [hfirst]

theorem slice_append (front middle back : List Char) :
    slice (front ++ middle ++ back) (utf8 front).length (utf8 (front ++ middle)).length =
      some (utf8 middle) := by
  have hstart : isCharBoundary (front ++ middle ++ back) (utf8 front).length = true := by
    rw [append_assoc]
    exact isCharBoundary_append front (middle ++ back)
  have hle : (utf8 front).length <= (utf8 (front ++ middle)).length := by
    rw [utf8_append, length_append]
    exact Nat.le_add_right _ _
  unfold slice
  rw [if_pos ⟨hle, hstart, isCharBoundary_append (front ++ middle) back⟩,
    utf8_append (front ++ middle) back, take_left, utf8_append front middle, drop_left]

theorem eq_append_of_utf8 {sep : Char} (hsep : sep.val.toNat <= 127) {s : List Char}
    {front back : Bytes} (h : utf8 s = front ++ asciiByte sep :: back) :
    exists before behind, s = before ++ sep :: behind ∧ utf8 before = front ∧
      utf8 behind = back := by
  induction s generalizing front with
  | nil =>
      cases front with
      | nil => cases h
      | cons b front => cases h
  | cons c s ih =>
      have hbytes : String.utf8EncodeChar c ++ utf8 s = front ++ asciiByte sep :: back := h
      by_cases hc : c = sep
      · rw [hc, utf8EncodeChar_ascii hsep] at hbytes
        cases front with
        | nil => exact ⟨[], s, by rw [hc]; rfl, rfl, (List.cons.inj hbytes).right⟩
        | cons b front =>
            rcases List.cons.inj hbytes with ⟨hb, hrest⟩
            rcases ih hrest with ⟨before, behind, hs, hfront, hback⟩
            refine ⟨sep :: before, behind, by rw [hc, hs]; rfl, ?_, hback⟩
            show String.utf8EncodeChar sep ++ utf8 before = b :: front
            rw [utf8EncodeChar_ascii hsep, hfront, hb]
            rfl
      · rcases append_eq_append_iff.mp hbytes with
          ⟨more, hfront, hrest⟩ | ⟨more, hencoded, hrest⟩
        · rcases ih hrest with ⟨before, behind, hs, hmore, hback⟩
          refine ⟨c :: before, behind, by rw [hs]; rfl, ?_, hback⟩
          show String.utf8EncodeChar c ++ utf8 before = front
          rw [hmore, hfront]
        · cases more with
          | nil =>
              rw [append_nil] at hencoded
              rcases @ih [] hrest.symm with ⟨before, behind, hs, hmore, hback⟩
              refine ⟨c :: before, behind, by rw [hs]; rfl, ?_, hback⟩
              show String.utf8EncodeChar c ++ utf8 before = front
              rw [hmore, append_nil, hencoded]
          | cons b more =>
              rcases List.cons.inj hrest with ⟨hb, _⟩
              have hmem : asciiByte sep ∈ String.utf8EncodeChar c := by
                rw [hencoded, hb]
                exact mem_append_right front mem_cons_self
              exact absurd hmem (not_mem_utf8EncodeChar hsep hc)

end Rabbithole.Foundation
