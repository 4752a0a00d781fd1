import Rabbithole.Foundation.Text
import Rabbithole.Foundation.Utf8

/-!
# The offer of a file

What a ZFILE header is followed by: the name of the file, and numbers about it that
stand in a fixed order.
-/

namespace Rabbithole.Zmodem

open Foundation List

inductive FileInfoError where
  | missingNameTerminator
  | emptyName
  | nameNotUtf8
  | badField (field : String) (value : List Char)
  | nameContainsNul
deriving DecidableEq

structure FileInfo where
  name : String
  length : Option UInt64
  mtime : Option UInt64
  mode : Option UInt32
  serial : Option UInt32
deriving DecidableEq

def parseField (text : Option (List Char)) (field : String) (radix : Nat) :
    Except FileInfoError (Option UInt64) :=
  match text with
  | none => .ok none
  | some t =>
      match fromStrRadix radix (2 ^ 64 - 1) t with
      | none => .error (.badField field t)
      | some n => .ok (some (UInt64.ofNat n))

namespace FileInfo

def new (name : String) : FileInfo :=
  ⟨name, none, none, none, none⟩

/-- The numbers as they are written: the first one in decimal, the others in octal. -/
def fields (info : FileInfo) : List (Option (List Char)) :=
  [info.length.map (fun v => Nat.toDigits 10 v.toNat),
    info.mtime.map (fun v => Nat.toDigits 8 v.toNat),
    info.mode.map (fun v => Nat.toDigits 8 v.toNat),
    info.serial.map (fun v => Nat.toDigits 8 v.toNat)]

def encode (info : FileInfo) : Except FileInfoError Bytes :=
  if (Codec.bytesOf info.name).isEmpty then .error .emptyName
  else if 0 ∈ Codec.bytesOf info.name then .error .nameContainsNul
  else
    -- numbers behind the last one there is are not written, others as zero
    let present := (info.fields.reverse.dropWhile Option.isNone).reverse
    let text := [' '].intercalate (present.map (fun field => field.getD ['0']))
    .ok (Codec.bytesOf info.name ++ 0 :: (utf8 text ++ [0]))

def decode (payload : Bytes) : Except FileInfoError FileInfo :=
  if 0 ∉ payload then .error .missingNameTerminator
  else
    let front := payload.takeWhile (fun b => b ≠ 0)
    let rest := (payload.dropWhile (fun b => b ≠ 0)).tail
    if front.isEmpty then .error .emptyName
    else
      match Codec.textOf? front with
      | none => .error .nameNotUtf8
      | some name => do
          let texts := splitAsciiWhitespace (fromUtf8Lossy (rest.takeWhile (fun b => b ≠ 0)))
          let length ← parseField (texts[0]?) "length" 10
          let mtime ← parseField (texts[1]?) "mtime" 8
          let mode ← parseField (texts[2]?) "mode" 8
          let serial ← parseField (texts[3]?) "serial" 8
          .ok ⟨name, length, mtime, mode.map UInt64.toUInt32, serial.map UInt64.toUInt32⟩

end FileInfo

/-!
# Offers are read as they were written

The numbers of an offer stand in their places, so one that is not there is read as zero
when another one stands behind it.
-/

namespace FileInfo

/-- A number that is not there is zero where a later one is. -/
def orZero {number : Type} [OfNat number 0] (later : Bool) (field : Option number) :
    Option number :=
  match field with
  | some v => some v
  | none => if later then some 0 else none

/-- The offer as it will be read. -/
def filled (info : FileInfo) : FileInfo where
  name := info.name
  length := orZero (info.mtime.isSome || info.mode.isSome || info.serial.isSome) info.length
  mtime := orZero (info.mode.isSome || info.serial.isSome) info.mtime
  mode := orZero info.serial.isSome info.mode
  serial := info.serial

/-- What is written of some fields: those behind the last one there is are left out. -/
def texts (fields : List (Option (List Char))) : List (List Char) :=
  (fields.rdropWhile Option.isNone).map (fun field => field.getD ['0'])

theorem getElem?_texts (fields : List (Option (List Char))) (i : Nat) :
    (texts fields)[i]? =
      if (fields.drop i).any Option.isSome then fields[i]?.map (fun field => field.getD ['0'])
      else none := by
  induction fields using List.reverseRecOn with
  | nil =>
      rw [drop_nil]
      rfl
  | append_singleton fields last ih =>
      unfold texts at ih ⊢
      cases last with
      | none =>
          rw [rdropWhile_concat_pos _ _ _ rfl, ih, drop_append, any_append]
          have hlast : (List.drop (i - fields.length) [(none : Option (List Char))]).any
              Option.isSome = false := by
            rw [any_eq_false]
            intro field hfield
            rw [mem_singleton.mp (mem_of_mem_drop hfield)]
            exact Bool.false_ne_true
          rw [hlast, Bool.or_false]
          split
          · rename_i hany
            -- Something is there at or behind the place, so the place is in front of the end.
            have hlt : i < fields.length := by
              by_contra hge
              rw [drop_eq_nil_of_le (Nat.le_of_not_lt hge)] at hany
              cases hany
            rw [getElem?_append_left hlt]
          · rfl
      | some text =>
          rw [rdropWhile_concat_neg _ _ _ Bool.false_ne_true, getElem?_map]
          split
          · rfl
          · rename_i hnone
            rw [getElem?_eq_none]
            · rfl
            · by_contra hlt
              rw [Nat.not_le] at hlt
              apply hnone
              rw [any_eq_true]
              refine ⟨some text, ?_, rfl⟩
              rw [length_append, length_singleton] at hlt
              rw [drop_append_of_le_length (by omega)]
              exact mem_append_right _ (mem_singleton.mpr rfl)

/-!
## One field
-/

theorem digit_not_whitespace {c : Char} (h : 48 <= c.toNat ∧ c.toNat <= 57) :
    isAsciiWhitespace c = false := by
  have hall : forall n : Fin 58, 48 <= n.val -> isAsciiWhitespace (Char.ofNat n.val) = false := by
    decide
  have hc := hall ⟨c.toNat, by omega⟩ h.left
  rw [Char.ofNat_toNat] at hc
  exact hc

/-- Digits alone, and some. -/
def Digits (text : List Char) : Prop :=
  text ≠ [] ∧ forall c, c ∈ text -> 48 <= c.toNat ∧ c.toNat <= 57

theorem digits_toDigits_ok {radix : Nat} (htwo : 2 <= radix) (hradix : radix <= 10) (n : Nat) :
    Digits (Nat.toDigits radix n) := by
  constructor
  · intro hnil
    have hpos := @Nat.length_toDigits_pos radix n
    rw [hnil] at hpos
    exact absurd hpos (Nat.lt_irrefl 0)
  · intro c hc
    exact toNat_of_toDigit_radix hradix ((digits_toDigits_radix htwo hradix n).right c hc)

variable {info : FileInfo} {text : List Char}

theorem digits_fields (h : some text ∈ info.fields) : Digits text := by
  unfold fields at h
  simp only [mem_cons, not_mem_nil, or_false] at h
  rcases h with h | h | h | h
  all_goals
    rcases Option.map_eq_some_iff.mp h.symm with ⟨v, _, rfl⟩
    exact digits_toDigits_ok (by decide) (by decide) _

theorem digits_texts (h : text ∈ texts info.fields) : Digits text := by
  unfold texts at h
  rcases mem_map.mp h with ⟨field, hfield, rfl⟩
  have hmem := ( rdropWhile_prefix Option.isNone info.fields).subset hfield
  cases field with
  | none =>
      refine ⟨cons_ne_nil _ _, ?_⟩
      intro c hc
      rw [mem_singleton.mp hc]
      decide
  | some text => exact digits_fields hmem

theorem parseField_texts {radix : Nat} (htwo : 2 <= radix) (hradix : radix <= 10)
    (name : String) (later : Bool) (field : Option UInt64) :
    parseField (if field.isSome || later then
        some ((field.map (fun v => Nat.toDigits radix v.toNat)).getD ['0']) else none)
      name radix = .ok (orZero later field) := by
  cases field with
  | none =>
      cases later with
      | false => rfl
      | true =>
          have hzero : fromStrRadix radix (2 ^ 64 - 1) ['0'] = some 0 := by
            have hread := fromStrRadix_toDigits htwo hradix (Nat.zero_le (2 ^ 64 - 1))
            rw [Nat.toDigits_zero] at hread
            exact hread
          unfold parseField
          simp only [Option.isSome_none, Bool.or_true, if_true, Option.map_none, Option.getD_none]
          rw [hzero]
          rfl
  | some v =>
      have hread := fromStrRadix_toDigits htwo hradix
        (Nat.le_sub_one_of_lt (UInt64.toNat_lt v))
      unfold parseField
      simp only [Option.isSome_some, Bool.true_or, if_true, Option.map_some, Option.getD_some]
      rw [hread]
      simp only
      rw [UInt64.ofNat_toNat]
      rfl

/-!
## The whole offer
-/

theorem orZero_eq {number : Type} [OfNat number 0] {later : Bool} {field : Option number}
    (h : later = true -> field.isSome = true) : orZero later field = field := by
  cases field with
  | none =>
      cases later with
      | false => rfl
      | true => cases h rfl
  | some v => rfl

theorem toUInt32_orZero (later : Bool) (field : Option UInt32) :
    (orZero later (field.map UInt32.toUInt64)).map UInt64.toUInt32 = orZero later field := by
  cases field with
  | none =>
      cases later with
      | false => rfl
      | true => rfl
  | some v => exact congrArg some (UInt32.toUInt32_toUInt64 v)

/-- An offer of the numbers that some words say. -/
def ofTexts (name : String) (texts : List (List Char)) : Except FileInfoError FileInfo := do
  let length ← parseField (texts[0]?) "length" 10
  let mtime ← parseField (texts[1]?) "mtime" 8
  let mode ← parseField (texts[2]?) "mode" 8
  let serial ← parseField (texts[3]?) "serial" 8
  .ok ⟨name, length, mtime, mode.map UInt64.toUInt32, serial.map UInt64.toUInt32⟩

theorem ofTexts_texts (info : FileInfo) :
    ofTexts info.name (texts info.fields) = .ok info.filled := by
  have hlength := @parseField_texts 10 (by decide) (by decide) "length"
    (info.mtime.isSome || info.mode.isSome || info.serial.isSome) info.length
  have hmtime := @parseField_texts 8 (by decide) (by decide) "mtime"
    (info.mode.isSome || info.serial.isSome) info.mtime
  have hmode := @parseField_texts 8 (by decide) (by decide) "mode"
    info.serial.isSome (info.mode.map UInt32.toUInt64)
  have hserial := @parseField_texts 8 (by decide) (by decide) "serial" false
    (info.serial.map UInt32.toUInt64)
  unfold ofTexts
  rw [getElem?_texts, getElem?_texts, getElem?_texts, getElem?_texts]
  rcases info with ⟨name, length, mtime, mode, serial⟩
  unfold fields
  simp only [drop_succ_cons, drop_zero, any_cons, any_nil, Option.isSome_map,
    getElem?_cons_zero, getElem?_cons_succ, Option.map_some, Bool.or_false,
    Bool.or_assoc, Option.map_map] at hlength hmtime hmode hserial ⊢
  have hwide : (fun v : UInt64 => Nat.toDigits 8 v.toNat) ∘ UInt32.toUInt64 =
      fun v : UInt32 => Nat.toDigits 8 v.toNat := by
    funext v
    exact congrArg (Nat.toDigits 8) (UInt32.toNat_toUInt64 v)
  rw [hwide] at hmode hserial
  rw [hlength, hmtime, hmode, hserial]
  show Except.ok (⟨name, _, _, Option.map UInt64.toUInt32 _, Option.map UInt64.toUInt32 _⟩ : FileInfo)
    = _
  rw [toUInt32_orZero, toUInt32_orZero]
  unfold filled orZero
  cases serial with
  | none => simp only [Bool.or_assoc, Bool.false_eq_true, if_false]
  | some v => simp only [Bool.or_assoc]

theorem encode_ok {bytes : Bytes} (h : info.encode = .ok bytes) :
    Codec.bytesOf info.name ≠ [] ∧ 0 ∉ Codec.bytesOf info.name ∧
      bytes = Codec.bytesOf info.name ++
        0 :: (utf8 ([' '].intercalate (texts info.fields)) ++ [0]) := by
  unfold encode at h
  split at h
  · cases h
  · rename_i hne
    split at h
    · cases h
    · rename_i hzero
      cases h
      refine ⟨?_, hzero, rfl⟩
      intro hnil
      rw [hnil] at hne
      exact hne rfl

theorem encode_eq_ok (hne : Codec.bytesOf info.name ≠ []) (hzero : 0 ∉ Codec.bytesOf info.name) :
    exists bytes, info.encode = .ok bytes := by
  unfold encode
  rw [if_neg, if_neg hzero]
  · exact ⟨_, rfl⟩
  · intro hempty
    exact hne (List.isEmpty_iff.mp hempty)

theorem split_at_zero {front : Bytes} (h : 0 ∉ front) (rest : Bytes) :
    (front ++ 0 :: rest).takeWhile (fun b => b ≠ 0) = front ∧
      (front ++ 0 :: rest).dropWhile (fun b => b ≠ 0) = 0 :: rest := by
  have hfront : forall b, b ∈ front -> decide (b ≠ 0) = true := by
    intro b hb
    apply decide_eq_true
    rintro rfl
    exact h hb
  constructor
  · rw [takeWhile_append_of_pos hfront, takeWhile_cons_of_neg (by decide),
      append_nil]
  · rw [dropWhile_append_of_pos hfront, dropWhile_cons_of_neg (by decide)]

theorem zero_not_mem_utf8 (h : forall c, c ∈ text -> c ≠ '\x00') : 0 ∉ utf8 text := by
  intro hmem
  rcases mem_flatMap.mp hmem with ⟨c, hc, hbyte⟩
  exact not_mem_utf8EncodeChar (by decide) (h c hc) hbyte

theorem decode_written {name : String} (hne : Codec.bytesOf name ≠ [])
    (hzero : 0 ∉ Codec.bytesOf name) (htext : forall c, c ∈ text -> c ≠ '\x00') :
    decode (Codec.bytesOf name ++ 0 :: (utf8 text ++ [0])) =
      ofTexts name (splitAsciiWhitespace text) := by
  rcases split_at_zero hzero (utf8 text ++ [0]) with ⟨hfront, hback⟩
  rcases split_at_zero (zero_not_mem_utf8 htext) [] with ⟨hinfo, _⟩
  unfold decode
  rw [if_neg]
  · simp only [hfront, hback, tail_cons, hinfo, fromUtf8Lossy_utf8, Codec.textOf?_bytesOf]
    rw [if_neg]
    · rfl
    · intro hempty
      exact hne (List.isEmpty_iff.mp hempty)
  · rw [not_not]
    exact mem_append_right _ mem_cons_self

/-- Words of which each is there only when the one before it is. -/
theorem ofTexts_ok {name : String} {texts : List (List Char)} (h : ofTexts name texts = .ok info) :
    info.name = name ∧ info.filled = info := by
  have hpresent : forall text field radix (v? : Option UInt64),
      parseField text field radix = .ok v? -> v?.isSome = text.isSome := by
    intro text field radix v? hparse
    unfold parseField at hparse
    split at hparse
    · cases hparse
      rfl
    · split at hparse
      · cases hparse
      · cases hparse
        rfl
  unfold ofTexts at h
  cases hlength : parseField (texts[0]?) "length" 10 with
  | error e =>
      rw [hlength] at h
      cases h
  | ok length =>
  cases hmtime : parseField (texts[1]?) "mtime" 8 with
  | error e =>
      rw [hlength, hmtime] at h
      cases h
  | ok mtime =>
  cases hmode : parseField (texts[2]?) "mode" 8 with
  | error e =>
      rw [hlength, hmtime, hmode] at h
      cases h
  | ok mode =>
  cases hserial : parseField (texts[3]?) "serial" 8 with
  | error e =>
      rw [hlength, hmtime, hmode, hserial] at h
      cases h
  | ok serial =>
  rw [hlength, hmtime, hmode, hserial] at h
  cases h
  refine ⟨rfl, ?_⟩
  have hzero := hpresent _ _ _ _ hlength
  have hone := hpresent _ _ _ _ hmtime
  have htwo := hpresent _ _ _ _ hmode
  have hthree := hpresent _ _ _ _ hserial
  have hat : forall i, (texts[i]?).isSome = decide (i < texts.length) := by
    intro i
    rcases Nat.lt_or_ge i texts.length with hlt | hge
    · rw [getElem?_eq_getElem hlt, decide_eq_true hlt]
      rfl
    · rw [getElem?_eq_none hge, decide_eq_false (Nat.not_lt.mpr hge)]
      rfl
  rw [hat] at hzero hone htwo hthree
  unfold filled
  simp only [Option.isSome_map, hone, htwo, hthree]
  rw [orZero_eq, orZero_eq, orZero_eq]
  · rw [Option.isSome_map, htwo, decide_eq_true_iff, decide_eq_true_iff]
    omega
  · rw [hone, Bool.or_eq_true, decide_eq_true_iff, decide_eq_true_iff, decide_eq_true_iff]
    omega
  · rw [hzero, Bool.or_eq_true, Bool.or_eq_true, decide_eq_true_iff, decide_eq_true_iff,
      decide_eq_true_iff, decide_eq_true_iff]
    omega

theorem decode_ok {payload : Bytes} (h : decode payload = .ok info) :
    Codec.bytesOf info.name ≠ [] ∧ 0 ∉ Codec.bytesOf info.name ∧ info.filled = info := by
  unfold decode at h
  split at h
  · cases h
  · simp only at h
    split at h
    · cases h
    · rename_i hne
      split at h
      · cases h
      · rename_i name hname
        rcases ofTexts_ok h with ⟨hsame, hfilled⟩
        have hbytes := Codec.bytesOf_of_textOf? hname
        rw [hsame, hbytes]
        refine ⟨?_, ?_, hfilled⟩
        · intro hnil
          rw [hnil] at hne
          exact hne rfl
        · intro hmem
          have hnot := mem_takeWhile_imp hmem
          simp only [ne_eq, not_true_eq_false, decide_false, Bool.false_eq_true] at hnot

theorem decode_encode {bytes : Bytes} (h : info.encode = .ok bytes) :
    decode bytes = .ok info.filled := by
  rcases encode_ok h with ⟨hne, hzero, rfl⟩
  have hdigits : forall text, text ∈ texts info.fields -> Digits text := fun _ ht => digits_texts ht
  rw [decode_written hne hzero]
  · rw [splitAsciiWhitespace_intercalate, ofTexts_texts]
    intro text ht
    rcases hdigits text ht with ⟨hnonempty, hrange⟩
    exact ⟨hnonempty, fun c hc => digit_not_whitespace (hrange c hc)⟩
  · intro c hc hnul
    rcases mem_intercalate hc with hsep | ⟨text, ht, hin⟩
    · rw [hnul] at hsep
      revert hsep
      decide
    · have hrange := (hdigits text ht).right c hin
      rw [hnul] at hrange
      revert hrange
      decide

end FileInfo

/-- Offers round-trip, up to numbers left out before another; what was read once does so
exactly. -/
theorem file_info_round_trips :
    (forall info bytes, FileInfo.encode info = .ok bytes ->
      FileInfo.decode bytes = .ok info.filled) ∧
    forall payload info, FileInfo.decode payload = .ok info ->
      exists bytes, info.encode = .ok bytes ∧ FileInfo.decode bytes = .ok info := by
  constructor
  · exact fun info bytes h => FileInfo.decode_encode h
  · intro payload info h
    rcases FileInfo.decode_ok h with ⟨hne, hzero, hfilled⟩
    rcases FileInfo.encode_eq_ok hne hzero with ⟨bytes, hbytes⟩
    have hback := FileInfo.decode_encode hbytes
    rw [hfilled] at hback
    exact ⟨bytes, hbytes, hback⟩

def timed : FileInfo :=
  ⟨"a", none, some 5, none, none⟩

theorem file_info_round_trips_timed :
    FileInfo.encode timed = .ok [97, 0, 48, 32, 53, 0] ∧
      FileInfo.decode [97, 0, 48, 32, 53, 0] = .ok ⟨"a", some 0, some 5, none, none⟩ := by
  have hencode : FileInfo.encode timed = .ok [97, 0, 48, 32, 53, 0] := by decide
  exact ⟨hencode, file_info_round_trips.left _ _ hencode⟩

end Rabbithole.Zmodem
