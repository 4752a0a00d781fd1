import Rabbithole.Foundation.Lines
import Rabbithole.Qwk.Packet

/-!
# Reading the manifest

The manifest is written in UTF-8 and read in Latin-1, line by line.  One line says how many
pairs of lines behind it are conferences, and room is made for as many before any of them is
looked at.
-/

namespace Rabbithole.Qwk

open Foundation List

inductive ControlError where
  | truncated (field : String)
  | notNumeric (field : String) (value : List Char)
deriving DecidableEq

def u16Max : Nat := 2 ^ 16 - 1

def u32Max : Nat := 2 ^ 32 - 1

def i64Max : Nat := 2 ^ 63 - 1

def parseSigned (max : Nat) (s : List Char) : Option Int :=
  match s with
  | '-' :: '+' :: _ => none
  | '-' :: digits => (parseUnsigned (max + 1) digits).map (fun n => -(n : Int))
  | _ => (parseUnsigned max s).map Int.ofNat

namespace ControlDat

def controlLines (bytes : Bytes) : List (List Char) :=
  ((decodeLatin1 bytes).splitOn '\n').map stripCarriage

def line (ls : List (List Char)) (i : Nat) (field : String) : Except ControlError (List Char) :=
  match ls[i]? with
  | some l => .ok l
  | none => .error (.truncated field)

def numeric {number : Type} (field : String) (value : List Char)
    (parse : List Char -> Option number) : Except ControlError number :=
  match parse (trimText value) with
  | some n => .ok n
  | none => .error (.notNumeric field value)

/-- The lines up to the count of the conferences, and the highest index that it says. -/
def readHeader (ls : List (List Char)) : Except ControlError (ControlDat × Int) := do
  let bbsName ← line ls 0 "BBS name"
  let cityState ← line ls 1 "city/state"
  let phone ← line ls 2 "phone"
  let sysop ← line ls 3 "sysop"
  let serialLine ← line ls 4 "serial/BBS id"
  let serialAndId := (splitOnce ',' serialLine).getD (serialLine, [])
  let date ← line ls 5 "date"
  let username ← line ls 6 "user name"
  let totalField ← line ls 9 "total messages"
  let totalMessages ← numeric "total messages" totalField (parseUnsigned u32Max)
  let confField ← line ls 10 "conference count"
  let highest ← numeric "conference count" confField (parseSigned i64Max)
  return ({
    bbsName := bbsName
    cityState := cityState
    phone := phone
    sysop := sysop
    serial := serialAndId.fst
    bbsId := serialAndId.snd
    date := date
    username := username
    totalMessages := UInt32.ofNat totalMessages }, highest)

/-- So many conferences, and the lines behind them. -/
def readConferences : Nat -> List (List Char) ->
    Except ControlError (List (UInt16 × List Char) × List (List Char))
  | 0, rest => .ok ([], rest)
  | _ + 1, [] => .error (.truncated "conference number")
  | _ + 1, [_] => .error (.truncated "conference name")
  | count + 1, num :: name :: rest => do
      let number ← numeric "conference number" num (parseUnsigned u16Max)
      let more ← readConferences count rest
      return ((UInt16.ofNat number, name) :: more.fst, more.snd)

/-- How a call ends, and for how many conferences it has made room. -/
inductive Outcome where
  | overflow
  | done (room : Nat) (result : Except ControlError ControlDat)

def parse (bytes : Bytes) : Outcome :=
  match readHeader (controlLines bytes) with
  | .error e => .done 0 (.error e)
  | .ok (control, highest) =>
      -- the addition is made in 64 bits, and not at all below zero
      if 0 <= highest ∧ (i64Max : Int) < highest + 1 then .overflow
      else
        let confCount := if highest < 0 then 0 else (highest + 1).toNat
        .done confCount ((readConferences confCount ((controlLines bytes).drop 11)).map
          (fun read =>
            { control with
              conferences := read.fst
              files := read.snd.filter (fun l => !l.isEmpty) }))

/-!
## A text that is read in the other encoding
-/

def reread (s : List Char) : List Char :=
  decodeLatin1 (utf8 s)

def AsciiText (s : List Char) : Prop :=
  forall c, c ∈ s -> c.val.toNat <= 127

theorem reread_append (s t : List Char) : reread (s ++ t) = reread s ++ reread t := by
  unfold reread decodeLatin1
  rw [utf8_append, map_append]

theorem reread_cons (c : Char) (s : List Char) :
    reread (c :: s) = decodeLatin1 (String.utf8EncodeChar c) ++ reread s := by
  unfold reread decodeLatin1
  rw [← map_append]
  rfl

theorem decodeLatin1_ascii {c : Char} (h : c.val.toNat <= 127) :
    decodeLatin1 (String.utf8EncodeChar c) = [c] := by
  unfold decodeLatin1
  rw [utf8EncodeChar_ascii h, map_singleton, toNat_asciiByte h]
  show [Char.ofNat c.toNat] = [c]
  rw [Char.ofNat_toNat]

variable {s : List Char} {control : ControlDat} {ls : List (List Char)}

theorem reread_of_ascii (h : AsciiText s) : reread s = s := by
  induction s with
  | nil => rfl
  | cons c s ih =>
      rw [reread_cons, decodeLatin1_ascii (h c mem_cons_self),
        ih fun d hd => h d (mem_cons_of_mem c hd)]
      rfl

theorem mem_of_mem_reread {c : Char} (hc : c.val.toNat <= 127) (h : c ∈ reread s) : c ∈ s := by
  unfold reread decodeLatin1 utf8 at h
  obtain ⟨b, hb, rfl⟩ := mem_map.mp h
  obtain ⟨d, hd, hbd⟩ := mem_flatMap.mp hb
  rcases Nat.lt_or_ge 127 d.val.toNat with hwide | hnarrow
  · have hbig := le_of_mem_utf8EncodeChar hwide hbd
    have hsame : (Char.ofNat b.toNat).val.toNat = b.toNat := toNat_ofNat_byte b
    rw [hsame] at hc
    exact absurd hc (Nat.not_le.mpr hbig)
  · have hself : Char.ofNat b.toNat ∈ decodeLatin1 (String.utf8EncodeChar d) :=
      mem_map_of_mem hbd
    rw [decodeLatin1_ascii hnarrow, mem_singleton] at hself
    rw [hself]
    exact hd

theorem length_le_length_utf8 (s : List Char) : s.length <= (utf8 s).length := by
  induction s with
  | nil => exact Nat.le_refl 0
  | cons c s ih =>
      have hsize : (utf8 (c :: s)).length = c.utf8Size + (utf8 s).length := by
        show (String.utf8EncodeChar c ++ utf8 s).length = _
        rw [length_append, String.length_utf8EncodeChar]
      have hpos := c.utf8Size_pos
      rw [hsize, length_cons]
      omega

theorem ascii_of_length (h : (utf8 s).length = s.length) : AsciiText s := by
  induction s with
  | nil => exact fun c hc => absurd hc not_mem_nil
  | cons c s ih =>
      have hsize : (utf8 (c :: s)).length = c.utf8Size + (utf8 s).length := by
        show (String.utf8EncodeChar c ++ utf8 s).length = _
        rw [length_append, String.length_utf8EncodeChar]
      have hpos := c.utf8Size_pos
      have hrest := length_le_length_utf8 s
      rw [hsize, length_cons] at h
      have hone : c.utf8Size = 1 := by omega
      intro d hd
      rcases mem_cons.mp hd with rfl | hmem
      · exact UInt32.le_iff_toNat_le.mp (Char.utf8Size_eq_one_iff.mp hone)
      · exact ih (by omega) d hmem

theorem reread_eq_self : reread s = s ↔ AsciiText s := by
  constructor
  · intro h
    apply ascii_of_length
    have hlength := congrArg List.length h
    unfold reread decodeLatin1 at hlength
    rw [length_map] at hlength
    exact hlength
  · exact reread_of_ascii

theorem reread_eq_nil (h : reread s = []) : s = [] := by
  have hlength := length_le_length_utf8 s
  have hnil := congrArg List.length h
  unfold reread decodeLatin1 at hnil
  rw [length_map, length_nil] at hnil
  exact length_eq_zero_iff.mp (by omega)

/-!
## The lines of what was written
-/

theorem controlLines_utf8 (h : forall l, l ∈ ls -> '\n' ∉ l) :
    controlLines (utf8 (ls.flatMap (fun l => l ++ lineEnd))) = ls.map reread ++ [[]] := by
  have htext : decodeLatin1 (utf8 (ls.flatMap (fun l => l ++ lineEnd))) =
      closed (ls.map (fun l => reread l ++ ['\r'])) := by
    clear h
    induction ls with
    | nil => rfl
    | cons l ls ih =>
        have hend : reread lineEnd = lineEnd := rfl
        show reread (l ++ lineEnd ++ ls.flatMap _) = _
        rw [reread_append, reread_append, hend]
        show _ = (reread l ++ ['\r']) ++ ['\n'] ++ closed (ls.map _)
        rw [← ih, append_assoc (reread l) ['\r'] ['\n']]
        rfl
  have hsplit : (closed (ls.map (fun l => reread l ++ ['\r']))).splitOn '\n' =
      ls.map (fun l => reread l ++ ['\r']) ++ [[]] := by
    rw [closed_eq_joined]
    apply splitOn_joined (append_ne_nil_of_right_ne_nil _ (cons_ne_nil _ _))
    intro column hcolumn
    rcases mem_append.mp hcolumn with hmem | hempty
    · obtain ⟨l, hl, rfl⟩ := mem_map.mp hmem
      intro hnewline
      rcases mem_append.mp hnewline with hin | hreturn
      · exact h l hl (mem_of_mem_reread (by decide) hin)
      · exact absurd (mem_singleton.mp hreturn) (by decide)
    · rw [mem_singleton.mp hempty]
      exact not_mem_nil
  have hstrip : forall l, stripCarriage (reread l ++ ['\r']) = reread l := by
    intro l
    unfold stripCarriage
    rw [if_pos (getLast?_concat), dropLast_concat]
  unfold controlLines
  rw [htext, hsplit, map_append, map_map]
  congr 1
  exact map_congr_left fun l _ => hstrip l

theorem reread_decimal (n : Nat) : reread (decimal n) = decimal n := by
  apply reread_of_ascii
  intro c hc
  have hdigit := toNat_of_toDigit ((digits_toDigits n).right c hc)
  exact Nat.le_trans hdigit.right (by decide)

theorem parseSigned_decimal (max n : Nat) :
    parseSigned max (trimText (decimal n)) = if n <= max then some (n : Int) else none := by
  have hsign : forall rest, decimal n ≠ '-' :: rest := by
    intro rest heq
    have hmem : '-' ∈ Nat.toDigits 10 n := by
      rw [show Nat.toDigits 10 n = _ from heq]
      exact mem_cons_self
    exact absurd (toNat_of_toDigit ((digits_toDigits n).right '-' hmem)).left (by decide)
  have hunsigned : parseSigned max (decimal n) = (parseUnsigned max (decimal n)).map Int.ofNat := by
    unfold parseSigned
    split
    · rename_i heq
      exact absurd heq (hsign _)
    · rename_i heq
      exact absurd heq (hsign _)
    · rfl
  rw [show trimText (decimal n) = decimal n from trimText_toDigits n, hunsigned]
  split
  · rename_i hle
    rw [show parseUnsigned max (decimal n) = some n from parseUnsigned_toDigits hle]
    rfl
  · rename_i hnot
    have hwide : parseUnsigned n (decimal n) = some n := parseUnsigned_toDigits (Nat.le_refl n)
    rw [parseUnsigned_of_lt hwide (Nat.not_le.mp hnot)]
    rfl

/-!
## What comes of what was written
-/

/-- The texts of a manifest. -/
def texts (control : ControlDat) : List (List Char) :=
  [control.bbsName, control.cityState, control.phone, control.sysop, control.serial,
    control.bbsId, control.date, control.username] ++
  control.conferences.map Prod.snd ++ control.files

/-- What can be told apart by lines and commas. -/
structure Writable (control : ControlDat) : Prop where
  conferences : control.conferences ≠ []
  latin1 : forall s, s ∈ control.texts -> Latin1 s
  lines : forall s, s ∈ control.texts -> '\n' ∉ s ∧ '\r' ∉ s
  serial : ',' ∉ control.serial
  files : forall s, s ∈ control.files -> s ≠ []

def mapTexts (f : List Char -> List Char) (control : ControlDat) : ControlDat where
  bbsName := f control.bbsName
  cityState := f control.cityState
  phone := f control.phone
  sysop := f control.sysop
  serial := f control.serial
  bbsId := f control.bbsId
  date := f control.date
  username := f control.username
  totalMessages := control.totalMessages
  conferences := control.conferences.map (fun c => (c.fst, f c.snd))
  files := control.files.map f

theorem map_eq_self {item : Type} {f : item -> item} {l : List item} :
    l.map f = l ↔ forall a, a ∈ l -> f a = a := by
  have hid := @List.map_inj_left item item l f id
  rw [map_id] at hid
  exact hid

theorem mapTexts_eq_self {f : List Char -> List Char} :
    control.mapTexts f = control ↔ forall s, s ∈ control.texts -> f s = s := by
  constructor
  · intro h s hs
    rcases mem_append.mp hs with hs | hfile
    · rcases mem_append.mp hs with hfield | hname
      · simp only [mem_cons, not_mem_nil, or_false] at hfield
        rcases hfield with rfl | rfl | rfl | rfl | rfl | rfl | rfl | rfl
        · exact congrArg bbsName h
        · exact congrArg cityState h
        · exact congrArg phone h
        · exact congrArg sysop h
        · exact congrArg ControlDat.serial h
        · exact congrArg bbsId h
        · exact congrArg date h
        · exact congrArg username h
      · obtain ⟨c, hc, rfl⟩ := mem_map.mp hname
        have hall : control.conferences.map (fun c => (c.fst, f c.snd)) = control.conferences :=
          congrArg ControlDat.conferences h
        exact congrArg Prod.snd (map_eq_self.mp hall c hc)
    · have hall : control.files.map f = control.files := congrArg ControlDat.files h
      exact map_eq_self.mp hall s hfile
  · intro h
    have hfield : forall s, s ∈ [control.bbsName, control.cityState, control.phone, control.sysop,
        control.serial, control.bbsId, control.date, control.username] -> f s = s := fun s hs =>
      h s (mem_append_left _ (mem_append_left _ hs))
    have hnames : control.conferences.map (fun c => (c.fst, f c.snd)) = control.conferences := by
      rw [map_eq_self]
      intro c hc
      rw [h c.snd (mem_append_left _ (mem_append_right _ (mem_map_of_mem hc)))]
    have hfiles : control.files.map f = control.files := by
      rw [map_eq_self]
      exact fun s hs => h s (mem_append_right _ hs)
    simp only [forall_mem_cons, not_mem_nil, false_implies, implies_true, and_true] at hfield
    obtain ⟨h1, h2, h3, h4, h5, h6, h7, h8⟩ := hfield
    unfold mapTexts
    rw [h1, h2, h3, h4, h5, h6, h7, h8, hnames, hfiles]

theorem readConferences_lines (pairs : List (UInt16 × List Char)) (rest : List (List Char)) :
    readConferences pairs.length
      (pairs.flatMap (fun c => [decimal c.fst.toNat, c.snd]) ++ rest) = .ok (pairs, rest) := by
  induction pairs with
  | nil => rfl
  | cons c pairs ih =>
      have hnumber : numeric "conference number" (decimal c.fst.toNat) (parseUnsigned u16Max) =
          .ok c.fst.toNat := by
        have hparse : parseUnsigned u16Max (decimal c.fst.toNat) = some c.fst.toNat :=
          parseUnsigned_toDigits (Nat.le_of_lt_succ c.fst.toNat_lt)
        unfold numeric
        rw [show trimText (decimal c.fst.toNat) = _ from trimText_toDigits _]
        simp only [show Nat.toDigits 10 c.fst.toNat = decimal c.fst.toNat from rfl, hparse]
      rw [flatMap_cons, append_assoc]
      show (numeric "conference number" (decimal c.fst.toNat) (parseUnsigned u16Max) >>=
        fun number => readConferences pairs.length
            (pairs.flatMap (fun c => [decimal c.fst.toNat, c.snd]) ++ rest) >>= fun more =>
          Except.ok ((UInt16.ofNat number, c.snd) :: more.fst, more.snd)) = _
      rw [hnumber, ih]
      show Except.ok ((UInt16.ofNat c.fst.toNat, c.snd) :: pairs, rest) = _
      rw [UInt16.ofNat_toNat]

theorem bind_eq_ok {error read value : Type} {x : Except error read}
    {f : read -> Except error value} {v : value} :
    (x >>= f) = .ok v ↔ exists r, x = .ok r ∧ f r = .ok v := by
  cases x with
  | error e => exact ⟨nofun, nofun⟩
  | ok r =>
      constructor
      · intro h
        exact ⟨r, rfl, h⟩
      · rintro ⟨r', hr, h⟩
        cases hr
        exact h

theorem line_eq_ok {i : Nat} {field : String} {l : List Char} :
    line ls i field = .ok l ↔ ls[i]? = some l := by
  unfold line
  cases ls[i]? with
  | none => exact ⟨nofun, nofun⟩
  | some l' => exact ⟨fun h => congrArg some (Except.ok.inj h), fun h => congrArg _ (Option.some.inj h)⟩

theorem numeric_eq_ok {number : Type} {field : String} {value : List Char}
    {parse : List Char -> Option number} {n : number} :
    numeric field value parse = .ok n ↔ parse (trimText value) = some n := by
  unfold numeric
  cases parse (trimText value) with
  | none => exact ⟨nofun, nofun⟩
  | some n' => exact ⟨fun h => congrArg some (Except.ok.inj h), fun h => congrArg _ (Option.some.inj h)⟩

/-!
## The count
-/

/-- The count of the conferences, where it is looked at and is a number, says fewer than there
are lines. -/
def CountFits (ls : List (List Char)) : Prop :=
  forall total count, ls[9]? = some total -> (parseUnsigned u32Max (trimText total)).isSome ->
    ls[10]? = some count -> forall n, parseSigned i64Max (trimText count) = some n ->
      n < ls.length ∧ n < i64Max

theorem readHeader_eq_ok {n : Int} : (exists control, readHeader ls = .ok (control, n)) ↔
      exists total count, ls[9]? = some total ∧ (parseUnsigned u32Max (trimText total)).isSome ∧
        ls[10]? = some count ∧ parseSigned i64Max (trimText count) = some n := by
  unfold readHeader
  simp only [bind_eq_ok, line_eq_ok, numeric_eq_ok]
  constructor
  · rintro ⟨control, name, hname, city, hcity, phone, hphone, sysop, hsysop, serial, hserial,
      date, hdate, user, huser, total, htotal, number, hnumber, count, hcount, highest, hhighest,
      hread⟩
    cases hread
    exact ⟨total, count, htotal, by rw [hnumber]; rfl, hcount, hhighest⟩
  · rintro ⟨total, count, htotal, hnumber, hcount, hhighest⟩
    have hlength : 10 < ls.length := (List.getElem?_eq_some_iff.mp hcount).fst
    have hline : forall i, i < 10 -> exists l, ls[i]? = some l := fun i hi =>
      ⟨_, getElem?_eq_getElem (Nat.lt_trans hi hlength)⟩
    obtain ⟨name, hname⟩ := hline 0 (by decide)
    obtain ⟨city, hcity⟩ := hline 1 (by decide)
    obtain ⟨phone, hphone⟩ := hline 2 (by decide)
    obtain ⟨sysop, hsysop⟩ := hline 3 (by decide)
    obtain ⟨serial, hserial⟩ := hline 4 (by decide)
    obtain ⟨date, hdate⟩ := hline 5 (by decide)
    obtain ⟨user, huser⟩ := hline 6 (by decide)
    obtain ⟨number, hnumber⟩ := Option.isSome_iff_exists.mp hnumber
    exact ⟨_, name, hname, city, hcity, phone, hphone, sysop, hsysop, serial, hserial,
      date, hdate, user, huser, total, htotal, number, hnumber, count, hcount, n, hhighest, rfl⟩

theorem parse_bounded (bytes : Bytes) :
    (exists room result, parse bytes = .done room result ∧
      room <= (controlLines bytes).length) ↔ CountFits (controlLines bytes) := by
  generalize hls : controlLines bytes = ls
  unfold parse
  rw [hls]
  constructor
  · rintro ⟨room, result, hdone, hroom⟩ total count htotal hnumber hcount n hn
    obtain ⟨control, hread⟩ := readHeader_eq_ok.mpr ⟨total, count, htotal, hnumber, hcount, hn⟩
    rw [hread] at hdone
    dsimp only at hdone
    split at hdone
    · contradiction
    · rename_i hfits
      cases hdone
      split at hroom
      · omega
      · omega
  · intro h
    cases hread : readHeader ls with
    | error e => exact ⟨0, .error e, rfl, Nat.zero_le _⟩
    | ok read =>
        obtain ⟨control, n⟩ := read
        obtain ⟨total, count, htotal, hnumber, hcount, hn⟩ := readHeader_eq_ok.mp ⟨control, hread⟩
        obtain ⟨hlines, hmax⟩ := h total count htotal hnumber hcount n hn
        have hfits : ¬ (0 <= n ∧ (i64Max : Int) < n + 1) := by omega
        dsimp only
        rw [if_neg hfits]
        refine ⟨_, _, rfl, ?_⟩
        split
        · exact Nat.zero_le _
        · omega

/-!
## Both together
-/

/-- The lines up to the count. -/
def headerLines (control : ControlDat) : List (List Char) :=
  [control.bbsName, control.cityState, control.phone, control.sysop,
    control.serial ++ ",".toList ++ control.bbsId, control.date, control.username,
    "0".toList, "0".toList, decimal control.totalMessages.toNat,
    decimal (control.conferences.length - 1)]

theorem lines_eq (control : ControlDat) : control.lines =
    control.headerLines ++ (control.conferences.flatMap (fun c => [decimal c.fst.toNat, c.snd]) ++
      control.files) :=
  append_assoc _ _ _

theorem numeric_count (n : Nat) :
    numeric "conference count" (decimal n) (parseSigned i64Max) =
      if n <= i64Max then .ok (n : Int) else .error (.notNumeric "conference count" (decimal n)) := by
  unfold numeric
  rw [parseSigned_decimal]
  by_cases hn : n <= i64Max
  · rw [if_pos hn, if_pos hn]
  · rw [if_neg hn, if_neg hn]

theorem readHeader_headerLines (hserial : ',' ∉ control.serial) (rest : List (List Char)) :
    readHeader (control.headerLines ++ rest) =
      if control.conferences.length - 1 <= i64Max then
        .ok ({ control with conferences := [], files := [] },
          ((control.conferences.length - 1 : Nat) : Int))
      else .error (.notNumeric "conference count" (decimal (control.conferences.length - 1))) := by
  have htotal : numeric "total messages" (decimal control.totalMessages.toNat)
      (parseUnsigned u32Max) = .ok control.totalMessages.toNat := by
    apply numeric_eq_ok.mpr
    rw [show trimText (decimal _) = decimal _ from trimText_toDigits _]
    exact parseUnsigned_toDigits (Nat.le_of_lt_succ control.totalMessages.toNat_lt)
  have hcomma : splitOnce ',' (control.serial ++ ",".toList ++ control.bbsId) =
      some (control.serial, control.bbsId) := by
    rw [append_assoc]
    exact splitOnce_append control.bbsId hserial
  have hback : UInt32.ofNat control.totalMessages.toNat = control.totalMessages :=
    UInt32.ofNat_toNat
  show (numeric "total messages" (decimal control.totalMessages.toNat) (parseUnsigned u32Max) >>=
    fun total => numeric "conference count" (decimal (control.conferences.length - 1))
      (parseSigned i64Max) >>= fun highest => Except.ok (_, highest)) = _
  rw [htotal]
  show (numeric "conference count" (decimal (control.conferences.length - 1))
    (parseSigned i64Max) >>= fun highest => Except.ok (_, highest)) = _
  rw [hcomma, hback, numeric_count]
  split
  · rfl
  · rfl

theorem lines_mapTexts (control : ControlDat) :
    (control.mapTexts reread).lines = control.lines.map reread := by
  have hconferences : forall pairs : List (UInt16 × List Char),
      (pairs.map (fun c => (c.fst, reread c.snd))).flatMap
          (fun c => [decimal c.fst.toNat, c.snd]) =
        (pairs.flatMap (fun c => [decimal c.fst.toNat, c.snd])).map reread := by
    intro pairs
    induction pairs with
    | nil => rfl
    | cons c pairs ih =>
        rw [map_cons, flatMap_cons, flatMap_cons, map_append, ih,
          map_cons, map_cons, map_nil, reread_decimal]
  have hheader : (control.mapTexts reread).headerLines = control.headerLines.map reread := by
    unfold headerLines mapTexts
    simp only [map_cons, map_nil, length_map, reread_append, reread_decimal]
    rfl
  rw [lines_eq, lines_eq, map_append, map_append, hheader, ← hconferences]
  rfl

theorem no_newline (h : Writable control) : forall l, l ∈ control.lines -> '\n' ∉ l := by
  have hdecimal : forall n, '\n' ∉ decimal n := by
    intro n hmem
    have hlow := (toNat_of_toDigit ((digits_toDigits n).right '\n' hmem)).left
    exact absurd hlow (by decide)
  have hfield : forall s, s ∈ [control.bbsName, control.cityState, control.phone, control.sysop,
      control.serial, control.bbsId, control.date, control.username] -> '\n' ∉ s := fun s hs =>
    (h.lines s (mem_append_left _ (mem_append_left _ hs))).left
  intro l hl
  rw [lines_eq, mem_append, mem_append] at hl
  rcases hl with hheader | hconference | hfile
  · unfold headerLines at hheader
    simp only [forall_mem_cons, not_mem_nil, false_implies, implies_true, and_true] at hfield
    obtain ⟨h1, h2, h3, h4, h5, h6, h7, h8⟩ := hfield
    simp only [mem_cons, not_mem_nil, or_false] at hheader
    rcases hheader with rfl | rfl | rfl | rfl | rfl | rfl | rfl | rfl | rfl | rfl | rfl
    · exact h1
    · exact h2
    · exact h3
    · exact h4
    · intro hmem
      rcases mem_append.mp hmem with hmem | hid
      · rcases mem_append.mp hmem with hserial | hcomma
        · exact h5 hserial
        · exact absurd hcomma (by decide)
      · exact h6 hid
    · exact h7
    · exact h8
    · decide
    · decide
    · exact hdecimal _
    · exact hdecimal _
  · obtain ⟨c, hc, hmem⟩ := mem_flatMap.mp hconference
    rcases mem_cons.mp hmem with rfl | hname
    · exact hdecimal _
    · rw [mem_singleton.mp hname]
      exact (h.lines c.snd (mem_append_left _
        (mem_append_right _ (mem_map_of_mem hc)))).left
  · exact (h.lines l (mem_append_right _ hfile)).left

/-- Every text is read in the other encoding.  A count that does not fit into 64 bits is no
number, and the largest one leaves no room for the one that is added. -/
theorem parse_toBytes (h : Writable control) :
    parse control.toBytes =
      if control.conferences.length <= i64Max then
        .done control.conferences.length (.ok (control.mapTexts reread))
      else if control.conferences.length - 1 = i64Max then .overflow
      else .done 0 (.error (.notNumeric "conference count"
        (decimal (control.conferences.length - 1)))) := by
  have hone : 1 <= control.conferences.length := length_pos_of_ne_nil h.conferences
  generalize hread : control.mapTexts reread = read
  have hcount : read.conferences.length = control.conferences.length := by
    rw [← hread]
    exact length_map _
  have hserial : ',' ∉ read.serial := by
    rw [← hread]
    exact fun hmem => h.serial (mem_of_mem_reread (by decide) hmem)
  have hfiles : (read.files ++ [[]]).filter (fun l => !l.isEmpty) = read.files := by
    rw [filter_append, filter_eq_self.mpr, filter_cons_of_neg (by decide),
      filter_nil, append_nil]
    rw [← hread]
    intro l hl
    obtain ⟨s, hs, rfl⟩ := mem_map.mp hl
    have hne : reread s ≠ [] := fun hnil => h.files s hs (reread_eq_nil hnil)
    cases hs' : reread s with
    | nil => exact absurd hs' hne
    | cons c rest => rfl
  have hlines : controlLines control.toBytes = read.headerLines ++
      (read.conferences.flatMap (fun c => [decimal c.fst.toNat, c.snd]) ++
        (read.files ++ [[]])) := by
    unfold toBytes
    rw [controlLines_utf8 (no_newline h), ← lines_mapTexts, hread, lines_eq, append_assoc,
      append_assoc]
  have hrest : (controlLines control.toBytes).drop 11 =
      read.conferences.flatMap (fun c => [decimal c.fst.toNat, c.snd]) ++
        (read.files ++ [[]]) := by
    rw [hlines]
    rfl
  have hheader := readHeader_headerLines hserial
    (read.conferences.flatMap (fun c => [decimal c.fst.toNat, c.snd]) ++ (read.files ++ [[]]))
  rw [← hlines, hcount] at hheader
  unfold parse
  rw [hheader, hrest]
  by_cases hfits : control.conferences.length <= i64Max
  · have hless : control.conferences.length - 1 <= i64Max := by omega
    have hsmall : ¬ (0 <= ((control.conferences.length - 1 : Nat) : Int) ∧
        (i64Max : Int) < ((control.conferences.length - 1 : Nat) : Int) + 1) := by omega
    have hback : (((control.conferences.length - 1 : Nat) : Int) + 1).toNat =
        read.conferences.length := by omega
    have hpositive : ¬ ((control.conferences.length - 1 : Nat) : Int) < 0 := by omega
    rw [if_pos hless, if_pos hfits]
    dsimp only
    rw [if_neg hsmall, if_neg hpositive, hback, readConferences_lines]
    dsimp only [Except.map]
    rw [hfiles, hcount]
  · rw [if_neg hfits]
    by_cases hlast : control.conferences.length - 1 = i64Max
    · have hlarge : 0 <= ((control.conferences.length - 1 : Nat) : Int) ∧
          (i64Max : Int) < ((control.conferences.length - 1 : Nat) : Int) + 1 := by omega
      rw [if_pos (Nat.le_of_eq hlast), if_pos hlast]
      dsimp only
      rw [if_pos hlarge]
    · have hmore : ¬ control.conferences.length - 1 <= i64Max := by omega
      rw [if_neg hmore, if_neg hlast]

def oneConference (bbsName : List Char) : ControlDat where
  bbsName := bbsName
  conferences := [(0, "Main".toList)]

theorem texts_oneConference {bbsName : List Char} (hs : s ∈ (oneConference bbsName).texts) :
    s = bbsName ∨ s = [] ∨ s = "Main".toList := by
  unfold texts oneConference at hs
  simp only [map_cons, map_nil, cons_append, nil_append, mem_cons, not_mem_nil, or_false] at hs
  tauto

theorem writable_oneConference {bbsName : List Char} (hlatin1 : Latin1 bbsName)
    (hlines : '\n' ∉ bbsName ∧ '\r' ∉ bbsName) : Writable (oneConference bbsName) where
  conferences := cons_ne_nil _ _
  latin1 := by
    intro s hs
    rcases texts_oneConference hs with rfl | rfl | rfl
    · exact hlatin1
    · exact fun c hc => absurd hc not_mem_nil
    · exact of_decide_eq_true rfl
  lines := by
    intro s hs
    rcases texts_oneConference hs with rfl | rfl | rfl
    · exact hlines
    · exact ⟨not_mem_nil, not_mem_nil⟩
    · decide
  serial := not_mem_nil
  files := fun s hs => absurd hs not_mem_nil

end ControlDat
end Rabbithole.Qwk
