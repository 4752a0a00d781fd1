import Rabbithole.Syndication.Date

/-!
# Dates as they are written

A date and a time of day in the two formats, and with every zone of at most fourteen hours and
fifty-nine minutes: what is read is the number of seconds that they say.
-/

namespace Rabbithole.Syndication

open Foundation List

structure Clock where
  hour : Nat
  minute : Nat
  second : Nat
  hour_lt : hour < 24
  minute_lt : minute < 60
  second_le : second <= 60

structure Offset where
  west : Bool
  hours : Nat
  minutes : Nat
  hours_le : hours <= 14
  minutes_le : minutes <= 59

def two (n : Nat) : List Char :=
  [(n / 10).digitChar, (n % 10).digitChar]

def four (n : Nat) : List Char :=
  two (n / 100) ++ two (n % 100)

namespace Clock

def text (clock : Clock) : List Char :=
  two clock.hour ++ ':' :: (two clock.minute ++ ':' :: two clock.second)

/-- The seconds of the day, that of a leap being the one before it. -/
def secs (clock : Clock) : Int :=
  clock.hour * 3600 + clock.minute * 60 + min clock.second 59

end Clock

namespace Offset

def sign (offset : Offset) : Char :=
  if offset.west then '-' else '+'

def secs (offset : Offset) : Int :=
  (if offset.west then -1 else 1) * (offset.hours * 3600 + offset.minutes * 60)

def digits (offset : Offset) : List Char :=
  two offset.hours ++ two offset.minutes

end Offset

inductive Zone where
  | utc
  | colon (offset : Offset)
  | plain (offset : Offset)

namespace Zone

def text : Zone -> List Char
  | utc => ['Z']
  | colon offset => offset.sign :: (two offset.hours ++ ':' :: two offset.minutes)
  | plain offset => offset.sign :: offset.digits

def secs : Zone -> Int
  | utc => 0
  | colon offset => offset.secs
  | plain offset => offset.secs

end Zone

def weekdays : List (List Char) :=
  ["Mon".toList, "Tue".toList, "Wed".toList, "Thu".toList, "Fri".toList, "Sat".toList,
    "Sun".toList]

def monthNames : List (List Char) :=
  ["Jan".toList, "Feb".toList, "Mar".toList, "Apr".toList, "May".toList, "Jun".toList,
    "Jul".toList, "Aug".toList, "Sep".toList, "Oct".toList, "Nov".toList, "Dec".toList]

/-- The parts that white space is between; the first is empty behind the comma of a weekday. -/
def rfc2822Parts (padded : Bool) (y m d : Nat) (clock : Clock) (offset : Offset) :
    List (List Char) :=
  [if padded then two d else Nat.toDigits 10 d, monthNames.getD (m - 1) [], four y, clock.text,
    offset.sign :: offset.digits]

def rfc2822 (weekday : Option (Fin 7)) (padded : Bool) (y m d : Nat) (clock : Clock)
    (offset : Offset) : List Char :=
  match weekday with
  | none => [' '].intercalate (rfc2822Parts padded y m d clock offset)
  | some w =>
      weekdays.getD w [] ++
        ',' :: ' ' :: [' '].intercalate (rfc2822Parts padded y m d clock offset)

def civil (y m d : Nat) : List Char :=
  four y ++ '-' :: (two m ++ '-' :: two d)

/-- The digits of a fraction, behind its point. -/
def fractionText (fraction : Option (List (Fin 10))) : List Char :=
  match fraction with
  | none => []
  | some digits => '.' :: digits.map (fun digit => digit.val.digitChar)

def rfc3339 (sep : Char) (fraction : Option (List (Fin 10))) (y m d : Nat) (clock : Clock)
    (zone : Zone) : List Char :=
  civil y m d ++ sep :: (clock.text ++ (fractionText fraction ++ zone.text))

/-!
## Digits
-/

variable {s front mid back : List Char} {c : Char} {n y m d : Nat}

/-- Of one byte, and neither white space nor a comma. -/
def Printable (s : List Char) : Prop :=
  forall c, c ∈ s -> isWhitespace c = false ∧ c.utf8Size = 1 ∧ c ≠ ','

instance : DecidablePred Printable :=
  fun s => decidableBAll _ s

def Digits (s : List Char) : Prop :=
  forall c, c ∈ s -> (toDigit 10 c).isSome = true

theorem Printable.append (hfront : Printable front) (hback : Printable back) :
    Printable (front ++ back) :=
  fun c hc => (mem_append.mp hc).elim (hfront c) (hback c)

theorem Digits.append (hfront : Digits front) (hback : Digits back) : Digits (front ++ back) :=
  fun c hc => (mem_append.mp hc).elim (hfront c) (hback c)

theorem Digits.printable (h : Digits s) : Printable s := by
  intro c hc
  have hsmall := toNat_of_toDigit (h c hc)
  refine ⟨not_isWhitespace_of_toDigit (h c hc), ?_, ?_⟩
  · unfold Char.utf8Size
    rw [if_pos (UInt32.le_iff_toNat_le.mpr (Nat.le_trans hsmall.right (by decide)))]
  · rintro rfl
    exact absurd hsmall.left (by decide)

theorem Printable.cons (hc : isWhitespace c = false ∧ c.utf8Size = 1 ∧ c ≠ ',') (h : Printable s) :
    Printable (c :: s) :=
  (show Printable [c] from fun d hd => by rwa [mem_singleton.mp hd]).append h

theorem Printable.byteLength (h : Printable s) : byteLength s = s.length := by
  induction s with
  | nil => rfl
  | cons c s ih =>
      rw [byteLength_cons, length_cons, (h c mem_cons_self).right.left,
        ih (fun d hd => h d (mem_cons_of_mem c hd)), Nat.add_comm]

theorem digits_two (hn : n < 100) : Digits (two n) := by
  have hten : n / 10 < 10 := by omega
  have hone : n % 10 < 10 := by omega
  intro c hc
  simp only [two, mem_cons, not_mem_nil, or_false] at hc
  rcases hc with rfl | rfl
  · rw [toDigit_digitChar_radix (by decide) hten]
    rfl
  · rw [toDigit_digitChar_radix (by decide) hone]
    rfl

theorem ofDigits_two (hn : n < 100) : ofDigits 10 (two n) = n := by
  have hten : n / 10 < 10 := by omega
  have hone : n % 10 < 10 := by omega
  simp only [ofDigits, two, foldl_cons, foldl_nil, toDigit_digitChar_radix (Nat.le_refl 10) hten,
    toDigit_digitChar_radix (Nat.le_refl 10) hone, Option.getD_some]
  omega

theorem digits_four (hn : n < 10000) : Digits (four n) :=
  (digits_two (by omega)).append (digits_two (by omega))

theorem ofDigits_four (hn : n < 10000) : ofDigits 10 (four n) = n := by
  have hhigh : n / 100 / 10 < 10 ∧ n / 100 % 10 < 10 := by omega
  have hlow : n % 100 / 10 < 10 ∧ n % 100 % 10 < 10 := by omega
  simp only [ofDigits, four, two, cons_append, nil_append, foldl_cons, foldl_nil,
    toDigit_digitChar_radix (Nat.le_refl 10) hhigh.left,
    toDigit_digitChar_radix (Nat.le_refl 10) hhigh.right,
    toDigit_digitChar_radix (Nat.le_refl 10) hlow.left,
    toDigit_digitChar_radix (Nat.le_refl 10) hlow.right, Option.getD_some]
  omega

theorem parseI64_digits (h : Digits s) (hne : s ≠ []) (hshort : ofDigits 10 s < 10000) :
    parseI64 s = some (ofDigits 10 s : Int) := by
  unfold parseI64
  split
  · exact absurd (h '-' mem_cons_self) (by decide)
  · exact absurd (h '-' mem_cons_self) (by decide)
  · rw [show parseUnsigned _ s = some _ from
      fromStrRadix_digits (Nat.le_refl 10) h hne (by omega)]
    rfl

theorem parseI64_two (hn : n < 100) : parseI64 (two n) = some (n : Int) := by
  rw [parseI64_digits (digits_two hn) (cons_ne_nil _ _) (by rw [ofDigits_two hn]; omega),
    ofDigits_two hn]

theorem parseI64_four (hn : n < 10000) : parseI64 (four n) = some (n : Int) := by
  rw [parseI64_digits (digits_four hn) (cons_ne_nil _ _) (by rw [ofDigits_four hn]; omega),
    ofDigits_four hn]

theorem parseI64_none (hhead : s.head? ≠ some '-') (hc : c ∈ s) (hdigit : toDigit 10 c = none)
    (hplus : c ≠ '+') : parseI64 s = none := by
  unfold parseI64
  split
  · exact absurd rfl hhead
  · exact absurd rfl hhead
  · cases hparse : parseUnsigned (2 ^ 63 - 1) s with
    | none => rfl
    | some n =>
        rcases digit_of_parseUnsigned hparse hc with heq | hsome
        · exact absurd heq hplus
        · rw [hdigit] at hsome
          cases hsome

theorem parseI64_numeral (padded : Bool) (hn : n < 100) :
    Digits (if padded then two n else Nat.toDigits 10 n) ∧
      (if padded then two n else Nat.toDigits 10 n) ≠ [] ∧
      parseI64 (if padded then two n else Nat.toDigits 10 n) = some (n : Int) := by
  cases padded with
  | true => exact ⟨digits_two hn, cons_ne_nil _ _, parseI64_two hn⟩
  | false =>
      rcases digits_toDigits n with ⟨hvalue, hdigits⟩
      have hne : Nat.toDigits 10 n ≠ [] := ne_nil_of_length_pos Nat.length_toDigits_pos
      have hparse := parseI64_digits hdigits hne (by rw [hvalue]; omega)
      rw [hvalue] at hparse
      exact ⟨hdigits, hne, hparse⟩

theorem Digits.not_mem (h : Digits s) (hc : toDigit 10 c = none) : c ∉ s := by
  intro hmem
  have hdigit := h c hmem
  rw [hc] at hdigit
  cases hdigit

theorem trimText_between (mid : List Char) (hfront : Printable front) (hback : Printable back)
    (hne : front ≠ []) (hne' : back ≠ []) :
    trimText (front ++ (mid ++ back)) = front ++ (mid ++ back) := by
  apply trimText_of_ends
  · intro c hc
    rw [head?_append_of_ne_nil _ hne] at hc
    exact (hfront c (mem_of_head? hc)).left
  · intro c hc
    rw [<- append_assoc, getLast?_append_of_ne_nil _ hne'] at hc
    exact (hback c (mem_of_getLast? hc)).left

/-!
## Times and zones
-/

section Parts

variable (clock : Clock) (offset : Offset)

theorem digits_clock : Digits (two clock.hour) ∧ Digits (two clock.minute) ∧
    Digits (two clock.second) :=
  ⟨digits_two (by have := clock.hour_lt; omega), digits_two (by have := clock.minute_lt; omega),
    digits_two (by have := clock.second_le; omega)⟩

theorem printable_clock : Printable clock.text := by
  rcases digits_clock clock with ⟨hh, hm, hs⟩
  exact hh.printable.append (.cons (by decide) (hm.printable.append (.cons (by decide)
    hs.printable)))

theorem digits_offset : Digits (two offset.hours) ∧ Digits (two offset.minutes) :=
  ⟨digits_two (by have := offset.hours_le; omega), digits_two (by have := offset.minutes_le; omega)⟩

theorem isSign_sign : isSign offset.sign = true := by
  unfold Offset.sign
  split
  · rfl
  · rfl

theorem printable_offset : Printable (offset.sign :: offset.digits) := by
  rcases digits_offset offset with ⟨hh, hm⟩
  refine .cons ?_ (hh.append hm).printable
  unfold Offset.sign
  split
  · decide
  · decide

theorem printable_zone (zone : Zone) : Printable zone.text ∧ zone.text ≠ [] := by
  cases zone with
  | utc => exact ⟨.cons (by decide) nofun, cons_ne_nil _ _⟩
  | colon offset =>
      rcases digits_offset offset with ⟨hh, hm⟩
      have hsign := printable_offset offset offset.sign mem_cons_self
      exact ⟨.cons hsign (hh.printable.append (.cons (by decide) hm.printable)), cons_ne_nil _ _⟩
  | plain offset => exact ⟨printable_offset offset, cons_ne_nil _ _⟩

theorem parseHms_text :
    parseHms clock.text =
      some ((clock.hour : Int), (clock.minute : Int), min (clock.second : Int) 59) := by
  rcases digits_clock clock with ⟨hh, hm, hs⟩
  have hhour := clock.hour_lt
  have hminute := clock.minute_lt
  have hsecond := clock.second_le
  have hsplit : clock.text.splitOn ':' = [two clock.hour, two clock.minute, two clock.second] := by
    show ([':'].intercalate [two clock.hour, two clock.minute, two clock.second]).splitOn ':' = _
    refine splitOn_intercalate _ (fun part hpart => ?_) (cons_ne_nil _ _)
    simp only [mem_cons, not_mem_nil, or_false] at hpart
    rcases hpart with rfl | rfl | rfl
    · exact hh.not_mem rfl
    · exact hm.not_mem rfl
    · exact hs.not_mem rfl
  have htrim : forall t, Digits t -> trimText t = t :=
    fun t ht => trimText_eq_self fun c hc => (ht.printable c hc).left
  unfold parseHms
  rw [hsplit]
  dsimp only [getElem?_cons_zero, getElem?_cons_succ, getElem?_nil, Option.bind_some,
    Option.map_some, Option.getD_some]
  rw [htrim _ hh, htrim _ hm, htrim _ hs, parseI64_two (by omega), parseI64_two (by omega),
    parseI64_two (by omega)]
  exact if_pos (by omega)

theorem bounds_offset : -54000 <= offset.secs ∧ offset.secs <= 54000 := by
  have hhours := offset.hours_le
  have hminutes := offset.minutes_le
  unfold Offset.secs
  split
  · omega
  · omega

theorem offsetSecs_sign (zone : List Char) :
    offsetSecs (offset.sign :: zone) offset.hours offset.minutes = .value offset.secs := by
  have hhours := offset.hours_le
  have hminutes := offset.minutes_le
  rw [offsetSecs_eq _ (by omega) (by omega), head?_cons]
  unfold Offset.sign Offset.secs
  cases offset.west with
  | true => rfl
  | false => rfl

theorem sliceAt_digits :
    sliceAt 2 offset.digits = .value (two offset.hours, two offset.minutes) := by
  have hsize := (digits_offset offset).left.printable.byteLength
  rw [<- sliceAt_append, hsize]
  rfl

theorem byteLength_digits : byteLength offset.digits = 4 :=
  ((digits_offset offset).left.append (digits_offset offset).right).printable.byteLength

/-- In front of the zone is the time. -/
theorem splitZone_text (time : List Char) (zone : Zone) :
    splitZone (time ++ zone.text) = .value (time, zone.secs) := by
  have hsigned : forall (offset : Offset) (digits : List Char),
      hoursMinutes digits = .value (two offset.hours, two offset.minutes) ->
      (forall c, c ∈ digits -> (toDigit 10 c).isSome = true ∨ c = ':') -> digits ≠ [] ->
      splitZone (time ++ offset.sign :: digits) = .value (time, offset.secs) := by
    intro offset digits hparts hdigits hne
    have hhours := offset.hours_le
    have hminutes := offset.minutes_le
    have hother : forall c, toDigit 10 c = none -> c ≠ ':' -> c ∉ digits := by
      intro c hnone hcolon hmem
      rcases hdigits c hmem with hsome | heq
      · rw [hnone] at hsome
        cases hsome
      · exact hcolon heq
    rw [splitZone_sign (isSign_sign offset), hparts]
    · show (do
        let h <- .ofOption (parseI64 (two offset.hours))
        let m <- .ofOption (parseI64 (two offset.minutes))
        if 14 < h ∨ 59 < m then .absent
        else do
          let secs <- offsetSecs (offset.sign :: digits) h m
          pure (time, secs) : Lenient (List Char × Int)) = _
      rw [parseI64_two (by omega), parseI64_two (by omega)]
      show (if 14 < (offset.hours : Int) ∨ 59 < (offset.minutes : Int) then _ else _) = _
      rw [if_neg (by omega), offsetSecs_sign]
      rfl
    · intro c hc
      rw [Bool.eq_false_iff]
      intro hsign
      simp only [isSign, Bool.or_eq_true, beq_iff_eq] at hsign
      rcases hsign with rfl | rfl
      · exact hother '+' rfl (by decide) hc
      · exact hother '-' rfl (by decide) hc
    · rw [getLast?_behind time hne]
      rintro (hlast | hlast)
      · exact hother 'Z' (by decide) (by decide) (mem_of_getLast? hlast)
      · exact hother 'z' (by decide) (by decide) (mem_of_getLast? hlast)
  cases zone with
  | utc =>
      show splitZone (time ++ ['Z']) = _
      unfold splitZone
      rw [if_pos (Or.inl getLast?_concat)]
      exact congrArg (fun front => Lenient.value (front, (0 : Int))) dropLast_concat
  | colon offset =>
      rcases digits_offset offset with ⟨hh, hm⟩
      refine hsigned offset _ ?_ ?_ (cons_ne_nil _ _)
      · unfold hoursMinutes
        rw [splitOnce_append _ (hh.not_mem rfl)]
      · intro c hc
        rcases mem_append.mp hc with hc | hc
        · exact Or.inl (hh c hc)
        · rcases mem_cons.mp hc with rfl | hc
          · exact Or.inr rfl
          · exact Or.inl (hm c hc)
  | plain offset =>
      rcases digits_offset offset with ⟨hh, hm⟩
      refine hsigned offset _ ?_ (fun c hc => Or.inl (hh.append hm c hc)) (cons_ne_nil _ _)
      have hcolon : splitOnce ':' offset.digits = none :=
        splitOnce_eq_none.mpr ((hh.append hm).not_mem rfl)
      unfold hoursMinutes
      rw [hcolon]
      dsimp only
      rw [if_pos (byteLength_digits offset), sliceAt_digits]

theorem zoneOffsetSecs_text : zoneOffsetSecs (offset.sign :: offset.digits) = .value offset.secs := by
  rcases digits_offset offset with ⟨hh, hm⟩
  have hhours := offset.hours_le
  have hminutes := offset.minutes_le
  have hall : offset.digits.all Char.isDigit = true := by
    rw [all_eq_true]
    intro c hc
    rcases toNat_of_toDigit (hh.append hm c hc) with ⟨hlow, hhigh⟩
    simp only [Char.isDigit, Bool.and_eq_true, decide_eq_true_eq]
    exact ⟨UInt32.le_iff_toNat_le.mpr hlow, UInt32.le_iff_toNat_le.mpr hhigh⟩
  have hsigned : ((offset.sign :: offset.digits).head?.map isSign).getD false = true :=
    isSign_sign offset
  unfold zoneOffsetSecs
  rw [trimText_eq_self fun c hc => (printable_offset offset c hc).left]
  dsimp only
  rw [if_pos hsigned, tail_cons, if_pos ⟨byteLength_digits offset, hall⟩, sliceAt_digits]
  show (do
    let h <- .ofOption (parseI64 (two offset.hours))
    let m <- .ofOption (parseI64 (two offset.minutes))
    if h <= 14 ∧ m <= 59 then offsetSecs (offset.sign :: offset.digits) h m
      else .absent : Lenient Int) = _
  rw [parseI64_two (by omega), parseI64_two (by omega)]
  show (if (offset.hours : Int) <= 14 ∧ (offset.minutes : Int) <= 59 then _ else _) = _
  rw [if_pos (by omega), offsetSecs_sign]

theorem stamp_clock {days offset : Int} (hdays : -1000000 <= days ∧ days <= 4000000)
    (hoffset : -54000 <= offset ∧ offset <= 54000) :
    stamp days clock.hour clock.minute (min (clock.second : Int) 59) offset =
      .value (86400 * days + (clock.secs - offset)) := by
  have hhour := clock.hour_lt
  have hminute := clock.minute_lt
  rw [stamp_eq hdays (by omega) (by omega) (by omega) hoffset]
  unfold Clock.secs
  refine congrArg Lenient.value ?_
  omega

end Parts

/-!
## The two formats
-/

/-- The seconds up to a date, and some more; none if there is no such date. -/
def Says (x : Lenient Int) (y m d : Nat) (secs : Int) : Prop :=
  (CivilDate y m d -> x = .value (86400 * dayNumber y m d + secs)) ∧
    (¬ CivilDate y m d -> x = .absent)

theorem value_bind {value value' : Type} (v : value) (f : value -> Lenient value') :
    (Lenient.value v >>= f) = f v :=
  rfl

theorem find_none {p : Char -> Bool} (h : forall c, c ∈ s -> p c = false) : find p s = none := by
  induction s with
  | nil => rfl
  | cons c s ih =>
      unfold find
      rw [h c mem_cons_self, ih (fun d hd => h d (mem_cons_of_mem c hd))]
      rfl

theorem find_append {p : Char -> Bool} (back : List Char) (hc : p c = true)
    (hfront : forall d, d ∈ front -> p d = false) :
    find p (front ++ c :: back) = some (byteLength front) := by
  induction front with
  | nil => exact if_pos hc
  | cons d front ih =>
      rw [cons_append, find, hfront d mem_cons_self,
        ih (fun e he => hfront e (mem_cons_of_mem d he)), byteLength_cons]
      rfl

theorem withoutWeekday_none (h : ',' ∉ s) : withoutWeekday s = .value s := by
  unfold withoutWeekday
  rw [find_none fun c hc => beq_eq_false_iff_ne.mpr (ne_of_mem_of_not_mem hc h)]
  rfl

theorem withoutWeekday_comma (back : List Char) (h : ',' ∉ front) :
    withoutWeekday (front ++ ',' :: back) = .value back := by
  unfold withoutWeekday
  rw [find_append back rfl fun c hc => beq_eq_false_iff_ne.mpr (ne_of_mem_of_not_mem hc h)]
  dsimp only
  rw [sliceAt_behind front back rfl]
  rfl

theorem Printable.not_comma (h : Printable s) : ',' ∉ s :=
  fun hmem => (h ',' hmem).right.right rfl

theorem parseRfc3339_absent (hcut : cutAt 10 (trimText s) = some (front, back))
    (hdate : parseCivil front = .absent) : parseRfc3339 s = .absent := by
  unfold parseRfc3339
  dsimp only
  rw [hcut]
  show (do
    let days <- parseCivil front
    _) = _
  rw [hdate]
  rfl

section Iso

variable (hy : y < 10000) (hm : m < 100) (hd : d < 100)

include hy hm hd

theorem printable_civil : Printable (civil y m d) ∧ byteLength (civil y m d) = 10 := by
  have hall : Printable (civil y m d) :=
    (digits_four hy).printable.append (.cons (by decide) ((digits_two hm).printable.append
      (.cons (by decide) (digits_two hd).printable)))
  exact ⟨hall, hall.byteLength⟩

theorem parseCivil_civil : parseCivil (civil y m d) = daysFromCivil y m d := by
  have hsplit : (civil y m d).splitOn '-' = [four y, two m, two d] := by
    show (['-'].intercalate [four y, two m, two d]).splitOn '-' = _
    refine splitOn_intercalate _ (fun part hpart => ?_) (cons_ne_nil _ _)
    simp only [mem_cons, not_mem_nil, or_false] at hpart
    rcases hpart with rfl | rfl | rfl
    · exact (digits_four hy).not_mem rfl
    · exact (digits_two hm).not_mem rfl
    · exact (digits_two hd).not_mem rfl
  unfold parseCivil
  rw [hsplit]
  dsimp only [getElem?_cons_zero, getElem?_cons_succ, getElem?_nil, Option.bind_some]
  rw [parseI64_four hy, parseI64_two hm, parseI64_two hd]
  rfl

variable {sep : Char} (hsep : sep = 'T' ∨ sep = 't' ∨ sep = ' ')
    (fraction : Option (List (Fin 10))) (clock : Clock) (zone : Zone)

theorem trimText_rfc3339 :
    trimText (rfc3339 sep fraction y m d clock zone) = rfc3339 sep fraction y m d clock zone := by
  have hparts : rfc3339 sep fraction y m d clock zone =
      civil y m d ++ ((sep :: (clock.text ++ fractionText fraction)) ++ zone.text) := by
    unfold rfc3339
    rw [cons_append, append_assoc]
  rw [hparts]
  exact trimText_between _ (printable_civil hy hm hd).left (printable_zone zone).left
    (cons_ne_nil _ _) (printable_zone zone).right

omit hy hm hd in
theorem splitOn_fraction :
    ((clock.text ++ fractionText fraction).splitOn '.')[0]? = some clock.text := by
  have hpoint : '.' ∉ clock.text := by
    rcases digits_clock clock with ⟨hh, hm, hs⟩
    simp only [Clock.text, mem_append, mem_cons, not_or]
    exact ⟨hh.not_mem rfl, by decide, hm.not_mem rfl, by decide, hs.not_mem rfl⟩
  cases fraction with
  | none =>
      rw [show fractionText none = [] from rfl, append_nil, splitOn_eq_singleton hpoint]
      rfl
  | some digits =>
      rw [splitOn_eq_splitOnP]
      show ((clock.text ++ '.' :: _).splitOnP _)[0]? = _
      rw [splitOnP_append_cons_of_forall_mem
        (fun c hc => beq_eq_false_iff_ne.mpr (ne_of_mem_of_not_mem hc hpoint)) '.' rfl]
      rfl

omit hy hm hd in
theorem stamp_time {days : Int} (hdays : -1000000 <= days ∧ days <= 4000000) : (do
      let time <- .ofOption ((((clock.text ++ fractionText fraction).splitOn '.')[0]?).bind parseHms)
      stamp days time.fst time.snd.fst time.snd.snd zone.secs : Lenient Int) =
      .value (86400 * days + (clock.secs - zone.secs)) := by
  have hzone : -54000 <= zone.secs ∧ zone.secs <= 54000 := by
    cases zone with
    | utc => decide
    | colon offset | plain offset => exact bounds_offset offset
  rw [splitOn_fraction, Option.bind_some, parseHms_text]
  exact stamp_clock clock hdays hzone

include hsep in
theorem parseRfc3339_text :
    Says (parseRfc3339 (rfc3339 sep fraction y m d clock zone)) y m d (clock.secs - zone.secs) := by
  have htrim : trimText (rfc3339 sep fraction y m d clock zone) = _ :=
    trimText_rfc3339 hy hm hd fraction clock zone
  have hlength := (printable_civil hy hm hd).right
  have hcivil := parseCivil_civil hy hm hd
  constructor
  · intro hdate
    rw [daysFromCivil_eq hdate] at hcivil
    rw [parseRfc3339_behind htrim hlength hcivil hsep, <- append_assoc, splitZone_text]
    exact stamp_time fraction clock zone (dayNumber_bounds hdate)
  · intro hdate
    rw [daysFromCivil_absent hdate] at hcivil
    have hcut : cutAt 10 (trimText (rfc3339 sep fraction y m d clock zone)) =
        some (civil y m d, sep :: (clock.text ++ (fractionText fraction ++ zone.text))) := by
      rw [htrim, <- hlength]
      exact cutAt_append _ _
    exact parseRfc3339_absent hcut hcivil

include hsep in
theorem parseRfc2822_rfc3339 : parseRfc2822 (rfc3339 sep fraction y m d clock zone) = .absent := by
  have hcivil := (printable_civil hy hm hd).left
  have hcomma : ',' ∉ rfc3339 sep fraction y m d clock zone := by
    have hfraction : ',' ∉ fractionText fraction := by
      cases fraction with
      | none => exact not_mem_nil
      | some digits =>
          have hdigits : forall digit : Fin 10, digit.val.digitChar ≠ ',' := by decide
          simp [fractionText, hdigits]
    simp only [rfc3339, mem_append, mem_cons, not_or]
    refine ⟨hcivil.not_comma, ?_, (printable_clock clock).not_comma, hfraction,
      (printable_zone zone).left.not_comma⟩
    rcases hsep with rfl | rfl | rfl
    all_goals decide
  have hfirst : exists behind, (splitWhitespace (rfc3339 sep fraction y m d clock zone))[0]? =
      some (civil y m d ++ behind) := by
    rcases splitOnP_append (sep :: (clock.text ++ (fractionText fraction ++ zone.text)))
      (fun c hc => (hcivil c hc).left) with ⟨behind, rest, hsplit⟩
    refine ⟨behind, ?_⟩
    unfold splitWhitespace rfc3339
    rw [hsplit]
    rfl
  rcases hfirst with ⟨behind, hfirst⟩
  have hnumber : parseI64 (civil y m d ++ behind) = none := by
    refine parseI64_none (c := '-') ?_ ?_ rfl (by decide)
    · intro hhead
      have hdigit := digits_four hy '-' (mem_of_head? (show (four y).head? = _ from hhead))
      cases hdigit
    · exact mem_append_left _ (mem_append_right _ mem_cons_self)
  unfold parseRfc2822
  dsimp only
  rw [trimText_rfc3339 hy hm hd, withoutWeekday_none hcomma]
  show (do
    let day <- .ofOption (((splitWhitespace (rfc3339 sep fraction y m d clock zone))[0]?).bind
      parseI64)
    _ : Lenient Int) = _
  rw [hfirst, Option.bind_some, hnumber]
  rfl

end Iso

section Mail

theorem parseRfc2822_words {day month year time zone : List Char} {y m d h mins sec offset : Int}
    (hbehind : withoutWeekday (trimText s) = .value back)
    (htok : splitWhitespace back = [day, month, year, time, zone])
    (hday : parseI64 day = some d) (hmonth : monthNumber month = some m)
    (hyear : parseI64 year = some y) (hfull : fullYear year y = .value y)
    (htime : parseHms time = some (h, mins, sec)) (hzone : zoneOffsetSecs zone = .value offset) :
    parseRfc2822 s = (do
      let days <- daysFromCivil y m d
      stamp days h mins sec offset) := by
  unfold parseRfc2822
  dsimp only
  rw [hbehind, value_bind, htok]
  simp only [getElem?_cons_zero, getElem?_cons_succ, Option.bind_some, Option.map_some,
    Option.getD_some, Lenient.ofOption, value_bind, hday, hmonth, hyear, hfull, htime, hzone,
    Lenient.unwrapOr, Lenient.orElse]

theorem value_stamp {x : Lenient Int} {days offset : Int} (clock : Clock) (hx : x = .value days)
    (hdays : -1000000 <= days ∧ days <= 4000000) (hoffset : -54000 <= offset ∧ offset <= 54000) :
    (do
      let days <- x
      stamp days clock.hour clock.minute (min (clock.second : Int) 59) offset) =
      .value (86400 * days + (clock.secs - offset)) := by
  rw [hx, value_bind, stamp_clock clock hdays hoffset]

theorem weekday_text (w : Fin 7) : Printable (weekdays.getD w []) ∧ weekdays.getD w [] ≠ [] ∧
    '-' ∉ weekdays.getD w [] ∧ byteLength (weekdays.getD w []) = 3 := by
  revert w
  decide

theorem month_text (hmonth : 1 <= m ∧ m <= 12) : Printable (monthNames.getD (m - 1) []) ∧
    monthNames.getD (m - 1) [] ≠ [] ∧ monthNumber (monthNames.getD (m - 1) []) = some (m : Int) := by
  have hall : forall i : Fin 12, Printable (monthNames.getD i []) ∧ monthNames.getD i [] ≠ [] ∧
      monthNumber (monthNames.getD i []) = some ((i.val + 1 : Nat) : Int) := by decide
  have hmonth' := hall ⟨m - 1, by omega⟩
  rwa [show m - 1 + 1 = m by omega] at hmonth'

variable (hy : y < 10000) (hmonth : 1 <= m ∧ m <= 12) (hd : d < 100)
    (weekday : Option (Fin 7)) (padded : Bool) (clock : Clock) (offset : Offset)

include hy hmonth hd

theorem printable_parts : forall part, part ∈ rfc2822Parts padded y m d clock offset ->
    Printable part ∧ part ≠ [] := by
  rcases parseI64_numeral padded hd with ⟨hday, hne, -⟩
  rcases month_text hmonth with ⟨hname, hnameNe, -⟩
  intro part hpart
  simp only [rfc2822Parts, mem_cons, not_mem_nil, or_false] at hpart
  rcases hpart with rfl | rfl | rfl | rfl | rfl
  · exact ⟨hday.printable, hne⟩
  · exact ⟨hname, hnameNe⟩
  · exact ⟨(digits_four hy).printable, cons_ne_nil _ _⟩
  · exact ⟨printable_clock clock, cons_ne_nil _ _⟩
  · exact ⟨printable_offset offset, cons_ne_nil _ _⟩

theorem words_rfc2822 : exists s,
    withoutWeekday (rfc2822 weekday padded y m d clock offset) = .value s ∧
      splitWhitespace s = rfc2822Parts padded y m d clock offset := by
  have hparts := printable_parts hy hmonth hd padded clock offset
  have hwords := splitWhitespace_intercalate fun part hpart =>
    ⟨(hparts part hpart).right, fun c hc => ((hparts part hpart).left c hc).left⟩
  cases weekday with
  | none =>
      refine ⟨_, withoutWeekday_none fun hcomma => ?_, hwords⟩
      rcases mem_intercalate hcomma with heq | ⟨part, hpart, hmem⟩
      · exact absurd heq (by decide)
      · exact (hparts part hpart).left.not_comma hmem
  | some w =>
      refine ⟨_, withoutWeekday_comma _ (weekday_text w).left.not_comma, Eq.trans ?_ hwords⟩
      unfold splitWhitespace
      rw [splitOnP_cons_eq_if_modifyHead, if_pos (show isWhitespace ' ' = true from rfl)]
      rfl

omit hy hmonth in
theorem ends_rfc2822 : exists front mid,
    rfc2822 weekday padded y m d clock offset =
      front ++ (' ' :: mid ++ offset.sign :: offset.digits) ∧ front ≠ [] ∧ '-' ∉ front ∧
      byteLength front <= 4 ∧ forall c, front.head? = some c -> isWhitespace c = false := by
  have hjoin : exists mid, [' '].intercalate (rfc2822Parts padded y m d clock offset) =
      (if padded then two d else Nat.toDigits 10 d) ++
        (' ' :: mid ++ offset.sign :: offset.digits) :=
    ⟨monthNames.getD (m - 1) [] ++ ' ' :: (four y ++ ' ' :: (clock.text ++ [' '])),
      by simp [rfc2822Parts, intercalate_cons_cons, intercalate_singleton]⟩
  rcases hjoin with ⟨mid, hmid⟩
  rcases parseI64_numeral padded hd with ⟨hday, hne, -⟩
  cases weekday with
  | none =>
      refine ⟨_, mid, hmid, hne, hday.not_mem rfl, ?_,
        fun c hc => (hday.printable c (mem_of_head? hc)).left⟩
      rw [hday.printable.byteLength]
      have hshort : forall n : Fin 100, (Nat.toDigits 10 n.val).length <= 4 := by decide
      split
      · exact Nat.le_of_ble_eq_true rfl
      · exact hshort ⟨d, hd⟩
  | some w =>
      rcases weekday_text w with ⟨hname, hnameNe, hminus, hlength⟩
      refine ⟨weekdays.getD w [] ++ [','], (if padded then two d else Nat.toDigits 10 d) ++ ' ' :: mid,
        ?_, append_ne_nil_of_left_ne_nil hnameNe _, ?_, ?_, ?_⟩
      · unfold rfc2822
        dsimp only
        rw [hmid]
        simp
      · rw [mem_append, not_or]
        exact ⟨hminus, by decide⟩
      · rw [byteLength_append, hlength]
        exact Nat.le_of_ble_eq_true rfl
      · intro c hc
        rw [head?_append_of_ne_nil _ hnameNe] at hc
        exact (hname c (mem_of_head? hc)).left

omit hy hmonth in
theorem trimText_rfc2822 : trimText (rfc2822 weekday padded y m d clock offset) =
    rfc2822 weekday padded y m d clock offset := by
  rcases ends_rfc2822 hd weekday padded clock offset with
    ⟨front, mid, htext, hne, -, -, hhead⟩
  rw [htext]
  apply trimText_of_ends
  · intro c hc
    rw [head?_append_of_ne_nil _ hne] at hc
    exact hhead c hc
  · intro c hc
    rw [<- append_assoc, getLast?_append_of_ne_nil _ (cons_ne_nil _ _)] at hc
    exact (printable_offset offset c (mem_of_getLast? hc)).left

theorem parseRfc2822_text : Says (parseRfc2822 (rfc2822 weekday padded y m d clock offset)) y m d
      (clock.secs - offset.secs) := by
  rcases words_rfc2822 hy hmonth hd weekday padded clock offset with ⟨s, hs, htok⟩
  have hvalue : parseRfc2822 (rfc2822 weekday padded y m d clock offset) = (do
      let days <- daysFromCivil y m d
      stamp days clock.hour clock.minute (min (clock.second : Int) 59) offset.secs) := by
    have hyear : fullYear (four y) y = .value (y : Int) := by
      unfold fullYear
      rw [(digits_four hy).printable.byteLength]
      rfl
    refine parseRfc2822_words ((congrArg withoutWeekday (trimText_rfc2822 hd _ _ _ _)).trans hs) htok
      ?_ ?_ (parseI64_four hy) hyear (parseHms_text clock) (zoneOffsetSecs_text offset)
    · exact (parseI64_numeral padded hd).right.right
    · exact (month_text hmonth).right.right
  rw [hvalue]
  constructor
  · intro hdate
    exact value_stamp clock (daysFromCivil_eq hdate) (dayNumber_bounds hdate) (bounds_offset offset)
  · intro hdate
    rw [daysFromCivil_absent hdate]
    rfl

omit hy hmonth in
/-- Ten bytes from the front have a space before any minus, and begin with no year. -/
theorem parseRfc3339_rfc2822 : parseRfc3339 (rfc2822 weekday padded y m d clock offset) = .absent := by
  rcases ends_rfc2822 hd weekday padded clock offset with
    ⟨front, mid, htext, hne, hminus, hlength, hhead⟩
  have htrim := trimText_rfc2822 hd (y := y) (m := m) weekday padded clock offset
  cases hcut : cutAt 10 (rfc2822 weekday padded y m d clock offset) with
  | none =>
      unfold parseRfc3339
      dsimp only
      rw [htrim, hcut]
      rfl
  | some parts =>
      rcases parts with ⟨date, rest⟩
      rw [<- htrim] at hcut
      refine parseRfc3339_absent hcut ?_
      rcases cutAt_some hcut with ⟨hsplit, hten⟩
      rw [htrim, htext, append_eq_append_iff] at hsplit
      have hdate : exists behind, date = (front ++ [' ']) ++ behind := by
        rcases hsplit with ⟨behind, rfl, hbehind⟩ | ⟨behind, rfl, -⟩
        · cases behind with
          | nil =>
              rw [append_nil] at hten
              omega
          | cons c behind =>
              rcases cons.inj hbehind with ⟨rfl, -⟩
              exact ⟨behind, by simp⟩
        · rw [byteLength_append] at hlength
          omega
      rcases hdate with ⟨behind, rfl⟩
      have hbefore : '-' ∉ front ++ [' '] := by
        rw [mem_append, not_or]
        exact ⟨hminus, by decide⟩
      rcases splitOnP_append behind
        (fun c hc => beq_eq_false_iff_ne.mpr (ne_of_mem_of_not_mem hc hbefore)) with
        ⟨field, fields, hfields⟩
      have hnumber : parseI64 (front ++ [' '] ++ field) = none := by
        refine parseI64_none (c := ' ') ?_ ?_ rfl (by decide)
        · intro hfirst
          rw [append_assoc, head?_append_of_ne_nil _ hne] at hfirst
          exact hminus (mem_of_head? hfirst)
        · exact mem_append_left _ (mem_append_right _ mem_cons_self)
      unfold parseCivil
      dsimp only
      rw [splitOn_eq_splitOnP, hfields, getElem?_cons_zero, Option.bind_some, hnumber]
      rfl

end Mail

theorem dates_mean_what_they_say (hy : y < 10000) (hd : d < 100) (clock : Clock) :
    (forall weekday padded offset, 1 <= m ∧ m <= 12 ->
      Says (parseDateLenient (rfc2822 weekday padded y m d clock offset)) y m d
        (clock.secs - offset.secs)) ∧
      forall sep fraction zone, m < 100 -> sep = 'T' ∨ sep = 't' ∨ sep = ' ' ->
        Says (parseDateLenient (rfc3339 sep fraction y m d clock zone)) y m d
          (clock.secs - zone.secs) := by
  unfold parseDateLenient
  constructor
  · intro weekday padded offset hmonth
    rw [parseRfc3339_rfc2822 hd]
    rcases parseRfc2822_text hy hmonth hd weekday padded clock offset with ⟨hvalue, habsent⟩
    exact ⟨fun hdate => by rw [hvalue hdate]; rfl, fun hdate => by rw [habsent hdate]; rfl⟩
  · intro sep fraction zone hm hsep
    rw [parseRfc2822_rfc3339 hy hm hd hsep]
    exact parseRfc3339_text hy hm hd hsep fraction clock zone

theorem leap_second_says :
    Says (parseDateLenient (rfc2822 (some 3) false 2024 2 29 ⟨23, 59, 60, by decide, by decide,
      by decide⟩ ⟨true, 5, 0, by decide, by decide⟩)) 2024 2 29 (86399 - -18000) ∧
      Says (parseDateLenient (rfc3339 't' (some [2, 5]) 2024 2 29 ⟨23, 59, 60, by decide, by decide,
        by decide⟩ (.colon ⟨true, 5, 0, by decide, by decide⟩))) 2024 2 29 (86399 - -18000) :=
  ⟨(dates_mean_what_they_say (by decide) (by decide) _).left _ _ _ (by decide),
    (dates_mean_what_they_say (by decide) (by decide) _).right _ _ _ (by decide) (by decide)⟩

end Rabbithole.Syndication
