import Mathlib.Tactic.IntervalCases
import Rabbithole.Foundation.Text

/-!
# Dates of feeds

Two formats of dates, read leniently: what cannot be understood is absent.  Texts are cut at
places in their bytes and the sums have 64 bits; a place within a character, or a sum that
does not fit, is a panic.
-/

namespace Rabbithole.Syndication

open Foundation List

inductive Panic where
  | slice
  | overflow
deriving DecidableEq

inductive Lenient (value : Type) where
  | value (v : value)
  | absent
  | panic (cause : Panic)
deriving DecidableEq

namespace Lenient

variable {value value' : Type}

def bind (x : Lenient value) (f : value -> Lenient value') : Lenient value' :=
  match x with
  | .value v => f v
  | .absent => .absent
  | .panic cause => .panic cause

instance : Monad Lenient where
  pure := .value
  bind := bind

def ofOption : Option value -> Lenient value
  | none => .absent
  | some v => .value v

/-- `or_else`. -/
def orElse (x y : Lenient value) : Lenient value :=
  match x with
  | .absent => y
  | _ => x

def unwrapOr (x : Lenient value) (v : value) : Lenient value :=
  x.orElse (.value v)

end Lenient

def i64 (n : Int) : Lenient Int :=
  if -2 ^ 63 <= n ∧ n < 2 ^ 63 then .value n else .panic .overflow

/-!
## Places in a text
-/

def byteLength (s : List Char) : Nat :=
  (s.map Char.utf8Size).sum

/-- What is before and behind a place, if no character is cut. -/
def cutAt : Nat -> List Char -> Option (List Char × List Char)
  | 0, s => some ([], s)
  | _ + 1, [] => none
  | n + 1, c :: s =>
      if c.utf8Size <= n + 1 then
        (cutAt (n + 1 - c.utf8Size) s).map (fun (front, back) => (c :: front, back))
      else none

def sliceAt (place : Nat) (s : List Char) : Lenient (List Char × List Char) :=
  match cutAt place s with
  | some parts => .value parts
  | none => .panic .slice

def find (p : Char -> Bool) : List Char -> Option Nat
  | [] => none
  | c :: s => if p c then some 0 else (find p s).map (fun place => c.utf8Size + place)

/-- The place of the last one. -/
def rfind (p : Char -> Bool) : List Char -> Option Nat
  | [] => none
  | c :: s =>
      match rfind p s with
      | some place => some (c.utf8Size + place)
      | none => if p c then some 0 else none

def parseI64 (s : List Char) : Option Int :=
  match s with
  | '-' :: '+' :: _ => none
  | '-' :: digits => (parseUnsigned (2 ^ 63) digits).map (fun n : Nat => -(n : Int))
  | _ => (parseUnsigned (2 ^ 63 - 1) s).map Int.ofNat

/-!
## The parts of a date
-/

def months : List (List Char) :=
  ["jan".toList, "feb".toList, "mar".toList, "apr".toList, "may".toList, "jun".toList,
    "jul".toList, "aug".toList, "sep".toList, "oct".toList, "nov".toList, "dec".toList]

def monthNumber (name : List Char) : Option Int :=
  (cutAt 3 name).bind (fun (key, _) =>
    (months.idxOf? (key.map Char.toLower)).map (fun i => (i : Int) + 1))

def daysInMonth (y m : Int) : Int :=
  if m = 1 ∨ m = 3 ∨ m = 5 ∨ m = 7 ∨ m = 8 ∨ m = 10 ∨ m = 12 then 31
  else if m = 4 ∨ m = 6 ∨ m = 9 ∨ m = 11 then 30
  else if (y.tmod 4 = 0 ∧ y.tmod 100 ≠ 0) ∨ y.tmod 400 = 0 then 29 else 28

/-- The days up to one of a year that begins in March. -/
def daysOfShifted (y mp d : Int) : Lenient Int := do
  let era := y / 400
  let start <- i64 (era * 400)
  let yoe <- i64 (y - start)
  let fifths <- i64 (153 * mp)
  let fifths <- i64 (fifths + 2)
  let doy <- i64 (fifths.tdiv 5 + d)
  let doy <- i64 (doy - 1)
  let doe <- i64 (yoe * 365)
  let doe <- i64 (doe + yoe.tdiv 4)
  let doe <- i64 (doe - yoe.tdiv 100)
  let doe <- i64 (doe + doy)
  let eras <- i64 (era * 146097)
  let days <- i64 (eras + doe)
  i64 (days - 719468)

def daysFromCivil (y m d : Int) : Lenient Int :=
  if ¬ (1 <= y ∧ y <= 9999) ∨ ¬ (1 <= m ∧ m <= 12) ∨ d < 1 ∨ daysInMonth y m < d then .absent
  else do
    let y <- if m <= 2 then i64 (y - 1) else pure y
    let mp <- if 2 < m then i64 (m - 3) else i64 (m + 9)
    daysOfShifted y mp d

/-- Hours, minutes and seconds, the last second of a leap read as the one before it. -/
def parseHms (t : List Char) : Option (Int × Int × Int) := do
  let fields := t.splitOn ':'
  let h <- (fields[0]?).bind (fun field => parseI64 (trimText field))
  let m <- (fields[1]?).bind (fun field => parseI64 (trimText field))
  let s <- ((fields[2]?).map (fun field => parseI64 (trimText field))).getD (some 0)
  if (fields[3]?).isSome then none
  else if (0 <= h ∧ h < 24) ∧ (0 <= m ∧ m < 60) ∧ (0 <= s ∧ s <= 60) then some (h, m, min s 59)
  else none

def stamp (days h m sec offset : Int) : Lenient Int := do
  let sum <- i64 (days * 86400)
  let hours <- i64 (h * 3600)
  let sum <- i64 (sum + hours)
  let minutes <- i64 (m * 60)
  let sum <- i64 (sum + minutes)
  let sum <- i64 (sum + sec)
  i64 (sum - offset)

def isSign (c : Char) : Bool :=
  c == '+' || c == '-'

/-- `sign * (h * 3_600 + m * 60)`, the sign being that at the front of the zone. -/
def offsetSecs (zone : List Char) (h m : Int) : Lenient Int := do
  let hours <- i64 (h * 3600)
  let minutes <- i64 (m * 60)
  let sum <- i64 (hours + minutes)
  i64 ((if zone.head? = some '-' then -1 else 1) * sum)

def namedZones : List (List Char × Int) :=
  [("UT".toList, 0), ("GMT".toList, 0), ("UTC".toList, 0), ("Z".toList, 0),
    ("EST".toList, -5 * 3600), ("EDT".toList, -4 * 3600), ("CST".toList, -6 * 3600),
    ("CDT".toList, -5 * 3600), ("MST".toList, -7 * 3600), ("MDT".toList, -6 * 3600),
    ("PST".toList, -8 * 3600), ("PDT".toList, -7 * 3600)]

def zoneOffsetSecs (z : List Char) : Lenient Int :=
  let z := trimText z
  if (z.head?.map isSign).getD false then
    let digits := z.tail
    if byteLength digits = 4 ∧ digits.all Char.isDigit = true then do
      let (hh, mm) <- sliceAt 2 digits
      let h <- .ofOption (parseI64 hh)
      let m <- .ofOption (parseI64 mm)
      if h <= 14 ∧ m <= 59 then offsetSecs z h m else .absent
    else .absent
  else .ofOption (namedZones.lookup (z.map Char.toUpper))

/-- The two numbers of a zone: at a colon, or the halves of four bytes. -/
def hoursMinutes (digits : List Char) : Lenient (List Char × List Char) :=
  match splitOnce ':' digits with
  | some pair => .value pair
  | none => if byteLength digits = 4 then sliceAt 2 digits else .absent

/-- The time, and the offset of the zone behind it. -/
def splitZone (rest : List Char) : Lenient (List Char × Int) :=
  if rest.getLast? = some 'Z' ∨ rest.getLast? = some 'z' then .value (rest.dropLast, 0)
  else
    match rfind isSign rest with
    | none => .value (rest, 0)
    | some place => do
        let (time, zone) <- sliceAt place rest
        let (_, digits) <- sliceAt 1 zone
        let (hh, mm) <- hoursMinutes digits
        let h <- .ofOption (parseI64 hh)
        let m <- .ofOption (parseI64 mm)
        if 14 < h ∨ 59 < m then .absent
        else do
          let offset <- offsetSecs zone h m
          pure (time, offset)

/-!
## The formats
-/

/-- What is behind a comma, if there is one. -/
def withoutWeekday (s : List Char) : Lenient (List Char) :=
  match find (fun c => c == ',') s with
  | some place => do
      let (_, behind) <- sliceAt (place + 1) s
      pure behind
  | none => pure s

/-- Years of two and of three digits are old ones. -/
def fullYear (yearTok : List Char) (year : Int) : Lenient Int :=
  if byteLength yearTok <= 2 then i64 (year + if year < 50 then 2000 else 1900)
  else if byteLength yearTok = 3 then i64 (year + 1900)
  else pure year

def parseRfc2822 (input : List Char) : Lenient Int := do
  let s := trimText input
  let s <- withoutWeekday s
  let tok := splitWhitespace s
  let day <- .ofOption ((tok[0]?).bind parseI64)
  let month <- .ofOption ((tok[1]?).bind monthNumber)
  let yearTok <- .ofOption tok[2]?
  let year <- .ofOption (parseI64 yearTok)
  let year <- fullYear yearTok year
  let (h, m, sec) <- .ofOption ((tok[3]?).bind parseHms)
  let offset <- ((tok[4]?).map (fun z => (zoneOffsetSecs z).unwrapOr 0)).getD (.value 0)
  let days <- daysFromCivil year month day
  stamp days h m sec offset

/-- The year, month and day of the other format. -/
def parseCivil (date : List Char) : Lenient Int := do
  let dp := date.splitOn '-'
  let year <- .ofOption ((dp[0]?).bind parseI64)
  let month <- .ofOption ((dp[1]?).bind parseI64)
  let day <- .ofOption ((dp[2]?).bind parseI64)
  if (dp[3]?).isSome then .absent else daysFromCivil year month day

def parseRfc3339 (input : List Char) : Lenient Int := do
  let s := trimText input
  let (date, _) <- .ofOption (cutAt 10 s)
  let days <- parseCivil date
  let (_, rest) <- sliceAt 10 s
  if rest.isEmpty then i64 (days * 86400)
  else do
    let sep <- .ofOption rest.head?
    if sep ≠ 'T' ∧ sep ≠ 't' ∧ sep ≠ ' ' then .absent
    else do
      let (_, rest) <- sliceAt 1 rest
      let (timePart, offset) <- splitZone rest
      let (h, m, sec) <- .ofOption (((timePart.splitOn '.')[0]?).bind parseHms)
      stamp days h m sec offset

def parseDateLenient (s : List Char) : Lenient Int :=
  (parseRfc2822 s).orElse (parseRfc3339 s)

/-!
# The calendar

The days of the years, and of the months of a year, counted one after the other.
-/

def isLeap (y : Nat) : Bool :=
  y % 4 == 0 && (y % 100 != 0 || y % 400 == 0)

def yearLength (y : Nat) : Nat :=
  if isLeap y then 366 else 365

def monthLength (y m : Nat) : Nat :=
  if m = 2 then (if isLeap y then 29 else 28)
  else if m = 4 ∨ m = 6 ∨ m = 9 ∨ m = 11 then 30 else 31

def daysOfYears : Nat -> Nat
  | 0 => 0
  | y + 1 => daysOfYears y + yearLength (y + 1)

def daysOfMonths (y : Nat) : Nat -> Nat
  | 0 => 0
  | m + 1 => daysOfMonths y m + monthLength y (m + 1)

def dayNumber (y m d : Nat) : Int :=
  (daysOfYears (y - 1) + daysOfMonths y (m - 1) + (d - 1) : Nat) - (daysOfYears 1969 : Int)

/-- A date that there is, in a year of at most four digits. -/
structure CivilDate (y m d : Nat) : Prop where
  year : 1 <= y ∧ y <= 9999
  month : 1 <= m ∧ m <= 12
  day : 1 <= d ∧ d <= monthLength y m

theorem isLeap_iff {y : Nat} : isLeap y = true <-> y % 4 = 0 ∧ (y % 100 ≠ 0 ∨ y % 400 = 0) := by
  simp [isLeap]

theorem daysOfYears_eq (y : Nat) : daysOfYears y + y / 100 = 365 * y + y / 4 + y / 400 := by
  induction y with
  | zero => rfl
  | succ y ih =>
      unfold daysOfYears yearLength
      split
      · rename_i hleap
        have hrule := isLeap_iff.mp hleap
        omega
      · rename_i hleap
        have hrule := (not_congr isLeap_iff).mp hleap
        omega

theorem i64_eq {n : Int} (hlow : -2 ^ 63 <= n) (hhigh : n < 2 ^ 63) : i64 n = .value n :=
  if_pos ⟨hlow, hhigh⟩

theorem i64_bind {value : Type} {n : Int} {f : Int -> Lenient value}
    (h : -2 ^ 63 <= n ∧ n < 2 ^ 63) : (i64 n >>= f) = f n := by
  rw [i64_eq h.left h.right]
  rfl

theorem daysOfShifted_eq {y mp d : Int} (hy : 0 <= y ∧ y <= 9999) (hmp : 0 <= mp ∧ mp <= 11)
    (hd : 1 <= d ∧ d <= 31) :
    daysOfShifted y mp d = .value (365 * y + y / 4 - y / 100 + y / 400 + (153 * mp + 2) / 5 +
      d - 719469) := by
  unfold daysOfShifted
  dsimp only
  rw [i64_bind (by omega), i64_bind (by omega), i64_bind (by omega), i64_bind (by omega)]
  rw [Int.tdiv_eq_ediv_of_nonneg (by omega), Int.tdiv_eq_ediv_of_nonneg (by omega),
    Int.tdiv_eq_ediv_of_nonneg (by omega)]
  rw [i64_bind (by omega), i64_bind (by omega), i64_bind (by omega), i64_bind (by omega),
    i64_bind (by omega), i64_bind (by omega), i64_bind (by omega), i64_bind (by omega),
    i64_eq (by omega) (by omega)]
  congr 1
  omega

variable {y m d : Nat}

theorem daysInMonth_eq (hm : 1 <= m ∧ m <= 12) :
    daysInMonth (y : Int) (m : Int) = (monthLength y m : Int) := by
  have hrule : (((y : Int) % 4 = 0 ∧ (y : Int) % 100 ≠ 0) ∨ (y : Int) % 400 = 0) <->
      isLeap y = true := by
    rw [isLeap_iff]
    omega
  unfold daysInMonth monthLength
  rw [Int.tmod_eq_emod_of_nonneg (by omega), Int.tmod_eq_emod_of_nonneg (by omega),
    Int.tmod_eq_emod_of_nonneg (by omega)]
  simp only [hrule]
  split_ifs <;> omega

theorem guard_iff : ¬ (¬ (1 <= (y : Int) ∧ (y : Int) <= 9999) ∨ ¬ (1 <= (m : Int) ∧ (m : Int) <= 12) ∨
    (d : Int) < 1 ∨ daysInMonth y m < d) <-> CivilDate y m d := by
  constructor
  · intro h
    have hm : 1 <= m ∧ m <= 12 := by omega
    rw [daysInMonth_eq hm] at h
    exact ⟨by omega, hm, by omega⟩
  · rintro ⟨hyear, hmonth, hday⟩
    rw [daysInMonth_eq hmonth]
    omega

theorem daysFromCivil_absent (h : ¬ CivilDate y m d) : daysFromCivil y m d = .absent :=
  if_pos (not_not.mp (mt guard_iff.mp h))

theorem daysFromCivil_eq (h : CivilDate y m d) :
    daysFromCivil y m d = .value (dayNumber y m d) := by
  rcases h with ⟨hyear, ⟨hone, htwelve⟩, hday⟩
  have hyears := daysOfYears_eq (y - 1)
  have hepoch := daysOfYears_eq 1969
  have hrule := @isLeap_iff y
  have hlong : monthLength y m <= 31 := by
    unfold monthLength
    split_ifs <;> omega
  unfold daysFromCivil
  rw [if_neg (guard_iff.mpr ⟨hyear, ⟨hone, htwelve⟩, hday⟩)]
  unfold dayNumber
  generalize daysOfYears 1969 = epoch at hepoch ⊢
  by_cases hearly : m <= 2
  · rw [if_pos (by omega), i64_bind (by omega)]
    dsimp only
    rw [if_neg (by omega), i64_bind (by omega),
      daysOfShifted_eq (by omega) (by omega) (by omega)]
    refine congrArg Lenient.value ?_
    have hmonths : (153 * (m + 9) + 2) / 5 = 306 + daysOfMonths y (m - 1) := by
      interval_cases m <;> rfl
    omega
  · rw [if_neg (by omega)]
    show (if 2 < (m : Int) then _ else _) = _
    rw [if_pos (by omega), i64_bind (by omega)]
    dsimp only
    rw [daysOfShifted_eq (by omega) (by omega) (by omega)]
    refine congrArg Lenient.value ?_
    have hmonths : (153 * (m - 3) + 2) / 5 + (if isLeap y then 60 else 59) =
        daysOfMonths y (m - 1) := by
      interval_cases m <;> simp [daysOfMonths, monthLength] <;> split_ifs <;> rfl
    split_ifs at hmonths
    · have hleap := hrule.mp ‹_›
      omega
    · have hleap := (not_congr hrule).mp ‹_›
      omega

/-!
# Panics

Every sum is of small numbers, and the places are those of one-byte characters, but for the
middle of a zone of four bytes.
-/

namespace Lenient

variable {value value' : Type} {p : value -> Prop} {q : value' -> Prop} {x : Lenient value}

/-- There is no panic, and what there is has a property. -/
def Returns (p : value -> Prop) : Lenient value -> Prop
  | .value v => p v
  | .absent => True
  | .panic _ => False

theorem Returns.bind {f : value -> Lenient value'} (h : x.Returns p)
    (hf : forall v, p v -> (f v).Returns q) : (x >>= f).Returns q := by
  cases x with
  | value v => exact hf v h
  | absent => trivial
  | panic cause => exact h.elim

theorem returns_ofOption {o : Option value} (h : forall v, o = some v -> p v) :
    (ofOption o).Returns p := by
  cases o with
  | none => trivial
  | some v => exact h v rfl

theorem Returns.orElse {y : Lenient value} (hx : x.Returns p) (hy : y.Returns p) :
    (x.orElse y).Returns p := by
  cases x with
  | value v => exact hx
  | absent => exact hy
  | panic cause => exact hx.elim

theorem returns_iff : x.Returns (fun _ => True) <-> forall cause, x ≠ .panic cause := by
  cases x <;> simp [Returns]

end Lenient

open Lenient

variable {s front back rest : List Char} {c : Char} {place : Nat} {n : Int}

theorem byteLength_append (front back : List Char) :
    byteLength (front ++ back) = byteLength front + byteLength back := by
  unfold byteLength
  rw [map_append, sum_append]

theorem byteLength_cons (c : Char) (s : List Char) :
    byteLength (c :: s) = c.utf8Size + byteLength s := by
  unfold byteLength
  rw [map_cons, sum_cons]

theorem cutAt_cons (c : Char) (s : List Char) (hplace : c.utf8Size <= place) :
    cutAt place (c :: s) =
      (cutAt (place - c.utf8Size) s).map (fun (front, back) => (c :: front, back)) := by
  have hpos := c.utf8Size_pos
  cases place with
  | zero => omega
  | succ place =>
      rw [cutAt]
      exact if_pos hplace

theorem cutAt_append (front back : List Char) :
    cutAt (byteLength front) (front ++ back) = some (front, back) := by
  induction front with
  | nil => rw [show byteLength [] = 0 from rfl, nil_append, cutAt]
  | cons c front ih =>
      rw [byteLength_cons, cons_append, cutAt_cons c _ (Nat.le_add_right _ _),
        Nat.add_sub_cancel_left, ih]
      rfl

theorem cutAt_some (h : cutAt place s = some (front, back)) :
    s = front ++ back ∧ byteLength front = place := by
  induction s generalizing place front with
  | nil =>
      cases place with
      | zero =>
          cases h
          exact ⟨rfl, rfl⟩
      | succ place => cases h
  | cons c s ih =>
      cases place with
      | zero =>
          cases h
          exact ⟨rfl, rfl⟩
      | succ place =>
          unfold cutAt at h
          split at h
          · rename_i hsize
            rcases Option.map_eq_some_iff.mp h with ⟨⟨front', back'⟩, hcut, heq⟩
            cases heq
            rcases ih hcut with ⟨rfl, hlength⟩
            refine ⟨rfl, ?_⟩
            rw [byteLength_cons, hlength]
            omega
          · cases h

theorem sliceAt_append (front back : List Char) :
    sliceAt (byteLength front) (front ++ back) = .value (front, back) := by
  unfold sliceAt
  rw [cutAt_append]

theorem sliceAt_behind (front back : List Char) (hc : c.utf8Size = 1) :
    sliceAt (byteLength front + 1) (front ++ c :: back) = .value (front ++ [c], back) := by
  have hplace : byteLength front + 1 = byteLength (front ++ [c]) := by
    rw [byteLength_append, byteLength_cons, hc]
    rfl
  rw [hplace, show front ++ c :: back = front ++ [c] ++ back by simp, sliceAt_append]

section Find

variable {p : Char -> Bool}

theorem find_some (h : find p s = some place) :
    exists front c back, s = front ++ c :: back ∧ p c = true ∧ place = byteLength front := by
  induction s generalizing place with
  | nil => cases h
  | cons c s ih =>
      unfold find at h
      split at h
      · rename_i hc
        cases h
        exact ⟨[], c, s, rfl, hc, rfl⟩
      · rcases Option.map_eq_some_iff.mp h with ⟨place', hfound, rfl⟩
        rcases ih hfound with ⟨front, d, back, rfl, hd, rfl⟩
        exact ⟨c :: front, d, back, rfl, hd, (byteLength_cons c front).symm⟩

theorem rfind_none (h : forall c, c ∈ s -> p c = false) : rfind p s = none := by
  induction s with
  | nil => rfl
  | cons c s ih =>
      unfold rfind
      rw [ih (fun d hd => h d (mem_cons_of_mem c hd)), h c mem_cons_self]
      rfl

theorem rfind_append (front : List Char) (hc : p c = true)
    (hback : forall d, d ∈ back -> p d = false) :
    rfind p (front ++ c :: back) = some (byteLength front) := by
  induction front with
  | nil =>
      rw [nil_append, rfind, rfind_none hback]
      exact if_pos hc
  | cons d front ih =>
      rw [cons_append, rfind, ih, byteLength_cons]

theorem rfind_cases (p : Char -> Bool) (s : List Char) :
    (rfind p s = none ∧ forall c, c ∈ s -> p c = false) ∨
      exists front c back, s = front ++ c :: back ∧ p c = true ∧
        forall d, d ∈ back -> p d = false := by
  induction s with
  | nil => exact Or.inl ⟨rfl, fun c hc => absurd hc not_mem_nil⟩
  | cons c s ih =>
      rcases ih with ⟨-, hnone⟩ | ⟨front, d, back, rfl, hd, hback⟩
      · cases hc : p c with
        | true => exact Or.inr ⟨[], c, s, rfl, hc, hnone⟩
        | false =>
            have hall : forall d, d ∈ c :: s -> p d = false := by
              intro d hd
              rcases mem_cons.mp hd with rfl | hd
              · exact hc
              · exact hnone d hd
            exact Or.inl ⟨rfind_none hall, hall⟩
      · exact Or.inr ⟨c :: front, d, back, rfl, hd, hback⟩

end Find

/-!
## Numbers
-/

theorem parseI64_nonneg (hsign : '-' ∉ s) (h : parseI64 s = some n) : 0 <= n := by
  unfold parseI64 at h
  split at h
  · cases h
  · exact absurd mem_cons_self hsign
  · rcases Option.map_eq_some_iff.mp h with ⟨k, -, rfl⟩
    exact Int.natCast_nonneg k

theorem length_le_byteLength (s : List Char) : s.length <= byteLength s := by
  induction s with
  | nil => exact Nat.le_refl 0
  | cons c s ih =>
      rw [length_cons, byteLength_cons]
      have hpos := c.utf8Size_pos
      omega

theorem parseI64_small (hshort : byteLength s <= 3) (h : parseI64 s = some n) :
    -1000 < n ∧ n < 1000 := by
  have hlength := length_le_byteLength s
  unfold parseI64 at h
  split at h
  · cases h
  · rcases Option.map_eq_some_iff.mp h with ⟨k, hk, rfl⟩
    rw [length_cons] at hlength
    have hlt := Nat.lt_of_lt_of_le (lt_of_parseUnsigned hk)
      (Nat.pow_le_pow_right (by decide) (show _ <= 3 by omega))
    omega
  · rcases Option.map_eq_some_iff.mp h with ⟨k, hk, rfl⟩
    have hlt := Nat.lt_of_lt_of_le (lt_of_parseUnsigned hk)
      (Nat.pow_le_pow_right (by decide) (show _ <= 3 by omega))
    show -1000 < (k : Int) ∧ (k : Int) < 1000
    omega

/-!
## The parts
-/

theorem stamp_eq {days h m sec offset : Int} (hdays : -1000000 <= days ∧ days <= 4000000)
    (hh : 0 <= h ∧ h < 24) (hm : 0 <= m ∧ m < 60) (hsec : 0 <= sec ∧ sec < 60)
    (hoffset : -54000 <= offset ∧ offset <= 54000) :
    stamp days h m sec offset =
      .value (days * 86400 + h * 3600 + m * 60 + sec - offset) := by
  unfold stamp
  rw [i64_bind (by omega), i64_bind (by omega), i64_bind (by omega), i64_bind (by omega),
    i64_bind (by omega), i64_bind (by omega), i64_eq (by omega) (by omega)]

theorem parseHms_some {h mins sec : Int} (hparse : parseHms s = some (h, mins, sec)) :
    (0 <= h ∧ h < 24) ∧ (0 <= mins ∧ mins < 60) ∧ 0 <= sec ∧ sec < 60 := by
  unfold parseHms at hparse
  rcases Option.bind_eq_some_iff.mp hparse with ⟨h', -, hparse⟩
  rcases Option.bind_eq_some_iff.mp hparse with ⟨m', -, hparse⟩
  rcases Option.bind_eq_some_iff.mp hparse with ⟨s', -, hparse⟩
  split at hparse
  · cases hparse
  · split at hparse
    · cases hparse
      omega
    · cases hparse

theorem daysOfMonths_le (y m : Nat) : daysOfMonths y m <= 31 * m := by
  induction m with
  | zero => exact Nat.le_refl 0
  | succ m ih =>
      have hlong : monthLength y (m + 1) <= 31 := by
        unfold monthLength
        split_ifs <;> omega
      unfold daysOfMonths
      omega

theorem dayNumber_bounds {y m d : Nat} (h : CivilDate y m d) :
    -1000000 <= dayNumber y m d ∧ dayNumber y m d <= 4000000 := by
  rcases h with ⟨hyear, hmonth, hday⟩
  have hyears := daysOfYears_eq (y - 1)
  have hepoch := daysOfYears_eq 1969
  have hmonths := daysOfMonths_le y (m - 1)
  have hlast := daysOfMonths_le y m
  have hlong : monthLength y m <= 31 := by
    unfold monthLength
    split_ifs <;> omega
  unfold dayNumber
  generalize daysOfYears 1969 = epoch at hepoch ⊢
  omega

theorem returns_daysFromCivil (y m d : Int) :
    (daysFromCivil y m d).Returns (fun days => -1000000 <= days ∧ days <= 4000000) := by
  by_cases hguard : ¬ (1 <= y ∧ y <= 9999) ∨ ¬ (1 <= m ∧ m <= 12) ∨ d < 1 ∨ daysInMonth y m < d
  · unfold daysFromCivil
    rw [if_pos hguard]
    trivial
  · have hpos : 0 <= y ∧ 0 <= m ∧ 0 <= d := by omega
    rcases Int.eq_ofNat_of_zero_le hpos.left with ⟨y, rfl⟩
    rcases Int.eq_ofNat_of_zero_le hpos.right.left with ⟨m, rfl⟩
    rcases Int.eq_ofNat_of_zero_le hpos.right.right with ⟨d, rfl⟩
    have hdate := guard_iff.mp hguard
    rw [daysFromCivil_eq hdate]
    exact dayNumber_bounds hdate

theorem returns_parseCivil (date : List Char) :
    (parseCivil date).Returns (fun days => -1000000 <= days ∧ days <= 4000000) := by
  unfold parseCivil
  refine .bind (returns_ofOption fun _ _ => trivial) fun year _ => ?_
  refine .bind (returns_ofOption fun _ _ => trivial) fun month _ => ?_
  refine .bind (returns_ofOption fun _ _ => trivial) fun day _ => ?_
  split
  · trivial
  · exact returns_daysFromCivil year month day

theorem offsetSecs_eq {h mins : Int} (zone : List Char) (hh : 0 <= h ∧ h <= 14)
    (hm : 0 <= mins ∧ mins <= 59) :
    offsetSecs zone h mins =
      .value ((if zone.head? = some '-' then -1 else 1) * (h * 3600 + mins * 60)) := by
  unfold offsetSecs
  rw [i64_bind (by omega), i64_bind (by omega), i64_bind (by omega)]
  split_ifs
  all_goals rw [i64_eq (by omega) (by omega)]

theorem returns_offsetSecs {h mins : Int} (zone : List Char) (hh : 0 <= h ∧ h <= 14)
    (hm : 0 <= mins ∧ mins <= 59) :
    (offsetSecs zone h mins).Returns (fun offset => -54000 <= offset ∧ offset <= 54000) := by
  rw [offsetSecs_eq zone hh hm]
  show -54000 <= _ ∧ _ <= (54000 : Int)
  split_ifs <;> omega

theorem mem_of_lookup {k : List Char} {zones : List (List Char × Int)}
    (h : zones.lookup k = some n) : n ∈ zones.map Prod.snd := by
  induction zones with
  | nil => cases h
  | cons zone zones ih =>
      rw [lookup_cons] at h
      split at h
      · cases h
        exact mem_cons_self
      · exact mem_cons_of_mem _ (ih h)

theorem cutAt_bytes (h : s.all Char.isDigit = true) (hplace : place <= byteLength s) :
    exists front back, cutAt place s = some (front, back) := by
  induction s generalizing place with
  | nil => exact ⟨[], [], by rw [Nat.le_zero.mp hplace, cutAt]⟩
  | cons c s ih =>
      rw [all_cons, Bool.and_eq_true] at h
      have hsize : c.utf8Size = 1 := by
        have hdigit := h.left
        simp only [Char.isDigit, Bool.and_eq_true, decide_eq_true_eq] at hdigit
        unfold Char.utf8Size
        rw [if_pos (UInt32.le_trans hdigit.right (by decide))]
      cases place with
      | zero => exact ⟨[], c :: s, rfl⟩
      | succ place =>
          rw [byteLength_cons, hsize] at hplace
          rw [cutAt_cons c s (by omega), hsize]
          rcases ih h.right (show place <= byteLength s by omega) with ⟨front, back, hcut⟩
          exact ⟨c :: front, back, by rw [Nat.add_sub_cancel, hcut]; rfl⟩

theorem not_minus_of_digits (h : s.all Char.isDigit = true) : '-' ∉ s :=
  fun hmem => absurd (all_eq_true.mp h '-' hmem) (by decide)

theorem returns_zoneOffsetSecs (z : List Char) :
    (zoneOffsetSecs z).Returns (fun offset => -54000 <= offset ∧ offset <= 54000) := by
  unfold zoneOffsetSecs
  dsimp only
  split
  · split
    · rename_i hdigits
      rcases cutAt_bytes hdigits.right (show 2 <= byteLength _ by omega) with ⟨hh, mm, hcut⟩
      have hsplit := (cutAt_some hcut).left
      have hminus := not_minus_of_digits hdigits.right
      rw [hsplit, mem_append, not_or] at hminus
      rw [show sliceAt 2 _ = .value (hh, mm) by rw [sliceAt, hcut]]
      show Returns _ (do
        let h <- ofOption (parseI64 hh)
        let m <- ofOption (parseI64 mm)
        if h <= 14 ∧ m <= 59 then offsetSecs _ h m else .absent)
      refine .bind (returns_ofOption fun _ => parseI64_nonneg hminus.left) fun h hh => ?_
      refine .bind (returns_ofOption fun _ => parseI64_nonneg hminus.right) fun m hm => ?_
      split
      · rename_i hle
        exact returns_offsetSecs _ ⟨hh, hle.left⟩ ⟨hm, hle.right⟩
      · trivial
    · trivial
  · apply returns_ofOption
    intro offset hlookup
    have hall : forall n, n ∈ namedZones.map Prod.snd -> -54000 <= n ∧ n <= 54000 := by decide
    exact hall offset (mem_of_lookup hlookup)

/-!
## A zone that is cut in a character
-/

/-- A sign, and behind it four bytes without a colon whose middle is in a character. -/
def CutZone (rest : List Char) : Prop :=
  exists time sign zone, rest = time ++ sign :: zone ∧ isSign sign = true ∧
    (forall c, c ∈ zone -> isSign c = false ∧ c ≠ ':') ∧
    zone.getLast? ≠ some 'Z' ∧ zone.getLast? ≠ some 'z' ∧
    byteLength zone = 4 ∧ cutAt 2 zone = none

/-- A date, a separator, and a zone that is cut. -/
def CutDate (s : List Char) : Prop :=
  exists date sep rest days, trimText s = date ++ sep :: rest ∧ byteLength date = 10 ∧
    parseCivil date = .value days ∧ (sep = 'T' ∨ sep = 't' ∨ sep = ' ') ∧ CutZone rest

theorem utf8Size_sign (h : isSign c = true) : c.utf8Size = 1 := by
  unfold isSign at h
  rw [Bool.or_eq_true, beq_iff_eq, beq_iff_eq] at h
  rcases h with rfl | rfl
  · decide
  · decide

theorem getLast?_behind (front : List Char) (hs : s ≠ []) :
    (front ++ c :: s).getLast? = s.getLast? := by
  rcases exists_cons_of_ne_nil hs with ⟨d, s', rfl⟩
  rw [getLast?_append, getLast?_cons_cons, getLast?_cons, Option.some_or]

theorem splitZone_sign {sign : Char} {time zone : List Char} (hsign : isSign sign = true)
    (hzone : forall c, c ∈ zone -> isSign c = false)
    (hlast : ¬ ((time ++ sign :: zone).getLast? = some 'Z' ∨
      (time ++ sign :: zone).getLast? = some 'z')) : splitZone (time ++ sign :: zone) = (do
      let (hh, mm) <- hoursMinutes zone
      let h <- .ofOption (parseI64 hh)
      let m <- .ofOption (parseI64 mm)
      if 14 < h ∨ 59 < m then .absent else do
        let offset <- offsetSecs (sign :: zone) h m
        pure (time, offset)) := by
  have hone : sliceAt 1 (sign :: zone) = .value ([sign], zone) := by
    have hcut := sliceAt_behind [] zone (utf8Size_sign hsign)
    exact hcut
  unfold splitZone
  rw [if_neg hlast, rfind_append time hsign hzone]
  dsimp only
  rw [sliceAt_append]
  show (do
    let (_, digits) <- sliceAt 1 (sign :: zone)
    _) = _
  rw [hone]
  rfl

theorem splitZone_cut (h : CutZone rest) : splitZone rest = .panic .slice := by
  rcases h with ⟨time, sign, zone, rfl, hsign, hzone, hZ, hz, hfour, hcut⟩
  have hne : zone ≠ [] := by
    rintro rfl
    cases hfour
  have hcolon : splitOnce ':' zone = none := by
    rw [splitOnce_eq_none]
    intro hmem
    exact (hzone ':' hmem).right rfl
  rw [splitZone_sign hsign (fun c hc => (hzone c hc).left)
    (by rw [getLast?_behind time hne]; exact not_or.mpr ⟨hZ, hz⟩)]
  unfold hoursMinutes
  rw [hcolon]
  dsimp only
  rw [if_pos hfour, sliceAt, hcut]
  rfl

theorem returns_splitZone (h : ¬ CutZone rest) :
    (splitZone rest).Returns (fun parts => -54000 <= parts.snd ∧ parts.snd <= 54000) := by
  have hzero : -54000 <= (0 : Int) ∧ (0 : Int) <= 54000 := by decide
  by_cases hlast : rest.getLast? = some 'Z' ∨ rest.getLast? = some 'z'
  · unfold splitZone
    rw [if_pos hlast]
    exact hzero
  · rcases rfind_cases isSign rest with ⟨hnone, -⟩ | ⟨time, sign, zone, rfl, hsign, hzone⟩
    · unfold splitZone
      rw [if_neg hlast, hnone]
      exact hzero
    · rw [splitZone_sign hsign hzone hlast]
      have hminus : '-' ∉ zone := fun hmem => absurd (hzone '-' hmem) (by decide)
      have hparts : (hoursMinutes zone).Returns
          (fun parts => '-' ∉ parts.fst ∧ '-' ∉ parts.snd) := by
        unfold hoursMinutes
        split
        · rename_i pair hcolon
          rw [(eq_of_splitOnce (show _ = some (pair.fst, pair.snd) from hcolon)).left, mem_append,
            mem_cons, not_or, not_or] at hminus
          exact ⟨hminus.left, hminus.right.right⟩
        · rename_i hcolon
          split
          · rename_i hfour
            cases hcut : cutAt 2 zone with
            | none =>
                have hne : zone ≠ [] := by
                  rintro rfl
                  cases hfour
                rw [getLast?_behind time hne, not_or] at hlast
                refine absurd ⟨time, sign, zone, rfl, hsign, ?_, hlast.left, hlast.right, hfour,
                  hcut⟩ h
                intro c hc
                refine ⟨hzone c hc, ?_⟩
                rintro rfl
                exact splitOnce_eq_none.mp hcolon hc
            | some parts =>
                rw [(cutAt_some (show _ = some (parts.fst, parts.snd) from hcut)).left, mem_append,
                  not_or] at hminus
                rw [sliceAt, hcut]
                exact hminus
          · trivial
      refine .bind hparts fun parts hparts => ?_
      refine .bind (returns_ofOption fun _ => parseI64_nonneg hparts.left) fun hours hh => ?_
      refine .bind (returns_ofOption fun _ => parseI64_nonneg hparts.right) fun mins hm => ?_
      split
      · trivial
      · exact .bind (returns_offsetSecs _ (by omega) (by omega)) fun offset hoffset => hoffset

/-!
## The formats
-/

theorem returns_withoutWeekday (s : List Char) : (withoutWeekday s).Returns (fun _ => True) := by
  unfold withoutWeekday
  split
  · rename_i place hfind
    rcases find_some hfind with ⟨front, c, back, rfl, hc, rfl⟩
    have hcomma : c.utf8Size = 1 := by
      rw [beq_iff_eq] at hc
      rw [hc]
      rfl
    rw [sliceAt_behind front back hcomma]
    trivial
  · trivial

theorem returns_fullYear {year : Int} (h : parseI64 s = some year) :
    (fullYear s year).Returns (fun _ => True) := by
  unfold fullYear
  by_cases hshort : byteLength s <= 3
  · have hsmall := parseI64_small hshort h
    split_ifs
    · rw [i64_eq (by omega) (by omega)]
      trivial
    · rw [i64_eq (by omega) (by omega)]
      trivial
    · rw [i64_eq (by omega) (by omega)]
      trivial
    · trivial
  · rw [if_neg (by omega), if_neg (by omega)]
    trivial

theorem returns_stamp {days offset : Int} {time : Int × Int × Int}
    (hparse : parseHms s = some time) (hdays : -1000000 <= days ∧ days <= 4000000)
    (hoffset : -54000 <= offset ∧ offset <= 54000) :
    (stamp days time.fst time.snd.fst time.snd.snd offset).Returns (fun _ => True) := by
  rcases parseHms_some hparse with ⟨hh, hm, hsec⟩
  rw [stamp_eq hdays hh hm hsec hoffset]
  trivial

theorem returns_rfc2822 (s : List Char) : (parseRfc2822 s).Returns (fun _ => True) := by
  unfold parseRfc2822
  dsimp only
  refine .bind (returns_withoutWeekday _) fun s _ => ?_
  refine .bind (returns_ofOption fun _ _ => trivial) fun day _ => ?_
  refine .bind (returns_ofOption fun _ _ => trivial) fun month _ => ?_
  refine .bind (returns_ofOption fun _ _ => trivial) fun yearTok _ => ?_
  refine .bind (returns_ofOption fun _ hyear => hyear) fun year hyear => ?_
  refine .bind (returns_fullYear hyear) fun year _ => ?_
  refine .bind (returns_ofOption fun _ htime => htime) fun time htime => ?_
  rcases Option.bind_eq_some_iff.mp htime with ⟨field, -, hparse⟩
  refine .bind (p := fun offset => -54000 <= offset ∧ offset <= 54000) ?_ fun offset hoffset => ?_
  · cases (splitWhitespace s)[4]? with
    | none => exact ⟨by decide, by decide⟩
    | some z => exact (returns_zoneOffsetSecs z).orElse ⟨by decide, by decide⟩
  · exact .bind (returns_daysFromCivil _ _ _) fun days hdays => returns_stamp hparse hdays hoffset

theorem utf8Size_separator (h : c = 'T' ∨ c = 't' ∨ c = ' ') : c.utf8Size = 1 := by
  rcases h with rfl | rfl | rfl
  · decide
  · decide
  · decide

theorem parseRfc3339_behind {date : List Char} {sep : Char} {days : Int}
    (hs : trimText s = date ++ sep :: rest) (hlength : byteLength date = 10)
    (hdate : parseCivil date = .value days) (hsep : sep = 'T' ∨ sep = 't' ∨ sep = ' ') :
    parseRfc3339 s = (do
      let (timePart, offset) <- splitZone rest
      let (h, m, sec) <- .ofOption (((timePart.splitOn '.')[0]?).bind parseHms)
      stamp days h m sec offset) := by
  have hcut : cutAt 10 (date ++ sep :: rest) = some (date, sep :: rest) := by
    rw [<- hlength, cutAt_append]
  have hbehind := sliceAt_behind [] rest (utf8Size_separator hsep)
  unfold parseRfc3339
  dsimp only
  rw [hs, sliceAt, hcut]
  show (do
    let days <- parseCivil date
    _) = _
  rw [hdate]
  show (if sep ≠ 'T' ∧ sep ≠ 't' ∧ sep ≠ ' ' then _ else _) = _
  rw [if_neg (by tauto)]
  show (do
    let (_, rest) <- sliceAt 1 (sep :: rest)
    _) = _
  rw [show sliceAt 1 (sep :: rest) = _ from hbehind]
  rfl

theorem rfc3339_cut (h : CutDate s) : parseRfc3339 s = .panic .slice := by
  rcases h with ⟨date, sep, rest, days, hs, hlength, hdate, hsep, hcut⟩
  rw [parseRfc3339_behind hs hlength hdate hsep, splitZone_cut hcut]
  rfl

theorem returns_rfc3339 (h : ¬ CutDate s) : (parseRfc3339 s).Returns (fun _ => True) := by
  cases hcut : cutAt 10 (trimText s) with
  | none =>
      unfold parseRfc3339
      dsimp only
      rw [hcut]
      trivial
  | some parts =>
      rcases parts with ⟨date, rest⟩
      rcases cutAt_some hcut with ⟨hs, hlength⟩
      have hcivil := returns_parseCivil date
      by_cases hshape : exists days sep rest', parseCivil date = .value days ∧
          rest = sep :: rest' ∧ (sep = 'T' ∨ sep = 't' ∨ sep = ' ')
      · rcases hshape with ⟨days, sep, rest', hdate, rfl, hsep⟩
        rw [hdate] at hcivil
        have hzone : ¬ CutZone rest' := fun hzone =>
          h ⟨date, sep, rest', days, hs, hlength, hdate, hsep, hzone⟩
        rw [parseRfc3339_behind hs hlength hdate hsep]
        refine .bind (returns_splitZone hzone) fun parts hoffset => ?_
        refine .bind (returns_ofOption fun _ htime => htime) fun time htime => ?_
        rcases Option.bind_eq_some_iff.mp htime with ⟨field, -, hparse⟩
        exact returns_stamp hparse hcivil hoffset
      · unfold parseRfc3339
        dsimp only
        rw [sliceAt, hcut]
        refine .bind (returns_ofOption fun _ heq => heq) fun parts hparts => ?_
        cases hparts
        refine .bind (p := fun days => parseCivil date = .value days ∧
          -1000000 <= days ∧ days <= 4000000) ?_ fun days hdays => ?_
        · cases hdate : parseCivil date with
          | value days =>
              rw [hdate] at hcivil
              exact ⟨rfl, hcivil⟩
          | absent => trivial
          | panic cause =>
              rw [hdate] at hcivil
              exact hcivil
        · cases rest with
          | nil =>
              show (i64 (days * 86400)).Returns _
              rw [i64_eq (by omega) (by omega)]
              trivial
          | cons sep rest =>
              show (if sep ≠ 'T' ∧ sep ≠ 't' ∧ sep ≠ ' ' then _ else _ : Lenient Int).Returns _
              split
              · trivial
              · rename_i hsep
                refine absurd ⟨days, sep, rest, hdays.left, rfl, ?_⟩ hshape
                tauto

theorem dates_never_panic_iff (s : List Char) :
    ((forall cause, parseRfc2822 s ≠ .panic cause) ∧ (forall cause, parseRfc3339 s ≠ .panic cause) ∧
      forall cause, parseDateLenient s ≠ .panic cause) <-> ¬ CutDate s := by
  constructor
  · rintro ⟨-, hreturns, -⟩ hcut
    exact hreturns .slice (rfc3339_cut hcut)
  · intro hcut
    have hone := returns_rfc2822 s
    have hother := returns_rfc3339 hcut
    exact ⟨returns_iff.mp hone, returns_iff.mp hother, returns_iff.mp (hone.orElse hother)⟩

theorem cut_zone_panics : parseDateLenient "2003-12-13T18:30:02+1é2".toList = .panic .slice := by
  decide

end Rabbithole.Syndication
