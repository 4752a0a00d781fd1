import Mathlib.Data.List.DropRight
import Mathlib.Data.String.Basic

/-!
# Text

The standard string functions that the modelled code uses: white space as Unicode has it,
trimming, splitting at a character, numbers, and the textual forms of network addresses.
-/

namespace Rabbithole.Foundation

open List

/-- The code points with the `White_Space` property. -/
def isWhitespace (c : Char) : Bool :=
  let n := c.toNat
  (0x9 <= n && n <= 0xD) || n == 0x20 || n == 0x85 || n == 0xA0 || n == 0x1680 ||
    (0x2000 <= n && n <= 0x200A) || n == 0x2028 || n == 0x2029 || n == 0x202F ||
    n == 0x205F || n == 0x3000

def trimStart (s : String) : String :=
  String.ofList (s.toList.dropWhile isWhitespace)

def trimEnd (s : String) : String :=
  String.ofList (s.toList.rdropWhile isWhitespace)

def trim (s : String) : String :=
  trimEnd (trimStart s)

def trimText (s : List Char) : List Char :=
  (s.dropWhile isWhitespace).rdropWhile isWhitespace

def isControl (c : Char) : Bool :=
  c.toNat <= 0x1F || (0x7F <= c.toNat && c.toNat <= 0x9F)

def splitOnce (c : Char) (s : List Char) : Option (List Char × List Char) :=
  if c ∈ s then some (s.takeWhile (fun d => d ≠ c), (s.dropWhile (fun d => d ≠ c)).tail)
  else none

/-- The same for its last place. -/
def rsplitOnce (c : Char) (s : List Char) : Option (List Char × List Char) :=
  (splitOnce c s.reverse).map (fun (back, front) => (front.reverse, back.reverse))

/-- The value of a digit. -/
def toDigit (radix : Nat) (c : Char) : Option Nat :=
  let n :=
    if '0' <= c ∧ c <= '9' then c.toNat - '0'.toNat
    else if 'a' <= c ∧ c <= 'z' then c.toNat - 'a'.toNat + 10
    else if 'A' <= c ∧ c <= 'Z' then c.toNat - 'A'.toNat + 10
    else radix
  if n < radix then some n else none

def ofDigits (radix : Nat) (s : List Char) : Nat :=
  s.foldl (fun n c => n * radix + (toDigit radix c).getD 0) 0

/-- An unsigned number in decimal, a plus before it or not, and not above a bound. -/
def parseUnsigned (max : Nat) (s : List Char) : Option Nat :=
  let digits := match s with
    | '+' :: rest => rest
    | _ => s
  if digits.isEmpty ∨ digits.any (fun c => (toDigit 10 c).isNone) then none
  else if ofDigits 10 digits <= max then some (ofDigits 10 digits)
  else none

/-- An unsigned number in a base, a plus before it or not, and not above a bound. -/
def fromStrRadix (radix max : Nat) (s : List Char) : Option Nat :=
  let digits := match s with
    | '+' :: rest => rest
    | _ => s
  if digits.isEmpty ∨ digits.any (fun c => (toDigit radix c).isNone) then none
  else if ofDigits radix digits <= max then some (ofDigits radix digits)
  else none

def isAsciiWhitespace (c : Char) : Bool :=
  c == ' ' || c == '\t' || c == '\n' || c == '\x0c' || c == '\r'

def splitAsciiWhitespace (s : List Char) : List (List Char) :=
  (s.splitOnP isAsciiWhitespace).filter (fun part => !part.isEmpty)

/-- The same for white space as Unicode has it. -/
def splitWhitespace (s : List Char) : List (List Char) :=
  (s.splitOnP isWhitespace).filter (fun part => !part.isEmpty)

def findText (needle : List Char) : List Char -> Option Nat
  | [] => if needle.isEmpty then some 0 else none
  | c :: s => if needle.isPrefixOf (c :: s) then some 0 else (findText needle s).map (· + 1)

def isAsciiAlphanumeric (c : Char) : Bool :=
  (toDigit 36 c).isSome

/-!
## Splitting and numbers
-/

variable {c : Char} {front back s : List Char} {parts : List (List Char)}

theorem splitWhitespace_two (hc : isWhitespace c = true)
    (hfront : forall d, d ∈ front -> isWhitespace d = false) (hfrontNe : front ≠ [])
    (hback : forall d, d ∈ back -> isWhitespace d = false) (hbackNe : back ≠ []) :
    splitWhitespace (front ++ c :: back) = [front, back] := by
  have hsplit : (front ++ c :: back).splitOnP isWhitespace = [front, back] := by
    rw [splitOnP_append_cons_of_forall_mem hfront c hc, splitOnP_eq_singleton hback]
  unfold splitWhitespace
  rw [hsplit]
  simp [hfrontNe, hbackNe]

theorem splitOnP_intercalate {p : Char -> Bool} {sep : Char} (hsep : p sep = true)
    (hne : parts ≠ []) (hparts : forall part, part ∈ parts -> forall c, c ∈ part -> p c = false) :
    ([sep].intercalate parts).splitOnP p = parts := by
  induction parts with
  | nil => exact absurd rfl hne
  | cons part rest ih =>
      have hpart := hparts part mem_cons_self
      cases rest with
      | nil =>
          rw [intercalate_singleton]
          exact splitOnP_eq_singleton hpart
      | cons next rest =>
          have hjoin : [sep].intercalate (part :: next :: rest) =
              part ++ sep :: [sep].intercalate (next :: rest) := by
            rw [intercalate_cons_cons, append_assoc]
            rfl
          rw [hjoin, splitOnP_append_cons_of_forall_mem hpart sep hsep,
            ih (cons_ne_nil _ _) (fun p hp => hparts p (mem_cons_of_mem _ hp))]

theorem mem_intercalate {sep : Char} (h : c ∈ [sep].intercalate parts) :
    c = sep ∨ exists part, part ∈ parts ∧ c ∈ part := by
  induction parts with
  | nil => cases h
  | cons part rest ih =>
      cases rest with
      | nil =>
          rw [intercalate_singleton] at h
          exact Or.inr ⟨part, mem_cons_self, h⟩
      | cons next rest =>
          rw [intercalate_cons_cons, mem_append, mem_append] at h
          rcases h with (hpart | hsep) | hrest
          · exact Or.inr ⟨part, mem_cons_self, hpart⟩
          · exact Or.inl (mem_singleton.mp hsep)
          · rcases ih hrest with heq | ⟨part', hmem, hin⟩
            · exact Or.inl heq
            · exact Or.inr ⟨part', mem_cons_of_mem _ hmem, hin⟩

theorem filter_splitOnP_intercalate {p : Char -> Bool} {sep : Char} (hsep : p sep = true)
    (hparts : forall part, part ∈ parts -> part ≠ [] ∧ forall c, c ∈ part -> p c = false) :
    (([sep].intercalate parts).splitOnP p).filter (fun part => !part.isEmpty) = parts := by
  cases parts with
  | nil => rfl
  | cons part rest =>
      rw [splitOnP_intercalate hsep (cons_ne_nil _ _) (fun p hp => (hparts p hp).right),
        filter_eq_self]
      intro p hp
      cases p with
      | nil => exact absurd rfl (hparts [] hp).left
      | cons c p => rfl

theorem splitAsciiWhitespace_intercalate (hparts : forall part, part ∈ parts -> part ≠ [] ∧
      forall c, c ∈ part -> isAsciiWhitespace c = false) :
    splitAsciiWhitespace ([' '].intercalate parts) = parts :=
  filter_splitOnP_intercalate rfl hparts

theorem splitWhitespace_intercalate (hparts : forall part, part ∈ parts -> part ≠ [] ∧
      forall c, c ∈ part -> isWhitespace c = false) :
    splitWhitespace ([' '].intercalate parts) = parts :=
  filter_splitOnP_intercalate rfl hparts

theorem splitOnP_append {p : Char -> Bool} (back : List Char)
    (hfront : forall c, c ∈ front -> p c = false) :
    exists behind rest, (front ++ back).splitOnP p = (front ++ behind) :: rest := by
  induction front with
  | nil => exact exists_cons_of_ne_nil (splitOnP_ne_nil p back)
  | cons c front ih =>
      rcases ih (fun d hd => hfront d (mem_cons_of_mem c hd)) with ⟨behind, rest, hsplit⟩
      refine ⟨behind, rest, ?_⟩
      rw [cons_append, splitOnP_cons_eq_if_modifyHead, hfront c mem_cons_self, hsplit]
      rfl

theorem findText_append (needle rest : List Char) : findText needle (needle ++ rest) = some 0 := by
  cases needle with
  | nil =>
      cases rest with
      | nil => rfl
      | cons c rest => rfl
  | cons c needle =>
      have hfront : (c :: needle).isPrefixOf (c :: (needle ++ rest)) = true :=
        isPrefixOf_iff_prefix.mpr (prefix_append (c :: needle) rest)
      rw [cons_append]
      unfold findText
      rw [hfront, if_pos rfl]

theorem isPrefixOf?_append (front back : List Char) :
    front.isPrefixOf? (front ++ back) = some back := by
  induction front with
  | nil => rfl
  | cons c front ih =>
      show (if c == c then front.isPrefixOf? (front ++ back) else none) = _
      rw [beq_self_eq_true, if_pos rfl, ih]

theorem not_mem_of_mem_splitOn {part : List Char} (h : part ∈ s.splitOn c) : c ∉ part := by
  induction s generalizing part with
  | nil =>
      rw [splitOn_nil, mem_singleton] at h
      rw [h]
      exact not_mem_nil
  | cons d s ih =>
      rw [splitOn_cons_eq_if_modifyHead] at h
      split at h
      · rcases mem_cons.mp h with rfl | hrest
        · exact not_mem_nil
        · exact ih hrest
      · rename_i hne
        cases hparts : s.splitOn c with
        | nil => exact absurd hparts (splitOn_ne_nil c s)
        | cons first parts =>
            rw [hparts] at h ih
            rcases mem_cons.mp h with rfl | hrest
            · rw [mem_cons, not_or]
              constructor
              · rintro rfl
                exact hne (beq_self_eq_true c)
              · exact ih mem_cons_self
            · exact ih (mem_cons_of_mem first hrest)

theorem splitOnce_append (back : List Char) (h : c ∉ front) :
    splitOnce c (front ++ c :: back) = some (front, back) := by
  have hall : forall d, d ∈ front -> decide (d ≠ c) = true := by
    intro d hd
    apply decide_eq_true
    rintro rfl
    exact h hd
  have hmem : c ∈ front ++ c :: back := mem_append_right front mem_cons_self
  unfold splitOnce
  rw [if_pos hmem, takeWhile_append_of_pos hall, dropWhile_append_of_pos hall]
  simp

theorem splitOnce_eq_none : splitOnce c s = none <-> c ∉ s := by
  unfold splitOnce
  split
  · rename_i hmem
    exact ⟨nofun, fun h => absurd hmem h⟩
  · rename_i hmem
    exact ⟨fun _ => hmem, fun _ => rfl⟩

theorem eq_of_splitOnce (h : splitOnce c s = some (front, back)) :
    s = front ++ c :: back ∧ c ∉ front := by
  by_cases hmem : c ∈ s
  · rcases eq_append_cons_of_mem hmem with ⟨front', back', rfl, hfront⟩
    rw [splitOnce_append back' hfront] at h
    cases h
    exact ⟨rfl, hfront⟩
  · rw [splitOnce_eq_none.mpr hmem] at h
    cases h

theorem rsplitOnce_append (front : List Char) (h : c ∉ back) :
    rsplitOnce c (front ++ c :: back) = some (front, back) := by
  have hreverse : (front ++ c :: back).reverse = back.reverse ++ c :: front.reverse := by
    rw [reverse_append, reverse_cons, append_assoc, singleton_append]
  unfold rsplitOnce
  rw [hreverse, splitOnce_append front.reverse (fun hmem => h (mem_reverse.mp hmem))]
  simp

theorem eq_of_rsplitOnce (h : rsplitOnce c s = some (front, back)) :
    s = front ++ c :: back ∧ c ∉ back := by
  unfold rsplitOnce at h
  cases hsplit : splitOnce c s.reverse with
  | none =>
      rw [hsplit] at h
      cases h
  | some parts =>
      rcases parts with ⟨back', front'⟩
      rw [hsplit] at h
      cases h
      rcases eq_of_splitOnce hsplit with ⟨heq, hback⟩
      constructor
      · rw [← reverse_reverse s, heq, reverse_append, reverse_cons,
          append_assoc, singleton_append]
      · intro hmem
        exact hback (mem_reverse.mp hmem)

section Radix

variable {radix : Nat}

theorem toDigit_digitChar_radix (hradix : radix <= 10) {n : Nat} (h : n < radix) :
    toDigit radix n.digitChar = some n := by
  have hall : forall k : Fin 10, ('0' <= Nat.digitChar k ∧ Nat.digitChar k <= '9') ∧
      (Nat.digitChar k).toNat - '0'.toNat = k.val := by decide
  rcases hall ⟨n, by omega⟩ with ⟨hrange, hvalue⟩
  simp only at hrange hvalue
  unfold toDigit
  simp only [if_pos hrange, hvalue, if_pos h]

theorem digits_toDigits_radix (htwo : 2 <= radix) (hradix : radix <= 10) (n : Nat) :
    ofDigits radix (Nat.toDigits radix n) = n ∧
      forall c, c ∈ Nat.toDigits radix n -> (toDigit radix c).isSome = true := by
  induction n using Nat.strongRecOn with
  | ind n ih =>
      rcases Nat.lt_or_ge n radix with hsmall | hbig
      · rw [Nat.toDigits_of_lt_base hsmall]
        constructor
        · show 0 * radix + (toDigit radix n.digitChar).getD 0 = n
          rw [toDigit_digitChar_radix hradix hsmall]
          simp
        · intro c hc
          rw [mem_singleton.mp hc, toDigit_digitChar_radix hradix hsmall]
          rfl
      · rcases ih (n / radix) (Nat.div_lt_self (by omega) htwo) with ⟨hvalue, hdigits⟩
        have hlast : n % radix < radix := Nat.mod_lt n (by omega)
        rw [Nat.toDigits_of_base_le htwo hbig]
        constructor
        · unfold ofDigits at hvalue ⊢
          rw [foldl_append, hvalue]
          show n / radix * radix + (toDigit radix (n % radix).digitChar).getD 0 = n
          rw [toDigit_digitChar_radix hradix hlast]
          exact Nat.div_add_mod' n radix
        · intro c hc
          rcases mem_append.mp hc with hfront | hend
          · exact hdigits c hfront
          · rw [mem_singleton.mp hend, toDigit_digitChar_radix hradix hlast]
            rfl

theorem fromStrRadix_digits (hradix : radix <= 10) {max : Nat}
    (hdigits : forall c, c ∈ s -> (toDigit radix c).isSome = true) (hne : s ≠ [])
    (hmax : ofDigits radix s <= max) : fromStrRadix radix max s = some (ofDigits radix s) := by
  have hcases : forall t : List Char, (match t with
      | '+' :: rest => rest
      | _ => t) = t ∨ '+' ∈ t := by
    intro t
    split
    · exact Or.inr mem_cons_self
    · exact Or.inl rfl
  have hsign := (hcases s).resolve_right (fun hmem => by
    have hplus := hdigits '+' hmem
    have hnone : toDigit radix '+' = none := if_neg (Nat.lt_irrefl radix)
    rw [hnone] at hplus
    cases hplus)
  have hany : s.any (fun c => (toDigit radix c).isNone) = false := by
    rw [any_eq_false]
    intro c hc hnone
    rw [← Option.not_isSome, hdigits c hc] at hnone
    cases hnone
  unfold fromStrRadix
  simp only [hsign, hany]
  rw [if_neg (by simp [hne]), if_pos hmax]

theorem fromStrRadix_toDigits (htwo : 2 <= radix) (hradix : radix <= 10) {max n : Nat}
    (h : n <= max) : fromStrRadix radix max (Nat.toDigits radix n) = some n := by
  rcases digits_toDigits_radix htwo hradix n with ⟨hvalue, hdigits⟩
  have hne : Nat.toDigits radix n ≠ [] := by
    intro heq
    have hpos := @Nat.length_toDigits_pos radix n
    rw [heq] at hpos
    exact absurd hpos (Nat.lt_irrefl 0)
  rw [fromStrRadix_digits hradix hdigits hne (by rw [hvalue]; exact h), hvalue]

end Radix

theorem digits_toDigits (n : Nat) :
    ofDigits 10 (Nat.toDigits 10 n) = n ∧
      forall c, c ∈ Nat.toDigits 10 n -> (toDigit 10 c).isSome = true :=
  digits_toDigits_radix (by decide) (by decide) n

variable {s : List Char} {c : Char} {max n : Nat}

theorem le_of_parseUnsigned (h : parseUnsigned max s = some n) : n <= max := by
  unfold parseUnsigned at h
  generalize (match s with
    | '+' :: rest => rest
    | _ => s) = digits at h
  dsimp only at h
  split at h
  · cases h
  · split at h
    · rename_i hle
      cases h
      exact hle
    · cases h

theorem ofDigits_lt (s : List Char) : ofDigits 10 s < 10 ^ s.length := by
  induction s using List.reverseRecOn with
  | nil => decide
  | append_singleton s c ih =>
      have hdigit : (toDigit 10 c).getD 0 < 10 := by
        unfold toDigit
        dsimp only
        generalize (if '0' <= c ∧ c <= '9' then _ else _ : Nat) = k
        split
        · assumption
        · decide
      unfold ofDigits at ih ⊢
      rw [foldl_append, length_append, length_singleton, Nat.pow_succ]
      show _ * 10 + (toDigit 10 c).getD 0 < _
      omega

theorem lt_of_parseUnsigned (h : parseUnsigned max s = some n) : n < 10 ^ s.length := by
  have hdigits : (match s with
      | '+' :: rest => rest
      | _ => s).length <= s.length := by
    split
    · exact Nat.le_succ _
    · exact Nat.le_refl _
  unfold parseUnsigned at h
  generalize (match s with
    | '+' :: rest => rest
    | _ => s) = digits at h hdigits
  dsimp only at h
  split at h
  · cases h
  · split at h
    · cases h
      exact Nat.lt_of_lt_of_le (ofDigits_lt digits) (Nat.pow_le_pow_right (by decide) hdigits)
    · cases h

theorem parseUnsigned_of_lt {max' : Nat} (h : parseUnsigned max' s = some n) (hlt : max < n) :
    parseUnsigned max s = none := by
  unfold parseUnsigned at h ⊢
  generalize (match s with
    | '+' :: rest => rest
    | _ => s) = digits at h ⊢
  dsimp only at h ⊢
  split at h
  · cases h
  · rename_i hdigits
    split at h
    · cases h
      rw [if_neg hdigits, if_neg (Nat.not_le.mpr hlt)]
    · cases h

theorem parseUnsigned_toDigits (h : n <= max) : parseUnsigned max (Nat.toDigits 10 n) = some n :=
  fromStrRadix_toDigits (by decide) (by decide) h

/-!
## Digits and white space
-/

theorem toNat_of_toDigit_radix {radix : Nat} (hradix : radix <= 10)
    (h : (toDigit radix c).isSome = true) : 48 <= c.toNat ∧ c.toNat <= 57 := by
  by_cases hrange : '0' <= c ∧ c <= '9'
  · exact ⟨UInt32.le_iff_toNat_le.mp hrange.left, UInt32.le_iff_toNat_le.mp hrange.right⟩
  · unfold toDigit at h
    rw [if_neg hrange] at h
    split at h
    · rename_i hlower
      rw [if_neg (by omega)] at h
      cases h
    · split at h
      · rw [if_neg (by omega)] at h
        cases h
      · rw [if_neg (Nat.lt_irrefl radix)] at h
        cases h

theorem toNat_of_toDigit (h : (toDigit 10 c).isSome = true) : 48 <= c.toNat ∧ c.toNat <= 57 :=
  toNat_of_toDigit_radix (Nat.le_refl 10) h

theorem not_isWhitespace_of_toDigit (h : (toDigit 10 c).isSome = true) :
    isWhitespace c = false := by
  rcases toNat_of_toDigit h with ⟨hlow, hhigh⟩
  have hall : forall n : Fin 58, 48 <= n.val -> isWhitespace (Char.ofNat n.val) = false := by decide
  have hc := hall ⟨c.toNat, by omega⟩ hlow
  rw [Char.ofNat_toNat] at hc
  exact hc

theorem trimText_of_ends (hfirst : forall c, s.head? = some c -> isWhitespace c = false)
    (hlast : forall c, s.getLast? = some c -> isWhitespace c = false) : trimText s = s := by
  have hfront : s.dropWhile isWhitespace = s := by
    cases s with
    | nil => rfl
    | cons c s =>
        rw [dropWhile_cons_of_neg]
        rw [hfirst c rfl]
        exact Bool.false_ne_true
  unfold trimText
  rw [hfront, rdropWhile_eq_self_iff]
  intro hne hspace
  rw [hlast _ (getLast?_eq_some_getLast hne)] at hspace
  cases hspace

theorem trimText_eq_self (h : forall c, c ∈ s -> isWhitespace c = false) : trimText s = s :=
  trimText_of_ends (fun c hc => h c (mem_of_head? hc)) (fun c hc => h c (mem_of_getLast? hc))

theorem trimText_toDigits (n : Nat) : trimText (Nat.toDigits 10 n) = Nat.toDigits 10 n := by
  apply trimText_eq_self
  intro c hc
  exact not_isWhitespace_of_toDigit ((digits_toDigits n).right c hc)

theorem mem_of_mem_dropWhile {entry : Type} {p : entry -> Bool} {l : List entry} {e : entry}
    (hmem : e ∈ l) (h : p e = false) : e ∈ l.dropWhile p := by
  rw [← takeWhile_append_dropWhile (p := p) (l := l), mem_append] at hmem
  rcases hmem with hfront | hback
  · rw [mem_takeWhile_imp hfront] at h
    cases h
  · exact hback

theorem mem_trimText (hmem : c ∈ s) (h : isWhitespace c = false) : c ∈ trimText s := by
  unfold trimText List.rdropWhile
  rw [mem_reverse]
  apply mem_of_mem_dropWhile _ h
  rw [mem_reverse]
  exact mem_of_mem_dropWhile hmem h

theorem trimText_append {ws : List Char} (h : forall c, c ∈ ws -> isWhitespace c = true) :
    trimText (s ++ ws) = trimText s := by
  unfold trimText
  by_cases hall : forall c, c ∈ s -> isWhitespace c = true
  · have hboth : forall c, c ∈ s ++ ws -> isWhitespace c = true := by
      intro c hc
      rcases mem_append.mp hc with hs | hws
      · exact hall c hs
      · exact h c hws
    rw [dropWhile_eq_nil_iff.mpr hboth, dropWhile_eq_nil_iff.mpr hall]
  · have hne : s.dropWhile isWhitespace ≠ [] := by
      intro hnil
      exact hall (dropWhile_eq_nil_iff.mp hnil)
    have hfront : (s ++ ws).dropWhile isWhitespace = s.dropWhile isWhitespace ++ ws := by
      rw [dropWhile_append, if_neg]
      rw [List.isEmpty_iff]
      exact hne
    rw [hfront]
    unfold List.rdropWhile
    rw [reverse_append, dropWhile_append_of_pos]
    intro c hc
    exact h c (mem_reverse.mp hc)

theorem digit_of_parseUnsigned (h : parseUnsigned max s = some n) (hc : c ∈ s) :
    c = '+' ∨ (toDigit 10 c).isSome = true := by
  have hsplit : c = '+' ∨ c ∈ (match s with
      | '+' :: rest => rest
      | _ => s) := by
    split
    · rename_i rest
      rcases mem_cons.mp hc with heq | hmem
      · exact Or.inl heq
      · exact Or.inr hmem
    · exact Or.inr hc
  rcases hsplit with heq | hmem
  · exact Or.inl heq
  · refine Or.inr ?_
    unfold parseUnsigned at h
    generalize (match s with
      | '+' :: rest => rest
      | _ => s) = digits at h hmem
    dsimp only at h
    split at h
    · cases h
    · rename_i hdigits
      rw [Option.isSome_iff_ne_none]
      intro hnone
      exact hdigits (Or.inr (any_eq_true.mpr ⟨c, hmem, by rw [hnone]; rfl⟩))

/-!
## Network addresses
-/

/-- Digits at the front, so many at most; what is behind them. -/
def readNumber (radix maxDigits max : Nat) (zeroPrefix : Bool) (s : List Char) :
    Option (List Char) :=
  let digits := s.takeWhile (fun c => (toDigit radix c).isSome)
  if digits.isEmpty ∨ maxDigits < digits.length then none
  else if zeroPrefix = false ∧ digits.head? = some '0' ∧ 1 < digits.length then none
  else if ofDigits radix digits <= max then some (s.drop digits.length)
  else none

/-- All but the first part stand behind a separator. -/
def readSeparator (sep : Char) (index : Nat) (read : List Char -> Option (List Char))
    (s : List Char) : Option (List Char) :=
  if index = 0 then read s
  else
    match s with
    | c :: rest => if c = sep then read rest else none
    | [] => none

def readIpv4Part (index : Nat) (s : List Char) : Option (List Char) :=
  readSeparator '.' index (readNumber 10 3 255 false) s

def readIpv4 (s : List Char) : Option (List Char) :=
  (((readIpv4Part 0 s).bind (readIpv4Part 1)).bind (readIpv4Part 2)).bind (readIpv4Part 3)

/-- Groups of an IPv6 address, the last two as an IPv4 address or not. -/
def readGroups : Nat -> Nat -> List Char -> Nat × Bool × List Char
  | 0, index, s => (index, false, s)
  | left + 1, index, s =>
      match if 0 < left then readSeparator ':' index readIpv4 s else none with
      | some rest => (index + 2, true, rest)
      | none =>
          match readSeparator ':' index (readNumber 16 4 65535 true) s with
          | some rest => readGroups left (index + 1) rest
          | none => (index, false, s)

def readIpv6 (s : List Char) : Option (List Char) :=
  match readGroups 8 0 s with
  | (size, v4, rest) =>
      if size = 8 then some rest
      else if v4 then none
      else
        match rest with
        | ':' :: ':' :: rest => some (readGroups (8 - (size + 1)) 0 rest).snd.snd
        | _ => none

def isIpv6Addr (s : List Char) : Bool :=
  readIpv6 s == some []

def isIpAddr (s : List Char) : Bool :=
  match readIpv4 s with
  | some rest => rest.isEmpty
  | none => isIpv6Addr s

example : isIpAddr "127.0.0.1".toList = true ∧ isIpAddr "127.0.0.01".toList = false ∧
    isIpAddr "fe80::1:192.0.2.7".toList = true ∧ isIpAddr "1:2:3".toList = false := by
  decide

end Rabbithole.Foundation
