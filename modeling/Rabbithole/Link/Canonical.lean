import Rabbithole.Link.Rabbit

/-!
# Which links are shown as they are read

What is shown of a link is read again as that link, unless an escaped slash was read: it
is shown as a plain slash, and ends the area, or makes an empty segment, which is
dropped.
-/

namespace Rabbithole.Link

open Foundation List

/-!
## Bytes of texts
-/

theorem utf8_flatMap (f : UInt8 -> List Char) (bytes : Bytes) :
    utf8 (bytes.flatMap f) = bytes.flatMap (fun b => utf8 (f b)) := by
  unfold utf8
  rw [flatMap_assoc]

theorem forall_byte {p : UInt8 -> Prop} (h : forall n : Fin 256, p (UInt8.ofNat n)) (b : UInt8) :
    p b := by
  have hb := h ⟨b.toNat, b.toNat_lt⟩
  rw [UInt8.ofNat_toNat] at hb
  exact hb

/-!
## Destination hashes
-/

namespace DestinationHash

def hexPair (b : UInt8) : List Char :=
  [hexDigits.getD (b >>> 4).toNat '0', hexDigits.getD (b &&& 15).toNat '0']

set_option maxRecDepth 8000 in
theorem hexPair_halves (b : UInt8) :
    utf8 (hexPair b) = (hexPair b).map asciiByte ∧
      ((hexPair b).map asciiByte).map hexVal = [some (b >>> 4), some (b &&& 15)] ∧
      ((b >>> 4) <<< 4) ||| (b &&& 15) = b := by
  revert b
  apply forall_byte
  decide

theorem hexPairs_hexPair (i : Nat) (b : UInt8) (rest : Bytes) :
    hexPairs i (utf8 (hexPair b) ++ rest) = (hexPairs (i + 1) rest).map (fun out => b :: out) := by
  rcases hexPair_halves b with ⟨hutf8, hvalues, hb⟩
  rcases List.cons.inj hvalues with ⟨hhi, hvalues⟩
  rcases List.cons.inj hvalues with ⟨hlo, _⟩
  rw [hutf8]
  show hexPairs i (_ :: _ :: rest) = _
  rw [hexPairs, hhi, hlo]
  simp only [hb]

theorem hexPairs_hex16 (i : Nat) (bytes : Bytes) : hexPairs i (utf8 (hex16 bytes)) = .ok bytes := by
  induction bytes generalizing i with
  | nil => rfl
  | cons b bytes ih =>
      show hexPairs i (utf8 (hexPair b ++ hex16 bytes)) = _
      rw [utf8_append, hexPairs_hexPair, ih]
      rfl

theorem length_hex16 (bytes : Bytes) : (utf8 (hex16 bytes)).length = 2 * bytes.length := by
  induction bytes with
  | nil => rfl
  | cons b bytes ih =>
      have hpair : (utf8 (hexPair b)).length = 2 := by
        rw [(hexPair_halves b).left]
        rfl
      show (utf8 (hexPair b ++ hex16 bytes)).length = _
      rw [utf8_append, length_append, hpair, ih, length_cons]
      omega

theorem fromStr_display (hash : DestinationHash) : fromStr hash.display = .ok hash := by
  have hlength : (utf8 hash.display).length = 32 := by
    show (utf8 (hex16 hash.bytes)).length = 32
    rw [length_hex16, hash.length]
  unfold fromStr
  rw [dif_pos hlength]
  split
  · rename_i e hpairs
    rw [display, hexPairs_hex16] at hpairs
    cases hpairs
  · rename_i out hpairs
    have hout := hpairs
    rw [display, hexPairs_hex16] at hout
    cases hout
    rfl

theorem getD_mem_hexDigits {n : Nat} (hn : n < 16) : hexDigits.getD n '0' ∈ hexDigits := by
  have hlength : n < hexDigits.length := hn
  rw [getD_eq_getElem?_getD, getElem?_eq_getElem hlength]
  exact getElem_mem hlength

theorem mem_hexDigits {bytes : Bytes} {c : Char} (h : c ∈ hex16 bytes) : c ∈ hexDigits := by
  rcases mem_flatMap.mp h with ⟨b, _, hc⟩
  have hhi : (b >>> 4).toNat < 16 := by
    have hb := b.toNat_lt
    rw [UInt8.toNat_shiftRight]
    show b.toNat >>> 4 < 16
    rw [Nat.shiftRight_eq_div_pow]
    omega
  have hlo : (b &&& 15).toNat < 16 := by
    rw [UInt8.toNat_and]
    exact Nat.lt_succ_of_le Nat.and_le_right
  rcases mem_cons.mp hc with rfl | hc
  · exact getD_mem_hexDigits hhi
  · rw [mem_singleton.mp hc]
    exact getD_mem_hexDigits hlo

end DestinationHash

/-!
## Escapes
-/

theorem pctBytes_cons {b : UInt8} (rest : Bytes) (hb : b ≠ 37) :
    pctBytes (b :: rest) = (pctBytes rest).map (fun out => b :: out) := by
  rw [pctBytes]
  intro x y rest' hpercent
  exact absurd hpercent hb

variable {x y v : UInt8} {parts parts' : List Bytes} {front bytes : Bytes}

theorem pctBytes_escape {rest : Bytes} (hrest : rest.head?.any isContinuation = false)
    (hv : fromStrRadix16 x y = some v) :
    pctBytes (37 :: x :: y :: rest) = (pctBytes rest).map (fun out => v :: out) := by
  rw [pctBytes, hrest, hv]
  rfl

def upperByte (b : UInt8) : UInt8 :=
  asciiByte (upperDigits.getD b.toNat '0')

set_option maxRecDepth 8000 in
theorem pctByte_shown (b : UInt8) :
    (isUnreserved b = true ->
      utf8 (pctByte b) = [b] ∧ b ≠ 37 ∧ isContinuation b = false) ∧
    (isUnreserved b = false ->
      utf8 (pctByte b) = [37, upperByte (b >>> 4), upperByte (b &&& 15)] ∧
        fromStrRadix16 (upperByte (b >>> 4)) (upperByte (b &&& 15)) = some b) ∧
    '?' ∉ pctByte b ∧ ('/' ∈ pctByte b -> b = asciiByte '/') := by
  revert b
  apply forall_byte
  decide

theorem head_pctEncode (bytes : Bytes) :
    (bytes.flatMap (fun b => utf8 (pctByte b))).head?.any isContinuation = false := by
  cases bytes with
  | nil => rfl
  | cons b bytes =>
      rw [flatMap_cons]
      cases hkind : isUnreserved b with
      | true =>
          rcases (pctByte_shown b).left hkind with ⟨hutf8, _, hfirst⟩
          rw [hutf8]
          exact hfirst
      | false =>
          rw [((pctByte_shown b).right.left hkind).left]
          rfl

theorem pctBytes_pctEncode (bytes : Bytes) :
    pctBytes (bytes.flatMap (fun b => utf8 (pctByte b))) = some bytes := by
  induction bytes with
  | nil => rfl
  | cons b bytes ih =>
      rw [flatMap_cons]
      cases hkind : isUnreserved b with
      | true =>
          rcases (pctByte_shown b).left hkind with ⟨hutf8, hb, _⟩
          rw [hutf8, singleton_append, pctBytes_cons _ hb, ih]
          rfl
      | false =>
          rcases (pctByte_shown b).right.left hkind with ⟨hutf8, hvalue⟩
          rw [hutf8]
          simp only [cons_append, nil_append]
          rw [pctBytes_escape (head_pctEncode bytes) hvalue, ih]
          rfl

theorem pctDecode_pctEncode (s : List Char) : pctDecode (pctEncode s) = some s := by
  unfold pctDecode pctEncode
  rw [utf8_flatMap, pctBytes_pctEncode]
  show some (fromUtf8Lossy (utf8 s)) = some s
  rw [fromUtf8Lossy_utf8]

theorem pctEncode_append (s t : List Char) : pctEncode (s ++ t) = pctEncode s ++ pctEncode t := by
  unfold pctEncode
  rw [utf8_append, flatMap_append]

theorem pctEncode_eq_nil {s : List Char} : pctEncode s = [] <-> s = [] := by
  constructor
  · intro h
    have hback := pctDecode_pctEncode s
    rw [h] at hback
    exact (Option.some.inj hback).symm
  · rintro rfl
    rfl

theorem question_not_mem_pctEncode (s : List Char) : '?' ∉ pctEncode s := by
  intro h
  rcases mem_flatMap.mp h with ⟨b, _, hb⟩
  exact (pctByte_shown b).right.right.left hb

theorem slash_not_mem_pctEncode {s : List Char} (h : '/' ∉ s) : '/' ∉ pctEncode s := by
  intro hmem
  rcases mem_flatMap.mp hmem with ⟨b, hbytes, hb⟩
  rcases mem_flatMap.mp hbytes with ⟨c, hc, hbyte⟩
  rw [(pctByte_shown b).right.right.right hb] at hbyte
  have hne : c ≠ '/' := by
    rintro rfl
    exact h hc
  exact not_mem_utf8EncodeChar (by decide) hne hbyte

theorem pctEncode_intercalate (parts : List (List Char)) :
    pctEncode (['/'].intercalate parts) = ['/'].intercalate (parts.map pctEncode) := by
  induction parts with
  | nil => rfl
  | cons part parts ih =>
      cases parts with
      | nil => simp
      | cons next parts =>
          have hslash : pctEncode ['/'] = ['/'] := rfl
          rw [map_cons, map_cons, intercalate_cons_cons, pctEncode_append,
            pctEncode_append, hslash, ih, map_cons, intercalate_cons_cons]

theorem splitOn_pctEncode (s : List Char) :
    (pctEncode s).splitOn '/' = (s.splitOn '/').map pctEncode := by
  have hparts : pctEncode s = ['/'].intercalate ((s.splitOn '/').map pctEncode) := by
    rw [← pctEncode_intercalate, intercalate_splitOn]
  rw [hparts, splitOn_intercalate]
  · intro part hpart
    rcases mem_map.mp hpart with ⟨before, hbefore, rfl⟩
    exact slash_not_mem_pctEncode (not_mem_of_mem_splitOn hbefore)
  · intro hnil
    exact splitOn_ne_nil '/' s (map_eq_nil_iff.mp hnil)

/-!
## Escaped slashes
-/

/-- Some bytes with every escaped slash written out. -/
def unescapeSlashes : Bytes -> Bytes
  | 37 :: 50 :: 70 :: rest => 47 :: unescapeSlashes rest
  | 37 :: 50 :: 102 :: rest => 47 :: unescapeSlashes rest
  | b :: rest => b :: unescapeSlashes rest
  | [] => []

/-- Lists of pieces that are empty in the same places. -/
def SameGaps (parts parts' : List Bytes) : Prop :=
  Forall₂ (fun part part' => part = [] <-> part' = []) parts parts'

theorem SameGaps.length_eq (h : SameGaps parts parts') : parts.length = parts'.length :=
  Forall₂.length_eq h

theorem SameGaps.nil_mem_iff (h : SameGaps parts parts') : [] ∈ parts <-> [] ∈ parts' := by
  unfold SameGaps at h
  induction h with
  | nil => exact Iff.rfl
  | cons hsame _ ih =>
      rw [mem_cons, mem_cons, ih, eq_comm, hsame, eq_comm]

theorem SameGaps.modifyHead (h : SameGaps parts parts') {front' : Bytes} (hfront : front ≠ [])
    (hfront' : front' ≠ []) : SameGaps (parts.modifyHead (fun part => front ++ part))
      (parts'.modifyHead (fun part => front' ++ part)) := by
  cases h with
  | nil => exact Forall₂.nil
  | cons _ hrest =>
      refine Forall₂.cons ?_ hrest
      simp only [append_eq_nil_iff, hfront, hfront', false_and]

theorem splitOn_append_of_not_mem {sep : UInt8} (rest : Bytes) (h : sep ∉ front) :
    (front ++ rest).splitOn sep = (rest.splitOn sep).modifyHead (fun part => front ++ part) := by
  induction front with
  | nil =>
      cases heq : rest.splitOn sep with
      | nil => exact absurd heq (splitOn_ne_nil sep rest)
      | cons part parts =>
          rw [nil_append, heq]
          rfl
  | cons b front ih =>
      rw [mem_cons, not_or] at h
      rw [cons_append, splitOn_cons_eq_if_modifyHead, ih h.right]
      cases heq : rest.splitOn sep with
      | nil => exact absurd heq (splitOn_ne_nil sep rest)
      | cons part parts =>
          have hb : (b == sep) = false := beq_eq_false_iff_ne.mpr (Ne.symm h.left)
          rw [hb]
          rfl

theorem SameGaps.splitOn_append {bytes' front' : Bytes}
    (h : SameGaps (bytes.splitOn 47) (bytes'.splitOn 47)) (hne : front ≠ []) (hne' : front' ≠ [])
    (hfront : 47 ∉ front) (hfront' : 47 ∉ front') :
    SameGaps ((front ++ bytes).splitOn 47) ((front' ++ bytes').splitOn 47) := by
  rw [splitOn_append_of_not_mem bytes hfront, splitOn_append_of_not_mem bytes' hfront']
  exact h.modifyHead hne hne'

theorem SameGaps.splitOn_cons {bytes' : Bytes} (b : UInt8)
    (h : SameGaps (bytes.splitOn 47) (bytes'.splitOn 47)) :
    SameGaps ((b :: bytes).splitOn 47) ((b :: bytes').splitOn 47) := by
  rcases eq_or_ne b 47 with rfl | hb
  · rw [splitOn_cons_eq_if_modifyHead, splitOn_cons_eq_if_modifyHead]
    exact Forall₂.cons Iff.rfl h
  · have hfront : 47 ∉ [b] := by
      rw [mem_singleton]
      exact hb.symm
    exact h.splitOn_append (cons_ne_nil b []) (cons_ne_nil b []) hfront hfront

set_option maxRecDepth 8000 in
theorem hexVal_digit (b : UInt8) :
    (hexVal b).all (fun v => v.toNat < 16) = true ∧ (hexVal b = some 2 <-> b = 50) ∧
      (hexVal b = some 15 <-> b = 70 ∨ b = 102) := by
  revert b
  apply forall_byte
  decide

theorem hexVal_lt {b : UInt8} (h : hexVal b = some v) : v.toNat < 16 := by
  have hb := (hexVal_digit b).left
  rw [h] at hb
  exact of_decide_eq_true hb

theorem fromStrRadix16_eq_some :
    fromStrRadix16 x y = some v <->
      exists hi lo, (if x = 43 then some 0 else hexVal x) = some hi ∧ hexVal y = some lo ∧
        hi * 16 + lo = v := by
  unfold fromStrRadix16
  constructor
  · intro h
    split at h
    · rename_i hi lo hhi hlo
      exact ⟨hi, lo, hhi, hlo, Option.some.inj h⟩
    · cases h
  · rintro ⟨hi, lo, hhi, hlo, rfl⟩
    rw [hhi, hlo]

theorem fromStrRadix16_slash : fromStrRadix16 x y = some 47 <-> x = 50 ∧ (y = 70 ∨ y = 102) := by
  have hfirst : (if x = 43 then some 0 else hexVal x) = some 2 <-> x = 50 := by
    split
    · rename_i hplus
      rw [hplus]
      decide
    · exact (hexVal_digit x).right.left
  rw [fromStrRadix16_eq_some, ← hfirst, ← (hexVal_digit y).right.right]
  constructor
  · rintro ⟨hi, lo, hhi, hlo, hv⟩
    have hhi16 : hi.toNat < 16 := by
      split at hhi
      · cases hhi
        decide
      · exact hexVal_lt hhi
    have hlo16 := hexVal_lt hlo
    have hvalue := congrArg UInt8.toNat hv
    rw [UInt8.toNat_add, UInt8.toNat_mul] at hvalue
    have htwo : hi = 2 := by
      apply UInt8.toNat.inj
      show hi.toNat = 2
      replace hvalue : (hi.toNat * 16 % 256 + lo.toNat) % 256 = 47 := hvalue
      omega
    have hfifteen : lo = 15 := by
      apply UInt8.toNat.inj
      show lo.toNat = 15
      replace hvalue : (hi.toNat * 16 % 256 + lo.toNat) % 256 = 47 := hvalue
      omega
    rw [htwo] at hhi
    rw [hfifteen] at hlo
    exact ⟨hhi, hlo⟩
  · rintro ⟨hhi, hlo⟩
    exact ⟨2, 15, hhi, hlo, by decide⟩

theorem fromStrRadix16_not_separator (h : fromStrRadix16 x y = some v) :
    x ≠ 37 ∧ x ≠ 47 ∧ y ≠ 37 ∧ y ≠ 47 := by
  rcases fromStrRadix16_eq_some.mp h with ⟨hi, lo, hhi, hlo, _⟩
  refine ⟨?_, ?_, ?_, ?_⟩
  · rintro rfl
    cases hhi
  · rintro rfl
    cases hhi
  · rintro rfl
    cases hlo
  · rintro rfl
    cases hlo

theorem unescapeSlashes_cons {b : UInt8} {rest : Bytes}
    (h : forall x behind, b = 37 -> rest = 50 :: x :: behind -> x ≠ 70 ∧ x ≠ 102) :
    unescapeSlashes (b :: rest) = b :: unescapeSlashes rest := by
  rw [unescapeSlashes]
  · intro behind hb hrest
    exact (h 70 behind hb hrest).left rfl
  · intro behind hb hrest
    exact (h 102 behind hb hrest).right rfl

/-- Written out or decoded, the bytes have the same gaps between slashes. -/
theorem sameGaps_pctBytes {out : Bytes} (h : pctBytes bytes = some out) :
    SameGaps ((unescapeSlashes bytes).splitOn 47) (out.splitOn 47) := by
  fun_induction pctBytes bytes generalizing out with
  | case1 => cases h
  | case2 x y rest _ v hv ih =>
      rcases Option.map_eq_some_iff.mp h with ⟨out', hout, rfl⟩
      rcases eq_or_ne v 47 with rfl | hslash
      · rcases fromStrRadix16_slash.mp hv with ⟨rfl, rfl | rfl⟩
        all_goals exact (ih hout).splitOn_cons 47
      · rcases fromStrRadix16_not_separator hv with ⟨hx, hx', hy, hy'⟩
        have hwritten : unescapeSlashes (37 :: x :: y :: rest) =
            [37, x, y] ++ unescapeSlashes rest := by
          rw [unescapeSlashes_cons, unescapeSlashes_cons, unescapeSlashes_cons]
          · rfl
          · intro _ _ hpercent
            exact absurd hpercent hy
          · intro _ _ hpercent
            exact absurd hpercent hx
          · intro z behind _ hescape
            cases hescape
            constructor
            · rintro rfl
              rw [fromStrRadix16_slash.mpr ⟨rfl, Or.inl rfl⟩] at hv
              exact hslash (Option.some.inj hv).symm
            · rintro rfl
              rw [fromStrRadix16_slash.mpr ⟨rfl, Or.inr rfl⟩] at hv
              exact hslash (Option.some.inj hv).symm
        have hfront : 47 ∉ [37, x, y] := by
          simp [hx'.symm, hy'.symm]
        have hfront' : 47 ∉ [v] := by
          rw [mem_singleton]
          exact hslash.symm
        rw [hwritten]
        exact (ih hout).splitOn_append (cons_ne_nil _ _) (cons_ne_nil v []) hfront hfront'
  | case3 x y rest _ hv ih =>
      rcases Option.map_eq_some_iff.mp h with ⟨out', hout, rfl⟩
      rw [unescapeSlashes_cons]
      · exact (ih hout).splitOn_cons 37
      · intro z behind _ hescape
        cases hescape
        constructor
        · rintro rfl
          rw [fromStrRadix16_slash.mpr ⟨rfl, Or.inl rfl⟩] at hv
          cases hv
        · rintro rfl
          rw [fromStrRadix16_slash.mpr ⟨rfl, Or.inr rfl⟩] at hv
          cases hv
  | case4 b rest hplain ih =>
      rcases Option.map_eq_some_iff.mp h with ⟨out', hout, rfl⟩
      rw [unescapeSlashes_cons]
      · exact (ih hout).splitOn_cons b
      · intro z behind hpercent hescape
        exact (hplain 50 z behind hpercent hescape).elim
  | case5 =>
      cases h
      exact Forall₂.cons Iff.rfl Forall₂.nil

theorem unescapeSlashes_append (front back : Bytes) :
    unescapeSlashes (front ++ 47 :: back) =
      unescapeSlashes front ++ 47 :: unescapeSlashes back := by
  fun_induction unescapeSlashes front with
  | case1 rest ih | case2 rest ih =>
      show 47 :: unescapeSlashes (rest ++ 47 :: back) = _
      rw [ih]
      rfl
  | case3 b rest hupper hlower ih =>
      rw [cons_append, unescapeSlashes_cons, ih]
      · rfl
      · intro z behind hpercent hescape
        rcases rest with _ | ⟨first, _ | ⟨second, rest⟩⟩
        · cases hescape
        · cases hescape
          exact ⟨by decide, by decide⟩
        · cases hescape
          constructor
          · rintro rfl
            exact hupper rest hpercent rfl
          · rintro rfl
            exact hlower rest hpercent rfl
  | case4 =>
      show unescapeSlashes (47 :: back) = _
      rw [unescapeSlashes_cons]
      · rfl
      · intro _ _ hpercent
        exact absurd hpercent (by decide)

/-!
## Authorities
-/

theorem toDigits_not_mem {c : Char} (n : Nat) (h : toDigit 10 c = none) :
    c ∉ Nat.toDigits 10 n := by
  intro hmem
  have hdigit := (digits_toDigits n).right c hmem
  rw [h] at hdigit
  cases hdigit

theorem stripRnsScheme_cons (r n s colon : Char) (rest : List Char) :
    stripRnsScheme (r :: n :: s :: colon :: rest) =
      if r.toLower = 'r' ∧ n.toLower = 'n' ∧ s.toLower = 's' ∧ colon = ':' then some rest
      else none :=
  rfl

theorem stripRnsScheme_rns (rest : List Char) :
    stripRnsScheme ("rns:".toList ++ rest) = some rest := by
  show stripRnsScheme ('r' :: 'n' :: 's' :: ':' :: rest) = some rest
  rw [stripRnsScheme_cons]
  exact if_pos (by decide)

theorem stripRnsScheme_port {host port : List Char} (port' : List Char)
    (h : stripRnsScheme (host ++ ':' :: port) = none) :
    stripRnsScheme (host ++ ':' :: port') = none := by
  rcases host with _ | ⟨r, _ | ⟨n, _ | ⟨s, _ | ⟨colon, host⟩⟩⟩⟩
  · rcases port' with _ | ⟨n, _ | ⟨s, _ | ⟨colon, port'⟩⟩⟩
    · rfl
    · rfl
    · rfl
    · rw [nil_append, stripRnsScheme_cons]
      exact if_neg (fun hscheme => absurd hscheme.left (by decide))
  · rcases port' with _ | ⟨s, _ | ⟨colon, port'⟩⟩
    · rfl
    · rfl
    · rw [singleton_append, stripRnsScheme_cons]
      exact if_neg (fun hscheme => absurd hscheme.right.left (by decide))
  · rcases port' with _ | ⟨colon, port'⟩
    · rfl
    · rw [cons_append, singleton_append, stripRnsScheme_cons]
      exact if_neg (fun hscheme => absurd hscheme.right.right.left (by decide))
  · simp only [cons_append, nil_append, stripRnsScheme_cons] at h ⊢
    split at h
    · cases h
    · rename_i hscheme
      exact if_neg hscheme
  · simp only [cons_append, stripRnsScheme_cons] at h ⊢
    split at h
    · cases h
    · rename_i hscheme
      exact if_neg hscheme

theorem parseAuthority_rns (dest : DestinationHash) :
    parseAuthority (LinkAuthority.rns dest).display = .ok (.rns dest) := by
  have hne : (LinkAuthority.rns dest).display.isEmpty = false := rfl
  have hscheme : stripRnsScheme (LinkAuthority.rns dest).display = some dest.display :=
    stripRnsScheme_rns dest.display
  unfold parseAuthority
  rw [hne, hscheme]
  simp only [Bool.false_eq_true, if_false, DestinationHash.fromStr_display]

theorem parseAuthority_display {a : List Char} {authority : LinkAuthority}
    (h : parseAuthority a = .ok authority) :
    parseAuthority authority.display = .ok authority ∧ ('/' ∉ a -> '/' ∉ authority.display) := by
  have hread := h
  unfold parseAuthority at h
  split at h
  · cases h
  · rename_i hne
    split at h
    · split at h
      · cases h
      · rename_i dest _
        cases h
        refine ⟨parseAuthority_rns dest, fun _ hslash => ?_⟩
        rcases mem_append.mp hslash with hscheme | hhex
        · exact absurd hscheme (by decide)
        · exact absurd (DestinationHash.mem_hexDigits hhex) (by decide)
    · rename_i hscheme
      split at h
      · rename_i host port hsplit
        rcases eq_of_rsplitOnce hsplit with ⟨rfl, _⟩
        split at h
        · cases h
        · rename_i n hport
          split at h
          · cases h
          · rename_i hhost
            cases h
            have hn : (UInt16.ofNat n).toNat = n := by
              have hle := le_of_parseUnsigned hport
              rw [UInt16.toNat_ofNat']
              omega
            have hshown : (LinkAuthority.host host (some (UInt16.ofNat n))).display =
                host ++ ':' :: Nat.toDigits 10 n := by
              show host ++ ':' :: Nat.toDigits 10 (UInt16.ofNat n).toNat = _
              rw [hn]
            rw [hshown]
            constructor
            · have hfull : (host ++ ':' :: Nat.toDigits 10 n).isEmpty = false := by
                cases host with
                | nil | cons c host => rfl
              unfold parseAuthority
              rw [hfull, stripRnsScheme_port _ hscheme,
                rsplitOnce_append host (toDigits_not_mem n rfl)]
              simp only [Bool.false_eq_true, if_false,
                parseUnsigned_toDigits (le_of_parseUnsigned hport), hhost]
            · intro hslash hmem
              rcases mem_append.mp hmem with hin | hin
              · exact hslash (mem_append_left _ hin)
              · rcases mem_cons.mp hin with heq | hdigit
                · exact absurd heq (by decide)
                · exact toDigits_not_mem n rfl hdigit
      · cases h
        exact ⟨hread, fun hslash => hslash⟩

/-!
## Queries
-/

theorem le_trans_hash (a b c : DestinationHash) (hab : a.le b = true) (hbc : b.le c = true) :
    a.le c = true := by
  unfold DestinationHash.le at *
  rw [decide_eq_true_iff] at *
  exact List.le_trans hab hbc

theorem le_total_hash (a b : DestinationHash) : (a.le b || b.le a) = true := by
  unfold DestinationHash.le
  rw [Bool.or_eq_true, decide_eq_true_iff, decide_eq_true_iff]
  exact List.le_total a.bytes b.bytes

/-- Sorted, and each route once. -/
def Canonical (via : List DestinationHash) : Prop :=
  (via.mergeSort DestinationHash.le).destutter (· ≠ ·) = via

theorem canonical_destutter_mergeSort (via : List DestinationHash) :
    Canonical ((via.mergeSort DestinationHash.le).destutter (· ≠ ·)) := by
  have hsorted : ((via.mergeSort DestinationHash.le).destutter (· ≠ ·)).Pairwise
      (fun a b => a.le b = true) :=
    (pairwise_mergeSort le_trans_hash le_total_hash via).sublist
      (destutter_sublist (· ≠ ·) _)
  unfold Canonical
  rw [mergeSort_of_pairwise hsorted, destutter_idem]

theorem canonical_of_queryVia {pairs : List (List Char)} {via : List DestinationHash}
    (h : queryVia pairs = .ok via) : Canonical via := by
  unfold queryVia at h
  cases hroutes : queryRoutes pairs with
  | error e =>
      rw [hroutes] at h
      cases h
  | ok routes =>
      rw [hroutes] at h
      cases h
      exact canonical_destutter_mergeSort routes

def viaPair (via : DestinationHash) : List Char :=
  "via=rns:".toList ++ via.display

theorem queryRoutes_viaPair (via : List DestinationHash) :
    queryRoutes (via.map viaPair) = .ok via := by
  induction via with
  | nil => rfl
  | cons hash via ih =>
      have hroute : ("via=".toList.isPrefixOf? (viaPair hash)).bind stripRnsScheme =
          some hash.display := by
        have hfront : "via=".toList.isPrefixOf? (viaPair hash) =
            some ("rns:".toList ++ hash.display) :=
          isPrefixOf?_append "via=".toList ("rns:".toList ++ hash.display)
        rw [hfront]
        exact stripRnsScheme_rns hash.display
      rw [map_cons, queryRoutes, hroute]
      simp only [DestinationHash.fromStr_display, ih]
      rfl

theorem amp_not_mem_viaPair (via : DestinationHash) : '&' ∉ viaPair via := by
  intro h
  rcases mem_append.mp h with hfront | hhex
  · exact absurd hfront (by decide)
  · exact absurd (DestinationHash.mem_hexDigits hhex) (by decide)

section Shown

variable {hex : Hex}

theorem hex32_encode (id : Id) : hex32 hex (hex.encode id.bytes) = .ok id := by
  unfold hex32
  rw [hex.decode_encode]
  exact dif_pos id.length

theorem hex_not_mem {c : Char} (bytes : Bytes) (hc : c ∉ "0123456789abcdef".toList) :
    c ∉ hex.encode bytes := by
  intro h
  exact hc (hex.digits bytes c h)

theorem queryRoot_viaPair (via : List DestinationHash) :
    queryRoot hex (via.map viaPair) = .ok none := by
  induction via with
  | nil => rfl
  | cons hash via ih => exact ih

theorem queryRoutes_pairs (l : RabbitLink) : queryRoutes (l.pairs hex) = .ok l.rnsVia := by
  rcases l with ⟨authority, target, via⟩
  cases target with
  | manifest id | blob id => exact queryRoutes_viaPair via
  | file area path root =>
      cases root with
      | none | some root => exact queryRoutes_viaPair via

variable {pairs : List (List Char)} {l : RabbitLink} {area : List Char}

theorem queryVia_pairs (h : Canonical l.rnsVia) : queryVia (l.pairs hex) = .ok l.rnsVia := by
  unfold queryVia
  rw [queryRoutes_pairs]
  exact congrArg Except.ok h

theorem queryRoot_pairs {authority : LinkAuthority} {path : List Char} (root : Option Id)
    (via : List DestinationHash) :
    queryRoot hex (RabbitLink.pairs hex ⟨authority, .file area path root, via⟩) = .ok root := by
  cases root with
  | none => exact queryRoot_viaPair via
  | some root =>
      show queryRoot hex (("root=".toList ++ hex.encode root.bytes) :: via.map viaPair) = _
      rw [queryRoot, isPrefixOf?_append]
      show (hex32 hex (hex.encode root.bytes)).map some = _
      rw [hex32_encode]
      rfl

theorem amp_not_mem_pairs {pair : List Char} (h : pair ∈ l.pairs hex) : '&' ∉ pair := by
  have hvia : pair ∈ l.rnsVia.map viaPair -> '&' ∉ pair := by
    intro hpair
    rcases mem_map.mp hpair with ⟨via, _, rfl⟩
    exact amp_not_mem_viaPair via
  rcases mem_append.mp h with hroot | hpair
  · split at hroot
    · rw [mem_singleton.mp hroot]
      intro hamp
      rcases mem_append.mp hamp with hfront | hhex
      · exact absurd hfront (by decide)
      · exact hex_not_mem _ (by decide) hhex
    · cases hroot
  · exact hvia hpair

theorem splitQuery_shown {body : List Char} (hbody : '?' ∉ body)
    (hpairs : forall pair, pair ∈ pairs -> '&' ∉ pair) :
    (splitQuery (body ++ if pairs.isEmpty then [] else '?' :: ['&'].intercalate pairs)).fst =
        body ∧
      queryPairs
        (splitQuery (body ++ if pairs.isEmpty then [] else '?' :: ['&'].intercalate pairs)).snd =
        pairs := by
  cases pairs with
  | nil =>
      have hnone : splitOnce '?' (body ++ []) = none := by
        rw [append_nil]
        exact splitOnce_eq_none.mpr hbody
      show (splitQuery (body ++ [])).fst = body ∧ queryPairs (splitQuery (body ++ [])).snd = []
      unfold splitQuery
      rw [hnone, append_nil]
      exact ⟨rfl, rfl⟩
  | cons pair pairs =>
      have hsome := splitOnce_append (['&'].intercalate (pair :: pairs)) hbody
      show (splitQuery (body ++ '?' :: ['&'].intercalate (pair :: pairs))).fst = body ∧
        queryPairs (splitQuery (body ++ '?' :: ['&'].intercalate (pair :: pairs))).snd =
          pair :: pairs
      unfold splitQuery
      rw [hsome]
      exact ⟨rfl, splitOn_intercalate '&' hpairs (cons_ne_nil pair pairs)⟩

/-!
## Whole links
-/

/-- The part of a shown target behind its first slash. -/
def LinkTarget.body (hex : Hex) : LinkTarget -> List Char
  | .manifest id => "manifest".toList ++ '/' :: hex.encode id.bytes
  | .blob id => "blob".toList ++ '/' :: hex.encode id.bytes
  | .file area path _ => "files".toList ++ '/' :: (pctEncode area ++ '/' :: pctEncode path)

theorem display_eq_body (target : LinkTarget) : target.display hex = '/' :: target.body hex := by
  cases target with
  | manifest id => rfl
  | blob id => rfl
  | file area path root =>
      show "/files/".toList ++ pctEncode area ++ '/' :: pctEncode path = _
      rw [append_assoc]
      rfl

theorem question_not_mem_body (target : LinkTarget) : '?' ∉ target.body hex := by
  intro h
  cases target with
  | manifest id | blob id =>
      rcases mem_append.mp h with hkind | hrest
      · exact absurd hkind (by decide)
      · rcases mem_cons.mp hrest with heq | hhex
        · exact absurd heq (by decide)
        · exact hex_not_mem _ (by decide) hhex
  | file area path root =>
      rcases mem_append.mp h with hkind | hrest
      · exact absurd hkind (by decide)
      · rcases mem_cons.mp hrest with heq | hrest
        · exact absurd heq (by decide)
        · rcases mem_append.mp hrest with harea | hrest
          · exact question_not_mem_pctEncode area harea
          · rcases mem_cons.mp hrest with heq | hpath
            · exact absurd heq (by decide)
            · exact question_not_mem_pctEncode path hpath

theorem body_ne_nil (target : LinkTarget) : target.body hex ≠ [] := by
  cases target with
  | manifest id | blob id | file area path root => exact cons_ne_nil _ _

theorem parse_display (hauthority : parseAuthority l.authority.display = .ok l.authority)
    (hslash : '/' ∉ l.authority.display) (hvia : Canonical l.rnsVia) :
    parse hex (l.display hex) =
      match parseTarget hex (((l.target.body hex).splitOn '/').headD [])
          ((l.target.body hex).splitOn '/').tail (l.pairs hex) with
      | .error stop => .error stop
      | .ok target => .ok ⟨l.authority, target, l.rnsVia⟩ := by
  let tail := if (l.pairs hex).isEmpty then [] else '?' :: ['&'].intercalate (l.pairs hex)
  have hshown : l.display hex =
      "rabbit://".toList ++ (l.authority.display ++ '/' :: (l.target.body hex ++ tail)) := by
    unfold RabbitLink.display
    rw [display_eq_body, append_assoc, append_assoc, cons_append]
  rcases splitQuery_shown (@question_not_mem_body hex l.target)
    (fun pair hpair => amp_not_mem_pairs hpair) with ⟨hfront, hback⟩
  have hne : (l.target.body hex ++ tail).isEmpty = false := by
    cases hbody : l.target.body hex with
    | nil => exact absurd hbody (body_ne_nil l.target)
    | cons c body => rfl
  unfold parse
  rw [hshown, isPrefixOf?_append]
  simp only [splitOnce_append _ hslash, hauthority]
  unfold parsePath
  rw [hne]
  simp only [Bool.false_eq_true, if_false]
  rw [hfront, hback]
  cases parseTarget hex (((l.target.body hex).splitOn '/').headD [])
      ((l.target.body hex).splitOn '/').tail (l.pairs hex) with
  | error stop => rfl
  | ok target => simp only [queryVia_pairs hvia]

theorem parseFile_shown {more : List (List Char)} {root : Option Id}
    (hroot : queryRoot hex pairs = .ok root) :
    parseFile hex ((area :: more).map pctEncode) pairs =
      if area.isEmpty then .error (.error .target)
      else if (more.filter (fun seg => !seg.isEmpty)).isEmpty then .error (.error .target)
      else .ok (.file area (['/'].intercalate (more.filter (fun seg => !seg.isEmpty))) root) := by
  have hempty : forall seg, (pctEncode seg).isEmpty = seg.isEmpty := by
    intro seg
    rw [Bool.eq_iff_iff, List.isEmpty_iff, List.isEmpty_iff]
    exact pctEncode_eq_nil
  have hfilter : (more.map pctEncode).filter (fun seg => !seg.isEmpty) =
      (more.filter (fun seg => !seg.isEmpty)).map pctEncode := by
    rw [filter_map]
    congr 2
    funext seg
    exact congrArg not (hempty seg)
  rw [map_cons]
  unfold parseFile
  simp only [hempty, hfilter, isEmpty_map, hroot, pctDecode_pctEncode,
    ← pctEncode_intercalate]

theorem splitOn_kind_id {kind : List Char} (hkind : '/' ∉ kind) (id : Id) :
    (kind ++ '/' :: hex.encode id.bytes).splitOn '/' = [kind, hex.encode id.bytes] := by
  rw [splitOn_append_cons_self_of_not_mem hkind,
    splitOn_eq_singleton (hex_not_mem id.bytes (by decide))]

theorem parseTarget_shown_manifest (id : Id) (pairs : List (List Char)) :
    parseTarget hex ((((LinkTarget.manifest id).body hex).splitOn '/').headD [])
      (((LinkTarget.manifest id).body hex).splitOn '/').tail pairs = .ok (.manifest id) := by
  have hsegs : ((LinkTarget.manifest id).body hex).splitOn '/' =
      ["manifest".toList, hex.encode id.bytes] :=
    splitOn_kind_id (by decide) id
  rw [hsegs, headD_cons, tail_cons]
  unfold parseTarget
  rw [if_pos rfl, headD_cons, hex32_encode]

theorem parseTarget_shown_blob (id : Id) (pairs : List (List Char)) :
    parseTarget hex ((((LinkTarget.blob id).body hex).splitOn '/').headD [])
      (((LinkTarget.blob id).body hex).splitOn '/').tail pairs = .ok (.blob id) := by
  have hsegs : ((LinkTarget.blob id).body hex).splitOn '/' =
      ["blob".toList, hex.encode id.bytes] :=
    splitOn_kind_id (by decide) id
  have hkind : "blob".toList ≠ "manifest".toList := by decide
  rw [hsegs, headD_cons, tail_cons]
  unfold parseTarget
  rw [if_neg hkind, if_pos rfl, headD_cons, hex32_encode]

theorem splitOn_body_file (area path : List Char) (root : Option Id) :
    ((LinkTarget.file area path root).body hex).splitOn '/' =
      "files".toList :: (area.splitOn '/' ++ path.splitOn '/').map pctEncode := by
  have hkind : '/' ∉ "files".toList := by decide
  show ("files".toList ++ '/' :: (pctEncode area ++ '/' :: pctEncode path)).splitOn '/' = _
  rw [splitOn_append_cons_self_of_not_mem hkind, splitOn_append_cons_self,
    splitOn_pctEncode, splitOn_pctEncode, map_append]

/-- A file comes back when its area has no slash and no segment of its path is empty. -/
theorem parseFile_display_iff {path : List Char} {root : Option Id} (harea : area ≠ [])
    (hroot : queryRoot hex pairs = .ok root) :
    parseFile hex ((area.splitOn '/' ++ path.splitOn '/').map pctEncode) pairs =
        .ok (.file area path root) <->
      '/' ∉ area ∧ [] ∉ path.splitOn '/' := by
  constructor
  · intro h
    cases hparts : area.splitOn '/' with
    | nil => exact absurd hparts (splitOn_ne_nil '/' area)
    | cons first more =>
        rw [hparts, cons_append, parseFile_shown hroot] at h
        split at h
        · cases h
        · split at h
          · cases h
          · rename_i hsome
            injection h with h
            injection h with hfirst hpath _
            have hslash : '/' ∉ area := by
              rw [← hfirst]
              apply not_mem_of_mem_splitOn
              rw [hparts]
              exact mem_cons_self
            refine ⟨hslash, ?_⟩
            rw [splitOn_eq_singleton hslash] at hparts
            cases hparts
            rw [nil_append] at hpath hsome
            have hagain := congrArg (fun text => text.splitOn '/') hpath
            rw [splitOn_intercalate] at hagain
            · rw [← hagain]
              intro hnil
              exact absurd (mem_filter.mp hnil).right (by decide)
            · intro part hpart
              exact not_mem_of_mem_splitOn (mem_filter.mp hpart).left
            · intro hnil
              exact hsome (List.isEmpty_iff.mpr hnil)
  · rintro ⟨hslash, hgaps⟩
    have hall : (path.splitOn '/').filter (fun seg => !seg.isEmpty) = path.splitOn '/' := by
      rw [filter_eq_self]
      intro part hpart
      cases part with
      | nil => exact absurd hpart hgaps
      | cons c part => rfl
    have hfirst : area.isEmpty = false := by
      rw [← Bool.not_eq_true, List.isEmpty_iff]
      exact harea
    have hsegs : (path.splitOn '/').isEmpty = false := by
      rw [← Bool.not_eq_true, List.isEmpty_iff]
      exact splitOn_ne_nil '/' path
    rw [splitOn_eq_singleton hslash, singleton_append, parseFile_shown hroot, hall,
      hfirst, hsegs, intercalate_splitOn]
    rfl

/-!
## From the text that was read
-/

theorem parseTarget_ok {kind : List Char} {segs : List (List Char)} {target : LinkTarget}
    (h : parseTarget hex kind segs pairs = .ok target) :
    (kind ≠ "files".toList ∧ exists id, target = .manifest id ∨ target = .blob id) ∨
      (kind = "files".toList ∧ parseFile hex segs pairs = .ok target) := by
  unfold parseTarget at h
  split at h
  · rename_i hkind
    split at h
    · cases h
    · rename_i id _
      cases h
      exact Or.inl ⟨by rw [hkind]; decide, id, Or.inl rfl⟩
  · split at h
    · rename_i hkind
      split at h
      · cases h
      · rename_i id _
        cases h
        exact Or.inl ⟨by rw [hkind]; decide, id, Or.inr rfl⟩
    · split at h
      · rename_i hkind
        exact Or.inr ⟨hkind, h⟩
      · cases h

theorem parseFile_ok {segs : List (List Char)} {target : LinkTarget}
    (h : parseFile hex segs pairs = .ok target) :
    exists area more decoded path root, segs = area :: more ∧ area ≠ [] ∧
      more.filter (fun seg => !seg.isEmpty) ≠ [] ∧ pctDecode area = some decoded ∧
      pctDecode (['/'].intercalate (more.filter (fun seg => !seg.isEmpty))) = some path ∧
      target = .file decoded path root := by
  unfold parseFile at h
  split at h
  · cases h
  · rename_i area more
    split at h
    · cases h
    · rename_i harea
      split at h
      · cases h
      · rename_i hmore
        split at h
        · cases h
        · rename_i root _
          split at h
          · cases h
          · rename_i decoded hdecoded
            split at h
            · cases h
            · rename_i path hpath
              cases h
              refine ⟨area, more, decoded, path, root, rfl, ?_, ?_, hdecoded, hpath, rfl⟩
              · intro hnil
                exact harea (isEmpty_iff.mpr hnil)
              · intro hnil
                exact hmore (isEmpty_iff.mpr hnil)

/-- The segments behind the authority, as they are written. -/
def linkSegments (s : List Char) : List (List Char) :=
  match "rabbit://".toList.isPrefixOf? s with
  | none => []
  | some rest =>
      match splitOnce '/' rest with
      | none => []
      | some (_, pathq) => (splitQuery pathq).fst.splitOn '/'

theorem parse_ok {s : List Char} (h : parse hex s = .ok l) :
    (exists front, parseAuthority front = .ok l.authority ∧ '/' ∉ front) ∧
      (exists pairs, parseTarget hex ((linkSegments s).headD []) (linkSegments s).tail pairs =
        .ok l.target) ∧ Canonical l.rnsVia := by
  unfold parse at h
  unfold linkSegments
  split at h
  · cases h
  · rename_i rest hscheme
    split at h
    · cases h
    · rename_i front pathq hsplit
      split at h
      · cases h
      · rename_i authority hauthority
        unfold parsePath at h
        split at h
        · cases h
        · dsimp only at h
          split at h
          · cases h
          · rename_i target htarget
            split at h
            · cases h
            · rename_i via hvia
              cases h
              simp only [hscheme, hsplit]
              exact ⟨⟨front, hauthority, (eq_of_splitOnce hsplit).right⟩, ⟨_, htarget⟩,
                canonical_of_queryVia hvia⟩

end Shown

theorem length_splitOn_eq_one {value : Type} [DecidableEq value] {sep : value}
    {xs : List value} : (xs.splitOn sep).length = 1 <-> sep ∉ xs := by
  constructor
  · intro h hmem
    rcases eq_append_cons_of_mem hmem with ⟨front, back, rfl, hfront⟩
    rw [splitOn_append_cons_self_of_not_mem hfront, length_cons] at h
    exact splitOn_ne_nil sep back (length_eq_zero_iff.mp (Nat.succ.inj h))
  · intro h
    rw [splitOn_eq_singleton h]
    rfl

variable {text decoded : List Char}

section

variable (h : pctDecode text = some decoded)
include h

theorem splitOn_pctDecode :
    exists out, pctBytes (utf8 text) = some out ∧
      decoded.splitOn '/' = (out.splitOn 47).map fromUtf8Lossy := by
  rcases Option.map_eq_some_iff.mp h with ⟨out, hout, rfl⟩
  exact ⟨out, hout, splitOn_fromUtf8Lossy (by decide) out⟩

theorem slash_mem_pctDecode_iff : '/' ∉ decoded <-> 47 ∉ unescapeSlashes (utf8 text) := by
  rcases splitOn_pctDecode h with ⟨out, hout, hsplit⟩
  rw [← length_splitOn_eq_one, ← length_splitOn_eq_one, hsplit, length_map,
    (sameGaps_pctBytes hout).length_eq]

theorem gap_mem_pctDecode_iff :
    [] ∈ decoded.splitOn '/' <-> [] ∈ (unescapeSlashes (utf8 text)).splitOn 47 := by
  rcases splitOn_pctDecode h with ⟨out, hout, hsplit⟩
  rw [hsplit, (sameGaps_pctBytes hout).nil_mem_iff, mem_map]
  constructor
  · rintro ⟨part, hpart, hnil⟩
    rw [fromUtf8Lossy_eq_nil_iff.mp hnil] at hpart
    exact hpart
  · intro hnil
    exact ⟨[], hnil, rfl⟩

theorem pctDecode_ne_nil (hne : text ≠ []) : decoded ≠ [] := by
  rcases Option.map_eq_some_iff.mp h with ⟨out, hout, rfl⟩
  intro hnil
  rw [fromUtf8Lossy_eq_nil_iff.mp hnil] at hout
  have hbytes : utf8 text = [] := by
    cases hutf8 : utf8 text with
    | nil => rfl
    | cons b bytes =>
        rw [hutf8] at hout
        unfold pctBytes at hout
        split at hout
        · split at hout
          · cases hout
          · split at hout
            all_goals
              rcases Option.map_eq_some_iff.mp hout with ⟨_, _, hcons⟩
              cases hcons
        · rcases Option.map_eq_some_iff.mp hout with ⟨_, _, hcons⟩
          cases hcons
        · rename_i hempty
          cases hempty
  have hback := fromUtf8Lossy_utf8 text
  rw [hbytes] at hback
  exact hne hback.symm

end

theorem splitOn_unescapeSlashes_intercalate {segs : List (List Char)} (hne : segs ≠ []) :
    (unescapeSlashes (utf8 (['/'].intercalate segs))).splitOn 47 =
      segs.flatMap (fun seg => (unescapeSlashes (utf8 seg)).splitOn 47) := by
  induction segs with
  | nil => exact absurd rfl hne
  | cons seg segs ih =>
      cases segs with
      | nil => simp
      | cons next segs =>
          have hslash : utf8 ['/'] = [47] := rfl
          rw [intercalate_cons_cons, utf8_append, utf8_append, hslash, append_assoc,
            singleton_append, unescapeSlashes_append, splitOn_append_cons_self,
            ih (cons_ne_nil next segs)]
          rfl

/--
The area has no escaped slash, and no segment of the path has one at its beginning, at
its end or next to another.
-/
def SlashesKept (s : List Char) : Prop :=
  match linkSegments s with
  | kind :: area :: more =>
      kind = "files".toList ->
        47 ∉ unescapeSlashes (utf8 area) ∧
          forall seg, seg ∈ more -> seg ≠ [] -> [] ∉ (unescapeSlashes (utf8 seg)).splitOn 47
  | _ => True

/-- Of a link that was read, the shown form is read as that link, and is shown the same. -/
def ShownAsRead (hex : Hex) (l : RabbitLink) : Prop :=
  exists l', parse hex (l.display hex) = .ok l' ∧ l' = l ∧ l'.display hex = l.display hex

theorem shownAsRead_iff {hex : Hex} {l : RabbitLink} :
    ShownAsRead hex l <-> parse hex (l.display hex) = .ok l := by
  constructor
  · rintro ⟨l', hparse, rfl, _⟩
    exact hparse
  · intro hparse
    exact ⟨l, hparse, rfl, rfl⟩

/--
What is shown of a link that was read is read as that link exactly when no slash was
escaped where a plain slash means something else.
-/
theorem shown_as_read_iff_slashes_kept (hex : Hex) {s : List Char} {l : RabbitLink}
    (h : parse hex s = .ok l) : ShownAsRead hex l <-> SlashesKept s := by
  rcases parse_ok h with ⟨⟨front, hfront, hslash⟩, ⟨pairs, htarget⟩, hvia⟩
  rcases parseAuthority_display hfront with ⟨hauthority, hclean⟩
  have hread : parse hex (l.display hex) = .ok l <->
      parseTarget hex (((l.target.body hex).splitOn '/').headD [])
        ((l.target.body hex).splitOn '/').tail (l.pairs hex) = .ok l.target := by
    rw [parse_display hauthority (hclean hslash) hvia]
    cases parseTarget hex (((l.target.body hex).splitOn '/').headD [])
        ((l.target.body hex).splitOn '/').tail (l.pairs hex) with
    | error stop => exact ⟨nofun, nofun⟩
    | ok target =>
        constructor
        · intro heq
          exact congrArg (fun r => r.map RabbitLink.target) heq
        · intro heq
          cases heq
          rfl
  rw [shownAsRead_iff, hread]
  rcases parseTarget_ok htarget with ⟨hkind, id, hid⟩ | ⟨hkind, hfile⟩
  · have hkept : SlashesKept s := by
      unfold SlashesKept
      split
      · rename_i kind area more hsegs
        rw [hsegs] at hkind
        intro hfiles
        exact absurd hfiles hkind
      · trivial
    refine ⟨fun _ => hkept, fun _ => ?_⟩
    rcases hid with hid | hid
    · rw [hid]
      exact parseTarget_shown_manifest id (l.pairs hex)
    · rw [hid]
      exact parseTarget_shown_blob id (l.pairs hex)
  · rcases parseFile_ok hfile with
      ⟨area, more, decoded, path, root, hsegs, harea, hmore, hdecoded, hpath, hl⟩
    have hparts : linkSegments s = "files".toList :: area :: more := by
      cases hwritten : linkSegments s with
      | nil =>
          rw [hwritten] at hsegs
          cases hsegs
      | cons kind segs =>
          rw [hwritten] at hkind hsegs
          replace hkind : kind = "files".toList := hkind
          replace hsegs : segs = area :: more := hsegs
          rw [hkind, hsegs]
    have hroot : queryRoot hex (l.pairs hex) = .ok root := by
      rcases l with ⟨authority, target, via⟩
      replace hl : target = .file decoded path root := hl
      rw [hl]
      exact queryRoot_pairs root via
    have hkept : SlashesKept s <-> 47 ∉ unescapeSlashes (utf8 area) ∧
        forall seg, seg ∈ more -> seg ≠ [] -> [] ∉ (unescapeSlashes (utf8 seg)).splitOn 47 := by
      unfold SlashesKept
      rw [hparts]
      exact ⟨fun hkept => hkept rfl, fun hkept _ => hkept⟩
    rw [hl, splitOn_body_file]
    show parseFile hex ((decoded.splitOn '/' ++ path.splitOn '/').map pctEncode) (l.pairs hex) =
      _ <-> _
    rw [parseFile_display_iff (pctDecode_ne_nil hdecoded harea) hroot, hkept,
      slash_mem_pctDecode_iff hdecoded, gap_mem_pctDecode_iff hpath, splitOn_unescapeSlashes_intercalate hmore]
    apply and_congr_right
    intro _
    rw [mem_flatMap]
    constructor
    · intro hgaps seg hseg hne hnil
      apply hgaps
      refine ⟨seg, mem_filter.mpr ⟨hseg, ?_⟩, hnil⟩
      cases seg with
      | nil => exact absurd rfl hne
      | cons c seg => rfl
    · rintro hgaps ⟨seg, hseg, hnil⟩
      rcases mem_filter.mp hseg with ⟨hmem, hfull⟩
      apply hgaps seg hmem _ hnil
      rintro rfl
      cases hfull

def lowerHex : Hex where
  encode := DestinationHash.hex16
  decode := fun s =>
    if (utf8 s).length % 2 = 0 then (hexPairs 0 (utf8 s)).toOption else none
  decode_encode := by
    intro bytes
    rw [DestinationHash.length_hex16, if_pos (Nat.mul_mod_right 2 _),
      DestinationHash.hexPairs_hex16]
    rfl
  digits := by
    intro bytes c hc
    exact DestinationHash.mem_hexDigits hc

def nestedLink : RabbitLink where
  authority := .host "h".toList (some 4653)
  target := .file "warez".toList "iso/big one".toList none
  rnsVia := []

theorem shown_as_read_iff_slashes_kept_nested : ShownAsRead lowerHex nestedLink := by
  have hread : parse lowerHex "rabbit://h:+4653/files/warez/iso%2Fbig%20one?x=1".toList =
      .ok nestedLink := by
    decide +kernel
  have hsegs : linkSegments "rabbit://h:+4653/files/warez/iso%2Fbig%20one?x=1".toList =
      ["files".toList, "warez".toList, "iso%2Fbig%20one".toList] := by
    decide
  apply (shown_as_read_iff_slashes_kept lowerHex hread).mpr
  unfold SlashesKept
  rw [hsegs]
  intro _
  constructor
  · decide
  · intro seg hseg _
    rw [mem_singleton.mp hseg]
    decide

def slashedLink : RabbitLink where
  authority := .host "h".toList none
  target := .file "a/b".toList "c".toList none
  rnsVia := []

theorem escaped_slash_splits_area :
    ¬ (forall s l, parse lowerHex s = .ok l -> ShownAsRead lowerHex l) := by
  intro hall
  have hread : parse lowerHex "rabbit://h/files/a%2Fb/c".toList = .ok slashedLink := by
    decide +kernel
  have hback := shownAsRead_iff.mp (hall _ slashedLink hread)
  have hother : parse lowerHex (slashedLink.display lowerHex) =
      .ok ⟨.host "h".toList none, .file "a".toList "b/c".toList none, []⟩ := by
    decide +kernel
  rw [hother] at hback
  exact absurd hback (by decide)

end Rabbithole.Link
