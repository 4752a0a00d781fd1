import Rabbithole.Qwk.RepReading

/-!
# Two readings of a count of blocks

The packet parser takes the NULs and spaces off the end of a count and reads the rest as
Latin-1; the reader of archives reads the six bytes as UTF-8 and trims white space.  It reads
what the packet parser reads, unless there is a NUL, or one of the two bytes above the ASCII
ones that are white space in Latin-1.
-/

namespace Rabbithole.Qwk

open Foundation List

/-- The bytes that only the packet parser takes off a count. -/
def isForeign (b : UInt8) : Bool :=
  b == 0 || b == 0x85 || b == 0xA0

/-- The counts of the records that the packet parser reads, as they stand in the bytes. -/
def countFields (bytes : Bytes) : List Bytes :=
  match hread : decodeMessage bytes with
  | .error _ => []
  | .ok (_, _, consumed) => fieldAt bytes 116 6 :: countFields (bytes.drop consumed)
termination_by bytes.length
decreasing_by
  rcases decodeMessage_ok hread with ⟨totalBlocks, hcount, hconsumed, hblock, hlength, hmsg⟩
  have hpos : 0 < block := by decide
  rw [length_drop]
  omega

theorem countFields_of_ok {bytes : Bytes} {msg : QwkMessage} {logical : UInt16} {consumed : Nat}
    (h : decodeMessage bytes = .ok (msg, logical, consumed)) :
    countFields bytes = fieldAt bytes 116 6 :: countFields (bytes.drop consumed) := by
  rw [countFields]
  split
  · rename_i e heq
    rw [h] at heq
    cases heq
  · rename_i msg' logical' consumed' heq
    rw [h] at heq
    cases heq
    rfl

theorem countFields_nil : countFields [] = [] := by
  rw [countFields]
  rfl

/-!
## One count
-/

variable {totalBlocks : Nat} {b : UInt8} {field : Bytes}

set_option maxRecDepth 8000 in
theorem isWhitespace_latin1 (h : isWhitespace (Char.ofNat b.toNat) = true) :
    b.toNat < 128 ∨ isForeign b = true := by
  have hall : forall n : Fin 256, isWhitespace (Char.ofNat n.val) = true ->
      n.val < 128 ∨ isForeign (UInt8.ofNat n.val) = true := by decide
  have hb := hall ⟨b.toNat, b.toNat_lt⟩ h
  rw [UInt8.ofNat_toNat] at hb
  exact hb

theorem blockCount_parse {hdr : Bytes} (h : blockCount hdr = .ok totalBlocks) :
    parseUnsigned usizeMax (trimText (readField (fieldAt hdr 116 6))) = some totalBlocks ∧
      1 <= totalBlocks := by
  have hpos := one_le_blockCount h
  unfold blockCount at h
  dsimp only at h
  split at h
  · cases h
  · split at h
    · cases h
    · rename_i n hparse
      split at h
      · cases h
      · cases h
        exact ⟨hparse, hpos⟩

theorem byte_of_count (h : parseUnsigned usizeMax (trimText (readField field)) = some totalBlocks)
    (hb : b ∈ field) : b.toNat < 128 ∨ isForeign b = true := by
  by_cases hpadding : isPadding b = true
  · unfold isPadding at hpadding
    rw [Bool.or_eq_true, beq_iff_eq, beq_iff_eq] at hpadding
    rcases hpadding with rfl | rfl
    all_goals exact Or.inl (by decide)
  · have hchar : Char.ofNat b.toNat ∈ readField field := by
      unfold readField decodeLatin1 List.rdropWhile
      apply mem_map_of_mem
      rw [mem_reverse]
      exact mem_of_mem_dropWhile (mem_reverse.mpr hb) (Bool.not_eq_true _ ▸ hpadding)
    by_cases hwhite : isWhitespace (Char.ofNat b.toNat) = true
    · exact isWhitespace_latin1 hwhite
    · have hread := digit_of_parseUnsigned h
        (mem_trimText hchar (Bool.not_eq_true _ ▸ hwhite))
      have hvalue := toNat_ofNat_byte b
      left
      rcases hread with hplus | hdigit
      · rw [hplus] at hvalue
        rw [← hvalue]
        decide
      · rw [← hvalue]
        have hhigh := (toNat_of_toDigit hdigit).right
        omega

theorem utf8_decodeLatin1 {bytes : Bytes} (h : forall b, b ∈ bytes -> b.toNat < 128) :
    utf8 (decodeLatin1 bytes) = bytes := by
  induction bytes with
  | nil => rfl
  | cons b bytes ih =>
      have hlt := h b mem_cons_self
      have hval : (Char.ofNat b.toNat).val.toNat = b.toNat := toNat_ofNat_byte b
      have hbyte : asciiByte (Char.ofNat b.toNat) = b := by
        apply UInt8.toNat_inj.mp
        rw [toNat_asciiByte (by omega), hval]
      show String.utf8EncodeChar (Char.ofNat b.toNat) ++ utf8 (decodeLatin1 bytes) = b :: bytes
      rw [utf8EncodeChar_ascii (by omega), hbyte, ih (fun b' hb' => h b' (mem_cons_of_mem b hb'))]
      rfl

theorem isForeign_false (hb : b.toNat < 128) (hforeign : isForeign b = false)
    (hpadding : isPadding b = true) : b = 0x20 := by
  unfold isPadding at hpadding
  rw [Bool.or_eq_true, beq_iff_eq, beq_iff_eq] at hpadding
  rcases hpadding with rfl | rfl
  · rfl
  · cases hforeign

section

variable (h : parseUnsigned usizeMax (trimText (readField field)) = some totalBlocks)
include h

theorem countedBlocks_same (hpos : 1 <= totalBlocks)
    (hforeign : forall b, b ∈ field -> isForeign b = false) :
    countedBlocks field = some totalBlocks := by
  have hascii : forall b, b ∈ field -> b.toNat < 128 := by
    intro b hb
    rcases byte_of_count h hb with hlt | hyes
    · exact hlt
    · rw [hforeign b hb] at hyes
      cases hyes
  have htext : fromUtf8? field = some (decodeLatin1 field) :=
    fromUtf8?_eq_some_iff.mpr (utf8_decodeLatin1 hascii).symm
  have htrim : trimText (decodeLatin1 field) = trimText (readField field) := by
    have hsplit : field = field.rdropWhile isPadding ++ field.rtakeWhile isPadding :=
      (rdropWhile_append_rtakeWhile).symm
    conv => lhs; rw [hsplit]
    unfold readField decodeLatin1
    rw [map_append]
    apply trimText_append
    intro c hc
    rcases mem_map.mp hc with ⟨b, hb, rfl⟩
    have hmem : b ∈ field := by
      rw [hsplit]
      exact mem_append_right _ hb
    rw [isForeign_false (hascii b hmem) (hforeign b hmem) (mem_rtakeWhile_imp hb)]
    rfl
  unfold countedBlocks
  rw [htext, Option.bind_some, htrim, h, Option.filter_some]
  exact if_pos (decide_eq_true hpos)

/-- A NUL is no white space to the reader of archives, and the other foreign bytes are no
UTF-8 without a byte before them that a count does not have. -/
theorem countedBlocks_foreign (hb : b ∈ field) (hforeign : isForeign b = true) :
    countedBlocks field = none := by
  unfold countedBlocks
  cases htext : fromUtf8? field with
  | none => rfl
  | some s =>
      have hfield := fromUtf8?_eq_some_iff.mp htext
      rw [Option.bind_some]
      have hchar : exists c, c ∈ s ∧ b ∈ String.utf8EncodeChar c := by
        rw [hfield] at hb
        exact mem_flatMap.mp hb
      rcases hchar with ⟨c, hc, hbyte⟩
      have hnarrow : c.val.toNat <= 127 := by
        by_contra hwide
        rcases utf8EncodeChar_continues c with ⟨first, rest, heq, hfirst, -⟩
        have hmem : first ∈ String.utf8EncodeChar c := by
          rw [heq]
          exact mem_cons_self
        have hhigh := le_of_mem_utf8EncodeChar (Nat.lt_of_not_le hwide) hmem
        have hin : first ∈ field := by
          rw [hfield]
          exact mem_flatMap.mpr ⟨c, hc, hmem⟩
        rcases byte_of_count h hin with hlt | hyes
        · omega
        · unfold isForeign at hyes
          rw [Bool.or_eq_true, Bool.or_eq_true, beq_iff_eq, beq_iff_eq, beq_iff_eq] at hyes
          rcases hyes with (rfl | rfl) | rfl
          · exact absurd hhigh (by decide)
          · cases hfirst
          · cases hfirst
      have hone : b = asciiByte c := by
        rw [utf8EncodeChar_ascii hnarrow] at hbyte
        exact mem_singleton.mp hbyte
      have hvalue : b.toNat = c.toNat := by
        rw [hone]
        exact toNat_asciiByte hnarrow
      have hnul : c = '\x00' := by
        have hlt : b.toNat < 128 := by
          rw [hvalue]
          exact Nat.lt_succ_of_le hnarrow
        unfold isForeign at hforeign
        rw [Bool.or_eq_true, Bool.or_eq_true, beq_iff_eq, beq_iff_eq, beq_iff_eq] at hforeign
        rcases hforeign with (rfl | rfl) | rfl
        · rw [← Char.ofNat_toNat c, ← hvalue]
          rfl
        all_goals exact absurd hlt (by decide)
      subst hnul
      cases hparse : parseUnsigned usizeMax (trimText s) with
      | none => rfl
      | some n =>
          rcases digit_of_parseUnsigned hparse (mem_trimText hc rfl) with hplus | hdigit
          · exact absurd hplus (by decide)
          · cases hdigit

/-- So the reader of archives reads a count that the packet parser reads if and only if it has
no foreign byte. -/
theorem countedBlocks_iff (hpos : 1 <= totalBlocks) :
    countedBlocks field =
      if field.all (fun b => !isForeign b) then some totalBlocks else none := by
  by_cases hall : field.all (fun b => !isForeign b) = true
  · rw [if_pos hall]
    apply countedBlocks_same h hpos
    intro b hb
    have hb' := all_eq_true.mp hall b hb
    rw [Bool.not_eq_true'] at hb'
    exact hb'
  · rw [if_neg hall]
    rw [all_eq_true] at hall
    push Not at hall
    rcases hall with ⟨b, hb, hforeign⟩
    apply countedBlocks_foreign h hb
    rw [Ne, Bool.not_eq_true', Bool.not_eq_false] at hforeign
    exact hforeign

end

end Rabbithole.Qwk
