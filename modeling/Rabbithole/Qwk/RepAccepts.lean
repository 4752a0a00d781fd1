import Rabbithole.Qwk.RepCounts

/-!
# What the reader of archives accepts

The reader of archives and the packet parser walk the same records, and agree on a member
where they agree on the counts of its blocks.
-/

namespace Rabbithole.Qwk

open Foundation List

/-!
## Counting the records of a member
-/

theorem decodeRecords_cases {bytes : Bytes} {read : List (QwkMessage × UInt16)}
    (h : decodeRecords bytes = .ok read) :
    (bytes = [] ∧ read = []) ∨
      exists msg logical consumed others, decodeMessage bytes = .ok (msg, logical, consumed) ∧
        decodeRecords (bytes.drop consumed) = .ok others ∧ read = (msg, logical) :: others := by
  by_cases hnil : bytes = []
  · subst hnil
    rw [decodeRecords_nil] at h
    cases h
    exact Or.inl ⟨rfl, rfl⟩
  · right
    cases hmsg : decodeMessage bytes with
    | error e =>
        rw [decodeRecords_of_error hnil hmsg] at h
        cases h
    | ok triple =>
        rcases triple with ⟨msg, logical, consumed⟩
        rw [decodeRecords_of_ok hmsg] at h
        cases hothers : decodeRecords (bytes.drop consumed) with
        | error e =>
            rw [hothers] at h
            cases h
        | ok others =>
            rw [hothers] at h
            cases h
            exact ⟨msg, logical, consumed, others, rfl, hothers, rfl⟩

theorem countedBlocks_of_ok {bytes : Bytes} {msg : QwkMessage} {logical : UInt16} {consumed : Nat}
    (h : decodeMessage bytes = .ok (msg, logical, consumed)) :
    exists totalBlocks, consumed = totalBlocks * block ∧ 1 <= totalBlocks ∧
      consumed <= bytes.length ∧ block <= bytes.length ∧
      countedBlocks (fieldAt bytes 116 6) =
        if (fieldAt bytes 116 6).all (fun b => !isForeign b) then some totalBlocks else none := by
  rcases decodeMessage_ok h with ⟨totalBlocks, hcount, hconsumed, hblock, hlength, -⟩
  rcases blockCount_parse hcount with ⟨hparse, hpos⟩
  have hfield : fieldAt (bytes.take block) 116 6 = fieldAt bytes 116 6 := by
    conv => rhs; rw [← take_append_drop block bytes]
    rw [fieldAt_append]
    rw [length_take, Nat.min_eq_left (Nat.le_trans hblock hlength)]
    decide
  rw [hfield] at hparse
  exact ⟨totalBlocks, hconsumed, hpos, hlength, Nat.le_trans hblock hlength,
    countedBlocks_iff hparse hpos⟩

/-- No count has a byte that only the packet parser takes off. -/
def CleanCounts (bytes : Bytes) : Prop :=
  forall field, field ∈ countFields bytes -> field.all (fun b => !isForeign b) = true

/-- The records behind an offset are counted through if and only if no count has a foreign byte
and there are not too many of them. -/
theorem countReplies_iff {member : Bytes} (hsmall : member.length <= usizeMax) (fuel : Nat)
    {offset count : Nat} {read : List (QwkMessage × UInt16)}
    (hread : decodeRecords (member.drop offset) = .ok read)
    (hfuel : member.length <= offset + fuel) (hcount : count <= maxReplies) :
    countReplies member fuel offset count = .ok () <->
      CleanCounts (member.drop offset) ∧ count + read.length <= maxReplies := by
  induction fuel generalizing offset count read with
  | zero =>
      have hnil : member.drop offset = [] := drop_eq_nil_of_le (by omega)
      rw [hnil, decodeRecords_nil] at hread
      cases hread
      rw [hnil]
      unfold CleanCounts
      rw [countFields_nil]
      constructor
      · intro _
        exact ⟨nofun, hcount⟩
      · intro _
        rfl
  | succ fuel ih =>
      by_cases hend : member.length <= offset
      · have hnil : member.drop offset = [] := drop_eq_nil_of_le hend
        rw [hnil, decodeRecords_nil] at hread
        cases hread
        rw [hnil]
        unfold CleanCounts countReplies
        rw [countFields_nil, if_pos hend]
        constructor
        · intro _
          exact ⟨nofun, hcount⟩
        · intro _
          rfl
      · rcases decodeRecords_cases hread with ⟨hnil, -⟩ |
          ⟨msg, logical, consumed, others, hmsg, hothers, rfl⟩
        · exact absurd (drop_eq_nil_iff.mp hnil) hend
        · rcases countedBlocks_of_ok hmsg with
            ⟨totalBlocks, hconsumed, hpos, hlength, hblock, hcounted⟩
          have hplace : fieldAt member (offset + 116) 6 = fieldAt (member.drop offset) 116 6 := by
            unfold fieldAt
            rw [drop_drop]
          have hbytes : block <= member.length - offset := by
            rw [length_drop] at hblock
            exact hblock
          have hin : offset + 116 + 6 <= member.length := by
            unfold block at hbytes
            omega
          have hfits : offset + consumed <= member.length := by
            rw [length_drop] at hlength
            omega
          have hclean : CleanCounts (member.drop offset) <->
              (fieldAt (member.drop offset) 116 6).all (fun b => !isForeign b) = true ∧
                CleanCounts (member.drop (offset + consumed)) := by
            unfold CleanCounts
            rw [countFields_of_ok hmsg, drop_drop, forall_mem_cons]
          unfold countReplies
          rw [if_neg hend, bytesAt_of hsmall hin, ok_bind, hplace, hcounted, hclean]
          by_cases hall : (fieldAt (member.drop offset) 116 6).all (fun b => !isForeign b) = true
          · have htotal : totalBlocks * 128 = consumed := hconsumed.symm
            rw [if_pos hall]
            dsimp only
            rw [ok_bind, htotal, require_of _ (decide_eq_true (by omega)), ok_bind,
              checkedAdd_of _ (by omega), ok_bind, require_of _ (decide_eq_true hfits), ok_bind]
            by_cases hroom : count + 1 <= maxReplies
            · rw [drop_drop] at hothers
              rw [require_of _ (decide_eq_true hroom), ok_bind,
                ih hothers (by have hpositive : 0 < block := by decide
                               have hle := Nat.le_mul_of_pos_left block hpos
                               omega) hroom]
              rw [length_cons, and_iff_right hall, Nat.add_assoc, Nat.add_comm 1]
            · unfold require
              rw [if_neg (by rw [decide_eq_true_iff]; exact hroom)]
              constructor
              · intro herr
                cases herr
              · rintro ⟨-, hle⟩
                rw [length_cons] at hle
                omega
          · rw [if_neg hall]
            constructor
            · intro herr
              cases herr
            · rintro ⟨⟨hyes, -⟩, -⟩
              exact absurd hyes hall

/-- The packet parser reads the member, as so many replies as allowed and for this board. -/
def Acceptable (member : Bytes) (bbsId : List Char) (packet : ReplyPacket) : Prop :=
  ReplyPacket.parse member = .ok packet ∧ packet.replies.length <= maxReplies ∧
    eqIgnoreAsciiCase packet.header bbsId = true

theorem parse_cases {member : Bytes} {packet : ReplyPacket}
    (h : ReplyPacket.parse member = .ok packet) :
    exists read, decodeRecords (member.drop block) = .ok read ∧
      packet.replies.length = read.length := by
  unfold ReplyPacket.parse at h
  split at h
  · cases h
  · cases hread : decodeRecords (member.drop block) with
    | error e =>
        rw [hread] at h
        cases h
    | ok read =>
        rw [hread] at h
        cases h
        exact ⟨read, rfl, length_map _⟩

theorem readPacket_iff {member : Bytes} (hsmall : member.length <= usizeMax) (bbsId : List Char)
    (packet : ReplyPacket) :
    readPacket member bbsId = .ok packet <->
      Acceptable member bbsId packet ∧ CleanCounts (member.drop block) := by
  unfold readPacket Acceptable
  cases hparse : ReplyPacket.parse member with
  | error e =>
      constructor
      · intro h
        cases hcounted : countReplies member member.length 128 0 with
        | error err | ok u =>
            rw [hcounted] at h
            cases h
      · rintro ⟨⟨heq, -⟩, -⟩
        cases heq
  | ok packet' =>
      rcases parse_cases hparse with ⟨read, hread, hlength⟩
      have hcounted := countReplies_iff hsmall member.length hread
        (Nat.le_add_left member.length block) (Nat.zero_le maxReplies)
      rw [Nat.zero_add, ← hlength] at hcounted
      by_cases hok : countReplies member member.length 128 0 = .ok ()
      · rcases hcounted.mp hok with ⟨hclean, hcount⟩
        rw [hok, ok_bind]
        show (require (eqIgnoreAsciiCase packet'.header bbsId) _ >>= fun _ => Except.ok packet') =
          .ok packet <-> _
        by_cases hheader : eqIgnoreAsciiCase packet'.header bbsId = true
        · rw [require_of _ hheader, ok_bind]
          constructor
          · intro heq
            cases heq
            exact ⟨⟨rfl, hcount, hheader⟩, hclean⟩
          · rintro ⟨⟨heq, -⟩, -⟩
            cases heq
            rfl
        · unfold require
          rw [if_neg hheader]
          constructor
          · intro herr
            cases herr
          · rintro ⟨⟨heq, -, hyes⟩, -⟩
            cases heq
            exact absurd hyes hheader
      · constructor
        · intro h
          cases hresult : countReplies member member.length 128 0 with
          | error err =>
              rw [hresult] at h
              cases h
          | ok u => exact absurd hresult hok
        · rintro ⟨⟨heq, hcount, -⟩, hclean⟩
          cases heq
          exact absurd (hcounted.mpr ⟨hclean, hcount⟩) hok

/-!
## Archives with a message member
-/

theorem isNameByte_of_alphanumeric {c : Char} (h : isAsciiAlphanumeric c = true) {b : UInt8}
    (hb : b ∈ String.utf8EncodeChar c) : isNameByte b = true := by
  have hascii : c.val.toNat <= 127 := by
    by_contra hwide
    have hlow : 127 < c.toNat := Nat.lt_of_not_le hwide
    have hnone : toDigit 36 c = none := by
      have hbound : forall d : Char, d.toNat <= 127 -> ¬ c <= d := by
        intro d hd hle
        have hle' : c.toNat <= d.toNat := UInt32.le_iff_toNat_le.mp hle
        omega
      have hdigit : ¬ ('0' <= c ∧ c <= '9') := fun hr => hbound '9' (by decide) hr.right
      have hsmall : ¬ ('a' <= c ∧ c <= 'z') := fun hr => hbound 'z' (by decide) hr.right
      have hbig : ¬ ('A' <= c ∧ c <= 'Z') := fun hr => hbound 'Z' (by decide) hr.right
      unfold toDigit
      rw [if_neg hdigit, if_neg hsmall, if_neg hbig]
      rfl
    unfold isAsciiAlphanumeric at h
    rw [hnone] at h
    cases h
  have hall : forall n : Fin 128, isAsciiAlphanumeric (Char.ofNat n.val) = true ->
      isNameByte (UInt8.ofNat n.val) = true := by decide
  have hc := hall ⟨c.toNat, Nat.lt_succ_of_le hascii⟩
  dsimp only at hc
  rw [Char.ofNat_toNat] at hc
  have hbyte : b = UInt8.ofNat c.toNat := by
    rw [utf8EncodeChar_ascii hascii] at hb
    rw [mem_singleton.mp hb]
    apply UInt8.toNat_inj.mp
    rw [toNat_asciiByte hascii, UInt8.toNat_ofNat']
    exact (Nat.mod_eq_of_lt (Nat.lt_of_le_of_lt hascii (by decide))).symm
  rw [hbyte]
  exact hc h

theorem isSafeName_message {bbsId : List Char} (hid : isValidId bbsId = true) :
    isSafeName (utf8 (bbsId ++ ".MSG".toList)) = true := by
  unfold isValidId at hid
  rw [Bool.and_eq_true, Bool.and_eq_true, decide_eq_true_iff] at hid
  rcases hid with ⟨⟨-, hlength⟩, hall⟩
  have hutf8 : utf8 (bbsId ++ ".MSG".toList) = utf8 bbsId ++ [0x2E, 0x4D, 0x53, 0x47] :=
    flatMap_append
  have hbytes : forall c, c ∈ utf8 bbsId ++ [0x2E, 0x4D, 0x53, 0x47] -> isNameByte c = true := by
    intro c hc
    rcases mem_append.mp hc with hid | hsuffix
    · rcases mem_flatMap.mp hid with ⟨d, hd, hbyte⟩
      exact isNameByte_of_alphanumeric (all_eq_true.mp hall d hd) hbyte
    · have hsafe : ([0x2E, 0x4D, 0x53, 0x47] : Bytes).all isNameByte = true := by decide
      exact all_eq_true.mp hsafe c hsuffix
  have hlong : forall name : Bytes, name.length < 4 ->
      (utf8 bbsId ++ [0x2E, 0x4D, 0x53, 0x47] != name) = true := by
    intro name hname
    rw [bne_iff_ne]
    intro heq
    rw [← heq, length_append] at hname
    exact absurd hname (by simp)
  have hsome : (utf8 bbsId ++ [0x2E, 0x4D, 0x53, 0x47]).isEmpty = false := by
    rw [isEmpty_eq_false_iff]
    exact append_ne_nil_of_right_ne_nil _ (cons_ne_nil _ _)
  have hshort : decide ((utf8 bbsId ++ [0x2E, 0x4D, 0x53, 0x47]).length <= 255) = true := by
    apply decide_eq_true
    rw [length_append]
    show (utf8 bbsId).length + 4 <= 255
    omega
  unfold isSafeName
  rw [hutf8, hsome, hshort, hlong [0x2E] (by decide), hlong [0x2E, 0x2E] (by decide),
    all_eq_true.mpr hbytes]
  rfl

def overwrite (b : Bytes) (p : Nat) (new : Bytes) : Bytes :=
  b.take p ++ (new ++ b.drop (p + new.length))

def dataPlace (pre : List StoredMember) (name : Bytes) : Nat :=
  (locals pre).length + (30 + name.length)

/-- What stands in an archive before the data of a member, and what behind it. -/
theorem archiveOf_data (pre post : List StoredMember) (m : StoredMember) :
    exists front rest, front.length = dataPlace pre m.name ∧
      forall data, data.length = m.data.length ->
        archiveOf (pre ++ { m with data := data } :: post) = front ++ (data ++ rest) := by
  refine ⟨locals pre ++ (m.localFields.flatten ++ m.name),
    locals post ++ (centrals 0 (pre ++ m :: post) ++ (endFields (pre ++ m :: post).length
      (centrals 0 (pre ++ m :: post)).length (locals (pre ++ m :: post)).length).flatten), ?_, ?_⟩
  · rw [length_append, length_append, length_layout m.length_localFields]
    rfl
  · intro data hdata
    have hfields : { m with data := data }.localFields = m.localFields := by
      unfold StoredMember.localFields
      dsimp only
      rw [hdata]
    have hcentral : forall offset,
        { m with data := data }.centralRecord offset = m.centralRecord offset := by
      intro offset
      unfold StoredMember.centralRecord StoredMember.centralFields
      dsimp only
      rw [hdata]
    have hlength : { m with data := data }.localRecord.length = m.localRecord.length := by
      rw [StoredMember.length_localRecord, StoredMember.length_localRecord]
      dsimp only
      rw [hdata]
    have hcentrals : centrals 0 (pre ++ { m with data := data } :: post) =
        centrals 0 (pre ++ m :: post) := by
      rw [centrals_append, centrals_append]
      show _ ++ ({ m with data := data }.centralRecord _ ++ centrals (_ +
        { m with data := data }.localRecord.length) post) = _
      rw [hcentral, hlength]
      rfl
    have hlocals : (locals (pre ++ { m with data := data } :: post)).length =
        (locals (pre ++ m :: post)).length := by
      rw [length_locals_split, length_locals_split]
      dsimp only
      rw [hdata]
    have hcount : (pre ++ { m with data := data } :: post).length = (pre ++ m :: post).length := by
      rw [length_append, length_append]
      rfl
    unfold archiveOf
    rw [hcentrals, hlocals, hcount]
    conv => lhs; lhs; rw [locals_append]
    show locals pre ++ ({ m with data := data }.localFields.flatten ++ (m.name ++ data) ++
      locals post) ++ _ = _
    rw [hfields]
    simp only [append_assoc]

theorem overwrite_append {front old new rest : Bytes} {p : Nat} (hp : front.length = p)
    (hlength : new.length = old.length) :
    overwrite (front ++ (old ++ rest)) p new = front ++ (new ++ rest) := by
  subst hp
  unfold overwrite
  rw [take_left, ← drop_drop, drop_left, drop_left' hlength.symm]

theorem archiveOf_overwrite (pre post : List StoredMember) (m : StoredMember) {data : Bytes}
    (hdata : data.length = m.data.length) :
    overwrite (archiveOf (pre ++ m :: post)) (dataPlace pre m.name) data =
      archiveOf (pre ++ { m with data := data } :: post) := by
  rcases archiveOf_data pre post m with ⟨front, rest, hfront, harchive⟩
  rw [harchive data hdata, harchive m.data rfl]
  exact overwrite_append hfront hdata

theorem fieldAt_data (pre post : List StoredMember) (m : StoredMember) :
    fieldAt (archiveOf (pre ++ m :: post)) (dataPlace pre m.name) m.data.length = m.data := by
  rcases archiveOf_data pre post m with ⟨front, rest, hfront, harchive⟩
  rw [harchive m.data rfl, ← hfront]
  unfold fieldAt
  rw [drop_left, take_left]

section Message

variable (inflate : Bytes -> Nat -> Option (Bool × Nat × Bytes)) {bbsId : List Char}
  (hid : isValidId bbsId = true) {before after : List StoredMember} {m : StoredMember}
  (hname : m.name = utf8 (bbsId ++ ".MSG".toList)) (hms : Admissible (before ++ m :: after))

include hid hname hms

/-- The reader accepts an archive if no name comes twice, the checksum is the one of the
message member, and its packet is read. -/
theorem parseArchive_iff (packet : ReplyPacket) :
    parseArchive inflate (archiveOf (before ++ m :: after)) bbsId = .ok packet <->
      (lowerNames (before ++ m :: after)).Nodup ∧ crc32 m.data = m.crc ∧
        Acceptable m.data bbsId packet ∧ CleanCounts (m.data.drop block) := by
  have hsmall : m.data.length <= usizeMax := by
    have hlength := (length_data_lt hms).left
    unfold maxMemberBytes at hlength
    unfold usizeMax
    omega
  unfold parseArchive
  by_cases hdistinct : (lowerNames (before ++ m :: after)).Nodup
  · have htaken : takenFrom (utf8 (bbsId ++ ".MSG".toList)) (before ++ m :: after) none =
        if crc32 m.data = m.crc then .ok (some m.data) else .error { why := "CRC mismatch" } := by
      have hsplit := hdistinct
      unfold lowerNames at hsplit
      rw [map_append, map_cons, nodup_append] at hsplit
      rcases hsplit with ⟨-, hafter, hbetween⟩
      rw [← hname]
      apply takenFrom_message _ rfl
      · intro m' hm' heq
        exact hbetween _ (mem_map_of_mem hm') _ mem_cons_self heq
      · intro m' hm' heq
        apply (nodup_cons.mp hafter).left
        rw [← heq]
        exact mem_map_of_mem hm'
    rw [readMember_stored hms inflate hid hdistinct, htaken, and_iff_right hdistinct]
    by_cases hcrc : crc32 m.data = m.crc
    · rw [if_pos hcrc, ok_bind, and_iff_right hcrc]
      dsimp only
      rw [ok_bind]
      exact readPacket_iff hsmall bbsId packet
    · rw [if_neg hcrc]
      constructor
      · intro herr
        cases herr
      · rintro ⟨hyes, -⟩
        exact absurd hyes hcrc
  · rcases readMember_duplicate hms inflate hid hdistinct with ⟨err, herr⟩
    rw [herr]
    constructor
    · intro h
      cases h
    · rintro ⟨hyes, -⟩
      exact absurd hyes hdistinct

end Message

def repArchive (bbsId : List Char) (before after : List (List Char × Bytes)) (m : Bytes) : Bytes :=
  zipStore (before ++ (bbsId ++ ".MSG".toList, m) :: after)

def messagePlace (bbsId : List Char) (before : List (List Char × Bytes)) : Nat :=
  dataPlace (before.map stored) (utf8 (bbsId ++ ".MSG".toList))

def repNames (bbsId : List Char) (before after : List (List Char × Bytes)) : List Bytes :=
  (before ++ (bbsId ++ ".MSG".toList, []) :: after).map (fun e => lowerName (utf8 e.fst))

theorem repArchive_eq (bbsId : List Char) (before after : List (List Char × Bytes)) (m : Bytes) :
    repArchive bbsId before after m =
      archiveOf (before.map stored ++ stored (bbsId ++ ".MSG".toList, m) :: after.map stored) := by
  unfold repArchive zipStore
  rw [map_append]
  rfl

theorem lowerNames_stored (bbsId : List Char) (before after : List (List Char × Bytes))
    (crc : UInt32) (m : Bytes) : lowerNames (before.map stored ++
        { name := utf8 (bbsId ++ ".MSG".toList), crc := crc, data := m } :: after.map stored) =
      repNames bbsId before after := by
  unfold lowerNames repNames
  rw [map_append, map_append, map_cons, map_cons, map_map, map_map]
  rfl

section Rep

variable (inflate : Bytes -> Nat -> Option (Bool × Nat × Bytes)) {bbsId : List Char}
  (hid : isValidId bbsId = true) {before after : List (List Char × Bytes)} {m : Bytes}
  (hothers : before.length + after.length <= 31)
  (hsafe : forall e, e ∈ before ++ after -> isSafeName (utf8 e.fst) = true)
  (hsized : (repArchive bbsId before after m).length <= maxArchiveBytes)

include hid hothers hsafe hsized

theorem admissible_rep {data : Bytes} (hdata : data.length = m.length) :
    Admissible (before.map stored ++
      { stored (bbsId ++ ".MSG".toList, m) with data := data } :: after.map stored) := by
  constructor
  · exact append_ne_nil_of_right_ne_nil _ (cons_ne_nil _ _)
  · rw [length_append, length_cons, length_map, length_map]
    unfold maxEntries
    omega
  · intro e he
    rcases mem_append.mp he with hbefore | hrest
    · rcases mem_map.mp hbefore with ⟨other, hother, rfl⟩
      exact hsafe other (mem_append_left after hother)
    · rcases mem_cons.mp hrest with rfl | hafter
      · exact isSafeName_message hid
      · rcases mem_map.mp hafter with ⟨other, hother, rfl⟩
        exact hsafe other (mem_append_right before hother)
  · rcases archiveOf_data (before.map stored) (after.map stored)
      (stored (bbsId ++ ".MSG".toList, m)) with ⟨front, rest, -, harchive⟩
    have hsame : archiveOf (before.map stored ++ stored (bbsId ++ ".MSG".toList, m) ::
        after.map stored) = front ++ (m ++ rest) := harchive m rfl
    rw [repArchive_eq, hsame] at hsized
    rw [harchive data hdata]
    simp only [length_append] at hsized ⊢
    omega

theorem parseArchive_rep (packet : ReplyPacket) :
    parseArchive inflate (repArchive bbsId before after m) bbsId = .ok packet <->
      Acceptable m bbsId packet ∧ (repNames bbsId before after).Nodup ∧
        CleanCounts (m.drop block) := by
  have hmember : Admissible (before.map stored ++ stored (bbsId ++ ".MSG".toList, m) ::
      after.map stored) := admissible_rep hid hothers hsafe hsized rfl
  have hnames : lowerNames (before.map stored ++ stored (bbsId ++ ".MSG".toList, m) ::
      after.map stored) = repNames bbsId before after :=
    lowerNames_stored bbsId before after (crc32 m) m
  have hcrc : crc32 (stored (bbsId ++ ".MSG".toList, m)).data =
      (stored (bbsId ++ ".MSG".toList, m)).crc := rfl
  rw [repArchive_eq, parseArchive_iff inflate hid rfl hmember, hnames, and_iff_right hcrc]
  show _ ∧ Acceptable m bbsId packet ∧ CleanCounts (m.drop block) <-> _
  rw [and_left_comm]

theorem parseArchive_changed {m' : Bytes} (hlength : m'.length = m.length)
    (hcrc : crc32 m' ≠ crc32 m) : exists err, parseArchive inflate
      (overwrite (repArchive bbsId before after m) (messagePlace bbsId before) m') bbsId =
        .error err := by
  have hover := archiveOf_overwrite (before.map stored) (after.map stored)
    (stored (bbsId ++ ".MSG".toList, m)) hlength
  have hplace : messagePlace bbsId before =
      dataPlace (before.map stored) (stored (bbsId ++ ".MSG".toList, m)).name := rfl
  rw [repArchive_eq, hplace, hover]
  cases hresult : parseArchive inflate (archiveOf (before.map stored ++
      { stored (bbsId ++ ".MSG".toList, m) with data := m' } :: after.map stored)) bbsId with
  | error err => exact ⟨err, rfl⟩
  | ok packet =>
      have hiff := parseArchive_iff inflate hid rfl
        (admissible_rep hid hothers hsafe hsized hlength) packet
      exact absurd (hiff.mp hresult).right.left hcrc

/-- The reader accepts an archive exactly when the packet parser accepts the message member,
and refuses one with a changed member, if and only if the parser does not accept it anyway,
or no name comes twice and no count has a byte that only the parser takes off. -/
theorem archive_agrees_with_packet :
    ((forall packet, parseArchive inflate (repArchive bbsId before after m) bbsId = .ok packet <->
        Acceptable m bbsId packet) ∧
      fieldAt (repArchive bbsId before after m) (messagePlace bbsId before) m.length = m ∧
      forall m', m'.length = m.length -> crc32 m' ≠ crc32 m ->
        exists err, parseArchive inflate
          (overwrite (repArchive bbsId before after m) (messagePlace bbsId before) m') bbsId =
            .error err) <->
    (forall packet, ¬ Acceptable m bbsId packet) ∨
      ((repNames bbsId before after).Nodup ∧ CleanCounts (m.drop block)) := by
  have hparse := parseArchive_rep inflate hid hothers hsafe hsized
  have hstored : fieldAt (repArchive bbsId before after m) (messagePlace bbsId before) m.length =
      m := by
    rw [repArchive_eq]
    exact fieldAt_data (before.map stored) (after.map stored) (stored (bbsId ++ ".MSG".toList, m))
  constructor
  · rintro ⟨hsame, -⟩
    by_cases hnone : forall packet, ¬ Acceptable m bbsId packet
    · exact Or.inl hnone
    · push Not at hnone
      rcases hnone with ⟨packet, hpacket⟩
      exact Or.inr ((hparse packet).mp ((hsame packet).mpr hpacket)).right
  · intro hcond
    refine ⟨?_, hstored, fun m' hlength hcrc =>
      parseArchive_changed inflate hid hothers hsafe hsized hlength hcrc⟩
    intro packet
    rw [hparse packet]
    rcases hcond with hnone | hclean
    · constructor
      · exact fun h => h.left
      · exact fun h => absurd h (hnone packet)
    · exact and_iff_left hclean

end Rep

def oneReply : Bytes :=
  ReplyPacket.encode { header := "rh".toList, replies := [noteBack "ok".toList] }

/-- The same with NULs instead of spaces behind the count. -/
def oneReplyNul : Bytes :=
  overwrite oneReply (block + 117) [0, 0, 0, 0, 0]

set_option maxRecDepth 8000 in
theorem archive_agrees_with_packet_one :
    parseArchive (fun _ _ => none) (repArchive "RH".toList [] [("A.TXT".toList, [1])] oneReply)
        "RH".toList = .ok { header := "rh".toList, replies := [noteBack "ok".toList] } <->
      Acceptable oneReply "RH".toList
        { header := "rh".toList, replies := [noteBack "ok".toList] } := by
  have hread : decodeMessage (oneReply.drop block) =
      .ok ((noteBack "ok".toList).toQwk, 7, 256) := by
    decide
  have hend : (oneReply.drop block).drop 256 = [] := by decide
  have hclean : CleanCounts (oneReply.drop block) := by
    unfold CleanCounts
    rw [countFields_of_ok hread, hend, countFields_nil]
    decide
  have hsized : (repArchive "RH".toList [] [("A.TXT".toList, [1])] oneReply).length <=
      maxArchiveBytes := by
    decide
  exact ((archive_agrees_with_packet (fun _ _ => none) (by decide) (by decide) (by decide)
    hsized).mpr (Or.inr ⟨by decide, hclean⟩)).left _

set_option maxRecDepth 8000 in
/-- A count with NULs behind it is read by the packet parser, and not by the reader. -/
theorem archive_refuses_a_packet :
    ¬ (forall (inflate : Bytes -> Nat -> Option (Bool × Nat × Bytes)) (bbsId : List Char)
        (before after : List (List Char × Bytes)) (m : Bytes), isValidId bbsId = true ->
        before.length + after.length <= 31 ->
        (forall e, e ∈ before ++ after -> isSafeName (utf8 e.fst) = true) ->
        (repNames bbsId before after).Nodup ->
        (repArchive bbsId before after m).length <= maxArchiveBytes ->
        forall packet, parseArchive inflate (repArchive bbsId before after m) bbsId = .ok packet <->
          Acceptable m bbsId packet) := by
  intro hall
  have hid : isValidId "RH".toList = true := by decide
  have hsized : (repArchive "RH".toList [] [] oneReplyNul).length <= maxArchiveBytes := by
    decide
  have hread : decodeMessage (oneReplyNul.drop block) =
      .ok ((noteBack "ok".toList).toQwk, 7, 256) := by
    decide
  have hend : (oneReplyNul.drop block).drop 256 = [] := by decide
  have hparse : ReplyPacket.parse oneReplyNul =
      .ok { header := "rh".toList, replies := [noteBack "ok".toList] } := by
    have hheader : readField (oneReplyNul.take block) = "rh".toList := by decide
    unfold ReplyPacket.parse
    rw [if_neg (by decide), decodeRecords_of_ok hread, hend, decodeRecords_nil, hheader]
    rfl
  have hacceptable : Acceptable oneReplyNul "RH".toList
      { header := "rh".toList, replies := [noteBack "ok".toList] } :=
    ⟨hparse, by decide, by decide⟩
  have haccepted := (hall (fun _ _ => none) "RH".toList [] [] oneReplyNul hid (by decide) (by decide)
    (by decide) hsized _).mpr hacceptable
  have hclean := ((parseArchive_rep (fun _ _ => none) hid (by decide) (by decide) hsized _).mp
    haccepted).right.right
  unfold CleanCounts at hclean
  rw [countFields_of_ok hread] at hclean
  have hfield := hclean _ mem_cons_self
  exact absurd hfield (by decide)

end Rabbithole.Qwk
