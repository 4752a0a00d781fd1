import Rabbithole.Qwk.Messages

/-!
# Messages that fit are read back

All of a message that fits its fields comes back, but for one character: the byte that ends
a line is also the byte of a small a with a tilde, which so comes back as the end of a line.
-/

namespace Rabbithole.Qwk

open Foundation List

/-- A message whose texts and numbers their fields hold. -/
structure Fitting (msg : QwkMessage) : Prop where
  number : (decimal msg.number.toNat).length <= 7
  date : FitsField 8 msg.date
  time : FitsField 5 msg.time
  recipient : FitsField 25 msg.recipient
  sender : FitsField 25 msg.sender
  subject : FitsField 25 msg.subject
  password : FitsField 12 msg.password
  reference : (decimal msg.reference.toNat).length <= 8
  blocks : (decimal (blockLen msg)).length <= 6
  latin1 : Latin1 msg.body
  unpadded : Unpadded msg.body

instance (msg : QwkMessage) : Decidable (Fitting msg) :=
  decidable_of_iff
    ((decimal msg.number.toNat).length <= 7 ∧ FitsField 8 msg.date ∧ FitsField 5 msg.time ∧
      FitsField 25 msg.recipient ∧ FitsField 25 msg.sender ∧ FitsField 25 msg.subject ∧
      FitsField 12 msg.password ∧ (decimal msg.reference.toNat).length <= 8 ∧
      (decimal (blockLen msg)).length <= 6 ∧ Latin1 msg.body ∧ Unpadded msg.body)
    ⟨fun ⟨h, h', h'', h3, h4, h5, h6, h7, h8, h9, h10⟩ =>
        ⟨h, h', h'', h3, h4, h5, h6, h7, h8, h9, h10⟩,
      fun h => ⟨h.number, h.date, h.time, h.recipient, h.sender, h.subject, h.password,
        h.reference, h.blocks, h.latin1, h.unpadded⟩⟩

def rereadChar (c : Char) : Char :=
  if c = 'ã' then '\n' else c

def reread (msg : QwkMessage) : QwkMessage :=
  { msg with body := msg.body.map rereadChar }

/-!
## Bodies
-/

theorem rereadChar_spec {c : Char} (h : c.toNat <= 0xFF) :
    (if (if c = '\n' then eol else latin1Byte c) = eol then '\n'
      else Char.ofNat (if c = '\n' then eol else latin1Byte c).toNat) = rereadChar c := by
  unfold rereadChar
  by_cases hline : c = '\n'
  · subst hline
    rfl
  · rw [if_neg hline]
    by_cases htilde : c = 'ã'
    · subst htilde
      rfl
    · have hbyte : latin1Byte c ≠ eol := by
        intro heq
        apply htilde
        rw [← ofNat_latin1Byte h, heq]
        rfl
      rw [if_neg hbyte, if_neg htilde, ofNat_latin1Byte h]

theorem isPadding_encodeBody {c : Char} (h : c.toNat <= 0xFF) (hspace : c ≠ ' ')
    (hnul : c ≠ '\x00') : isPadding (if c = '\n' then eol else latin1Byte c) = false := by
  by_cases hline : c = '\n'
  · rw [if_pos hline]
    rfl
  · rw [if_neg hline]
    exact isPadding_latin1Byte h hspace hnul

theorem decodeBody_encodeBody {body : List Char} (hlatin : Latin1 body) (hpad : Unpadded body)
    (count : Nat) :
    decodeBody (encodeBody body ++ List.replicate count 0x20) = body.map rereadChar := by
  unfold decodeBody
  rw [rdropWhile_replicate]
  · unfold encodeBody
    rw [map_map]
    apply map_congr_left
    intro c hc
    exact rereadChar_spec (hlatin c hc)
  · intro b hb
    unfold encodeBody at hb
    rw [getLast?_map, Option.map_eq_some_iff] at hb
    rcases hb with ⟨c, hlast, rfl⟩
    rcases hpad.last hlast with ⟨hspace, hnul⟩
    exact isPadding_encodeBody (hlatin c (mem_of_getLast? hlast)) hspace hnul

theorem map_eq_self {entry : Type} {f : entry -> entry} {entries : List entry} :
    entries.map f = entries <-> forall e, e ∈ entries -> f e = e := by
  conv => lhs; rhs; rw [← map_id entries]
  exact map_eq_map_iff

theorem map_rereadChar_eq_self {body : List Char} : body.map rereadChar = body <-> 'ã' ∉ body := by
  rw [map_eq_self]
  constructor
  · intro heq hmem
    exact absurd (heq 'ã' hmem) (by decide)
  · intro hmem c hc
    unfold rereadChar
    rw [if_neg]
    intro htilde
    rw [htilde] at hc
    exact hmem hc

variable {msg : QwkMessage}

theorem reread_eq_self : reread msg = msg <-> 'ã' ∉ msg.body := by
  rw [← map_rereadChar_eq_self]
  unfold reread
  constructor
  · intro heq
    exact congrArg QwkMessage.body heq
  · intro heq
    rw [heq]

/-!
## Headers
-/

theorem fitsField_decimal {width n : Nat} (h : (decimal n).length <= width) :
    FitsField width (decimal n) := by
  have hdigit : forall c, c ∈ decimal n -> 48 <= c.toNat ∧ c.toNat <= 57 := by
    intro c hc
    exact toNat_of_toDigit ((digits_toDigits n).right c hc)
  constructor
  · intro c hc
    exact Nat.le_trans (hdigit c hc).right (by decide)
  · constructor
    · intro hspace
      exact absurd (hdigit ' ' (mem_of_getLast? hspace)).left (by decide)
    · intro hnul
      exact absurd (hdigit '\x00' (mem_of_getLast? hnul)).left (by decide)
  · exact h

theorem fitsField_referenceText {reference : UInt32}
    (h : (decimal reference.toNat).length <= 8) : FitsField 8 (referenceText reference) := by
  unfold referenceText
  split
  · decide
  · exact fitsField_decimal h

theorem parseU32_decimal (n : UInt32) : parseU32 (decimal n.toNat) = n := by
  have hle : n.toNat <= 2 ^ 32 - 1 := Nat.le_sub_one_of_lt n.toNat_lt
  unfold parseU32 decimal
  rw [trimText_toDigits, parseUnsigned_toDigits hle]
  exact UInt32.ofNat_toNat

theorem parseU32_referenceText (reference : UInt32) :
    parseU32 (referenceText reference) = reference := by
  unfold referenceText
  split
  · rename_i hzero
    rw [hzero]
    rfl
  · exact parseU32_decimal reference

theorem readU16_littleEndian (n : UInt16) : readU16 (Codec.littleEndian 2 n.toNat) = n := by
  unfold readU16
  rw [Codec.ofLittleEndian_littleEndian n.toNat_lt, UInt16.ofNat_toNat]

theorem length_headerFields (msg : QwkMessage) (logical : UInt16) (totalBlocks : Nat) :
    (headerFields msg logical totalBlocks).map List.length = headerWidths := by
  unfold headerFields
  simp only [map_cons, map_nil, length_writeField, Codec.length_littleEndian]
  rfl

theorem length_header (msg : QwkMessage) (logical : UInt16) (totalBlocks : Nat) :
    (headerFields msg logical totalBlocks).flatten.length = block :=
  length_layout (length_headerFields msg logical totalBlocks)

theorem fieldAt_header (msg : QwkMessage) (logical : UInt16) (totalBlocks : Nat)
    (index offset width : Nat) {field : Bytes}
    (hfield : (headerFields msg logical totalBlocks)[index]? = some field)
    (hwidth : headerWidths[index]? = some width)
    (hoffset : (headerWidths.take index).sum = offset) :
    fieldAt (headerFields msg logical totalBlocks).flatten offset width = field := by
  have h := fieldAt_layout (length_headerFields msg logical totalBlocks) hfield hwidth []
  rw [append_nil, hoffset] at h
  exact h

theorem blockCount_header (msg : QwkMessage) (logical : UInt16) {totalBlocks : Nat}
    (hpos : 1 <= totalBlocks) (h : (decimal totalBlocks).length <= 6) :
    blockCount (headerFields msg logical totalBlocks).flatten = .ok totalBlocks := by
  have hlt : totalBlocks < 10 ^ 6 :=
    (Nat.length_toDigits_le_iff (by decide) (by decide)).mp h
  have hmax : totalBlocks <= usizeMax := by
    unfold usizeMax
    omega
  have hfield : readField (fieldAt (headerFields msg logical totalBlocks).flatten 116 6) =
      decimal totalBlocks := by
    rw [fieldAt_header msg logical totalBlocks 9 116 6 rfl rfl rfl]
    exact readField_writeField (fitsField_decimal h)
  have hne : decimal totalBlocks ≠ [] := by
    intro hnil
    have hlength := @Nat.length_toDigits_pos 10 totalBlocks
    unfold decimal at hnil
    rw [hnil] at hlength
    cases hlength
  unfold blockCount
  rw [hfield]
  unfold decimal at hne ⊢
  dsimp only
  rw [trimText_toDigits, if_neg hne, parseUnsigned_toDigits hmax]
  exact if_neg (Nat.not_lt_of_le hpos)

theorem messageOf_header (h : Fitting msg) (logical : UInt16) (totalBlocks count : Nat) :
    messageOf (headerFields msg logical totalBlocks).flatten
      (encodeBody msg.body ++ List.replicate count 0x20) = reread msg := by
  have hfield := fieldAt_header msg logical totalBlocks
  have hflag : ((if msg.active then activeFlag else killedFlag) == activeFlag) = msg.active := by
    cases msg.active with
    | true => rfl
    | false => rfl
  unfold messageOf
  rw [hfield 1 1 7 rfl rfl rfl, hfield 11 123 2 rfl rfl rfl, hfield 2 8 8 rfl rfl rfl,
    hfield 3 16 5 rfl rfl rfl, hfield 4 21 25 rfl rfl rfl, hfield 5 46 25 rfl rfl rfl,
    hfield 6 71 25 rfl rfl rfl, hfield 7 96 12 rfl rfl rfl, hfield 8 108 8 rfl rfl rfl,
    hfield 10 122 1 rfl rfl rfl]
  rw [readField_writeField (fitsField_decimal h.number), readField_writeField h.date,
    readField_writeField h.time, readField_writeField h.recipient,
    readField_writeField h.sender, readField_writeField h.subject,
    readField_writeField h.password, readField_writeField (fitsField_referenceText h.reference)]
  rw [parseU32_decimal, parseU32_referenceText, readU16_littleEndian,
    decodeBody_encodeBody h.latin1 h.unpadded]
  show QwkMessage.mk _ _ _ _ _ _ _ _ _ _
    ((if msg.active then activeFlag else killedFlag) == activeFlag && true) _ = reread msg
  rw [hflag, Bool.and_true]
  rfl

/-!
## Records
-/

/-- The body of a message with what fills it up. -/
def paddedBody (msg : QwkMessage) : Bytes :=
  encodeBody msg.body ++
    List.replicate (bodyBlocks (encodeBody msg.body).length * block - (encodeBody msg.body).length)
      0x20

theorem le_bodyBlocks (bodyLen : Nat) : bodyLen <= bodyBlocks bodyLen * block := by
  unfold bodyBlocks block
  omega

theorem length_paddedBody (msg : QwkMessage) :
    (paddedBody msg).length = bodyBlocks (encodeBody msg.body).length * block := by
  have hle := le_bodyBlocks (encodeBody msg.body).length
  unfold paddedBody
  rw [length_append, length_replicate]
  omega

theorem encodeMessage_eq (msg : QwkMessage) (logical : UInt16) :
    encodeMessage msg logical =
      (headerFields msg logical (blockLen msg)).flatten ++ paddedBody msg :=
  rfl

theorem length_encodeMessage (msg : QwkMessage) (logical : UInt16) :
    (encodeMessage msg logical).length = blockLen msg * block := by
  rw [encodeMessage_eq, length_append, length_header, length_paddedBody]
  unfold blockLen
  rw [Nat.add_mul, Nat.one_mul]

/-- A record whose blocks their field can count is read as its header and its body, whatever
is behind it. -/
theorem decodeMessage_append (h : (decimal (blockLen msg)).length <= 6) (logical : UInt16)
    (rest : Bytes) :
    decodeMessage (encodeMessage msg logical ++ rest) =
      .ok (messageOf (headerFields msg logical (blockLen msg)).flatten (paddedBody msg), logical,
        blockLen msg * block) := by
  have hpos : 1 <= blockLen msg := Nat.le_add_right 1 _
  have hheader := length_header msg logical (blockLen msg)
  have hlength : (encodeMessage msg logical ++ rest).length = blockLen msg * block + rest.length := by
    rw [length_append, length_encodeMessage]
  have hblock : block <= blockLen msg * block := Nat.le_mul_of_pos_left block hpos
  have htake : (encodeMessage msg logical ++ rest).take block =
      (headerFields msg logical (blockLen msg)).flatten := by
    rw [encodeMessage_eq, append_assoc]
    exact take_left' hheader
  have hbody : fieldAt (encodeMessage msg logical ++ rest) block (blockLen msg * block - block) =
      paddedBody msg := by
    have hwidth : (paddedBody msg).length = blockLen msg * block - block := by
      rw [length_paddedBody]
      unfold blockLen
      rw [Nat.add_mul, Nat.one_mul, Nat.add_sub_cancel_left]
    unfold fieldAt
    rw [encodeMessage_eq, append_assoc, drop_left' hheader]
    exact take_left' hwidth
  unfold decodeMessage
  rw [if_neg (by rw [hlength]; omega)]
  dsimp only
  rw [htake, blockCount_header msg logical hpos h]
  dsimp only
  rw [if_neg (by rw [hlength]; omega), hbody,
    fieldAt_header msg logical (blockLen msg) 12 125 2 rfl rfl rfl, readU16_littleEndian]

theorem decodeMessage_encodeMessage (h : Fitting msg) (logical : UInt16) (rest : Bytes) :
    decodeMessage (encodeMessage msg logical ++ rest) =
      .ok (reread msg, logical, blockLen msg * block) := by
  rw [decodeMessage_append h.blocks]
  unfold paddedBody
  rw [messageOf_header h]

theorem decodeRecords_flatMap {entry : Type} (message : entry -> QwkMessage)
    (logical : entry -> UInt16) {entries : List entry}
    (h : forall e, e ∈ entries -> Fitting (message e)) :
    decodeRecords (entries.flatMap (fun e => encodeMessage (message e) (logical e))) =
      .ok (entries.map (fun e => (reread (message e), logical e))) := by
  induction entries with
  | nil => exact decodeRecords_nil
  | cons e entries ih =>
      have hothers := ih (fun e' he' => h e' (mem_cons_of_mem e he'))
      rw [flatMap_cons,
        decodeRecords_of_ok (decodeMessage_encodeMessage (h e mem_cons_self) (logical e) _),
        ← length_encodeMessage (message e) (logical e), drop_left, hothers]
      rfl

theorem decode_encode (dat : MessagesDat) (h : forall msg, msg ∈ dat.messages -> Fitting msg) :
    MessagesDat.decode dat.encode =
      .ok { producer := readField (writeField block dat.producer),
            messages := dat.messages.map reread } := by
  have hlength : (writeField block dat.producer).length = block := length_writeField _ _
  have hdrop : dat.encode.drop block =
      (dat.messages.zipIdx 1).flatMap (fun e => encodeMessage e.fst (UInt16.ofNat e.snd)) :=
    drop_left' hlength
  have htake : dat.encode.take block = writeField block dat.producer := take_left' hlength
  have hfit : forall e, e ∈ dat.messages.zipIdx 1 -> Fitting e.fst := by
    intro e he
    exact h e.fst (fst_mem_of_mem_zipIdx he)
  unfold MessagesDat.decode
  rw [if_neg, hdrop, htake, decodeRecords_flatMap _ _ hfit]
  · show Except.ok (MessagesDat.mk _ (((dat.messages.zipIdx 1).map _).map Prod.fst)) = _
    rw [map_map]
    show Except.ok (MessagesDat.mk _ ((dat.messages.zipIdx 1).map (reread ∘ Prod.fst))) = _
    rw [← map_map, zipIdx_map_fst]
  · unfold MessagesDat.encode
    rw [length_append, hlength]
    exact Nat.not_lt_of_le (Nat.le_add_right block _)

end Rabbithole.Qwk
