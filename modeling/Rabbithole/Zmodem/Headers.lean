import Rabbithole.Zmodem.Subpacket

/-!
# Headers on the wire

A header is a type and four bytes behind pads and a checksum: in hex digits, or escaped
with a narrow or a wide checksum.
-/

namespace Rabbithole.Zmodem

open Foundation List

namespace FrameType

def all : List FrameType :=
  [.zrqinit, .zrinit, .zsinit, .zack, .zfile, .zskip, .znak, .zabort, .zfin, .zrpos, .zdata,
    .zeof, .zferr, .zcrc, .zchallenge, .zcompl, .zcan, .zfreecnt]

def toByte : FrameType -> UInt8
  | .zrqinit => 0
  | .zrinit => 1
  | .zsinit => 2
  | .zack => 3
  | .zfile => 4
  | .zskip => 5
  | .znak => 6
  | .zabort => 7
  | .zfin => 8
  | .zrpos => 9
  | .zdata => 10
  | .zeof => 11
  | .zferr => 12
  | .zcrc => 13
  | .zchallenge => 14
  | .zcompl => 15
  | .zcan => 16
  | .zfreecnt => 17

def fromByte (byte : UInt8) : Option FrameType :=
  all[byte.toNat]?

@[simp] theorem fromByte_toByte (frameType : FrameType) :
    fromByte frameType.toByte = some frameType := by
  cases frameType <;> rfl

end FrameType

inductive HeaderError where
  | incomplete
  | missingPad (b : UInt8)
  | missingZdle (b : UInt8)
  | unknownFormat (b : UInt8)
  | invalidHexDigit (b : UInt8)
  | badCrc (computed received : UInt32)
  | unknownFrameType (b : UInt8)
  | zdle (e : ZdleError)
  | unexpectedFrameEnd
  | cancelled
deriving DecidableEq

def HeaderError.ofZdle : ZdleError -> HeaderError
  | .incomplete => .incomplete
  | e => .zdle e

structure DecodedHeader where
  header : Header
  format : HeaderFormat
  consumed : Nat
deriving DecidableEq

/-!
## Hex digits
-/

def hexDigits : Bytes :=
  [48, 49, 50, 51, 52, 53, 54, 55, 56, 57, 97, 98, 99, 100, 101, 102]

def hexDigit (nibble : UInt8) : UInt8 :=
  hexDigits.getD (nibble &&& 0x0F).toNat 0

def hexValue (b : UInt8) : Except HeaderError UInt8 :=
  if 48 <= b ∧ b <= 57 then .ok (b - 48)
  else if 97 <= b ∧ b <= 102 then .ok (b - 97 + 10)
  else if 65 <= b ∧ b <= 70 then .ok (b - 65 + 10)
  else .error (.invalidHexDigit b)

def hexByte (b : UInt8) : Bytes :=
  [hexDigit (b >>> 4), hexDigit (b &&& 0x0F)]

/-- So many bytes from twice as many digits, and what is behind them. -/
def readHex : Nat -> Bytes -> Except HeaderError (Bytes × Bytes)
  | 0, input => .ok ([], input)
  | _ + 1, [] => .error .incomplete
  | count + 1, high :: input =>
      match hexValue high with
      | .error e => .error e
      | .ok hi =>
          match input with
          | [] => .error .incomplete
          | low :: input =>
              match hexValue low with
              | .error e => .error e
              | .ok lo =>
                  match readHex count input with
                  | .error e => .error e
                  | .ok (bytes, rest) => .ok ((hi <<< 4 ||| lo) :: bytes, rest)

/-!
## Encoding
-/

namespace Header

def bodyBytes (h : Header) : Bytes :=
  h.frameType.toByte :: Codec.littleEndian 4 h.data.toNat

def encodeHex (h : Header) : Bytes :=
  [zpad, zpad, zdle, zhex] ++ (h.bodyBytes ++ crcBytes false h.bodyBytes).flatMap hexByte ++
    [13, 10] ++ (if h.frameType = .zack ∨ h.frameType = .zfin then [] else [xon])

/-- The body and its checksum, escaped behind a format byte. -/
def encodeBin (h : Header) (format : UInt8) (wide : Bool) : Bytes :=
  let body := Escaper.new.pushSlice h.bodyBytes
  let crc := body.snd.pushSlice (crcBytes wide h.bodyBytes)
  [zpad, zdle, format] ++ body.fst ++ crc.fst

def encodeBin16 (h : Header) : Bytes :=
  h.encodeBin zbin false

def encodeBin32 (h : Header) : Bytes :=
  h.encodeBin zbin32 true

def encode (h : Header) : HeaderFormat -> Bytes
  | .hex => h.encodeHex
  | .bin16 => h.encodeBin16
  | .bin32 => h.encodeBin32

end Header

/-!
## Decoding
-/

def finishHeader (raw : Bytes) (format : HeaderFormat) (consumed : Nat) :
    Except HeaderError DecodedHeader :=
  match FrameType.fromByte (raw.headD 0) with
  | none => .error (.unknownFrameType (raw.headD 0))
  | some frameType =>
      .ok ⟨⟨frameType, UInt32.ofNat (Codec.ofHighFirst (raw.tail.take 4).reverse)⟩, format,
        consumed⟩

/-- How many of the bytes behind a hex header are taken with it. -/
def skipTrailer : List Bytes -> Bytes -> Nat
  | [], _ => 0
  | _ :: _, [] => 0
  | expected :: more, b :: input =>
      if b ∈ expected then 1 + skipTrailer more input else skipTrailer more (b :: input)

def decodeHexBody (input : Bytes) (i : Nat) : Except HeaderError DecodedHeader :=
  match readHex 7 input with
  | .error e => .error e
  | .ok (raw, rest) =>
      let computed := computedCrc false (raw.take 5)
      let received := receivedCrc false (raw.drop 5)
      if computed ≠ received then .error (.badCrc computed received)
      else finishHeader raw .hex (i + 14 + skipTrailer [[0x0D, 0x8D], [0x0A, 0x8A], [xon]] rest)

def decodeBinBody (input : Bytes) (i : Nat) (wide : Bool) : Except HeaderError DecodedHeader :=
  match readEscaped HeaderError.ofZdle .unexpectedFrameEnd .cancelled (5 + crcLen wide) input with
  | .error e => .error e
  | .ok (raw, used) =>
      let computed := computedCrc wide (raw.take 5)
      let received := receivedCrc wide (raw.drop 5)
      if computed ≠ received then .error (.badCrc computed received)
      else finishHeader raw (if wide then .bin32 else .bin16) (i + used)

def decodeHeader (input : Bytes) : Except HeaderError DecodedHeader :=
  match input with
  | [] => .error .incomplete
  | first :: _ =>
      if first ≠ zpad then .error (.missingPad first)
      else
        let pads := (input.takeWhile (fun b => b == zpad)).length
        match input.drop pads with
        | [] => .error .incomplete
        | b :: rest =>
            if b ≠ zdle then .error (.missingZdle b)
            else
              match rest with
              | [] => .error .incomplete
              | format :: body =>
                  if format = zhex then decodeHexBody body (pads + 2)
                  else if format = zbin then decodeBinBody body (pads + 2) false
                  else if format = zbin32 then decodeBinBody body (pads + 2) true
                  else .error (.unknownFormat format)

/-!
## What is read back
-/

theorem hexValue_hexDigit {nibble : UInt8} (h : nibble < 16) :
    hexValue (hexDigit nibble) = .ok nibble := by
  have hall : forall n : Fin 16, hexValue (hexDigit (UInt8.ofNat n.val)) =
      .ok (UInt8.ofNat n.val) := by
    decide
  have hread := hall ⟨nibble.toNat, h⟩
  rw [UInt8.ofNat_toNat] at hread
  exact hread

theorem toNat_low (b : UInt8) : (b &&& 0x0F).toNat = b.toNat % 16 :=
  Nat.and_two_pow_sub_one_eq_mod b.toNat 4

theorem toNat_high (b : UInt8) : (b >>> 4).toNat = b.toNat / 16 := by
  rw [UInt8.toNat_shiftRight]
  exact Nat.shiftRight_eq_div_pow b.toNat 4

theorem high_or_low (b : UInt8) : (b >>> 4) <<< 4 ||| (b &&& 0x0F) = b := by
  have hlt : b.toNat < 256 := b.toNat_lt
  have hhigh : ((b >>> 4) <<< 4).toNat = (b.toNat / 16) <<< 4 := by
    rw [UInt8.toNat_shiftLeft, toNat_high]
    apply Nat.mod_eq_of_lt
    show (b.toNat / 16) <<< 4 < 256
    rw [Nat.shiftLeft_eq]
    omega
  apply UInt8.toNat_inj.mp
  rw [UInt8.toNat_or, hhigh, toNat_low, ← Nat.shiftLeft_add_eq_or_of_lt (by omega),
    Nat.shiftLeft_eq]
  omega

theorem readHex_hexByte (bytes rest : Bytes) :
    readHex bytes.length (bytes.flatMap hexByte ++ rest) = .ok (bytes, rest) := by
  induction bytes with
  | nil => rfl
  | cons b bytes ih =>
      have hhigh : hexValue (hexDigit (b >>> 4)) = .ok (b >>> 4) := by
        apply hexValue_hexDigit
        rw [UInt8.lt_iff_toNat_lt, toNat_high]
        have hlt := b.toNat_lt
        show b.toNat / 16 < 16
        omega
      have hlow : hexValue (hexDigit (b &&& 0x0F)) = .ok (b &&& 0x0F) := by
        apply hexValue_hexDigit
        rw [UInt8.lt_iff_toNat_lt, toNat_low]
        exact Nat.mod_lt _ (by decide)
      show readHex (bytes.length + 1)
        (hexDigit (b >>> 4) :: hexDigit (b &&& 0x0F) :: (bytes.flatMap hexByte ++ rest)) = _
      unfold readHex
      rw [hhigh]
      dsimp only
      rw [hlow]
      dsimp only
      rw [ih, high_or_low]

theorem length_bodyBytes (h : Header) : h.bodyBytes.length = 5 := by
  unfold Header.bodyBytes
  rw [length_cons, Codec.length_littleEndian]

theorem finishHeader_bodyBytes (h : Header) (crc : Bytes) (format : HeaderFormat) (consumed : Nat) :
    finishHeader (h.bodyBytes ++ crc) format consumed = .ok ⟨h, format, consumed⟩ := by
  have hdata : UInt32.ofNat (Codec.ofHighFirst (Codec.highFirst 4 h.data.toNat)) = h.data := by
    have hlt : h.data.toNat < 256 ^ 4 := h.data.toNat_lt
    rw [Codec.ofHighFirst_highFirst, Nat.mod_eq_of_lt hlt, UInt32.ofNat_toNat]
  unfold finishHeader Header.bodyBytes
  rw [cons_append, headD_cons, FrameType.fromByte_toByte, tail_cons,
    take_left' (Codec.length_littleEndian 4 _)]
  show Except.ok (DecodedHeader.mk ⟨h.frameType,
    UInt32.ofNat (Codec.ofHighFirst (Codec.highFirst 4 h.data.toNat))⟩ format consumed) = _
  rw [hdata]

theorem checked_bodyBytes (h : Header) (wide : Bool) (format : HeaderFormat) (consumed : Nat) :
    let raw := h.bodyBytes ++ crcBytes wide h.bodyBytes
    (if computedCrc wide (raw.take 5) ≠ receivedCrc wide (raw.drop 5) then
        .error (.badCrc (computedCrc wide (raw.take 5)) (receivedCrc wide (raw.drop 5)))
      else finishHeader raw format consumed) = .ok ⟨h, format, consumed⟩ := by
  intro raw
  have htake : raw.take 5 = h.bodyBytes := take_left' (length_bodyBytes h)
  have hdrop : raw.drop 5 = crcBytes wide h.bodyBytes := drop_left' (length_bodyBytes h)
  rw [htake, hdrop, receivedCrc_crcBytes, if_neg (not_not.mpr rfl)]
  exact finishHeader_bodyBytes h _ format consumed

theorem length_flatMap_hexByte (bytes : Bytes) :
    (bytes.flatMap hexByte).length = 2 * bytes.length := by
  induction bytes with
  | nil => rfl
  | cons b bytes ih =>
      rw [flatMap_cons, length_append, ih, length_cons, Nat.mul_succ, Nat.add_comm]
      rfl

theorem decodeHeader_hex (body : Bytes) :
    decodeHeader (zpad :: zpad :: zdle :: zhex :: body) = decodeHexBody body 4 := rfl

theorem decodeHeader_bin16 (body : Bytes) :
    decodeHeader (zpad :: zdle :: zbin :: body) = decodeBinBody body 3 false := rfl

theorem decodeHeader_bin32 (body : Bytes) :
    decodeHeader (zpad :: zdle :: zbin32 :: body) = decodeBinBody body 3 true := rfl

theorem decodeBinBody_bodyBytes (h : Header) (i : Nat) (wide : Bool) (suffix : Bytes) :
    let body := Escaper.new.pushSlice h.bodyBytes
    let crc := body.snd.pushSlice (crcBytes wide h.bodyBytes)
    decodeBinBody (body.fst ++ crc.fst ++ suffix) i wide =
      .ok ⟨h, if wide then .bin32 else .bin16, i + (body.fst.length + crc.fst.length)⟩ := by
  intro body crc
  have hread := Escaper.readEscaped_pushSlice HeaderError.ofZdle .unexpectedFrameEnd .cancelled
    Escaper.new (h.bodyBytes ++ crcBytes wide h.bodyBytes) suffix
  rw [Escaper.pushSlice_append, length_append, length_append, length_bodyBytes,
    length_crcBytes] at hread
  unfold decodeBinBody
  rw [hread]
  exact checked_bodyBytes h wide _ _

theorem decodeHexBody_bodyBytes (h : Header) (i : Nat) (rest : Bytes) :
    decodeHexBody ((h.bodyBytes ++ crcBytes false h.bodyBytes).flatMap hexByte ++ rest) i =
      .ok ⟨h, .hex, i + 14 + skipTrailer [[0x0D, 0x8D], [0x0A, 0x8A], [xon]] rest⟩ := by
  have hread := readHex_hexByte (h.bodyBytes ++ crcBytes false h.bodyBytes) rest
  rw [length_append, length_bodyBytes, length_crcBytes] at hread
  unfold decodeHexBody
  rw [show 7 = 5 + crcLen false from rfl, hread]
  exact checked_bodyBytes h false _ _

/-- Flow control at the front of what follows a header that has none of its own. -/
def Header.spare (h : Header) (format : HeaderFormat) (suffix : Bytes) : Nat :=
  if format = .hex ∧ (h.frameType = .zack ∨ h.frameType = .zfin) ∧ suffix.head? = some xon then 1
  else 0

section

variable (h : Header)
include h

theorem skipTrailer_hex (suffix : Bytes) : skipTrailer [[0x0D, 0x8D], [0x0A, 0x8A], [xon]]
      ([13, 10] ++ (if h.frameType = .zack ∨ h.frameType = .zfin then [] else [xon]) ++ suffix) =
        2 + (if h.frameType = .zack ∨ h.frameType = .zfin then [] else [xon] : Bytes).length +
          h.spare .hex suffix := by
  have hlines : forall rest, skipTrailer [[0x0D, 0x8D], [0x0A, 0x8A], [xon]] (13 :: 10 :: rest) =
      1 + (1 + skipTrailer [[xon]] rest) := fun _ => rfl
  unfold Header.spare
  by_cases hbare : h.frameType = .zack ∨ h.frameType = .zfin
  · rw [if_pos hbare]
    show skipTrailer _ (13 :: 10 :: suffix) = _
    rw [hlines]
    cases suffix with
    | nil =>
        rw [if_neg (fun h => nomatch h.right.right)]
        rfl
    | cons b rest =>
        by_cases hxon : b = xon
        · rw [if_pos ⟨rfl, hbare, congrArg some hxon⟩, hxon]
          rfl
        · rw [if_neg (fun h => hxon (Option.some.inj h.right.right))]
          unfold skipTrailer
          rw [if_neg (fun h => hxon (mem_singleton.mp h))]
          rfl
  · rw [if_neg hbare, if_neg (fun h => hbare h.right.left)]
    show skipTrailer _ (13 :: 10 :: xon :: suffix) = _
    rw [hlines]
    rfl

theorem decodeHeader_encodeHex (suffix : Bytes) :
    decodeHeader (h.encodeHex ++ suffix) =
      .ok ⟨h, .hex, h.encodeHex.length + h.spare .hex suffix⟩ := by
  unfold Header.encodeHex
  generalize htail : (if h.frameType = .zack ∨ h.frameType = .zfin then [] else [xon] : Bytes) =
    tail
  generalize hdigits : (h.bodyBytes ++ crcBytes false h.bodyBytes).flatMap hexByte = digits
  have hlength : digits.length = 14 := by
    rw [← hdigits, length_flatMap_hexByte, length_append, length_bodyBytes, length_crcBytes]
    rfl
  have hread := decodeHexBody_bodyBytes h 4 ([13, 10] ++ tail ++ suffix)
  rw [← htail, skipTrailer_hex, htail, hdigits] at hread
  have hwire : [zpad, zpad, zdle, zhex] ++ digits ++ [13, 10] ++ tail ++ suffix =
      zpad :: zpad :: zdle :: zhex :: (digits ++ ([13, 10] ++ tail ++ suffix)) := by
    simp only [append_assoc, cons_append, nil_append]
  have htotal : ([zpad, zpad, zdle, zhex] ++ digits ++ [13, 10] ++ tail).length =
      4 + 14 + (2 + tail.length) := by
    simp only [length_append, hlength]
    exact Nat.add_assoc (4 + 14) 2 tail.length
  rw [hwire, decodeHeader_hex, hread, htotal, Nat.add_assoc (4 + 14)]

theorem decodeBinBody_encodeBin (format : UInt8) (wide : Bool) (suffix : Bytes) :
    exists body, h.encodeBin format wide ++ suffix = zpad :: zdle :: format :: body ∧
      decodeBinBody body 3 wide =
        .ok ⟨h, if wide then .bin32 else .bin16, (h.encodeBin format wide).length⟩ := by
  have hread := decodeBinBody_bodyBytes h 3 wide suffix
  dsimp only at hread
  unfold Header.encodeBin
  dsimp only
  refine ⟨_, ?_, hread.trans ?_⟩
  · rw [append_assoc [zpad, zdle, format], append_assoc]
    rfl
  · rw [length_append, length_append, Nat.add_assoc]
    rfl

theorem decodeHeader_encodeBin16 (suffix : Bytes) :
    decodeHeader (h.encodeBin16 ++ suffix) = .ok ⟨h, .bin16, h.encodeBin16.length⟩ := by
  rcases decodeBinBody_encodeBin h zbin false suffix with ⟨body, hwire, hread⟩
  unfold Header.encodeBin16
  rw [hwire, decodeHeader_bin16, hread]
  rfl

theorem decodeHeader_encodeBin32 (suffix : Bytes) :
    decodeHeader (h.encodeBin32 ++ suffix) = .ok ⟨h, .bin32, h.encodeBin32.length⟩ := by
  rcases decodeBinBody_encodeBin h zbin32 true suffix with ⟨body, hwire, hread⟩
  unfold Header.encodeBin32
  rw [hwire, decodeHeader_bin32, hread]
  rfl

theorem decodeHeader_encode (format : HeaderFormat) (suffix : Bytes) :
    decodeHeader (h.encode format ++ suffix) =
      .ok ⟨h, format, (h.encode format).length + h.spare format suffix⟩ := by
  cases format with
  | hex => exact decodeHeader_encodeHex h suffix
  | bin16 => exact decodeHeader_encodeBin16 h suffix
  | bin32 => exact decodeHeader_encodeBin32 h suffix

theorem head?_encode (format : HeaderFormat) (suffix : Bytes) :
    (h.encode format ++ suffix).head? ≠ some xon := by
  cases format with
  | hex | bin16 | bin32 => exact nofun

end

/-!
## Frames in a stream
-/

/-- What is written for a header or a subpacket. -/
inductive Frame : Bytes -> Prop where
  | header (h : Header) (format : HeaderFormat) : Frame (h.encode format)
  | subpacket {payload : Bytes} {frameEnd : FrameEnd} {wide : Bool} {escaper escaper' : Escaper}
      {wire : Bytes}
      (hencode : encodeSubpacketWith payload frameEnd wide escaper = .ok (wire, escaper')) :
      Frame wire

theorem Frame.head? {wire : Bytes} (hwire : Frame wire) (suffix : Bytes) :
    (wire ++ suffix).head? ≠ some xon := by
  cases hwire with
  | header h format => exact head?_encode h format suffix
  | subpacket hencode => exact head?_encodeSubpacketWith hencode suffix

/-- The bytes of a header that are not its trailer of line ends and flow control. -/
def Header.mandatory (h : Header) : HeaderFormat -> Nat
  | .hex => 18
  | .bin16 => h.encodeBin16.length
  | .bin32 => h.encodeBin32.length

theorem mandatory_le (h : Header) (format : HeaderFormat) :
    h.mandatory format <= (h.encode format).length := by
  cases format with
  | hex =>
      show 18 <= h.encodeHex.length
      unfold Header.encodeHex
      simp only [length_append, length_flatMap_hexByte, length_bodyBytes, length_crcBytes]
      exact Nat.le_add_right_of_le (Nat.le_add_right_of_le (Nat.le_refl 18))
  | bin16 | bin32 => exact Nat.le_refl _

/--
Subpackets and headers are read back from a stream, each to its end.  A header takes a byte
of flow control with it that follows it, and nothing of a frame that does.
-/
theorem framing_round_trip :
    (forall (payload : Bytes) (frameEnd : FrameEnd) (wide : Bool) (escaper : Escaper)
      (suffix : Bytes), payload.length <= maxPayload ->
        exists wire escaper',
          encodeSubpacketWith payload frameEnd wide escaper = .ok (wire, escaper') ∧
            decodeSubpacket (wire ++ suffix) wide = .ok ⟨payload, frameEnd, wire.length⟩) ∧
      forall (h : Header) (format : HeaderFormat) (suffix : Bytes), exists consumed,
        decodeHeader (h.encode format ++ suffix) = .ok ⟨h, format, consumed⟩ ∧
          h.mandatory format <= consumed ∧
          (consumed = (h.encode format).length ∨
            (consumed = (h.encode format).length + 1 ∧ suffix.head? = some xon)) ∧
          forall wire rest, Frame wire -> suffix = wire ++ rest ->
            consumed = (h.encode format).length := by
  constructor
  · intro payload frameEnd wide escaper suffix hlength
    rcases encodeSubpacketWith_ok hlength frameEnd wide escaper with ⟨wire, escaper', hencode⟩
    exact ⟨wire, escaper', hencode, decodeSubpacket_encodeSubpacketWith hencode suffix⟩
  · intro h format suffix
    have hspare : h.spare format suffix = 0 ∨
        (h.spare format suffix = 1 ∧ suffix.head? = some xon) := by
      unfold Header.spare
      split
      · rename_i hxon
        exact Or.inr ⟨rfl, hxon.right.right⟩
      · exact Or.inl rfl
    refine ⟨_, decodeHeader_encode h format suffix, ?_, ?_, ?_⟩
    · exact Nat.le_add_right_of_le (mandatory_le h format)
    · rcases hspare with hnone | ⟨hone, hxon⟩
      · exact Or.inl (by rw [hnone, Nat.add_zero])
      · exact Or.inr ⟨by rw [hone], hxon⟩
    · intro wire rest hwire heq
      rcases hspare with hnone | ⟨_, hxon⟩
      · rw [hnone, Nat.add_zero]
      · rw [heq] at hxon
        exact absurd hxon (hwire.head? rest)

/-- An acknowledgement before a subpacket, flow control between them. -/
theorem framing_round_trip_sample :
    (exists wire escaper',
      encodeSubpacketWith [64, 13, 0x18, 0x11] .zcrcw true ⟨64⟩ = .ok (wire, escaper') ∧
        decodeSubpacket (wire ++ [0x11, 0x2A]) true =
          .ok ⟨[64, 13, 0x18, 0x11], .zcrcw, wire.length⟩) ∧
      exists consumed,
        decodeHeader ((Header.withPos .zack 7).encode .hex ++ [0x11, 0x2A]) =
          .ok ⟨Header.withPos .zack 7, .hex, consumed⟩ := by
  constructor
  · exact framing_round_trip.left [64, 13, 0x18, 0x11] .zcrcw true ⟨64⟩ [0x11, 0x2A] (by decide)
  · rcases framing_round_trip.right (Header.withPos .zack 7) .hex [0x11, 0x2A] with
      ⟨consumed, hread, _⟩
    exact ⟨consumed, hread⟩

end Rabbithole.Zmodem
