import Rabbithole.Zmodem.Session

/-!
# Escaping

Bytes that a line may eat travel behind an escape byte, in another form.  What is escaped
is not changed by flow control, which is skipped where it stands unescaped; the ends of
data subpackets are escapes of their own.
-/

namespace Rabbithole.Zmodem

open Foundation List

def zpad : UInt8 := 42

def zdle : UInt8 := 0x18

def zbin : UInt8 := 65

def zhex : UInt8 := 66

def zbin32 : UInt8 := 67

def xon : UInt8 := 0x11

def xoff : UInt8 := 0x13

def zcrce : UInt8 := 104

def zcrcg : UInt8 := 105

def zcrcq : UInt8 := 106

def zcrcw : UInt8 := 107

def zrub0 : UInt8 := 108

def zrub1 : UInt8 := 109

namespace FrameEnd

def toByte : FrameEnd -> UInt8
  | .zcrce => Zmodem.zcrce
  | .zcrcg => Zmodem.zcrcg
  | .zcrcq => Zmodem.zcrcq
  | .zcrcw => Zmodem.zcrcw

def fromByte (byte : UInt8) : Option FrameEnd :=
  if byte = Zmodem.zcrce then some .zcrce
  else if byte = Zmodem.zcrcg then some .zcrcg
  else if byte = Zmodem.zcrcq then some .zcrcq
  else if byte = Zmodem.zcrcw then some .zcrcw
  else none

end FrameEnd

inductive ZdleError where
  | incomplete
  | invalidEscape (byte : UInt8)
  | unexpectedFrameEnd
  | cancelled
deriving DecidableEq

inductive WireItem where
  | byte (b : UInt8)
  | frameEnd (frameEnd : FrameEnd)
  | cancel
deriving DecidableEq

/-- The last byte on the wire, behind which a carriage return may have to be escaped. -/
structure Escaper where
  lastSent : UInt8

namespace Escaper

def new : Escaper :=
  ⟨0⟩

def escapes (e : Escaper) (byte : UInt8) : Bool :=
  byte ∈ [zdle, 0x10, 0x90, xon, 0x91, xoff, 0x93] ||
    (byte ∈ [0x0D, 0x8D] && e.lastSent &&& 0x7F == 64)

/-- What is put on the wire for a byte. -/
def pushByte (e : Escaper) (byte : UInt8) : Bytes × Escaper :=
  if byte = 0x7F then ([zdle, zrub0], ⟨zrub0⟩)
  else if byte = 0xFF then ([zdle, zrub1], ⟨zrub1⟩)
  else if e.escapes byte then ([zdle, byte ^^^ 0x40], ⟨byte ^^^ 0x40⟩)
  else ([byte], ⟨byte⟩)

def pushSlice (e : Escaper) : Bytes -> Bytes × Escaper
  | [] => ([], e)
  | byte :: data =>
      let pushed := e.pushByte byte
      let more := pushed.snd.pushSlice data
      (pushed.fst ++ more.fst, more.snd)

def pushFrameEnd (_ : Escaper) (frameEnd : FrameEnd) : Bytes × Escaper :=
  ([zdle, frameEnd.toByte], ⟨frameEnd.toByte⟩)

end Escaper

def escape (data : Bytes) : Bytes :=
  (Escaper.new.pushSlice data).fst

def isNoise (b : UInt8) : Bool :=
  b ∈ [xon, xoff, 0x91, 0x93]

/-- What stands behind the escape byte. -/
def decodeEscape (b : UInt8) : Except ZdleError WireItem :=
  if b = zdle then .ok .cancel
  else if b = zrub0 then .ok (.byte 0x7F)
  else if b = zrub1 then .ok (.byte 0xFF)
  else
    match FrameEnd.fromByte b with
    | some frameEnd => .ok (.frameEnd frameEnd)
    | none => if b &&& 0x60 = 0x40 then .ok (.byte (b ^^^ 0x40)) else .error (.invalidEscape b)

/-- The item at the front, and how many bytes it takes with the noise before it. -/
def decodeOne (input : Bytes) : Except ZdleError (WireItem × Nat) :=
  let i := (input.takeWhile isNoise).length
  match input.drop i with
  | [] => .error .incomplete
  | b :: rest =>
      if b = zdle then
        match rest with
        | [] => .error .incomplete
        | code :: _ =>
            match decodeEscape code with
            | .error e => .error e
            | .ok item => .ok (item, i + 2)
      else .ok (.byte b, i + 1)

theorem decodeOne_used {input : Bytes} {item : WireItem} {used : Nat}
    (h : decodeOne input = .ok (item, used)) : 0 < used ∧ used <= input.length := by
  unfold decodeOne at h
  dsimp only at h
  split at h
  · cases h
  · rename_i b rest hdrop
    have hlength := congrArg List.length hdrop
    rw [length_drop, length_cons] at hlength
    split at h
    · split at h
      · cases h
      · rw [length_cons] at hlength
        split at h
        · cases h
        · cases h
          omega
    · cases h
      omega

def unescape (input : Bytes) : Except ZdleError Bytes :=
  if input = [] then .ok []
  else
    match hone : decodeOne input with
    | .error e => .error e
    | .ok (.byte b, used) =>
        match unescape (input.drop used) with
        | .error e => .error e
        | .ok data => .ok (b :: data)
    | .ok (.frameEnd _, _) => .error .unexpectedFrameEnd
    | .ok (.cancel, _) => .error .cancelled
termination_by input.length
decreasing_by
  have hused := decodeOne_used hone
  rw [length_drop]
  omega

/-!
## One item
-/

theorem decodeOne_escape {code : UInt8} {item : WireItem} (h : decodeEscape code = .ok item)
    (rest : Bytes) : decodeOne (zdle :: code :: rest) = .ok (item, 2) := by
  unfold decodeOne
  rw [takeWhile_cons_of_neg (by decide)]
  simp only [length_nil, drop_zero, if_true, h]

theorem decodeOne_plain {b : UInt8} (hnoise : isNoise b = false) (hzdle : b ≠ zdle)
    (rest : Bytes) : decodeOne (b :: rest) = .ok (.byte b, 1) := by
  unfold decodeOne
  rw [takeWhile_cons_of_neg (by rw [hnoise]; exact Bool.false_ne_true)]
  simp only [length_nil, drop_zero, if_neg hzdle]

theorem decodeOne_frameEnd (frameEnd : FrameEnd) (rest : Bytes) :
    decodeOne (zdle :: frameEnd.toByte :: rest) = .ok (.frameEnd frameEnd, 2) := by
  apply decodeOne_escape
  cases frameEnd with
  | zcrce | zcrcg | zcrcq | zcrcw => rfl

namespace Escaper

variable {byte : UInt8}

theorem mem_of_escapes {e : Escaper} (h : e.escapes byte = true) :
    byte ∈ [zdle, 0x10, 0x90, xon, 0x91, xoff, 0x93, 0x0D, 0x8D] := by
  unfold escapes at h
  simp only [Bool.or_eq_true, Bool.and_eq_true, decide_eq_true_eq] at h
  rcases h with hcontrol | ⟨hreturn, _⟩
  · exact mem_append_left [0x0D, 0x8D] hcontrol
  · exact mem_append_right [zdle, 0x10, 0x90, xon, 0x91, xoff, 0x93] hreturn

theorem decodeEscape_of_mem (h : byte ∈ [zdle, 0x10, 0x90, xon, 0x91, xoff, 0x93, 0x0D, 0x8D]) :
    decodeEscape (byte ^^^ 0x40) = .ok (.byte byte) := by
  have hall : [zdle, 0x10, 0x90, xon, 0x91, xoff, 0x93, 0x0D, 0x8D].all
      (fun byte => decide (decodeEscape (byte ^^^ 0x40) = .ok (.byte byte))) = true := by
    decide
  exact of_decide_eq_true (all_eq_true.mp hall byte h)

theorem plain_of_not_escapes {e : Escaper} (h : ¬ e.escapes byte = true) :
    isNoise byte = false ∧ byte ≠ zdle := by
  unfold escapes at h
  unfold isNoise
  simp only [Bool.or_eq_true, not_or, decide_eq_true_eq, mem_cons] at h
  simp only [decide_eq_false_iff_not, mem_cons]
  grind

theorem decodeOne_pushByte (e : Escaper) (byte : UInt8) (rest : Bytes) :
    decodeOne ((e.pushByte byte).fst ++ rest) =
      .ok (.byte byte, (e.pushByte byte).fst.length) := by
  unfold pushByte
  split
  · rename_i hrub
    rw [hrub]
    exact decodeOne_escape rfl rest
  · split
    · rename_i hrub
      rw [hrub]
      exact decodeOne_escape rfl rest
    · split
      · rename_i hescapes
        exact decodeOne_escape (decodeEscape_of_mem (mem_of_escapes hescapes)) rest
      · rename_i hplain
        rcases plain_of_not_escapes hplain with ⟨hnoise, hzdle⟩
        exact decodeOne_plain hnoise hzdle rest

end Escaper

/-!
## Runs of bytes
-/

/--
So many bytes in a row, and how many bytes of input they take.  An item of another kind is an
error, which is the caller's own.
-/
def readEscaped {error : Type} (ofZdle : ZdleError -> error) (frameEnd cancelled : error) :
    Nat -> Bytes -> Except error (Bytes × Nat)
  | 0, _ => .ok ([], 0)
  | count + 1, input =>
      match decodeOne input with
      | .error e => .error (ofZdle e)
      | .ok (.byte b, used) =>
          match readEscaped ofZdle frameEnd cancelled count (input.drop used) with
          | .error e => .error e
          | .ok (data, more) => .ok (b :: data, used + more)
      | .ok (.frameEnd _, _) => .error frameEnd
      | .ok (.cancel, _) => .error cancelled

namespace Escaper

theorem pushSlice_append (e : Escaper) (front back : Bytes) :
    e.pushSlice (front ++ back) =
      ((e.pushSlice front).fst ++ ((e.pushSlice front).snd.pushSlice back).fst,
        ((e.pushSlice front).snd.pushSlice back).snd) := by
  induction front generalizing e with
  | nil => rfl
  | cons byte front ih =>
      show ((e.pushByte byte).fst ++ ((e.pushByte byte).snd.pushSlice (front ++ back)).fst,
        ((e.pushByte byte).snd.pushSlice (front ++ back)).snd) = _
      rw [ih, ← append_assoc]
      rfl

theorem readEscaped_pushSlice {error : Type} (ofZdle : ZdleError -> error)
    (frameEnd cancelled : error) (e : Escaper) (data rest : Bytes) :
    readEscaped ofZdle frameEnd cancelled data.length ((e.pushSlice data).fst ++ rest) =
      .ok (data, (e.pushSlice data).fst.length) := by
  induction data generalizing e with
  | nil => rfl
  | cons byte data ih =>
      unfold pushSlice
      dsimp only
      rw [length_cons]
      unfold readEscaped
      rw [append_assoc, decodeOne_pushByte]
      dsimp only
      rw [drop_left, ih, length_append]

theorem unescape_pushSlice (e : Escaper) (data : Bytes) :
    unescape (e.pushSlice data).fst = .ok data := by
  induction data generalizing e with
  | nil =>
      unfold unescape
      rfl
  | cons byte data ih =>
      have hone := decodeOne_pushByte e byte ((e.pushByte byte).snd.pushSlice data).fst
      have hused := decodeOne_used hone
      unfold pushSlice
      unfold unescape
      dsimp only
      rw [if_neg]
      · split
        · rename_i e' herror
          rw [hone] at herror
          cases herror
        · rename_i b used hbyte
          rw [hone] at hbyte
          cases hbyte
          rw [drop_left, ih]
        · rename_i frameEnd used hend
          rw [hone] at hend
          cases hend
        · rename_i used hcancel
          rw [hone] at hcancel
          cases hcancel
      · intro hempty
        rw [hempty] at hused
        exact Nat.lt_irrefl 0 (Nat.lt_of_lt_of_le hused.left hused.right)

theorem head?_pushByte (e : Escaper) (byte : UInt8) (rest : Bytes) :
    ((e.pushByte byte).fst ++ rest).head? ≠ some xon := by
  unfold pushByte
  split
  · exact nofun
  · split
    · exact nofun
    · split
      · exact nofun
      · rename_i hplain
        intro hxon
        have hnoise := (plain_of_not_escapes hplain).left
        rw [Option.some.inj hxon] at hnoise
        cases hnoise

end Escaper

theorem unescape_escape (data : Bytes) : unescape (escape data) = .ok data :=
  Escaper.unescape_pushSlice Escaper.new data

/-!
## Checksums

Two registers that are shifted bit by bit.  The narrow one travels with its high byte first,
the wide one with its low byte first.
-/

def shift16 (crc : UInt16) : UInt16 :=
  if crc &&& 0x8000 ≠ 0 then (crc <<< 1) ^^^ 0x1021 else crc <<< 1

def feed16 (crc : UInt16) (byte : UInt8) : UInt16 :=
  Nat.repeat shift16 8 (crc ^^^ (byte.toUInt16 <<< 8))

def crc16Xmodem (data : Bytes) : UInt16 :=
  data.foldl feed16 0

def shift32 (crc : UInt32) : UInt32 :=
  if crc &&& 1 ≠ 0 then (crc >>> 1) ^^^ 0xEDB88320 else crc >>> 1

def feed32 (crc : UInt32) (byte : UInt8) : UInt32 :=
  Nat.repeat shift32 8 (crc ^^^ byte.toUInt32)

def crc32 (data : Bytes) : UInt32 :=
  ~~~ data.foldl feed32 0xFFFFFFFF

set_option maxRecDepth 8000 in
example : crc16Xmodem [49, 50, 51, 52, 53, 54, 55, 56, 57] = 0x31C3 ∧
    crc32 [49, 50, 51, 52, 53, 54, 55, 56, 57] = 0xCBF43926 := by
  decide

def crcLen (wide : Bool) : Nat :=
  if wide then 4 else 2

def computedCrc (wide : Bool) (data : Bytes) : UInt32 :=
  if wide then crc32 data else (crc16Xmodem data).toUInt32

def crcBytes (wide : Bool) (data : Bytes) : Bytes :=
  if wide then Codec.littleEndian 4 (crc32 data).toNat
  else Codec.highFirst 2 (crc16Xmodem data).toNat

def receivedCrc (wide : Bool) (bytes : Bytes) : UInt32 :=
  if wide then UInt32.ofNat (Codec.ofHighFirst bytes.reverse)
  else UInt32.ofNat (Codec.ofHighFirst bytes)

@[simp] theorem length_crcBytes (wide : Bool) (data : Bytes) :
    (crcBytes wide data).length = crcLen wide := by
  cases wide with
  | false => exact Codec.length_highFirst _ _
  | true => exact Codec.length_littleEndian _ _

@[simp] theorem receivedCrc_crcBytes (wide : Bool) (data : Bytes) :
    receivedCrc wide (crcBytes wide data) = computedCrc wide data := by
  cases wide with
  | false =>
      show UInt32.ofNat (Codec.ofHighFirst (Codec.highFirst 2 (crc16Xmodem data).toNat)) =
        (crc16Xmodem data).toUInt32
      have hlt : (crc16Xmodem data).toNat < 256 ^ 2 := (crc16Xmodem data).toNat_lt
      rw [Codec.ofHighFirst_highFirst, Nat.mod_eq_of_lt hlt, UInt32.ofNat_uInt16ToNat]
  | true =>
      show UInt32.ofNat (Codec.ofHighFirst (Codec.highFirst 4 (crc32 data).toNat)) = crc32 data
      have hlt : (crc32 data).toNat < 256 ^ 4 := (crc32 data).toNat_lt
      rw [Codec.ofHighFirst_highFirst, Nat.mod_eq_of_lt hlt, UInt32.ofNat_toNat]

/-!
# Data subpackets

A payload, escaped, then the end of the subpacket, then a checksum over both.
-/

def maxPayload : Nat := 1024

def maxDecodePayload : Nat := 8192

inductive SubpacketError where
  | incomplete
  | payloadTooLarge (length : Nat)
  | oversize
  | badCrc (computed received : UInt32)
  | zdle (e : ZdleError)
  | cancelled
deriving DecidableEq

def SubpacketError.ofZdle : ZdleError -> SubpacketError
  | .incomplete => .incomplete
  | e => .zdle e

structure DecodedSubpacket where
  payload : Bytes
  frameEnd : FrameEnd
  consumed : Nat
deriving DecidableEq

def encodeSubpacketWith (payload : Bytes) (frameEnd : FrameEnd) (wide : Bool)
    (escaper : Escaper) : Except SubpacketError (Bytes × Escaper) :=
  if maxPayload < payload.length then .error (.payloadTooLarge payload.length)
  else
    let data := escaper.pushSlice payload
    let ended := data.snd.pushFrameEnd frameEnd
    let crc := ended.snd.pushSlice (crcBytes wide (payload ++ [frameEnd.toByte]))
    let trailer := if frameEnd = .zcrcw then [xon] else []
    .ok (data.fst ++ ended.fst ++ crc.fst ++ trailer, crc.snd)

def encodeSubpacket (payload : Bytes) (frameEnd : FrameEnd) (wide : Bool) :
    Except SubpacketError Bytes :=
  (encodeSubpacketWith payload frameEnd wide Escaper.new).map Prod.fst

/-- Bytes up to the end of the subpacket, as long as there is room for them. -/
def readPayload : Nat -> Bytes -> Except SubpacketError (Bytes × FrameEnd × Nat)
  | room, input =>
      match decodeOne input with
      | .error e => .error (SubpacketError.ofZdle e)
      | .ok (.byte b, used) =>
          match room with
          | 0 => .error .oversize
          | room + 1 =>
              match readPayload room (input.drop used) with
              | .error e => .error e
              | .ok (payload, frameEnd, more) => .ok (b :: payload, frameEnd, used + more)
      | .ok (.frameEnd frameEnd, used) => .ok ([], frameEnd, used)
      | .ok (.cancel, _) => .error .cancelled

def decodeSubpacket (input : Bytes) (wide : Bool) : Except SubpacketError DecodedSubpacket :=
  match readPayload maxDecodePayload input with
  | .error e => .error e
  | .ok (payload, frameEnd, i) =>
      match readEscaped SubpacketError.ofZdle (.zdle .unexpectedFrameEnd) .cancelled
          (crcLen wide) (input.drop i) with
      | .error e => .error e
      | .ok (crc, used) =>
          let computed := computedCrc wide (payload ++ [frameEnd.toByte])
          let received := receivedCrc wide crc
          if computed ≠ received then .error (.badCrc computed received)
          else if frameEnd = .zcrcw ∧ input[i + used]? = some xon then
            .ok ⟨payload, frameEnd, i + used + 1⟩
          else .ok ⟨payload, frameEnd, i + used⟩

theorem readPayload_pushSlice (e : Escaper) (frameEnd : FrameEnd) (payload rest : Bytes)
    (room : Nat) (h : payload.length <= room) : readPayload room
        ((e.pushSlice payload).fst ++ (zdle :: frameEnd.toByte :: rest)) =
      .ok (payload, frameEnd, (e.pushSlice payload).fst.length + 2) := by
  induction payload generalizing e room with
  | nil =>
      unfold readPayload Escaper.pushSlice
      rw [nil_append, decodeOne_frameEnd]
      rfl
  | cons byte payload ih =>
      cases room with
      | zero => cases h
      | succ room =>
          unfold readPayload Escaper.pushSlice
          dsimp only
          rw [append_assoc, Escaper.decodeOne_pushByte]
          dsimp only
          rw [drop_left, ih _ room (Nat.le_of_succ_le_succ h), length_append]
          simp only [Nat.add_assoc]

variable {payload : Bytes}

theorem encodeSubpacketWith_ok (h : payload.length <= maxPayload) (frameEnd : FrameEnd)
    (wide : Bool) (escaper : Escaper) :
    exists wire escaper', encodeSubpacketWith payload frameEnd wide escaper =
      .ok (wire, escaper') := by
  unfold encodeSubpacketWith
  rw [if_neg (Nat.not_lt.mpr h)]
  exact ⟨_, _, rfl⟩

section

variable {frameEnd : FrameEnd} {wide : Bool} {escaper escaper' : Escaper} {wire : Bytes}
  (h : encodeSubpacketWith payload frameEnd wide escaper = .ok (wire, escaper')) (suffix : Bytes)
include h suffix

/-- A subpacket that was encoded is read back, and no byte behind it is. -/
theorem decodeSubpacket_encodeSubpacketWith :
    decodeSubpacket (wire ++ suffix) wide = .ok ⟨payload, frameEnd, wire.length⟩ := by
  unfold encodeSubpacketWith at h
  split at h
  · cases h
  · rename_i hlength
    cases h
    have hroom : payload.length <= maxDecodePayload := by
      unfold maxPayload at hlength
      unfold maxDecodePayload
      omega
    generalize hdata : escaper.pushSlice payload = data
    generalize hcrc : (data.snd.pushFrameEnd frameEnd).snd.pushSlice
      (crcBytes wide (payload ++ [frameEnd.toByte])) = crc
    generalize htrailer : (if frameEnd = .zcrcw then [xon] else [] : Bytes) = trailer
    have hwire : data.fst ++ (data.snd.pushFrameEnd frameEnd).fst ++ crc.fst ++ trailer ++
        suffix = data.fst ++ (zdle :: frameEnd.toByte :: (crc.fst ++ (trailer ++ suffix))) := by
      simp [Escaper.pushFrameEnd]
    have hread := readPayload_pushSlice escaper frameEnd payload (crc.fst ++ (trailer ++ suffix))
      maxDecodePayload hroom
    have hchecked := Escaper.readEscaped_pushSlice SubpacketError.ofZdle
      (.zdle .unexpectedFrameEnd) .cancelled (data.snd.pushFrameEnd frameEnd).snd
      (crcBytes wide (payload ++ [frameEnd.toByte])) (trailer ++ suffix)
    have hdrop : (data.fst ++ (zdle :: frameEnd.toByte :: (crc.fst ++ (trailer ++ suffix)))).drop
        (data.fst.length + 2) = crc.fst ++ (trailer ++ suffix) := by
      rw [← drop_drop, drop_left]
      rfl
    have hbehind : (data.fst ++ (zdle :: frameEnd.toByte ::
        (crc.fst ++ (trailer ++ suffix))))[data.fst.length + 2 + crc.fst.length]? =
          (trailer ++ suffix).head? := by
      rw [← getElem?_drop, hdrop, getElem?_append_right (Nat.le_refl _), Nat.sub_self,
        head?_eq_getElem?]
    rw [hdata] at hread
    rw [length_crcBytes, hcrc] at hchecked
    unfold decodeSubpacket
    rw [hwire, hread]
    dsimp only
    rw [hdrop, hchecked]
    dsimp only
    rw [receivedCrc_crcBytes, if_neg (not_not.mpr rfl), hbehind, ← htrailer]
    by_cases hend : frameEnd = .zcrcw
    · rw [if_pos hend, if_pos ⟨hend, rfl⟩]
      simp only [Escaper.pushFrameEnd, length_append, length_cons, length_nil]
    · rw [if_neg hend, if_neg (fun h => hend h.left)]
      simp only [Escaper.pushFrameEnd, length_append, length_cons, length_nil]
      rfl

theorem head?_encodeSubpacketWith : (wire ++ suffix).head? ≠ some xon := by
  unfold encodeSubpacketWith at h
  split at h
  · cases h
  · cases h
    cases payload with
    | nil => exact nofun
    | cons byte payload =>
        unfold Escaper.pushSlice
        simp only [append_assoc]
        exact Escaper.head?_pushByte escaper byte _

end

end Rabbithole.Zmodem
