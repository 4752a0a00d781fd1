import Rabbithole.Zmodem.FileInfo

/-!
# The two machines

The receiver and the sender of a file are fed one event at a time and give the actions their
driver has to take.  What was sent last is kept and sent again when the other side asks for
it; a session has a budget for such recoveries.
-/

namespace Rabbithole.Zmodem

open Foundation

inductive FrameType where
  | zrqinit
  | zrinit
  | zsinit
  | zack
  | zfile
  | zskip
  | znak
  | zabort
  | zfin
  | zrpos
  | zdata
  | zeof
  | zferr
  | zcrc
  | zchallenge
  | zcompl
  | zcan
  | zfreecnt
deriving DecidableEq

inductive HeaderFormat where
  | hex
  | bin16
  | bin32
deriving DecidableEq

/-- Behind the type, four bytes: a position, the low byte first, or flags. -/
structure Header where
  frameType : FrameType
  data : UInt32
deriving DecidableEq

namespace Header

def new (frameType : FrameType) : Header :=
  ⟨frameType, 0⟩

def withPos (frameType : FrameType) (pos : UInt32) : Header :=
  ⟨frameType, pos⟩

def withFlags (frameType : FrameType) (zf3 zf2 zf1 zf0 : UInt8) : Header :=
  ⟨frameType, zf3.toUInt32 ||| (zf2.toUInt32 <<< 8) ||| (zf1.toUInt32 <<< 16) |||
    (zf0.toUInt32 <<< 24)⟩

def pos (h : Header) : UInt32 :=
  h.data

def zf0 (h : Header) : UInt8 :=
  (h.data >>> 24).toUInt8

end Header

def canfdx : UInt8 := 0x01

def canovio : UInt8 := 0x02

def canfc32 : UInt8 := 0x20

/-- How a data subpacket ends: with or without its frame, with or without an answer. -/
inductive FrameEnd where
  | zcrce
  | zcrcg
  | zcrcq
  | zcrcw
deriving DecidableEq

def maxRecoveryAttempts : Nat := 8

inductive SessionError where
  | retriesExhausted
  | unexpectedEvent (state event : String)
  | badFileInfo (e : FileInfoError)
deriving DecidableEq

def recovery (attempts : Nat) : Except SessionError Nat :=
  if maxRecoveryAttempts <= attempts then .error .retriesExhausted
  else .ok (attempts + 1)

/-!
## The receiver
-/

inductive RecvState where
  | awaitingInit
  | awaitingFile
  | awaitingFileInfo
  | awaitingData (offset : UInt32)
  | receivingData (offset : UInt32)
  | done
deriving DecidableEq

def RecvState.name : RecvState -> String
  | .awaitingInit => "AwaitingInit"
  | .awaitingFile => "AwaitingFile"
  | .awaitingFileInfo => "AwaitingFileInfo"
  | .awaitingData _ => "AwaitingData"
  | .receivingData _ => "ReceivingData"
  | .done => "Done"

inductive RecvEvent where
  | header (h : Header)
  | data (payload : Bytes) (frameEnd : FrameEnd)
deriving DecidableEq

def RecvEvent.name : RecvEvent -> String
  | .header _ => "header"
  | .data _ _ => "data subpacket"

inductive RecvAction where
  | sendHeader (header : Header) (format : HeaderFormat)
  | openFile (info : FileInfo)
  | writeData (offset : UInt32) (data : Bytes)
  | closeFile
  | sendOverAndOut
  | finished
deriving DecidableEq

def RecvAction.isSendHeader : RecvAction -> Bool
  | .sendHeader _ _ => true
  | _ => false

structure Receiver where
  state : RecvState
  resumeOffset : UInt32
  recoveries : Nat
  lastReply : Option RecvAction

namespace Receiver

/-- What a call gives, and the machine after it. -/
abbrev Outcome : Type := Except SessionError (List RecvAction) × Receiver

def new : Receiver :=
  ⟨.awaitingInit, 0, 0, none⟩

def setResumeOffset (r : Receiver) (offset : UInt32) : Receiver :=
  { r with resumeOffset := offset }

def zskip : RecvAction :=
  .sendHeader (Header.new .zskip) .hex

def declineFile (r : Receiver) : Outcome :=
  if r.state ≠ .awaitingFileInfo then
    (.error (.unexpectedEvent r.state.name "file decline"), r)
  else
    (.ok [zskip],
      { r with resumeOffset := 0, state := .awaitingFile, lastReply := some zskip })

def corruptHeader (r : Receiver) : Outcome :=
  match recovery r.recoveries with
  | .error e => (.error e, r)
  | .ok recoveries =>
      (.ok [.sendHeader (Header.new .znak) .hex], { r with recoveries := recoveries })

def zrinit : RecvAction :=
  .sendHeader (Header.withFlags .zrinit 0 0 0 (canfdx ||| canovio ||| canfc32)) .hex

def zrpos (offset : UInt32) : RecvAction :=
  .sendHeader (Header.withPos .zrpos offset) .hex

def zack (offset : UInt32) : RecvAction :=
  .sendHeader (Header.withPos .zack offset) .hex

/-- A subpacket of a data frame. -/
def receive (r : Receiver) (offset : UInt32) (payload : Bytes) (frameEnd : FrameEnd) : Outcome :=
  let newOffset := offset + UInt32.ofNat payload.length
  let write := RecvAction.writeData offset payload
  match frameEnd with
  | .zcrcg => (.ok [write], { r with state := .receivingData newOffset })
  | .zcrce => (.ok [write], { r with state := .awaitingData newOffset })
  | .zcrcq => (.ok [write, zack newOffset], { r with state := .receivingData newOffset })
  | .zcrcw => (.ok [write, zack newOffset], { r with state := .awaitingData newOffset })

def advanceInner (r : Receiver) (event : RecvEvent) : Outcome :=
  let unexpected : Outcome := (.error (.unexpectedEvent r.state.name event.name), r)
  match r.state, event with
  | .awaitingInit, .header h =>
      if h.frameType = .zrqinit then (.ok [zrinit], { r with state := .awaitingFile })
      else unexpected
  | .awaitingFile, .header h =>
      if h.frameType = .zrqinit then (.ok [zrinit], r)
      else if h.frameType = .zfile then (.ok [], { r with state := .awaitingFileInfo })
      else if h.frameType = .zfin then
        (.ok [.sendHeader (Header.new .zfin) .hex, .sendOverAndOut, .finished],
          { r with state := .done })
      else unexpected
  | .awaitingFileInfo, .data payload _ =>
      match FileInfo.decode payload with
      | .error e => (.error (.badFileInfo e), r)
      | .ok info =>
          (.ok [.openFile info, zrpos r.resumeOffset],
            { r with resumeOffset := 0, state := .awaitingData r.resumeOffset })
  | .awaitingData offset, .header h =>
      if h.frameType = .zdata then
        if h.pos = offset then (.ok [], { r with state := .receivingData offset })
        else (.ok [zrpos offset], r)
      else if h.frameType = .zeof then
        if h.pos = offset then (.ok [.closeFile, zrinit], { r with state := .awaitingFile })
        else (.ok [zrpos offset], r)
      else unexpected
  | .receivingData offset, .data payload frameEnd => r.receive offset payload frameEnd
  | _, _ => unexpected

/-- The last answer is asked for again. -/
def asksAgain (r : Receiver) (event : RecvEvent) : Bool :=
  match event with
  | .header h => h.frameType == .znak || (r.state == .done && h.frameType == .zfin)
  | .data _ _ => false

def advance (r : Receiver) (event : RecvEvent) : Outcome :=
  if r.asksAgain event then
    match recovery r.recoveries with
    | .error e => (.error e, r)
    | .ok recoveries =>
        match r.lastReply with
        | some reply => (.ok [reply], { r with recoveries := recoveries })
        | none =>
            (.error (.unexpectedEvent r.state.name "ZNAK before any reply"),
              { r with recoveries := recoveries })
  else
    match r.advanceInner event with
    | (.error e, r') => (.error e, r')
    | (.ok actions, r') =>
        (.ok actions,
          { r' with lastReply := (actions.reverse.find? RecvAction.isSendHeader).or r'.lastReply })

end Receiver

/-!
## The sender
-/

inductive SendState where
  | start
  | awaitingRinit
  | awaitingFileAck
  | streaming (offset : UInt32)
  | awaitingEofAck
  | awaitingFinAck
  | done
deriving DecidableEq

def SendState.name : SendState -> String
  | .start => "Start"
  | .awaitingRinit => "AwaitingRinit"
  | .awaitingFileAck => "AwaitingFileAck"
  | .streaming _ => "Streaming"
  | .awaitingEofAck => "AwaitingEofAck"
  | .awaitingFinAck => "AwaitingFinAck"
  | .done => "Done"

inductive SendEvent where
  | header (h : Header)
  | dataExhausted (offset : UInt32)
deriving DecidableEq

def SendEvent.name : SendEvent -> String
  | .header _ => "header"
  | .dataExhausted _ => "data exhausted"

inductive SendAction where
  | sendHeader (header : Header) (format : HeaderFormat)
  | sendFileInfo (info : FileInfo)
  | streamData (start : UInt32)
  | sendOverAndOut
  | finished
deriving DecidableEq

def SendAction.isSendHeader : SendAction -> Bool
  | .sendHeader _ _ => true
  | _ => false

structure Sender where
  state : SendState
  info : FileInfo
  peerCanFc32 : Bool
  recoveries : Nat
  lastExchange : List SendAction
  skipped : Bool

namespace Sender

/-- What a call gives, and the machine after it. -/
abbrev Outcome : Type := Except SessionError (List SendAction) × Sender

def new (info : FileInfo) : Sender :=
  ⟨.start, info, false, 0, [], false⟩

def corruptHeader (t : Sender) : Outcome :=
  match recovery t.recoveries with
  | .error e => (.error e, t)
  | .ok recoveries =>
      (.ok [.sendHeader (Header.new .znak) .hex], { t with recoveries := recoveries })

def retryExchange (t : Sender) : Outcome :=
  if t.lastExchange.isEmpty ∨ t.state = .done then
    (.error (.unexpectedEvent t.state.name "ZNAK without a pending exchange"), t)
  else
    match recovery t.recoveries with
    | .error e => (.error e, t)
    | .ok recoveries => (.ok t.lastExchange, { t with recoveries := recoveries })

def binaryFormat (t : Sender) : HeaderFormat :=
  if t.peerCanFc32 then .bin32 else .bin16

def zrqinit : List SendAction :=
  [.sendHeader (Header.new .zrqinit) .hex]

def zfin : List SendAction :=
  [.sendHeader (Header.new .zfin) .hex]

def start (t : Sender) : Outcome :=
  if t.state ≠ .start then (.error (.unexpectedEvent t.state.name "start"), t)
  else (.ok zrqinit, { t with state := .awaitingRinit, lastExchange := zrqinit })

def anchor (t : Sender) (pos : UInt32) : Outcome :=
  (.ok [.sendHeader (Header.withPos .zdata pos) t.binaryFormat, .streamData pos],
    { t with state := .streaming pos })

def advanceInner (t : Sender) (event : SendEvent) : Outcome :=
  let unexpected : Outcome := (.error (.unexpectedEvent t.state.name event.name), t)
  match t.state, event with
  | .awaitingRinit, .header h =>
      if h.frameType = .zrinit then
        let t := { t with peerCanFc32 := h.zf0 &&& canfc32 != 0, state := .awaitingFileAck }
        (.ok [.sendHeader (Header.new .zfile) t.binaryFormat, .sendFileInfo t.info], t)
      else unexpected
  | .awaitingFileAck, .header h =>
      if h.frameType = .zrpos then t.anchor h.pos else unexpected
  | .streaming _, .header h =>
      if h.frameType = .zrpos then t.anchor h.pos
      else if h.frameType = .zack then (.ok [], t)
      else unexpected
  | .streaming _, .dataExhausted offset =>
      (.ok [.sendHeader (Header.withPos .zeof offset) .hex], { t with state := .awaitingEofAck })
  | .awaitingEofAck, .header h =>
      if h.frameType = .zrpos then t.anchor h.pos
      else if h.frameType = .zrinit then (.ok zfin, { t with state := .awaitingFinAck })
      else unexpected
  | .awaitingFinAck, .header h =>
      if h.frameType = .zfin then (.ok [.sendOverAndOut, .finished], { t with state := .done })
      else unexpected
  | _, _ => unexpected

/-- An event that is not about a retry. -/
def advancePlain (t : Sender) (event : SendEvent) : Outcome :=
  match t.advanceInner event with
  | (.error e, t') => (.error e, t')
  | (.ok actions, t') =>
      if actions.any SendAction.isSendHeader then (.ok actions, { t' with lastExchange := actions })
      else (.ok actions, t')

/-- The receiver does not want the file. -/
def skip (t : Sender) : Outcome :=
  (.ok zfin, { t with skipped := true, state := .awaitingFinAck, lastExchange := zfin })

def advance (t : Sender) (event : SendEvent) : Outcome :=
  match event with
  | .dataExhausted _ => t.advancePlain event
  | .header h =>
      if h.frameType = .znak then t.retryExchange
      else if h.frameType = .zskip then
        match t.state with
        | .awaitingFileAck => t.skip
        | .streaming _ => t.skip
        | .awaitingEofAck => t.skip
        | .awaitingFinAck => if t.skipped then t.retryExchange else t.advancePlain event
        | _ => t.advancePlain event
      else t.advancePlain event

end Sender

end Rabbithole.Zmodem
