import Rabbithole.Foundation.Run
import Rabbithole.Binkp.Command

/-!
# A binkp session

The state machine of one end of a session: greeting, password, then files both ways until
both ends have said that they have no more.
-/

namespace Rabbithole.Binkp

open Foundation

inductive Role where
  | originating
  | answering
deriving DecidableEq

inductive Phase where
  | greeting
  | awaitOk
  | transfer
  | done
  | failed
deriving DecidableEq

def Phase.name : Phase -> String
  | .greeting => "Greeting"
  | .awaitOk => "AwaitOk"
  | .transfer => "Transfer"
  | .done => "Done"
  | .failed => "Failed"

inductive Event where
  | command (cmd : Command)
  | data (bytes : Bytes)
deriving DecidableEq

def Event.name : Event -> String
  | .data _ => "data block"
  | .command cmd => commandName cmd

inductive Action where
  | sendCommand (cmd : Command)
  | streamFile (info : FileInfo)
  | expectFile (info : FileInfo)
  | writeData (bytes : Bytes)
  | fileComplete (id : FileId)
  | authenticated
  | finished
  | aborted (reason : String)
deriving DecidableEq

inductive SessionError where
  | unexpected (phase event : String)
  | unexpectedData
deriving DecidableEq

structure SessionConfig where
  addresses : List Address
  systemInfo : List String
  password : String
  challenge : Option Bytes
  outgoing : List FileInfo

structure Session where
  role : Role
  phase : Phase
  addresses : List Address
  systemInfo : List String
  password : String
  passwordHash : Vector UInt8 32
  cramPasswordHash : Option (Vector UInt8 32)
  unsecured : Bool
  challenge : Option Bytes
  peerChallenge : Option Bytes
  peerAddresses : List Address
  outgoing : List FileInfo
  sending : Option FileId
  receiving : Option (FileInfo × UInt64)
  localEob : Bool
  peerEob : Bool
  started : Bool

abbrev Outcome := Except SessionError (List Action)

namespace Session

def new (hashes : Hashes) (role : Role) (config : SessionConfig) : Session where
  role := role
  phase := .greeting
  addresses := config.addresses
  systemInfo := config.systemInfo
  password := config.password
  passwordHash := hashes.sha256 (Codec.bytesOf config.password)
  cramPasswordHash := config.challenge.map (fun challenge =>
    hashes.sha256 (Codec.bytesOf
      (cramMd5Response hashes (Codec.bytesOf config.password) challenge)))
  unsecured := decide (config.password = "" ∨ config.password = "-")
  challenge := config.challenge
  peerChallenge := none
  peerAddresses := []
  outgoing := config.outgoing
  sending := none
  receiving := none
  localEob := false
  peerEob := false
  started := false

/-- The lines of information, and the challenge on the answering side. -/
def greetingLines (s : Session) : List String :=
  s.systemInfo ++
    if s.role = .answering then
      (s.challenge.map (fun challenge => "OPT " ++ cramMd5Option challenge)).toList
    else []

def start (s : Session) : List Action × Session :=
  if s.started then ([], s)
  else
    (s.greetingLines.map (fun line => Action.sendCommand (.nul line)) ++
      [.sendCommand (.adr s.addresses)], { s with started := true })

def unexpected (s : Session) (event : Event) : Outcome :=
  .error (.unexpected s.phase.name event.name)

def maybeFinish (s : Session) : List Action × Session :=
  if s.localEob = true ∧ s.peerEob = true ∧ s.sending = none ∧ s.receiving = none ∧
      s.phase = .transfer then
    ([.finished], { s with phase := .done })
  else ([], s)

/-- Announce the next file, or say that there are no more. -/
def startNextSend (s : Session) : List Action × Session :=
  match s.outgoing with
  | info :: rest =>
      ([.sendCommand (.file info), .streamFile info],
        { s with outgoing := rest, sending := some info.id })
  | [] =>
      if s.localEob then s.maybeFinish
      else
        let (actions, s) := { s with localEob := true }.maybeFinish
        (.sendCommand .eob :: actions, s)

def enterTransfer (s : Session) : List Action × Session :=
  { s with phase := .transfer }.startNextSend

def passwordValue (hashes : Hashes) (s : Session) : String :=
  if s.unsecured then "-"
  else
    match s.peerChallenge with
    | some challenge => cramMd5Response hashes (Codec.bytesOf s.password) challenge
    | none => s.password

def verifyPassword (hashes : Hashes) (s : Session) (pw : String) : Bool :=
  let received := hashes.sha256 (Codec.bytesOf pw)
  let plaintext := decide (s.passwordHash = received)
  let cram := s.cramPasswordHash.any (fun expected => decide (expected = received))
  plaintext || cram || s.unsecured

def advanceGreeting (hashes : Hashes) (s : Session) : Event -> Outcome × Session
  | .data _ => (.error .unexpectedData, s)
  | .command (.nul line) =>
      match s.peerChallenge, parseChallenge line with
      | none, some challenge => (.ok [], { s with peerChallenge := some challenge })
      | _, _ => (.ok [], s)
  | .command (.adr addresses) =>
      let s := { s with peerAddresses := addresses }
      match s.role with
      | .originating =>
          (.ok [.sendCommand (.pwd (s.passwordValue hashes))], { s with phase := .awaitOk })
      | .answering => (.ok [], s)
  | .command (.pwd pw) =>
      match s.role with
      | .originating => (s.unexpected (.command (.pwd pw)), s)
      | .answering =>
          if s.verifyPassword hashes pw then
            let (actions, s) := s.enterTransfer
            (.ok (.sendCommand (.ok "secure") :: .authenticated :: actions), s)
          else
            (.ok [.sendCommand (.err "bad password"), .aborted "bad password"],
              { s with phase := .failed })
  | .command (.err text) => (.ok [.aborted text], { s with phase := .failed })
  | .command (.bsy text) => (.ok [.aborted text], { s with phase := .failed })
  | other => (s.unexpected other, s)

def advanceAwaitOk (s : Session) : Event -> Outcome × Session
  | .data _ => (.error .unexpectedData, s)
  | .command (.ok _) =>
      let (actions, s) := s.enterTransfer
      (.ok (.authenticated :: actions), s)
  | .command (.nul _) => (.ok [], s)
  | .command (.adr _) => (.ok [], s)
  | .command (.err text) => (.ok [.aborted text], { s with phase := .failed })
  | .command (.bsy text) => (.ok [.aborted text], { s with phase := .failed })
  | other => (s.unexpected other, s)

def onFile (s : Session) (info : FileInfo) : Outcome × Session :=
  if s.receiving.isSome then (.error (.unexpected s.phase.name "M_FILE"), s)
  else if info.size = 0 then
    let (actions, s) := s.maybeFinish
    (.ok (.expectFile info :: .sendCommand (.got info.id) :: .fileComplete info.id :: actions), s)
  else (.ok [.expectFile info], { s with receiving := some (info, 0) })

def onData (s : Session) (bytes : Bytes) : Outcome × Session :=
  match s.receiving with
  | none => (.error .unexpectedData, s)
  | some (info, received) =>
      let received := received + UInt64.ofNat bytes.length
      if info.size <= received then
        let (actions, s) := { s with receiving := none }.maybeFinish
        (.ok (.writeData bytes :: .sendCommand (.got info.id) :: .fileComplete info.id :: actions),
          s)
      else (.ok [.writeData bytes], { s with receiving := some (info, received) })

/-- An acknowledgement, or a refusal, of the file that is out. -/
def onGot (s : Session) : Outcome × Session :=
  match s.sending with
  | some _ =>
      let (actions, s) := { s with sending := none }.startNextSend
      (.ok actions, s)
  | none => (.error (.unexpected s.phase.name "M_GOT"), s)

def advanceTransfer (s : Session) : Event -> Outcome × Session
  | .data bytes => s.onData bytes
  | .command (.file info) => s.onFile info
  | .command (.got _) => s.onGot
  | .command (.skip _) => s.onGot
  | .command .eob =>
      let (actions, s) := { s with peerEob := true }.maybeFinish
      (.ok actions, s)
  | .command (.nul _) => (.ok [], s)
  | .command (.adr _) => (.ok [], s)
  | .command (.err text) => (.ok [.aborted text], { s with phase := .failed })
  | .command (.bsy text) => (.ok [.aborted text], { s with phase := .failed })
  | other => (s.unexpected other, s)

def advance (hashes : Hashes) (s : Session) (event : Event) : Outcome × Session :=
  match s.phase with
  | .greeting => s.advanceGreeting hashes event
  | .awaitOk => s.advanceAwaitOk event
  | .transfer => s.advanceTransfer event
  | .done => (s.unexpected event, s)
  | .failed => (s.unexpected event, s)

end Session
end Rabbithole.Binkp
