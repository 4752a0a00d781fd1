import Rabbithole.Foundation.Run
import Rabbithole.Telnet.Line
import Rabbithole.Telnet.Proto

/-!
# Option negotiation

One state for each option and side: the options we perform, which the peer asks for or
forbids, and those we want of the peer, which it offers or refuses.
-/

namespace Rabbithole.Telnet

open Foundation

inductive OptState where
  | no
  | wantYes
  | yes
deriving DecidableEq

inductive Notice where
  | remoteEnabled (option : UInt8)
  | remoteDisabled (option : UInt8)
  | localEnabled (option : UInt8)
  | localDisabled (option : UInt8)
deriving DecidableEq

abbrev OptTable := List (UInt8 × OptState)

namespace OptTable

def find : OptTable -> UInt8 -> Option OptState
  | [], _ => none
  | (o, state) :: rest, option => if o = option then some state else find rest option

def set : OptTable -> UInt8 -> OptState -> OptTable
  | [], _, _ => []
  | (o, state) :: rest, option, new =>
      if o = option then (o, new) :: rest else (o, state) :: set rest option new

/-- A WILL or a DO of the peer, which is confirmed or refused where that is news. -/
def agree (confirm refuse : UInt8) (notice : UInt8 -> Notice) (table : OptTable)
    (option : UInt8) : OptTable × Bytes × Option Notice :=
  match table.find option with
  | some .no => (table.set option .yes, [IAC, confirm, option], some (notice option))
  | some .wantYes => (table.set option .yes, [], some (notice option))
  | some .yes => (table, [], none)
  | none => (table, [IAC, refuse, option], none)

/-- A WONT or a DONT of the peer; a negative is not answered with a negative. -/
def cease (reply : UInt8) (notice : UInt8 -> Notice) (table : OptTable) (option : UInt8) :
    OptTable × Bytes × Option Notice :=
  match table.find option with
  | some .no => (table, [], none)
  | some .wantYes => (table.set option .no, [], none)
  | some .yes => (table.set option .no, [IAC, reply, option], some (notice option))
  | none => (table, [], none)

def offer (verb : UInt8) (table : OptTable) : OptTable × Bytes :=
  (table.map (fun (o, state) => (o, if state = .no then .wantYes else state)),
    table.flatMap (fun (o, state) => if state = .no then [IAC, verb, o] else []))

end OptTable

structure Negotiator where
  locals : OptTable
  remotes : OptTable
deriving DecidableEq

namespace Negotiator

def new : Negotiator where
  locals := [(optEcho, .no), (optSga, .no)]
  remotes := [(optSga, .no), (optNaws, .no), (optTtype, .no)]

def offerAll (n : Negotiator) : Negotiator × Bytes :=
  (⟨(n.locals.offer WILL).fst, (n.remotes.offer DO).fst⟩,
    (n.locals.offer WILL).snd ++ (n.remotes.offer DO).snd)

def onRemotes (n : Negotiator) (change : OptTable × Bytes × Option Notice) :
    Negotiator × Bytes × Option Notice :=
  ({ n with remotes := change.fst }, change.snd)

def onLocals (n : Negotiator) (change : OptTable × Bytes × Option Notice) :
    Negotiator × Bytes × Option Notice :=
  ({ n with locals := change.fst }, change.snd)

def onWill (n : Negotiator) (option : UInt8) : Negotiator × Bytes × Option Notice :=
  n.onRemotes (n.remotes.agree DO DONT .remoteEnabled option)

def onWont (n : Negotiator) (option : UInt8) : Negotiator × Bytes × Option Notice :=
  n.onRemotes (n.remotes.cease DONT .remoteDisabled option)

def onDo (n : Negotiator) (option : UInt8) : Negotiator × Bytes × Option Notice :=
  n.onLocals (n.locals.agree WILL WONT .localEnabled option)

def onDont (n : Negotiator) (option : UInt8) : Negotiator × Bytes × Option Notice :=
  n.onLocals (n.locals.cease WONT .localDisabled option)

/-- We perform the option, or have offered it and were not refused. -/
def localActive (n : Negotiator) (option : UInt8) : Bool :=
  n.locals.any (fun (o, state) => o == option && state != .no)

end Negotiator

/-!
# Reading lines from a connection

The stream has a parser, a queue of events and the line that is typed.  A call that reads a
line takes one event after the other, and can be dropped where it waits for the connection.
-/

inductive Input where
  | data (bytes : Bytes)
  | windowSize (cols rows : UInt16)
  | terminalType (name : String)
deriving DecidableEq

structure TelnetStream where
  parser : Parser
  neg : Negotiator
  events : List Event
  window : Option (UInt16 × UInt16)
  terminal : Option String
  ttypeRequested : Bool
  line : Line
  completedLine : Option String

namespace TelnetStream

def new (neg : Negotiator) (encoding : Encoding) : TelnetStream where
  parser := .new
  neg := neg
  events := []
  window := none
  terminal := none
  ttypeRequested := false
  line := .new encoding
  completedLine := none

def discardLine (s : TelnetStream) : TelnetStream :=
  { s with line := s.line.discard, completedLine := none }

def echoActive (s : TelnetStream) : Bool :=
  s.neg.localActive optEcho

def absorbSubneg (s : TelnetStream) (option : UInt8) (payload : Bytes) :
    TelnetStream × Option Input :=
  match payload with
  | first :: rest =>
      if option = optNaws then
        match rest with
        | second :: third :: fourth :: _ =>
            let cols := UInt16.ofNat (Codec.ofHighFirst [first, second])
            let rows := UInt16.ofNat (Codec.ofHighFirst [third, fourth])
            ({ s with window := some (cols, rows) }, some (.windowSize cols rows))
        | _ => (s, none)
      else if option = optTtype ∧ first = ttypeIs then
        let name := trim (String.ofList (fromUtf8Lossy rest))
        ({ s with terminal := some name }, some (.terminalType name))
      else (s, none)
  | [] => (s, none)

/-- What the negotiator made of a command, and the question for the terminal type behind it. -/
def negotiated (s : TelnetStream) (answer : Negotiator × Bytes × Option Notice) :
    TelnetStream × Bytes :=
  let (neg, out, notice) := answer
  if notice = some (.remoteEnabled optTtype) ∧ s.ttypeRequested = false then
    ({ s with neg := neg, ttypeRequested := true },
      out ++ [IAC, SB, optTtype, ttypeSend, IAC, SE])
  else ({ s with neg := neg }, out)

/-- One event: what is to be written for it, and the input it surfaces. -/
def absorb (s : TelnetStream) : Event -> TelnetStream × Bytes × Option Input
  | .data bytes => (s, [], some (.data bytes))
  | .will option =>
      let (s, out) := s.negotiated (s.neg.onWill option)
      (s, out, none)
  | .wont option =>
      let (s, out) := s.negotiated (s.neg.onWont option)
      (s, out, none)
  | .do option =>
      let (s, out) := s.negotiated (s.neg.onDo option)
      (s, out, none)
  | .dont option =>
      let (s, out) := s.negotiated (s.neg.onDont option)
      (s, out, none)
  | .command _ => (s, [], none)
  | .subnegotiation option payload =>
      let (s, input) := s.absorbSubneg option payload
      (s, [], input)

/-- The data of one event: the line so far, what is behind the line, and what is echoed. -/
def takeData (s : TelnetStream) (echo : Echo) (data : Bytes) : TelnetStream × Bytes × Bool :=
  match s.line.bytes echo data with
  | (line, out, done, left) =>
      let s := { s with
        line := if done then line.next else line
        completedLine := if done then some line.text else s.completedLine
        events := if left.isEmpty then s.events else .data left :: s.events }
      let out := if done then out ++ [0x0D, 0x0A] else out
      (s, if s.echoActive then escapeIac out else [], done)

end TelnetStream

/-- Where a call that reads a line is. -/
inductive Point where
  | turn
  | reading
  | replying (out : Bytes)
  | echoing (out : Bytes) (done : Bool)
deriving DecidableEq

/--
A stream with what is still to be read from the connection and what was written to it, the
call that is under way, and the lines that were returned.
-/
structure Terminal where
  stream : TelnetStream
  reads : List Bytes
  written : Bytes
  call : Option (Echo × Point)
  lines : List String
  ended : Bool

inductive Move where
  | call (echo : Echo)
  | go
  | drop (wrote : Nat)
deriving DecidableEq

namespace Terminal

def new (neg : Negotiator) (encoding : Encoding) (reads : List Bytes) : Terminal where
  stream := .new neg encoding
  reads := reads
  written := []
  call := none
  lines := []
  ended := false

/-- The call returns the line that is complete. -/
def returns (t : Terminal) : Terminal :=
  { t with
    stream := { t.stream with completedLine := none }
    call := none
    lines := t.lines ++ t.stream.completedLine.toList }

/-- The echo is written before the call goes on, or returns. -/
def say (t : Terminal) (echo : Echo) (out : Bytes) (done : Bool) : Terminal :=
  if out.isEmpty then
    if done then t.returns else { t with call := some (echo, .turn) }
  else { t with call := some (echo, .echoing out done) }

def edit (t : Terminal) (echo : Echo) (data : Bytes) : Terminal :=
  match t.stream.takeData echo data with
  | (s, out, done) => { t with stream := s }.say echo out done

/-- The next event, or the next read where there is none. -/
def turn (t : Terminal) (echo : Echo) : Terminal :=
  match t.stream.events with
  | [] => { t with call := some (echo, .reading) }
  | e :: rest =>
      match { t.stream with events := rest }.absorb e with
      | (s, out, input) =>
          if out.isEmpty then
            match input with
            | some (.data data) => { t with stream := s }.edit echo data
            | _ => { t with stream := s, call := some (echo, .turn) }
          else { t with stream := s, call := some (echo, .replying out) }

/-- Bytes from the connection; none are the end of it. -/
def fill (t : Terminal) (echo : Echo) : Terminal :=
  match t.reads with
  | [] => { t with stream := t.stream.discardLine, call := none, ended := true }
  | chunk :: rest =>
      if chunk.isEmpty then
        { t with stream := t.stream.discardLine, call := none, ended := true }
      else
        let (events, parser) := t.stream.parser.feed chunk
        { t with
          stream := { t.stream with parser := parser, events := t.stream.events ++ events }
          reads := rest
          call := some (echo, .turn) }

def step (t : Terminal) : Move -> Option Terminal
  | .call echo =>
      if t.call.isSome ∨ t.ended then none
      else if t.stream.completedLine.isSome then some t.returns
      else some { t with call := some (echo, .turn) }
  | .go =>
      match t.call with
      | none => none
      | some (echo, .turn) => some (t.turn echo)
      | some (echo, .reading) => some (t.fill echo)
      | some (echo, .replying out) =>
          some { t with written := t.written ++ out, call := some (echo, .turn) }
      | some (echo, .echoing out done) =>
          let t := { t with written := t.written ++ out }
          if done then some t.returns else some { t with call := some (echo, .turn) }
  | .drop wrote =>
      match t.call with
      | none => none
      -- no call is dropped but where it waits
      | some (_, .turn) => none
      | some (_, .reading) => some { t with call := none }
      | some (_, .replying out) =>
          some { t with written := t.written ++ out.take wrote, call := none }
      | some (_, .echoing out _) =>
          some { t with written := t.written ++ out.take wrote, call := none }

end Terminal

end Rabbithole.Telnet
