import Mathlib.Data.Finset.Basic
import Rabbithole.Foundation.Dict
import Rabbithole.Foundation.Run
import Rabbithole.Foundation.Text

/-!
# Chat rooms

Rooms live in memory: the lobby for good, any other room until its last member leaves.
Members are sessions; invitations, bans and mutes are by account.  Guests have negative
accounts, and the sessions of live guests are kept beside the rooms.  What is published to
subscribers is left out.
-/

namespace Rabbithole.Chat

open Foundation

def lobby : String := "lobby"

/-- Most scrollback lines kept per room. -/
def scrollback : Nat := 500

def maxSlowModeSecs : Nat := 3600

def u64Max : Nat := 2 ^ 64 - 1

def u32Max : Nat := 2 ^ 32 - 1

def i64Max : Int := 2 ^ 63 - 1

abbrev I64 := { n : Int // -2 ^ 63 <= n ∧ n <= i64Max }

/-- `saturating_add(1)`. -/
def I64.saturatingSucc (n : I64) : I64 :=
  ⟨min (n.val + 1) i64Max, by
    have hlow := n.property.left
    unfold i64Max
    omega⟩

structure ChatLine where
  room : String
  sender : String
  text : String
  atUnixMs : I64
deriving DecidableEq

structure RoomSummary where
  name : String
  category : String
  topic : String
  private_ : Bool
  memberCount : Nat
  createdBy : String
deriving DecidableEq

structure Room where
  name : String
  category : String
  topic : String
  private_ : Bool
  persistent : Bool
  createdByAccount : Int
  createdByName : String
  /-- Session to screen name. -/
  members : Dict Nat String
  invited : Finset Int
  banned : Finset Int
  /-- Account to the end of its mute; none until lifted. -/
  muted : Dict Int (Option Nat)
  /-- Account to the name it was muted under. -/
  mutedAs : Dict Int String
  slowModeSecs : Nat
  lastSentMs : Dict Int Nat
  history : List ChatLine

inductive ChatError where
  | noSuchRoom (name : String)
  | tooLong (len max : Nat)
  | empty
  | alreadyExists
  | notMember
  | forbidden
  | badName
  | muted
  | slowMode (retryAfterSecs : Nat)
deriving DecidableEq

structure RoomKeeping where
  slowModeSecs : Nat
  mayModerate : Bool
  members : List (Nat × String)
  muted : List (Int × String × Option Nat)
deriving DecidableEq

structure Sender where
  sessionId : Nat
  accountId : Int
  isModerator : Bool
  screenName : String

namespace Room

def summary (room : Room) : RoomSummary where
  name := room.name
  category := room.category
  topic := room.topic
  private_ := room.private_
  memberCount := room.members.size % 2 ^ 32
  createdBy := room.createdByName

def unmuted (room : Room) (account : Int) : Room :=
  { room with muted := room.muted.erase account, mutedAs := room.mutedAs.erase account }

/-- Whether an account is muted; a mute that has run out is dropped when consulted. -/
def mutedNow (room : Room) (account : Int) (nowMs : Nat) : Bool × Room :=
  match room.muted.get? account with
  | none => (false, room)
  | some none => (true, room)
  | some (some ends) => if nowMs < ends then (true, room) else (false, room.unmuted account)

def canModerate (room : Room) (account : Int) (isModerator : Bool) : Bool :=
  isModerator || decide (room.createdByAccount = account)

/-- Let a session in, under the name it goes by. -/
def letIn (room : Room) (session : Nat) (screenName : String) : Room :=
  if room.members.get? session ≠ some screenName then
    { room with members := room.members.insert session screenName }
  else
    room

def dismiss (room : Room) (session : Nat) : Room :=
  { room with members := room.members.erase session }

/-- The room with the send clock of an account set, while slow mode is on. -/
def clocked (room : Room) (account : Int) (nowMs : Nat) : Room :=
  if 0 < room.slowModeSecs then
    { room with lastSentMs := room.lastSentMs.insert account nowMs }
  else room

/-- The room with an account banned, if it is to be. -/
def barred (room : Room) (account : Int) (ban : Bool) : Room :=
  if ban then
    { room with
      banned := insert account room.banned
      invited := room.invited.erase account }
  else room

/-- An empty room that is not for good is reaped. -/
def survives (room : Room) : Bool :=
  room.persistent || !room.members.isEmpty

end Room

def nextChatTimestamp (previous : Option I64) (wallClockMs : I64) : I64 :=
  match previous with
  | none => wallClockMs
  | some last => max wallClockMs last.saturatingSucc

structure ChatService where
  /-- Live guest sessions, with their accounts. -/
  guestSessions : Dict Nat Int
  rooms : Dict String Room
  maxLen : Nat

namespace ChatService

section

variable (lower : String -> String)

def key (name : String) : String :=
  lower (trim name)

def lobbyRoom : Room where
  name := lobby
  category := "General"
  topic := ""
  private_ := false
  persistent := true
  createdByAccount := 0
  createdByName := "server"
  members := Dict.empty
  invited := ∅
  banned := ∅
  muted := Dict.empty
  mutedAs := Dict.empty
  slowModeSecs := 0
  lastSentMs := Dict.empty
  history := []

def new (maxLen : Nat) : ChatService where
  guestSessions := Dict.empty
  rooms := Dict.empty.insert (key lower lobby) lobbyRoom
  maxLen := maxLen

def present (s : ChatService) (account : Int) : Bool :=
  s.guestSessions.entries.any (fun entry => decide (entry.snd = account))

/-- Look a room up by name, and act on it. -/
def withRoom {answer : Type} (s : ChatService) (name : String)
    (act : Room -> Except ChatError answer × Room) : Except ChatError answer × ChatService :=
  match s.rooms.get? (key lower name) with
  | none => (.error (.noSuchRoom name), s)
  | some room =>
      ((act room).fst, { s with rooms := s.rooms.insert (key lower name) (act room).snd })

def joinLobby (s : ChatService) (session : Nat) (account : Int) (screenName : String) :
    ChatService :=
  let guests :=
    if account < 0 then s.guestSessions.insert session account else s.guestSessions
  { s with
    guestSessions := guests
    rooms := s.rooms.modify (key lower lobby) (fun room => room.letIn session screenName) }

def sessionClosed (s : ChatService) (session : Nat) (account : Int) : ChatService :=
  let s := { s with guestSessions := s.guestSessions.erase session }
  let finalGuest := decide (account < 0) && !s.present account
  { s with
    rooms := s.rooms.filterMap (fun _ room =>
      let left := room.dismiss session
      if left.survives then some (if finalGuest then left.unmuted account else left)
      else none) }

/-- Too long a name, an empty one, or one with a slash or a line break in it. -/
def badName (display : String) : Bool :=
  display.isEmpty || decide (32 < display.utf8ByteSize) || display.toList.contains '/' ||
    display.toList.contains '\n'

def create (s : ChatService) (name category topic : String) (private_ : Bool)
    (creatorAccount : Int) (creatorName : String) (creatorSession : Nat) :
    Except ChatError RoomSummary × ChatService :=
  let display := trim name
  if badName display then (.error .badName, s)
  else if (s.rooms.get? (key lower display)).isSome then (.error .alreadyExists, s)
  else
    let room : Room :=
      { name := display
        category := trim category
        topic := trim topic
        private_ := private_
        persistent := false
        createdByAccount := creatorAccount
        createdByName := creatorName
        members := Dict.empty.insert creatorSession creatorName
        invited := {creatorAccount}
        banned := ∅
        muted := Dict.empty
        mutedAs := Dict.empty
        slowModeSecs := 0
        lastSentMs := Dict.empty
        history := [] }
    (.ok room.summary, { s with rooms := s.rooms.insert (key lower display) room })

def join (s : ChatService) (name : String) (session : Nat) (account : Int)
    (screenName : String) : Except ChatError RoomSummary × ChatService :=
  s.withRoom lower name (fun room =>
    if account ∈ room.banned then (.error .forbidden, room)
    else if room.private_ = true ∧ account ∉ room.invited ∧ room.createdByAccount ≠ account then
      (.error .forbidden, room)
    else (.ok (room.letIn session screenName).summary, room.letIn session screenName))

def leave (s : ChatService) (name : String) (session : Nat) : Except ChatError Unit × ChatService :=
  if key lower name = key lower lobby then (.error .forbidden, s)
  else
    match s.rooms.get? (key lower name) with
    | none => (.error (.noSuchRoom name), s)
    | some room =>
        if (room.members.get? session).isNone then (.ok (), s)
        else if (room.dismiss session).survives then
          (.ok (), { s with rooms := s.rooms.insert (key lower name) (room.dismiss session) })
        else (.ok (), { s with rooms := s.rooms.erase (key lower name) })

def invite (s : ChatService) (name : String) (inviterSession : Nat) (targetAccount : Int) :
    Except ChatError Unit × ChatService :=
  s.withRoom lower name (fun room =>
    if (room.members.get? inviterSession).isNone then (.error .notMember, room)
    else
      (.ok (), { room with
        invited := insert targetAccount room.invited
        banned := room.banned.erase targetAccount }))

def setTopic (s : ChatService) (name topic : String) (account : Int) (isModerator : Bool) :
    Except ChatError Unit × ChatService :=
  s.withRoom lower name (fun room =>
    if room.canModerate account isModerator = false then (.error .forbidden, room)
    else (.ok (), { room with topic := String.ofList ((trim topic).toList.take 200) }))

/-- The room without some sessions, and those of them that were in it. -/
def expel (room : Room) : List Nat -> List Nat × Room
  | [] => ([], room)
  | session :: rest =>
      let (kicked, left) := expel (room.dismiss session) rest
      (if (room.members.get? session).isSome then session :: kicked else kicked, left)

def kick (s : ChatService) (name : String) (byAccount : Int) (byIsModerator : Bool)
    (targetAccount : Int) (targetSessions : List Nat) (ban : Bool) :
    Except ChatError (List Nat) × ChatService :=
  match s.rooms.get? (key lower name) with
  | none => (.error (.noSuchRoom name), s)
  | some room =>
      if room.canModerate byAccount byIsModerator = false then (.error .forbidden, s)
      else if room.createdByAccount = targetAccount then (.error .forbidden, s)
      else
        let (kicked, left) := expel room targetSessions
        let removedInvite := ban && decide (targetAccount ∈ left.invited)
        let left := left.barred targetAccount ban
        if (kicked ≠ [] ∨ removedInvite = true) ∧ left.survives = false then
          (.ok kicked, { s with rooms := s.rooms.erase (key lower name) })
        else (.ok kicked, { s with rooms := s.rooms.insert (key lower name) left })

def mute (s : ChatService) (name : String) (byAccount : Int) (byIsModerator : Bool)
    (targetAccount : Int) (targetName : String) (durationMs : Option Nat) (nowMs : Nat) :
    Except ChatError Unit × ChatService :=
  if targetAccount < 0 ∧ s.present targetAccount = false then (.error .forbidden, s)
  else
    s.withRoom lower name (fun room =>
      if room.canModerate byAccount byIsModerator = false then (.error .forbidden, room)
      else if room.createdByAccount = targetAccount then (.error .forbidden, room)
      else
        let ends := durationMs.map (fun d => min (nowMs + min d u64Max) u64Max)
        (.ok (), { room with
          muted := room.muted.insert targetAccount ends
          mutedAs := room.mutedAs.insert targetAccount targetName }))

def unmute (s : ChatService) (name : String) (byAccount : Int) (byIsModerator : Bool)
    (targetAccount : Int) (nowMs : Nat) : Except ChatError Bool × ChatService :=
  s.withRoom lower name (fun room =>
    if room.canModerate byAccount byIsModerator = false then (.error .forbidden, room)
    else
      let (wasMuted, room) := room.mutedNow targetAccount nowMs
      (.ok wasMuted, room.unmuted targetAccount))

def isMuted (s : ChatService) (name : String) (account : Int) (nowMs : Nat) : Bool × ChatService :=
  match s.rooms.get? (key lower name) with
  | none => (false, s)
  | some room =>
      let (muted, room) := room.mutedNow account nowMs
      (muted, { s with rooms := s.rooms.insert (key lower name) room })

def setSlowMode (s : ChatService) (name : String) (seconds : Nat) (byAccount : Int)
    (byIsModerator : Bool) : Except ChatError Nat × ChatService :=
  s.withRoom lower name (fun room =>
    if room.canModerate byAccount byIsModerator = false then (.error .forbidden, room)
    else
      let applied := min seconds maxSlowModeSecs
      (.ok applied, { room with
        slowModeSecs := applied
        lastSentMs := if applied = 0 then Dict.empty else room.lastSentMs }))

/-- The mutes that have not run out. -/
def lapse (room : Room) (nowMs : Nat) : Room :=
  let muted := room.muted.retain (fun _ ends => ends.all (fun ends => decide (nowMs < ends)))
  { room with
    muted := muted
    mutedAs := room.mutedAs.retain (fun account _ => (muted.get? account).isSome) }

def keeping (s : ChatService) (name : String) (viewerSession : Nat) (viewerAccount : Int)
    (viewerIsModerator : Bool) (nowMs : Nat) : Except ChatError RoomKeeping × ChatService :=
  s.withRoom lower name (fun room =>
    if room.private_ = true ∧ (room.members.get? viewerSession).isNone then
      (.error .notMember, room)
    else
      let room := lapse room nowMs
      let mayModerate := room.canModerate viewerAccount viewerIsModerator
      let shown := room.muted.entries.filter (fun entry =>
        mayModerate || decide (entry.fst = viewerAccount))
      (.ok
        { slowModeSecs := room.slowModeSecs
          mayModerate := mayModerate
          members :=
            if mayModerate then
              room.members.entries.mergeSort (fun a b => decide (a.fst <= b.fst))
            else []
          muted :=
            (shown.map (fun entry =>
              (entry.fst, (room.mutedAs.get? entry.fst).getD "",
                entry.snd.map (fun ends => ends - nowMs)))).mergeSort
              (fun a b => decide (a.fst <= b.fst)) }, room))

/-- The seconds a sender still has to wait in slow mode, if any. -/
def slowWait (room : Room) (sender : Sender) (nowMs : Nat) : Option Nat :=
  if room.canModerate sender.accountId sender.isModerator then none
  else
    match room.lastSentMs.get? sender.accountId with
    | none => none
    | some last =>
        let waitMs := min (room.slowModeSecs * 1000) u64Max
        let elapsed := nowMs - last
        if elapsed < waitMs then some (min ((waitMs - elapsed + 999) / 1000) u32Max) else none

/-- The line appended, the oldest dropped when the scrollback is full. -/
def append (room : Room) (line : ChatLine) : Room :=
  let kept := if room.history.length = scrollback then room.history.tail else room.history
  { room with history := kept ++ [line] }

def send (s : ChatService) (roomName : String) (sender : Sender) (text : String)
    (nowMs : Nat) (wallClockMs : I64) : Except ChatError ChatLine × ChatService :=
  let text := trimEnd text
  if (trim text).isEmpty then (.error .empty, s)
  else if s.maxLen < text.utf8ByteSize then (.error (.tooLong text.utf8ByteSize s.maxLen), s)
  else
    s.withRoom lower roomName (fun room =>
      if (room.members.get? sender.sessionId).isNone then (.error .notMember, room)
      else
        match room.mutedNow sender.accountId nowMs with
        | (true, room) => (.error .muted, room)
        | (false, room) =>
            match (if 0 < room.slowModeSecs then slowWait room sender nowMs else none) with
            | some retry => (.error (.slowMode retry), room)
            | none =>
                let room := room.clocked sender.accountId nowMs
                let line : ChatLine :=
                  { room := room.name
                    sender := sender.screenName
                    text := text
                    atUnixMs :=
                      nextChatTimestamp (room.history.getLast?.map ChatLine.atUnixMs)
                        wallClockMs }
                (.ok line, append room line))

end

end ChatService

/-!
## Runs
-/

inductive Op where
  | joinLobby (session : Nat) (account : Int) (screenName : String)
  | sessionClosed (session : Nat) (account : Int)
  | create (name category topic : String) (private_ : Bool) (account : Int)
      (creatorName : String) (session : Nat)
  | join (name : String) (session : Nat) (account : Int) (screenName : String)
  | leave (name : String) (session : Nat)
  | invite (name : String) (session : Nat) (target : Int)
  | setTopic (name topic : String) (account : Int) (isModerator : Bool)
  | kick (name : String) (byAccount : Int) (byIsModerator : Bool) (target : Int)
      (targetSessions : List Nat) (ban : Bool)
  | mute (name : String) (byAccount : Int) (byIsModerator : Bool) (target : Int)
      (targetName : String) (durationMs : Option Nat) (nowMs : Nat)
  | unmute (name : String) (byAccount : Int) (byIsModerator : Bool) (target : Int)
      (nowMs : Nat)
  | isMuted (name : String) (account : Int) (nowMs : Nat)
  | setSlowMode (name : String) (seconds : Nat) (byAccount : Int) (byIsModerator : Bool)
  | keeping (name : String) (session : Nat) (account : Int) (isModerator : Bool)
      (nowMs : Nat)
  | send (name : String) (sender : Sender) (text : String) (nowMs : Nat) (wallClockMs : I64)

def Op.run (lower : String -> String) (s : ChatService) : Op -> ChatService
  | .joinLobby session account screenName => s.joinLobby lower session account screenName
  | .sessionClosed session account => s.sessionClosed session account
  | .create name category topic private_ account creatorName session =>
      (s.create lower name category topic private_ account creatorName session).snd
  | .join name session account screenName => (s.join lower name session account screenName).snd
  | .leave name session => (s.leave lower name session).snd
  | .invite name session target => (s.invite lower name session target).snd
  | .setTopic name topic account isModerator =>
      (s.setTopic lower name topic account isModerator).snd
  | .kick name byAccount byIsModerator target targetSessions ban =>
      (s.kick lower name byAccount byIsModerator target targetSessions ban).snd
  | .mute name byAccount byIsModerator target targetName durationMs nowMs =>
      (s.mute lower name byAccount byIsModerator target targetName durationMs nowMs).snd
  | .unmute name byAccount byIsModerator target nowMs =>
      (s.unmute lower name byAccount byIsModerator target nowMs).snd
  | .isMuted name account nowMs => (s.isMuted lower name account nowMs).snd
  | .setSlowMode name seconds byAccount byIsModerator =>
      (s.setSlowMode lower name seconds byAccount byIsModerator).snd
  | .keeping name session account isModerator nowMs =>
      (s.keeping lower name session account isModerator nowMs).snd
  | .send name sender text nowMs wallClockMs =>
      (s.send lower name sender text nowMs wallClockMs).snd

def step (lower : String -> String) (s : ChatService) (op : Op) : Option ChatService :=
  some (op.run lower s)

/-- The session that makes a call and its account, where the call names both. -/
def Op.caller : Op -> Option (Nat × Int)
  | .joinLobby session account _ => some (session, account)
  | .sessionClosed session account => some (session, account)
  | .create _ _ _ _ account _ session => some (session, account)
  | .join _ session account _ => some (session, account)
  | .keeping _ session account _ _ => some (session, account)
  | .send _ sender _ _ _ => some (sender.sessionId, sender.accountId)
  | _ => none

end Rabbithole.Chat
