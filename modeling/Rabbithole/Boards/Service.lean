import Rabbithole.Boards.Store
import Rabbithole.Foundation.Run

/-!
# The board service

Posts are minted here or taken in from other servers; follow-up events are applied at once or
parked until their post is there.  A call that fails writes nothing.
-/

namespace Rabbithole.Boards

open Foundation

inductive IngestOutcome where
  | posted (row : PostRow)
  | applied (board : String) (target : EventId) (kind : FollowupKind)
  | pending (board : String) (target : EventId) (kind : FollowupKind)
deriving DecidableEq

inductive BoardError where
  | noSuchBoard
  | notPostable
  | noSuchPost
  | forbidden
  | empty
deriving DecidableEq

/-- The characters `str::trim` takes away (Unicode `White_Space`). -/
def isWhitespace (c : Char) : Bool :=
  let n := c.toNat
  (decide (9 <= n) && decide (n <= 13)) || (decide (0x2000 <= n) && decide (n <= 0x200A)) ||
    [0x20, 0x85, 0xA0, 0x1680, 0x2028, 0x2029, 0x202F, 0x205F, 0x3000].contains n

/-- `trim().is_empty()`. -/
def isBlank (text : String) : Bool :=
  text.toList.all isWhitespace

/-- The thread a row belongs to: its root, or itself when it has none. -/
def PostRow.thread (row : PostRow) : EventId :=
  row.rootId.getD row.eventId

structure BoardService where
  keys : Keys
  origin : String
  originSeed : Seed
  rank : Rank

namespace BoardService

/-- Mint a post by the author, board and thread rules; with the board's retention. -/
def preparePost (svc : BoardService) (s : Store) (board : String)
    (parent : Option EventId) (authorDisplay : String) (authorSeed : Seed)
    (subject body mime : String) (now : Int) : Except BoardError (SignedEvent × Int) :=
  match s.bySlug board with
  | none => .error .noSuchBoard
  | some boardRow =>
      if boardRow.kind ≠ 2 then .error .notPostable
      else if isBlank subject = true ∧ isBlank body = true then .error .empty
      else
        let minted := fun root =>
          mint svc.keys authorDisplay authorSeed svc.origin svc.originSeed now
            (.post boardRow.slug root parent subject body mime)
        match parent with
        | none => .ok (minted none, boardRow.maxThreads)
        | some pid =>
            match s.postById pid with
            | none => .error .noSuchPost
            | some parentRow => .ok (minted (some parentRow.thread), boardRow.maxThreads)

/-- The projection of a post event, under the local board's spelling. -/
def projectPost (s : Store) (event : SignedEvent) : Except BoardError PostRow :=
  match event.body with
  | .post board root parent subject body mime =>
      match s.bySlug board with
      | none => .error .noSuchBoard
      | some boardRow =>
          .ok
            { eventId := event.id
              boardSlug := boardRow.slug
              rootId := root.or (if parent = none then some event.id else none)
              parentId := parent
              author := event.author
              subject := subject
              body := body
              mime := mime
              createdAt := event.createdAt
              edited := false
              tombstoned := false
              event := event }
  | _ => .error .empty

/-- Drop overflow threads, and their follow-ups with them. -/
def retain (svc : BoardService) (s : Store) (row : PostRow) (maxThreads : Int) : Store :=
  if row.parentId = none ∧ 0 < maxThreads then
    (s.overflowThreads svc.rank row.boardSlug maxThreads).foldl
      (fun s old => (s.deleteThread old).deleteForRoot old) s
  else
    s

def ingest (svc : BoardService) (s : Store) (event : SignedEvent) (maxThreads : Int) :
    Except BoardError (PostRow × Store) :=
  match projectPost s event with
  | .error e => .error e
  | .ok row => .ok (row, svc.retain (s.insertPost row) row maxThreads)

def post (svc : BoardService) (s : Store) (board : String) (parent : Option EventId)
    (authorDisplay : String) (authorSeed : Seed) (subject body mime : String)
    (now : Int) : Except BoardError (PostRow × Store) :=
  match svc.preparePost s board parent authorDisplay authorSeed subject body mime now with
  | .error e => .error e
  | .ok (event, maxThreads) => svc.ingest s event maxThreads

def storeFollowup (s : Store) (event : SignedEvent) (board : String)
    (target root : EventId) (kind : FollowupKind) (applied : Bool) : Store :=
  s.insertFollowup
    { eventId := event.id
      targetId := target
      rootId := root
      boardSlug := board
      kind := kind
      origin := event.origin
      applied := applied
      createdAt := event.createdAt
      event := event }

/-- Apply a follow-up's effect to the projection. -/
def applyFollowup (s : Store) : EventBody -> Store
  | .edit target subject body mime => s.applyEdit target subject body mime
  | .tombstone target => s.applyTombstone target
  | .post _ _ _ _ _ _ => s

/-- One follow-up that waited for a post: applied through the gate, or dropped. -/
def reconcileOne (post : PostRow) (s : Store) (followup : FollowupRow) : Store :=
  if followupAuthorized followup.event post.event then
    (applyFollowup s followup.event.body).markApplied followup.eventId post.boardSlug
      post.thread
  else
    s.deleteOne followup.eventId

def reconcileFollowups (svc : BoardService) (s : Store) (post : PostRow) : Store :=
  (s.pendingFor svc.rank post.eventId).foldl (reconcileOne post) s

/-- Store and apply a locally authored follow-up: the gate does not apply. -/
def storeLocalFollowup (s : Store) (event : SignedEvent) (board : String)
    (target root : EventId) (kind : FollowupKind) : Store :=
  applyFollowup (storeFollowup s event board target root kind true) event.body

def edit (svc : BoardService) (s : Store) (target : EventId) (editorDisplay : String)
    (editorSeed : Seed) (subject body mime : String) (now : Int) :
    Except BoardError ((PostRow × EventId) × Store) :=
  match s.postById target with
  | none => .error .noSuchPost
  | some row =>
      let event := mint svc.keys editorDisplay editorSeed svc.origin svc.originSeed now
        (.edit target subject body mime)
      let s := storeLocalFollowup s event row.boardSlug target row.thread .edit
      match s.postById target with
      | none => .error .noSuchPost
      | some updated => .ok ((updated, event.id), s)

def tombstone (svc : BoardService) (s : Store) (target : EventId) (actorDisplay : String)
    (actorSeed : Seed) (now : Int) : Except BoardError (EventId × Store) :=
  match s.postById target with
  | none => .error .noSuchPost
  | some row =>
      let event := mint svc.keys actorDisplay actorSeed svc.origin svc.originSeed now
        (.tombstone target)
      .ok (event.id, storeLocalFollowup s event row.boardSlug target row.thread .tombstone)

/-- An edit or a retraction from another server, of the post it names. -/
def ingestFollowup (s : Store) (event : SignedEvent) (board : String)
    (target : EventId) (kind : FollowupKind) : Except BoardError (IngestOutcome × Store) :=
  match s.postById target with
  | some p =>
      if followupAuthorized event p.event then
        .ok (.applied p.boardSlug target kind,
          applyFollowup (storeFollowup s event p.boardSlug target p.thread kind true)
            event.body)
      else
        .error .forbidden
  | none =>
      match s.bySlug board with
      | none => .error .noSuchBoard
      | some boardRow =>
          .ok (.pending boardRow.slug target kind,
            storeFollowup s event boardRow.slug target target kind false)

/-- Take in a verified event of any kind, delivered under a board's name. -/
def ingestEvent (svc : BoardService) (s : Store) (event : SignedEvent) (board : String)
    (maxThreads : Int) : Except BoardError (IngestOutcome × Store) :=
  match event.body with
  | .post _ _ _ _ _ _ =>
      match svc.ingest s event maxThreads with
      | .error e => .error e
      | .ok (row, s) => .ok (.posted row, svc.reconcileFollowups s row)
  | .edit target _ _ _ => ingestFollowup s event board target .edit
  | .tombstone target => ingestFollowup s event board target .tombstone

end BoardService

/-!
## Runs

Every sequence of calls; a call that fails leaves the store as it was.
-/

inductive Call where
  | post (board : String) (parent : Option EventId) (author : String) (seed : Seed)
      (subject body mime : String) (now : Int)
  | edit (target : EventId) (editor : String) (seed : Seed) (subject body mime : String)
      (now : Int)
  | tombstone (target : EventId) (actor : String) (seed : Seed) (now : Int)
  | ingest (event : SignedEvent) (board : String) (maxThreads : Int)

def settled {result : Type} (s : Store) : Except BoardError (result × Store) -> Store
  | .error _ => s
  | .ok (_, s) => s

def Call.run (svc : BoardService) (s : Store) : Call -> Store
  | .post board parent author seed subject body mime now =>
      settled s (svc.post s board parent author seed subject body mime now)
  | .edit target editor seed subject body mime now =>
      settled s (svc.edit s target editor seed subject body mime now)
  | .tombstone target actor seed now => settled s (svc.tombstone s target actor seed now)
  | .ingest event board maxThreads => settled s (svc.ingestEvent s event board maxThreads)

def step (svc : BoardService) (s : Store) (call : Call) : Option Store :=
  some (call.run svc s)

/-!
## A small board

A server for small examples, and a post with two edits by its author on another
server, a retraction by its home, and one by someone who is neither.
-/

def clockService (origin : String) (seed : Seed) : BoardService :=
  { keys := Keys.clock, origin := origin, originSeed := seed, rank := BitVec.toNat }

def shortPost : SignedEvent :=
  mint Keys.clock "ann" 1 "burrow" 9 1 (.post "general" none none "hello" "text" "text/plain")

def firstEdit : SignedEvent :=
  mint Keys.clock "ann" 1 "warren" 8 2 (.edit 1 "first" "text" "text/plain")

def secondEdit : SignedEvent :=
  mint Keys.clock "ann" 1 "warren" 8 3 (.edit 1 "second" "text" "text/plain")

def strangerTombstone : SignedEvent :=
  mint Keys.clock "bob" 2 "warren" 8 5 (.tombstone 1)

end Rabbithole.Boards
