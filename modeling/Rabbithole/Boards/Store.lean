import Mathlib.Data.List.Sort
import Rabbithole.Foundation.Table

/-!
# Signed board events

A post, an edit or a retraction is an event whose id is the hash of its canonical bytes,
signed by its author and its server.  Edits and retractions are follow-up events that name
the post they are about.
-/

namespace Rabbithole.Boards

open Foundation

/-- The blake3 content id of an event. -/
abbrev EventId := BitVec 256

abbrev PublicKey := BitVec 256

abbrev Seed := BitVec 256

inductive EventBody where
  | post (board : String) (root parent : Option EventId) (subject body mime : String)
  | edit (target : EventId) (subject body mime : String)
  | tombstone (target : EventId)
deriving DecidableEq

/-- Everything the id and the signatures of an event cover. -/
structure EventCore where
  author : String
  authorKey : PublicKey
  origin : String
  createdAt : Int
  body : EventBody
deriving DecidableEq

structure SignedEvent where
  id : EventId
  core : EventCore
  authorSig : List (BitVec 8)
  originSig : List (BitVec 8)
deriving DecidableEq

namespace SignedEvent

def author (event : SignedEvent) : String := event.core.author
def authorKey (event : SignedEvent) : PublicKey := event.core.authorKey
def origin (event : SignedEvent) : String := event.core.origin
def createdAt (event : SignedEvent) : Int := event.core.createdAt
def body (event : SignedEvent) : EventBody := event.core.body

end SignedEvent

/-- The hash and the signature scheme, over the canonical bytes of a core. -/
structure Keys where
  hash : EventCore -> EventId
  public_ : Seed -> PublicKey
  sign : Seed -> EventCore -> List (BitVec 8)
  verify : PublicKey -> EventCore -> List (BitVec 8) -> Bool

def mint (keys : Keys) (author : String) (authorSeed : Seed) (origin : String)
    (originSeed : Seed) (createdAt : Int) (body : EventBody) : SignedEvent :=
  let core : EventCore :=
    { author := author
      authorKey := keys.public_ authorSeed
      origin := origin
      createdAt := createdAt
      body := body }
  { id := keys.hash core
    core := core
    authorSig := keys.sign authorSeed core
    originSig := keys.sign originSeed core }

inductive VerifyError where
  | idMismatch
  | badAuthorSig
  | badOriginSig
deriving DecidableEq

/-- `SignedEvent::verify`: the id and both signatures, each of 64 bytes. -/
def SignedEvent.verify (keys : Keys) (event : SignedEvent)
    (expectedOriginKey : PublicKey) : Except VerifyError Unit :=
  if keys.hash event.core ≠ event.id then .error .idMismatch
  else if event.authorSig.length ≠ 64 ∨
      keys.verify event.authorKey event.core event.authorSig = false then
    .error .badAuthorSig
  else if event.originSig.length ≠ 64 ∨
      keys.verify expectedOriginKey event.core event.originSig = false then
    .error .badOriginSig
  else
    .ok ()

/--
The gate for a remote follow-up: the same author acting on their own post, or the
post's home server moderating its own content.
-/
def followupAuthorized (followup target : SignedEvent) : Bool :=
  decide (followup.authorKey = target.authorKey) || decide (followup.origin = target.origin)

/-- Keys for small examples: an event's id is its time, a signature names its signer. -/
def Keys.clock : Keys where
  hash core := BitVec.ofInt 256 core.createdAt
  public_ seed := seed
  sign seed _ := List.replicate 64 (seed.setWidth 8)
  verify key _ sig := decide (sig = List.replicate 64 (key.setWidth 8))

theorem SignedEvent.id_of_verify {keys : Keys} {event : SignedEvent} {key : PublicKey}
    (h : event.verify keys key = .ok ()) : event.id = keys.hash event.core := by
  unfold SignedEvent.verify at h
  by_cases hid : keys.hash event.core ≠ event.id
  · rw [if_pos hid] at h
    cases h
  · exact (not_not.mp hid).symm

/-!
# The board store

Boards by slug in any case, the projection of the posts and the stored follow-ups by
content id.  A stored event is kept as what its encoding decodes to.  Where a query orders by
a time, rows of equal time come in an order the store chooses, given here by a rank.
-/

/-- ASCII case folding, as a `NOCASE` column compares. -/
def foldCase (slug : String) : List Char :=
  slug.toList.map Char.toLower

structure BoardRow where
  slug : String
  /-- 0 category, 1 bundle, 2 board. -/
  kind : Nat
  maxThreads : Int
deriving DecidableEq

/-- A denormalized post projection. -/
structure PostRow where
  eventId : EventId
  boardSlug : String
  rootId : Option EventId
  parentId : Option EventId
  author : String
  subject : String
  body : String
  mime : String
  createdAt : Int
  edited : Bool
  tombstoned : Bool
  event : SignedEvent
deriving DecidableEq

inductive FollowupKind where
  | edit
  | tombstone
deriving DecidableEq

structure FollowupRow where
  eventId : EventId
  targetId : EventId
  rootId : EventId
  boardSlug : String
  kind : FollowupKind
  origin : String
  applied : Bool
  createdAt : Int
  event : SignedEvent
deriving DecidableEq

structure Store where
  boards : Table (fun board : BoardRow => foldCase board.slug)
  posts : Table PostRow.eventId
  followups : Table FollowupRow.eventId

/-- A store with its boards and nothing on them. -/
def Store.opened (boards : Table (fun board : BoardRow => foldCase board.slug)) : Store where
  boards := boards
  posts := Table.empty PostRow.eventId
  followups := Table.empty FollowupRow.eventId

/-- The boards of a server that has one, for small examples. -/
def oneBoard : Table (fun board : BoardRow => foldCase board.slug) where
  rows := [{ slug := "general", kind := 2, maxThreads := 0 }]
  nodup := List.nodup_singleton _

/-- The order of rows of equal time. -/
abbrev Rank := EventId -> Nat

namespace Store

def bySlug (s : Store) (slug : String) : Option BoardRow :=
  s.boards.find? (foldCase slug)

def postById (s : Store) (id : EventId) : Option PostRow :=
  s.posts.find? id

def followupById (s : Store) (id : EventId) : Option FollowupRow :=
  s.followups.find? id

def insertPost (s : Store) (row : PostRow) : Store :=
  { s with posts := s.posts.insert row }

/-- Replace the projected text, mark edited. -/
def applyEdit (s : Store) (target : EventId) (subject body mime : String) : Store :=
  { s with
    posts := s.posts.update target
      (fun row =>
        { row with subject := subject, body := body, mime := mime, edited := true })
      (fun _ => rfl) }

def applyTombstone (s : Store) (target : EventId) : Store :=
  { s with
    posts := s.posts.update target
      (fun row => { row with tombstoned := true, subject := "", body := "" })
      (fun _ => rfl) }

/-- The roots of a board's top-level threads past the newest `maxThreads`. -/
def overflowThreads (s : Store) (rank : Rank) (board : String) (maxThreads : Int) : List EventId :=
  if maxThreads <= 0 then []
  else
    let threads := s.posts.rows.filter (fun row =>
      decide (row.boardSlug = board ∧ row.parentId = none))
    let newest := threads.insertionSort (fun a b =>
      b.createdAt < a.createdAt ∨ (a.createdAt = b.createdAt ∧ rank a.eventId <= rank b.eventId))
    (newest.drop maxThreads.toNat).map PostRow.eventId

def deleteThread (s : Store) (root : EventId) : Store :=
  { s with
    posts := s.posts.delete (fun row =>
      decide (row.eventId = root ∨ row.rootId = some root)) }

def insertFollowup (s : Store) (row : FollowupRow) : Store :=
  { s with followups := s.followups.insert row }

/-- Follow-ups of a post that are not applied yet, oldest first. -/
def pendingFor (s : Store) (rank : Rank) (target : EventId) : List FollowupRow :=
  (s.followups.rows.filter (fun row =>
    decide (row.targetId = target ∧ row.applied = false))).insertionSort (fun a b =>
      a.createdAt < b.createdAt ∨ (a.createdAt = b.createdAt ∧ rank a.eventId <= rank b.eventId))

def deleteOne (s : Store) (id : EventId) : Store :=
  { s with followups := s.followups.delete (fun row => decide (row.eventId = id)) }

/-- Mark a follow-up applied, under its target's board and thread. -/
def markApplied (s : Store) (id : EventId) (board : String) (root : EventId) : Store :=
  { s with
    followups := s.followups.update id
      (fun row => { row with applied := true, boardSlug := board, rootId := root })
      (fun _ => rfl) }

def deleteForRoot (s : Store) (root : EventId) : Store :=
  { s with followups := s.followups.delete (fun row => decide (row.rootId = root)) }

end Store

end Rabbithole.Boards
