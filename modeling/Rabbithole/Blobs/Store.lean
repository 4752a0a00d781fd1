import Rabbithole.Foundation.Codec
import Rabbithole.Foundation.Listing
import Rabbithole.Foundation.Run
import Rabbithole.Foundation.Text

/-!
# Blobs by their hash

A directory tree: beside a blob are its count, its proofs and the temporary files of writes
under way.  A staged upload is a file elsewhere.  The file system does what it is asked to,
but a sidecar may stay where the code does not look.
-/

namespace Rabbithole.Blobs

open Foundation

/-- The hash of a content. -/
abbrev BlobId := BitVec 256

structure File where
  content : Bytes
  modified : Nat
deriving DecidableEq

namespace File

def len (file : File) : Nat :=
  file.content.length

end File

inductive BlobError where
  | io
  | notFound (id : BlobId)
  | hashMismatch (expected actual : BlobId)
deriving DecidableEq

def staleTemp : Nat := 6 * 3600

def dirOf (id : BlobId) : BitVec 16 :=
  id.extractLsb' 240 16

structure BlobStore where
  dirs : List (BitVec 16)
  blobs : Dict BlobId File
  refs : Dict BlobId (List Char)
  outboards : Dict BlobId Bytes
  temps : Dict BlobId Nat

namespace BlobStore

def empty : BlobStore where
  dirs := []
  blobs := Dict.empty
  refs := Dict.empty
  outboards := Dict.empty
  temps := Dict.empty

def createDir (s : BlobStore) (id : BlobId) : BlobStore :=
  { s with dirs := if dirOf id ∈ s.dirs then s.dirs else dirOf id :: s.dirs }

/-- Write a temporary file, and make it the blob. -/
def put (hash : Bytes -> BlobId) (now : Nat) (bytes : Bytes) (s : BlobStore) : BlobId × BlobStore :=
  let id := hash bytes
  if s.blobs.contains id then (id, s)
  else
    let s := s.createDir id
    (id, { s with
      blobs := s.blobs.insert id { content := bytes, modified := now }
      temps := s.temps.erase id })

/-- The same, cut short before the end. -/
def putInterrupted (hash : Bytes -> BlobId) (now : Nat) (bytes : Bytes) (s : BlobStore) :
    BlobStore :=
  let id := hash bytes
  if s.blobs.contains id then s
  else
    let s := s.createDir id
    { s with temps := s.temps.insert id now }

def get (hash : Bytes -> BlobId) (s : BlobStore) (id : BlobId) : Except BlobError Bytes :=
  match s.blobs.get? id with
  | none => .error (.notFound id)
  | some file =>
      if hash file.content ≠ id then .error (.hashMismatch id (hash file.content))
      else .ok file.content

/-- The result, the store, and what is left of the staged file. -/
def putVerified (hash : Bytes -> BlobId) (staged : Option File) (expected : BlobId)
    (s : BlobStore) : Except BlobError BlobId × BlobStore × Option File :=
  match staged with
  | none => (.error .io, s, none)
  | some file =>
      if hash file.content ≠ expected then
        (.error (.hashMismatch expected (hash file.content)), s, some file)
      else if s.blobs.contains expected then (.ok expected, s, none)
      else
        let s := s.createDir expected
        (.ok expected, { s with blobs := s.blobs.insert expected file }, none)

def readRefs (s : BlobStore) (id : BlobId) : Nat :=
  match s.refs.get? id with
  | none => 0
  | some text => (parseUnsigned (2 ^ 64 - 1) (trimText text)).getD 0

/-- A file can only be written where its directory is. -/
def writeRefs (s : BlobStore) (id : BlobId) (count : Nat) : Except BlobError BlobStore :=
  if dirOf id ∈ s.dirs then .ok { s with refs := s.refs.insert id (Nat.toDigits 10 count) }
  else .error .io

/-- Nothing, where the count would no longer be a `u64`. -/
def addRef (s : BlobStore) (id : BlobId) : Option (Except BlobError Nat × BlobStore) :=
  if s.blobs.contains id = false then some (.error (.notFound id), s)
  else if 2 ^ 64 <= s.readRefs id + 1 then none
  else
    match s.writeRefs id (s.readRefs id + 1) with
    | .error e => some (.error e, s)
    | .ok s' => some (.ok (s.readRefs id + 1), s')

def release (s : BlobStore) (id : BlobId) : Except BlobError Nat × BlobStore :=
  match s.writeRefs id (s.readRefs id - 1) with
  | .error e => (.error e, s)
  | .ok s' => (.ok (s.readRefs id - 1), s')

/-- Remove a blob, and what can be removed beside it. -/
def remove (stuck : BlobId -> Bool) (s : BlobStore) (id : BlobId) : BlobStore :=
  { s with
    blobs := s.blobs.erase id
    refs := if stuck id then s.refs else s.refs.erase id
    outboards := if stuck id then s.outboards else s.outboards.erase id }

/-- Proofs beside no blob, and old temporary files. -/
def sweepSidecars (now : Nat) (s : BlobStore) : BlobStore :=
  { s with
    outboards := s.outboards.retain (fun id _ => s.blobs.contains id)
    temps := s.temps.retain (fun _ modified => decide (now - modified <= staleTemp)) }

def walk (order : BlobId -> Nat) (s : BlobStore) : List (BlobId × File) :=
  listBy (fun entry => order entry.fst) s.blobs.entries

/-- Remove blobs from the front until the total fits. -/
def evict (stuck : BlobId -> Bool) (maxBytes : Nat) :
    List (BlobId × File) -> Nat -> BlobStore -> List BlobId × BlobStore
  | [], _, s => ([], s)
  | (id, file) :: rest, total, s =>
      if total <= maxBytes then ([], s)
      else
        let later := evict stuck maxBytes rest (total - file.len) (s.remove stuck id)
        (id :: later.fst, later.snd)

def evictUnreferencedOver (stuck : BlobId -> Bool) (order : BlobId -> Nat) (now maxBytes : Nat)
    (s : BlobStore) : List BlobId × BlobStore :=
  let cache := (s.walk order).filter (fun entry => decide (s.readRefs entry.fst = 0))
  let total := (cache.map (fun entry => entry.snd.len)).sum
  if total <= maxBytes then ([], s)
  else
    let evicted := evict stuck maxBytes (listBy (fun entry => entry.snd.modified) cache) total s
    (evicted.fst, evicted.snd.sweepSidecars now)

/-- Remove the blobs of a walk that have a zero count. -/
def collect (stuck : BlobId -> Bool) : List (BlobId × File) -> BlobStore -> List BlobId × BlobStore
  | [], s => ([], s)
  | (id, _) :: rest, s =>
      if s.readRefs id = 0 then
        let later := collect stuck rest (s.remove stuck id)
        (id :: later.fst, later.snd)
      else collect stuck rest s

def gc (stuck : BlobId -> Bool) (order : BlobId -> Nat) (now : Nat) (s : BlobStore) :
    List BlobId × BlobStore :=
  let collected := collect stuck (s.walk order) s
  (collected.fst, collected.snd.sweepSidecars now)

end BlobStore

/-!
## A store at work
-/

/-- What counts for a blob's references. -/
inductive Event where
  | stored (id : BlobId)
  | added (id : BlobId)
  | released (id : BlobId)
deriving DecidableEq

/-- A blob's references, the last event first: none when it is stored, one more when one is
added, one less when one is released. -/
def count (id : BlobId) : List Event -> Nat
  | [] => 0
  | .stored other :: rest => if other = id then 0 else count id rest
  | .added other :: rest => if other = id then count id rest + 1 else count id rest
  | .released other :: rest => if other = id then count id rest - 1 else count id rest

structure World where
  store : BlobStore
  log : List Event

inductive Action where
  | put (now : Nat) (bytes : Bytes)
  | putInterrupted (now : Nat) (bytes : Bytes)
  | putVerified (staged : Option File) (expected : BlobId)
  | writeOutboard (id : BlobId) (proofs : Bytes)
  | addRef (id : BlobId)
  | release (id : BlobId)
  | gc (stuck : BlobId -> Bool) (order : BlobId -> Nat) (now : Nat)
  | evictUnreferencedOver (stuck : BlobId -> Bool) (order : BlobId -> Nat) (now maxBytes : Nat)

namespace World

def new : World where
  store := BlobStore.empty
  log := []

/-- A blob that was not there before is stored. -/
def stored (w : World) (s : BlobStore) (id : BlobId) : World where
  store := s
  log := if s.blobs.contains id && !w.store.blobs.contains id then .stored id :: w.log else w.log

def step (hash : Bytes -> BlobId) (w : World) : Action -> Option World
  | .put now bytes =>
      let done := w.store.put hash now bytes
      some (w.stored done.snd done.fst)
  | .putInterrupted now bytes => some { w with store := w.store.putInterrupted hash now bytes }
  | .putVerified staged expected =>
      some (w.stored (w.store.putVerified hash staged expected).snd.fst expected)
  | .writeOutboard id proofs =>
      if dirOf id ∈ w.store.dirs then
        some { w with
          store := { w.store with outboards := w.store.outboards.insert id proofs } }
      else none
  | .addRef id =>
      (w.store.addRef id).map (fun done =>
        match done with
        | (.ok _, s) => { store := s, log := .added id :: w.log }
        | (.error _, s) => { w with store := s })
  | .release id =>
      match w.store.release id with
      | (.ok _, s) => some { store := s, log := .released id :: w.log }
      | (.error _, s) => some { w with store := s }
  | .gc stuck order now => some { w with store := (w.store.gc stuck order now).snd }
  | .evictUnreferencedOver stuck order now maxBytes =>
      some { w with
        store := (w.store.evictUnreferencedOver stuck order now maxBytes).snd }

end World

end Rabbithole.Blobs
