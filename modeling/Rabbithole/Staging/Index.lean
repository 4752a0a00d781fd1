import Mathlib.Data.String.Basic
import Rabbithole.Foundation.Codec
import Rabbithole.Foundation.Listing
import Rabbithole.Foundation.Run

/-!
# Checkpoints of uploads

The index of the records that are kept, and of what each lease may still write.  What the
disk does in an operation is given with the operation: any of its parts may fail, and what
is read back may be anything.
-/

namespace Rabbithole.Staging

open Foundation

def maxFile : Nat := 64 * 1024 * 1024

def maxTotal : Nat := 256 * 1024 * 1024

def maxRecords : Nat := 128

def ttl : Nat := 30 * 60

abbrev Digest := BitVec 256

inductive Protocol where
  | zmodem
  | hotline
deriving DecidableEq

structure Target where
  protocol : Protocol
  account : Int
  area : Int
  parent : Option Int
  name : List Char
deriving DecidableEq

structure Offer where
  length : Option Nat
  mtime : Option Nat
deriving DecidableEq

structure Record where
  version : Nat
  target : Target
  offer : Offer
  len : Nat
  digest : Digest
  expires : Nat
deriving DecidableEq

structure Index where
  records : Dict String Record
  claimed : Dict String Nat
  failed : Bool

/-- A live lease; its hasher has been fed some bytes. -/
structure Lease where
  id : String
  cap : Nat
  hashed : Bytes
deriving DecidableEq

inductive ClaimMode where
  | exact (offer : Offer)
  | hotline (resume : Bool)

/-- What the disk says: an error of its own, a missing file, or a file that is not as it
was written. -/
inductive DiskError where
  | io
  | notFound
  | damaged
deriving DecidableEq

inductive StagingError where
  | disk (e : DiskError)
  | failed
  | invalidTarget
  | invalidProtocol
  | active
  | fileLimit
  | reservationLimit
  | recordLimit
  | discarded
  | overflow
  | offsetOrLength
  | byteLimit
deriving DecidableEq

namespace StagingError

def isIo (e : StagingError) : Bool :=
  decide (e = disk .io ∨ e = disk .notFound)

/-- An error of the disk that is not a missing file. -/
def isStorage (e : StagingError) : Bool :=
  decide (e = disk .io)

end StagingError

/-- The hashes that are used: of a target, in hexadecimal, and of contents. -/
structure Hashes where
  target : Target -> String
  content : Bytes -> Digest

/-- What the disk does during an operation. -/
structure Disk where
  remove : String -> Option DiskError
  saved : Except DiskError Bytes
  data : Option DiskError
  record : Option DiskError

def saturatingAdd (a b : Nat) : Nat :=
  min (a + b) (2 ^ 64 - 1)

def isControl (c : Char) : Bool :=
  decide (c.toNat < 32 ∨ (127 <= c.toNat ∧ c.toNat < 160))

def targetId (h : Hashes) (target : Target) : Except StagingError String :=
  if target.account <= 0 ∨ target.area <= 0 ∨ target.parent.any (fun id => id <= 0) ∨
      target.name = [] ∨ 128 < (String.ofList target.name).utf8ByteSize ∨
      '/' ∈ target.name ∨ '\\' ∈ target.name ∨
      target.name = ['.'] ∨ target.name = ['.', '.'] ∨ target.name.any isControl then
    .error .invalidTarget
  else .ok (h.target target)

namespace Index

def empty : Index where
  records := Dict.empty
  claimed := Dict.empty
  failed := false

/-- What counts for a record: the cap of its lease, or its length. -/
def held (index : Index) (id : String) (record : Record) : Nat :=
  (index.claimed.get? id).getD record.len

def reserved (index : Index) (id : String) : Nat :=
  ((index.records.erase id).entries.map (fun entry => index.held entry.fst entry.snd)).sum

def total (index : Index) : Nat :=
  index.records.sum Record.len

def latchError {result : Type} (index : Index) (outcome : Except StagingError result) : Index :=
  match outcome with
  | .ok _ => index
  | .error e => if e.isIo then { index with failed := true } else index

def isExpired (index : Index) (now : Nat) (id : String) (record : Record) : Bool :=
  !index.claimed.contains id &&
    decide (record.expires <= now ∨ saturatingAdd now ttl < record.expires)

/-- Remove records one after another, until the disk fails. -/
def removeAll (disk : Disk) : List String -> Index -> Except StagingError Unit × Index
  | [], index => (.ok (), index)
  | id :: rest, index =>
      match disk.remove id with
      | some e => (.error (.disk e), index)
      | none => removeAll disk rest { index with records := index.records.erase id }

def expire (disk : Disk) (now : Nat) (index : Index) : Except StagingError Unit × Index :=
  removeAll disk
    ((listBy Prod.fst (index.records.entries.filter (fun entry =>
      index.isExpired now entry.fst entry.snd))).map Prod.fst) index

/-- The offer that is claimed, and whether to go on with what is saved. -/
def offerOf (index : Index) (id : String) : ClaimMode -> Offer × Bool
  | .exact offer => (offer, true)
  | .hotline resume =>
      ((((index.records.get? id).filter (fun _ => resume)).map Record.offer).getD
        { length := none, mtime := none }, resume)

/-- What is saved, if it may be gone on with. -/
def load (disk : Disk) (index : Index) (id : String) (target : Target) (offer : Offer)
    (resume : Bool) (cap : Nat) : Except StagingError (Option Bytes) :=
  match (index.records.get? id).filter (fun r =>
      resume && decide (r.target = target ∧ r.offer = offer ∧ r.len <= cap)) with
  | none => .ok none
  | some _ =>
      match disk.saved with
      | .ok data => .ok (some data)
      | .error e =>
          if (StagingError.disk e).isStorage then .error (.disk e) else .ok none

/-- Start a record anew. -/
def reset (h : Hashes) (disk : Disk) (now : Nat) (id : String) (target : Target) (offer : Offer)
    (index : Index) : Except StagingError Unit × Index :=
  match if index.records.contains id then disk.remove id else none with
  | some e => (.error (.disk e), index)
  | none =>
      let index := { index with records := index.records.erase id }
      if maxRecords <= index.records.size then (.error .recordLimit, index)
      else
        match disk.data.or disk.record with
        | some e => (.error (.disk e), index)
        | none =>
            (.ok (), { index with
              records := index.records.insert id
                { version := 1
                  target := target
                  offer := offer
                  len := 0
                  digest := h.content []
                  expires := saturatingAdd now ttl } })

def claim (h : Hashes) (disk : Disk) (now : Nat) (target : Target) (mode : ClaimMode) (cap : Nat)
    (index : Index) : Except StagingError (String × Bytes) × Index :=
  if index.failed then (.error .failed, index)
  else
    match targetId h target with
    | .error e => (.error e, index)
    | .ok id =>
        match index.expire disk now with
        | (.error e, index) => (.error e, index)
        | (.ok _, index) =>
            if index.claimed.contains id then (.error .active, index)
            else
              let offer := (index.offerOf id mode).fst
              let resume := (index.offerOf id mode).snd
              if maxFile < cap ∨ offer.length.any (fun length => decide (cap < length)) = true then
                (.error .fileLimit, index)
              else if maxTotal < index.reserved id + cap then (.error .reservationLimit, index)
              else
                match index.load disk id target offer resume cap with
                | .error e => (.error e, index)
                | .ok (some data) =>
                    (.ok (id, data), { index with claimed := index.claimed.insert id cap })
                | .ok none =>
                    match index.reset h disk now id target offer with
                    | (.error e, index) => (.error e, index)
                    | (.ok _, index) =>
                        (.ok (id, []), { index with claimed := index.claimed.insert id cap })

def bindHotlineLength (disk : Disk) (lease : Lease) (length : Nat) (index : Index) :
    Except StagingError Bool × Index :=
  if index.failed then (.error .failed, index)
  else
    match index.records.get? lease.id with
    | none => (.error .discarded, index)
    | some old =>
        if old.target.protocol ≠ .hotline then (.error .invalidProtocol, index)
        else if lease.cap < length ∨ length < old.len then (.ok false, index)
        else
          match old.offer.length with
          | some expected => (.ok (expected = length), index)
          | none =>
              match disk.record with
              | some e => (.error (.disk e), index)
              | none =>
                  (.ok true, { index with
                    records := index.records.insert lease.id
                      { old with offer := { old.offer with length := some length } } })

def append (h : Hashes) (disk : Disk) (now : Nat) (lease : Lease) (offset : Nat) (bytes : Bytes)
    (index : Index) : Except StagingError Unit × Index × Lease :=
  if index.failed then (.error .failed, index, lease)
  else
    match index.records.get? lease.id with
    | none => (.error .discarded, index, lease)
    | some old =>
        let len := offset + bytes.length
        if 2 ^ 64 <= len then (.error .overflow, index, lease)
        else if old.len ≠ offset ∨ lease.cap < len ∨
            old.offer.length.any (fun expected => decide (expected < len)) = true then
          (.error .offsetOrLength, index, lease)
        else if bytes = [] then (.ok (), index, lease)
        else if maxTotal < index.total + bytes.length then (.error .byteLimit, index, lease)
        else
          match disk.data.or disk.record with
          | some e => (.error (.disk e), index, lease)
          | none =>
              (.ok (),
                { index with
                  records := index.records.insert lease.id
                    { old with
                      len := len
                      digest := h.content (lease.hashed ++ bytes)
                      expires := saturatingAdd now ttl } },
                { lease with hashed := lease.hashed ++ bytes })

def discard (disk : Disk) (lease : Lease) (index : Index) : Except StagingError Unit × Index :=
  match disk.remove lease.id with
  | some e => (.error (.disk e), index)
  | none => (.ok (), { index with records := index.records.erase lease.id })

def dropClaim (lease : Lease) (index : Index) : Index :=
  { index with claimed := index.claimed.erase lease.id }

/-!
## After a restart
-/

/-- What is found under a valid name: the record, or why it cannot be read, and the same
for the bytes it is about. -/
structure Found where
  id : String
  record : Except DiskError Record
  saved : Except DiskError Bytes
  removed : Option DiskError

/-- Whether a record may be kept. -/
def isKept (h : Hashes) (now : Nat) (id : String) (record : Record) : Bool :=
  decide (record.version = 1 ∧ now < record.expires ∧ record.expires <= saturatingAdd now ttl ∧
    record.len <= maxFile ∧
    record.offer.length.all (fun length => decide (record.len <= length ∧ length <= maxFile)) ∧
    (targetId h record.target).toOption = some id)

/-- Take up what is found; what cannot be gone on with is removed. -/
def recover (h : Hashes) (now : Nat) : List Found -> Index -> Except StagingError Index
  | [], index => .ok index
  | found :: rest, index =>
      let removed : Except StagingError Index :=
        match found.removed with
        | some e => .error (.disk e)
        | none => recover h now rest index
      match found.record with
      | .error e => if (StagingError.disk e).isStorage then .error (.disk e) else removed
      | .ok record =>
          if isKept h now found.id record = true ∧ index.records.size < maxRecords ∧
              index.total + record.len <= maxTotal then
            match found.saved with
            | .ok _ =>
                recover h now rest { index with records := index.records.insert found.id record }
            | .error e => if (StagingError.disk e).isStorage then .error (.disk e) else removed
          else removed

end Index

/-!
## Uploads at work
-/

/-- The index, the leases that are live, each under a number of its own, and how many there
have been. -/
structure World where
  index : Index
  leases : Dict Nat Lease
  next : Nat

inductive Action where
  | claim (disk : Disk) (now : Nat) (target : Target) (mode : ClaimMode) (cap : Nat)
  | bind (disk : Disk) (lease length : Nat)
  | append (disk : Disk) (now lease offset : Nat) (bytes : Bytes)
  | discard (disk : Disk) (lease : Nat)
  | drop (lease : Nat)
  | restart (now : Nat) (found : List Index.Found)

namespace World

def new : World where
  index := Index.empty
  leases := Dict.empty
  next := 0

/-- An operation on a lease needs it live; a restart leaves no lease. -/
def step (h : Hashes) (w : World) : Action -> Option World
  | .claim disk now target mode cap =>
      match w.index.claim h disk now target mode cap with
      | (.error e, index) =>
          some { w with index := index.latchError (Except.error e : Except StagingError Unit) }
      | (.ok (id, data), index) =>
          some
            { index := index
              leases := w.leases.insert w.next { id := id, cap := cap, hashed := data }
              next := w.next + 1 }
  | .bind disk lease length =>
      (w.leases.get? lease).map (fun l =>
        let done := w.index.bindHotlineLength disk l length
        { w with index := done.snd.latchError done.fst })
  | .append disk now lease offset bytes =>
      (w.leases.get? lease).map (fun l =>
        let done := w.index.append h disk now l offset bytes
        { w with
          index := done.snd.fst.latchError done.fst
          leases := w.leases.insert lease done.snd.snd })
  | .discard disk lease =>
      (w.leases.get? lease).map (fun l =>
        let done := w.index.discard disk l
        { w with index := done.snd.latchError done.fst })
  | .drop lease =>
      (w.leases.get? lease).map (fun l =>
        { w with index := w.index.dropClaim l, leases := w.leases.erase lease })
  | .restart now found =>
      match Index.recover h now found Index.empty with
      | .error _ => none
      | .ok index => some { w with index := index, leases := Dict.empty }

end World

end Rabbithole.Staging
