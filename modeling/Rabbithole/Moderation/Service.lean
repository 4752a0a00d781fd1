import Mathlib.Data.Finset.Basic
import Rabbithole.Foundation.Codec
import Rabbithole.Foundation.Dict
import Rabbithole.Foundation.Text

/-!
# Quarantine and denied hashes

What is held back and what may never come in again are two tables, each with a mirror in
memory.  A call checks what it was given, changes the table, then the mirror, then writes the
audit log; other calls run in between, and any statement may fail.  Reports are left out.
-/

namespace Rabbithole.Moderation

open Foundation

def maxNoteLen : Nat := 1024

def maxRefLen : Nat := 64

namespace SubjectKind

def post : UInt8 := 0

def dm : UInt8 := 1

def file : UInt8 := 2

def user : UInt8 := 3

end SubjectKind

inductive ModerationError where
  | badSubject
  | badText
  | store
deriving DecidableEq

/-- A blake3 hash. -/
abbrev Hash := { bytes : Bytes // bytes.length = 32 }

/-- A row of the one table or the other, without its key. -/
structure Row where
  reason : String
  addedBy : String
  createdAt : Int
deriving DecidableEq

structure AuditRow where
  actor : String
  action : String
  detail : String
deriving DecidableEq

inductive Call where
  | quarantineSet (kind : UInt8) (subjectRef : Bytes) (reason moderator : String)
  | quarantineClear (kind : UInt8) (subjectRef : Bytes) (moderator : String)
  | denyAdd (hash : Hash) (reason moderator : String)
  | denyRemove (hash : Hash) (moderator : String)
deriving DecidableEq

inductive Answer where
  | done
  | removed (removed : Bool)
  | failed (e : ModerationError)
deriving DecidableEq

/-- Where a call stands: its arguments checked, the table changed, the mirror changed. -/
inductive Progress where
  | checked (call : Call)
  | stored (call : Call) (removed : Bool)
  | mirrored (call : Call)
deriving DecidableEq

structure ModerationService where
  quarantineRows : Dict (UInt8 × Bytes) Row
  denyRows : Dict Hash Row
  auditRows : List AuditRow
  quarantine : Finset (UInt8 × Bytes)
  deny : Finset Hash
  calls : Dict Nat Progress
  answers : List (Nat × Answer)

def keys {key : Type} [DecidableEq key] (rows : Dict key Row) : Finset key :=
  (rows.entries.map Prod.fst).toFinset

/-- Add a row, or refresh one. -/
def upsert {key : Type} [DecidableEq key] (rows : Dict key Row) (k : key)
    (reason addedBy : String) (now : Int) : Dict key Row :=
  match rows.get? k with
  | some row => rows.insert k { row with reason := reason, addedBy := addedBy }
  | none => rows.insert k ⟨reason, addedBy, now⟩

def checkSubject (kind : UInt8) (subjectRef : Bytes) : Bool :=
  (if kind = SubjectKind.post ∨ kind = SubjectKind.file then decide (subjectRef.length = 32)
    else if kind = SubjectKind.dm ∨ kind = SubjectKind.user then decide (subjectRef.length = 8)
    else false) && decide (subjectRef.length <= maxRefLen)

def checkNote (text : String) : Except ModerationError String :=
  if maxNoteLen < (trim text).utf8ByteSize then .error .badText else .ok (trim text)

namespace Call

/-- The call as it goes to the store, if it is not refused before. -/
def check : Call -> Except ModerationError Call
  | .quarantineSet kind subjectRef reason moderator =>
      if checkSubject kind subjectRef = false then .error .badSubject
      else if kind ≠ SubjectKind.post ∧ kind ≠ SubjectKind.file then .error .badSubject
      else (checkNote reason).map (fun reason => .quarantineSet kind subjectRef reason moderator)
  | .quarantineClear kind subjectRef moderator =>
      if checkSubject kind subjectRef = false then .error .badSubject
      else .ok (.quarantineClear kind subjectRef moderator)
  | .denyAdd hash reason moderator =>
      (checkNote reason).map (fun reason => .denyAdd hash reason moderator)
  | .denyRemove hash moderator => .ok (.denyRemove hash moderator)

/-- What is written to the audit log; nothing where nothing was removed. -/
def auditRow (hex : Bytes -> String) (call : Call) (removed : Bool) : Option AuditRow :=
  match call with
  | .quarantineSet kind subjectRef _ moderator =>
      some ⟨moderator, "quarantine-set",
        "kind=" ++ toString kind.toNat ++ " ref=" ++ hex subjectRef⟩
  | .quarantineClear kind subjectRef moderator =>
      if removed then
        some ⟨moderator, "quarantine-clear",
          "kind=" ++ toString kind.toNat ++ " ref=" ++ hex subjectRef⟩
      else none
  | .denyAdd hash _ moderator => some ⟨moderator, "deny-hash-add", hex hash.val⟩
  | .denyRemove hash moderator =>
      if removed then some ⟨moderator, "deny-hash-remove", hex hash.val⟩ else none

def answer (call : Call) (removed : Bool) : Answer :=
  match call with
  | .quarantineSet _ _ _ _ => .done
  | .denyAdd _ _ _ => .done
  | .quarantineClear _ _ _ => .removed removed
  | .denyRemove _ _ => .removed removed

end Call

namespace ModerationService

/-- The tables after the statement of a call, and whether it removed a row. -/
def execute (s : ModerationService) (call : Call) (now : Int) : ModerationService × Bool :=
  match call with
  | .quarantineSet kind subjectRef reason moderator =>
      ({ s with quarantineRows := upsert s.quarantineRows (kind, subjectRef) reason moderator now },
        false)
  | .quarantineClear kind subjectRef _ =>
      ({ s with quarantineRows := s.quarantineRows.erase (kind, subjectRef) },
        s.quarantineRows.contains (kind, subjectRef))
  | .denyAdd hash reason moderator =>
      ({ s with denyRows := upsert s.denyRows hash reason moderator now }, false)
  | .denyRemove hash _ =>
      ({ s with denyRows := s.denyRows.erase hash }, s.denyRows.contains hash)

/-- The mirrors after a call brought its change to them. -/
def mirror (s : ModerationService) (call : Call) : ModerationService :=
  match call with
  | .quarantineSet kind subjectRef _ _ =>
      { s with quarantine := insert (kind, subjectRef) s.quarantine }
  | .quarantineClear kind subjectRef _ =>
      { s with quarantine := s.quarantine.erase (kind, subjectRef) }
  | .denyAdd hash _ _ => { s with deny := insert hash s.deny }
  | .denyRemove hash _ => { s with deny := s.deny.erase hash }

def load (s : ModerationService) : ModerationService :=
  { s with quarantine := keys s.quarantineRows, deny := keys s.denyRows }

def isQuarantined (s : ModerationService) (kind : UInt8) (subjectRef : Bytes) : Bool :=
  decide ((kind, subjectRef) ∈ s.quarantine)

def isDenied (s : ModerationService) (hash : Hash) : Bool :=
  decide (hash ∈ s.deny)

/-- The service after it was started on some tables. -/
def start (quarantineRows : Dict (UInt8 × Bytes) Row) (denyRows : Dict Hash Row)
    (auditRows : List AuditRow) : ModerationService :=
  load
    { quarantineRows := quarantineRows
      denyRows := denyRows
      auditRows := auditRows
      quarantine := ∅
      deny := ∅
      calls := Dict.empty
      answers := [] }

/-- A call is over. -/
def finish (s : ModerationService) (id : Nat) (answer : Answer) : ModerationService :=
  { s with
    calls := s.calls.erase id
    answers := s.answers ++ [(id, answer)] }

def put (s : ModerationService) (id : Nat) (progress : Progress) : ModerationService :=
  { s with calls := s.calls.insert id progress }

end ModerationService

/-!
## Steps of many calls
-/

/-- A call comes in, or goes on by one step; a statement of the store may fail. -/
inductive Event where
  | call (id : Nat) (call : Call)
  | store (id : Nat) (ok : Bool) (now : Int)
  | mirror (id : Nat)
  | audit (id : Nat) (ok : Bool)
deriving DecidableEq

open ModerationService in
def step (hex : Bytes -> String) (s : ModerationService) : Event -> Option ModerationService
  | .call id call =>
      if (s.calls.get? id).isSome ∨ s.answers.any (fun answer => answer.fst == id) then none
      else
        match call.check with
        | .error e => some (s.finish id (.failed e))
        | .ok call => some (s.put id (.checked call))
  | .store id ok now =>
      match s.calls.get? id with
      | some (.checked call) =>
          if ok then
            some ((s.execute call now).fst.put id (.stored call (s.execute call now).snd))
          else some (s.finish id (.failed .store))
      | _ => none
  | .mirror id =>
      match s.calls.get? id with
      | some (.stored call removed) =>
          match call.auditRow hex removed with
          | some _ => some ((s.mirror call).put id (.mirrored call))
          | none => some ((s.mirror call).finish id (call.answer removed))
      | _ => none
  | .audit id ok =>
      match s.calls.get? id with
      | some (.mirrored call) =>
          if ok then
            some { s.finish id (call.answer true) with
              auditRows := s.auditRows ++ (call.auditRow hex true).toList }
          else some (s.finish id (.failed .store))
      | _ => none

end Rabbithole.Moderation
