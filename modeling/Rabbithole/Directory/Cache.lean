import Rabbithole.Directory.Verification

/-!
# Saved listings

What a client keeps of a listing: the rows as they were shown, and apart from them the
newest statements that have verified.  Both are bounded; nothing that is stored counts as
verified until it is verified again.
-/

namespace Rabbithole.Directory

open Foundation

def maxCacheBytes : Nat := 512 * 1024

def maxCacheRows : Nat := 128

structure CachedListing where
  version : Nat
  sourceKey : List Char
  sourceLabel : List Char
  fetchedAtMs : Int64
  servers : List DirectoryServer
  /-- Statements that stay when the rows they came with are gone. -/
  history : List DirectoryServer
deriving DecidableEq

/-- The text form of a listing, which reads back what was written, and its length. -/
structure ListingText where
  text : Type
  size : text -> Nat
  write : CachedListing -> text
  read : text -> Option CachedListing
  read_write : forall saved, read (write saved) = some saved

/-- Whether a row is small enough to be stored. -/
def bounded (row : DirectoryServer) : Bool :=
  textLen row.name <= 1024
    && textLen row.endpoint <= 2048
    && textLen row.description <= 4096
    && row.listeners.length <= 32
    && row.listeners.all (fun s => textLen s <= 64)
    && row.proof.all DirectoryProof.withinLimits

/-- What a row's statement claims, when it verifies, be it fresh or stale. -/
def claimAt (v : Verifier) (row : DirectoryServer) (nowMs : Int64) : Option VerifiedDescriptor :=
  match v.verify row nowMs with
  | .verified claim => some claim
  | .stale claim => some claim
  | _ => none

/-- The row with what its signature does not cover taken away. -/
def heldRow (row : DirectoryServer) : DirectoryServer :=
  { row with
    description := []
    listeners := []
    usersOnline := none
    uptimePct := none
    reachable := false }

def storedClaim (v : Verifier) (row : DirectoryServer) : Option VerifiedDescriptor :=
  (v.verifiedClaim row).map Prod.fst

/-- Whether a stored statement is of the same endpoint and key. -/
def sameSubject (v : Verifier) (row : DirectoryServer) (claim : VerifiedDescriptor)
    (held : DirectoryServer) : Bool :=
  held.endpoint = row.endpoint &&
    ((storedClaim v held).any (fun older => decide (older.publicKey = claim.publicKey)))

/-- At the limit the oldest statement goes. -/
def capped (history : List DirectoryServer) : List DirectoryServer :=
  if maxCacheRows < history.length then history.tail else history

/-- The statement takes the place of an older one of its endpoint and key. -/
def placed (v : Verifier) (history : List DirectoryServer) (row : DirectoryServer)
    (claim : VerifiedDescriptor) : List DirectoryServer :=
  match history.find? (sameSubject v row claim) with
  | none => history ++ [heldRow row]
  | some held =>
      if (storedClaim v held).any (fun old => decide (claim.issuedAtMs < old.issuedAtMs)) then
        history
      else history.eraseP (sameSubject v row claim) ++ [heldRow row]

/-- The history with a row's statement, if there is one that may be stored. -/
def remembered (v : Verifier) (nowMs : Int64) (history : List DirectoryServer)
    (row : DirectoryServer) : List DirectoryServer :=
  if bounded row then
    match claimAt v row nowMs with
    | none => history
    | some claim => placed v history row claim
  else history

def rememberProof (v : Verifier) (nowMs : Int64) (history : List DirectoryServer)
    (row : DirectoryServer) : List DirectoryServer :=
  capped (remembered v nowMs history row)

def laterMax (best entry : DirectoryServer × Int64) : DirectoryServer × Int64 :=
  if best.snd <= entry.snd then entry else best

/-- Of several, the last with the greatest key. -/
def maxByKey (found : List (DirectoryServer × Int64)) : Option DirectoryServer :=
  match found with
  | [] => none
  | entry :: rest => some (rest.foldl laterMax entry).fst

/-- The stored statements of the row's endpoint and key that are newer than its own. -/
def newer (v : Verifier) (previous : List DirectoryServer) (row : DirectoryServer)
    (next : VerifiedDescriptor) (nowMs : Int64) : List (DirectoryServer × Int64) :=
  previous.filterMap (fun held =>
    if held.endpoint = row.endpoint then
      match claimAt v held nowMs with
      | none => none
      | some claim =>
          if claim.publicKey = next.publicKey ∧ next.issuedAtMs < claim.issuedAtMs then
            some (held, claim.issuedAtMs)
          else none
    else none)

/-- A row whose statement verifies gives way to a newer one of its endpoint and key. -/
def retainNewer (v : Verifier) (previous : List DirectoryServer) (nowMs : Int64)
    (row : DirectoryServer) : DirectoryServer :=
  match claimAt v row nowMs with
  | none => row
  | some next =>
      match maxByKey (newer v previous row next nowMs) with
      | none => row
      | some held => { row with name := held.name, proof := held.proof }

/-- Drop history from the front, then rows from the end, until the text is short enough. -/
def shrink (t : ListingText) : Nat -> CachedListing -> Option CachedListing
  | fuel, saved =>
      if t.size (t.write saved) <= maxCacheBytes then some saved
      else
        match fuel with
        | 0 => none
        | fuel + 1 =>
            if saved.history ≠ [] then shrink t fuel { saved with history := saved.history.tail }
            else if saved.servers = [] then none
            else shrink t fuel { saved with servers := saved.servers.dropLast }

def accepts (sourceKey sourceLabel : List Char) (fetchedAtMs : Int64) : Bool :=
  !sourceKey.isEmpty && textLen sourceKey <= 256 && textLen sourceLabel <= 256
    && decide (0 <= fetchedAtMs)

/-- One refresh of a listing. -/
structure Refresh where
  sourceLabel : List Char
  fetchedAtMs : Int64
  rows : List DirectoryServer

/-- The rows that the last snapshot brings along, if it is of the same source. -/
def storedRows (sourceKey : List Char) (previous : Option CachedListing) : List DirectoryServer :=
  match previous.filter (fun saved => decide (saved.sourceKey = sourceKey)) with
  | none => []
  | some saved => saved.history ++ saved.servers

def recalled (v : Verifier) (sourceKey : List Char) (previous : Option CachedListing)
    (nowMs : Int64) : List DirectoryServer :=
  (storedRows sourceKey previous).foldl (rememberProof v nowMs) []

/-- The rows as they are shown. -/
def shown (v : Verifier) (sourceKey : List Char) (previous : Option CachedListing)
    (r : Refresh) : List DirectoryServer :=
  r.rows.map (retainNewer v (recalled v sourceKey previous r.fetchedAtMs) r.fetchedAtMs)

/-- What there is to save. -/
def snapshot (v : Verifier) (sourceKey : List Char) (previous : Option CachedListing)
    (r : Refresh) : CachedListing where
  version := 1
  sourceKey := sourceKey
  sourceLabel := r.sourceLabel
  fetchedAtMs := r.fetchedAtMs
  servers := ((shown v sourceKey previous r).filter bounded).take maxCacheRows
  history := (shown v sourceKey previous r).foldl (rememberProof v r.fetchedAtMs)
    (recalled v sourceKey previous r.fetchedAtMs)

/-- The text to save, if the update is taken, and the rows as the caller sees them then. -/
def update (t : ListingText) (v : Verifier) (sourceKey : List Char)
    (previous : Option CachedListing) (r : Refresh) : Option t.text × List DirectoryServer :=
  if accepts sourceKey r.sourceLabel r.fetchedAtMs then
    let saved := snapshot v sourceKey previous r
    ((shrink t (saved.history.length + saved.servers.length) saved).map t.write,
      shown v sourceKey previous r)
  else (none, r.rows)

def decode (t : ListingText) (sourceKey : List Char) (text : t.text) : Option CachedListing :=
  if maxCacheBytes < t.size text then none
  else
    match t.read text with
    | none => none
    | some saved =>
        if saved.version ≠ 1 ∨ saved.sourceKey ≠ sourceKey ∨ 256 < textLen saved.sourceKey ∨
            256 < textLen saved.sourceLabel ∨ saved.sourceKey.isEmpty ∨ saved.fetchedAtMs < 0 ∨
            maxCacheRows < saved.servers.length ∨ maxCacheRows < saved.history.length ∨
            saved.history.all bounded = false ∨ saved.servers.all bounded = false then none
        else some saved

/-!
## Runs
-/

/-- The snapshot that the next update is fed: the last one that was saved. -/
def nextSaved (t : ListingText) (v : Verifier) (sourceKey : List Char)
    (previous : Option CachedListing) (r : Refresh) : Option CachedListing :=
  match (update t v sourceKey previous r).fst with
  | none => previous
  | some text => decode t sourceKey text

def savedAfter (t : ListingText) (v : Verifier) (sourceKey : List Char) :
    Option CachedListing -> List Refresh -> Option CachedListing
  | previous, [] => previous
  | previous, r :: rest => savedAfter t v sourceKey (nextSaved t v sourceKey previous r) rest

end Rabbithole.Directory
