import Mathlib.Data.Char
import Rabbithole.Foundation.Listing
import Rabbithole.Tracker.Health

/-!
# The tracker's registry

The live servers by address and port, and what has been seen of each place.  Every call
first drops what has expired by its instant.  Heartbeats without a signature and signed
descriptors, direct or relayed, feed the same table.
-/

namespace Rabbithole.Tracker

open Foundation Federation Directory RateLimit

abbrev Slot := IpAddr × UInt16

def slotOf (addr : SocketAddr) : Slot :=
  (addr.ip, addr.port)

structure ServerEntry where
  name : List Char
  description : List Char
  addr : SocketAddr
  usersOnline : UInt16
  categories : List (List Char)
  /-- The verified descriptor that the entry came from, as it was signed. -/
  signed : Option SignedDescriptor
  /-- The peer it was learned from; nothing when the server registered itself. -/
  via : Option SocketAddr
  lastHeartbeat : Nat
deriving DecidableEq

namespace ServerEntry

def fromSigned (signed : SignedDescriptor) (via : Option SocketAddr) (now : Nat) : ServerEntry where
  name := signed.descriptor.name
  description := signed.descriptor.description
  addr := signed.descriptor.addr
  usersOnline := signed.descriptor.usersOnline
  categories := signed.descriptor.categories
  signed := some signed
  via := via
  lastHeartbeat := now

def serverKey (entry : ServerEntry) : Option PublicKey :=
  entry.signed.map (fun signed => signed.descriptor.serverKey)

def timestamp (entry : ServerEntry) : Option Int64 :=
  entry.signed.map (fun signed => signed.descriptor.timestamp)

end ServerEntry

inductive RegisterError where
  | badDescriptor (err : DescriptorError)
  | keyConflict
  | stale
deriving DecidableEq

structure IndexRow where
  entry : ServerEntry
  uptimePermille : Nat
  lastSeenSecs : Nat
deriving DecidableEq

structure State where
  entries : Dict Slot ServerEntry
  health : Dict Slot HealthLog

namespace State

def empty : State where
  entries := Dict.empty
  health := Dict.empty

/-- Whether an entry's time is not over. -/
def isLive (ttl now : Nat) (entry : ServerEntry) : Bool :=
  decide (now - entry.lastHeartbeat < ttl)

/-- The log of a place whose entry is dropped is told of it. -/
def told (s : State) (ttl now : Nat) (slot : Slot) (log : HealthLog) : HealthLog :=
  match s.entries.get? slot with
  | some entry => if isLive ttl now entry then log else log.markExpired now
  | none => log

/-- Drop the entries whose time is over, then the logs that have been silent for too long. -/
def prune (s : State) (ttl now : Nat) : State :=
  let entries := s.entries.retain (fun _ entry => isLive ttl now entry)
  { entries := entries
    health := (s.health.mapValues (s.told ttl now)).retain (fun slot log =>
      entries.contains slot || decide (now - log.lastSeen < observationWindow)) }

def observe (s : State) (slot : Slot) (now : Nat) : State :=
  { s with
    health := s.health.insert slot
      (((s.health.get? slot).getD (HealthLog.new now)).recordHeartbeat now) }

def put (s : State) (slot : Slot) (entry : ServerEntry) (now : Nat) : State :=
  { s with entries := s.entries.insert slot entry }.observe slot now

end State

/-- What a registry is made with: how long a registration lasts, and what verifies. -/
structure Registry where
  ttl : Nat
  scheme : Scheme
  format : Format

namespace Registry

variable (r : Registry)

/-- What becomes of a place by a heartbeat without a signature: a signed entry stays what
it is and is only refreshed. -/
def heartbeat (held : Option ServerEntry) (entry : ServerEntry) (now : Nat) : ServerEntry :=
  match held with
  | some existing =>
      if existing.signed.isSome then
        { existing with usersOnline := entry.usersOnline, lastHeartbeat := now }
      else { entry with lastHeartbeat := now }
  | none => { entry with lastHeartbeat := now }

def registerUnsignedAt (s : State) (entry : ServerEntry) (now : Nat) : State :=
  let slot := slotOf entry.addr
  let pruned := s.prune r.ttl now
  pruned.put slot (heartbeat (pruned.entries.get? slot) entry now) now

/-- Whether the place is free for a verified descriptor. -/
def refusal (held : Option ServerEntry) (signed : SignedDescriptor) : Option RegisterError :=
  match held with
  | none => none
  | some existing =>
      match existing.signed with
      | none => none
      | some heldBy =>
          if heldBy.descriptor.serverKey ≠ signed.descriptor.serverKey then some .keyConflict
          else if signed.descriptor.timestamp < heldBy.descriptor.timestamp then some .stale
          else none

def registerDescriptorAt (s : State) (signed : SignedDescriptor) (via : Option SocketAddr)
    (now : Nat) : State × Except RegisterError Unit :=
  match signed.verify r.scheme r.format with
  | .error err => (s, .error (.badDescriptor err))
  | .ok () =>
      let slot := slotOf signed.descriptor.addr
      let pruned := s.prune r.ttl now
      match refusal (pruned.entries.get? slot) signed with
      | some err => (pruned, .error err)
      | none => (pruned.put slot (ServerEntry.fromSigned signed via now) now, .ok ())

/-!
## Queries
-/

def snapshotRank (entry : ServerEntry) : List Char ×ₗ Nat :=
  toLex (entry.name, entry.addr.rank)

def snapshotAt (s : State) (now : Nat) : State × List ServerEntry :=
  let pruned := s.prune r.ttl now
  (pruned, listBy snapshotRank (pruned.entries.entries.map Prod.snd))

/-- Signed entries first, then by uptime, high ones first, then by name and address. -/
def indexRank (row : IndexRow) : Boolᵒᵈ ×ₗ Natᵒᵈ ×ₗ List Char ×ₗ Nat :=
  toLex (OrderDual.toDual row.entry.signed.isSome,
    toLex (OrderDual.toDual row.uptimePermille, snapshotRank row.entry))

def indexRow (s : State) (now : Nat) (slot : Slot) (entry : ServerEntry) : IndexRow :=
  match s.health.get? slot with
  | some log => ⟨entry, log.uptime24hPermille now, asSecs (now - log.lastSeen)⟩
  | none => ⟨entry, 0, asSecs (now - entry.lastHeartbeat)⟩

def indexAt (s : State) (now : Nat) : State × List IndexRow :=
  let pruned := s.prune r.ttl now
  (pruned, listBy indexRank
    (pruned.entries.entries.map (fun held => indexRow pruned now held.fst held.snd)))

def healthReportAt (s : State) (addr : SocketAddr) (now : Nat) : State × Option HealthReport :=
  let pruned := s.prune r.ttl now
  (pruned, (pruned.health.get? (slotOf addr)).map (fun log => log.report addr now))

/-!
## Runs
-/

inductive Op where
  | registerUnsigned (entry : ServerEntry)
  | registerDescriptor (signed : SignedDescriptor) (via : Option SocketAddr)
  | snapshot
  | index
  | healthReport (addr : SocketAddr)

structure Call where
  now : Nat
  op : Op

inductive Answer where
  | registered (result : Except RegisterError Unit)
  | entries (live : List ServerEntry)
  | rows (rows : List IndexRow)
  | report (report : Option HealthReport)

def step (s : State) (c : Call) : State × Answer :=
  match c.op with
  | .registerUnsigned entry => (r.registerUnsignedAt s entry c.now, .registered (.ok ()))
  | .registerDescriptor signed via =>
      ((r.registerDescriptorAt s signed via c.now).fst,
        .registered (r.registerDescriptorAt s signed via c.now).snd)
  | .snapshot => ((r.snapshotAt s c.now).fst, .entries (r.snapshotAt s c.now).snd)
  | .index => ((r.indexAt s c.now).fst, .rows (r.indexAt s c.now).snd)
  | .healthReport addr =>
      ((r.healthReportAt s addr c.now).fst, .report (r.healthReportAt s addr c.now).snd)

def run : State -> List Call -> State
  | s, [] => s
  | s, c :: rest => run (r.step s c).fst rest

def history : State -> List Call -> List (Call × Answer)
  | _, [] => []
  | s, c :: rest => (c, (r.step s c).snd) :: history (r.step s c).fst rest

theorem run_append (s : State) (front back : List Call) :
    r.run s (front ++ back) = r.run (r.run s front) back := by
  induction front generalizing s with
  | nil => rfl
  | cons c rest ih => exact ih (r.step s c).fst

def isRegistration (c : Call) : Bool :=
  match c.op with
  | .registerUnsigned _ => true
  | .registerDescriptor _ _ => true
  | .snapshot => false
  | .index => false
  | .healthReport _ => false

/-- The clock does not go back from one call to the next. -/
def InOrder (calls : List Call) : Prop :=
  calls.Pairwise (fun c c' => c.now <= c'.now)

end Registry

end Rabbithole.Tracker
