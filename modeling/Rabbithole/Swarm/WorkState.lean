import Rabbithole.Swarm.Tracker

/-!
# Shared scheduler state

The units still to fetch, in flight and landed, what each source is fetching right now, and
what a resumable fetch leaves on disk and offers on.  Every function here is one section
under the scheduler's lock.
-/

namespace Rabbithole.Swarm

/-!
## What survives a run

The destination file is kept as one entry for each unit offset: who the bytes
now on disk were last landed from.  The resume record is the map of what is real
among them.
-/

/-- Whether a source allows what it sends to be passed on (`shareable`). -/
inductive Provenance where
  | given
  | lent
deriving DecidableEq

/-- The on-disk resume record, `<dest>.rhstate`. -/
structure RhState where
  root : Root
  size : Nat
  done : Finset Nat
  borrowed : Finset Nat

structure Disk where
  record : Option RhState
  dest : Nat -> Option Provenance

/-- `load_rhstate`: only a record of this root and size, only real unit offsets. -/
def loadRhstate (disk : Disk) (root : Root) (size : Nat) : Option RhState :=
  match disk.record with
  | none => none
  | some state =>
      if state.root ≠ root ∨ state.size ≠ size then none
      else
        some { state with
          done := state.done.filter (fun off => off < size ∧ off % unitSize = 0) }

/-- The seed of one root in a seed store, its units counted in `haveUnit`. -/
inductive Seed where
  | whole
  | part (held : List Byte)
deriving DecidableEq

namespace Seed

/-- `add_partial`, with the units held so far: nothing when the whole file is seeded. -/
def addPartial (seeds : Option Seed) (held : List Nat) : Option Seed × Bool :=
  match seeds with
  | some whole => (some whole, false)
  | _ => (some (part (held.foldl setBit [])), true)

/-- `Sharing::mark`, on the bits the store and the fetch share. -/
def mark (seeds : Option Seed) (index : Nat) : Option Seed :=
  match seeds with
  | some (part held) => some (part (setBit held index))
  | other => other

/-- `remove_partial`: a whole seed of the same root is left as it is. -/
def removePartial (seeds : Option Seed) : Option Seed :=
  match seeds with
  | some (part _) => none
  | other => other

/-- `insert_whole`. -/
def insertWhole (_ : Option Seed) : Option Seed :=
  some whole

end Seed

/-!
## The work state
-/

structure WorkState where
  pending : List (Nat × Nat)
  inFlight : Finset Nat
  /-- Which source is fetching which unit right now, as (offset, source). -/
  working : Finset (Nat × Nat)
  done : Finset Nat
  persistTo : Option (Root × Nat)
  unpersisted : Nat
  stopped : Bool
  served : List Nat
  /-- Whether the fetch keeps a proofs file. -/
  proofs : Bool
  /-- Whether the fetch shares what lands through a partial seed. -/
  sharing : Bool
  /-- A unit could not be written here: the fetch fails with this. -/
  local_ : Option PeerError
  /-- Units a source lent rather than gave: never offered on. -/
  borrowed : Finset Nat

/-- The resume record is rewritten after this many units. -/
def persistEveryUnits : Nat := 32

/-- Length of the unit at an offset: whole, but for the last. -/
def want (size off : Nat) : Nat :=
  min (size - off) unitSize

namespace WorkState

def drained (s : WorkState) : Bool :=
  s.pending.isEmpty && decide (s.inFlight = ∅)

/-- The unit is done: out of both queues, whoever held it. -/
def settle (s : WorkState) (off : Nat) : WorkState :=
  { s with
    inFlight := s.inFlight.erase off
    pending := s.pending.filter (fun unit => decide (unit.1 ≠ off)) }

/-- Write the resume record, when there is one to write and the disk takes it. -/
def writeRecord (s : WorkState) (disk : Disk) (written : Bool) : Disk :=
  match s.persistTo with
  | none => disk
  | some (root, size) =>
      if written then
        { disk with
          record := some
            { root := root, size := size, done := s.done, borrowed := s.borrowed } }
      else
        disk

def persist (s : WorkState) : WorkState :=
  { s with unpersisted := 0 }

/-- A unit just landed: the record is due after enough units, or enough time. -/
def recordDue (s : WorkState) (elapsed : Bool) : Bool :=
  decide (persistEveryUnits <= s.unpersisted + 1) || elapsed

/-- A worker's next move. -/
inductive Next where
  | unit (off len : Nat) (endgame : Bool)
  | wait
  | sibling
  | done
deriving DecidableEq

/--
The scan of `next_unit` over the first `i` pending units, from the back: units
found done are dropped, and the first one the source holds is taken.
-/
def scanPending (holds : Holds) (index : Nat) : Nat -> WorkState -> WorkState × Option (Nat × Nat)
  | 0, s => (s, none)
  | i + 1, s =>
      match s.pending[i]? with
      | none => (s, none)
      | some (off, len) =>
          if off ∈ s.done then
            scanPending holds index i { s with pending := s.pending.eraseIdx i }
          else if holds.covers off len = true ∧ (off, index) ∉ s.working then
            ({ s with
                pending := s.pending.eraseIdx i
                inFlight := insert off s.inFlight
                working := insert (off, index) s.working },
              some (off, len))
          else
            scanPending holds index i s

/--
The scan of `next_unit` over the units in flight, in the order the set yields
them: whether one is with a sibling lane, and the first to duplicate.
-/
def findStraggler (s : WorkState) (holds : Holds) (size index : Nat) :
    List Nat -> Bool -> Bool × Option Nat
  | [], sibling => (sibling, none)
  | off :: rest, sibling =>
      if off ∈ s.done ∨ holds.covers off (want size off) = false then
        findStraggler s holds size index rest sibling
      else if (off, index) ∈ s.working then
        findStraggler s holds size index rest true
      else
        (sibling, some off)

/-- `next_unit`, given the order in which the in-flight set is iterated. -/
def nextUnit (s : WorkState) (holds : Holds) (size index : Nat)
    (order : List Nat) : WorkState × Next :=
  match scanPending holds index s.pending.length s with
  | (s, some (off, len)) => (s, .unit off len false)
  | (s, none) =>
      match findStraggler s holds size index order false with
      | (_, some off) =>
          ({ s with working := insert (off, index) s.working },
            .unit off unitSize true)
      | (sibling, none) =>
          if s.drained then (s, .done)
          else if sibling = true ∨
              s.pending.any (fun unit => decide ((unit.1, index) ∈ s.working)) = true then
            (s, .sibling)
          else
            (s, .wait)

/-- Hand a unit back for another source, unless it is done or was only a copy. -/
def giveBack (s : WorkState) (off len index : Nat) (endgame : Bool) : WorkState :=
  let s := { s with working := s.working.erase (off, index) }
  if off ∈ s.done then s.settle off
  else if endgame then s
  else
    { s with
      inFlight := s.inFlight.erase off
      pending := s.pending ++ [(off, len)] }

/-- `give_back` tells the fetch it is complete only by settling a done unit. -/
def giveBackTells (s : WorkState) (off : Nat) : Bool :=
  decide (off ∈ s.done) && (s.settle off).drained

end WorkState

end Rabbithole.Swarm
