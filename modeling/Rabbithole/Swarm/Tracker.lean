import Mathlib.Data.Finset.Image
import Rabbithole.Swarm.HaveMap

/-!
# Fetch-local availability

One entry stands for one source and all its lanes.  Probes ask a source what it holds while
requests are in flight, so a reply counts for the generation it was asked in: a refusal moves
the generation and discards any older map.

Every operation below is one section under the tracker's lock.
-/

namespace Rabbithole.Swarm

/-- The blake3 root a file is known by. -/
abbrev Root := BitVec 256

/-- A bounded, non-peer-controlled description of rejected source data. -/
inductive SourceRejection where
  | invalidResponse
  | invalidProof
  | invalidRange
  | unexpectedLength
deriving DecidableEq

inductive PeerError where
  | net (why : String)
  | io (why : String)
  | refused (status : Nat)
  | verify (why : String)
  | sourceRejected (reason : SourceRejection)
  | processing (why : String)
  | rootMismatch
  | badRequest
deriving DecidableEq

def statusDenied : Nat := 1
def statusNotFound : Nat := 2

/-- `u64::saturating_add`. -/
def satAdd (a b : Nat) : Nat :=
  min (a + b) (2 ^ 64 - 1)

inductive AvailabilityPhase where
  | waiting
  | fetching
  | verifying
  | complete
  | failed
  | cancelled
deriving DecidableEq

def AvailabilityPhase.terminal : AvailabilityPhase -> Bool
  | complete => true
  | failed => true
  | cancelled => true
  | _ => false

structure SourceDiagnostic where
  sourceIndex : Nat
  firstOffset : Nat
  reason : SourceRejection
  occurrences : Nat
deriving DecidableEq

structure SourceDiagnostics where
  rejections : List SourceDiagnostic
  omitted : Nat
deriving DecidableEq

/-- At most this many source/reason pairs are retained for one invocation. -/
def sourceDiagnosticsMax : Nat := 32

structure Source where
  holds : Option Holds
  lanes : Nat
  initialized : Bool
  retired : Bool
  stale : Bool
  /-- A negative range reply invalidates any older in-flight map reply. -/
  generation : Nat
deriving DecidableEq

namespace Source

def live (source : Source) : Bool :=
  decide (0 < source.lanes) && !source.retired

def retire (source : Source) : Source :=
  { source with retired := true, generation := satAdd source.generation 1 }

/-- What the lanes of this source may schedule from. -/
def visible (source : Source) : Option Holds :=
  if source.live then source.holds else none

/-- The part of `leave_lane` under the lock. -/
def leaveLane (source : Source) : Source :=
  let left := { source with lanes := source.lanes - 1 }
  if left.lanes = 0 then left.retire else left

def lacks (source : Source) (off len size : Nat) : Source :=
  { source with
    holds := source.holds.map (fun holds => holds.lacks off len size)
    generation := satAdd source.generation 1 }

def truncate (map : HaveMap) (size : Nat) : HaveMap :=
  let units := (size + map.unit - 1) / map.unit
  { map with bits := map.bits.take (min ((units + 7) / 8) (2 ^ 20)) }

/-- Take in the answer of a probe, once it is known to be current. -/
def answered (source : Source) (size : Nat) : Except PeerError (Option HaveMap) -> Source
  | .ok (some map) =>
      if 0 < map.unit ∧ map.unit % peerBlockBytes = 0 then
        { source with
          holds := some (.map (truncate map size))
          stale := false
          initialized := true }
      else
        { source with
          stale := true
          holds := some (source.holds.getD .all)
          initialized := true }
  | .ok none =>
      match source.holds with
      | none => { source with holds := some .all, initialized := true }
      | some (.map _) => { source with stale := true, initialized := true }
      | some .all => { source with initialized := true }
  | .error (.refused status) =>
      if status = statusDenied ∨ status = statusNotFound then
        { source with retired := true, initialized := true }
      else
        { source with
          stale := true
          holds := some (source.holds.getD .all)
          initialized := true }
  | .error _ =>
      { source with
        stale := true
        holds := some (source.holds.getD .all)
        initialized := true }

/-- `queried`: a reply from an older generation, or to a source let go, is dropped. -/
def queried (source : Source) (size generation : Nat)
    (result : Except PeerError (Option HaveMap)) : Source :=
  if source.live = true ∧ source.generation = generation then
    source.answered size result
  else
    source

end Source

structure Tracker where
  root : Option Root
  size : Nat
  revision : Nat
  phase : AvailabilityPhase
  sources : List Source
  resumed : Finset Nat
  verified : Finset Nat
  diagnostics : SourceDiagnostics

namespace Tracker

def new : Tracker where
  root := none
  size := 0
  revision := 0
  phase := .waiting
  sources := []
  resumed := ∅
  verified := ∅
  diagnostics := { rejections := [], omitted := 0 }

def publish (t : Tracker) : Tracker :=
  { t with revision := satAdd t.revision 1 }

def begin (t : Tracker) (root : Root) (size : Nat) : Tracker :=
  publish { t with root := some root, size := size, phase := .fetching }

def initializeSources (t : Tracker) (lanes : List Nat) (resumed : Finset Nat) : Tracker :=
  publish
    { t with
      sources := lanes.map (fun lanes =>
        { holds := none
          lanes := lanes
          initialized := false
          retired := false
          stale := false
          generation := 0 })
      resumed := resumed.image (fun off => off / unitSize) }

def verifying (t : Tracker) : Tracker :=
  publish { t with phase := .verifying }

def stopSources (t : Tracker) : Tracker :=
  publish { t with sources := t.sources.map Source.retire }

def finish (t : Tracker) (phase : AvailabilityPhase) : Tracker :=
  if t.phase.terminal then t
  else publish { t with phase := phase, sources := t.sources.map Source.retire }

def invalidateLocal (t : Tracker) : Tracker :=
  publish { t with resumed := ∅, verified := ∅ }

def landed (t : Tracker) (off : Nat) : Tracker :=
  publish { t with verified := insert (off / unitSize) t.verified }

/-- One more occurrence of a source/reason pair, kept or counted as omitted. -/
def SourceDiagnostics.add (d : SourceDiagnostics) (index offset : Nat)
    (reason : SourceRejection) : SourceDiagnostics :=
  let same := fun (found : SourceDiagnostic) =>
    found.sourceIndex = index ∧ found.reason = reason
  match d.rejections.findIdx? (fun found => decide (same found)) with
  | some at_ =>
      { d with
        rejections := d.rejections.modify at_ (fun found =>
          { found with occurrences := satAdd found.occurrences 1 }) }
  | none =>
      if d.rejections.length < sourceDiagnosticsMax then
        { d with
          rejections := d.rejections ++
            [{ sourceIndex := index, firstOffset := offset, reason := reason,
               occurrences := 1 }] }
      else
        { d with omitted := satAdd d.omitted 1 }

def rejected (t : Tracker) (index offset : Nat) (reason : SourceRejection) : Tracker :=
  if t.phase.terminal = true ∨ t.sources.length <= index then t
  else
    publish
      { t with
        diagnostics := SourceDiagnostics.add t.diagnostics index offset reason }

def leaveLane (t : Tracker) (index : Nat) : Tracker :=
  let next := { t with sources := t.sources.modify index Source.leaveLane }
  match next.sources[index]? with
  | some source => if source.lanes = 0 then publish next else next
  | none => next

def queryGeneration (t : Tracker) (index : Nat) : Option Nat :=
  match t.sources[index]? with
  | none => none
  | some source => if source.live then some source.generation else none

def queried (t : Tracker) (index generation : Nat)
    (result : Except PeerError (Option HaveMap)) : Tracker :=
  match t.sources[index]? with
  | none => t
  | some source =>
      if source.live = true ∧ source.generation = generation then
        publish
          { t with
            sources := t.sources.set index (source.queried t.size generation result) }
      else
        t

def lacks (t : Tracker) (index off len : Nat) : Tracker :=
  publish
    { t with
      sources := t.sources.modify index (fun source => source.lacks off len t.size) }

/-- One poll of `ready`: whether the source may be used, once that is known. -/
def ready (t : Tracker) (index : Nat) : Option Bool :=
  match t.sources[index]? with
  | none => none
  | some source =>
      if source.live = false then some false
      else if source.initialized then some true
      else none

/-- What `with_holds` shows of a source: its holds while it is live. -/
def withHolds (t : Tracker) (index : Nat) : Option Holds :=
  match t.sources[index]? with
  | none => none
  | some source => source.visible

end Tracker

end Rabbithole.Swarm
