import Mathlib.Data.Finset.Card
import Rabbithole.Foundation.Run
import Rabbithole.Swarm.WorkState

/-!
# A swarm fetch as a transition system

One fetch runs a probe for each source and a worker for each lane of it.  Each action below
is one section under the scheduler's or the tracker's lock, since a worker touches nothing
shared in between.  What the clock, the disk and the peers say is part of the action.
-/

namespace Rabbithole.Swarm

/-- A source a fetch takes units from (`RangeSource`). -/
structure RangeSource where
  label : String
  lanes : Nat
  provenance : Provenance
deriving DecidableEq

/-- The fixed inputs of one fetch. -/
structure Job where
  sources : List RangeSource
  root : Root
  size : Nat
deriving DecidableEq

namespace Job

def source? (job : Job) (index : Nat) : Option RangeSource :=
  job.sources[index]?

def provenance (job : Job) (index : Nat) : Provenance :=
  match job.source? index with
  | none => .given
  | some source => source.provenance

def label (job : Job) (index : Nat) : String :=
  match job.source? index with
  | none => ""
  | some source => source.label

/-- Units of the file: `size.div_ceil(UNIT_SIZE)`. -/
def totalUnits (job : Job) : Nat :=
  (job.size + unitSize - 1) / unitSize

def unitOffsets (job : Job) : List Nat :=
  (List.range job.totalUnits).map (fun k => k * unitSize)

end Job

/-- Where a worker stands between two lock acquisitions. -/
inductive Pc where
  /-- Before the first look at the queue. -/
  | start
  /-- Waiting until the availability of its source is known. -/
  | ready
  /-- At the top of the loop. -/
  | top
  /-- Nothing its source holds is left. -/
  | waiting
  /-- Fetching a unit. -/
  | fetching (off len : Nat) (endgame : Bool)
  /-- The other copy landed first; the unit is not yet settled again. -/
  | lost (off : Nat)
  /-- The unit could not be written; it is not yet handed back. -/
  | failed (off len : Nat) (endgame : Bool) (why : String)
  /-- The source lacks the unit after all; it is not yet handed back. -/
  | notHeld (off len : Nat) (endgame : Bool)
  /-- The source failed the unit; it is not yet handed back. -/
  | retiring (off len : Nat) (endgame : Bool)
  /-- Out of the loop, its lane not yet given up. -/
  | leaving
  | gone
deriving DecidableEq

namespace Pc

/-- The unit a worker took and has not landed, found done or handed back. -/
def held : Pc -> Option (Nat × Bool)
  | fetching off _ endgame => some (off, endgame)
  | failed off _ endgame _ => some (off, endgame)
  | notHeld off _ endgame => some (off, endgame)
  | retiring off _ endgame => some (off, endgame)
  | _ => none

end Pc

structure Lane where
  pc : Pc
  misses : Nat
deriving DecidableEq

/-- The availability probe of one source. -/
inductive Probe where
  | idle
  | asking (generation : Nat)
  | ended
deriving DecidableEq

/-- One verified unit just landed (`UnitDone`). -/
structure UnitDone where
  endpoint : String
  offset : Nat
  doneUnits : Nat
  totalUnits : Nat
deriving DecidableEq

/-- The state of a running fetch; lane `l` of source `i` is worker `(i, l)`. -/
structure Fetch where
  work : WorkState
  tracker : Tracker
  lanes : Nat × Nat -> Lane
  probes : Nat -> Probe
  /-- Whether `complete` was told that nothing is left. -/
  complete : Bool
  progress : List UnitDone
  disk : Disk
  seeds : Option Seed

/-- What the disk and the clock do to one landing. -/
structure LandIo where
  /-- The unit was written. -/
  written : Bool
  /-- A failed write still changed the bytes on disk. -/
  torn : Bool
  /-- The proof was kept. -/
  kept : Bool
  /-- The record is due by the clock. -/
  elapsed : Bool
  /-- The record, when due, was written. -/
  recorded : Bool
deriving DecidableEq

/-- An answer that retires the worker's source. -/
inductive Rejection where
  | unexpectedLength
  | source (reason : SourceRejection)
  | processing (why : String)
  | other
deriving DecidableEq

inductive LaneAct where
  /-- Look at the queue before waiting for the source. -/
  | enter
  /-- The source's availability is known. -/
  | ready
  /-- Take the next unit, the in-flight set iterated in this order. -/
  | next (order : List Nat)
  /-- Nothing to take: go on waiting, or give up after a minute. -/
  | wait (idle : Bool)
  /-- The whole unit arrived and verified. -/
  | land (io : LandIo)
  /-- Settle a unit another copy landed. -/
  | settle
  /-- The source is busy. -/
  | busy (idle : Bool)
  /-- The source does not hold the unit: `availability.lacks`. -/
  | lacks
  /-- The source failed the unit in some other way. -/
  | reject (why : Rejection)
  /-- Hand the unit back after a failure noted before. -/
  | giveBack
  /-- The worker's task ends: `leave_lane`. -/
  | leave
deriving DecidableEq

inductive Act where
  | lane (index lane : Nat) (act : LaneAct)
  /-- A probe reads the generation it starts from. -/
  | query (index : Nat)
  | queried (index : Nat) (result : Except PeerError (Option HaveMap))
  /-- The workers are dropped, the record written one last time. -/
  | stop (recorded : Bool)
  /-- The caller ends the invocation, in one of the terminal phases. -/
  | finish (phase : AvailabilityPhase)

/-- Units a source may lack against its own have-map before it is let go. -/
def maxMisses : Nat := 8

namespace Fetch

def setLane (f : Fetch) (i l : Nat) (lane : Lane) : Fetch :=
  { f with lanes := Function.update f.lanes (i, l) lane }

def goto (f : Fetch) (i l : Nat) (pc : Pc) : Fetch :=
  f.setLane i l { f.lanes (i, l) with pc := pc }

/-- `settle`, telling `complete` when nothing is left. -/
def settle (f : Fetch) (off : Nat) : Fetch :=
  { f with
    work := f.work.settle off
    complete := f.complete || (f.work.settle off).drained }

def giveBack (f : Fetch) (i off len : Nat) (endgame : Bool) : Fetch :=
  { f with
    work := f.work.giveBack off len i endgame
    complete := f.complete || f.work.giveBackTells off }

/-- Write the record if it is due, and count the unit that just landed. -/
def landed (f : Fetch) (io : LandIo) : Fetch :=
  if f.work.recordDue io.elapsed then
    { f with
      disk := f.work.writeRecord f.disk io.recorded
      work := f.work.persist }
  else
    { f with work := { f.work with unpersisted := f.work.unpersisted + 1 } }

/-- The landing of a unit that is not done, once its bytes are written. -/
def landUnit (job : Job) (f : Fetch) (i off : Nat) (io : LandIo) : Fetch :=
  let provenance := job.provenance i
  let written : Fetch :=
    { f with
      disk := { f.disk with dest := Function.update f.disk.dest off (some provenance) } }
  let offered : Fetch :=
    match provenance with
    | .lent =>
        { written with
          work := { written.work with borrowed := insert off written.work.borrowed } }
    | .given =>
        if written.work.proofs = true ∧ io.kept = true ∧ written.work.sharing = true then
          { written with seeds := Seed.mark written.seeds (off / haveUnit) }
        else
          written
  let counted : Fetch :=
    { offered with
      work :=
        { offered.work with
          done := insert off offered.work.done
          served := offered.work.served.modify i (fun units => units + 1) }
      tracker := offered.tracker.landed off }
  let settled := (counted.landed io).settle off
  { settled with
    progress := settled.progress ++
      [{ endpoint := job.label i
         offset := off
         doneUnits := settled.work.done.card
         totalUnits := job.totalUnits }] }

/-- The bytes a failed write may have left behind. -/
def tear (job : Job) (f : Fetch) (i off : Nat) (io : LandIo) : Fetch :=
  if io.torn then
    { f with
      disk :=
        { f.disk with
          dest := Function.update f.disk.dest off (some (job.provenance i)) } }
  else
    f

/-- The landing closure of `worker`, with what it decides for the worker. -/
def land (job : Job) (f : Fetch) (i l off len : Nat) (endgame : Bool) (io : LandIo) : Fetch :=
  let f : Fetch :=
    { f with work := { f.work with working := f.work.working.erase (off, i) } }
  if f.work.stopped then
    f.goto i l (.failed off len endgame "the fetch was dropped")
  else if off ∈ f.work.done then
    f.goto i l (.lost off)
  else if io.written then
    (landUnit job f i off io).goto i l .top
  else
    (tear job f i off io).goto i l (.failed off len endgame "write")

/-- A local failure is noted for the fetch's error, unless one is or it was dropped. -/
def noteLocal (f : Fetch) (error : PeerError) : Fetch :=
  if f.work.local_.isNone then
    { f with work := { f.work with local_ := some error } }
  else
    f

/-- One action of worker `(i, l)`. -/
def laneStep (job : Job) (f : Fetch) (i l : Nat) (act : LaneAct) : Option Fetch :=
  match act, (f.lanes (i, l)).pc with
  | .enter, .start =>
      if f.work.stopped = true ∨ f.work.drained = true then
        some (f.goto i l .leaving)
      else
        some (f.goto i l .ready)
  | .ready, .ready =>
      match f.tracker.ready i with
      | none => none
      | some true => some (f.goto i l .top)
      | some false => some (f.goto i l .leaving)
  | .next order, .top =>
      if f.work.stopped then some (f.goto i l .leaving)
      else
        match f.tracker.withHolds i with
        | none => some (f.goto i l .leaving)
        | some holds =>
            if order.Nodup ∧ order.toFinset = f.work.inFlight then
              match f.work.nextUnit holds job.size i order with
              | (work, .unit off len endgame) =>
                  some ({ f with work := work }.goto i l (.fetching off len endgame))
              | (work, .wait) => some ({ f with work := work }.goto i l .waiting)
              | (work, .sibling) => some ({ f with work := work }.goto i l .top)
              | (work, .done) => some ({ f with work := work }.goto i l .leaving)
            else
              none
  | .wait idle, .waiting =>
      if f.tracker.withHolds i = some .all ∨ idle = true then
        some (f.goto i l .leaving)
      else
        some (f.goto i l .top)
  | .land io, .fetching off len endgame => some (f.land job i l off len endgame io)
  | .settle, .lost off => some ((f.settle off).goto i l .top)
  | .busy idle, .fetching off len endgame =>
      some ((f.giveBack i off len endgame).goto i l (if idle then .leaving else .top))
  | .lacks, .fetching off len endgame =>
      some ({ f with tracker := f.tracker.lacks i off (want job.size off) }.goto i l
        (.notHeld off len endgame))
  | .reject why, .fetching off len endgame =>
      let noted : Fetch :=
        match why with
        | .unexpectedLength =>
            { f with tracker := f.tracker.rejected i off .unexpectedLength }
        | .source reason => { f with tracker := f.tracker.rejected i off reason }
        | .processing why => f.noteLocal (.processing why)
        | .other => f
      some (noted.goto i l (.retiring off len endgame))
  | .giveBack, .failed off len endgame why =>
      let noted : Fetch := if f.work.stopped then f else f.noteLocal (.io why)
      some ((noted.giveBack i off len endgame).goto i l .leaving)
  | .giveBack, .notHeld off len endgame =>
      let misses := (f.lanes (i, l)).misses + 1
      some ((f.giveBack i off len endgame).setLane i l
        { pc := if maxMisses < misses then .leaving else .top, misses := misses })
  | .giveBack, .retiring off len endgame =>
      some ((f.giveBack i off len endgame).goto i l .leaving)
  | .leave, .leaving =>
      some ({ f with tracker := f.tracker.leaveLane i }.goto i l .gone)
  | _, _ => none

/-- `Workers::drop`: the record catches up with what landed, and nothing is written after. -/
def stop (f : Fetch) (recorded : Bool) : Fetch :=
  let disk := if 0 < f.work.unpersisted then f.work.writeRecord f.disk recorded else f.disk
  { f with
    disk := disk
    work := { f.work with unpersisted := 0, stopped := true, persistTo := none }
    tracker := f.tracker.stopSources }

def step (job : Job) (f : Fetch) : Act -> Option Fetch
  | .lane i l act => laneStep job f i l act
  | .query i =>
      match f.probes i with
      | .idle =>
          match f.tracker.queryGeneration i with
          | none => some { f with probes := Function.update f.probes i .ended }
          | some generation =>
              some { f with probes := Function.update f.probes i (.asking generation) }
      | _ => none
  | .queried i result =>
      match f.probes i with
      | .asking generation =>
          some { f with
            tracker := f.tracker.queried i generation result
            probes := Function.update f.probes i .idle }
      | _ => none
  | .stop recorded => if f.work.stopped then none else some (f.stop recorded)
  | .finish phase =>
      if phase.terminal then some { f with tracker := f.tracker.finish phase } else none

end Fetch

/-!
## Entry and exit

`fetch_swarm_inner` sets the fetch up, and reads its result once every worker
has ended or the last unit landed.
-/

/-- What a fetch keeps as it goes (`Keep`). -/
structure Keep where
  /-- A resume record is kept; without one the destination is truncated. -/
  resumable : Bool
  proofs : Bool
  sharing : Bool
deriving DecidableEq

structure FetchReport where
  bytes : Nat
  perSource : List (String × Nat)
  borrowed : Bool
deriving DecidableEq

/-- `set_len` refuses a length that is not a file offset. -/
def maxFileLen : Nat := 2 ^ 63 - 1

/-- The units still to fetch, back to front. -/
def Job.pending (job : Job) (done : Finset Nat) : List (Nat × Nat) :=
  ((job.unitOffsets.filter (fun off => decide (off ∉ done))).map
    (fun off => (off, want job.size off))).reverse

/-- Lanes of each source: at least one, never more than there are units. -/
def Job.laneCounts (job : Job) (done : Finset Nat) : List Nat :=
  let left := (job.pending done).length
  job.sources.map (fun source =>
    if left = 0 then 0 else min (max source.lanes 1) left)

/-- The state a fetch starts its workers in. -/
def Fetch.init (job : Job) (keep : Keep) (done borrowed : Finset Nat)
    (availability : Option Tracker) (disk : Disk) (seeds : Option Seed) : Fetch :=
  let lanes := job.laneCounts done
  let tracker := availability.getD (Tracker.new.begin job.root job.size)
  { work :=
      { pending := job.pending done
        inFlight := ∅
        working := ∅
        done := done
        persistTo := if keep.resumable then some (job.root, job.size) else none
        unpersisted := 0
        stopped := false
        served := List.replicate job.sources.length 0
        proofs := keep.proofs
        sharing := keep.sharing
        local_ := none
        borrowed := borrowed }
    tracker := tracker.initializeSources lanes done
    lanes := fun w =>
      { pc := if w.2 < lanes.getD w.1 0 then .start else .gone, misses := 0 }
    probes := fun i => if lanes.getD i 0 = 0 then .ended else .idle
    complete := false
    progress := []
    disk :=
      if keep.resumable then disk else { disk with dest := fun _ => none }
    seeds := seeds }

def Fetch.joined (job : Job) (done : Finset Nat) (f : Fetch) : Bool :=
  (job.laneCounts done).zipIdx.all (fun lanes =>
    (List.range lanes.1).all (fun l => decide ((f.lanes (lanes.2, l)).pc = .gone)))

/-- What `fetch_swarm_inner` returns from the state it finds. -/
def Fetch.report (job : Job) (f : Fetch) : Except PeerError FetchReport :=
  match f.work.local_ with
  | some error => .error error
  | none =>
      if f.work.drained then
        .ok
          { bytes := job.size
            perSource := List.zip (job.sources.map RangeSource.label) f.work.served
            borrowed := decide (f.work.borrowed ≠ ∅) }
      else
        let left := f.work.pending.length + f.work.inFlight.card
        .error (.verify s!"no source could serve {left} remaining unit(s)")

/-- How `fetch_swarm_inner` begins: an early answer, or a running fetch. -/
inductive Started where
  | answered (result : Except PeerError FetchReport)
  | running (f : Fetch)

/-- The head of `fetch_swarm_inner`; `opened` is whether the destination could be opened. -/
def fetchSwarmInner (job : Job) (keep : Keep) (done borrowed : Finset Nat)
    (availability : Option Tracker) (disk : Disk) (seeds : Option Seed) (opened : Bool) : Started :=
  if job.sources = [] then .answered (.error .badRequest)
  else if job.size = 0 then
    .answered (.ok { bytes := 0, perSource := [], borrowed := false })
  else if opened = false ∨ maxFileLen < job.size then
    .answered (.error (.io "destination"))
  else
    .running (Fetch.init job keep done borrowed availability disk seeds)

end Rabbithole.Swarm
