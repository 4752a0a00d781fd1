import Rabbithole.Swarm.Fetch

/-!
# Resumable fetches, one after another

A fetch of one root and size into one destination may be run any number of times, each from
the record on disk.  A kill takes everything but the disk away.  One between the bytes of a
landing and its record leaves the disk as a landing does whose record could not be written.
-/

namespace Rabbithole.Swarm

/-- What the caller gives one run, and what the disk answers as it sets up. -/
structure RunInput where
  sources : List RangeSource
  availability : Option Tracker
  /-- The caller shares through a seed store. -/
  seeded : Bool
  /-- The proofs file could be opened. -/
  proofsOpen : Bool
  /-- The proven byte ranges, when the proofs file could be read. -/
  proven : Option (List (Nat × Nat))
  /-- The order in which the done units of the record are iterated. -/
  order : List Nat
  /-- The destination could be opened. -/
  opened : Bool

/-- What `resumable` remembers of a run while it goes on. -/
structure Running where
  job : Job
  /-- The units done when the run started. -/
  start : Finset Nat
  seeded : Bool
  /-- The run added a partial seed, which its guard takes away at the end. -/
  sharing : Bool

/-- Where a destination stands: between runs, fetching, or checking the whole file. -/
inductive World where
  | idle (disk : Disk) (seeds : Option Seed)
  | fetching (run : Running) (f : Fetch)
  | verifying (run : Running) (report : FetchReport) (disk : Disk) (seeds : Option Seed)

/-- What the check of the whole file and the clean-up after it came to. -/
inductive Verified where
  /-- The file could not be read. -/
  | unread
  /-- The file is not the root's; each removal may fail. -/
  | bad (stateGone destGone : Bool)
  /-- The file is the root's; the proofs were complete when asked for. -/
  | good (stateGone proved : Bool)
deriving DecidableEq

inductive Label where
  | begin (input : RunInput)
  | act (act : Act)
  /-- The fetch returns, and drops its workers. -/
  | fetched (recorded : Bool)
  /-- The check of the whole file ends, and the run with it. -/
  | verified (outcome : Verified)
  /-- The caller drops the run. -/
  | drop (recorded : Bool)
  | kill

namespace World

def disk : World -> Disk
  | idle disk _ => disk
  | fetching _ f => f.disk
  | verifying _ _ disk _ => disk

def seeds : World -> Option Seed
  | idle _ seeds => seeds
  | fetching _ f => f.seeds
  | verifying _ _ _ seeds => seeds

/-- `PartialGuard::drop`. -/
def unshare (sharing : Bool) (seeds : Option Seed) : Option Seed :=
  if sharing then Seed.removePartial seeds else seeds

/-- The record's done and borrowed units, nothing without a record. -/
def resumed (disk : Disk) (root : Root) (size : Nat) : Finset Nat × Finset Nat :=
  match loadRhstate disk root size with
  | some state => (state.done, state.borrowed)
  | none => (∅, ∅)

/-- Units from before a resume that may be shared: given, and with their proof kept. -/
def heldUnits (size : Nat) (order : List Nat) (borrowed : Finset Nat)
    (proven : List (Nat × Nat)) : List Nat :=
  ((order.filter (fun off => decide (off ∉ borrowed))).filter (fun off =>
    proven.any (fun range =>
      decide (range.1 <= off ∧ off + want size off <= range.2)))).map
    (fun off => off / haveUnit)

/-- The seed store after `add_partial`, and whether the run shares; none when it fails. -/
def shareHeld (input : RunInput) (size : Nat) (borrowed : Finset Nat)
    (seeds : Option Seed) : Option (Option Seed × Bool) :=
  if input.seeded = true ∧ input.proofsOpen = true then
    match input.proven with
    | none => none
    | some proven => some (Seed.addPartial seeds (heldUnits size input.order borrowed proven))
  else
    some (seeds, false)

/-- The head of `resumable`, for a file that is not empty. -/
def beginRun (root : Root) (size : Nat) (input : RunInput) (disk : Disk)
    (seeds : Option Seed) : World :=
  let (done, borrowed) := resumed disk root size
  match shareHeld input size borrowed seeds with
  | none => idle disk seeds
  | some (seeds, sharing) =>
      let job : Job := { sources := input.sources, root := root, size := size }
      let run : Running :=
        { job := job, start := done, seeded := input.seeded, sharing := sharing }
      let keep : Keep :=
        { resumable := true, proofs := input.proofsOpen, sharing := sharing }
      match fetchSwarmInner job keep done borrowed input.availability disk seeds
          input.opened with
      | .running f => fetching run f
      | .answered (.ok report) => verifying run report disk seeds
      | .answered (.error _) => idle disk (unshare sharing seeds)

/-- Whether a good end of a run reaches `insert_whole`. -/
def insertsWhole (run : Running) (report : FetchReport) (proved : Bool) : Bool :=
  run.seeded && !report.borrowed && proved

/-- Whether a step inserts the whole file as a seed. -/
def seedsWhole (w : World) (label : Label) : Bool :=
  match w, label with
  | verifying run report _ _, .verified (.good _ proved) =>
      insertsWhole run report proved
  | _, _ => false

def endRun (run : Running) (report : FetchReport) (disk : Disk) (seeds : Option Seed) :
    Verified -> World
  | .unread => idle disk (unshare run.sharing seeds)
  | .bad stateGone destGone =>
      idle
        { record := if stateGone then none else disk.record
          dest := if destGone then fun _ => none else disk.dest }
        (unshare run.sharing seeds)
  | .good stateGone proved =>
      idle { disk with record := if stateGone then none else disk.record }
        (unshare run.sharing
          (if insertsWhole run report proved then Seed.insertWhole seeds else seeds))

/-- One label; an empty file is answered before the record or a seed is looked at. -/
def step (root : Root) (size : Nat) (w : World) (label : Label) : Option World :=
  match label, w with
  | .begin input, idle disk seeds =>
      if 0 < size ∧ input.order.Nodup ∧
          input.order.toFinset = (resumed disk root size).1 then
        some (beginRun root size input disk seeds)
      else
        none
  | .act act, fetching run f =>
      match Fetch.step run.job f act with
      | none => none
      | some f' => some (fetching run f')
  | .fetched recorded, fetching run f =>
      if f.complete = true ∨ f.joined run.job run.start = true then
        match Fetch.report run.job f with
        | .error _ =>
            some (idle (f.stop recorded).disk (unshare run.sharing (f.stop recorded).seeds))
        | .ok report =>
            some (verifying run report (f.stop recorded).disk (f.stop recorded).seeds)
      else
        none
  | .verified outcome, verifying run report disk seeds =>
      some (endRun run report disk seeds outcome)
  | .drop recorded, fetching run f =>
      some (idle (f.stop recorded).disk (unshare run.sharing (f.stop recorded).seeds))
  | .drop _, verifying run _ disk seeds => some (idle disk (unshare run.sharing seeds))
  | .kill, w => some (idle w.disk none)
  | _, _ => none

end World

end Rabbithole.Swarm
