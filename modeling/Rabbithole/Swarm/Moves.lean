import Rabbithole.Swarm.Fetch

/-!
# What one step of a fetch can do

Every enabled action of a worker is one of the moves below, with the state it leaves written
out.  Invariants are proved by cases on the move.
-/

namespace Rabbithole.Swarm

@[simp] theorem Fetch.goto_pc (f : Fetch) (i l : Nat) (pc : Pc) :
    ((f.goto i l pc).lanes (i, l)).pc = pc := by
  unfold Fetch.goto Fetch.setLane
  simp

/-!
## Taking a unit

In a queue without done units, `next_unit` takes a pending unit its source holds
and is not fetching already, or else duplicates a unit in flight under the same
two conditions, or else leaves the state alone.
-/

namespace WorkState

/-- No pending unit is done. -/
def Clean (s : WorkState) : Prop :=
  forall unit, unit ∈ s.pending -> unit.1 ∉ s.done

/-- The state after the pending unit at place `k` is taken. -/
def taken (s : WorkState) (index k off : Nat) : WorkState :=
  { s with
    pending := s.pending.eraseIdx k
    inFlight := insert off s.inFlight
    working := insert (off, index) s.working }

def copied (s : WorkState) (index off : Nat) : WorkState :=
  { s with working := insert (off, index) s.working }

variable {s : WorkState}

theorem scanPending_of_clean (hclean : s.Clean) (holds : Holds) (index n : Nat) :
    scanPending holds index n s = (s, none) ∨
      exists k off len,
        s.pending[k]? = some (off, len) ∧ holds.covers off len = true ∧
        (off, index) ∉ s.working ∧
        scanPending holds index n s = (s.taken index k off, some (off, len)) := by
  induction n with
  | zero => exact Or.inl rfl
  | succ n ih =>
      unfold scanPending
      cases hget : s.pending[n]? with
      | none => exact Or.inl rfl
      | some unit =>
          rcases unit with ⟨off, len⟩
          have hnotDone : off ∉ s.done :=
            hclean (off, len) (List.mem_of_getElem? hget)
          simp only [if_neg hnotDone]
          by_cases hfit : holds.covers off len = true ∧ (off, index) ∉ s.working
          · rw [if_pos hfit]
            exact Or.inr ⟨n, off, len, hget, hfit.left, hfit.right, rfl⟩
          · rw [if_neg hfit]
            exact ih

theorem findStraggler_some {holds : Holds} {size index : Nat} {order : List Nat}
    {sibling found : Bool} {off : Nat}
    (h : findStraggler s holds size index order sibling = (found, some off)) :
    off ∈ order ∧ off ∉ s.done ∧ holds.covers off (want size off) = true ∧
      (off, index) ∉ s.working := by
  induction order generalizing sibling with
  | nil => cases h
  | cons first rest ih =>
      unfold findStraggler at h
      by_cases hskip : first ∈ s.done ∨ holds.covers first (want size first) = false
      · rw [if_pos hskip] at h
        exact ⟨List.mem_cons_of_mem first (ih h).left, (ih h).right⟩
      · rw [if_neg hskip] at h
        by_cases hbusy : (first, index) ∈ s.working
        · rw [if_pos hbusy] at h
          exact ⟨List.mem_cons_of_mem first (ih h).left, (ih h).right⟩
        · rw [if_neg hbusy] at h
          cases h
          refine ⟨List.mem_cons_self, fun hd => hskip (Or.inl hd), ?_, hbusy⟩
          cases hcov : holds.covers off (want size off) with
          | false => exact absurd (Or.inr hcov) hskip
          | true => rfl

/-- What `next_unit` can do in a clean state. -/
inductive NextMoves (s : WorkState) (holds : Holds) (size index : Nat)
    (order : List Nat) : WorkState × Next -> Prop where
  | take {k off len : Nat}
      (hget : s.pending[k]? = some (off, len))
      (hcovers : holds.covers off len = true)
      (hfree : (off, index) ∉ s.working) :
      NextMoves s holds size index order
        (s.taken index k off, .unit off len false)
  | copy {off : Nat}
      (horder : off ∈ order)
      (hcovers : holds.covers off (want size off) = true)
      (hfree : (off, index) ∉ s.working) :
      NextMoves s holds size index order
        (s.copied index off, .unit off unitSize true)
  | pause {next : Next} (hnext : forall off len endgame, next ≠ .unit off len endgame) :
      NextMoves s holds size index order (s, next)

theorem nextUnit_moves (hclean : s.Clean) (holds : Holds) (size index : Nat) (order : List Nat) :
    NextMoves s holds size index order (s.nextUnit holds size index order) := by
  unfold nextUnit
  rcases scanPending_of_clean hclean holds index s.pending.length with
    hnone | ⟨k, off, len, hget, hcovers, hfree, htaken⟩
  · rw [hnone]
    simp only
    rcases hfind : findStraggler s holds size index order false with ⟨sibling, found⟩
    cases found with
    | some off =>
        rcases findStraggler_some hfind with ⟨horder, _, hcovers, hfree⟩
        exact NextMoves.copy horder hcovers hfree
    | none =>
        simp only
        split
        · exact NextMoves.pause (by intro _ _ _ h; cases h)
        · split
          all_goals exact NextMoves.pause (by intro _ _ _ h; cases h)
  · rw [htaken]
    exact NextMoves.take hget hcovers hfree

end WorkState

/-!
## Landing and handing back

What a landing and a hand-back leave of the work state, whichever way the
record, the proof and the seed go.
-/

/-- The borrowed units after a unit landed from source `i`. -/
def Job.borrowedAfter (job : Job) (i off : Nat) (borrowed : Finset Nat) : Finset Nat :=
  match job.provenance i with
  | .lent => insert off borrowed
  | .given => borrowed

theorem landUnit_work (job : Job) (f : Fetch) (i off : Nat) (io : LandIo) :
    exists unpersisted,
      (Fetch.landUnit job f i off io).work =
        { f.work with
          pending := f.work.pending.filter (fun unit => decide (unit.1 ≠ off))
          inFlight := f.work.inFlight.erase off
          done := insert off f.work.done
          served := f.work.served.modify i (fun units => units + 1)
          borrowed := job.borrowedAfter i off f.work.borrowed
          unpersisted := unpersisted } := by
  unfold Fetch.landUnit Job.borrowedAfter Fetch.landed
  cases job.provenance i with
  | lent =>
      simp only
      split
      · exact ⟨0, rfl⟩
      · exact ⟨f.work.unpersisted + 1, rfl⟩
  | given =>
      simp only
      split
      all_goals
        split
        · exact ⟨0, rfl⟩
        · exact ⟨f.work.unpersisted + 1, rfl⟩

theorem landUnit_frame (job : Job) (f : Fetch) (i off : Nat) (io : LandIo) :
    (Fetch.landUnit job f i off io).lanes = f.lanes ∧
      (Fetch.landUnit job f i off io).probes = f.probes ∧
      (Fetch.landUnit job f i off io).tracker = f.tracker.landed off ∧
      (Fetch.landUnit job f i off io).progress.map UnitDone.offset =
        f.progress.map UnitDone.offset ++ [off] := by
  unfold Fetch.landUnit Fetch.landed
  cases job.provenance i with
  | lent =>
      simp only
      split <;> simp [Fetch.settle]
  | given =>
      simp only
      split <;> split <;> simp [Fetch.settle]

variable {off : Nat} {s : WorkState}

theorem giveBack_done (h : off ∈ s.done) (len index : Nat) (endgame : Bool) :
    s.giveBack off len index endgame =
      WorkState.settle { s with working := s.working.erase (off, index) } off := by
  unfold WorkState.giveBack
  exact if_pos h

theorem giveBack_copy (h : off ∉ s.done) (len index : Nat) :
    s.giveBack off len index true =
      { s with working := s.working.erase (off, index) } := by
  unfold WorkState.giveBack
  simp only [if_neg h, if_true]

theorem giveBack_original (h : off ∉ s.done) (len index : Nat) :
    s.giveBack off len index false =
      { s with
        working := s.working.erase (off, index)
        inFlight := s.inFlight.erase off
        pending := s.pending ++ [(off, len)] } := by
  unfold WorkState.giveBack
  simp [h]

/-!
## The moves of a worker
-/

/-- Where a worker goes after it looked for its next unit. -/
def Pc.after : WorkState.Next -> Pc
  | .unit off len endgame => .fetching off len endgame
  | .wait => .waiting
  | .sibling => .top
  | .done => .leaving

/-- Places where a worker holds no unit and has none to settle. -/
def Pc.free : Pc -> Bool
  | start => true
  | ready => true
  | top => true
  | waiting => true
  | leaving => true
  | gone => true
  | _ => false

/-- The state after the answer that retires a worker's source is noted. -/
def Fetch.noteRejection (f : Fetch) (i off : Nat) : Rejection -> Fetch
  | .unexpectedLength =>
      { f with tracker := f.tracker.rejected i off .unexpectedLength }
  | .source reason => { f with tracker := f.tracker.rejected i off reason }
  | .processing why => f.noteLocal (.processing why)
  | .other => f

theorem noteLocal_eq (f : Fetch) (error : PeerError) :
    exists local_, f.noteLocal error = { f with work := { f.work with local_ := local_ } } := by
  unfold Fetch.noteLocal
  cases f.work.local_.isNone with
  | true => exact ⟨some error, rfl⟩
  | false => exact ⟨f.work.local_, rfl⟩

theorem rejected_sources (t : Tracker) (i off : Nat) (reason : SourceRejection) :
    (t.rejected i off reason).sources = t.sources ∧
      (t.rejected i off reason).phase = t.phase := by
  unfold Tracker.rejected
  split <;> exact ⟨rfl, rfl⟩

theorem noteRejection_eq (f : Fetch) (i off : Nat) (why : Rejection) :
    exists tracker local_,
      f.noteRejection i off why =
        { f with tracker := tracker, work := { f.work with local_ := local_ } } ∧
      tracker.sources = f.tracker.sources ∧ tracker.phase = f.tracker.phase := by
  cases why with
  | unexpectedLength =>
      exact ⟨_, f.work.local_, rfl, rejected_sources f.tracker i off _⟩
  | source reason =>
      exact ⟨_, f.work.local_, rfl, rejected_sources f.tracker i off reason⟩
  | processing why =>
      rcases noteLocal_eq f (.processing why) with ⟨local_, heq⟩
      exact ⟨f.tracker, local_, heq, rfl, rfl⟩
  | other => exact ⟨f.tracker, f.work.local_, rfl, rfl, rfl⟩

/-- The bytes of a unit on disk now come from source `i`. -/
def Job.writeUnit (job : Job) (disk : Disk) (i off : Nat) : Disk :=
  { disk with dest := Function.update disk.dest off (some (job.provenance i)) }

theorem tear_eq (job : Job) (f : Fetch) (i off : Nat) (io : LandIo) :
    exists disk,
      Fetch.tear job f i off io = { f with disk := disk } ∧
      (disk = f.disk ∨ disk = job.writeUnit f.disk i off) := by
  unfold Fetch.tear
  split
  · exact ⟨_, rfl, Or.inr rfl⟩
  · exact ⟨f.disk, rfl, Or.inl rfl⟩

/-- The state in which the landing closure looks at the unit. -/
def Fetch.unworked (f : Fetch) (i off : Nat) : Fetch :=
  { f with work := { f.work with working := f.work.working.erase (off, i) } }

theorem landUnit_lanes (job : Job) (f : Fetch) (i l off : Nat) (io : LandIo) :
    ((Fetch.landUnit job (f.unworked i off) i off io).goto i l .top).lanes =
      Function.update f.lanes (i, l) { f.lanes (i, l) with pc := .top } := by
  have hlanes := (landUnit_frame job (f.unworked i off) i off io).left
  unfold Fetch.goto Fetch.setLane
  rw [hlanes]
  rfl

inductive Moves (job : Job) (f : Fetch) (i l : Nat) : LaneAct -> Fetch -> Prop where
  /-- Nothing shared changes. -/
  | walk {act : LaneAct} {pc' : Pc}
      (hfree : (f.lanes (i, l)).pc.free = true) (hgone : (f.lanes (i, l)).pc ≠ .gone)
      (hleaving : (f.lanes (i, l)).pc ≠ .leaving)
      (hfree' : pc'.free = true) (hgone' : pc' ≠ .gone) :
      Moves job f i l act (f.goto i l pc')
  | next {order : List Nat} {holds : Holds} {work : WorkState} {next : WorkState.Next}
      (hpc : (f.lanes (i, l)).pc = .top) (hrunning : f.work.stopped = false)
      (hholds : f.tracker.withHolds i = some holds)
      (horder : order.toFinset = f.work.inFlight)
      (hnext : f.work.nextUnit holds job.size i order = (work, next)) :
      Moves job f i l (.next order) ({ f with work := work }.goto i l (Pc.after next))
  | landStopped {off len : Nat} {endgame : Bool} {io : LandIo}
      (hpc : (f.lanes (i, l)).pc = .fetching off len endgame)
      (hstopped : f.work.stopped = true) :
      Moves job f i l (.land io)
        ((f.unworked i off).goto i l (.failed off len endgame "the fetch was dropped"))
  | landLost {off len : Nat} {endgame : Bool} {io : LandIo}
      (hpc : (f.lanes (i, l)).pc = .fetching off len endgame)
      (hrunning : f.work.stopped = false) (hdone : off ∈ f.work.done) :
      Moves job f i l (.land io) ((f.unworked i off).goto i l (.lost off))
  | landWritten {off len : Nat} {endgame : Bool} {io : LandIo}
      (hpc : (f.lanes (i, l)).pc = .fetching off len endgame)
      (hrunning : f.work.stopped = false) (hdone : off ∉ f.work.done) :
      Moves job f i l (.land io)
        ((Fetch.landUnit job (f.unworked i off) i off io).goto i l .top)
  | landFailed {off len : Nat} {endgame : Bool} {io : LandIo} {disk : Disk}
      (hpc : (f.lanes (i, l)).pc = .fetching off len endgame)
      (hrunning : f.work.stopped = false) (hdone : off ∉ f.work.done)
      (hdisk : disk = f.disk ∨ disk = job.writeUnit f.disk i off) :
      Moves job f i l (.land io)
        ({ f.unworked i off with disk := disk }.goto i l
          (.failed off len endgame "write"))
  | settle {off : Nat} (hpc : (f.lanes (i, l)).pc = .lost off) :
      Moves job f i l .settle ((f.settle off).goto i l .top)
  | busy {idle : Bool} {off len : Nat} {endgame : Bool} {pc' : Pc}
      (hpc : (f.lanes (i, l)).pc = .fetching off len endgame)
      (hfree' : pc'.free = true) (hgone' : pc' ≠ .gone) :
      Moves job f i l (.busy idle) ((f.giveBack i off len endgame).goto i l pc')
  | lacks {off len : Nat} {endgame : Bool}
      (hpc : (f.lanes (i, l)).pc = .fetching off len endgame) :
      Moves job f i l .lacks
        ({ f with tracker := f.tracker.lacks i off (want job.size off) }.goto i l
          (.notHeld off len endgame))
  | reject {why : Rejection} {off len : Nat} {endgame : Bool} {tracker : Tracker}
      {local_ : Option PeerError}
      (hpc : (f.lanes (i, l)).pc = .fetching off len endgame)
      (hsources : tracker.sources = f.tracker.sources)
      (hphase : tracker.phase = f.tracker.phase) :
      Moves job f i l (.reject why)
        ({ f with tracker := tracker, work := { f.work with local_ := local_ } }.goto i l
          (.retiring off len endgame))
  | backFailed {off len : Nat} {endgame : Bool} {why : String}
      {local_ : Option PeerError}
      (hpc : (f.lanes (i, l)).pc = .failed off len endgame why) :
      Moves job f i l .giveBack
        ((Fetch.giveBack { f with work := { f.work with local_ := local_ } }
          i off len endgame).goto i l .leaving)
  | backNotHeld {off len : Nat} {endgame : Bool} {pc' : Pc}
      (hpc : (f.lanes (i, l)).pc = .notHeld off len endgame)
      (hfree' : pc'.free = true) (hgone' : pc' ≠ .gone)
      (hmisses : pc' = .leaving ∨ (f.lanes (i, l)).misses + 1 <= maxMisses) :
      Moves job f i l .giveBack
        ((f.giveBack i off len endgame).setLane i l
          { pc := pc', misses := (f.lanes (i, l)).misses + 1 })
  | backRetiring {off len : Nat} {endgame : Bool}
      (hpc : (f.lanes (i, l)).pc = .retiring off len endgame) :
      Moves job f i l .giveBack ((f.giveBack i off len endgame).goto i l .leaving)
  | leave (hpc : (f.lanes (i, l)).pc = .leaving) :
      Moves job f i l .leave
        ({ f with tracker := f.tracker.leaveLane i }.goto i l .gone)

theorem Moves.walkFrom {job : Job} {f : Fetch} {i l : Nat} {act : LaneAct} {pc pc' : Pc}
    (hpc : (f.lanes (i, l)).pc = pc) (hfree : pc.free = true) (hgone : pc ≠ .gone)
    (hleaving : pc ≠ .leaving) (hfree' : pc'.free = true) (hgone' : pc' ≠ .gone) :
    Moves job f i l act (f.goto i l pc') := by
  subst hpc
  exact Moves.walk hfree hgone hleaving hfree' hgone'

theorem land_moves (job : Job) {f : Fetch} {i l len : Nat} {endgame : Bool} (io : LandIo)
    (hpc : (f.lanes (i, l)).pc = .fetching off len endgame) :
    Moves job f i l (.land io) (f.land job i l off len endgame io) := by
  unfold Fetch.land
  by_cases hstopped : f.work.stopped = true
  · simp only [if_pos hstopped]
    exact Moves.landStopped hpc hstopped
  · have hrunning : f.work.stopped = false := by simpa using hstopped
    simp only [if_neg hstopped]
    by_cases hdone : off ∈ f.work.done
    · simp only [if_pos hdone]
      exact Moves.landLost hpc hrunning hdone
    · simp only [if_neg hdone]
      split
      · exact Moves.landWritten hpc hrunning hdone
      · rcases tear_eq job (f.unworked i off) i off io with ⟨disk, htear, hdisk⟩
        have hmove : Moves job f i l (.land io) _ :=
          Moves.landFailed hpc hrunning hdone hdisk
        rw [← htear] at hmove
        exact hmove

theorem laneStep_moves {job : Job} {f f' : Fetch} {i l : Nat} {act : LaneAct}
    (h : Fetch.laneStep job f i l act = some f') : Moves job f i l act f' := by
  unfold Fetch.laneStep at h
  split at h
  case h_1 hpc =>
      split at h
      all_goals
        cases h
        exact Moves.walkFrom hpc rfl (by simp) (by simp) rfl (by simp)
  case h_2 hpc =>
      split at h
      · cases h
      all_goals
        cases h
        exact Moves.walkFrom hpc rfl (by simp) (by simp) rfl (by simp)
  case h_3 order hpc =>
      split at h
      · cases h
        exact Moves.walkFrom hpc rfl (by simp) (by simp) rfl (by simp)
      · rename_i hrunning
        split at h
        · cases h
          exact Moves.walkFrom hpc rfl (by simp) (by simp) rfl (by simp)
        · rename_i holds hholds
          split at h
          · rename_i horder
            have hrun : f.work.stopped = false := by simpa using hrunning
            split at h <;> rename_i work hnext <;> cases h <;>
              exact Moves.next hpc hrun hholds horder.right hnext
          · cases h
  case h_4 idle hpc =>
      split at h
      all_goals
        cases h
        exact Moves.walkFrom hpc rfl (by simp) (by simp) rfl (by simp)
  case h_5 io off len endgame hpc =>
      cases h
      exact land_moves job io hpc
  case h_6 off hpc =>
      cases h
      exact Moves.settle hpc
  case h_7 idle off len endgame hpc =>
      cases h
      cases idle with
      | false | true => exact Moves.busy hpc rfl (by simp)
  case h_8 off len endgame hpc =>
      cases h
      exact Moves.lacks hpc
  case h_9 why off len endgame hpc =>
      rcases noteRejection_eq f i off why with ⟨tracker, local_, heq, hsources, hphase⟩
      have hmove : Moves job f i l (.reject why)
          ((f.noteRejection i off why).goto i l (.retiring off len endgame)) := by
        rw [heq]
        exact Moves.reject hpc hsources hphase
      cases h
      cases why <;> exact hmove
  case h_10 off len endgame why hpc =>
      have hnoted : exists local_,
          (if f.work.stopped then f else f.noteLocal (.io why)) =
            { f with work := { f.work with local_ := local_ } } := by
        cases f.work.stopped with
        | true => exact ⟨f.work.local_, rfl⟩
        | false => exact noteLocal_eq f (.io why)
      rcases hnoted with ⟨local_, heq⟩
      cases h
      rw [heq]
      exact Moves.backFailed hpc
  case h_11 off len endgame hpc =>
      cases h
      by_cases hmany : maxMisses < (f.lanes (i, l)).misses + 1
      · simp only [if_pos hmany]
        exact Moves.backNotHeld hpc rfl (by simp) (Or.inl rfl)
      · simp only [if_neg hmany]
        exact Moves.backNotHeld hpc rfl (by simp) (Or.inr (by omega))
  case h_12 off len endgame hpc =>
      cases h
      exact Moves.backRetiring hpc
  case h_13 hpc =>
      cases h
      exact Moves.leave hpc
  case h_14 => cases h

end Rabbithole.Swarm
