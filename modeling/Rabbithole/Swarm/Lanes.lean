import Rabbithole.Swarm.Accounting

/-!
# One source, one unit, one lane

A lane that holds a unit is marked in the `working` set of its source.  A landing takes the
mark away before it writes, and a lane whose write failed hands its unit back only under the
next lock.  As long as no lane of the source looks for work in between, no two lanes hold the
same unit; when one does, a third lane can ask for the unit beside it.
-/

namespace Rabbithole.Swarm

open Foundation Function

/-- No two workers of one source stand between taking a unit and finishing with it. -/
def AskedOnce (f : Fetch) : Prop :=
  forall i l l' off endgame endgame',
    (f.lanes (i, l)).pc.held = some (off, endgame) ->
    (f.lanes (i, l')).pc.held = some (off, endgame') -> l = l'

/-- Whether a worker stands between a failed landing and handing its unit back. -/
def Pc.writeFailed : Pc -> Bool
  | failed _ _ _ _ => true
  | _ => false

/-- Every holder is marked in `working`, but for one whose landing failed. -/
structure Marked (f : Fetch) : Prop where
  marked : forall i l off endgame,
    (f.lanes (i, l)).pc.held = some (off, endgame) ->
    (f.lanes (i, l)).pc.writeFailed = true ∨ (off, i) ∈ f.work.working
  once : AskedOnce f

namespace Marked

variable {f f' : Fetch} {i l : Nat}

section

variable (h : Marked f) (lane : Lane) (hlanes : f'.lanes = Function.update f.lanes (i, l) lane)
include h lane hlanes

theorem keep (hheld : lane.pc.held = (f.lanes (i, l)).pc.held)
    (hfailed : (f.lanes (i, l)).pc.writeFailed = true -> lane.pc.held = none)
    (hworking : f'.work.working = f.work.working) : Marked f' := by
  have hall : forall w, (f'.lanes w).pc.held = (f.lanes w).pc.held := by
    intro w
    rw [hlanes]
    by_cases hw : w = (i, l)
    · rw [hw, update_self]
      exact hheld
    · rw [update_of_ne hw]
  constructor
  · intro j k off endgame hk
    rw [hworking]
    have hold := h.marked j k off endgame (by rw [← hall]; exact hk)
    by_cases hw : (j, k) = (i, l)
    · rcases hold with hold | hold
      · rw [hw] at hold
        rw [hlanes, hw, update_self, hfailed hold] at hk
        cases hk
      · exact Or.inr hold
    · rw [hlanes, update_of_ne hw]
      exact hold
  · intro j k k' off endgame endgame' hk hk'
    rw [hall] at hk hk'
    exact h.once j k k' off endgame endgame' hk hk'

theorem release {off : Nat} {endgame : Bool} (hold : (f.lanes (i, l)).pc.held = some (off, endgame))
    (hheld : lane.pc.held = none ∨
      (lane.pc.held = some (off, endgame) ∧ lane.pc.writeFailed = true))
    (hworking : f'.work.working = f.work.working.erase (off, i)) : Marked f' := by
  have hall : forall w v e, (f'.lanes w).pc.held = some (v, e) ->
      (f.lanes w).pc.held = some (v, e) := by
    intro w v e hw
    rw [hlanes] at hw
    by_cases heq : w = (i, l)
    · rw [heq, update_self] at hw
      rcases hheld with hnone | ⟨hsame, _⟩
      · rw [hnone] at hw
        cases hw
      · rw [heq, hold, ← hsame]
        exact hw
    · rw [update_of_ne heq] at hw
      exact hw
  constructor
  · intro j k v e hk
    by_cases hw : (j, k) = (i, l)
    · rcases hheld with hnone | ⟨_, hfailed⟩
      · rw [hlanes, hw, update_self, hnone] at hk
        cases hk
      · rw [hlanes, hw, update_self]
        exact Or.inl hfailed
    · rcases h.marked j k v e (hall _ v e hk) with hfailed | hin
      · rw [hlanes, update_of_ne hw]
        exact Or.inl hfailed
      · apply Or.inr
        rw [hworking, Finset.mem_erase]
        refine ⟨?_, hin⟩
        -- the erased mark is this holder's alone
        intro heq
        cases heq
        have hkl := h.once i k l off e endgame (hall _ off e hk) hold
        exact hw (by rw [hkl])
  · intro j k k' v e e' hk hk'
    exact h.once j k k' v e e' (hall _ v e hk) (hall _ v e' hk')

theorem take {off : Nat} {endgame : Bool} (hheld : lane.pc.held = some (off, endgame))
    (hfree : forall k e, (f.lanes (i, k)).pc.held ≠ some (off, e))
    (hworking : f'.work.working = insert (off, i) f.work.working) : Marked f' := by
  constructor
  · intro j k v e hk
    rw [hworking]
    by_cases hw : (j, k) = (i, l)
    · rw [hlanes, hw, update_self, hheld] at hk
      cases hk
      cases hw
      exact Or.inr (Finset.mem_insert_self _ _)
    · rw [hlanes, update_of_ne hw] at hk ⊢
      rcases h.marked j k v e hk with hfailed | hin
      · exact Or.inl hfailed
      · exact Or.inr (Finset.mem_insert_of_mem hin)
  · intro j k k' v e e' hk hk'
    rw [hlanes] at hk hk'
    by_cases hw : (j, k) = (i, l)
    · by_cases hw' : (j, k') = (i, l)
      · cases hw
        cases hw'
        rfl
      · rw [hw, update_self, hheld] at hk
        rw [update_of_ne hw'] at hk'
        cases hk
        cases hw
        exact absurd hk' (hfree k' e')
    · rw [update_of_ne hw] at hk
      by_cases hw' : (j, k') = (i, l)
      · rw [hw', update_self, hheld] at hk'
        cases hk'
        cases hw'
        exact absurd hk (hfree k e)
      · rw [update_of_ne hw'] at hk'
        exact h.once j k k' v e e' hk hk'

end

end Marked

theorem giveBack_working (s : WorkState) (off len index : Nat) (endgame : Bool) :
    (s.giveBack off len index endgame).working = s.working.erase (off, index) := by
  by_cases hdone : off ∈ s.done
  · rw [giveBack_done hdone]
    rfl
  · cases endgame with
    | true => rw [giveBack_copy hdone]
    | false => rw [giveBack_original hdone]

/-!
## The gap

The condition on a step: a lane that looks for its next unit finds no other lane
of its source between a failed landing and its hand-back, unless the unit there
has been landed by another source meanwhile.
-/

def NoLookInGap (f : Fetch) : Act -> Prop
  | .lane i l (.next _) =>
      (f.lanes (i, l)).pc = .top -> f.work.stopped = false ->
        forall k off len endgame why,
          (f.lanes (i, k)).pc = .failed off len endgame why -> off ∈ f.work.done
  | _ => True

section Steps

variable {job : Job} {f f' : Fetch} {p : Pool Nat (Nat × Nat)} {i l : Nat}

theorem Pc.held_failed {pc : Pc} (h : pc.writeFailed = true) :
    exists off len endgame why, pc = .failed off len endgame why := by
  cases pc with
  | failed off len endgame why => exact ⟨off, len, endgame, why, rfl⟩
  | start | ready | top | waiting | leaving | gone | fetching off len endgame | lost off
  | notHeld off len endgame | retiring off len endgame => cases h

theorem Marked.unmarked_free (hmark : Marked f) {off : Nat}
    (hgap : forall k off len endgame why,
      (f.lanes (i, k)).pc = .failed off len endgame why -> off ∈ f.work.done)
    (hdone : off ∉ f.work.done) (hunmarked : (off, i) ∉ f.work.working)
    (k : Nat) (e : Bool) : (f.lanes (i, k)).pc.held ≠ some (off, e) := by
  intro hk
  rcases hmark.marked i k off e hk with hfailed | hin
  · rcases Pc.held_failed hfailed with ⟨off', len, endgame, why, hpc⟩
    have hoff := hgap k off' len endgame why hpc
    rw [hpc] at hk
    cases hk
    exact hdone hoff
  · exact hunmarked hin

section

variable (hrep : Represents f p) (hmark : Marked f)
include hrep hmark

theorem next_marked (hpc : (f.lanes (i, l)).pc = .top) (hgap : forall k off len endgame why,
      (f.lanes (i, k)).pc = .failed off len endgame why -> off ∈ f.work.done) {holds : Holds}
    {size : Nat} {order : List Nat} (horder : order.toFinset = f.work.inFlight) {work : WorkState}
    {next : WorkState.Next} (hnext : f.work.nextUnit holds size i order = (work, next)) :
    Marked ({ f with work := work }.goto i l (Pc.after next)) := by
  have hnone : (f.lanes (i, l)).pc.held = none := by
    rw [hpc]
    rfl
  have hmoves := WorkState.nextUnit_moves hrep.clean holds size i order
  rw [hnext] at hmoves
  cases hmoves with
  | take hget hcovers hfree =>
      rename_i k off len
      have hdone : off ∉ f.work.done :=
        hrep.clean (off, len) (List.mem_of_getElem? hget)
      exact hmark.take _ rfl rfl (hmark.unmarked_free hgap hdone hfree) rfl
  | copy hin hcovers hfree =>
      rename_i off
      have hdone : off ∉ f.work.done := by
        rw [← hrep.done]
        apply p.inFlight_done
        rw [hrep.inFlight, ← horder]
        exact List.mem_toFinset.mpr hin
      exact hmark.take _ rfl rfl (hmark.unmarked_free hgap hdone hfree) rfl
  | pause hnot =>
      have hafter : (Pc.after next).held = none := by
        cases next with
        | unit off len endgame => exact absurd rfl (hnot off len endgame)
        | wait | sibling | done => rfl
      apply hmark.keep (i := i) (l := l) _ rfl
      · rw [hnone]
        exact hafter
      · intro _
        exact hafter
      · rfl

theorem moves_marked {act : LaneAct} (hgap : NoLookInGap f (.lane i l act))
    (h : Moves job f i l act f') : Marked f' := by
  cases h with
  | walk hfree hgone hleaving hfree' hgone' =>
      apply hmark.keep (i := i) (l := l) _ rfl
      · rw [Pc.held_of_free hfree]
        exact Pc.held_of_free hfree'
      · intro _
        exact Pc.held_of_free hfree'
      · rfl
  | next hpc hrunning hholds horder hnext =>
      exact next_marked hrep hmark hpc (hgap hpc hrunning) horder hnext
  | landStopped hpc hstopped | landFailed hpc hrunning hdone hdisk =>
      exact hmark.release _ rfl (by rw [hpc]; rfl) (Or.inr ⟨rfl, rfl⟩) rfl
  | landLost hpc hrunning hdone =>
      exact hmark.release _ rfl (by rw [hpc]; rfl) (Or.inl rfl) rfl
  | landWritten hpc hrunning hdone =>
      rename_i off len endgame io
      rcases landUnit_work job (f.unworked i off) i off io with ⟨_, hwork⟩
      exact hmark.release _ (landUnit_lanes job f i l off io) (by rw [hpc]; rfl)
        (Or.inl rfl) (congrArg WorkState.working hwork)
  | settle hpc | leave hpc =>
      apply hmark.keep (i := i) (l := l) _ rfl
      · rw [hpc]
        rfl
      · intro _
        rfl
      · rfl
  | busy hpc hfree' hgone' | backNotHeld hpc hfree' hgone' hmisses =>
      exact hmark.release _ rfl (by rw [hpc]; rfl) (Or.inl (Pc.held_of_free hfree'))
        (giveBack_working f.work _ _ i _)
  | lacks hpc | reject hpc hsources hphase =>
      apply hmark.keep (i := i) (l := l) _ rfl
      · rw [hpc]
        rfl
      · rw [hpc]
        intro hfailed
        cases hfailed
      · rfl
  | backFailed hpc =>
      rename_i off len endgame why local_
      exact hmark.release { f.lanes (i, l) with pc := .leaving } rfl
        (by rw [hpc]; rfl) (Or.inl rfl)
        (giveBack_working { f.work with local_ := local_ } off len i endgame)
  | backRetiring hpc =>
      exact hmark.release { f.lanes (i, l) with pc := .leaving } rfl
        (by rw [hpc]; rfl) (Or.inl rfl) (giveBack_working f.work _ _ i _)

theorem step_marked {act : Act} (hgap : NoLookInGap f act) (h : Fetch.step job f act = some f') :
    Marked f' := by
  rcases step_cases h with ⟨i, l, laneAct, hact, hlane⟩ | ⟨_, hsame⟩
  · subst hact
    exact moves_marked hrep hmark hgap (laneStep_moves hlane)
  · constructor
    · rw [hsame.lanes, hsame.working]
      exact hmark.marked
    · unfold AskedOnce
      rw [hsame.lanes]
      exact hmark.once

end

end Steps

theorem init_marked (job : Job) (keep : Keep) (done borrowed : Finset Nat)
    (availability : Option Tracker) (disk : Disk) (seeds : Option Seed) :
    Marked (Fetch.init job keep done borrowed availability disk seeds) := by
  have hnone : forall w,
      ((Fetch.init job keep done borrowed availability disk seeds).lanes w).pc.held = none := by
    intro w
    rcases init_pc job keep done borrowed availability disk seeds w with h | h
    · rw [h]
      rfl
    · rw [h]
      rfl
  constructor
  · intro i l off endgame h
    rw [hnone] at h
    cases h
  · intro i l l' off endgame endgame' h
    rw [hnone] at h
    cases h

/--
In every run in which no lane looks for work while another lane of its source
stands between a failed landing and its hand-back, no two lanes of a source hold
one unit at a time.
-/
theorem source_asked_once_outside_gap {job : Job} {keep : Keep}
    {done borrowed : Finset Nat} {availability : Option Tracker} {disk : Disk}
    {seeds : Option Seed} {opened : Bool} {f0 f : Fetch} {acts : List Act}
    (hstart : fetchSwarmInner job keep done borrowed availability disk seeds opened = .running f0)
    (hgap : Along (Fetch.step job) NoLookInGap f0 acts)
    (hrun : run? (Fetch.step job) f0 acts = some f) : AskedOnce f := by
  rcases started_eq hstart with ⟨hinit, _⟩
  subst hinit
  have hstep : forall s act s', Accounted job done s ∧ Marked s ->
      NoLookInGap s act -> Fetch.step job s act = some s' ->
      Accounted job done s' ∧ Marked s' := by
    intro s act s' hs hcond hstep
    rcases hs with ⟨hacc, hmark⟩
    have hnext := step_accounted s act s' hacc hstep
    rcases hacc with ⟨_, p, hrep, _⟩
    exact ⟨hnext, step_marked hrep hmark hcond hstep⟩
  have hinit := And.intro
    (init_accounted job keep done borrowed availability disk seeds)
    (init_marked job keep done borrowed availability disk seeds)
  have hinv := run?_invariant_along hstep hinit hgap hrun
  exact hinv.right.once

/-- One source with three lanes, a file of three units. -/
def laneJob : Job where
  sources := [⟨"north", 3, .given⟩]
  root := 0#256
  size := 3 * unitSize

def laneStart : Fetch :=
  Fetch.init laneJob ⟨false, false, false⟩ ∅ ∅ none ⟨none, fun _ => none⟩ none

def landedIo : LandIo :=
  { written := true, torn := false, kept := true, elapsed := false, recorded := true }

/-- Each lane takes a unit, and the second and third lane land theirs. -/
def laneActs : List Act :=
  [.lane 0 0 .enter, .lane 0 1 .enter, .lane 0 2 .enter,
    .query 0, .queried 0 (.ok none),
    .lane 0 0 .ready, .lane 0 1 .ready, .lane 0 2 .ready,
    .lane 0 0 (.next []), .lane 0 1 (.next [0]), .lane 0 2 (.next [0, unitSize]),
    .lane 0 1 (.land landedIo), .lane 0 2 (.land landedIo)]

theorem source_asked_once_three_lanes :
    exists f, fetchSwarmInner laneJob ⟨false, false, false⟩ ∅ ∅ none ⟨none, fun _ => none⟩
        none true = .running laneStart ∧
      run? (Fetch.step laneJob) laneStart laneActs = some f ∧ AskedOnce f := by
  have hstart : fetchSwarmInner laneJob ⟨false, false, false⟩ ∅ ∅ none
      ⟨none, fun _ => none⟩ none true = .running laneStart := rfl
  have hgap : Along (Fetch.step laneJob) NoLookInGap laneStart laneActs := by
    iterate 8 apply along_cons trivial rfl
    iterate 3
      refine along_cons ?_ rfl ?_
      · intro _ _ k off len endgame why hpc
        rcases k with _ | _ | _ | k <;> cases hpc
    iterate 2 apply along_cons trivial rfl
    trivial
  have hreach : exists f, run? (Fetch.step laneJob) laneStart laneActs = some f :=
    ⟨_, rfl⟩
  rcases hreach with ⟨f, hrun⟩
  exact ⟨f, hstart, hrun, source_asked_once_outside_gap hstart hgap hrun⟩

/--
After the first lane's write fails, the second lane takes a copy of its unit, the
first lane's hand-back takes the second lane's mark away, and the third lane takes
the unit from the queue: the source is asked for it twice at once.
-/
theorem source_asked_twice_after_failed_write :
    exists f, fetchSwarmInner laneJob ⟨false, false, false⟩ ∅ ∅ none ⟨none, fun _ => none⟩
        none true = .running laneStart ∧
      run? (Fetch.step laneJob) laneStart (laneActs ++
          [.lane 0 0 (.land { landedIo with written := false }),
            .lane 0 1 (.next [0]), .lane 0 0 .giveBack, .lane 0 2 (.next [])]) =
        some f ∧
      (f.lanes (0, 1)).pc = .fetching 0 unitSize true ∧
      (f.lanes (0, 2)).pc = .fetching 0 unitSize false ∧ ¬ AskedOnce f := by
  refine ⟨_, rfl, rfl, rfl, rfl, ?_⟩
  intro honce
  have hlanes := honce 0 1 2 0 true false rfl rfl
  cases hlanes

end Rabbithole.Swarm
