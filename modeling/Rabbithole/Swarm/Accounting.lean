import Rabbithole.Swarm.Partition

/-!
# What a run lands

A fetch counts the units each source served, and the progress events it sent.  Every run keeps
both in step with the set of done units: once the queues are empty, each unit that was not done
at the start was landed once.
-/

namespace Rabbithole.Swarm

open Foundation List

/-- What a step of a worker does to the landed units and the two counts. -/
inductive Landing (f : Fetch) (i : Nat) (f' : Fetch) : Prop where
  | none (hdone : f'.work.done = f.work.done)
      (hserved : f'.work.served = f.work.served)
      (hprogress : f'.progress = f.progress)
  | unit (off : Nat) (hfresh : off ∉ f.work.done)
      (hdone : f'.work.done = insert off f.work.done)
      (hserved : f'.work.served = f.work.served.modify i (fun units => units + 1))
      (hprogress : f'.progress.map UnitDone.offset =
        f.progress.map UnitDone.offset ++ [off])

section Steps

variable {job : Job} {f f' : Fetch} {i l : Nat} {act : LaneAct}

theorem giveBack_frame (s : WorkState) (off len index : Nat) (endgame : Bool) :
    (s.giveBack off len index endgame).done = s.done ∧
      (s.giveBack off len index endgame).served = s.served ∧
      (s.giveBack off len index endgame).borrowed = s.borrowed ∧
      (s.giveBack off len index endgame).persistTo = s.persistTo := by
  by_cases hdone : off ∈ s.done
  · rw [giveBack_done hdone]
    exact ⟨rfl, rfl, rfl, rfl⟩
  · cases endgame with
    | true =>
        rw [giveBack_copy hdone]
        exact ⟨rfl, rfl, rfl, rfl⟩
    | false =>
        rw [giveBack_original hdone]
        exact ⟨rfl, rfl, rfl, rfl⟩

theorem nextUnit_frame {s work : WorkState} {next : WorkState.Next}
    {holds : Holds} {size index : Nat} {order : List Nat} (hclean : s.Clean)
    (h : s.nextUnit holds size index order = (work, next)) :
    work.done = s.done ∧ work.served = s.served ∧ work.borrowed = s.borrowed ∧
      work.persistTo = s.persistTo := by
  have hmoves := WorkState.nextUnit_moves hclean holds size index order
  rw [h] at hmoves
  cases hmoves with
  | take hget hcovers hfree | copy horder hcovers hfree | pause hnext => exact ⟨rfl, rfl, rfl, rfl⟩

theorem Moves.landing (hclean : f.work.Clean) (h : Moves job f i l act f') : Landing f i f' := by
  cases h with
  | walk hfree hgone hleaving hfree' hgone' | landStopped hpc hstopped | landLost hpc hrunning hdone
  | landFailed hpc hrunning hdone hdisk | settle hpc | lacks hpc | reject hpc hsources hphase
  | leave hpc => exact Landing.none rfl rfl rfl
  | next hpc hrunning hholds horder hnext =>
      rcases nextUnit_frame hclean hnext with ⟨hdone, hserved, -⟩
      exact Landing.none hdone hserved rfl
  | landWritten hpc hrunning hdone =>
      rename_i off len endgame io
      rcases landUnit_work job (f.unworked i off) i off io with ⟨_, hwork⟩
      rcases landUnit_frame job (f.unworked i off) i off io with
        ⟨_, _, _, hprogress⟩
      refine Landing.unit off hdone ?_ ?_ hprogress
      · exact congrArg WorkState.done hwork
      · exact congrArg WorkState.served hwork
  | busy hpc hfree' hgone' | backNotHeld hpc hfree' hgone' hmisses | backRetiring hpc =>
      rcases giveBack_frame f.work _ _ i _ with ⟨hdone, hserved, -⟩
      exact Landing.none hdone hserved rfl
  | backFailed hpc =>
      rcases giveBack_frame _ _ _ i _ with ⟨hdone, hserved, -⟩
      exact Landing.none hdone hserved rfl

theorem Moves.lanes (h : Moves job f i l act f') :
    (f.lanes (i, l)).pc ≠ .gone ∧
      exists lane, f'.lanes = Function.update f.lanes (i, l) lane := by
  cases h with
  | walk hfree hgone hleaving hfree' hgone' => exact ⟨hgone, _, rfl⟩
  | next hpc hrunning hholds horder hnext | landStopped hpc hstopped | landLost hpc hrunning hdone
  | landFailed hpc hrunning hdone hdisk | settle hpc | busy hpc hfree' hgone' | lacks hpc
  | reject hpc hsources hphase | backFailed hpc | backNotHeld hpc hfree' hgone' hmisses
  | backRetiring hpc | leave hpc => exact ⟨by simp [hpc], _, rfl⟩
  | landWritten hpc hrunning hdone =>
      exact ⟨by simp [hpc], _, landUnit_lanes job f i l _ _⟩

end Steps

/-!
## The steps that are no worker's

A probe and the drop of the fetch leave the queues, the lanes and the counts
alone.
-/

/-- What every step outside the workers keeps. -/
structure SameWork (f f' : Fetch) : Prop where
  pending : f'.work.pending = f.work.pending
  inFlight : f'.work.inFlight = f.work.inFlight
  working : f'.work.working = f.work.working
  done : f'.work.done = f.work.done
  served : f'.work.served = f.work.served
  borrowed : f'.work.borrowed = f.work.borrowed
  lanes : f'.lanes = f.lanes
  progress : f'.progress = f.progress
  seeds : f'.seeds = f.seeds

variable {job : Job} {f f' : Fetch} {start : Finset Nat}

theorem step_cases {act : Act} (h : Fetch.step job f act = some f') :
    (exists i l laneAct, act = .lane i l laneAct ∧
      Fetch.laneStep job f i l laneAct = some f') ∨
    ((forall i l laneAct, act ≠ .lane i l laneAct) ∧ SameWork f f') := by
  cases act with
  | lane i l laneAct => exact Or.inl ⟨i, l, laneAct, rfl, h⟩
  | query i =>
      refine Or.inr ⟨by simp, ?_⟩
      simp only [Fetch.step] at h
      split at h
      · split at h
        all_goals
          cases h
          exact ⟨rfl, rfl, rfl, rfl, rfl, rfl, rfl, rfl, rfl⟩
      · cases h
  | queried i result | finish phase =>
      refine Or.inr ⟨by simp, ?_⟩
      simp only [Fetch.step] at h
      split at h
      · cases h
        exact ⟨rfl, rfl, rfl, rfl, rfl, rfl, rfl, rfl, rfl⟩
      · cases h
  | stop recorded =>
      refine Or.inr ⟨by simp, ?_⟩
      simp only [Fetch.step] at h
      split at h
      · cases h
      · cases h
        exact ⟨rfl, rfl, rfl, rfl, rfl, rfl, rfl, rfl, rfl⟩

theorem step_refines {act : Act} {p : Pool Nat (Nat × Nat)} (hrep : Represents f p)
    (h : Fetch.step job f act = some f') :
    exists p', Represents f' p' ∧ Relation.ReflGen Pool.Move p p' := by
  rcases step_cases h with ⟨i, l, laneAct, _, hlane⟩ | ⟨_, hsame⟩
  · exact moves_refines hrep (laneStep_moves hlane)
  · refine ⟨p, ?_, Relation.ReflGen.refl⟩
    constructor
    · rw [hsame.pending]
      exact hrep.pending
    · rw [hsame.inFlight]
      exact hrep.inFlight
    · rw [hsame.done]
      exact hrep.done
    · rw [hsame.lanes]
      exact hrep.held
    · rw [hsame.lanes, hsame.done]
      exact hrep.lost

/-!
## The counts
-/

theorem sum_modify_succ (counts : List Nat) (i : Nat) (hi : i < counts.length) :
    (counts.modify i (fun units => units + 1)).sum = counts.sum + 1 := by
  induction counts generalizing i with
  | nil => cases hi
  | cons count rest ih =>
      cases i with
      | zero =>
          simp only [modify_zero_cons, sum_cons]
          omega
      | succ i =>
          have hrest := ih i (by simpa using hi)
          simp only [modify_succ_cons, sum_cons, hrest]
          omega

/-- The counts of a run that started with some units done. -/
structure Accounts (job : Job) (start : Finset Nat) (f : Fetch) : Prop where
  served_length : f.work.served.length = job.sources.length
  lane_source : forall i l, (f.lanes (i, l)).pc ≠ .gone -> i < job.sources.length
  landed_nodup : (f.progress.map UnitDone.offset).Nodup
  landed_fresh : forall off, off ∈ f.progress.map UnitDone.offset -> off ∉ start
  landed_done : forall off, off ∈ f.work.done <->
    off ∈ start ∨ off ∈ f.progress.map UnitDone.offset
  served_sum : f.work.served.sum = f.progress.length

theorem Accounts.of_same (h : Accounts job start f) (hdone : f'.work.done = f.work.done)
    (hserved : f'.work.served = f.work.served) (hprogress : f'.progress = f.progress)
    (hlanes : forall i l, (f'.lanes (i, l)).pc ≠ .gone -> i < job.sources.length) :
    Accounts job start f' where
  served_length := by
    rw [hserved]
    exact h.served_length
  lane_source := hlanes
  landed_nodup := by
    rw [hprogress]
    exact h.landed_nodup
  landed_fresh := by
    rw [hprogress]
    exact h.landed_fresh
  landed_done := by
    rw [hprogress, hdone]
    exact h.landed_done
  served_sum := by
    rw [hserved, hprogress]
    exact h.served_sum

theorem Accounts.of_landed {i off : Nat} (h : Accounts job start f) (hi : i < job.sources.length)
    (hfresh : off ∉ f.work.done) (hdone : f'.work.done = insert off f.work.done)
    (hserved : f'.work.served = f.work.served.modify i (fun units => units + 1))
    (hprogress : f'.progress.map UnitDone.offset = f.progress.map UnitDone.offset ++ [off])
    (hlanes : forall i l, (f'.lanes (i, l)).pc ≠ .gone -> i < job.sources.length) :
    Accounts job start f' where
  served_length := by
    rw [hserved, length_modify]
    exact h.served_length
  lane_source := hlanes
  landed_nodup := by
    rw [hprogress, nodup_append]
    refine ⟨h.landed_nodup, nodup_singleton off, ?_⟩
    intro v hv v' hv' heq
    rw [mem_singleton] at hv'
    rw [heq, hv'] at hv
    exact hfresh ((h.landed_done off).mpr (Or.inr hv))
  landed_fresh := by
    intro v hv hstart
    rw [hprogress, mem_append, mem_singleton] at hv
    rcases hv with hv | hv
    · exact h.landed_fresh v hv hstart
    · rw [hv] at hstart
      exact hfresh ((h.landed_done off).mpr (Or.inl hstart))
  landed_done := by
    intro v
    rw [hprogress, hdone, Finset.mem_insert, mem_append, mem_singleton,
      h.landed_done v]
    constructor
    · intro hv
      rcases hv with hv | hv | hv
      · exact Or.inr (Or.inr hv)
      · exact Or.inl hv
      · exact Or.inr (Or.inl hv)
    · intro hv
      rcases hv with hv | hv | hv
      · exact Or.inr (Or.inl hv)
      · exact Or.inr (Or.inr hv)
      · exact Or.inl hv
  served_sum := by
    have hlen : f'.progress.length = f.progress.length + 1 := by
      have hcount := congrArg List.length hprogress
      simpa using hcount
    rw [hserved, sum_modify_succ _ _ (by rw [h.served_length]; exact hi), hlen,
      h.served_sum]

theorem step_accounts {act : Act} (hclean : f.work.Clean) (hacc : Accounts job start f)
    (h : Fetch.step job f act = some f') : Accounts job start f' := by
  rcases step_cases h with ⟨i, l, laneAct, _, hlane⟩ | ⟨_, hsame⟩
  · have hmoves := laneStep_moves hlane
    rcases hmoves.lanes with ⟨hgone, lane, hlanes⟩
    have hi : i < job.sources.length := hacc.lane_source i l hgone
    have hsource : forall j k, (f'.lanes (j, k)).pc ≠ .gone ->
        j < job.sources.length := by
      intro j k hpc
      rw [hlanes] at hpc
      by_cases hw : (j, k) = (i, l)
      · cases hw
        exact hi
      · rw [Function.update_of_ne hw] at hpc
        exact hacc.lane_source j k hpc
    cases hmoves.landing hclean with
    | none hdone hserved hprogress =>
        exact hacc.of_same hdone hserved hprogress hsource
    | unit off hfresh hdone hserved hprogress =>
        exact hacc.of_landed hi hfresh hdone hserved hprogress hsource
  · apply hacc.of_same hsame.done hsame.served hsame.progress
    rw [hsame.lanes]
    exact hacc.lane_source

/-!
## Where a fetch starts
-/

theorem Job.unitOffsets_nodup (job : Job) : job.unitOffsets.Nodup := by
  unfold Job.unitOffsets
  apply Nodup.map
  · intro a b hab
    exact Nat.eq_of_mul_eq_mul_right (by decide) hab
  · exact nodup_range

theorem Job.pending_offsets (job : Job) (done : Finset Nat) :
    (job.pending done).map Prod.fst =
      (job.unitOffsets.filter (fun off => decide (off ∉ done))).reverse := by
  unfold Job.pending
  rw [map_reverse, map_map]
  congr 1
  exact map_id _

/-- The work pool a fetch starts as. -/
def Job.pool (job : Job) (done : Finset Nat) : Pool Nat (Nat × Nat) :=
  Pool.fresh ((job.pending done).map Prod.fst) done
    (by
      rw [job.pending_offsets]
      exact nodup_reverse.mpr (job.unitOffsets_nodup.filter _))
    (by
      intro off hoff
      rw [job.pending_offsets, mem_reverse, mem_filter] at hoff
      simpa using hoff.right)

theorem Job.mem_pool_units (job : Job) (done : Finset Nat) (off : Nat) :
    off ∈ (job.pool done).units <-> off ∈ job.unitOffsets ∨ off ∈ done := by
  rw [Pool.mem_units]
  show off ∈ (job.pending done).map Prod.fst ∨ off ∈ (∅ : Finset Nat) ∨ off ∈ done <-> _
  rw [job.pending_offsets, mem_reverse, mem_filter]
  by_cases hdone : off ∈ done
  · simp [hdone]
  · simp [hdone]

section Start

variable (job : Job) (keep : Keep) (done borrowed : Finset Nat)
variable (availability : Option Tracker) (disk : Disk) (seeds : Option Seed)

theorem init_pc (w : Nat × Nat) :
    ((Fetch.init job keep done borrowed availability disk seeds).lanes w).pc = .start ∨
      ((Fetch.init job keep done borrowed availability disk seeds).lanes w).pc = .gone := by
  show (if w.2 < (job.laneCounts done).getD w.1 0 then Pc.start else Pc.gone) = _ ∨ _
  split
  · exact Or.inl rfl
  · exact Or.inr (if_neg (by assumption))

theorem init_represents : Represents (Fetch.init job keep done borrowed availability disk seeds)
      (job.pool done) where
  pending := rfl
  inFlight := rfl
  done := rfl
  held := by
    intro w
    rcases init_pc job keep done borrowed availability disk seeds w with h | h
    · rw [h]
      rfl
    · rw [h]
      rfl
  lost := by
    intro w off hpc
    rcases init_pc job keep done borrowed availability disk seeds w with h | h
    all_goals
      rw [h] at hpc
      cases hpc

theorem init_accounts :
    Accounts job done (Fetch.init job keep done borrowed availability disk seeds) where
  served_length := length_replicate
  lane_source := by
    intro i l hpc
    by_contra hge
    apply hpc
    have hcount : (job.laneCounts done).getD i 0 = 0 := by
      have hlen : (job.laneCounts done).length <= i := by
        unfold Job.laneCounts
        rw [length_map]
        omega
      rw [getD_eq_getElem?_getD, getElem?_eq_none hlen]
      rfl
    show (if l < (job.laneCounts done).getD i 0 then Pc.start else Pc.gone) = Pc.gone
    rw [hcount]
    rfl
  landed_nodup := nodup_nil
  landed_fresh := by
    intro off hoff
    cases hoff
  landed_done := by
    intro off
    show off ∈ done <-> off ∈ done ∨ off ∈ []
    simp
  served_sum := by
    show (List.replicate job.sources.length 0).sum = 0
    simp

end Start

/-!
## Every run
-/

variable {job : Job} {f : Fetch} {start : Finset Nat}

theorem started_eq {keep : Keep} {done borrowed : Finset Nat} {availability : Option Tracker}
    {disk : Disk} {seeds : Option Seed} {opened : Bool}
    (h : fetchSwarmInner job keep done borrowed availability disk seeds opened = .running f) :
    f = Fetch.init job keep done borrowed availability disk seeds ∧
      job.sources ≠ [] ∧ 0 < job.size ∧ job.size <= maxFileLen := by
  unfold fetchSwarmInner at h
  split at h
  · cases h
  · rename_i hsources
    split at h
    · cases h
    · split at h
      · cases h
      · rename_i hsize hopen
        cases h
        refine ⟨rfl, hsources, by omega, ?_⟩
        exact Nat.le_of_not_lt (fun hlt => hopen (Or.inr hlt))

/-- The pool and the counts of a state reached in a run. -/
def Accounted (job : Job) (start : Finset Nat) (f : Fetch) : Prop :=
  Accounts job start f ∧
    exists p, Represents f p ∧ p.units = (job.pool start).units

theorem step_accounted (f : Fetch) (act : Act) (f' : Fetch) (hinv : Accounted job start f)
    (h : Fetch.step job f act = some f') : Accounted job start f' := by
  rcases hinv with ⟨hacc, p, hrep, hunits⟩
  rcases step_refines hrep h with ⟨p', hrep', hmove⟩
  refine ⟨step_accounts hrep.clean hacc h, p', hrep', ?_⟩
  rw [Pool.units_eq_of_reaches hmove]
  exact hunits

theorem init_accounted (job : Job) (keep : Keep) (done borrowed : Finset Nat)
    (availability : Option Tracker) (disk : Disk) (seeds : Option Seed) :
    Accounted job done (Fetch.init job keep done borrowed availability disk seeds) :=
  ⟨init_accounts job keep done borrowed availability disk seeds, job.pool done,
    init_represents job keep done borrowed availability disk seeds, rfl⟩

theorem run_accounted {keep : Keep} {done borrowed : Finset Nat} {availability : Option Tracker}
    {disk : Disk} {seeds : Option Seed} {opened : Bool} {f0 : Fetch} {acts : List Act}
    (hstart : fetchSwarmInner job keep done borrowed availability disk seeds opened =
      .running f0) (hrun : run? (Fetch.step job) f0 acts = some f) : Accounted job done f := by
  rcases started_eq hstart with ⟨hinit, _⟩
  subst hinit
  exact run?_invariant step_accounted
    (init_accounted job keep done borrowed availability disk seeds) hrun

/-- The offsets queued for a source to take. -/
def WorkState.queued (s : WorkState) : List Nat :=
  s.pending.map Prod.fst

/-- Each unit of the file in one collection, and one original holder for each in flight. -/
structure UnitsAccounted (job : Job) (f : Fetch) : Prop where
  somewhere : forall off, off ∈ job.unitOffsets ->
    off ∈ f.work.done ∨ off ∈ f.work.queued ∨ off ∈ f.work.inFlight
  done_not_queued : forall off, off ∈ f.work.done -> off ∉ f.work.queued
  done_not_inFlight : forall off, off ∈ f.work.done -> off ∉ f.work.inFlight
  queued_not_inFlight : forall off, off ∈ f.work.queued -> off ∉ f.work.inFlight
  queued_once : f.work.queued.Nodup
  one_holder : forall off, off ∈ f.work.inFlight ->
    ∃! w : Nat × Nat, (f.lanes w).pc.held = some (off, false)

theorem Represents.unitsAccounted {p : Pool Nat (Nat × Nat)} (hrep : Represents f p)
    (hunits : p.units = (job.pool start).units) : UnitsAccounted job f := by
  have hqueued : f.work.queued = p.pending := hrep.pending.symm
  constructor
  · intro off hoff
    have hmem : off ∈ p.units := by
      rw [hunits, job.mem_pool_units]
      exact Or.inl hoff
    rw [Pool.mem_units, ← hqueued, hrep.inFlight, hrep.done] at hmem
    rcases hmem with h | h | h
    · exact Or.inr (Or.inl h)
    · exact Or.inr (Or.inr h)
    · exact Or.inl h
  · intro off hdone hoff
    rw [hqueued] at hoff
    rw [← hrep.done] at hdone
    exact p.pending_done off hoff hdone
  · intro off hdone hoff
    rw [← hrep.inFlight] at hoff
    rw [← hrep.done] at hdone
    exact p.inFlight_done off hoff hdone
  · intro off hoff hin
    rw [hqueued] at hoff
    rw [← hrep.inFlight] at hin
    exact p.pending_inFlight off hoff hin
  · rw [hqueued]
    exact p.pending_nodup
  · intro off hoff
    rw [← hrep.inFlight] at hoff
    rcases p.holder off hoff with ⟨w, hw⟩
    refine ⟨w, ?_, ?_⟩
    · show (f.lanes w).pc.held = _
      rw [← hrep.held, hw]
    · intro w' hw'
      have hheld : p.held w' = some (off, false) := by
        rw [hrep.held]
        exact hw'
      exact p.holder_unique off w' w hheld hw

theorem report_ok {r : FetchReport} (h : Fetch.report job f = .ok r) :
    f.work.pending = [] ∧ f.work.inFlight = ∅ := by
  unfold Fetch.report at h
  split at h
  · cases h
  · split at h
    · rename_i hdrained
      simpa [WorkState.drained] using hdrained
    · cases h

/-- Units of the file that were not done when the fetch started. -/
def Job.unitsLeft (job : Job) (done : Finset Nat) : Nat :=
  (job.unitOffsets.filter (fun off => decide (off ∉ done))).length

theorem Accounted.landed_all (h : Accounted job start f) (hpending : f.work.pending = [])
    (hinFlight : f.work.inFlight = ∅) :
    (forall off, off ∈ job.unitOffsets -> off ∈ f.work.done) ∧
      f.work.served.sum = job.unitsLeft start := by
  rcases h with ⟨hacc, p, hrep, hunits⟩
  have hdone : forall off, off ∈ f.work.done <->
      off ∈ job.unitOffsets ∨ off ∈ start := by
    intro off
    rw [← job.mem_pool_units, ← hunits, Pool.mem_units, hrep.pending, hrep.inFlight,
      hrep.done, hpending, hinFlight]
    simp
  refine ⟨fun off hoff => (hdone off).mpr (Or.inl hoff), ?_⟩
  have hperm : Perm (f.progress.map UnitDone.offset)
      (job.unitOffsets.filter (fun off => decide (off ∉ start))) := by
    rw [perm_ext_iff_of_nodup hacc.landed_nodup (job.unitOffsets_nodup.filter _)]
    intro off
    rw [mem_filter, decide_eq_true_iff]
    constructor
    · intro hoff
      have hfresh := hacc.landed_fresh off hoff
      rcases (hdone off).mp ((hacc.landed_done off).mpr (Or.inr hoff)) with h | h
      · exact ⟨h, hfresh⟩
      · exact absurd h hfresh
    · intro hoff
      rcases (hacc.landed_done off).mp ((hdone off).mpr (Or.inl hoff.left)) with h | h
      · exact absurd h hoff.right
      · exact h
  have hlength := hperm.length_eq
  rw [length_map] at hlength
  rw [hacc.served_sum, hlength]
  rfl

/--
In every run of a fetch, from any set of done units, each unit is in one collection, with one
original holder while in flight, and is landed at most once; a fetch that returns `Ok` has
landed exactly the units that were missing.
-/
theorem fetch_accounts_every_unit {job : Job} {keep : Keep}
    {done borrowed : Finset Nat} {availability : Option Tracker} {disk : Disk}
    {seeds : Option Seed} {opened : Bool} {f0 f : Fetch} {acts : List Act}
    (hstart : fetchSwarmInner job keep done borrowed availability disk seeds opened = .running f0)
    (hrun : run? (Fetch.step job) f0 acts = some f) :
    UnitsAccounted job f ∧
      (f.progress.map UnitDone.offset).Nodup ∧
      (forall off, off ∈ f.progress.map UnitDone.offset -> off ∉ done) ∧
      (forall r, Fetch.report job f = .ok r ->
        (forall off, off ∈ job.unitOffsets -> off ∈ f.work.done) ∧
          f.work.served.sum = job.unitsLeft done) := by
  have hinv := run_accounted hstart hrun
  rcases hinv with ⟨hacc, p, hrep, hunits⟩
  refine ⟨hrep.unitsAccounted hunits, hacc.landed_nodup, hacc.landed_fresh, ?_⟩
  intro r hr
  rcases report_ok hr with ⟨hpending, hinFlight⟩
  exact Accounted.landed_all ⟨hacc, p, hrep, hunits⟩ hpending hinFlight

/-- Two sources race for the only unit of a one-byte file. -/
def raceJob : Job where
  sources := [⟨"north", 1, .given⟩, ⟨"south", 1, .given⟩]
  root := 0#256
  size := 1

def raceStart : Fetch :=
  Fetch.init raceJob ⟨false, false, false⟩ ∅ ∅ none ⟨none, fun _ => none⟩ none

def raceActs : List Act :=
  let io : LandIo :=
    { written := true, torn := false, kept := true, elapsed := false, recorded := true }
  [.lane 0 0 .enter, .lane 1 0 .enter, .query 0, .queried 0 (.ok none), .query 1,
    .queried 1 (.ok none), .lane 0 0 .ready, .lane 1 0 .ready, .lane 0 0 (.next []),
    .lane 1 0 (.next [0]), .lane 1 0 (.land io), .lane 0 0 (.land io),
    .lane 0 0 .settle]

theorem fetch_accounts_race :
    exists f r, fetchSwarmInner raceJob ⟨false, false, false⟩ ∅ ∅ none ⟨none, fun _ => none⟩
        none true = .running raceStart ∧
      run? (Fetch.step raceJob) raceStart raceActs = some f ∧
      Fetch.report raceJob f = .ok r ∧
      UnitsAccounted raceJob f ∧ f.work.served.sum = raceJob.unitsLeft ∅ := by
  have hstart : fetchSwarmInner raceJob ⟨false, false, false⟩ ∅ ∅ none
      ⟨none, fun _ => none⟩ none true = .running raceStart := rfl
  have hreach : exists f, run? (Fetch.step raceJob) raceStart raceActs = some f ∧
      exists r, Fetch.report raceJob f = .ok r := ⟨_, rfl, _, rfl⟩
  rcases hreach with ⟨f, hrun, r, hr⟩
  have hall := fetch_accounts_every_unit hstart hrun
  exact ⟨f, r, hstart, hrun, hr, hall.left, (hall.right.right.right r hr).right⟩

end Rabbithole.Swarm
