import Rabbithole.Swarm.Generations

/-!
# A refusal sticks until newer evidence

A source that refused a unit is not asked for it again until a probe that started later
comes back with a map that covers it.  A map asked for before may arrive after the refusal,
and is dropped for its generation.  A source once let go stays let go.
-/

namespace Rabbithole.Swarm

open Foundation List Function

/-!
## One source
-/

/-- The source is known by a map that does not cover the range. -/
def Source.Refused (source : Source) (off len : Nat) : Prop :=
  exists m, source.holds = some (.map m) ∧ m.covers off len = false

theorem Source.refused_of_lacks {source : Source} (h : source.holds.isSome = true)
    (off len size : Nat) : (source.lacks off len size).Refused off len := by
  unfold Source.Refused Source.lacks
  cases hholds : source.holds with
  | none =>
      rw [hholds] at h
      cases h
  | some holds =>
      cases holds with
      | all => exact ⟨_, rfl, lacksMap_not_covers (HaveMap.whole size) off len⟩
      | map m => exact ⟨_, rfl, lacksMap_not_covers m off len⟩

namespace Source.Refused

variable {source : Source} {off len : Nat}

theorem of_holds {source' : Source} (h : source.Refused off len)
    (hholds : source'.holds = source.holds) : source'.Refused off len := by
  unfold Source.Refused
  rw [hholds]
  exact h

theorem lacks (h : source.Refused off len) (offset want size : Nat) :
    (source.lacks offset want size).Refused off len := by
  rcases h with ⟨m, hholds, hcovers⟩
  refine ⟨Holds.lacksMap m offset want, ?_, ?_⟩
  · unfold Source.lacks
    rw [hholds]
    rfl
  · cases hnew : (Holds.lacksMap m offset want).covers off len with
    | false => rfl
    | true =>
        rw [covers_of_lacksMap hnew] at hcovers
        cases hcovers

theorem leaveLane (h : source.Refused off len) : source.leaveLane.Refused off len := by
  apply h.of_holds
  unfold Source.leaveLane
  simp only
  split
  · rfl
  · rfl

theorem answered (h : source.Refused off len) (size : Nat)
    (result : Except PeerError (Option HaveMap)) :
    (source.answered size result).Refused off len ∨
      exists map, result = .ok (some map) ∧ map.covers off len = true := by
  rcases h with ⟨m, hholds, hcovers⟩
  unfold Source.answered
  split
  case h_1 map =>
      split
      · cases hnew : map.covers off len with
        | true => exact Or.inr ⟨map, rfl, hnew⟩
        | false =>
            apply Or.inl
            refine ⟨Source.truncate map size, rfl, ?_⟩
            cases hcut : (Source.truncate map size).covers off len with
            | false => rfl
            | true =>
                rw [HaveMap.covers_of_truncated hcut] at hnew
                cases hnew
      · apply Or.inl
        refine ⟨m, ?_, hcovers⟩
        rw [hholds]
        rfl
  case h_2 =>
      rw [hholds]
      exact Or.inl ⟨m, rfl, hcovers⟩
  case h_3 status =>
      apply Or.inl
      split
      · exact ⟨m, hholds, hcovers⟩
      · refine ⟨m, ?_, hcovers⟩
        rw [hholds]
        rfl
  case h_4 =>
      apply Or.inl
      refine ⟨m, ?_, hcovers⟩
      rw [hholds]
      rfl

end Source.Refused

/-!
## What one step does to one source
-/

inductive SourceStep (job : Job) (f : Fetch) (act : Act) (j : Nat) (source : Source) :
    Source -> Prop where
  | same : SourceStep job f act j source source
  | lacks {l off len size : Nat} {endgame : Bool} (hact : act = .lane j l .lacks)
      (hpc : (f.lanes (j, l)).pc = .fetching off len endgame) :
      SourceStep job f act j source (source.lacks off (want job.size off) size)
  | leave : SourceStep job f act j source source.leaveLane
  | retire : SourceStep job f act j source source.retire
  | queried {size generation : Nat} {result : Except PeerError (Option HaveMap)}
      (hact : act = .queried j result) (hasking : f.probes j = .asking generation) :
      SourceStep job f act j source (source.queried size generation result)

section Steps

variable {job : Job} {f f' : Fetch} {act : Act}

theorem getElem?_modify_some {sources : List Source} {i j : Nat}
    {change : Source -> Source} {source : Source} (h : sources[j]? = some source) :
    (sources.modify i change)[j]? = some (if i = j then change source else source) := by
  rw [getElem?_modify, h]
  rfl

theorem step_source (hclean : f.work.Clean) (h : Fetch.step job f act = some f')
    {j : Nat} {source : Source} (hget : f.tracker.sources[j]? = some source) :
    exists source', f'.tracker.sources[j]? = some source' ∧
      SourceStep job f act j source source' := by
  rcases step_cases h with ⟨i, l, laneAct, hact, hlane⟩ | ⟨hact, _⟩
  · rcases (laneStep_moves hlane).told hclean with ⟨lane, _, htold⟩
    generalize hsources : f'.tracker.sources = sources at htold ⊢
    cases htold with
    | nothing hcost => exact ⟨source, hget, SourceStep.same⟩
    | lacks hpc hcost =>
        refine ⟨_, getElem?_modify_some hget, ?_⟩
        split
        · rename_i hij
          subst hij
          exact SourceStep.lacks hact hpc
        · exact SourceStep.same
    | leave hcost =>
        refine ⟨_, getElem?_modify_some hget, ?_⟩
        split
        · exact SourceStep.leave
        · exact SourceStep.same
  · cases outside_told hact h with
    | ended hidle hprobes htracker hwork | asking hidle hgeneration hprobes htracker hwork =>
        rw [htracker]
        exact ⟨source, hget, SourceStep.same⟩
    | answered hasking hprobes htracker hwork =>
        rename_i i generation result
        rw [htracker, (queried_sources f.tracker i generation result).left]
        refine ⟨_, getElem?_modify_some hget, ?_⟩
        split
        · rename_i hij
          subst hij
          exact SourceStep.queried rfl hasking
        · exact SourceStep.same
    | stopped hrunning hprobes htracker hstopped =>
        rw [htracker]
        refine ⟨source.retire, ?_, SourceStep.retire⟩
        show (f.tracker.sources.map Source.retire)[j]? = _
        rw [getElem?_map, hget]
        rfl
    | finished hphase hprobes htracker hwork =>
        rw [htracker]
        unfold Tracker.finish
        split
        · exact ⟨source, hget, SourceStep.same⟩
        · refine ⟨source.retire, ?_, SourceStep.retire⟩
          show (f.tracker.sources.map Source.retire)[j]? = _
          rw [getElem?_map, hget]
          rfl

/-- A probe that is under way was started by this step, or this step is not its own. -/
theorem step_probe (hclean : f.work.Clean) (h : Fetch.step job f act = some f')
    {j generation : Nat} (hasking : f'.probes j = .asking generation) :
    (act = .query j ∧ f.tracker.queryGeneration j = some generation ∧
      f'.tracker = f.tracker) ∨
    (f.probes j = .asking generation ∧ act ≠ .query j ∧
      forall result, act ≠ .queried j result) := by
  rcases step_cases h with ⟨i, l, laneAct, hact, hlane⟩ | ⟨hact, _⟩
  · rcases (laneStep_moves hlane).told hclean with ⟨lane, hframe, _⟩
    rw [hframe.probes] at hasking
    subst hact
    exact Or.inr ⟨hasking, by simp, by simp⟩
  · cases outside_told hact h with
    | ended hidle hprobes htracker hwork =>
        rename_i i
        rw [hprobes] at hasking
        by_cases hij : j = i
        · rw [hij, update_self] at hasking
          cases hasking
        · rw [update_of_ne hij] at hasking
          refine Or.inr ⟨hasking, ?_, by simp⟩
          intro heq
          cases heq
          exact hij rfl
    | asking hidle hgeneration hprobes htracker hwork =>
        rename_i i asked
        rw [hprobes] at hasking
        by_cases hij : j = i
        · rw [hij, update_self] at hasking
          cases hasking
          subst hij
          exact Or.inl ⟨rfl, hgeneration, htracker⟩
        · rw [update_of_ne hij] at hasking
          refine Or.inr ⟨hasking, ?_, by simp⟩
          intro heq
          cases heq
          exact hij rfl
    | answered hold hprobes htracker hwork =>
        rename_i i asked result
        rw [hprobes] at hasking
        by_cases hij : j = i
        · rw [hij, update_self] at hasking
          cases hasking
        · rw [update_of_ne hij] at hasking
          refine Or.inr ⟨hasking, by simp, ?_⟩
          intro other heq
          cases heq
          exact hij rfl
    | stopped hrunning hprobes htracker hstopped | finished hphase hprobes htracker hwork =>
        rw [hprobes] at hasking
        exact Or.inr ⟨hasking, by simp, by simp⟩

end Steps

/-!
## Queue entries are whole units

The length beside a queued offset is the length a refusal is recorded with.
-/

/-- The queue entry of a worker that took its unit from the queue. -/
def Pc.entry : Pc -> Option (Nat × Nat)
  | fetching off len false => some (off, len)
  | failed off len false _ => some (off, len)
  | notHeld off len false => some (off, len)
  | retiring off len false => some (off, len)
  | _ => none

structure WholeUnits (job : Job) (f : Fetch) : Prop where
  queued : forall unit, unit ∈ f.work.pending -> unit.2 = want job.size unit.1
  taken : forall w unit, (f.lanes w).pc.entry = some unit -> unit.2 = want job.size unit.1

variable {job : Job} {f f' : Fetch} {i l : Nat}

theorem WholeUnits.update (h : WholeUnits job f) (lane : Lane)
    (hlanes : f'.lanes = Function.update f.lanes (i, l) lane)
    (hqueued : forall unit, unit ∈ f'.work.pending ->
      unit ∈ f.work.pending ∨ (f.lanes (i, l)).pc.entry = some unit)
    (htaken : forall unit, lane.pc.entry = some unit ->
      unit ∈ f.work.pending ∨ (f.lanes (i, l)).pc.entry = some unit) : WholeUnits job f' := by
  have hwhole : forall unit,
      unit ∈ f.work.pending ∨ (f.lanes (i, l)).pc.entry = some unit ->
      unit.2 = want job.size unit.1 := by
    intro unit hunit
    rcases hunit with hunit | hunit
    · exact h.queued unit hunit
    · exact h.taken (i, l) unit hunit
  constructor
  · intro unit hunit
    exact hwhole unit (hqueued unit hunit)
  · intro w unit hunit
    rw [hlanes] at hunit
    by_cases hw : w = (i, l)
    · rw [hw, update_self] at hunit
      exact hwhole unit (htaken unit hunit)
    · rw [update_of_ne hw] at hunit
      exact h.taken w unit hunit

theorem Pc.entry_of_free {pc : Pc} (h : pc.free = true) : pc.entry = none := by
  cases pc with
  | start | ready | top | waiting | leaving | gone | lost off => rfl
  | fetching off len endgame | failed off len endgame why | notHeld off len endgame
  | retiring off len endgame => cases h

theorem giveBack_pending (s : WorkState) (off len index : Nat) (endgame : Bool)
    {unit : Nat × Nat} (h : unit ∈ (s.giveBack off len index endgame).pending) :
    unit ∈ s.pending ∨ (endgame = false ∧ unit = (off, len)) := by
  by_cases hdone : off ∈ s.done
  · rw [giveBack_done hdone] at h
    exact Or.inl (mem_of_mem_filter h)
  · cases endgame with
    | true =>
        rw [giveBack_copy hdone] at h
        exact Or.inl h
    | false =>
        rw [giveBack_original hdone] at h
        rcases mem_append.mp h with h | h
        · exact Or.inl h
        · exact Or.inr ⟨rfl, mem_singleton.mp h⟩

section

variable (h : WholeUnits job f) (lane : Lane)
  (hlanes : f'.lanes = Function.update f.lanes (i, l) lane)
include h lane hlanes

theorem giveBack_whole {off len : Nat} {endgame : Bool} (hfree : lane.pc.free = true)
    (hentry : endgame = false -> (f.lanes (i, l)).pc.entry = some (off, len))
    (hpending : f'.work.pending = (f.work.giveBack off len i endgame).pending) :
    WholeUnits job f' := by
  apply h.update lane hlanes
  · intro unit hunit
    rw [hpending] at hunit
    rcases giveBack_pending f.work off len i endgame hunit with hunit | ⟨hcopy, hunit⟩
    · exact Or.inl hunit
    · rw [hunit]
      exact Or.inr (hentry hcopy)
  · intro unit hunit
    rw [Pc.entry_of_free hfree] at hunit
    cases hunit

theorem WholeUnits.goOn (hpending : forall unit, unit ∈ f'.work.pending -> unit ∈ f.work.pending)
    (hentry : lane.pc.entry = none ∨ lane.pc.entry = (f.lanes (i, l)).pc.entry) :
    WholeUnits job f' := by
  apply h.update lane hlanes
  · intro unit hunit
    exact Or.inl (hpending unit hunit)
  · intro unit hunit
    rcases hentry with hentry | hentry
    · rw [hentry] at hunit
      cases hunit
    · rw [hentry] at hunit
      exact Or.inr hunit

end

theorem moves_wholeUnits {act : LaneAct} (hclean : f.work.Clean) (hwhole : WholeUnits job f)
    (h : Moves job f i l act f') : WholeUnits job f' := by
  cases h with
  | walk hfree hgone hleaving hfree' hgone' =>
      exact hwhole.goOn _ rfl (fun _ hunit => hunit) (Or.inl (Pc.entry_of_free hfree'))
  | next hpc hrunning hholds horder hnext =>
      rename_i order holds work next
      have hmoves := WorkState.nextUnit_moves hclean holds job.size i order
      rw [hnext] at hmoves
      cases hmoves with
      | take hget hcovers hfree =>
          rename_i k off len
          refine hwhole.update { f.lanes (i, l) with pc := .fetching off len false } rfl
            ?_ ?_
          · intro unit hunit
            exact Or.inl (mem_of_mem_eraseIdx hunit)
          · intro unit hunit
            cases hunit
            exact Or.inl (mem_of_getElem? hget)
      | copy hin hcovers hfree =>
          exact hwhole.goOn _ rfl (fun _ hunit => hunit) (Or.inl rfl)
      | pause hnot =>
          refine hwhole.goOn _ rfl (fun _ hunit => hunit) ?_
          apply Or.inl
          cases next with
          | unit off len endgame => exact absurd rfl (hnot off len endgame)
          | wait | sibling | done => rfl
  | landStopped hpc hstopped =>
      rename_i off len endgame io
      refine hwhole.goOn _ rfl (fun _ hunit => hunit) ?_
      rw [hpc]
      cases endgame with
      | true | false => exact Or.inr rfl
  | landLost hpc hrunning hdone | leave hpc =>
      exact hwhole.goOn _ rfl (fun _ hunit => hunit) (Or.inl rfl)
  | landWritten hpc hrunning hdone =>
      rename_i off len endgame io
      rcases landUnit_work job (f.unworked i off) i off io with ⟨_, hwork⟩
      refine hwhole.goOn _ (landUnit_lanes job f i l off io) ?_ (Or.inl rfl)
      intro unit hunit
      have hmem : unit ∈ (Fetch.landUnit job (f.unworked i off) i off io).work.pending :=
        hunit
      rw [hwork] at hmem
      exact mem_of_mem_filter hmem
  | landFailed hpc hrunning hdone hdisk =>
      rename_i off len endgame io disk
      refine hwhole.goOn _ rfl (fun _ hunit => hunit) ?_
      rw [hpc]
      cases endgame with
      | true | false => exact Or.inr rfl
  | settle hpc =>
      exact hwhole.goOn _ rfl (fun _ hunit => mem_of_mem_filter hunit) (Or.inl rfl)
  | busy hpc hfree' hgone' | backNotHeld hpc hfree' hgone' hmisses =>
      refine giveBack_whole hwhole _ rfl hfree' ?_ rfl
      intro hcopy
      rw [hpc, hcopy]
      rfl
  | lacks hpc =>
      rename_i off len endgame
      refine hwhole.goOn _ rfl (fun _ hunit => hunit) ?_
      rw [hpc]
      cases endgame with
      | true | false => exact Or.inr rfl
  | reject hpc hsources hphase =>
      rename_i why off len endgame tracker local_
      refine hwhole.goOn _ rfl (fun _ hunit => hunit) ?_
      rw [hpc]
      cases endgame with
      | true | false => exact Or.inr rfl
  | backFailed hpc =>
      rename_i off len endgame why local_
      have hnoted : WholeUnits job { f with work := { f.work with local_ := local_ } } :=
        ⟨hwhole.queued, hwhole.taken⟩
      refine giveBack_whole hnoted { f.lanes (i, l) with pc := .leaving } rfl rfl ?_ rfl
      intro hcopy
      show (f.lanes (i, l)).pc.entry = _
      rw [hpc, hcopy]
      rfl
  | backRetiring hpc =>
      refine giveBack_whole hwhole { f.lanes (i, l) with pc := .leaving } rfl rfl ?_ rfl
      intro hcopy
      rw [hpc, hcopy]
      rfl

/-!
## What every run keeps

A source that gave out a unit has known holds, and the generation of a probe under
way is at most that of its source.
-/

/-- What no step undoes. -/
structure Source.Later (source source' : Source) : Prop where
  generation : source.generation <= source'.generation
  known : source.holds.isSome = true -> source'.holds.isSome = true
  retired : source.retired = true -> source'.retired = true

theorem Source.Later.refl (source : Source) : source.Later source :=
  ⟨Nat.le_refl _, fun h => h, fun h => h⟩

theorem answered_later (source : Source) (size : Nat) (result : Except PeerError (Option HaveMap)) :
    source.Later (source.answered size result) := by
  refine ⟨Nat.le_of_eq (answered_generation source size result).symm, ?_, ?_⟩
  · intro hknown
    unfold Source.answered
    split
    · split <;> rfl
    · split
      · rfl
      · exact hknown
      · exact hknown
    · split
      · exact hknown
      · rfl
    · rfl
  · intro hretired
    unfold Source.answered
    split
    · split <;> exact hretired
    · split <;> exact hretired
    · split
      · rfl
      · exact hretired
    · exact hretired

theorem SourceStep.later {act : Act} {j : Nat} {source source' : Source}
    (h : SourceStep job f act j source source')
    (hmoves : satAdd source.generation 1 = source.generation + 1) : source.Later source' := by
  have hretire : source.Later source.retire := by
    refine ⟨?_, fun h => h, fun _ => rfl⟩
    show source.generation <= satAdd source.generation 1
    omega
  cases h with
  | same => exact Source.Later.refl source
  | lacks hact hpc =>
      refine ⟨?_, ?_, fun h => h⟩
      · show source.generation <= satAdd source.generation 1
        omega
      · intro hknown
        unfold Source.lacks
        rw [Option.isSome_map]
        exact hknown
  | leave =>
      unfold Source.leaveLane
      simp only
      split
      · exact ⟨hretire.generation, hretire.known, hretire.retired⟩
      · exact ⟨Nat.le_refl _, fun h => h, fun h => h⟩
  | retire => exact hretire
  | queried hact hasking =>
      unfold Source.queried
      split
      · exact answered_later source _ _
      · exact Source.Later.refl source

/-- The source has said, or is assumed to have said, what it holds. -/
def Fetch.Knows (f : Fetch) (i : Nat) : Prop :=
  exists source, f.tracker.sources[i]? = some source ∧ source.holds.isSome = true

structure Watched (job : Job) (done : Finset Nat) (f : Fetch) : Prop where
  accounted : Accounted job done f
  whole : WholeUnits job f
  bounded : Bounded (fun i => (job.laneCounts done).getD i 0) f
  known : forall i l unit, (f.lanes (i, l)).pc.held = some unit -> f.Knows i
  asking : forall i generation, f.probes i = .asking generation ->
    exists source, f.tracker.sources[i]? = some source ∧ generation <= source.generation

section Runs

variable {job : Job} {done : Finset Nat} {f f' : Fetch} {act : Act}

theorem Watched.clean (h : Watched job done f) : f.work.Clean := by
  rcases h.accounted with ⟨_, p, hrep, _⟩
  exact hrep.clean

theorem Watched.later (h : Watched job done f) (hsize : job.size <= maxFileLen)
    (hstep : Fetch.step job f act = some f') {j : Nat} {source : Source}
    (hget : f.tracker.sources[j]? = some source) :
    exists source', f'.tracker.sources[j]? = some source' ∧ source.Later source' := by
  rcases step_source h.clean hstep hget with ⟨source', hget', hchange⟩
  exact ⟨source', hget', hchange.later (h.bounded.generation_lt hsize hget)⟩

theorem withHolds_some {t : Tracker} {i : Nat} {holds : Holds} (h : t.withHolds i = some holds) :
    exists source, t.sources[i]? = some source ∧ source.holds = some holds := by
  unfold Tracker.withHolds at h
  cases hget : t.sources[i]? with
  | none =>
      rw [hget] at h
      cases h
  | some source =>
      rw [hget] at h
      refine ⟨source, rfl, ?_⟩
      unfold Source.visible at h
      simp only at h
      split at h
      · exact h
      · cases h

theorem moves_known {i l : Nat} {laneAct : LaneAct} (h : Moves job f i l laneAct f')
    {j k : Nat} {unit : Nat × Bool} (hheld : (f'.lanes (j, k)).pc.held = some unit) :
    (exists unit, (f.lanes (j, k)).pc.held = some unit) ∨
      exists holds, f.tracker.withHolds j = some holds := by
  by_cases hw : (j, k) = (i, l)
  · cases hw
    cases hold : (f.lanes (i, l)).pc.held with
    | some old => exact Or.inl ⟨old, rfl⟩
    | none =>
        cases h with
        | next hpc hrunning hholds horder hnext => exact Or.inr ⟨_, hholds⟩
        | walk hfree hgone hleaving hfree' hgone' =>
            rw [Fetch.goto_pc, Pc.held_of_free hfree'] at hheld
            cases hheld
        | settle hpc | leave hpc =>
            rw [Fetch.goto_pc] at hheld
            cases hheld
        | landStopped hpc hstopped | landLost hpc hrunning hdone | landWritten hpc hrunning hdone
        | landFailed hpc hrunning hdone hdisk | busy hpc hfree' hgone' | lacks hpc
        | reject hpc hsources hphase | backFailed hpc | backNotHeld hpc hfree' hgone' hmisses
        | backRetiring hpc => rw [hpc] at hold; cases hold
  · rcases h.lanes with ⟨_, lane, hlanes⟩
    rw [hlanes, update_of_ne hw] at hheld
    exact Or.inl ⟨unit, hheld⟩

theorem step_watched (hsize : job.size <= maxFileLen) (h : Watched job done f)
    (hstep : Fetch.step job f act = some f') : Watched job done f' := by
  have hknown : forall i, f.Knows i -> f'.Knows i := by
    intro i hsource
    rcases hsource with ⟨source, hget, hsome⟩
    rcases h.later hsize hstep hget with ⟨source', hget', hlater⟩
    exact ⟨source', hget', hlater.known hsome⟩
  constructor
  · exact step_accounted f act f' h.accounted hstep
  · rcases step_cases hstep with ⟨i, l, laneAct, _, hlane⟩ | ⟨_, hsame⟩
    · exact moves_wholeUnits h.clean h.whole (laneStep_moves hlane)
    · constructor
      · rw [hsame.pending]
        exact h.whole.queued
      · rw [hsame.lanes]
        exact h.whole.taken
  · exact step_bounded h.clean h.bounded hstep
  · intro i l unit hheld
    apply hknown
    rcases step_cases hstep with ⟨j, k, laneAct, _, hlane⟩ | ⟨_, hsame⟩
    · rcases moves_known (laneStep_moves hlane) hheld with ⟨old, hold⟩ | ⟨holds, hholds⟩
      · exact h.known i l old hold
      · rcases withHolds_some hholds with ⟨source, hget, hsome⟩
        exact ⟨source, hget, by rw [hsome]; rfl⟩
    · rw [hsame.lanes] at hheld
      exact h.known i l unit hheld
  · intro i generation hasking
    rcases step_probe h.clean hstep hasking with ⟨_, hgeneration, htracker⟩ | ⟨hold, _, _⟩
    · rw [htracker]
      unfold Tracker.queryGeneration at hgeneration
      cases hget : f.tracker.sources[i]? with
      | none =>
          rw [hget] at hgeneration
          cases hgeneration
      | some source =>
          rw [hget] at hgeneration
          refine ⟨source, rfl, ?_⟩
          simp only at hgeneration
          split at hgeneration
          · cases hgeneration
            exact Nat.le_refl _
          · cases hgeneration
    · rcases h.asking i generation hold with ⟨source, hget, hle⟩
      rcases h.later hsize hstep hget with ⟨source', hget', hlater⟩
      exact ⟨source', hget', Nat.le_trans hle hlater.generation⟩

theorem init_watched (job : Job) (keep : Keep) (done borrowed : Finset Nat)
    (availability : Option Tracker) (disk : Disk) (seeds : Option Seed) :
    Watched job done (Fetch.init job keep done borrowed availability disk seeds) := by
  constructor
  · exact init_accounted job keep done borrowed availability disk seeds
  · constructor
    · intro unit hunit
      have hmem : unit ∈ job.pending done := hunit
      unfold Job.pending at hmem
      rw [mem_reverse, mem_map] at hmem
      rcases hmem with ⟨off, _, heq⟩
      rw [← heq]
    · intro w unit hunit
      rcases init_pc job keep done borrowed availability disk seeds w with h | h
      all_goals
        rw [h] at hunit
        cases hunit
  · exact init_bounded job keep done borrowed availability disk seeds
  · intro i l unit hheld
    rcases init_pc job keep done borrowed availability disk seeds (i, l) with h | h
    all_goals
      rw [h] at hheld
      cases hheld
  · intro i generation hasking
    have hprobe : (if (job.laneCounts done).getD i 0 = 0 then Probe.ended else Probe.idle) =
        .asking generation := hasking
    split at hprobe
    · cases hprobe
    · cases hprobe

theorem run_watched {keep : Keep} {borrowed : Finset Nat}
    {availability : Option Tracker} {disk : Disk} {seeds : Option Seed}
    {opened : Bool} {f0 : Fetch} {acts : List Act}
    (hstart : fetchSwarmInner job keep done borrowed availability disk seeds opened = .running f0)
    (hrun : run? (Fetch.step job) f0 acts = some f) : Watched job done f := by
  rcases started_eq hstart with ⟨hinit, _, _, hsize⟩
  subst hinit
  exact run?_invariant (fun s a s' hs hstep => step_watched hsize hs hstep)
    (init_watched job keep done borrowed availability disk seeds) hrun

end Runs

/-!
## Since a refusal
-/

/-- No probe of the source starts or ends in these actions. -/
def ProbeFree (i : Nat) (acts : List Act) : Prop :=
  forall act, act ∈ acts -> act ≠ .query i ∧ forall result, act ≠ .queried i result

/-- A probe of the source started in these actions and is still under way. -/
def AskedSince (i : Nat) (acts : List Act) : Prop :=
  exists before during, acts = before ++ .query i :: during ∧ ProbeFree i during

/-- A probe of the source started and ended in these actions, with a map that covers the range. -/
def Evidence (i off len : Nat) (acts : List Act) : Prop :=
  exists before during after map,
    acts = before ++ .query i :: during ++ .queried i (.ok (some map)) :: after ∧
      ProbeFree i during ∧ map.covers off len = true

theorem AskedSince.append {i : Nat} {acts : List Act} {act : Act}
    (h : AskedSince i acts) (hquery : act ≠ .query i)
    (hqueried : forall result, act ≠ .queried i result) : AskedSince i (acts ++ [act]) := by
  rcases h with ⟨before, during, heq, hfree⟩
  refine ⟨before, during ++ [act], ?_, ?_⟩
  · rw [heq]
    simp
  · intro other hother
    rcases mem_append.mp hother with hold | hnew
    · exact hfree other hold
    · rw [mem_singleton.mp hnew]
      exact ⟨hquery, hqueried⟩

theorem Evidence.append {i off len : Nat} {acts : List Act} (h : Evidence i off len acts)
    (act : Act) : Evidence i off len (acts ++ [act]) := by
  rcases h with ⟨before, during, after, map, heq, hfree, hcovers⟩
  refine ⟨before, during, after ++ [act], map, ?_, hfree, hcovers⟩
  rw [heq]
  simp

/-- What holds after a refusal: the unit stays refused, and older probes count for nothing. -/
def StillRefused (i off len : Nat) (acts : List Act) (f : Fetch) : Prop :=
  exists source, f.tracker.sources[i]? = some source ∧ source.Refused off len ∧
    forall generation, f.probes i = .asking generation ->
      generation < source.generation ∨ AskedSince i acts

section Since

variable {job : Job} {done : Finset Nat} {f f' : Fetch} {act : Act} {i off len : Nat}

variable {acts : List Act}

theorem SourceStep.refused {source source' : Source} (h : SourceStep job f act i source source')
    (hrefused : source.Refused off len)
    (hprobe : forall generation, f.probes i = .asking generation ->
      generation < source.generation ∨ AskedSince i acts) :
    source'.Refused off len ∨ Evidence i off len (acts ++ [act]) := by
  cases h with
  | same => exact Or.inl hrefused
  | lacks hact hpc => exact Or.inl (hrefused.lacks _ _ _)
  | leave => exact Or.inl hrefused.leaveLane
  | retire => exact Or.inl (hrefused.of_holds rfl)
  | queried hact hasking =>
      rename_i size generation result
      unfold Source.queried
      split
      · rename_i hcurrent
        rcases hprobe generation hasking with hstale | hasked
        · omega
        · rcases hrefused.answered size result with hstill | ⟨map, hresult, hcovers⟩
          · exact Or.inl hstill
          · apply Or.inr
            rcases hasked with ⟨before, during, heq, hfree⟩
            refine ⟨before, during, [], map, ?_, hfree, hcovers⟩
            rw [heq, hact, hresult]
      · exact Or.inl hrefused

theorem step_since (hsize : job.size <= maxFileLen) (hwatched : Watched job done f)
    (h : Evidence i off len acts ∨ StillRefused i off len acts f)
    (hstep : Fetch.step job f act = some f') :
    Evidence i off len (acts ++ [act]) ∨ StillRefused i off len (acts ++ [act]) f' := by
  rcases h with hevidence | ⟨source, hget, hrefused, hprobe⟩
  · exact Or.inl (hevidence.append act)
  · rcases step_source hwatched.clean hstep hget with ⟨source', hget', hchange⟩
    have hlater := hchange.later (hwatched.bounded.generation_lt hsize hget)
    rcases hchange.refused hrefused hprobe with hstill | hevidence
    · refine Or.inr ⟨source', hget', hstill, ?_⟩
      intro generation hasking
      rcases step_probe hwatched.clean hstep hasking with
        ⟨hact, _, _⟩ | ⟨hold, hquery, hqueried⟩
      · apply Or.inr
        refine ⟨acts, [], by rw [hact], ?_⟩
        intro other hother
        cases hother
      · rcases hprobe generation hold with hstale | hasked
        · exact Or.inl (Nat.lt_of_lt_of_le hstale hlater.generation)
        · exact Or.inr (hasked.append hquery hqueried)
    · exact Or.inl hevidence

theorem lacks_refuses (hsize : job.size <= maxFileLen) (hwatched : Watched job done f)
    {l len' : Nat} {endgame : Bool} (hpc : (f.lanes (i, l)).pc = .fetching off len' endgame)
    (hstep : Fetch.step job f (.lane i l .lacks) = some f') :
    StillRefused i off (want job.size off) [] f' := by
  have hheld : (f.lanes (i, l)).pc.held = some (off, endgame) := by
    rw [hpc]
    rfl
  rcases hwatched.known i l _ hheld with ⟨source, hget, hknown⟩
  have hmoves := hwatched.bounded.generation_lt hsize hget
  have hf' : f' = ({ f with
      tracker := f.tracker.lacks i off (want job.size off) } : Fetch).goto i l
      (.notHeld off len' endgame) := by
    simp only [Fetch.step, Fetch.laneStep, hpc] at hstep
    exact (Option.some.inj hstep).symm
  rw [hf']
  refine ⟨source.lacks off (want job.size off) f.tracker.size, ?_,
    Source.refused_of_lacks hknown _ _ _, ?_⟩
  · show (f.tracker.sources.modify i _)[i]? = _
    rw [getElem?_modify_some hget]
    exact congrArg some (if_pos rfl)
  · intro generation hasking
    rcases hwatched.asking i generation hasking with ⟨other, hother, hle⟩
    rw [hget] at hother
    cases hother
    apply Or.inl
    show generation < satAdd source.generation 1
    omega

theorem next_covered (hwatched : Watched job done f) {l len' : Nat} {endgame : Bool}
    {order : List Nat} (hstep : Fetch.step job f (.lane i l (.next order)) = some f')
    (htaken : (f'.lanes (i, l)).pc = .fetching off len' endgame) :
    exists holds, f.tracker.withHolds i = some holds ∧
      holds.covers off (want job.size off) = true := by
  cases laneStep_moves hstep with
  | walk hfree hgone hleaving hfree' hgone' =>
      rw [Fetch.goto_pc] at htaken
      rw [htaken] at hfree'
      cases hfree'
  | next hpc hrunning hholds horder hnext =>
      rename_i holds work next
      refine ⟨holds, hholds, ?_⟩
      rw [Fetch.goto_pc] at htaken
      have hmoves := WorkState.nextUnit_moves hwatched.clean holds job.size i order
      rw [hnext] at hmoves
      cases hmoves with
      | take hget hcovers hfree =>
          cases htaken
          have hwhole := hwatched.whole.queued _ (mem_of_getElem? hget)
          simp only at hwhole
          rw [← hwhole]
          exact hcovers
      | copy hin hcovers hfree =>
          cases htaken
          exact hcovers
      | pause hnot =>
          cases next with
          | unit off len endgame => exact absurd rfl (hnot off len endgame)
          | wait | sibling | done => cases htaken

theorem StillRefused.not_covered (h : StillRefused i off len acts f) {holds : Holds}
    (hholds : f.tracker.withHolds i = some holds) : holds.covers off len = false := by
  rcases h with ⟨source, hget, ⟨m, hmap, hcovers⟩, _⟩
  rcases withHolds_some hholds with ⟨other, hother, hsome⟩
  rw [hget] at hother
  cases hother
  rw [hmap] at hsome
  cases hsome
  exact hcovers

end Since

theorem retired_stays {job : Job} {done : Finset Nat} {f f' : Fetch} {i : Nat}
    (hsize : job.size <= maxFileLen) (hwatched : Watched job done f) {acts : List Act}
    (hrun : run? (Fetch.step job) f acts = some f') {source : Source}
    (hget : f.tracker.sources[i]? = some source) (hretired : source.retired = true) :
    exists source', f'.tracker.sources[i]? = some source' ∧ source'.retired = true := by
  have hstep : forall s act s',
      (Watched job done s ∧ exists source, s.tracker.sources[i]? = some source ∧
        source.retired = true) ->
      Fetch.step job s act = some s' ->
      Watched job done s' ∧ exists source, s'.tracker.sources[i]? = some source ∧
        source.retired = true := by
    intro s act s' hs hstep
    rcases hs with ⟨hwatch, other, hother, hout⟩
    rcases hwatch.later hsize hstep hother with ⟨source', hget', hlater⟩
    exact ⟨step_watched hsize hwatch hstep, source', hget', hlater.retired hout⟩
  exact (run?_invariant hstep ⟨hwatched, source, hget, hretired⟩ hrun).right

theorem withHolds_of_retired {t : Tracker} {i : Nat} {source : Source}
    (hget : t.sources[i]? = some source) (hretired : source.retired = true) :
    source.live = false ∧ t.withHolds i = none := by
  have hlive : source.live = false := by
    unfold Source.live
    rw [hretired]
    simp
  refine ⟨hlive, ?_⟩
  unfold Tracker.withHolds
  rw [hget]
  unfold Source.visible
  simp [hlive]

/--
Once a source refused a unit, `next_unit` gives it to no lane of the source until a probe
started after that has come back with a map covering it; and a source that was retired is
never live again and never shows holds again.
-/
theorem refusal_sticks {job : Job} {keep : Keep} {done borrowed : Finset Nat}
    {availability : Option Tracker} {disk : Disk} {seeds : Option Seed}
    {opened : Bool} {f0 f1 : Fetch} {front : List Act}
    (hstart : fetchSwarmInner job keep done borrowed availability disk seeds opened = .running f0)
    (hfront : run? (Fetch.step job) f0 front = some f1) (i : Nat) :
    (forall l off len endgame f2 acts f3 l' order f4 len' endgame',
      (f1.lanes (i, l)).pc = .fetching off len endgame ->
      Fetch.step job f1 (.lane i l .lacks) = some f2 ->
      run? (Fetch.step job) f2 acts = some f3 ->
      Fetch.step job f3 (.lane i l' (.next order)) = some f4 ->
      (f4.lanes (i, l')).pc = .fetching off len' endgame' ->
      Evidence i off (want job.size off) acts) ∧
    (forall source, f1.tracker.sources[i]? = some source -> source.retired = true ->
      forall acts f2, run? (Fetch.step job) f1 acts = some f2 ->
      exists source', f2.tracker.sources[i]? = some source' ∧
        source'.live = false ∧ f2.tracker.withHolds i = none) := by
  rcases started_eq hstart with ⟨_, _, _, hsize⟩
  have hwatched := run_watched hstart hfront
  constructor
  · intro l off len endgame f2 acts f3 l' order f4 len' endgame' hpc hlacks hacts hnext
      htaken
    have hrefused := lacks_refuses hsize hwatched hpc hlacks
    have hhistory : forall past s act s',
        (Watched job done s ∧ (Evidence i off (want job.size off) past ∨
          StillRefused i off (want job.size off) past s)) ->
        Fetch.step job s act = some s' ->
        Watched job done s' ∧ (Evidence i off (want job.size off) (past ++ [act]) ∨
          StillRefused i off (want job.size off) (past ++ [act]) s') := by
      intro past s act s' hs hstep
      exact ⟨step_watched hsize hs.left hstep, step_since hsize hs.left hs.right hstep⟩
    have hsince := run?_history hhistory
      ⟨step_watched hsize hwatched hlacks, Or.inr hrefused⟩ hacts
    rw [nil_append] at hsince
    rcases hsince with ⟨hwatched3, hevidence | hstill⟩
    · exact hevidence
    · rcases next_covered hwatched3 hnext htaken with ⟨holds, hholds, hcovers⟩
      rw [hstill.not_covered hholds] at hcovers
      cases hcovers
  · intro source hget hretired acts f2 hacts
    rcases retired_stays hsize hwatched hacts hget hretired with ⟨source', hget', hout⟩
    exact ⟨source', hget', withHolds_of_retired hget' hout⟩

/-- One source with one lane, a file of one unit. -/
def askJob : Job where
  sources := [⟨"north", 1, .given⟩]
  root := 0#256
  size := 1

def askStart : Fetch :=
  Fetch.init askJob ⟨false, false, false⟩ ∅ ∅ none ⟨none, fun _ => none⟩ none

/-- The source is asked for the unit. -/
def askFront : List Act :=
  [.lane 0 0 .enter, .query 0, .queried 0 (.ok none), .lane 0 0 .ready,
    .lane 0 0 (.next [])]

/-- The unit goes back, and a new probe finds that the source holds it by now. -/
def askAgain : List Act :=
  [.lane 0 0 .giveBack, .query 0,
    .queried 0 (.ok (some { unit := haveUnit, bits := [1#8] }))]

theorem refusal_sticks_until_asked :
    Evidence 0 0 (want askJob.size 0) askAgain ∧
      exists f, run? (Fetch.step askJob) askStart (askFront ++ [.stop true]) = some f ∧
        f.tracker.withHolds 0 = none := by
  have hstart : fetchSwarmInner askJob ⟨false, false, false⟩ ∅ ∅ none
      ⟨none, fun _ => none⟩ none true = .running askStart := rfl
  constructor
  · have hreach : exists f1 f2 f3 f4,
        run? (Fetch.step askJob) askStart askFront = some f1 ∧
        (f1.lanes (0, 0)).pc = .fetching 0 1 false ∧
        Fetch.step askJob f1 (.lane 0 0 .lacks) = some f2 ∧
        run? (Fetch.step askJob) f2 askAgain = some f3 ∧
        Fetch.step askJob f3 (.lane 0 0 (.next [])) = some f4 ∧
        (f4.lanes (0, 0)).pc = .fetching 0 1 false :=
      ⟨_, _, _, _, rfl, rfl, rfl, rfl, rfl, rfl⟩
    rcases hreach with ⟨f1, f2, f3, f4, hfront, hpc, hlacks, hacts, hnext, htaken⟩
    exact (refusal_sticks hstart hfront 0).left 0 0 1 false f2 askAgain f3 0 [] f4 1 false
      hpc hlacks hacts hnext htaken
  · have hreach : exists f source,
        run? (Fetch.step askJob) askStart (askFront ++ [.stop true]) = some f ∧
        f.tracker.sources[0]? = some source ∧ source.retired = true :=
      ⟨_, _, rfl, rfl, rfl⟩
    rcases hreach with ⟨f, source, hfront, hget, hretired⟩
    rcases (refusal_sticks hstart hfront 0).right source hget hretired [] f rfl with
      ⟨_, _, _, hnone⟩
    exact ⟨f, hfront, hnone⟩

end Rabbithole.Swarm
