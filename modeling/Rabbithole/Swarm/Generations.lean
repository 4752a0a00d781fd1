import Mathlib.Algebra.Order.BigOperators.Ring.Finset
import Rabbithole.Swarm.Accounting

/-!
# Generations of a source

The generation of a source moves with every refusal and retirement, and it saturates.  A
lane is let go after a few refusals, so the generation stays far below the point where it
would stop moving: each refusal makes it larger.
-/

namespace Rabbithole.Swarm

open Foundation List Function Finset

/-!
## What a worker's step tells the tracker

Only a refusal and the end of a lane reach the sources; each has a price, which the
lane pays once.
-/

/-- Refusals and departures a lane has told but not counted among its misses. -/
def Pc.price : Pc -> Nat
  | notHeld _ _ _ => 1
  | gone => 1
  | _ => 0

/-- How far past `maxMisses` a lane standing here can be. -/
def Pc.slack : Pc -> Nat
  | notHeld _ _ _ => 1
  | leaving => 1
  | gone => 2
  | _ => 0

/-- What a lane has cost its source's generation so far. -/
def Lane.cost (lane : Lane) : Nat :=
  lane.misses + lane.pc.price

def Lane.Within (lane : Lane) : Prop :=
  lane.cost <= maxMisses + lane.pc.slack

/-- What a worker's step leaves alone, and that its lane stays within its budget. -/
structure LaneFrame (f : Fetch) (i l : Nat) (lane : Lane) (f' : Fetch) : Prop where
  active : (f.lanes (i, l)).pc ≠ .gone
  lanes : f'.lanes = Function.update f.lanes (i, l) lane
  probes : f'.probes = f.probes
  phase : f'.tracker.phase = f.tracker.phase
  stopped : f'.work.stopped = f.work.stopped
  within : (f.lanes (i, l)).Within -> lane.Within

/-- What a worker's step does to the sources of the tracker. -/
inductive Told (job : Job) (f : Fetch) (i l : Nat) (lane : Lane) :
    LaneAct -> List Source -> Prop where
  | nothing {act : LaneAct} (hcost : lane.cost = (f.lanes (i, l)).cost) :
      Told job f i l lane act f.tracker.sources
  | lacks {off len : Nat} {endgame : Bool}
      (hpc : (f.lanes (i, l)).pc = .fetching off len endgame)
      (hcost : lane.cost = (f.lanes (i, l)).cost + 1) :
      Told job f i l lane .lacks
        (f.tracker.sources.modify i
          (fun source => source.lacks off (want job.size off) f.tracker.size))
  | leave (hcost : lane.cost = (f.lanes (i, l)).cost + 1) :
      Told job f i l lane .leave (f.tracker.sources.modify i Source.leaveLane)

theorem nextUnit_stopped {s work : WorkState} {next : WorkState.Next}
    {holds : Holds} {size index : Nat} {order : List Nat} (hclean : s.Clean)
    (h : s.nextUnit holds size index order = (work, next)) : work.stopped = s.stopped := by
  have hmoves := WorkState.nextUnit_moves hclean holds size index order
  rw [h] at hmoves
  cases hmoves with
  | take hget hcovers hfree => rfl
  | copy horder hcovers hfree => rfl
  | pause hnext => rfl

theorem giveBack_stopped (s : WorkState) (off len index : Nat) (endgame : Bool) :
    (s.giveBack off len index endgame).stopped = s.stopped := by
  by_cases hdone : off ∈ s.done
  · rw [giveBack_done hdone]
    rfl
  · cases endgame with
    | true => rw [giveBack_copy hdone]
    | false => rw [giveBack_original hdone]

theorem leaveLane_sources (t : Tracker) (index : Nat) :
    (t.leaveLane index).sources = t.sources.modify index Source.leaveLane ∧
      (t.leaveLane index).phase = t.phase := by
  unfold Tracker.leaveLane
  simp only
  split
  · split
    all_goals exact ⟨rfl, rfl⟩
  · exact ⟨rfl, rfl⟩

section Lanes

variable {job : Job} {f f' : Fetch} {i l : Nat} {act : LaneAct}

theorem told_nothing {pc : Pc} (lane : Lane) (hpc : (f.lanes (i, l)).pc = pc)
    (hactive : pc ≠ .gone) (hlanes : f'.lanes = Function.update f.lanes (i, l) lane)
    (hprobes : f'.probes = f.probes) (hphase : f'.tracker.phase = f.tracker.phase)
    (hstopped : f'.work.stopped = f.work.stopped)
    (hsources : f'.tracker.sources = f.tracker.sources)
    (hmisses : lane.misses = (f.lanes (i, l)).misses)
    (hprice : lane.pc.price = pc.price) (hslack : pc.slack <= lane.pc.slack) :
    exists lane, LaneFrame f i l lane f' ∧
      Told job f i l lane act f'.tracker.sources := by
  subst hpc
  have hcost : lane.cost = (f.lanes (i, l)).cost := by
    unfold Lane.cost
    rw [hmisses, hprice]
  refine ⟨lane, ⟨hactive, hlanes, hprobes, hphase, hstopped, ?_⟩, ?_⟩
  · intro hwithin
    unfold Lane.Within at hwithin ⊢
    rw [hcost]
    omega
  · rw [hsources]
    exact Told.nothing hcost

theorem Pc.price_of_free {pc : Pc} (hfree : pc.free = true) (hgone : pc ≠ .gone) :
    pc.price = 0 := by
  cases pc with
  | gone => exact absurd rfl hgone
  | notHeld off len endgame => cases hfree
  | start | ready | top | waiting | leaving | fetching off len endgame | lost off
  | failed off len endgame why | retiring off len endgame => rfl

theorem Pc.slack_of_free {pc : Pc} (hfree : pc.free = true) (hgone : pc ≠ .gone)
    (hleaving : pc ≠ .leaving) : pc.slack = 0 := by
  cases pc with
  | gone => exact absurd rfl hgone
  | leaving => exact absurd rfl hleaving
  | notHeld off len endgame => cases hfree
  | start | ready | top | waiting | fetching off len endgame | lost off | failed off len endgame why
  | retiring off len endgame => rfl

theorem told_holding {off len : Nat} {endgame : Bool} (lane : Lane)
    (hpc : (f.lanes (i, l)).pc = .fetching off len endgame)
    (hlanes : f'.lanes = Function.update f.lanes (i, l) lane)
    (hprobes : f'.probes = f.probes) (hphase : f'.tracker.phase = f.tracker.phase)
    (hstopped : f'.work.stopped = f.work.stopped)
    (hsources : f'.tracker.sources = f.tracker.sources)
    (hmisses : lane.misses = (f.lanes (i, l)).misses) (hprice : lane.pc.price = 0) :
    exists lane, LaneFrame f i l lane f' ∧
      Told job f i l lane act f'.tracker.sources :=
  told_nothing lane hpc nofun hlanes hprobes hphase hstopped hsources hmisses hprice
    (Nat.zero_le _)

theorem Moves.told (hclean : f.work.Clean) (h : Moves job f i l act f') :
    exists lane, LaneFrame f i l lane f' ∧
      Told job f i l lane act f'.tracker.sources := by
  cases h with
  | walk hfree hgone hleaving hfree' hgone' =>
      rename_i pc'
      refine told_nothing { f.lanes (i, l) with pc := pc' } rfl hgone rfl rfl rfl rfl rfl rfl
        ?_ ?_
      · rw [Pc.price_of_free hfree hgone]
        exact Pc.price_of_free hfree' hgone'
      · rw [Pc.slack_of_free hfree hgone hleaving]
        exact Nat.zero_le _
  | next hpc hrunning hholds horder hnext =>
      rename_i order holds work next
      have hprice : (Pc.after next).price = 0 := by
        cases next with
        | unit off len endgame | wait | sibling | done => rfl
      exact told_nothing { f.lanes (i, l) with pc := Pc.after next } hpc nofun rfl rfl rfl
        (nextUnit_stopped hclean hnext) rfl rfl hprice (Nat.zero_le _)
  | landStopped hpc hstopped | landLost hpc hrunning hdone | landFailed hpc hrunning hdone hdisk =>
      exact told_holding _ hpc rfl rfl rfl rfl rfl rfl rfl
  | landWritten hpc hrunning hdone =>
      rename_i off len endgame io
      rcases landUnit_work job (f.unworked i off) i off io with ⟨_, hwork⟩
      rcases landUnit_frame job (f.unworked i off) i off io with
        ⟨_, hprobes, htracker, _⟩
      refine told_holding _ hpc (landUnit_lanes job f i l off io) hprobes ?_ ?_ ?_ rfl rfl
      · show (Fetch.landUnit job (f.unworked i off) i off io).tracker.phase = _
        rw [htracker]
        rfl
      · show (Fetch.landUnit job (f.unworked i off) i off io).work.stopped = _
        rw [hwork]
        rfl
      · show (Fetch.landUnit job (f.unworked i off) i off io).tracker.sources = _
        rw [htracker]
        rfl
  | settle hpc =>
      exact told_nothing { f.lanes (i, l) with pc := .top } hpc nofun rfl rfl rfl rfl rfl rfl
        rfl (Nat.zero_le _)
  | busy hpc hfree' hgone' =>
      exact told_holding _ hpc rfl rfl rfl (giveBack_stopped f.work _ _ i _) rfl rfl
        (Pc.price_of_free hfree' hgone')
  | lacks hpc =>
      rename_i off len endgame
      refine ⟨{ f.lanes (i, l) with pc := .notHeld off len endgame },
        ⟨?_, rfl, rfl, rfl, rfl, ?_⟩, Told.lacks hpc ?_⟩
      · rw [hpc]
        intro h
        cases h
      · intro hwithin
        unfold Lane.Within Lane.cost at hwithin ⊢
        rw [hpc] at hwithin
        simp only [Pc.price, Pc.slack] at hwithin ⊢
        omega
      · unfold Lane.cost
        rw [hpc]
        rfl
  | reject hpc hsources hphase =>
      exact told_holding _ hpc rfl rfl hphase rfl hsources rfl rfl
  | backFailed hpc =>
      rename_i off len endgame why local_
      exact told_nothing { f.lanes (i, l) with pc := .leaving } hpc nofun rfl rfl rfl
        (giveBack_stopped { f.work with local_ := local_ } off len i endgame) rfl rfl rfl
        (Nat.zero_le _)
  | backNotHeld hpc hfree' hgone' hmisses =>
      rename_i off len endgame pc'
      have hprice := Pc.price_of_free hfree' hgone'
      refine ⟨{ pc := pc', misses := (f.lanes (i, l)).misses + 1 },
        ⟨?_, rfl, rfl, rfl, giveBack_stopped f.work off len i endgame, ?_⟩,
        Told.nothing ?_⟩
      · rw [hpc]
        intro h
        cases h
      · intro hwithin
        unfold Lane.Within Lane.cost at hwithin ⊢
        rw [hpc] at hwithin
        simp only [Pc.price, Pc.slack] at hwithin
        rw [hprice]
        rcases hmisses with hleaving | hmisses
        · rw [hleaving]
          exact hwithin
        · simp only
          omega
      · unfold Lane.cost
        rw [hpc, hprice]
        rfl
  | backRetiring hpc =>
      rename_i off len endgame
      exact told_nothing { f.lanes (i, l) with pc := .leaving } hpc nofun rfl rfl rfl
        (giveBack_stopped f.work off len i endgame) rfl rfl rfl (Nat.zero_le _)
  | leave hpc =>
      rcases leaveLane_sources f.tracker i with ⟨hsources, hphase⟩
      refine ⟨{ f.lanes (i, l) with pc := .gone }, ⟨?_, rfl, rfl, hphase, rfl, ?_⟩, ?_⟩
      · rw [hpc]
        intro h
        cases h
      · intro hwithin
        unfold Lane.Within Lane.cost at hwithin ⊢
        rw [hpc] at hwithin
        simp only [Pc.price, Pc.slack] at hwithin ⊢
        omega
      · show Told job f i l _ _ (f.tracker.leaveLane i).sources
        rw [hsources]
        apply Told.leave
        unfold Lane.cost
        rw [hpc]
        rfl

end Lanes

/-!
## What the other steps tell the tracker
-/

theorem queried_sources (t : Tracker) (index generation : Nat)
    (result : Except PeerError (Option HaveMap)) :
    (t.queried index generation result).sources =
        t.sources.modify index (fun source => source.queried t.size generation result) ∧
      (t.queried index generation result).phase = t.phase := by
  unfold Tracker.queried
  cases hget : t.sources[index]? with
  | none =>
      refine ⟨?_, rfl⟩
      rw [modify_eq_set_getElem?, hget]
      rfl
  | some source =>
      rw [modify_eq_set_getElem?, hget]
      simp only
      split
      · exact ⟨rfl, rfl⟩
      · rename_i hstale
        refine ⟨?_, rfl⟩
        have hsame : source.queried t.size generation result = source := by
          unfold Source.queried
          exact if_neg hstale
        show t.sources = t.sources.set index (source.queried t.size generation result)
        rw [hsame]
        rcases List.getElem?_eq_some_iff.mp hget with ⟨hlt, heq⟩
        rw [← heq]
        exact (set_getElem_self hlt).symm

/-- A step outside the workers, as probes and sources see it. -/
inductive OutsideTold (f : Fetch) : Act -> Fetch -> Prop where
  | ended {i : Nat} {f' : Fetch} (hidle : f.probes i = .idle)
      (hprobes : f'.probes = Function.update f.probes i .ended)
      (htracker : f'.tracker = f.tracker) (hwork : f'.work = f.work) :
      OutsideTold f (.query i) f'
  | asking {i generation : Nat} {f' : Fetch} (hidle : f.probes i = .idle)
      (hgeneration : f.tracker.queryGeneration i = some generation)
      (hprobes : f'.probes = Function.update f.probes i (.asking generation))
      (htracker : f'.tracker = f.tracker) (hwork : f'.work = f.work) :
      OutsideTold f (.query i) f'
  | answered {i generation : Nat} {result : Except PeerError (Option HaveMap)}
      {f' : Fetch} (hasking : f.probes i = .asking generation)
      (hprobes : f'.probes = Function.update f.probes i .idle)
      (htracker : f'.tracker = f.tracker.queried i generation result)
      (hwork : f'.work = f.work) : OutsideTold f (.queried i result) f'
  | stopped {recorded : Bool} {f' : Fetch} (hrunning : f.work.stopped = false)
      (hprobes : f'.probes = f.probes) (htracker : f'.tracker = f.tracker.stopSources)
      (hstopped : f'.work.stopped = true) : OutsideTold f (.stop recorded) f'
  | finished {phase : AvailabilityPhase} {f' : Fetch} (hphase : phase.terminal = true)
      (hprobes : f'.probes = f.probes) (htracker : f'.tracker = f.tracker.finish phase)
      (hwork : f'.work = f.work) : OutsideTold f (.finish phase) f'

theorem outside_told {job : Job} {f f' : Fetch} {act : Act}
    (hact : forall i l laneAct, act ≠ .lane i l laneAct)
    (h : Fetch.step job f act = some f') : OutsideTold f act f' := by
  cases act with
  | lane i l laneAct => exact absurd rfl (hact i l laneAct)
  | query i =>
      simp only [Fetch.step] at h
      split at h
      · rename_i hidle
        split at h
        · cases h
          exact OutsideTold.ended hidle rfl rfl rfl
        · rename_i generation hgeneration
          cases h
          exact OutsideTold.asking hidle hgeneration rfl rfl rfl
      · cases h
  | queried i result =>
      simp only [Fetch.step] at h
      split at h
      · rename_i generation hasking
        cases h
        exact OutsideTold.answered hasking rfl rfl rfl
      · cases h
  | stop recorded =>
      simp only [Fetch.step] at h
      split at h
      · cases h
      · rename_i hrunning
        cases h
        exact OutsideTold.stopped (by simpa using hrunning) rfl rfl rfl
  | finish phase =>
      simp only [Fetch.step] at h
      split at h
      · rename_i hphase
        cases h
        exact OutsideTold.finished hphase rfl rfl rfl
      · cases h

/-!
## The bound
-/

theorem satAdd_le (a b : Nat) : satAdd a b <= a + b := by
  unfold satAdd
  exact Nat.min_le_left _ _

theorem leaveLane_generation (source : Source) :
    source.leaveLane.generation <= source.generation + 1 := by
  unfold Source.leaveLane
  simp only
  split
  · exact satAdd_le _ _
  · exact Nat.le_succ _

theorem answered_generation (source : Source) (size : Nat)
    (result : Except PeerError (Option HaveMap)) :
    (source.answered size result).generation = source.generation := by
  unfold Source.answered
  split
  · split <;> rfl
  · split <;> rfl
  · split <;> rfl
  · rfl

theorem queried_generation (source : Source) (size generation : Nat)
    (result : Except PeerError (Option HaveMap)) :
    (source.queried size generation result).generation = source.generation := by
  unfold Source.queried
  split
  · exact answered_generation source size result
  · rfl

/-- What the lanes of a source, a stop and a finish have cost its generation so far. -/
def spent (lanes : Nat -> Nat) (f : Fetch) (i : Nat) : Nat :=
  (Finset.range (lanes i)).sum (fun l => (f.lanes (i, l)).cost) +
    f.work.stopped.toNat + f.tracker.phase.terminal.toNat

structure Bounded (lanes : Nat -> Nat) (f : Fetch) : Prop where
  within : forall w, (f.lanes w).Within
  inside : forall i l, (f.lanes (i, l)).pc ≠ .gone -> l < lanes i
  generation : forall i source, f.tracker.sources[i]? = some source ->
    source.generation <= spent lanes f i

theorem sum_cost_update (lanes : Nat × Nat -> Lane) (i l n : Nat) (lane : Lane) (hl : l < n) :
    (Finset.range n).sum (fun k => (Function.update lanes (i, l) lane (i, k)).cost) +
        (lanes (i, l)).cost = (Finset.range n).sum (fun k => (lanes (i, k)).cost) + lane.cost := by
  have hmem : l ∈ Finset.range n := Finset.mem_range.mpr hl
  have hnew := Finset.add_sum_erase (Finset.range n)
    (fun k => (Function.update lanes (i, l) lane (i, k)).cost) hmem
  have hold := Finset.add_sum_erase (Finset.range n) (fun k => (lanes (i, k)).cost) hmem
  have hrest : ((Finset.range n).erase l).sum
        (fun k => (Function.update lanes (i, l) lane (i, k)).cost) =
      ((Finset.range n).erase l).sum (fun k => (lanes (i, k)).cost) := by
    apply sum_congr rfl
    intro k hk
    have hne : (i, k) ≠ (i, l) := by
      intro heq
      cases heq
      exact (mem_erase.mp hk).left rfl
    rw [update_of_ne hne]
  simp only [update_self] at hnew
  omega

theorem sum_cost_other (lanes : Nat × Nat -> Lane) (i j l n : Nat) (lane : Lane) (hij : j ≠ i) :
    (Finset.range n).sum (fun k => (Function.update lanes (i, l) lane (j, k)).cost) =
      (Finset.range n).sum (fun k => (lanes (j, k)).cost) := by
  apply sum_congr rfl
  intro k _
  have hne : (j, k) ≠ (i, l) := by
    intro heq
    cases heq
    exact hij rfl
  rw [update_of_ne hne]

section Steps

variable {job : Job} {lanes : Nat -> Nat} {f f' : Fetch} {i l : Nat}

section

variable {lane : Lane} (h : LaneFrame f i l lane f')
include h

theorem LaneFrame.within_all (hwithin : forall w, (f.lanes w).Within) :
    forall w, (f'.lanes w).Within := by
  intro w
  rw [h.lanes]
  by_cases hw : w = (i, l)
  · rw [hw, update_self]
    exact h.within (hwithin (i, l))
  · rw [update_of_ne hw]
    exact hwithin w

theorem LaneFrame.inside_all (hinside : forall i l, (f.lanes (i, l)).pc ≠ .gone -> l < lanes i) :
    forall i l, (f'.lanes (i, l)).pc ≠ .gone -> l < lanes i := by
  intro j k hpc
  rw [h.lanes] at hpc
  by_cases hw : (j, k) = (i, l)
  · cases hw
    exact hinside i l h.active
  · rw [update_of_ne hw] at hpc
    exact hinside j k hpc

theorem LaneFrame.spent_eq (hl : l < lanes i) (j : Nat) :
    spent lanes f' j + (if j = i then (f.lanes (i, l)).cost else 0) =
      spent lanes f j + (if j = i then lane.cost else 0) := by
  unfold spent
  rw [h.lanes, h.stopped, h.phase]
  by_cases hij : j = i
  · rw [if_pos hij, if_pos hij, hij]
    have hsum := sum_cost_update f.lanes i l (lanes i) lane hl
    omega
  · rw [if_neg hij, if_neg hij, sum_cost_other f.lanes i j l (lanes j) lane hij]

theorem lane_generation {act : LaneAct} (htold : Told job f i l lane act f'.tracker.sources)
    (hbound : Bounded lanes f) (j : Nat) (source : Source)
    (hget : f'.tracker.sources[j]? = some source) : source.generation <= spent lanes f' j := by
  have hl : l < lanes i := hbound.inside i l h.active
  have hspent := h.spent_eq hl j
  -- a source modified in place moves its generation by at most the price paid
  have hmodify : forall change : Source -> Source,
      (forall s, (change s).generation <= s.generation + 1) ->
      lane.cost = (f.lanes (i, l)).cost + 1 ->
      f'.tracker.sources = f.tracker.sources.modify i change ->
      source.generation <= spent lanes f' j := by
    intro change hchange hcost hsources
    rw [hsources, getElem?_modify] at hget
    cases hold : f.tracker.sources[j]? with
    | none =>
        rw [hold] at hget
        cases hget
    | some old =>
        rw [hold] at hget
        have hgen := hbound.generation j old hold
        by_cases hij : i = j
        · have hnew : change old = source := by simpa [hij] using hget
          have hstep := hchange old
          rw [hnew] at hstep
          rw [if_pos hij.symm, if_pos hij.symm] at hspent
          omega
        · have hnew : old = source := by simpa [hij] using hget
          rw [← hnew]
          rw [if_neg (Ne.symm hij), if_neg (Ne.symm hij)] at hspent
          omega
  generalize hsources : f'.tracker.sources = sources at htold
  cases htold with
  | nothing hcost =>
      rw [hsources] at hget
      have hgen := hbound.generation j source hget
      rw [hcost] at hspent
      omega
  | lacks hpc hcost =>
      exact hmodify _ (fun s => satAdd_le s.generation 1) hcost hsources
  | leave hcost => exact hmodify _ leaveLane_generation hcost hsources

end

theorem lane_bounded {act : LaneAct} (hclean : f.work.Clean) (hbound : Bounded lanes f)
    (h : Moves job f i l act f') : Bounded lanes f' := by
  rcases h.told hclean with ⟨lane, hframe, htold⟩
  constructor
  · exact hframe.within_all hbound.within
  · exact hframe.inside_all hbound.inside
  · exact lane_generation hframe htold hbound

theorem retired_generation {sources : List Source} {source : Source}
    (h : (sources.map Source.retire)[i]? = some source) :
    exists old, sources[i]? = some old ∧ source = old.retire := by
  rw [getElem?_map] at h
  cases hold : sources[i]? with
  | none =>
      rw [hold] at h
      cases h
  | some old =>
      rw [hold] at h
      exact ⟨old, rfl, (Option.some.inj h).symm⟩

theorem answered_sources_generation {t : Tracker} {j generation : Nat} {source : Source}
    {result : Except PeerError (Option HaveMap)}
    (h : (t.queried i generation result).sources[j]? = some source) :
    exists old, t.sources[j]? = some old ∧ source.generation = old.generation := by
  rw [(queried_sources t i generation result).left, getElem?_modify] at h
  cases hold : t.sources[j]? with
  | none =>
      rw [hold] at h
      cases h
  | some old =>
      rw [hold] at h
      refine ⟨old, rfl, ?_⟩
      by_cases hij : i = j
      · have hnew : old.queried t.size generation result = source := by
          simpa [hij] using h
        rw [← hnew]
        exact queried_generation old _ _ _
      · have hnew : old = source := by simpa [hij] using h
        rw [hnew]

theorem outside_bounded {act : Act} (hsame : SameWork f f') (hbound : Bounded lanes f)
    (h : OutsideTold f act f') : Bounded lanes f' := by
  constructor
  · rw [hsame.lanes]
    exact hbound.within
  · rw [hsame.lanes]
    exact hbound.inside
  · intro j source hget
    have hgen := hbound.generation j
    unfold spent at hgen ⊢
    rw [hsame.lanes]
    cases h with
    | ended hidle hprobes htracker hwork | asking hidle hgeneration hprobes htracker hwork =>
        rw [htracker] at hget ⊢
        rw [hwork]
        exact hgen source hget
    | answered hasking hprobes htracker hwork =>
        rename_i i generation result
        have hphase := (queried_sources f.tracker i generation result).right
        rw [htracker] at hget
        rcases answered_sources_generation hget with ⟨old, hold, hsource⟩
        rw [htracker, hphase, hwork, hsource]
        exact hgen old hold
    | stopped hrunning hprobes htracker hstopped =>
        rw [htracker] at hget ⊢
        rcases retired_generation hget with ⟨old, hold, hretired⟩
        have hadd := satAdd_le old.generation 1
        have hbefore := hgen old hold
        rw [hrunning] at hbefore
        rw [hretired, hstopped]
        show satAdd old.generation 1 <= _ + true.toNat + f.tracker.phase.terminal.toNat
        simp only [Bool.toNat_true, Bool.toNat_false] at hbefore ⊢
        omega
    | finished hterminal hprobes htracker hwork =>
        rename_i phase
        rw [htracker] at hget ⊢
        rw [hwork]
        unfold Tracker.finish at hget ⊢
        by_cases hend : f.tracker.phase.terminal = true
        · rw [if_pos hend] at hget ⊢
          exact hgen source hget
        · rw [if_neg hend] at hget ⊢
          rcases retired_generation hget with ⟨old, hold, hretired⟩
          have hadd := satAdd_le old.generation 1
          have hbefore := hgen old hold
          rw [Bool.not_eq_true] at hend
          rw [hend] at hbefore
          rw [hretired]
          show satAdd old.generation 1 <= _ + _ + phase.terminal.toNat
          rw [hterminal]
          simp only [Bool.toNat_true, Bool.toNat_false] at hbefore ⊢
          omega

theorem step_bounded {act : Act} (hclean : f.work.Clean) (hbound : Bounded lanes f)
    (h : Fetch.step job f act = some f') : Bounded lanes f' := by
  rcases step_cases h with ⟨i, l, laneAct, _, hlane⟩ | ⟨hact, hsame⟩
  · exact lane_bounded hclean hbound (laneStep_moves hlane)
  · exact outside_bounded hsame hbound (outside_told hact h)

end Steps

theorem init_bounded (job : Job) (keep : Keep) (done borrowed : Finset Nat)
    (availability : Option Tracker) (disk : Disk) (seeds : Option Seed) :
    Bounded (fun i => (job.laneCounts done).getD i 0)
      (Fetch.init job keep done borrowed availability disk seeds) := by
  constructor
  · intro w
    have hmisses : ((Fetch.init job keep done borrowed availability disk seeds).lanes
        w).misses = 0 := rfl
    unfold Lane.Within Lane.cost
    rw [hmisses]
    rcases init_pc job keep done borrowed availability disk seeds w with h | h
    · rw [h]
      decide
    · rw [h]
      decide
  · intro i l hpc
    by_contra hge
    exact hpc (if_neg hge)
  · intro i source hget
    rcases mem_map.mp (mem_of_getElem? hget) with ⟨count, _, heq⟩
    rw [← heq]
    exact Nat.zero_le _

theorem Bounded.spent_le {lanes : Nat -> Nat} {f : Fetch} (h : Bounded lanes f) (i : Nat) :
    spent lanes f i <= lanes i * (maxMisses + 2) + 2 := by
  have hcost : forall l, l ∈ Finset.range (lanes i) ->
      (f.lanes (i, l)).cost <= maxMisses + 2 := by
    intro l _
    have hwithin := h.within (i, l)
    unfold Lane.Within at hwithin
    have hslack : (f.lanes (i, l)).pc.slack <= 2 := by
      unfold Pc.slack
      split <;> omega
    omega
  have hsum := sum_le_card_nsmul _ _ _ hcost
  rw [card_range, nsmul_eq_mul, Nat.cast_id] at hsum
  have hstopped := Bool.toNat_le f.work.stopped
  have hterminal := Bool.toNat_le f.tracker.phase.terminal
  unfold spent
  omega

theorem Job.pending_length_le (job : Job) (done : Finset Nat) :
    (job.pending done).length <= job.unitOffsets.length := by
  unfold Job.pending
  rw [length_reverse, length_map]
  exact length_filter_le _ _

theorem Job.unitOffsets_length (job : Job) : job.unitOffsets.length = job.totalUnits := by
  unfold Job.unitOffsets
  rw [length_map, length_range]

theorem Job.laneCount_le (job : Job) (done : Finset Nat) (i : Nat) :
    (job.laneCounts done).getD i 0 <= (job.pending done).length := by
  unfold Job.laneCounts
  rw [getD_eq_getElem?_getD, getElem?_map]
  cases job.sources[i]? with
  | none => exact Nat.zero_le _
  | some source =>
      rw [Option.map_some, Option.getD_some]
      split
      · exact Nat.zero_le _
      · exact Nat.min_le_right _ _

theorem Bounded.generation_lt {job : Job} {done : Finset Nat} {f : Fetch}
    (h : Bounded (fun i => (job.laneCounts done).getD i 0) f)
    (hsize : job.size <= maxFileLen) {i : Nat} {source : Source}
    (hget : f.tracker.sources[i]? = some source) :
    satAdd source.generation 1 = source.generation + 1 := by
  have hgen := h.generation i source hget
  have hspent := h.spent_le i
  have hlanes := job.laneCount_le done i
  have hpending := job.pending_length_le done
  rw [job.unitOffsets_length] at hpending
  have hunits : job.totalUnits <= 2 ^ 43 := by
    unfold Job.totalUnits
    simp only [unitSize, maxFileLen] at hsize ⊢
    omega
  simp only [maxMisses] at hspent
  unfold satAdd
  omega

end Rabbithole.Swarm
