import Mathlib.Algebra.BigOperators.Group.List.Basic
import Rabbithole.Foundation.WorkPool
import Rabbithole.Swarm.Moves

/-!
# Every unit is accounted for

The queues of a fetch are a work pool, and each step of a worker is one move of it, or none.
So each unit is in exactly one of the three collections, and a unit in flight has one
original holder.
-/

namespace Rabbithole.Swarm

open Foundation List Function Finset

/-- A fetch state whose queues and lanes are those of a work pool. -/
structure Represents (f : Fetch) (p : Pool Nat (Nat × Nat)) : Prop where
  pending : p.pending = f.work.pending.map Prod.fst
  inFlight : p.inFlight = f.work.inFlight
  done : p.done = f.work.done
  held : forall w, p.held w = (f.lanes w).pc.held
  lost : forall w off, (f.lanes w).pc = .lost off -> off ∈ f.work.done

namespace Represents

variable {f f' : Fetch} {p p' : Pool Nat (Nat × Nat)}

theorem clean (h : Represents f p) : f.work.Clean := by
  intro unit hunit
  have hpend : unit.1 ∈ p.pending := by
    rw [h.pending]
    exact mem_map_of_mem hunit
  have hnot := p.pending_done unit.1 hpend
  rw [h.done] at hnot
  exact hnot

theorem update (h : Represents f p) {i l : Nat} (lane : Lane)
    (hlanes : f'.lanes = Function.update f.lanes (i, l) lane)
    (hheld : p'.held = Function.update p.held (i, l) lane.pc.held)
    (hpending : p'.pending = f'.work.pending.map Prod.fst)
    (hinFlight : p'.inFlight = f'.work.inFlight) (hdone : p'.done = f'.work.done)
    (hmono : f.work.done ⊆ f'.work.done)
    (hlost : forall off, lane.pc = .lost off -> off ∈ f'.work.done) : Represents f' p' where
  pending := hpending
  inFlight := hinFlight
  done := hdone
  held := by
    intro w
    rw [hheld, hlanes]
    by_cases hw : w = (i, l)
    · rw [hw, update_self, update_self]
    · rw [update_of_ne hw, update_of_ne hw]
      exact h.held w
  lost := by
    intro w off hpc
    rw [hlanes] at hpc
    by_cases hw : w = (i, l)
    · rw [hw, update_self] at hpc
      exact hlost off hpc
    · rw [update_of_ne hw] at hpc
      exact hmono (h.lost w off hpc)

theorem sameHeld (h : Represents f p) {i l : Nat} (lane : Lane)
    (hlanes : f'.lanes = Function.update f.lanes (i, l) lane)
    (hheld : lane.pc.held = (f.lanes (i, l)).pc.held) (hpending : f'.work.pending = f.work.pending)
    (hinFlight : f'.work.inFlight = f.work.inFlight) (hdone : f'.work.done = f.work.done)
    (hlost : forall off, lane.pc ≠ .lost off) : Represents f' p := by
  apply h.update lane hlanes
  · rw [hheld, ← h.held (i, l), update_eq_self]
  · rw [hpending, h.pending]
  · rw [hinFlight, h.inFlight]
  · rw [hdone, h.done]
  · rw [hdone]
  · intro off hoff
    exact absurd hoff (hlost off)

end Represents

theorem Pc.held_of_free {pc : Pc} (h : pc.free = true) : pc.held = none := by
  cases pc with
  | start | ready | top | waiting | leaving | gone => rfl
  | fetching off len endgame | lost off | failed off len endgame why | notHeld off len endgame
  | retiring off len endgame => cases h

theorem Pc.ne_lost_of_free {pc : Pc} (h : pc.free = true) (off : Nat) : pc ≠ .lost off := by
  intro heq
  rw [heq] at h
  cases h

theorem map_fst_filter (units : List (Nat × Nat)) (off : Nat) :
    (units.filter (fun unit => decide (unit.1 ≠ off))).map Prod.fst =
      (units.map Prod.fst).filter (fun v => decide (v ≠ off)) := by
  rw [filter_map]
  rfl

/-!
## Each step is a move of the pool
-/

section Refinement

variable {job : Job} {f f' : Fetch} {p : Pool Nat (Nat × Nat)} {i l : Nat}

section

variable (hrep : Represents f p)
include hrep

/-- A worker handing its unit back, as a move of the pool. -/
theorem giveBack_refines {off len : Nat} {endgame : Bool}
    (hheld : (f.lanes (i, l)).pc.held = some (off, endgame)) (lane : Lane)
    (hlane : lane.pc.free = true) (hlanes : f'.lanes = Function.update f.lanes (i, l) lane)
    (hwork : f'.work = f.work.giveBack off len i endgame) :
    exists p', Represents f' p' ∧ Relation.ReflGen Pool.Move p p' := by
  have hpheld : p.held (i, l) = some (off, endgame) := by
    rw [hrep.held, hheld]
  have hnone : lane.pc.held = none := Pc.held_of_free hlane
  by_cases hdone : off ∈ f.work.done
  · have hpdone : off ∈ p.done := by
      rw [hrep.done]
      exact hdone
    rw [giveBack_done hdone] at hwork
    refine ⟨p.letGo (i, l) off endgame hpheld (Or.inl hpdone), ?_,
      Relation.ReflGen.single (Pool.Move.letGo p _ _ _ hpheld (Or.inl hpdone))⟩
    apply hrep.update lane hlanes
    · rw [hnone]
      rfl
    · rw [hwork]
      show p.pending = _
      rw [← p.pending_filter_of_done hpdone, hrep.pending]
      exact (map_fst_filter f.work.pending off).symm
    · rw [hwork]
      show p.inFlight = f.work.inFlight.erase off
      rw [← hrep.inFlight, p.inFlight_erase_of_done hpdone]
    · rw [hwork]
      exact hrep.done
    · rw [hwork]
      exact Subset.refl _
    · intro v hv
      exact absurd hv (Pc.ne_lost_of_free hlane v)
  · have hpdone : off ∉ p.done := by
      rw [hrep.done]
      exact hdone
    cases endgame with
    | true =>
        rw [giveBack_copy hdone] at hwork
        refine ⟨p.letGo (i, l) off true hpheld (Or.inr rfl), ?_,
          Relation.ReflGen.single (Pool.Move.letGo p _ _ _ hpheld (Or.inr rfl))⟩
        apply hrep.update lane hlanes
        · rw [hnone]
          rfl
        · rw [hwork]
          exact hrep.pending
        · rw [hwork]
          exact hrep.inFlight
        · rw [hwork]
          exact hrep.done
        · rw [hwork]
        · intro v hv
          exact absurd hv (Pc.ne_lost_of_free hlane v)
    | false =>
        rw [giveBack_original hdone] at hwork
        refine ⟨p.giveBack (i, l) off hpheld hpdone, ?_,
          Relation.ReflGen.single (Pool.Move.giveBack p _ _ hpheld hpdone)⟩
        apply hrep.update lane hlanes
        · rw [hnone]
          rfl
        · rw [hwork]
          show p.pending ++ [off] = _
          rw [hrep.pending, map_append]
          rfl
        · rw [hwork]
          show p.inFlight.erase off = _
          rw [hrep.inFlight]
        · rw [hwork]
          exact hrep.done
        · rw [hwork]
        · intro v hv
          exact absurd hv (Pc.ne_lost_of_free hlane v)

theorem next_refines (hpc : (f.lanes (i, l)).pc = .top) {holds : Holds} {size : Nat}
    {order : List Nat} (horder : order.toFinset = f.work.inFlight) {work : WorkState}
    {next : WorkState.Next} (hnext : f.work.nextUnit holds size i order = (work, next)) :
    exists p', Represents ({ f with work := work }.goto i l (Pc.after next)) p' ∧
      Relation.ReflGen Pool.Move p p' := by
  have hfree : p.held (i, l) = none := by
    rw [hrep.held, hpc]
    rfl
  have hmoves := WorkState.nextUnit_moves hrep.clean holds size i order
  rw [hnext] at hmoves
  cases hmoves with
  | take hget hcovers hidle =>
      rename_i k off len
      have hk : k < f.work.pending.length := by
        rcases List.getElem?_eq_some_iff.mp hget with ⟨hk, _⟩
        exact hk
      have hkmap : k < (f.work.pending.map Prod.fst).length := by
        rw [length_map]
        exact hk
      have hoff : (f.work.pending.map Prod.fst).get ⟨k, hkmap⟩ = off := by
        rcases List.getElem?_eq_some_iff.mp hget with ⟨_, heq⟩
        simp [heq]
      have hmem : off ∈ p.pending := by
        rw [hrep.pending, ← hoff]
        exact get_mem _ _
      refine ⟨p.take (i, l) off hfree hmem, ?_,
        Relation.ReflGen.single (Pool.Move.take p _ _ hfree hmem)⟩
      apply hrep.update (i := i) (l := l) _ rfl
      · rfl
      · show p.pending.erase off = (f.work.pending.eraseIdx k).map Prod.fst
        have hnodup := p.pending_nodup
        rw [hrep.pending] at hnodup ⊢
        rw [← eraseIdx_map, ← hoff]
        exact hnodup.erase_getElem k hkmap
      · show insert off p.inFlight = _
        rw [hrep.inFlight]
        rfl
      · exact hrep.done
      · exact Subset.refl _
      · intro v hv
        cases hv
  | copy hin hcovers hidle =>
      rename_i off
      have hmem : off ∈ p.inFlight := by
        rw [hrep.inFlight, ← horder]
        exact mem_toFinset.mpr hin
      refine ⟨p.copy (i, l) off hfree hmem, ?_,
        Relation.ReflGen.single (Pool.Move.copy p _ _ hfree hmem)⟩
      apply hrep.update (i := i) (l := l) _ rfl
      · rfl
      · exact hrep.pending
      · exact hrep.inFlight
      · exact hrep.done
      · exact Subset.refl _
      · intro v hv
        cases hv
  | pause hnot =>
      refine ⟨p, ?_, Relation.ReflGen.refl⟩
      have hafter : (Pc.after next).free = true := by
        cases next with
        | unit off len endgame => exact absurd rfl (hnot off len endgame)
        | wait | sibling | done => rfl
      apply hrep.sameHeld (i := i) (l := l) _ rfl
      · rw [hpc]
        exact Pc.held_of_free hafter
      · rfl
      · rfl
      · rfl
      · exact Pc.ne_lost_of_free hafter

theorem stay_refines {pc : Pc} (pc' : Pc) (hpc : (f.lanes (i, l)).pc = pc)
    (hlanes : f'.lanes = Function.update f.lanes (i, l) { f.lanes (i, l) with pc := pc' })
    (hpending : f'.work.pending = f.work.pending) (hinFlight : f'.work.inFlight = f.work.inFlight)
    (hdone : f'.work.done = f.work.done) (hheld : pc'.held = pc.held)
    (hlost : forall off, pc' ≠ .lost off) :
    exists p', Represents f' p' ∧ Relation.ReflGen Pool.Move p p' := by
  subst hpc
  exact ⟨p, hrep.sameHeld _ hlanes hheld hpending hinFlight hdone hlost, Relation.ReflGen.refl⟩

theorem landUnit_refines {off len : Nat} {endgame : Bool} {io : LandIo}
    (hpc : (f.lanes (i, l)).pc = .fetching off len endgame) (hdone : off ∉ f.work.done) :
    exists p', Represents
        ((Fetch.landUnit job (f.unworked i off) i off io).goto i l .top) p' ∧
      Relation.ReflGen Pool.Move p p' := by
  have hheld : p.held (i, l) = some (off, endgame) := by
    rw [hrep.held, hpc]
    rfl
  have hpdone : off ∉ p.done := by
    rw [hrep.done]
    exact hdone
  rcases landUnit_work job (f.unworked i off) i off io with ⟨unpersisted, hwork⟩
  refine ⟨p.land (i, l) off endgame hheld, ?_,
    Relation.ReflGen.single (Pool.Move.land p _ _ _ hheld hpdone)⟩
  apply hrep.update { f.lanes (i, l) with pc := .top }
    (landUnit_lanes job f i l off io)
  · rfl
  · show p.pending.filter _ =
      (Fetch.landUnit job (f.unworked i off) i off io).work.pending.map Prod.fst
    rw [hwork, hrep.pending]
    exact (map_fst_filter f.work.pending off).symm
  · show p.inFlight.erase off =
      (Fetch.landUnit job (f.unworked i off) i off io).work.inFlight
    rw [hwork, hrep.inFlight]
    rfl
  · show insert off p.done =
      (Fetch.landUnit job (f.unworked i off) i off io).work.done
    rw [hwork, hrep.done]
    rfl
  · show f.work.done ⊆ (Fetch.landUnit job (f.unworked i off) i off io).work.done
    rw [hwork]
    exact subset_insert off f.work.done
  · intro v hv
    cases hv

theorem moves_refines {act : LaneAct} (h : Moves job f i l act f') :
    exists p', Represents f' p' ∧ Relation.ReflGen Pool.Move p p' := by
  cases h with
  | walk hfree hgone hleaving hfree' hgone' =>
      have hheld := (Pc.held_of_free hfree').trans (Pc.held_of_free hfree).symm
      exact stay_refines hrep _ rfl rfl rfl rfl rfl hheld (Pc.ne_lost_of_free hfree')
  | next hpc hrunning hholds horder hnext =>
      exact next_refines hrep hpc horder hnext
  | landStopped hpc hstopped | landFailed hpc hrunning hdone hdisk | lacks hpc
  | reject hpc hsources hphase | leave hpc =>
      exact stay_refines hrep _ hpc rfl rfl rfl rfl rfl nofun
  | landLost hpc hrunning hdone =>
      rename_i off len endgame io
      have hheld : p.held (i, l) = some (off, endgame) := by
        rw [hrep.held, hpc]
        rfl
      have hpdone : off ∈ p.done := by
        rw [hrep.done]
        exact hdone
      refine ⟨p.letGo (i, l) off endgame hheld (Or.inl hpdone), ?_,
        Relation.ReflGen.single (Pool.Move.letGo p _ _ _ hheld (Or.inl hpdone))⟩
      apply hrep.update (i := i) (l := l) _ rfl
      · rfl
      · exact hrep.pending
      · exact hrep.inFlight
      · exact hrep.done
      · exact Subset.refl _
      · intro v hv
        cases hv
        exact hdone
  | landWritten hpc hrunning hdone => exact landUnit_refines hrep hpc hdone
  | settle hpc =>
      rename_i off
      have hdone : off ∈ p.done := by
        rw [hrep.done]
        exact hrep.lost (i, l) off hpc
      refine ⟨p, ?_, Relation.ReflGen.refl⟩
      apply hrep.update (i := i) (l := l) _ rfl
      · show p.held = Function.update p.held (i, l) none
        have hheld : p.held (i, l) = none := by
          rw [hrep.held, hpc]
          rfl
        rw [← hheld, update_eq_self]
      · show p.pending = _
        rw [← p.pending_filter_of_done hdone, hrep.pending]
        exact (map_fst_filter f.work.pending off).symm
      · show p.inFlight = f.work.inFlight.erase off
        rw [← hrep.inFlight, p.inFlight_erase_of_done hdone]
      · exact hrep.done
      · exact Subset.refl _
      · intro v hv
        cases hv
  | busy hpc hfree' hgone' | backNotHeld hpc hfree' hgone' hmisses =>
      exact giveBack_refines hrep (by rw [hpc]; rfl) _ hfree' rfl rfl
  | backFailed hpc =>
      rename_i off len endgame why local_
      have hnoted : Represents { f with work := { f.work with local_ := local_ } } p :=
        ⟨hrep.pending, hrep.inFlight, hrep.done, hrep.held, hrep.lost⟩
      exact giveBack_refines hnoted (by rw [hpc]; rfl)
        { f.lanes (i, l) with pc := .leaving } rfl rfl rfl
  | backRetiring hpc =>
      exact giveBack_refines hrep (by rw [hpc]; rfl)
        { f.lanes (i, l) with pc := .leaving } rfl rfl rfl

end

end Refinement

end Rabbithole.Swarm
