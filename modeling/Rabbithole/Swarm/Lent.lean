import Rabbithole.Swarm.Accounting
import Rabbithole.Swarm.Resumable

/-!
# What was lent is never offered on

The borrowed units cover every done unit whose bytes were lent, and the record lists no
unit as done that the run does not.  Both survive the end of a run, and a partial seed offers
done units only.
-/

namespace Rabbithole.Swarm

open Foundation List

/-- An offset a unit of a file can start at. -/
def Aligned (off : Nat) : Prop :=
  off % unitSize = 0

theorem Aligned.eq_of_index {off off' : Nat} (h : Aligned off) (h' : Aligned off')
    (hindex : off / haveUnit = off' / haveUnit) : off = off' := by
  have hoff := Nat.div_add_mod off unitSize
  have hoff' := Nat.div_add_mod off' unitSize
  rw [h] at hoff
  rw [h'] at hoff'
  have hsame : off / unitSize = off' / unitSize := hindex
  rw [hsame] at hoff
  exact hoff.symm.trans hoff'

theorem Job.unitOffsets_aligned (job : Job) {off : Nat} (h : off ∈ job.unitOffsets) :
    Aligned off := by
  unfold Job.unitOffsets at h
  rcases mem_map.mp h with ⟨k, _, hk⟩
  rw [← hk]
  exact Nat.mul_mod_left k unitSize

/-!
## What a step writes

Seen from the disk and the seed store a worker's step does nothing, tears a unit
that is not done, or lands one.
-/

inductive Stores (job : Job) (f : Fetch) (i l : Nat) (f' : Fetch) : Prop where
  | nothing (hdisk : f'.disk = f.disk) (hseeds : f'.seeds = f.seeds)
      (hdone : f'.work.done = f.work.done) (hborrowed : f'.work.borrowed = f.work.borrowed)
      (hpersist : f'.work.persistTo = f.work.persistTo)
  | torn (off : Nat) (hfresh : off ∉ f.work.done)
      (hdisk : f'.disk = job.writeUnit f.disk i off) (hseeds : f'.seeds = f.seeds)
      (hdone : f'.work.done = f.work.done) (hborrowed : f'.work.borrowed = f.work.borrowed)
      (hpersist : f'.work.persistTo = f.work.persistTo)
  | landed (off : Nat) (endgame written : Bool)
      (hheld : (f.lanes (i, l)).pc.held = some (off, endgame))
      (hfresh : off ∉ f.work.done)
      (hdone : f'.work.done = insert off f.work.done)
      (hborrowed : f'.work.borrowed = job.borrowedAfter i off f.work.borrowed)
      (hpersist : f'.work.persistTo = f.work.persistTo)
      (hdisk : f'.disk = f'.work.writeRecord (job.writeUnit f.disk i off) written)
      (hseeds : f'.seeds = f.seeds ∨
        (job.provenance i = .given ∧ f'.seeds = Seed.mark f.seeds (off / haveUnit)))

theorem writeRecord_false (s : WorkState) (disk : Disk) : s.writeRecord disk false = disk := by
  unfold WorkState.writeRecord
  cases s.persistTo with
  | none => rfl
  | some target => rfl

theorem writeRecord_dest (s : WorkState) (disk : Disk) (written : Bool) :
    (s.writeRecord disk written).dest = disk.dest := by
  unfold WorkState.writeRecord
  cases s.persistTo with
  | none => rfl
  | some target =>
      cases written with
      | true => rfl
      | false => rfl

theorem landUnit_stores (job : Job) (f : Fetch) (i off : Nat) (io : LandIo) :
    (exists written, (Fetch.landUnit job f i off io).disk =
        (Fetch.landUnit job f i off io).work.writeRecord
          (job.writeUnit f.disk i off) written) ∧
      ((Fetch.landUnit job f i off io).seeds = f.seeds ∨
        (job.provenance i = .given ∧
          (Fetch.landUnit job f i off io).seeds = Seed.mark f.seeds (off / haveUnit))) := by
  unfold Fetch.landUnit Fetch.landed
  cases hprov : job.provenance i with
  | lent =>
      simp only
      refine ⟨?_, Or.inl ?_⟩
      · split
        · refine ⟨io.recorded, ?_⟩
          simp only [Fetch.settle, Job.writeUnit, hprov]
          rfl
        · refine ⟨false, ?_⟩
          rw [writeRecord_false]
          simp only [Fetch.settle, Job.writeUnit, hprov]
      · split <;> rfl
  | given =>
      simp only
      refine ⟨?_, ?_⟩
      · split <;> split
        · refine ⟨io.recorded, ?_⟩
          simp only [Fetch.settle, Job.writeUnit, hprov]
          rfl
        · refine ⟨false, ?_⟩
          rw [writeRecord_false]
          simp only [Fetch.settle, Job.writeUnit, hprov]
        · refine ⟨io.recorded, ?_⟩
          simp only [Fetch.settle, Job.writeUnit, hprov]
          rfl
        · refine ⟨false, ?_⟩
          rw [writeRecord_false]
          simp only [Fetch.settle, Job.writeUnit, hprov]
      · split
        · apply Or.inr
          refine ⟨trivial, ?_⟩
          split <;> rfl
        · apply Or.inl
          split <;> rfl

theorem giveBack_stores {job : Job} {f f' : Fetch} {i l off len : Nat} {endgame : Bool}
    (hdisk : f'.disk = f.disk) (hseeds : f'.seeds = f.seeds)
    (hdone : f'.work.done = (f.work.giveBack off len i endgame).done)
    (hborrowed : f'.work.borrowed = (f.work.giveBack off len i endgame).borrowed)
    (hpersist : f'.work.persistTo = (f.work.giveBack off len i endgame).persistTo) :
    Stores job f i l f' := by
  rcases giveBack_frame f.work off len i endgame with ⟨hframe, -, hb, hp⟩
  exact Stores.nothing hdisk hseeds (hdone.trans hframe) (hborrowed.trans hb)
    (hpersist.trans hp)

theorem Moves.stores {job : Job} {f f' : Fetch} {i l : Nat} {act : LaneAct}
    (hclean : f.work.Clean) (h : Moves job f i l act f') : Stores job f i l f' := by
  cases h with
  | walk hfree hgone hleaving hfree' hgone' | landStopped hpc hstopped | landLost hpc hrunning hdone
  | settle hpc | lacks hpc | reject hpc hsources hphase | leave hpc =>
      exact Stores.nothing rfl rfl rfl rfl rfl
  | next hpc hrunning hholds horder hnext =>
      rcases nextUnit_frame hclean hnext with ⟨hdone, -, hborrowed, hpersist⟩
      exact Stores.nothing rfl rfl hdone hborrowed hpersist
  | landWritten hpc hrunning hdone =>
      rename_i off len endgame io
      rcases landUnit_work job (f.unworked i off) i off io with ⟨_, hwork⟩
      rcases landUnit_stores job (f.unworked i off) i off io with ⟨⟨written, hdisk⟩, hseeds⟩
      refine Stores.landed off endgame written (by rw [hpc]; rfl) hdone ?_ ?_ ?_ hdisk hseeds
      · exact congrArg WorkState.done hwork
      · exact congrArg WorkState.borrowed hwork
      · show (Fetch.landUnit job (f.unworked i off) i off io).work.persistTo = _
        rw [hwork]
        rfl
  | landFailed hpc hrunning hdone hdisk =>
      rcases hdisk with hdisk | hdisk
      · exact Stores.nothing hdisk rfl rfl rfl rfl
      · exact Stores.torn _ hdone hdisk rfl rfl rfl rfl
  | busy hpc hfree' hgone' | backNotHeld hpc hfree' hgone' hmisses | backRetiring hpc =>
      exact giveBack_stores rfl rfl rfl rfl rfl
  | backFailed hpc =>
      rename_i off len endgame why local_
      rcases giveBack_frame { f.work with local_ := local_ } off len i endgame with
        ⟨hdone, -, hborrowed, hpersist⟩
      exact Stores.nothing rfl rfl hdone hborrowed hpersist

theorem outside_stores {job : Job} {f f' : Fetch} {act : Act}
    (hact : forall i l laneAct, act ≠ .lane i l laneAct) (h : Fetch.step job f act = some f') :
    (f'.disk = f.disk ∧ f'.seeds = f.seeds ∧ f'.work = f.work) ∨
      exists recorded, f' = f.stop recorded := by
  cases act with
  | lane i l laneAct => exact absurd rfl (hact i l laneAct)
  | query i =>
      simp only [Fetch.step] at h
      split at h
      · split at h
        all_goals
          cases h
          exact Or.inl ⟨rfl, rfl, rfl⟩
      · cases h
  | queried i result | finish phase =>
      simp only [Fetch.step] at h
      split at h
      · cases h
        exact Or.inl ⟨rfl, rfl, rfl⟩
      · cases h
  | stop recorded =>
      simp only [Fetch.step] at h
      split at h
      · cases h
      · cases h
        exact Or.inr ⟨recorded, rfl⟩

/-!
## The invariant of a run
-/

/-- No unit the record counts on and may offer was lent. -/
def RecordSound (root : Root) (size : Nat) (disk : Disk) : Prop :=
  forall state, disk.record = some state ->
    state.root = root ∧ state.size = size ∧
      forall off, off ∈ state.done -> off < size -> Aligned off ->
        disk.dest off = some .lent -> off ∈ state.borrowed

/-- No unit a partial seed holds was lent. -/
def SeedSound (disk : Disk) (seeds : Option Seed) : Prop :=
  forall held, seeds = some (.part held) ->
    forall off, Aligned off -> bit held (off / haveUnit) = true ->
      disk.dest off ≠ some .lent

structure Lawful (root : Root) (size : Nat) (f : Fetch) : Prop where
  persist : f.work.persistTo = none ∨ f.work.persistTo = some (root, size)
  lent : forall off, off ∈ f.work.done -> f.disk.dest off = some .lent ->
    off ∈ f.work.borrowed
  record : RecordSound root size f.disk
  record_done : forall state, f.disk.record = some state ->
    forall off, off ∈ state.done -> off < size -> Aligned off -> off ∈ f.work.done
  seed : SeedSound f.disk f.seeds
  seed_done : forall held, f.seeds = some (.part held) ->
    forall off, Aligned off -> bit held (off / haveUnit) = true -> off ∈ f.work.done

namespace Lawful

variable {root : Root} {size : Nat} {job : Job} {f f' : Fetch} {i : Nat}

theorem of_same (h : Lawful root size f) (hdisk : f'.disk = f.disk)
    (hseeds : f'.seeds = f.seeds) (hdone : f'.work.done = f.work.done)
    (hborrowed : f'.work.borrowed = f.work.borrowed)
    (hpersist : f'.work.persistTo = f.work.persistTo) : Lawful root size f' := by
  constructor
  · rw [hpersist]
    exact h.persist
  · rw [hdisk, hdone, hborrowed]
    exact h.lent
  · rw [hdisk]
    exact h.record
  · rw [hdisk, hdone]
    exact h.record_done
  · rw [hdisk, hseeds]
    exact h.seed
  · rw [hseeds, hdone]
    exact h.seed_done

theorem writeUnit_dest (disk : Disk) (off v : Nat) (hv : v ≠ off) :
    (job.writeUnit disk i off).dest v = disk.dest v := by
  unfold Job.writeUnit
  exact Function.update_of_ne hv _ _

theorem of_torn (h : Lawful root size f) {off : Nat} (hfresh : off ∉ f.work.done)
    (hdisk : f'.disk = job.writeUnit f.disk i off)
    (hseeds : f'.seeds = f.seeds) (hdone : f'.work.done = f.work.done)
    (hborrowed : f'.work.borrowed = f.work.borrowed)
    (hpersist : f'.work.persistTo = f.work.persistTo) : Lawful root size f' := by
  have hdest : forall v, v ∈ f.work.done -> f'.disk.dest v = f.disk.dest v := by
    intro v hv
    rw [hdisk]
    apply writeUnit_dest
    intro heq
    rw [heq] at hv
    exact hfresh hv
  have hrecord : f'.disk.record = f.disk.record := by
    rw [hdisk]
    rfl
  constructor
  · rw [hpersist]
    exact h.persist
  · intro v hv hlent
    rw [hdone] at hv
    rw [hdest v hv] at hlent
    rw [hborrowed]
    exact h.lent v hv hlent
  · intro state hstate
    rw [hrecord] at hstate
    rcases h.record state hstate with ⟨hroot, hsize, hsound⟩
    refine ⟨hroot, hsize, ?_⟩
    intro v hv hlt haligned hlent
    rw [hdest v (h.record_done state hstate v hv hlt haligned)] at hlent
    exact hsound v hv hlt haligned hlent
  · rw [hrecord, hdone]
    exact h.record_done
  · intro held hheld v haligned hbit
    rw [hseeds] at hheld
    rw [hdest v (h.seed_done held hheld v haligned hbit)]
    exact h.seed held hheld v haligned hbit
  · rw [hseeds, hdone]
    exact h.seed_done

theorem of_recorded (h : Lawful root size f) (written : Bool)
    (hdisk : f'.disk = f'.work.writeRecord f.disk written)
    (hseeds : f'.seeds = f.seeds) (hdone : f'.work.done = f.work.done)
    (hborrowed : f'.work.borrowed = f.work.borrowed)
    (hpersist : f'.work.persistTo = f.work.persistTo) : Lawful root size f' := by
  cases written with
  | false =>
      rw [writeRecord_false] at hdisk
      exact h.of_same hdisk hseeds hdone hborrowed hpersist
  | true =>
      rcases h.persist with hnone | hsome
      · apply h.of_same _ hseeds hdone hborrowed hpersist
        rw [hdisk]
        unfold WorkState.writeRecord
        rw [hpersist, hnone]
      · have hnew : f'.disk =
            { f.disk with
              record := some
                { root := root, size := size, done := f.work.done,
                  borrowed := f.work.borrowed } } := by
          rw [hdisk]
          unfold WorkState.writeRecord
          rw [hpersist, hsome, hdone, hborrowed]
          rfl
        constructor
        · rw [hpersist]
          exact h.persist
        · rw [hnew, hdone, hborrowed]
          exact h.lent
        · intro state hstate
          rw [hnew] at hstate ⊢
          cases hstate
          refine ⟨rfl, rfl, ?_⟩
          intro v hv _ _ hlent
          exact h.lent v hv hlent
        · intro state hstate v hv _ _
          rw [hnew] at hstate
          cases hstate
          rw [hdone]
          exact hv
        · rw [hnew, hseeds]
          exact h.seed
        · rw [hseeds, hdone]
          exact h.seed_done

theorem mem_borrowedAfter {off v : Nat} {borrowed : Finset Nat} (h : v ∈ borrowed) :
    v ∈ job.borrowedAfter i off borrowed := by
  unfold Job.borrowedAfter
  cases job.provenance i with
  | lent => exact Finset.mem_insert_of_mem h
  | given => exact h

theorem mark_part {seeds : Option Seed} {index : Nat} {held : List Byte}
    (h : Seed.mark seeds index = some (.part held)) :
    exists old, seeds = some (.part old) ∧ held = setBit old index := by
  cases seeds with
  | none => cases h
  | some seed =>
      cases seed with
      | whole => cases h
      | part old =>
          cases h
          exact ⟨old, rfl, rfl⟩

theorem of_counted (h : Lawful root size f) {off : Nat} (haligned : Aligned off)
    (hfresh : off ∉ f.work.done) (hdisk : f'.disk = job.writeUnit f.disk i off)
    (hdone : f'.work.done = insert off f.work.done)
    (hborrowed : f'.work.borrowed = job.borrowedAfter i off f.work.borrowed)
    (hpersist : f'.work.persistTo = f.work.persistTo)
    (hseeds : f'.seeds = f.seeds ∨
      (job.provenance i = .given ∧ f'.seeds = Seed.mark f.seeds (off / haveUnit))) :
    Lawful root size f' := by
  have hold : forall v, v ∈ f.work.done -> f'.disk.dest v = f.disk.dest v := by
    intro v hv
    rw [hdisk]
    apply writeUnit_dest
    intro heq
    rw [heq] at hv
    exact hfresh hv
  have hnew : f'.disk.dest off = some (job.provenance i) := by
    rw [hdisk]
    exact Function.update_self _ _ _
  have hrecord : f'.disk.record = f.disk.record := by
    rw [hdisk]
    rfl
  -- a bit of the seed is an old one, of a done unit, or that of the landed unit
  have hbits : forall held, f'.seeds = some (.part held) ->
      forall v, Aligned v -> bit held (v / haveUnit) = true ->
        (v ∈ f.work.done ∧ f.disk.dest v ≠ some .lent) ∨
          (v = off ∧ job.provenance i = .given) := by
    intro held hheld v hv hbit
    rcases hseeds with hsame | ⟨hgiven, hmark⟩
    · rw [hsame] at hheld
      exact Or.inl ⟨h.seed_done held hheld v hv hbit, h.seed held hheld v hv hbit⟩
    · rw [hmark] at hheld
      rcases mark_part hheld with ⟨old, hpart, hset⟩
      rw [hset, bit_setBit, Bool.or_eq_true, decide_eq_true_iff] at hbit
      rcases hbit with hbit | hindex
      · exact Or.inl ⟨h.seed_done old hpart v hv hbit, h.seed old hpart v hv hbit⟩
      · exact Or.inr ⟨hv.eq_of_index haligned hindex, hgiven⟩
  constructor
  · rw [hpersist]
    exact h.persist
  · intro v hv hlent
    rw [hdone, Finset.mem_insert] at hv
    rw [hborrowed]
    rcases hv with hv | hv
    · rw [hv] at hlent ⊢
      rw [hnew] at hlent
      unfold Job.borrowedAfter
      rw [Option.some.inj hlent]
      exact Finset.mem_insert_self _ _
    · rw [hold v hv] at hlent
      exact mem_borrowedAfter (h.lent v hv hlent)
  · intro state hstate
    rw [hrecord] at hstate
    rcases h.record state hstate with ⟨hroot, hsize, hsound⟩
    refine ⟨hroot, hsize, ?_⟩
    intro v hv hlt hva hlent
    rw [hold v (h.record_done state hstate v hv hlt hva)] at hlent
    exact hsound v hv hlt hva hlent
  · intro state hstate v hv hlt hva
    rw [hrecord] at hstate
    rw [hdone]
    exact Finset.mem_insert_of_mem (h.record_done state hstate v hv hlt hva)
  · intro held hheld v hva hbit
    rcases hbits held hheld v hva hbit with ⟨hv, hgiven⟩ | ⟨hv, hgiven⟩
    · rw [hold v hv]
      exact hgiven
    · rw [hv, hnew, hgiven]
      intro heq
      cases heq
  · intro held hheld v hva hbit
    rw [hdone]
    rcases hbits held hheld v hva hbit with ⟨hv, _⟩ | ⟨hv, _⟩
    · exact Finset.mem_insert_of_mem hv
    · rw [hv]
      exact Finset.mem_insert_self _ _

theorem of_stores (h : Lawful root size f) {l : Nat}
    (haligned : forall off endgame, (f.lanes (i, l)).pc.held = some (off, endgame) ->
      Aligned off) (hstores : Stores job f i l f') : Lawful root size f' := by
  cases hstores with
  | nothing hdisk hseeds hdone hborrowed hpersist =>
      exact h.of_same hdisk hseeds hdone hborrowed hpersist
  | torn off hfresh hdisk hseeds hdone hborrowed hpersist =>
      exact h.of_torn hfresh hdisk hseeds hdone hborrowed hpersist
  | landed off endgame written hheld hfresh hdone hborrowed hpersist hdisk hseeds =>
      have hcounted : Lawful root size
          { f' with disk := job.writeUnit f.disk i off } :=
        h.of_counted (haligned off endgame hheld) hfresh rfl hdone hborrowed hpersist
          hseeds
      exact hcounted.of_recorded written hdisk rfl rfl rfl rfl

theorem of_stop (h : Lawful root size f) (recorded : Bool) :
    Lawful root size (f.stop recorded) := by
  have hdisk : exists written, (f.stop recorded).disk = f.work.writeRecord f.disk written := by
    unfold Fetch.stop
    by_cases hdue : 0 < f.work.unpersisted
    · exact ⟨recorded, if_pos hdue⟩
    · refine ⟨false, ?_⟩
      rw [writeRecord_false]
      exact if_neg hdue
  rcases hdisk with ⟨written, hdisk⟩
  have hwritten : Lawful root size { f with disk := f.work.writeRecord f.disk written } :=
    h.of_recorded written rfl rfl rfl rfl rfl
  rw [← hdisk] at hwritten
  exact ⟨Or.inl rfl, hwritten.lent, hwritten.record, hwritten.record_done,
    hwritten.seed, hwritten.seed_done⟩

end Lawful

theorem Accounted.held_aligned {job : Job} {start : Finset Nat} {f : Fetch}
    (h : Accounted job start f) (hstart : forall off, off ∈ start -> Aligned off)
    {w : Nat × Nat} {off : Nat} {endgame : Bool}
    (hheld : (f.lanes w).pc.held = some (off, endgame)) : Aligned off := by
  rcases h with ⟨_, p, hrep, hunits⟩
  have hknown : off ∈ p.units := by
    rw [Pool.mem_units]
    apply p.held_known w off endgame
    rw [hrep.held]
    exact hheld
  rw [hunits, job.mem_pool_units] at hknown
  rcases hknown with hunit | hdone
  · exact job.unitOffsets_aligned hunit
  · exact hstart off hdone

theorem step_lawful {root : Root} {size : Nat} {job : Job} {start : Finset Nat}
    {f f' : Fetch} {act : Act} (hacc : Accounted job start f)
    (hstart : forall off, off ∈ start -> Aligned off) (h : Lawful root size f)
    (hstep : Fetch.step job f act = some f') : Lawful root size f' := by
  rcases step_cases hstep with ⟨i, l, laneAct, _, hlane⟩ | ⟨hact, _⟩
  · have hclean : f.work.Clean := by
      rcases hacc with ⟨_, p, hrep, _⟩
      exact hrep.clean
    apply h.of_stores _ ((laneStep_moves hlane).stores hclean)
    intro off endgame hheld
    exact hacc.held_aligned hstart hheld
  · rcases outside_stores hact hstep with ⟨hdisk, hseeds, hwork⟩ | ⟨recorded, heq⟩
    · apply h.of_same hdisk hseeds
      all_goals rw [hwork]
    · rw [heq]
      exact h.of_stop recorded

/-!
## Where a run starts from

What a record that is sound says of the units a run counts as done.
-/

theorem resumed_sound {root : Root} {size : Nat} {disk : Disk} (h : RecordSound root size disk) :
    (forall off, off ∈ (World.resumed disk root size).1 ->
      Aligned off ∧ (disk.dest off = some .lent ->
        off ∈ (World.resumed disk root size).2)) ∧
    (forall state, disk.record = some state ->
      forall off, off ∈ state.done -> off < size -> Aligned off ->
        off ∈ (World.resumed disk root size).1) := by
  unfold World.resumed loadRhstate
  cases hrecord : disk.record with
  | none =>
      constructor
      · intro off hoff
        simp at hoff
      · intro state hstate
        cases hstate
  | some state =>
      rcases h state hrecord with ⟨hroot, hsize, hsound⟩
      have hmatch : ¬ (state.root ≠ root ∨ state.size ≠ size) := by
        simp [hroot, hsize]
      simp only [if_neg hmatch]
      constructor
      · intro off hoff
        rcases Finset.mem_filter.mp hoff with ⟨hdone, hlt, haligned⟩
        exact ⟨haligned, hsound off hdone hlt haligned⟩
      · intro other hother off hoff hlt haligned
        cases hother
        exact Finset.mem_filter.mpr ⟨hoff, hlt, haligned⟩

theorem bit_foldl_setBit (indices : List Nat) (bits : List Byte) (i : Nat) :
    bit (indices.foldl setBit bits) i = (bit bits i || decide (i ∈ indices)) := by
  induction indices generalizing bits with
  | nil => simp
  | cons j rest ih =>
      rw [foldl_cons, ih, bit_setBit]
      by_cases hij : i = j
      · simp [hij]
      · simp [hij]

theorem mem_heldUnits {size : Nat} {order : List Nat} {borrowed : Finset Nat}
    {proven : List (Nat × Nat)} {index : Nat}
    (h : index ∈ World.heldUnits size order borrowed proven) :
    exists off, off ∈ order ∧ off ∉ borrowed ∧ off / haveUnit = index := by
  unfold World.heldUnits at h
  rcases mem_map.mp h with ⟨off, hoff, hindex⟩
  rw [mem_filter, mem_filter, decide_eq_true_iff] at hoff
  exact ⟨off, hoff.left.left, hoff.left.right, hindex⟩

/-- The seed store holds no partial seed. -/
def NoPartial (seeds : Option Seed) : Prop :=
  forall held, seeds ≠ some (.part held)

theorem unshare_noPartial {sharing : Bool} {seeds : Option Seed}
    (h : sharing = true ∨ NoPartial seeds) : NoPartial (World.unshare sharing seeds) := by
  intro held hheld
  unfold World.unshare at hheld
  cases sharing with
  | false =>
      rcases h with h | h
      · cases h
      · exact h held hheld
  | true =>
      cases seeds with
      | none => cases hheld
      | some seed =>
          cases seed with
          | whole | part old => cases hheld

theorem shareHeld_sound {input : RunInput} {size : Nat} {borrowed : Finset Nat}
    {seeds seeds' : Option Seed} {sharing : Bool} (hnone : NoPartial seeds)
    (h : World.shareHeld input size borrowed seeds = some (seeds', sharing)) :
    (sharing = true ∨ NoPartial seeds') ∧
      forall held, seeds' = some (.part held) -> forall index, bit held index = true ->
        exists off, off ∈ input.order ∧ off ∉ borrowed ∧ off / haveUnit = index := by
  unfold World.shareHeld at h
  split at h
  · cases hproven : input.proven with
    | none =>
        rw [hproven] at h
        cases h
    | some proven =>
        rw [hproven] at h
        have hadd := Option.some.inj h
        unfold Seed.addPartial at hadd
        split at hadd
        · cases hadd
          refine ⟨Or.inr hnone, ?_⟩
          intro held hheld
          cases hheld
        · cases hadd
          refine ⟨Or.inl rfl, ?_⟩
          intro held hheld index hbit
          cases hheld
          rw [bit_foldl_setBit] at hbit
          have hmem : index ∈ World.heldUnits size input.order borrowed proven := by
            simpa [bit] using hbit
          exact mem_heldUnits hmem
  · cases h
    refine ⟨Or.inr hnone, ?_⟩
    intro held hheld
    exact absurd hheld (hnone held)

/-!
## Every sequence of runs
-/

/-- What holds of a run while it fetches. -/
structure RunSound (root : Root) (size : Nat) (run : Running) (f : Fetch) : Prop where
  size_eq : run.job.size = size
  accounted : Accounted run.job run.start f
  start_aligned : forall off, off ∈ run.start -> Aligned off
  lawful : Lawful root size f
  guarded : run.sharing = true ∨ NoPartial f.seeds

def WorldSound (root : Root) (size : Nat) : World -> Prop
  | .idle disk seeds => RecordSound root size disk ∧ NoPartial seeds
  | .fetching run f => RunSound root size run f
  | .verifying run report disk seeds =>
      RecordSound root size disk ∧ SeedSound disk seeds ∧
        (run.sharing = true ∨ NoPartial seeds) ∧
        (report.borrowed = false ->
          forall off, off < size -> Aligned off -> disk.dest off ≠ some .lent)

theorem Job.mem_unitOffsets (job : Job) {off : Nat} (hlt : off < job.size)
    (haligned : Aligned off) : off ∈ job.unitOffsets := by
  unfold Job.unitOffsets Job.totalUnits
  rw [mem_map]
  have hoff := Nat.div_add_mod off unitSize
  rw [haligned] at hoff
  refine ⟨off / unitSize, ?_, ?_⟩
  · rw [mem_range]
    apply (Nat.le_div_iff_mul_le (by decide)).mpr
    simp only [unitSize] at hoff ⊢
    omega
  · rw [Nat.mul_comm]
    exact hoff

section Begin

variable {root : Root} {size : Nat} {disk : Disk} {seeds : Option Seed}

theorem init_lawful (job : Job) (proofs : Bool) (hroot : job.root = root) (hsize : job.size = size)
    (hrecord : RecordSound root size disk) {input : RunInput} {seeds' : Option Seed}
    {sharing : Bool} (hnone : NoPartial seeds)
    (horder : input.order.toFinset = (World.resumed disk root size).1)
    (hshare : World.shareHeld input size (World.resumed disk root size).2 seeds =
      some (seeds', sharing)) : Lawful root size
      (Fetch.init job { resumable := true, proofs := proofs, sharing := sharing }
        (World.resumed disk root size).1 (World.resumed disk root size).2
        input.availability disk seeds') := by
  rcases resumed_sound hrecord with ⟨hdone, hcovers⟩
  rcases shareHeld_sound hnone hshare with ⟨_, hbits⟩
  -- a bit of the partial seed stands for a done unit that is not borrowed
  have hunit : forall held, seeds' = some (.part held) -> forall off, Aligned off ->
      bit held (off / haveUnit) = true ->
      off ∈ (World.resumed disk root size).1 ∧
        off ∉ (World.resumed disk root size).2 := by
    intro held hheld off haligned hbit
    rcases hbits held hheld _ hbit with ⟨off', hmem, hgiven, hindex⟩
    have hdone' : off' ∈ (World.resumed disk root size).1 := by
      rw [← horder, mem_toFinset]
      exact hmem
    have heq := haligned.eq_of_index (hdone off' hdone').left hindex.symm
    rw [heq]
    exact ⟨hdone', hgiven⟩
  constructor
  · apply Or.inr
    show some (job.root, job.size) = _
    rw [hroot, hsize]
  · intro off hoff hlent
    exact (hdone off hoff).right hlent
  · exact hrecord
  · exact hcovers
  · intro held hheld off haligned hbit hlent
    rcases hunit held hheld off haligned hbit with ⟨hoff, hgiven⟩
    exact hgiven ((hdone off hoff).right hlent)
  · intro held hheld off haligned hbit
    exact (hunit held hheld off haligned hbit).left

theorem beginRun_sound (hsize : size ≠ 0) (hrecord : RecordSound root size disk)
    (hnone : NoPartial seeds) (input : RunInput)
    (horder : input.order.toFinset = (World.resumed disk root size).1) :
    WorldSound root size (World.beginRun root size input disk seeds) := by
  have haligned : forall off, off ∈ (World.resumed disk root size).1 -> Aligned off := by
    intro off hoff
    exact ((resumed_sound hrecord).left off hoff).left
  unfold World.beginRun
  simp only
  cases hshare : World.shareHeld input size (World.resumed disk root size).2 seeds with
  | none => exact ⟨hrecord, hnone⟩
  | some shared =>
      rcases shared with ⟨seeds', sharing⟩
      have hguard := (shareHeld_sound hnone hshare).left
      simp only
      cases hinner : fetchSwarmInner { sources := input.sources, root := root, size := size }
          { resumable := true, proofs := input.proofsOpen, sharing := sharing }
          (World.resumed disk root size).1 (World.resumed disk root size).2
          input.availability disk seeds' input.opened with
      | running f =>
          rcases started_eq hinner with ⟨hinit, _⟩
          subst hinit
          have hlawful := init_lawful
            { sources := input.sources, root := root, size := size } input.proofsOpen
            rfl rfl hrecord hnone horder hshare
          exact
            { size_eq := rfl
              accounted := init_accounted _ _ _ _ _ _ _
              start_aligned := haligned
              lawful := hlawful
              guarded := hguard }
      | answered result =>
          cases result with
          | error error => exact ⟨hrecord, unshare_noPartial hguard⟩
          | ok report =>
              -- only an empty file is answered so
              unfold fetchSwarmInner at hinner
              simp only [if_neg hsize] at hinner
              split at hinner
              · cases hinner
              · split at hinner
                all_goals cases hinner

end Begin

section Steps

variable {root : Root} {size : Nat} {run : Running} {f f' : Fetch}

theorem Stores.noPartial {job : Job} {i l : Nat} (h : Stores job f i l f')
    (hnone : NoPartial f.seeds) : NoPartial f'.seeds := by
  cases h with
  | nothing hdisk hseeds hdone hborrowed hpersist
  | torn off hfresh hdisk hseeds hdone hborrowed hpersist =>
      rw [hseeds]
      exact hnone
  | landed off endgame written hheld hfresh hdone hborrowed hpersist hdisk hseeds =>
      rcases hseeds with hseeds | ⟨_, hseeds⟩
      · rw [hseeds]
        exact hnone
      · rw [hseeds]
        intro held hheld
        rcases Lawful.mark_part hheld with ⟨old, hold, _⟩
        exact hnone old hold

theorem act_sound (h : RunSound root size run f) {act : Act}
    (hstep : Fetch.step run.job f act = some f') : RunSound root size run f' := by
  have hlawful := step_lawful h.accounted h.start_aligned h.lawful hstep
  have hclean : f.work.Clean := by
    rcases h.accounted with ⟨_, p, hrep, _⟩
    exact hrep.clean
  refine ⟨h.size_eq, step_accounted f act f' h.accounted hstep, h.start_aligned, hlawful, ?_⟩
  rcases h.guarded with hsharing | hnone
  · exact Or.inl hsharing
  · apply Or.inr
    rcases step_cases hstep with ⟨i, l, laneAct, _, hlane⟩ | ⟨_, hsame⟩
    · exact ((laneStep_moves hlane).stores hclean).noPartial hnone
    · rw [hsame.seeds]
      exact hnone

theorem report_given (h : RunSound root size run f) {report : FetchReport}
    (hreport : Fetch.report run.job f = .ok report) (hborrowed : report.borrowed = false)
    {off : Nat} (hlt : off < size) (haligned : Aligned off) : f.disk.dest off ≠ some .lent := by
  intro hlent
  have hunit : off ∈ run.job.unitOffsets := by
    apply run.job.mem_unitOffsets _ haligned
    rw [h.size_eq]
    exact hlt
  rcases report_ok hreport with ⟨hpending, hinFlight⟩
  have hdone := (h.accounted.landed_all hpending hinFlight).left off hunit
  have hmem := h.lawful.lent off hdone hlent
  have hempty : f.work.borrowed = ∅ := by
    unfold Fetch.report at hreport
    split at hreport
    · cases hreport
    · split at hreport
      · cases hreport
        simpa using hborrowed
      · cases hreport
  rw [hempty] at hmem
  simp at hmem

theorem stop_dest (recorded : Bool) : (f.stop recorded).disk.dest = f.disk.dest := by
  unfold Fetch.stop
  simp only
  split
  · exact writeRecord_dest f.work f.disk recorded
  · rfl

theorem stopped_sound (h : RunSound root size run f) (recorded : Bool) : WorldSound root size
      (.idle (f.stop recorded).disk (World.unshare run.sharing (f.stop recorded).seeds)) :=
  ⟨(h.lawful.of_stop recorded).record, unshare_noPartial h.guarded⟩

theorem endRun_sound {report : FetchReport} {disk : Disk} {seeds : Option Seed}
    (hrecord : RecordSound root size disk)
    (hguard : run.sharing = true ∨ NoPartial seeds) (outcome : Verified) :
    WorldSound root size (World.endRun run report disk seeds outcome) := by
  cases outcome with
  | unread => exact ⟨hrecord, unshare_noPartial hguard⟩
  | bad stateGone destGone =>
      refine ⟨?_, unshare_noPartial hguard⟩
      intro state hstate
      cases stateGone with
      | true => cases hstate
      | false =>
          rcases hrecord state hstate with ⟨hroot, hsize, hsound⟩
          refine ⟨hroot, hsize, ?_⟩
          intro off hoff hlt haligned hlent
          cases destGone with
          | true => cases hlent
          | false => exact hsound off hoff hlt haligned hlent
  | good stateGone proved =>
      constructor
      · intro state hstate
        cases stateGone with
        | true => cases hstate
        | false => exact hrecord state hstate
      · apply unshare_noPartial
        rcases hguard with hsharing | hnone
        · exact Or.inl hsharing
        · apply Or.inr
          split
          · intro held hheld
            cases hheld
          · exact hnone

theorem step_worldSound (w : World) (label : Label) (w' : World)
    (h : WorldSound root size w) (hstep : World.step root size w label = some w') :
    WorldSound root size w' := by
  unfold World.step at hstep
  split at hstep
  case h_1 input disk seeds =>
      split at hstep
      · rename_i hbegin
        cases hstep
        exact beginRun_sound (Nat.ne_of_gt hbegin.left) h.left h.right input
          hbegin.right.right
      · cases hstep
  case h_2 act run f =>
      split at hstep
      · cases hstep
      · rename_i f' hact
        cases hstep
        exact act_sound h hact
  case h_3 recorded run f =>
      split at hstep
      · cases hreport : Fetch.report run.job f with
        | error error =>
            rw [hreport] at hstep
            cases hstep
            exact stopped_sound h recorded
        | ok report =>
            rw [hreport] at hstep
            cases hstep
            have hlawful := h.lawful.of_stop recorded
            refine ⟨hlawful.record, hlawful.seed, h.guarded, ?_⟩
            intro hborrowed off hlt haligned
            rw [stop_dest]
            exact report_given h hreport hborrowed hlt haligned
      · cases hstep
  case h_4 outcome run report disk seeds =>
      cases hstep
      exact endRun_sound h.left h.right.right.left outcome
  case h_5 recorded run f =>
      cases hstep
      exact stopped_sound h recorded
  case h_6 recorded run report disk seeds =>
      cases hstep
      exact ⟨h.left, unshare_noPartial h.right.right.left⟩
  case h_7 =>
      cases hstep
      refine ⟨?_, fun held hheld => by cases hheld⟩
      cases w with
      | idle disk seeds | verifying run report disk seeds => exact h.left
      | fetching run f => exact h.lawful.record
  case h_8 => cases hstep

theorem WorldSound.seedSound {w : World} (h : WorldSound root size w) :
    SeedSound w.disk w.seeds := by
  cases w with
  | idle disk seeds =>
      intro held hheld
      exact absurd hheld (h.right held)
  | fetching run f => exact h.lawful.seed
  | verifying run report disk seeds => exact h.right.left

end Steps

/--
Whatever runs came before and however each of them ended, no unit held in the
partial seed was last landed from a source that lent it, and a whole seed is
inserted only over a file without such a unit.
-/
theorem lent_never_offered {root : Root} {size : Nat} {dest : Nat -> Option Provenance}
    {seeds : Option Seed} (hseeds : seeds = none ∨ seeds = some .whole)
    {labels : List Label} {w : World}
    (hrun : run? (World.step root size) (.idle { record := none, dest := dest } seeds)
      labels = some w) :
    (forall held, w.seeds = some (.part held) ->
      forall off, off < size -> off % unitSize = 0 ->
        bit held (off / haveUnit) = true -> w.disk.dest off ≠ some .lent) ∧
    (forall label w', World.step root size w label = some w' ->
      w.seedsWhole label = true ->
      forall off, off < size -> off % unitSize = 0 -> w.disk.dest off ≠ some .lent) := by
  have hinit : WorldSound root size (.idle { record := none, dest := dest } seeds) := by
    constructor
    · intro state hstate
      cases hstate
    · intro held hheld
      rcases hseeds with h | h
      all_goals
        rw [h] at hheld
        cases hheld
  have hsound : WorldSound root size w := run?_invariant step_worldSound hinit hrun
  constructor
  · intro held hheld off _ haligned hbit
    exact hsound.seedSound held hheld off haligned hbit
  · intro label w' hstep hwhole off hlt haligned
    unfold World.seedsWhole at hwhole
    split at hwhole
    case h_1 run report disk seeds stateGone proved =>
        have hgiven : report.borrowed = false := by
          unfold World.insertsWhole at hwhole
          simp at hwhole
          exact hwhole.left.right
        exact hsound.right.right.right hgiven off hlt haligned
    case h_2 => cases hwhole

/-- A run from one source of the given kind, sharing, with every proof kept. -/
def oneSource (provenance : Provenance) (order : List Nat) : RunInput where
  sources := [⟨"north", 1, provenance⟩]
  availability := none
  seeded := true
  proofsOpen := true
  proven := some [(0, 2 * unitSize)]
  order := order
  opened := true

/-- Land the next unit of the only source, and write the record. -/
def landOne : List Label :=
  [.act (.lane 0 0 .enter), .act (.query 0), .act (.queried 0 (.ok none)),
    .act (.lane 0 0 .ready), .act (.lane 0 0 (.next [])),
    .act (.lane 0 0 (.land
      { written := true, torn := false, kept := true, elapsed := true,
        recorded := true }))]

/--
The first of two units is lent and the process killed; the next run gets the
second from a source that gives, and offers on that one alone.
-/
theorem lent_not_offered_after_kill :
    exists w, run? (World.step 0#256 (2 * unitSize))
        (.idle { record := none, dest := fun _ => none } none)
        (.begin (oneSource .lent []) :: landOne ++
          .kill :: .begin (oneSource .given [0]) :: landOne) = some w ∧
      w.seeds = some (.part [2#8]) ∧
      w.disk.dest 0 = some .lent ∧ w.disk.dest unitSize ≠ some .lent := by
  have hreach : exists w,
      run? (World.step 0#256 (2 * unitSize))
        (.idle { record := none, dest := fun _ => none } none)
        (.begin (oneSource .lent []) :: landOne ++
          .kill :: .begin (oneSource .given [0]) :: landOne) = some w ∧
      w.seeds = some (.part [2#8]) ∧ w.disk.dest 0 = some .lent := ⟨_, rfl, rfl, rfl⟩
  rcases hreach with ⟨w, hrun, hseeds, hlent⟩
  refine ⟨w, hrun, hseeds, hlent, ?_⟩
  exact (lent_never_offered (Or.inl rfl) hrun).left [2#8] hseeds unitSize
    (by decide) (by decide) (by decide)

end Rabbithole.Swarm
