import Rabbithole.Tracker.Registry

/-!
# Expiry

What a lookup finds after a sweep and after a registration, and when two states are the
same to every lookup.  Two sweeps do no more than the later one alone.
-/

namespace Rabbithole.Tracker

open Foundation Directory Federation List Dict

namespace State

variable {s s' s'' : State} {ttl now later : Nat}

theorem isLive_iff {entry : ServerEntry} :
    isLive ttl now entry = true <-> now - entry.lastHeartbeat < ttl :=
  decide_eq_true_iff

theorem isLive_earlier (h : now <= later) {entry : ServerEntry}
    (hlive : isLive ttl later entry = true) : isLive ttl now entry = true := by
  rw [isLive_iff] at *
  exact Nat.lt_of_le_of_lt (Nat.sub_le_sub_right h entry.lastHeartbeat) hlive

@[simp] theorem entry_empty (slot : Slot) : empty.entries.get? slot = none := rfl

@[simp] theorem entry_prune (s : State) (ttl now : Nat) (slot : Slot) :
    (s.prune ttl now).entries.get? slot = (s.entries.get? slot).filter (isLive ttl now) := by
  unfold prune
  rw [get?_retain]

/-- Whether a log is kept: it is of a live entry, or not yet silent for a day. -/
def keepsLog (live : Bool) (now : Nat) (log : HealthLog) : Bool :=
  live || decide (now - log.lastSeen < observationWindow)

theorem log_prune (s : State) (ttl now : Nat) (slot : Slot) :
    (s.prune ttl now).health.get? slot =
      ((s.health.get? slot).map (s.told ttl now slot)).filter
        (keepsLog ((s.entries.get? slot).filter (isLive ttl now)).isSome now) := by
  show (Dict.retain _ (Dict.mapValues _ s.health)).get? slot = _
  rw [get?_retain, get?_mapValues]
  congr 1
  funext log
  unfold Dict.contains keepsLog
  rw [get?_retain]

@[simp] theorem entry_put (s : State) (slot slot' : Slot) (entry : ServerEntry) (now : Nat) :
    (s.put slot entry now).entries.get? slot' =
      if slot' = slot then some entry else s.entries.get? slot' := by
  show (s.entries.insert slot entry).get? slot' = _
  rw [get?_insert]

theorem log_put (s : State) (slot slot' : Slot) (entry : ServerEntry) (now : Nat) :
    (s.put slot entry now).health.get? slot' =
      if slot' = slot then
        some (((s.health.get? slot).getD (HealthLog.new now)).recordHeartbeat now)
      else s.health.get? slot' := by
  show (s.health.insert slot _).get? slot' = _
  rw [get?_insert]

/-!
## States that look the same

The order in which a map holds its entries is not part of the state.
-/

structure Same (s s' : State) : Prop where
  entries : forall slot, s.entries.get? slot = s'.entries.get? slot
  health : forall slot, s.health.get? slot = s'.health.get? slot

namespace Same

theorem refl (s : State) : Same s s where
  entries := fun _ => rfl
  health := fun _ => rfl

theorem symm (h : Same s s') : Same s' s where
  entries := fun slot => (h.entries slot).symm
  health := fun slot => (h.health slot).symm

theorem trans (h : Same s s') (h' : Same s' s'') : Same s s'' where
  entries := fun slot => (h.entries slot).trans (h'.entries slot)
  health := fun slot => (h.health slot).trans (h'.health slot)

theorem told (h : Same s s') (ttl now : Nat) (slot : Slot) :
    s.told ttl now slot = s'.told ttl now slot := by
  funext log
  unfold State.told
  rw [h.entries slot]

theorem prune (h : Same s s') (ttl now : Nat) : Same (s.prune ttl now) (s'.prune ttl now) where
  entries := by
    intro slot
    rw [entry_prune, entry_prune, h.entries slot]
  health := by
    intro slot
    rw [log_prune, log_prune, h.health slot, h.told ttl now slot, h.entries slot]

theorem put (h : Same s s') (slot : Slot) (entry : ServerEntry) (now : Nat) :
    Same (s.put slot entry now) (s'.put slot entry now) where
  entries := by
    intro slot'
    rw [entry_put, entry_put, h.entries slot']
  health := by
    intro slot'
    rw [log_put, log_put, h.health slot, h.health slot']

end Same

/-!
## Entries in their places
-/

/-- Every entry is kept under its own address. -/
def Placed (s : State) : Prop :=
  forall slot entry, s.entries.get? slot = some entry -> slotOf entry.addr = slot

theorem placed_empty : empty.Placed := by
  intro slot entry h
  rw [entry_empty] at h
  cases h

theorem Placed.prune (h : s.Placed) (ttl now : Nat) : (s.prune ttl now).Placed := by
  intro slot entry hentry
  rw [entry_prune] at hentry
  exact h slot entry (Option.filter_eq_some_iff.mp hentry).left

theorem Placed.put (h : s.Placed) {slot : Slot} {entry : ServerEntry}
    (hentry : slotOf entry.addr = slot) (now : Nat) : (s.put slot entry now).Placed := by
  intro slot' entry' hget
  rw [entry_put] at hget
  split at hget
  · rename_i hslot
    cases hget
    rw [hslot, hentry]
  · exact h slot' entry' hget

/-!
## Two sweeps
-/

theorem filter_filter {value : Type} {p q : value -> Bool} (h : forall v, q v = true -> p v = true)
    (held : Option value) : (held.filter p).filter q = held.filter q := by
  cases held with
  | none => rfl
  | some v =>
      cases hq : q v with
      | true => simp [Option.filter, h v hq, hq]
      | false =>
          cases hp : p v with
          | true | false => simp [Option.filter, hp, hq]

theorem filter_isLive (h : now <= later) (held : Option ServerEntry) :
    (held.filter (isLive ttl now)).filter (isLive ttl later) = held.filter (isLive ttl later) :=
  filter_filter (fun _ hlater => isLive_earlier h hlater) held

theorem keepsLog_earlier (h : now <= later) {log : HealthLog}
    (hkeeps : keepsLog false later log = true) : keepsLog false now log = true := by
  unfold keepsLog at *
  rw [Bool.false_or, decide_eq_true_iff] at *
  exact Nat.lt_of_le_of_lt (Nat.sub_le_sub_right h log.lastSeen) hkeeps

theorem filter_keepsLog (h : now <= later) (log : Option HealthLog) :
    (log.filter (keepsLog false now)).filter (keepsLog false later) =
      log.filter (keepsLog false later) :=
  filter_filter (fun _ hlater => keepsLog_earlier h hlater) log

variable {slot : Slot} {entry : ServerEntry}

theorem told_of_none (h : s.entries.get? slot = none) : s.told ttl now slot = id := by
  funext log
  unfold told
  rw [h]
  rfl

theorem told_of_live (h : s.entries.get? slot = some entry) (hlive : isLive ttl now entry = true) :
    s.told ttl now slot = id := by
  funext log
  unfold told
  rw [h]
  simp [hlive]

theorem told_of_expired (h : s.entries.get? slot = some entry)
    (hlive : isLive ttl now entry = false) :
    s.told ttl now slot = fun log => log.markExpired 0 := by
  funext log
  unfold told
  rw [h]
  simp only [hlive, Bool.false_eq_true, if_false]
  rfl

theorem log_prune_of_none (h : s.entries.get? slot = none) :
    (s.prune ttl now).health.get? slot =
      (s.health.get? slot).filter (keepsLog false now) := by
  rw [log_prune, told_of_none h, h, Option.map_id]
  rfl

theorem log_prune_of_live (h : s.entries.get? slot = some entry)
    (hlive : isLive ttl now entry = true) :
    (s.prune ttl now).health.get? slot = s.health.get? slot := by
  rw [log_prune, told_of_live h hlive, h, Option.map_id, Option.filter_some, hlive]
  cases s.health.get? slot with
  | none => rfl
  | some log => rfl

theorem log_prune_of_expired (h : s.entries.get? slot = some entry)
    (hlive : isLive ttl now entry = false) :
    (s.prune ttl now).health.get? slot =
      ((s.health.get? slot).map (fun log => log.markExpired 0)).filter (keepsLog false now) := by
  rw [log_prune, told_of_expired h hlive, h, Option.filter_some, hlive]
  rfl

theorem prune_prune (h : now <= later) (s : State) :
    Same ((s.prune ttl now).prune ttl later) (s.prune ttl later) where
  entries := by
    intro slot
    rw [entry_prune, entry_prune, entry_prune, filter_isLive h]
  health := by
    intro slot
    cases hheld : s.entries.get? slot with
    | none =>
        have hgone : (s.prune ttl now).entries.get? slot = none := by
          rw [entry_prune, hheld]
          rfl
        rw [log_prune_of_none hgone, log_prune_of_none hheld, log_prune_of_none hheld,
          filter_keepsLog h]
    | some entry =>
        cases hnow : isLive ttl now entry with
        | true =>
            have hstays : (s.prune ttl now).entries.get? slot = some entry := by
              rw [entry_prune, hheld, Option.filter_some, hnow]
              rfl
            cases hlater : isLive ttl later entry with
            | true =>
                rw [log_prune_of_live hstays hlater, log_prune_of_live hheld hnow,
                  log_prune_of_live hheld hlater]
            | false =>
                rw [log_prune_of_expired hstays hlater, log_prune_of_live hheld hnow,
                  log_prune_of_expired hheld hlater]
        | false =>
            have hgone : (s.prune ttl now).entries.get? slot = none := by
              rw [entry_prune, hheld, Option.filter_some, hnow]
              rfl
            have hlater : isLive ttl later entry = false := by
              cases hlater : isLive ttl later entry with
              | true =>
                  rw [isLive_earlier h hlater] at hnow
                  cases hnow
              | false => rfl
            rw [log_prune_of_none hgone, log_prune_of_expired hheld hnow,
              log_prune_of_expired hheld hlater, filter_keepsLog h]

end State

/-!
# Lazy expiry

Entries expire, flaps are counted and logs forgotten as side effects of whichever call comes
next.  How often somebody looks makes no difference: two states that a sweep makes the same
stay so.
-/

namespace Registry

variable (r : Registry) {s s' : State} {now : Nat}

/-- The two states are the same once swept. -/
def Agree (now : Nat) (s s' : State) : Prop :=
  State.Same (s.prune r.ttl now) (s'.prune r.ttl now)

namespace Agree

variable {r}

theorem of_same (h : State.Same s s') (now : Nat) : r.Agree now s s' :=
  h.prune r.ttl now

theorem trans {s'' : State} (h : r.Agree now s s') (h' : r.Agree now s' s'') : r.Agree now s s'' :=
  State.Same.trans h h'

theorem of_prune {later : Nat} (h : now <= later) (s : State) :
    r.Agree later (s.prune r.ttl now) s :=
  State.prune_prune h s

theorem later (h : r.Agree now s s') {later : Nat} (hle : now <= later) : r.Agree later s s' :=
  ((State.prune_prune hle s).symm.trans (State.Same.prune h r.ttl later)).trans
    (State.prune_prune hle s')

end Agree

/-!
## Queries
-/

theorem snapshotRank_inj (hplaced : s.Placed) {held held' : Slot × ServerEntry}
    (hheld : held ∈ s.entries.entries) (hheld' : held' ∈ s.entries.entries)
    (h : snapshotRank held.snd = snapshotRank held'.snd) : held = held' := by
  have hrank : held.snd.addr.rank = held'.snd.addr.rank := congrArg (fun k => (ofLex k).snd) h
  have haddr := SocketAddr.rank_injective hrank
  have hslot := hplaced held.fst held.snd (get?_eq_some_iff.mpr hheld)
  have hslot' := hplaced held'.fst held'.snd (get?_eq_some_iff.mpr hheld')
  apply inj_on_of_nodup_map s.entries.nodup hheld hheld'
  rw [<- hslot, <- hslot', haddr]

theorem snapshot_same (h : State.Same s s') (hplaced : s.Placed) :
    listBy snapshotRank (s.entries.entries.map Prod.snd) =
      listBy snapshotRank (s'.entries.entries.map Prod.snd) := by
  apply listBy_perm ((entries_perm h.entries).map Prod.snd)
  intro entry entry' hentry hentry' hrank
  rcases mem_map.mp hentry with ⟨held, hheld, rfl⟩
  rcases mem_map.mp hentry' with ⟨held', hheld', rfl⟩
  rw [snapshotRank_inj hplaced hheld hheld' hrank]

theorem entry_indexRow (s : State) (now : Nat) (slot : Slot) (entry : ServerEntry) :
    (indexRow s now slot entry).entry = entry := by
  unfold indexRow
  split
  · rfl
  · rfl

theorem index_same (h : State.Same s s') (hplaced : s.Placed) (now : Nat) :
    listBy indexRank (s.entries.entries.map (fun held => indexRow s now held.fst held.snd)) =
      listBy indexRank
        (s'.entries.entries.map (fun held => indexRow s' now held.fst held.snd)) := by
  have hrow : indexRow s' now = indexRow s now := by
    funext slot entry
    unfold indexRow
    rw [h.health slot]
  rw [hrow]
  apply listBy_perm ((entries_perm h.entries).map _)
  intro row row' hmem hmem' hrank
  rcases mem_map.mp hmem with ⟨held, hheld, rfl⟩
  rcases mem_map.mp hmem' with ⟨held', hheld', rfl⟩
  have hlast := congrArg (fun k => (ofLex (ofLex k).snd).snd) hrank
  have hentry : snapshotRank (indexRow s now held.fst held.snd).entry =
      snapshotRank (indexRow s now held'.fst held'.snd).entry := hlast
  rw [entry_indexRow, entry_indexRow] at hentry
  rw [snapshotRank_inj hplaced hheld hheld' hentry]

/-!
## One step
-/

theorem placed_heartbeat (hplaced : s.Placed) (entry : ServerEntry) (now : Nat) :
    slotOf (heartbeat (s.entries.get? (slotOf entry.addr)) entry now).addr = slotOf entry.addr := by
  unfold heartbeat
  cases hheld : s.entries.get? (slotOf entry.addr) with
  | none => rfl
  | some existing =>
      simp only []
      split
      · exact hplaced (slotOf entry.addr) existing hheld
      · rfl

theorem placed_step (hplaced : s.Placed) (c : Call) : (r.step s c).fst.Placed := by
  have hpruned := hplaced.prune r.ttl c.now
  rcases c with ⟨now, op⟩
  cases op with
  | registerUnsigned entry => exact hpruned.put (placed_heartbeat hpruned entry now) now
  | registerDescriptor signed via =>
      show (r.registerDescriptorAt s signed via now).fst.Placed
      unfold registerDescriptorAt
      split
      · exact hplaced
      · simp only []
        split
        · exact hpruned
        · have hslot : slotOf (ServerEntry.fromSigned signed via now).addr =
              slotOf signed.descriptor.addr := rfl
          exact hpruned.put hslot now
  | snapshot | index | healthReport addr => exact hpruned

theorem placed_run (hplaced : s.Placed) (calls : List Call) : (r.run s calls).Placed := by
  induction calls generalizing s with
  | nil => exact hplaced
  | cons c rest ih => exact ih (r.placed_step hplaced c)

variable {c : Call} {calls : List Call}

/-- The same call on states that agree is answered alike, and they still agree. -/
theorem step_agree (h : r.Agree c.now s s') (hplaced : s.Placed) :
    (r.step s c).snd = (r.step s' c).snd ∧
      r.Agree c.now (r.step s c).fst (r.step s' c).fst := by
  have hpruned := hplaced.prune r.ttl c.now
  rcases c with ⟨now, op⟩
  cases op with
  | registerUnsigned entry =>
      constructor
      · rfl
      · apply Agree.of_same
        show State.Same (r.registerUnsignedAt s entry now) (r.registerUnsignedAt s' entry now)
        unfold registerUnsignedAt
        simp only []
        rw [h.entries]
        exact State.Same.put h _ _ _
  | registerDescriptor signed via =>
      have hresult : (r.registerDescriptorAt s signed via now).snd =
            (r.registerDescriptorAt s' signed via now).snd ∧
          r.Agree now (r.registerDescriptorAt s signed via now).fst
            (r.registerDescriptorAt s' signed via now).fst := by
        unfold registerDescriptorAt
        cases signed.verify r.scheme r.format with
        | error err => exact ⟨rfl, h⟩
        | ok done =>
            simp only []
            rw [h.entries]
            cases refusal ((s'.prune r.ttl now).entries.get? (slotOf signed.descriptor.addr))
                signed with
            | some err => exact ⟨rfl, Agree.of_same h now⟩
            | none => exact ⟨rfl, Agree.of_same (State.Same.put h _ _ _) now⟩
      constructor
      · exact congrArg Answer.registered hresult.left
      · exact hresult.right
  | snapshot =>
      constructor
      · exact congrArg Answer.entries (snapshot_same h hpruned)
      · exact Agree.of_same h now
  | index =>
      constructor
      · exact congrArg Answer.rows (index_same h hpruned now)
      · exact Agree.of_same h now
  | healthReport addr =>
      constructor
      · apply congrArg Answer.report
        show ((s.prune r.ttl now).health.get? (slotOf addr)).map _ = _
        rw [h.health]
        rfl
      · exact Agree.of_same h now

theorem step_query (hquery : ¬ isRegistration c = true) (s : State) :
    (r.step s c).fst = s.prune r.ttl c.now := by
  rcases c with ⟨now, op⟩
  cases op with
  | registerUnsigned entry | registerDescriptor signed via => exact absurd rfl hquery
  | snapshot => rfl
  | index => rfl
  | healthReport addr => rfl

/-!
## Whole runs
-/

def results (s : State) (calls : List Call) : List (Call × Answer) :=
  (r.history s calls).filter (fun answered => isRegistration answered.fst)

theorem results_registration (hkind : isRegistration c = true) (s : State) (rest : List Call) :
    r.results s (c :: rest) = (c, (r.step s c).snd) :: r.results (r.step s c).fst rest :=
  filter_cons_of_pos hkind

theorem results_query (hkind : ¬ isRegistration c = true) (s : State) (rest : List Call) :
    r.results s (c :: rest) = r.results (r.step s c).fst rest :=
  filter_cons_of_neg hkind

theorem run_agree (horder : InOrder calls) {start : Nat} (h : r.Agree start s s')
    (hplaced : s.Placed) (hstart : forall c, c ∈ calls -> start <= c.now) (hnow : start <= now)
    (hend : forall c, c ∈ calls -> c.now <= now) :
    r.Agree now (r.run s calls) (r.run s' (calls.filter isRegistration)) ∧
      r.results s calls = r.history s' (calls.filter isRegistration) := by
  induction calls generalizing s s' start with
  | nil => exact ⟨h.later hnow, rfl⟩
  | cons c rest ih =>
      rcases pairwise_cons.mp horder with ⟨hfirst, hrest⟩
      have hagree := h.later (hstart c mem_cons_self)
      have hcnow := hend c mem_cons_self
      have hends : forall c', c' ∈ rest -> c'.now <= now :=
        fun c' hc' => hend c' (mem_cons_of_mem c hc')
      by_cases hkind : isRegistration c = true
      · rcases r.step_agree hagree hplaced with ⟨hanswer, hstates⟩
        rcases ih hrest hstates (r.placed_step hplaced c) hfirst hcnow hends with
          ⟨hafter, hresults⟩
        rw [filter_cons_of_pos hkind, r.results_registration hkind, hresults, hanswer]
        exact ⟨hafter, rfl⟩
      · rw [filter_cons_of_neg hkind, r.results_query hkind]
        apply ih hrest _ (r.placed_step hplaced c) hfirst hcnow hends
        rw [r.step_query hkind]
        exact (Agree.of_prune (Nat.le_refl c.now) s).trans hagree

theorem run_agree_empty (horder : InOrder calls) (hend : forall c, c ∈ calls -> c.now <= now) :
    r.Agree now (r.run State.empty calls)
        (r.run State.empty (calls.filter isRegistration)) ∧
      r.results State.empty calls = r.history State.empty (calls.filter isRegistration) :=
  r.run_agree horder (Agree.of_same (State.Same.refl State.empty) 0) State.placed_empty
    (fun _ _ => Nat.zero_le _) (Nat.zero_le _) hend

theorem answer_eq {front front' : List Call} (horder : InOrder (front ++ [c]))
    (horder' : InOrder (front' ++ [c]))
    (hsame : front.filter isRegistration = front'.filter isRegistration) :
    (r.step (r.run State.empty front) c).snd = (r.step (r.run State.empty front') c).snd := by
  rcases pairwise_append.mp horder with ⟨hfront, -, hlast⟩
  rcases pairwise_append.mp horder' with ⟨hfront', -, hlast'⟩
  have hagree := (r.run_agree_empty hfront
    (fun c' hc' => hlast c' hc' c (mem_singleton.mpr rfl))).left
  have hagree' := (r.run_agree_empty hfront'
    (fun c' hc' => hlast' c' hc' c (mem_singleton.mpr rfl))).left
  rw [<- hsame] at hagree'
  exact (r.step_agree (hagree.trans (State.Same.symm hagree'))
    (r.placed_run State.placed_empty front)).left

theorem le_all_instants (calls : List Call) : exists now, forall c, c ∈ calls -> c.now <= now := by
  induction calls with
  | nil => exact ⟨0, fun _ hc => absurd hc not_mem_nil⟩
  | cons c rest ih =>
      rcases ih with ⟨now, hnow⟩
      exists max c.now now
      intro c' hc'
      rcases mem_cons.mp hc' with rfl | hrest
      · exact Nat.le_max_left _ _
      · exact Nat.le_trans (hnow c' hrest) (Nat.le_max_right _ _)

theorem results_eq {calls' : List Call} (horder : InOrder calls) (horder' : InOrder calls')
    (hsame : calls.filter isRegistration = calls'.filter isRegistration) :
    r.results State.empty calls = r.results State.empty calls' := by
  rcases le_all_instants calls with ⟨now, hnow⟩
  rcases le_all_instants calls' with ⟨now', hnow'⟩
  rw [(r.run_agree_empty horder hnow).right, (r.run_agree_empty horder' hnow').right, hsame]

/-- Two runs with the same registrations, each with queries of its own in between: every
registration has the same result in both, and so has every query that is asked after the
same registrations. -/
theorem expiry_is_invisible {calls calls' : List Call} (horder : InOrder calls)
    (horder' : InOrder calls')
    (hsame : calls.filter isRegistration = calls'.filter isRegistration) :
    r.results State.empty calls = r.results State.empty calls' ∧
      forall front c back front' back',
        calls = front ++ c :: back -> calls' = front' ++ c :: back' ->
        front.filter isRegistration = front'.filter isRegistration ->
        (r.step (r.run State.empty front) c).snd = (r.step (r.run State.empty front') c).snd := by
  constructor
  · exact r.results_eq horder horder' hsame
  · intro front c back front' back' hcalls hcalls' hfront
    have hsplit : front ++ c :: back = (front ++ [c]) ++ back := by simp
    have hsplit' : front' ++ c :: back' = (front' ++ [c]) ++ back' := by simp
    rw [hcalls, hsplit] at horder
    rw [hcalls', hsplit'] at horder'
    exact r.answer_eq (pairwise_append.mp horder).left
      (pairwise_append.mp horder').left hfront

/-- Six minutes, and nothing that verifies. -/
def untrusting : Registry where
  ttl := seconds 360
  scheme := ⟨fun _ _ _ => false⟩
  format := Format.wire

def plain : ServerEntry where
  name := "Plain".toList
  description := []
  addr := ⟨.v4 0x0a000002, 5500⟩
  usersOnline := 3
  categories := []
  signed := none
  via := none
  lastHeartbeat := 0

def silence : List Call :=
  [⟨0, .registerUnsigned plain⟩, ⟨seconds 500, .registerUnsigned plain⟩,
    ⟨seconds 600, .healthReport plain.addr⟩]

/-- Somebody looks while it is silent, once before and once after it has expired. -/
def watchedSilence : List Call :=
  [⟨0, .registerUnsigned plain⟩, ⟨seconds 200, .snapshot⟩, ⟨seconds 400, .index⟩,
    ⟨seconds 500, .registerUnsigned plain⟩, ⟨seconds 600, .healthReport plain.addr⟩]

theorem silence_looks_the_same : (untrusting.step (untrusting.run State.empty (silence.take 2))
        ⟨seconds 600, .healthReport plain.addr⟩).snd =
      (untrusting.step (untrusting.run State.empty (watchedSilence.take 4))
        ⟨seconds 600, .healthReport plain.addr⟩).snd :=
  have horder : InOrder silence := by
    unfold InOrder silence
    decide
  have horder' : InOrder watchedSilence := by
    unfold InOrder watchedSilence
    decide
  (untrusting.expiry_is_invisible horder horder' rfl).right (silence.take 2)
    ⟨seconds 600, .healthReport plain.addr⟩ [] (watchedSilence.take 4) [] rfl rfl rfl

end Registry

end Rabbithole.Tracker
