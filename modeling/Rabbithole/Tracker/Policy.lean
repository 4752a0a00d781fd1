import Rabbithole.Tracker.Lazy

/-!
# Who holds a slot

The first verified key to claim an address and port keeps it for as long as its entry
does not expire.  Nobody else can rename, re-point or strip the entry, and nobody can
put an older statement of the same key in its place; what is refused leaves no trace.
-/

namespace Rabbithole.Tracker

open Foundation Federation Directory List

namespace Registry

variable (r : Registry) {s : State}

/-- The slot that a call would register. -/
def target (op : Op) : Option Slot :=
  match op with
  | .registerUnsigned entry => some (slotOf entry.addr)
  | .registerDescriptor signed _ => some (slotOf signed.descriptor.addr)
  | .snapshot => none
  | .index => none
  | .healthReport _ => none

def isAccepted (answer : Answer) : Bool :=
  match answer with
  | .registered (.ok ()) => true
  | .registered (.error _) => false
  | .entries _ => false
  | .rows _ => false
  | .report _ => false

def accepts (slot : Slot) (answered : Call × Answer) : Bool :=
  decide (target answered.fst.op = some slot) && isAccepted answered.snd

def acceptedAt (slot : Slot) (answered : List (Call × Answer)) : List Nat :=
  (answered.filter (accepts slot)).map (fun answered => answered.fst.now)

/-- The entry is that of a descriptor which verifies under the key that it names. -/
structure Vouched (r : Registry) (signed : SignedDescriptor) (entry : ServerEntry) : Prop where
  carried : entry.signed = some signed
  verifies : signed.verify r.scheme r.format = .ok ()
  name : entry.name = signed.descriptor.name
  description : entry.description = signed.descriptor.description
  categories : entry.categories = signed.descriptor.categories
  addr : entry.addr = signed.descriptor.addr

/-!
## What a call can do
-/

theorem step_cases (s : State) (c : Call) :
    (isAccepted (r.step s c).snd = false ∧
        ((r.step s c).fst = s ∨ (r.step s c).fst = s.prune r.ttl c.now)) ∨
      (exists entry, c.op = .registerUnsigned entry ∧
        isAccepted (r.step s c).snd = true ∧
        (r.step s c).fst = (s.prune r.ttl c.now).put (slotOf entry.addr)
          (heartbeat ((s.prune r.ttl c.now).entries.get? (slotOf entry.addr)) entry c.now)
          c.now) ∨
      (exists signed via, c.op = .registerDescriptor signed via ∧
        isAccepted (r.step s c).snd = true ∧
        signed.verify r.scheme r.format = .ok () ∧
        refusal ((s.prune r.ttl c.now).entries.get? (slotOf signed.descriptor.addr)) signed
          = none ∧
        (r.step s c).fst = (s.prune r.ttl c.now).put (slotOf signed.descriptor.addr)
          (ServerEntry.fromSigned signed via c.now) c.now) := by
  rcases c with ⟨now, op⟩
  cases op with
  | registerUnsigned entry => exact Or.inr (Or.inl ⟨entry, rfl, rfl, rfl⟩)
  | registerDescriptor signed via =>
      unfold step registerDescriptorAt
      simp only []
      cases hverify : signed.verify r.scheme r.format with
      | error err => exact Or.inl ⟨rfl, Or.inl rfl⟩
      | ok done =>
          simp only []
          cases hrefusal : refusal
              ((s.prune r.ttl now).entries.get? (slotOf signed.descriptor.addr)) signed with
          | some err => exact Or.inl ⟨rfl, Or.inr rfl⟩
          | none =>
              exact Or.inr (Or.inr ⟨signed, via, rfl, rfl, hverify, hrefusal, rfl⟩)
  | snapshot | index | healthReport addr => exact Or.inl ⟨rfl, Or.inr rfl⟩

@[simp] theorem lastHeartbeat_heartbeat (held : Option ServerEntry) (entry : ServerEntry)
    (now : Nat) : (heartbeat held entry now).lastHeartbeat = now := by
  unfold heartbeat
  cases held with
  | none => rfl
  | some existing =>
      simp only []
      split
      · rfl
      · rfl

variable {signed : SignedDescriptor} {slot : Slot} {entry existing : ServerEntry}
  {calls : List Call}

theorem heartbeat_of_signed (h : existing.signed = some signed) (entry : ServerEntry) (now : Nat) :
    heartbeat (some existing) entry now =
      { existing with usersOnline := entry.usersOnline, lastHeartbeat := now } := by
  unfold heartbeat
  simp only [h, Option.isSome_some, if_true]

theorem Vouched.heartbeat (h : r.Vouched signed existing) (entry : ServerEntry) (now : Nat) :
    r.Vouched signed (Registry.heartbeat (some existing) entry now) := by
  rw [heartbeat_of_signed h.carried]
  exact ⟨h.carried, h.verifies, h.name, h.description, h.categories, h.addr⟩

theorem vouched_fromSigned (h : signed.verify r.scheme r.format = .ok ()) (via : Option SocketAddr)
    (now : Nat) : r.Vouched signed (ServerEntry.fromSigned signed via now) :=
  ⟨rfl, h, rfl, rfl, rfl, rfl⟩

theorem refusal_eq_none {held : SignedDescriptor} (hcarried : existing.signed = some held)
    (h : refusal (some existing) signed = none) :
    signed.descriptor.serverKey = held.descriptor.serverKey ∧
      held.descriptor.timestamp <= signed.descriptor.timestamp := by
  unfold refusal at h
  simp only [hcarried] at h
  split at h
  · cases h
  · rename_i hkey
    split at h
    · cases h
    · rename_i hstamp
      constructor
      · exact (not_not.mp hkey).symm
      · exact Int64.not_lt.mp hstamp

/-!
## A held slot
-/

/-- The slot holds a statement of the key that is not older than a given one. -/
def Holds (r : Registry) (s : State) (slot : Slot) (signed : SignedDescriptor)
    (heard : Nat) : Prop :=
  exists entry signed', s.entries.get? slot = some entry ∧ r.Vouched signed' entry ∧
    signed'.descriptor.serverKey = signed.descriptor.serverKey ∧
    signed.descriptor.timestamp <= signed'.descriptor.timestamp ∧ entry.lastHeartbeat = heard

theorem Holds.mono {signed' : SignedDescriptor} {heard : Nat}
    (hkey : signed'.descriptor.serverKey = signed.descriptor.serverKey)
    (hstamp : signed.descriptor.timestamp <= signed'.descriptor.timestamp)
    (h : r.Holds s slot signed' heard) : r.Holds s slot signed heard := by
  rcases h with ⟨entry, signed'', hentry, hvouched, hkey', hstamp', hheard⟩
  exact ⟨entry, signed'', hentry, hvouched, hkey'.trans hkey, Int64.le_trans hstamp hstamp', hheard⟩

/-- No call takes a live slot from its key; an accepted registration of it is heard. -/
theorem holds_step (hentry : s.entries.get? slot = some entry) (hvouched : r.Vouched signed entry)
    {c : Call} (hlive : State.isLive r.ttl c.now entry = true) :
    r.Holds (r.step s c).fst slot signed
      (if accepts slot (c, (r.step s c).snd) then c.now else entry.lastHeartbeat) := by
  have hpruned : (s.prune r.ttl c.now).entries.get? slot = some entry := by
    rw [State.entry_prune, hentry, Option.filter_some, hlive]
    rfl
  have hstays : forall s', s'.entries.get? slot = some entry ->
      r.Holds s' slot signed entry.lastHeartbeat :=
    fun s' h => ⟨entry, signed, h, hvouched, rfl, Int64.le_refl _, rfl⟩
  rcases r.step_cases s c with
    ⟨hquiet, hstate⟩ | ⟨beat, hop, hok, hstate⟩ | ⟨signed', via, hop, hok, hverify, hfree, hstate⟩
  · have hnot : accepts slot (c, (r.step s c).snd) = false := by
      unfold accepts
      rw [hquiet, Bool.and_false]
    rw [hnot]
    apply hstays
    rcases hstate with hsame | hswept
    · rw [hsame, hentry]
    · rw [hswept, hpruned]
  · unfold accepts
    rw [hstate, hop, hok, Bool.and_true]
    by_cases hslot : slotOf beat.addr = slot
    · rw [hslot, hpruned]
      have hyes : decide (target (Op.registerUnsigned beat) = some slot) = true := by
        rw [decide_eq_true_iff]
        exact congrArg some hslot
      rw [hyes]
      exact ⟨_, signed, by rw [State.entry_put, if_pos rfl], hvouched.heartbeat r beat c.now,
        rfl, Int64.le_refl _, lastHeartbeat_heartbeat _ _ _⟩
    · have hno : decide (target (Op.registerUnsigned beat) = some slot) = false := by
        rw [decide_eq_false_iff_not]
        exact fun h => hslot (Option.some.inj h)
      rw [hno]
      apply hstays
      rw [State.entry_put, if_neg (Ne.symm hslot), hpruned]
  · unfold accepts
    rw [hstate, hop, hok, Bool.and_true]
    by_cases hslot : slotOf signed'.descriptor.addr = slot
    · rw [hslot, hpruned] at hfree
      rcases refusal_eq_none hvouched.carried hfree with ⟨hkey, hstamp⟩
      have hyes : decide (target (Op.registerDescriptor signed' via) = some slot) = true := by
        rw [decide_eq_true_iff]
        exact congrArg some hslot
      rw [hyes, hslot]
      exact ⟨_, signed', by rw [State.entry_put, if_pos rfl],
        r.vouched_fromSigned hverify via c.now, hkey, hstamp, rfl⟩
    · have hno : decide (target (Op.registerDescriptor signed' via) = some slot) = false := by
        rw [decide_eq_false_iff_not]
        exact fun h => hslot (Option.some.inj h)
      rw [hno]
      apply hstays
      rw [State.entry_put, if_neg (Ne.symm hslot), hpruned]

theorem acceptedAt_cons (slot : Slot) (answered : Call × Answer) (rest : List (Call × Answer)) :
    acceptedAt slot (answered :: rest) =
      if accepts slot answered then answered.fst.now :: acceptedAt slot rest
      else acceptedAt slot rest := by
  unfold acceptedAt
  rw [filter_cons]
  split
  · rfl
  · rfl

theorem acceptedAt_append (slot : Slot) (front back : List (Call × Answer)) :
    acceptedAt slot (front ++ back) = acceptedAt slot front ++ acceptedAt slot back := by
  unfold acceptedAt
  rw [filter_append, map_append]

theorem mem_history {answered : Call × Answer} (h : answered ∈ r.history s calls) :
    answered.fst ∈ calls := by
  induction calls generalizing s with
  | nil => cases h
  | cons c rest ih =>
      rcases mem_cons.mp h with rfl | hrest
      · exact mem_cons_self
      · exact mem_cons_of_mem c (ih hrest)

theorem exists_of_mem_acceptedAt {t : Nat} (h : t ∈ acceptedAt slot (r.history s calls)) :
    exists c, c ∈ calls ∧ c.now = t := by
  rcases mem_map.mp h with ⟨answered, hmem, rfl⟩
  exact ⟨answered.fst, r.mem_history (mem_filter.mp hmem).left, rfl⟩

/-- From each instant to the next, and to the end, less than a lifetime goes by. -/
def Gapless (ttl : Nat) (heard : Nat) (times : List Nat) (now : Nat) : Prop :=
  IsChain (fun t t' => t' - t < ttl) (heard :: (times ++ [now]))

theorem Gapless.live {ttl heard now t : Nat} {times : List Nat}
    (h : Gapless ttl heard times now) (htimes : forall t', t' ∈ times -> t <= t')
    (hnow : t <= now) : t - heard < ttl := by
  unfold Gapless at h
  cases times with
  | nil =>
      have hfirst := (isChain_cons_cons.mp h).left
      exact Nat.lt_of_le_of_lt (Nat.sub_le_sub_right hnow heard) hfirst
  | cons t' rest =>
      have hfirst := (isChain_cons_cons.mp h).left
      have hle := htimes t' mem_cons_self
      exact Nat.lt_of_le_of_lt (Nat.sub_le_sub_right hle heard) hfirst

theorem holds_run (horder : InOrder calls) {now : Nat} (hentry : s.entries.get? slot = some entry)
    (hvouched : r.Vouched signed entry) (hend : forall c, c ∈ calls -> c.now <= now)
    (hgap : Gapless r.ttl entry.lastHeartbeat (acceptedAt slot (r.history s calls)) now) :
    exists heard, r.Holds (r.run s calls) slot signed heard ∧ now - heard < r.ttl := by
  induction calls generalizing s entry signed with
  | nil =>
      exists entry.lastHeartbeat
      constructor
      · exact ⟨entry, signed, hentry, hvouched, rfl, Int64.le_refl _, rfl⟩
      · exact (isChain_cons_cons.mp hgap).left
  | cons c rest ih =>
      rcases pairwise_cons.mp horder with ⟨hfirst, hrest⟩
      have hlive : State.isLive r.ttl c.now entry = true := by
        rw [State.isLive_iff]
        apply hgap.live _ (hend c mem_cons_self)
        intro t ht
        rcases r.exists_of_mem_acceptedAt ht with ⟨c', hc', rfl⟩
        rcases mem_cons.mp hc' with rfl | hin
        · exact Nat.le_refl _
        · exact hfirst c' hin
      rcases r.holds_step hentry hvouched hlive with
        ⟨entry', signed', hentry', hvouched', hkey, hstamp, hheard⟩
      have hgap' : Gapless r.ttl entry'.lastHeartbeat
          (acceptedAt slot (r.history (r.step s c).fst rest)) now := by
        unfold history at hgap
        rw [acceptedAt_cons] at hgap
        rw [hheard]
        split at hgap
        · rename_i hyes
          rw [if_pos hyes]
          exact (isChain_cons_cons.mp hgap).right
        · rename_i hno
          rw [if_neg hno]
          exact hgap
      rcases ih hrest hentry' hvouched' (fun c' hc' => hend c' (mem_cons_of_mem c hc')) hgap'
        with ⟨heard, hholds, hfresh⟩
      exact ⟨heard, hholds.mono r hkey hstamp, hfresh⟩

/-!
## What is served
-/

/-- Every entry was last refreshed when a registration of its slot was last accepted. -/
def Heard (s : State) (answered : List (Call × Answer)) : Prop :=
  forall slot entry, s.entries.get? slot = some entry ->
    (acceptedAt slot answered).getLast? = some entry.lastHeartbeat

theorem heard_step {answered : List (Call × Answer)} (h : Heard s answered) (c : Call) :
    Heard (r.step s c).fst (answered ++ [(c, (r.step s c).snd)]) := by
  have hput : forall slot entry, target c.op = some slot ->
      isAccepted (r.step s c).snd = true -> entry.lastHeartbeat = c.now ->
      Heard ((s.prune r.ttl c.now).put slot entry c.now)
        (answered ++ [(c, (r.step s c).snd)]) := by
    intro slot entry htarget hok hbeat slot' entry' hentry'
    rw [State.entry_put] at hentry'
    rw [acceptedAt_append, acceptedAt_cons]
    unfold accepts
    rw [hok, htarget, Bool.and_true]
    split at hentry'
    · rename_i hslot
      cases hentry'
      rw [if_pos (by rw [decide_eq_true_iff, hslot]), getLast?_append, hbeat]
      rfl
    · rename_i hslot
      rw [if_neg (by rw [decide_eq_true_iff]; exact fun heq => hslot (Option.some.inj heq).symm)]
      rw [State.entry_prune] at hentry'
      have hlast := h slot' entry' (Option.filter_eq_some_iff.mp hentry').left
      rw [show acceptedAt slot' [] = [] from rfl, append_nil]
      exact hlast
  rcases r.step_cases s c with
    ⟨hquiet, hstate⟩ | ⟨beat, hop, hok, hstate⟩ | ⟨signed, via, hop, hok, -, -, hstate⟩
  · intro slot entry hentry
    rw [acceptedAt_append, acceptedAt_cons]
    unfold accepts
    rw [hquiet, Bool.and_false, if_neg Bool.false_ne_true,
      show acceptedAt slot [] = [] from rfl, append_nil]
    rcases hstate with hsame | hswept
    · rw [hsame] at hentry
      exact h slot entry hentry
    · rw [hswept, State.entry_prune] at hentry
      exact h slot entry (Option.filter_eq_some_iff.mp hentry).left
  · rw [hstate]
    exact hput _ _ (by rw [hop]; rfl) hok (lastHeartbeat_heartbeat _ _ _)
  · rw [hstate]
    exact hput _ _ (by rw [hop]; rfl) hok rfl

theorem heard_run {answered : List (Call × Answer)} (h : Heard s answered) (calls : List Call) :
    Heard (r.run s calls) (answered ++ r.history s calls) := by
  induction calls generalizing s answered with
  | nil =>
      show Heard s (answered ++ [])
      rw [append_nil]
      exact h
  | cons c rest ih =>
      have hrest := ih (r.heard_step h c)
      rw [append_assoc] at hrest
      exact hrest

theorem heard_empty (calls : List Call) :
    Heard (r.run State.empty calls) (r.history State.empty calls) := by
  have hempty : Heard State.empty [] := by
    intro slot entry h
    rw [State.entry_empty] at h
    cases h
  exact r.heard_run hempty calls

theorem mem_snapshot {now : Nat} :
    entry ∈ (r.snapshotAt s now).snd <->
      exists slot, s.entries.get? slot = some entry ∧ State.isLive r.ttl now entry = true := by
  unfold snapshotAt
  simp only []
  rw [mem_listBy, mem_map]
  constructor
  · rintro ⟨held, hheld, rfl⟩
    have hget := Dict.get?_eq_some_iff.mpr hheld
    rw [State.entry_prune] at hget
    exact ⟨held.fst, Option.filter_eq_some_iff.mp hget⟩
  · rintro ⟨slot, hget, hlive⟩
    have hpruned : (s.prune r.ttl now).entries.get? slot = some entry := by
      rw [State.entry_prune]
      exact Option.filter_eq_some_iff.mpr ⟨hget, hlive⟩
    exact ⟨(slot, entry), Dict.get?_eq_some_iff.mp hpruned, rfl⟩

theorem entries_index_perm (s : State) (now : Nat) :
    ((r.indexAt s now).snd.map IndexRow.entry).Perm (r.snapshotAt s now).snd := by
  apply ((perm_listBy indexRank _).map IndexRow.entry).trans
  apply Perm.trans _ (perm_listBy snapshotRank _).symm
  rw [map_map]
  apply Perm.of_eq
  apply map_congr_left
  intro held _
  exact entry_indexRow _ now held.fst held.snd

theorem nodup_snapshot (hplaced : s.Placed) (now : Nat) :
    ((r.snapshotAt s now).snd.map (fun entry => slotOf entry.addr)).Nodup := by
  have hpruned := hplaced.prune r.ttl now
  apply ((perm_listBy snapshotRank _).map _).nodup_iff.mpr
  rw [map_map]
  have hslots : forall held, held ∈ (s.prune r.ttl now).entries.entries ->
      ((fun entry : ServerEntry => slotOf entry.addr) ∘ Prod.snd) held = held.fst :=
    fun held hheld => hpruned held.fst held.snd (Dict.get?_eq_some_iff.mpr hheld)
  rw [map_congr_left hslots]
  exact (s.prune r.ttl now).entries.nodup

/-!
## Refusals
-/

/-- The second state has lost no more than what had expired: it answers every later call
as the first one does. -/
def Untouched (r : Registry) (now : Nat) (s s' : State) : Prop :=
  r.Agree now s s' ∧
    forall slot, s'.entries.get? slot = s.entries.get? slot ∨
      (s'.entries.get? slot = none ∧
        exists entry, s.entries.get? slot = some entry ∧ r.ttl <= now - entry.lastHeartbeat)

theorem untouched_prune (s : State) (now : Nat) : r.Untouched now s (s.prune r.ttl now) := by
  constructor
  · exact (Agree.of_prune (Nat.le_refl now) s).symm
  · intro slot
    rw [State.entry_prune]
    cases hheld : s.entries.get? slot with
    | none => exact Or.inl rfl
    | some entry =>
        rw [Option.filter_some]
        cases hlive : State.isLive r.ttl now entry with
        | true => exact Or.inl rfl
        | false =>
            apply Or.inr
            refine ⟨rfl, entry, rfl, ?_⟩
            apply Nat.le_of_not_lt
            intro hlt
            rw [State.isLive_iff.mpr hlt] at hlive
            cases hlive

theorem untouched_of_refused {c : Call} (h : isAccepted (r.step s c).snd = false) :
    r.Untouched c.now s (r.step s c).fst := by
  rcases r.step_cases s c with
    ⟨-, hsame | hswept⟩ | ⟨-, -, hok, -⟩ | ⟨-, -, -, hok, -⟩
  · rw [hsame]
    exact ⟨State.Same.refl _, fun _ => Or.inl rfl⟩
  · rw [hswept]
    exact r.untouched_prune s c.now
  all_goals
    rw [h] at hok
    cases hok

theorem holds_of_accepted {c : Call} {via : Option SocketAddr}
    (hop : c.op = .registerDescriptor signed via) (h : isAccepted (r.step s c).snd = true) :
    r.Holds (r.step s c).fst (slotOf signed.descriptor.addr) signed c.now := by
  rcases r.step_cases s c with
    ⟨hno, -⟩ | ⟨beat, hbeat, -⟩ | ⟨signed', via', hop', -, hverify, -, hstate⟩
  · rw [h] at hno
    cases hno
  · rw [hop] at hbeat
    cases hbeat
  · rw [hop] at hop'
    cases hop'
    rw [hstate]
    exact ⟨_, signed, by rw [State.entry_put, if_pos rfl], r.vouched_fromSigned hverify via c.now,
      rfl, Int64.le_refl _, rfl⟩

/-!
## The policy
-/

/-- Any order of calls, from any senders.  What is listed is one entry a slot, each refreshed
less than a lifetime ago.  What is refused changes nothing but expired entries.  An accepted
descriptor holds its slot, and a slot held by a key, as long as its registrations leave no
gap, is listed with a statement of that key no older than the one that held it. -/
theorem slots_are_held {calls : List Call} (horder : InOrder calls) :
    (forall now, (forall c, c ∈ calls -> c.now <= now) ->
      ((r.snapshotAt (r.run State.empty calls) now).snd.map
        (fun entry => slotOf entry.addr)).Nodup ∧
      ((r.indexAt (r.run State.empty calls) now).snd.map IndexRow.entry).Perm
        (r.snapshotAt (r.run State.empty calls) now).snd ∧
      forall entry, entry ∈ (r.snapshotAt (r.run State.empty calls) now).snd ->
        exists t, (acceptedAt (slotOf entry.addr) (r.history State.empty calls)).getLast? =
            some t ∧ t <= now ∧ now - t < r.ttl) ∧
    (forall front c back, calls = front ++ c :: back ->
      isAccepted (r.step (r.run State.empty front) c).snd = false ->
        r.Untouched c.now (r.run State.empty front) (r.step (r.run State.empty front) c).fst) ∧
    (forall front c back signed via, calls = front ++ c :: back ->
      c.op = .registerDescriptor signed via ->
      isAccepted (r.step (r.run State.empty front) c).snd = true ->
        r.Holds (r.run State.empty (front ++ [c])) (slotOf signed.descriptor.addr) signed
          c.now) ∧
    (forall front back slot entry signed heard now, calls = front ++ back ->
      (r.run State.empty front).entries.get? slot = some entry -> r.Vouched signed entry ->
      (acceptedAt slot (r.history State.empty front)).getLast? = some heard ->
      (forall c, c ∈ back -> c.now <= now) ->
      Gapless r.ttl heard (acceptedAt slot (r.history (r.run State.empty front) back)) now ->
        exists entry' signed',
          entry' ∈ (r.snapshotAt (r.run State.empty calls) now).snd ∧
          slotOf entry'.addr = slot ∧ r.Vouched signed' entry' ∧
          signed'.descriptor.serverKey = signed.descriptor.serverKey ∧
          signed.descriptor.timestamp <= signed'.descriptor.timestamp) := by
  have hplaced := r.placed_run State.placed_empty calls
  refine ⟨?_, ?_, ?_, ?_⟩
  · intro now hend
    refine ⟨r.nodup_snapshot hplaced now, r.entries_index_perm _ now, ?_⟩
    intro entry hentry
    rcases (r.mem_snapshot).mp hentry with ⟨slot, hget, hlive⟩
    have hheard := r.heard_empty calls slot entry hget
    rw [hplaced slot entry hget]
    refine ⟨entry.lastHeartbeat, hheard, ?_, State.isLive_iff.mp hlive⟩
    rcases r.exists_of_mem_acceptedAt (mem_of_getLast? hheard) with ⟨c, hc, hnow⟩
    rw [<- hnow]
    exact hend c hc
  · intro front c back _ hrefused
    exact r.untouched_of_refused hrefused
  · intro front c back signed via _ hop haccepted
    rw [run_append]
    exact r.holds_of_accepted hop haccepted
  · intro front back slot entry signed heard now hcalls hentry hvouched hheard hend hgap
    have hlast := r.heard_empty front slot entry hentry
    rw [hheard] at hlast
    cases hlast
    rw [hcalls] at horder hplaced
    rw [hcalls]
    rcases r.holds_run (pairwise_append.mp horder).right.left hentry hvouched hend hgap with
      ⟨heard', ⟨entry', signed', hentry', hvouched', hkey, hstamp, hbeat⟩, hfresh⟩
    rw [<- run_append] at hentry'
    refine ⟨entry', signed', ?_, hplaced slot entry' hentry', hvouched', hkey, hstamp⟩
    apply (r.mem_snapshot).mpr
    rw [<- hbeat] at hfresh
    exact ⟨slot, hentry', State.isLive_iff.mpr hfresh⟩

/-- Every document below is signed by the key that it names. -/
def sampled : Registry where
  ttl := seconds 360
  scheme := ⟨fun _ _ _ => true⟩
  format := Format.wire

def wonderland (key : PublicKey) (timestamp : Int64) : SignedDescriptor where
  descriptor :=
    { serverKey := key
      name := "Wonderland".toList
      description := "Down the rabbit hole".toList
      addr := ⟨.v4 0xcb007107, 5500⟩
      categories := ["chat".toList]
      usersOnline := 12
      capacity := 64
      software := []
      timestamp := timestamp }
  sig := 0

def spoof : ServerEntry :=
  { plain with addr := (wonderland 1 0).descriptor.addr }

/-- Somebody else's key, a heartbeat under another name, and an old statement come to a
slot that is held, before its own server is heard of again. -/
def contested : List Call :=
  [⟨0, .registerDescriptor (wonderland 1 100) none⟩,
    ⟨seconds 10, .registerDescriptor (wonderland 2 900) none⟩,
    ⟨seconds 100, .registerUnsigned spoof⟩,
    ⟨seconds 200, .registerDescriptor (wonderland 1 50) none⟩,
    ⟨seconds 300, .registerDescriptor (wonderland 1 200) (some ⟨.v4 0xc0a80001, 5502⟩)⟩]

theorem slots_are_held_contested :
    exists entry signed,
      entry ∈ (sampled.snapshotAt (sampled.run State.empty contested) (seconds 500)).snd ∧
      slotOf entry.addr = slotOf (wonderland 1 100).descriptor.addr ∧
      sampled.Vouched signed entry ∧ signed.descriptor.serverKey = 1 ∧
      100 <= signed.descriptor.timestamp := by
  have horder : InOrder contested := by
    unfold InOrder contested
    decide
  have hheld := (sampled.slots_are_held horder).right.right
  rcases hheld.left [] ⟨0, .registerDescriptor (wonderland 1 100) none⟩ (contested.drop 1)
    (wonderland 1 100) none rfl rfl rfl with ⟨entry, signed, hentry, hvouched, hkey, hstamp, -⟩
  have hgap : Gapless sampled.ttl 0
      (acceptedAt (slotOf (wonderland 1 100).descriptor.addr)
        (sampled.history (sampled.run State.empty (contested.take 1)) (contested.drop 1)))
      (seconds 500) := by
    rw [show acceptedAt (slotOf (wonderland 1 100).descriptor.addr)
      (sampled.history (sampled.run State.empty (contested.take 1)) (contested.drop 1)) =
        [seconds 100, seconds 300] from rfl]
    unfold Gapless
    decide
  rcases hheld.right (contested.take 1) (contested.drop 1) _ entry signed 0 (seconds 500) rfl
    hentry hvouched rfl (by decide) hgap with
    ⟨entry', signed', hserved, hslot, hvouched', hkey', hstamp'⟩
  exact ⟨entry', signed', hserved, hslot, hvouched', hkey'.trans hkey,
    Int64.le_trans hstamp hstamp'⟩

/-- The path without signatures only brings entries without one. -/
def Plain (calls : List Call) : Prop :=
  forall c entry, c ∈ calls -> c.op = .registerUnsigned entry -> entry.signed = none

/-- Then every entry that carries a descriptor is that descriptor's. -/
theorem vouched_run (hplain : Plain calls)
    (h : forall slot entry signed, s.entries.get? slot = some entry ->
      entry.signed = some signed -> r.Vouched signed entry)
    (hentry : (r.run s calls).entries.get? slot = some entry)
    (hsigned : entry.signed = some signed) : r.Vouched signed entry := by
  induction calls generalizing s with
  | nil => exact h slot entry signed hentry hsigned
  | cons c rest ih =>
      have hswept : forall slot entry signed,
          (s.prune r.ttl c.now).entries.get? slot = some entry ->
          entry.signed = some signed -> r.Vouched signed entry := by
        intro slot entry signed hget
        rw [State.entry_prune] at hget
        exact h slot entry signed (Option.filter_eq_some_iff.mp hget).left
      apply ih (fun c' beat hc' => hplain c' beat (mem_cons_of_mem c hc')) _ hentry
      intro slot entry signed hget hcarried
      rcases r.step_cases s c with
        ⟨-, hsame | hprune⟩ | ⟨beat, hop, -, hstate⟩ | ⟨signed', via, -, -, hverify, -, hstate⟩
      · rw [hsame] at hget
        exact h slot entry signed hget hcarried
      · rw [hprune] at hget
        exact hswept slot entry signed hget hcarried
      · rw [hstate, State.entry_put] at hget
        split at hget
        · cases hget
          cases hheld : (s.prune r.ttl c.now).entries.get? (slotOf beat.addr) with
          | none =>
              rw [hheld] at hcarried
              have hnone := hplain c beat mem_cons_self hop
              unfold heartbeat at hcarried
              simp only [hnone] at hcarried
              cases hcarried
          | some existing =>
              rw [hheld] at hcarried
              cases hexisting : existing.signed with
              | none =>
                  have hnone := hplain c beat mem_cons_self hop
                  unfold heartbeat at hcarried
                  simp [hexisting, hnone] at hcarried
              | some held =>
                  have hvouched := hswept _ existing held hheld hexisting
                  rw [heartbeat_of_signed hexisting] at hcarried
                  have hsame : held = signed := Option.some.inj (hexisting.symm.trans hcarried)
                  rw [<- hsame]
                  exact hvouched.heartbeat r beat c.now
        · exact hswept slot entry signed hget hcarried
      · rw [hstate, State.entry_put] at hget
        split at hget
        · cases hget
          cases hcarried
          exact r.vouched_fromSigned hverify via c.now
        · exact hswept slot entry signed hget hcarried

theorem vouched_run_contested :
    exists entry signed, (sampled.run State.empty contested).entries.get? (slotOf spoof.addr) =
      some entry ∧ entry.signed = some signed ∧ sampled.Vouched signed entry := by
  have hplain : Plain contested := by
    intro c entry hc hop
    simp only [contested, mem_cons, not_mem_nil, or_false] at hc
    rcases hc with rfl | rfl | rfl | rfl | rfl <;> cases hop
    rfl
  have hthere : ((sampled.run State.empty contested).entries.get? (slotOf spoof.addr)).bind
      ServerEntry.signed = some (wonderland 1 200) := rfl
  rcases Option.bind_eq_some_iff.mp hthere with ⟨entry, hentry, hsigned⟩
  refine ⟨entry, _, hentry, hsigned, sampled.vouched_run hplain ?_ hentry hsigned⟩
  intro slot entry signed hget
  rw [State.entry_empty] at hget
  cases hget

end Registry
end Rabbithole.Tracker
