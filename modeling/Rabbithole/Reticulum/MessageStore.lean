import Mathlib.Data.List.Sort
import Rabbithole.Reticulum.Tunnel

/-!
# The message store

A node holds the messages it still has to forward, and remembers the ids it has accepted for
as long as a message of that id can be young enough to be offered again.
-/

namespace Rabbithole.Reticulum

open Foundation List Dict

inductive OfferOutcome where
  | accept
  | duplicate
  | expired
  | tooLarge
deriving DecidableEq

/-- The ids accepted, each with the creation time, and the messages still held. -/
structure MessageStore where
  ttlMs : UInt64
  maxPayload : Nat
  seen : Dict TunnelId UInt64
  pending : Dict TunnelId TunnelMessage

namespace MessageStore

def withMaxPayload (ttlMs : UInt64) (maxPayload : Nat) : MessageStore where
  ttlMs := ttlMs
  maxPayload := min maxPayload maxTunnelPayload
  seen := Dict.empty
  pending := Dict.empty

def new (ttlMs : UInt64) : MessageStore :=
  withMaxPayload ttlMs maxTunnelPayload

def young (ttlMs createdMs nowMs : UInt64) : Bool :=
  decide (saturatingSub nowMs createdMs < ttlMs)

def isLiveDuplicate (store : MessageStore) (id : TunnelId) (nowMs : UInt64) : Bool :=
  (store.seen.get? id).any (fun created => young store.ttlMs created nowMs)

def offer (store : MessageStore) (msg : TunnelMessage) (nowMs : UInt64) :
    OfferOutcome × MessageStore :=
  if store.maxPayload < msg.payload.length then (.tooLarge, store)
  else if store.ttlMs <= saturatingSub nowMs msg.createdMs then (.expired, store)
  else if store.isLiveDuplicate msg.id nowMs then (.duplicate, store)
  else
    (.accept, { store with
      seen := store.seen.insert msg.id msg.createdMs
      pending := store.pending.insert msg.id msg })

def held (store : MessageStore) : List TunnelMessage :=
  (store.pending.entries.insertionSort
    (fun a b => (compare a.fst.toList b.fst.toList).isLE = true)).map Prod.snd

def due (store : MessageStore) (nowMs : UInt64) : List TunnelMessage :=
  store.held.filter (fun m => young store.ttlMs m.createdMs nowMs)

def get (store : MessageStore) (id : TunnelId) : Option TunnelMessage :=
  store.pending.get? id

def contains (store : MessageStore) (id : TunnelId) (nowMs : UInt64) : Bool :=
  (store.pending.get? id).any (fun m => young store.ttlMs m.createdMs nowMs)

def remove (store : MessageStore) (id : TunnelId) : Option TunnelMessage × MessageStore :=
  (store.pending.get? id, { store with pending := store.pending.erase id })

def purgeExpired (store : MessageStore) (nowMs : UInt64) : MessageStore :=
  { store with
    pending := store.pending.retain (fun _ m => young store.ttlMs m.createdMs nowMs)
    seen := store.seen.retain (fun _ created => young store.ttlMs created nowMs) }

/-!
## The operations

A message that is too old stays too old.  What is due is read off the lookup of each id.
-/

variable {store : MessageStore} {nowMs : UInt64}

theorem young_iff {ttlMs createdMs : UInt64} :
    young ttlMs createdMs nowMs = true <->
      nowMs.toNat - createdMs.toNat < ttlMs.toNat := by
  unfold young
  rw [decide_eq_true_iff, UInt64.lt_iff_toNat_lt, toNat_saturatingSub]

theorem young_anti {ttlMs createdMs laterMs : UInt64} (hle : nowMs <= laterMs)
    (h : young ttlMs createdMs laterMs = true) : young ttlMs createdMs nowMs = true := by
  rw [young_iff] at h ⊢
  rw [UInt64.le_iff_toNat_le] at hle
  exact Nat.lt_of_le_of_lt (Nat.sub_le_sub_right hle _) h

theorem offer_cases (store : MessageStore) (msg : TunnelMessage) (nowMs : UInt64) :
    ((store.offer msg nowMs).fst = .accept ∧
      (store.offer msg nowMs).snd = { store with
        seen := store.seen.insert msg.id msg.createdMs
        pending := store.pending.insert msg.id msg } ∧
      young store.ttlMs msg.createdMs nowMs = true ∧
      store.isLiveDuplicate msg.id nowMs = false) ∨
    ((store.offer msg nowMs).fst ≠ .accept ∧ (store.offer msg nowMs).snd = store) := by
  unfold offer
  split
  · exact Or.inr ⟨by simp, rfl⟩
  · split
    · exact Or.inr ⟨by simp, rfl⟩
    · rename_i hyoung
      split
      · exact Or.inr ⟨by simp, rfl⟩
      · rename_i hnew
        refine Or.inl ⟨rfl, rfl, ?_, Bool.eq_false_iff.mpr hnew⟩
        unfold young
        exact decide_eq_true (UInt64.not_le.mp hyoung)

/-- Every held message is held under its own id. -/
def Keyed (store : MessageStore) : Prop :=
  forall id m, store.pending.get? id = some m -> m.id = id

theorem perm_held (store : MessageStore) : store.held.Perm (store.pending.entries.map Prod.snd) :=
  (perm_insertionSort _ _).map _

theorem mem_held (hkeyed : store.Keyed) {m : TunnelMessage} :
    m ∈ store.held <-> store.pending.get? m.id = some m := by
  rw [store.perm_held.mem_iff, mem_map]
  constructor
  · rintro ⟨⟨id, m'⟩, hmem, rfl⟩
    have hget := get?_eq_some_iff.mpr hmem
    rw [hkeyed id m' hget]
    exact hget
  · intro hget
    exact ⟨_, get?_eq_some_iff.mp hget, rfl⟩

theorem nodup_held (hkeyed : store.Keyed) : store.held.Nodup := by
  have hkeys : (store.pending.entries.map Prod.snd).map TunnelMessage.id =
      store.pending.entries.map Prod.fst := by
    rw [map_map]
    apply map_congr_left
    rintro ⟨id, m⟩ hmem
    exact hkeyed id m (get?_eq_some_iff.mpr hmem)
  have hids : (store.held.map TunnelMessage.id).Nodup := by
    rw [((store.perm_held).map TunnelMessage.id).nodup_iff, hkeys]
    exact store.pending.nodup
  exact Nodup.of_map _ hids

theorem mem_due (hkeyed : store.Keyed) {m : TunnelMessage} :
    m ∈ store.due nowMs <->
      store.pending.get? m.id = some m ∧ young store.ttlMs m.createdMs nowMs = true := by
  unfold due
  rw [mem_filter, mem_held hkeyed]

theorem nodup_due (hkeyed : store.Keyed) (nowMs : UInt64) : (store.due nowMs).Nodup :=
  (nodup_held hkeyed).filter _

end MessageStore

/-!
## A store in use

Calls come with a clock that does not go back.  Beside the store are kept the messages that
were ever accepted, and the bodies that were ever removed.
-/

inductive StoreCall where
  | offer (msg : TunnelMessage) (nowMs : UInt64)
  | remove (id : TunnelId)
  | due (nowMs : UInt64)
  | purgeExpired (nowMs : UInt64)

structure Custody where
  store : MessageStore
  clock : UInt64
  accepted : List TunnelMessage
  removed : List TunnelMessage

namespace Custody

def start (ttlMs : UInt64) (maxPayload : Nat) : Custody where
  store := MessageStore.withMaxPayload ttlMs maxPayload
  clock := 0
  accepted := []
  removed := []

/-- A call, where it does not come before an earlier one. -/
def step (s : Custody) : StoreCall -> Option Custody
  | .offer msg nowMs =>
      if s.clock <= nowMs then
        let (outcome, store) := s.store.offer msg nowMs
        some { s with
          store := store
          clock := nowMs
          accepted := if outcome = .accept then msg :: s.accepted else s.accepted }
      else none
  | .remove id =>
      let (body, store) := s.store.remove id
      some { s with
        store := store
        removed := body.toList ++ s.removed }
  | .due nowMs => if s.clock <= nowMs then some { s with clock := nowMs } else none
  | .purgeExpired nowMs =>
      if s.clock <= nowMs then
        some { s with
          store := s.store.purgeExpired nowMs
          clock := nowMs }
      else none

end Custody

/-- The messages offered by these calls. -/
def offered (calls : List StoreCall) : List TunnelMessage :=
  calls.filterMap (fun
    | .offer msg _ => some msg
    | _ => none)

/-- The ids tell the creation times, as a content address does. -/
def IdsTell (messages : List TunnelMessage) : Prop :=
  forall m, m ∈ messages -> forall m', m' ∈ messages -> m.id = m'.id ->
    m.createdMs = m'.createdMs

instance (messages : List TunnelMessage) : Decidable (IdsTell messages) :=
  inferInstanceAs (Decidable (forall m, m ∈ messages -> _))

/-- Too old for the store at its present clock, and for good. -/
def Custody.Stale (s : Custody) (m : TunnelMessage) : Prop :=
  MessageStore.young s.store.ttlMs m.createdMs s.clock = false

structure Custody.Sound (ttlMs : UInt64) (messages : List TunnelMessage) (s : Custody) :
    Prop where
  ttl : s.store.ttlMs = ttlMs
  offered : forall m, m ∈ s.accepted -> m ∈ messages
  once : (s.accepted.map TunnelMessage.id).Nodup
  /-- An accepted id is remembered until no message of it is young any more. -/
  remembered : forall m, m ∈ s.accepted ->
    s.store.seen.get? m.id = some m.createdMs ∨ s.Stale m
  holds : forall id m, s.store.pending.get? id = some m ->
    m.id = id ∧ m ∈ s.accepted ∧ s.store.seen.get? id = some m.createdMs
  kept : forall m, m ∈ s.accepted -> m ∉ s.removed ->
    s.store.pending.get? m.id = some m ∨ s.Stale m
  gone : forall m, m ∈ s.removed -> m ∈ s.accepted ∧ s.store.pending.get? m.id = none

namespace Custody
namespace Sound

variable {ttlMs nowMs : UInt64} {messages : List TunnelMessage} {s : Custody}

theorem keyed (h : s.Sound ttlMs messages) : s.store.Keyed :=
  fun id m hget => (h.holds id m hget).left

theorem start (maxPayload : Nat) : (Custody.start ttlMs maxPayload).Sound ttlMs messages := by
  constructor
  · rfl
  · intro m hm
    cases hm
  · exact nodup_nil
  · intro m hm
    cases hm
  · intro id m hget
    cases hget
  · intro m hm
    cases hm
  · intro m hm
    cases hm

theorem stale_later {m : TunnelMessage} (hnow : s.clock <= nowMs) (h : s.Stale m) :
    MessageStore.young s.store.ttlMs m.createdMs nowMs = false := by
  rw [Bool.eq_false_iff]
  intro hyoung
  have hearlier := MessageStore.young_anti hnow hyoung
  unfold Stale at h
  rw [h] at hearlier
  cases hearlier

section

variable (h : s.Sound ttlMs messages)
include h

theorem tick (hnow : s.clock <= nowMs) : Sound ttlMs messages { s with clock := nowMs } where
  ttl := h.ttl
  offered := h.offered
  once := h.once
  remembered := fun m hm => (h.remembered m hm).imp_right (stale_later (s := s) hnow)
  holds := h.holds
  kept := fun m hm hnot => (h.kept m hm hnot).imp_right (stale_later (s := s) hnow)
  gone := h.gone

theorem id_new (hids : IdsTell messages) {msg : TunnelMessage} (hmsg : msg ∈ messages)
    (hnow : s.clock <= nowMs) (hyoung : MessageStore.young s.store.ttlMs msg.createdMs nowMs = true)
    (hnew : s.store.isLiveDuplicate msg.id nowMs = false) :
    msg.id ∉ s.accepted.map TunnelMessage.id := by
  intro hmem
  rcases mem_map.mp hmem with ⟨m, hm, hid⟩
  have hcreated : m.createdMs = msg.createdMs := hids m (h.offered m hm) msg hmsg hid
  rcases h.remembered m hm with hseen | hstale
  · unfold MessageStore.isLiveDuplicate at hnew
    rw [← hid, hseen, hcreated, Option.any_some, hyoung] at hnew
    cases hnew
  · have hlater := stale_later hnow hstale
    rw [hcreated, hyoung] at hlater
    cases hlater

theorem accept {msg : TunnelMessage} (hmsg : msg ∈ messages)
    (hnew : msg.id ∉ s.accepted.map TunnelMessage.id) : Sound ttlMs messages { s with
      store := { s.store with
        seen := s.store.seen.insert msg.id msg.createdMs
        pending := s.store.pending.insert msg.id msg }
      accepted := msg :: s.accepted } := by
  have hother : forall m, m ∈ s.accepted -> m.id ≠ msg.id := by
    intro m hm heq
    apply hnew
    rw [← heq]
    exact mem_map_of_mem hm
  constructor
  · exact h.ttl
  · intro m hm
    rcases mem_cons.mp hm with rfl | hm
    · exact hmsg
    · exact h.offered m hm
  · exact nodup_cons.mpr ⟨hnew, h.once⟩
  · intro m hm
    simp only [get?_insert]
    rcases mem_cons.mp hm with rfl | hm
    · rw [if_pos rfl]
      exact Or.inl rfl
    · rw [if_neg (hother m hm)]
      exact h.remembered m hm
  · intro id m hget
    simp only [get?_insert] at hget ⊢
    split at hget
    · rename_i hid
      cases hget
      rw [if_pos hid]
      exact ⟨hid.symm, mem_cons_self, rfl⟩
    · rename_i hid
      rcases h.holds id m hget with ⟨hkey, hm, hseen⟩
      rw [if_neg hid]
      exact ⟨hkey, mem_cons_of_mem _ hm, hseen⟩
  · intro m hm hnot
    simp only [get?_insert]
    rcases mem_cons.mp hm with rfl | hm
    · rw [if_pos rfl]
      exact Or.inl rfl
    · rw [if_neg (hother m hm)]
      exact h.kept m hm hnot
  · intro m hm
    rcases h.gone m hm with ⟨haccepted, hnone⟩
    simp only [get?_insert]
    rw [if_neg (hother m haccepted)]
    exact ⟨mem_cons_of_mem _ haccepted, hnone⟩

theorem remove (id : TunnelId) : Sound ttlMs messages { s with
      store := (s.store.remove id).snd
      removed := (s.store.remove id).fst.toList ++ s.removed } := by
  have hget : forall id', (s.store.remove id).snd.pending.get? id' =
      if id' = id then none else s.store.pending.get? id' :=
    fun id' => get?_erase _ _ _
  constructor
  · exact h.ttl
  · exact h.offered
  · exact h.once
  · exact h.remembered
  · intro id' m hm
    rw [hget] at hm
    split at hm
    · cases hm
    · exact h.holds id' m hm
  · intro m hm hnot
    rw [mem_append, not_or] at hnot
    rw [hget]
    rcases h.kept m hm hnot.right with hheld | hstale
    · left
      rw [if_neg]
      · exact hheld
      · intro heq
        apply hnot.left
        rw [heq] at hheld
        rw [Option.mem_toList]
        exact hheld
    · exact Or.inr hstale
  · intro m hm
    rw [hget]
    rcases mem_append.mp hm with hbody | hold
    · rcases h.holds id m (Option.mem_toList.mp hbody) with ⟨hkey, hm, -⟩
      exact ⟨hm, if_pos hkey⟩
    · rcases h.gone m hold with ⟨haccepted, hnone⟩
      refine ⟨haccepted, ?_⟩
      split
      · rfl
      · exact hnone

theorem purge (hclock : s.clock = nowMs) :
    Sound ttlMs messages { s with store := s.store.purgeExpired nowMs } := by
  have hpending : forall id, (s.store.purgeExpired nowMs).pending.get? id =
      (s.store.pending.get? id).filter
        (fun m => MessageStore.young s.store.ttlMs m.createdMs nowMs) :=
    fun id => get?_retain _ _ _
  have hseen : forall id, (s.store.purgeExpired nowMs).seen.get? id = (s.store.seen.get? id).filter
        (fun created => MessageStore.young s.store.ttlMs created nowMs) :=
    fun id => get?_retain _ _ _
  -- what the purge drops is stale at the clock the purge sets
  have hcase : forall m : TunnelMessage,
      MessageStore.young s.store.ttlMs m.createdMs nowMs = true ∨ s.Stale m := by
    intro m
    unfold Stale
    rw [hclock]
    exact (Bool.eq_false_or_eq_true _)
  constructor
  · exact h.ttl
  · exact h.offered
  · exact h.once
  · intro m hm
    rcases h.remembered m hm with hkept | hstale
    · rcases hcase m with hyoung | hstale
      · left
        rw [hseen, hkept, Option.filter_some, if_pos hyoung]
      · exact Or.inr hstale
    · exact Or.inr hstale
  · intro id m hm
    rw [hpending, Option.filter_eq_some_iff] at hm
    rcases h.holds id m hm.left with ⟨hkey, haccepted, hkept⟩
    refine ⟨hkey, haccepted, ?_⟩
    rw [hseen, hkept, Option.filter_some, if_pos hm.right]
  · intro m hm hnot
    rcases h.kept m hm hnot with hkept | hstale
    · rcases hcase m with hyoung | hstale
      · left
        rw [hpending, hkept, Option.filter_some, if_pos hyoung]
      · exact Or.inr hstale
    · exact Or.inr hstale
  · intro m hm
    rcases h.gone m hm with ⟨haccepted, hnone⟩
    refine ⟨haccepted, ?_⟩
    rw [hpending, hnone]
    rfl

end

theorem step (hids : IdsTell messages) (h : s.Sound ttlMs messages) {c : StoreCall}
    {s' : Custody} (hoffered : forall m, m ∈ Reticulum.offered [c] -> m ∈ messages)
    (hstep : s.step c = some s') : s'.Sound ttlMs messages := by
  cases c with
  | offer msg nowMs =>
      unfold Custody.step at hstep
      simp only [Option.ite_none_right_eq_some, Option.some.injEq] at hstep
      rcases hstep with ⟨hnow, rfl⟩
      have hmsg : msg ∈ messages := hoffered msg mem_cons_self
      rcases s.store.offer_cases msg nowMs with
        ⟨haccept, hstore, hyoung, hnew⟩ | ⟨hother, hstore⟩
      · rw [hstore, if_pos haccept]
        exact (h.tick hnow).accept hmsg (h.id_new hids hmsg hnow hyoung hnew)
      · rw [hstore, if_neg hother]
        exact h.tick hnow
  | remove id =>
      cases hstep
      exact h.remove id
  | due nowMs =>
      unfold Custody.step at hstep
      simp only [Option.ite_none_right_eq_some, Option.some.injEq] at hstep
      rcases hstep with ⟨hnow, rfl⟩
      exact h.tick hnow
  | purgeExpired nowMs =>
      unfold Custody.step at hstep
      simp only [Option.ite_none_right_eq_some, Option.some.injEq] at hstep
      rcases hstep with ⟨hnow, rfl⟩
      exact (h.tick hnow).purge rfl

end Sound

theorem run_sound {ttlMs : UInt64} {messages : List TunnelMessage} (hids : IdsTell messages)
    {calls : List StoreCall} {s s' : Custody}
    (hoffered : forall m, m ∈ offered calls -> m ∈ messages) (h : s.Sound ttlMs messages)
    (hrun : run? Custody.step s calls = some s') : s'.Sound ttlMs messages := by
  induction calls generalizing s with
  | nil =>
      cases hrun
      exact h
  | cons c rest ih =>
      rcases run?_cons_some hrun with ⟨mid, hfirst, hrest⟩
      have happend : offered (c :: rest) = offered [c] ++ offered rest :=
        @List.filterMap_append _ _ [c] rest _
      rw [happend] at hoffered
      have hmid := h.step hids (fun m hm => hoffered m (mem_append_left _ hm)) hfirst
      exact ih (fun m hm => hoffered m (mem_append_right _ hm)) hmid hrest

/--
In every run an id is accepted at most once, a removed body is not stored again, what is
held is remembered, and what is due is what was accepted, not removed and still young.
-/
theorem store_accepts_once (ttlMs : UInt64) (maxPayload : Nat) (calls : List StoreCall)
    (s : Custody) (hids : IdsTell (offered calls))
    (hrun : run? Custody.step (Custody.start ttlMs maxPayload) calls = some s) :
    (s.accepted.map TunnelMessage.id).Nodup ∧
    (forall m, m ∈ s.removed -> s.store.get m.id = none) ∧
    (forall id m, s.store.pending.get? id = some m ->
      m.id = id ∧ s.store.seen.get? id = some m.createdMs) ∧
    (forall nowMs, s.clock <= nowMs ->
      (s.store.due nowMs).Nodup ∧
      forall m, m ∈ s.store.due nowMs <->
        m ∈ s.accepted ∧ m ∉ s.removed ∧
          nowMs.toNat - m.createdMs.toNat < ttlMs.toNat) := by
  have hsound : s.Sound ttlMs (offered calls) :=
    run_sound hids (fun m hm => hm) (Sound.start maxPayload) hrun
  refine ⟨hsound.once, fun m hm => (hsound.gone m hm).right, ?_, ?_⟩
  · intro id m hget
    rcases hsound.holds id m hget with ⟨hkey, -, hseen⟩
    exact ⟨hkey, hseen⟩
  · intro nowMs hnow
    refine ⟨MessageStore.nodup_due hsound.keyed nowMs, ?_⟩
    intro m
    rw [MessageStore.mem_due hsound.keyed, hsound.ttl, MessageStore.young_iff]
    constructor
    · rintro ⟨hget, hyoung⟩
      refine ⟨(hsound.holds _ m hget).right.left, ?_, hyoung⟩
      intro hremoved
      have hnone := (hsound.gone m hremoved).right
      rw [hget] at hnone
      cases hnone
    · rintro ⟨haccepted, hnot, hyoung⟩
      refine ⟨?_, hyoung⟩
      rcases hsound.kept m haccepted hnot with hget | hstale
      · exact hget
      · have hlater := Sound.stale_later hnow hstale
        rw [hsound.ttl, Bool.eq_false_iff, ne_eq, MessageStore.young_iff] at hlater
        exact absurd hyoung hlater

def sampleMessages : TunnelMessage × TunnelMessage :=
  (⟨⟨#[108, 185, 120, 31, 230, 130, 5, 107, 89, 192, 70, 19, 124, 72, 244, 30], Eq.refl 16⟩,
      0, 0, 8, 0, [1, 2, 3]⟩,
    ⟨⟨#[129, 17, 71, 8, 30, 82, 121, 231, 152, 181, 4, 184, 113, 6, 16, 68], Eq.refl 16⟩,
      5, 1, 8, 3, [4]⟩)

/-- A message removed, purged and offered again beside one that is kept. -/
def sampleCalls : List StoreCall :=
  [.offer sampleMessages.fst 0, .offer sampleMessages.snd 6, .remove sampleMessages.fst.id,
    .offer sampleMessages.fst.forwarded 99, .due 99, .purgeExpired 100,
    .offer sampleMessages.fst 100]

theorem store_accepts_once_sample :
    exists s, run? Custody.step (Custody.start 100 384) sampleCalls = some s ∧
      s.removed = [sampleMessages.fst] ∧ s.store.get sampleMessages.fst.id = none ∧
      (s.accepted.map TunnelMessage.id).Nodup ∧ s.store.due 104 = [sampleMessages.snd] := by
  have hids : IdsTell (offered sampleCalls) := by decide
  have hrun : exists s, run? Custody.step (Custody.start 100 384) sampleCalls = some s ∧
      s.removed = [sampleMessages.fst] ∧ s.store.due 104 = [sampleMessages.snd] :=
    ⟨_, rfl, rfl, rfl⟩
  rcases hrun with ⟨s, hrun, hremoved, hdue⟩
  rcases store_accepts_once 100 384 sampleCalls s hids hrun with ⟨honce, hgone, -, -⟩
  exact ⟨s, hrun, hremoved, hgone _ (by rw [hremoved]; exact mem_cons_self), honce, hdue⟩

end Custody
end Rabbithole.Reticulum
