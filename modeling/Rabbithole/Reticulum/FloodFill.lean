import Mathlib.Data.List.Dedup
import Rabbithole.Reticulum.Tunnel

/-!
# Flood fill

A node relays a message to all its peers except the one it came from and those its ledger
knows to have it.  What was planned is recorded afterwards.  Over the nodes stands the mesh,
with the copies that are under way.
-/

namespace Rabbithole.Reticulum

open Foundation

/-- Message id, then peer, then when it was last recorded. -/
structure ForwardLedger where
  ttlMs : UInt64
  entries : Dict TunnelId (Dict PeerId UInt64)

namespace ForwardLedger

def new (ttlMs : UInt64) : ForwardLedger where
  ttlMs := ttlMs
  entries := Dict.empty

def slot (ledger : ForwardLedger) (id : TunnelId) : Dict PeerId UInt64 :=
  (ledger.entries.get? id).getD Dict.empty

def record (ledger : ForwardLedger) (id : TunnelId) (peer : PeerId) (nowMs : UInt64) :
    ForwardLedger :=
  { ledger with entries := ledger.entries.insert id ((ledger.slot id).insert peer nowMs) }

def recordAll (ledger : ForwardLedger) (id : TunnelId) (peers : List PeerId)
    (nowMs : UInt64) : ForwardLedger :=
  if peers.isEmpty then ledger
  else
    { ledger with
      entries := ledger.entries.insert id
        (peers.foldl (fun slot peer => slot.insert peer nowMs) (ledger.slot id)) }

def knows (ledger : ForwardLedger) (id : TunnelId) (peer : PeerId) (nowMs : UInt64) : Bool :=
  ((ledger.entries.get? id).bind (fun slot => slot.get? peer)).any
    (fun at_ => decide (saturatingSub nowMs at_ < ledger.ttlMs))

end ForwardLedger

/-- The peers of a node, each once. -/
structure FloodFill where
  peers : List PeerId
  nodup : peers.Nodup

namespace FloodFill

def withPeers (peers : List PeerId) : FloodFill where
  peers := peers.dedup
  nodup := List.nodup_dedup peers

def planForward (fill : FloodFill) (msg : TunnelMessage) (fromPeer : Option PeerId)
    (ledger : ForwardLedger) (nowMs : UInt64) : List PeerId :=
  if msg.atHorizon then []
  else
    (fill.peers.filter (fun peer => decide (some peer ≠ fromPeer))).filter
      (fun peer => !ledger.knows msg.id peer nowMs)

end FloodFill

/-!
## The ledger

Only what a ledger has recorded about a pair of message and peer matters.
-/

namespace ForwardLedger

variable (ledger : ForwardLedger) (id id' : TunnelId) (peer peer' : PeerId) (nowMs : UInt64)

def recorded (ledger : ForwardLedger) (id : TunnelId) (peer : PeerId) : Option UInt64 :=
  (ledger.slot id).get? peer

theorem bind_get?_eq_recorded :
    (ledger.entries.get? id).bind (fun slot => slot.get? peer) = ledger.recorded id peer := by
  unfold recorded slot
  cases ledger.entries.get? id with
  | none => rfl
  | some s => rfl

theorem knows_eq : ledger.knows id peer nowMs = (ledger.recorded id peer).any
      (fun at_ => decide (saturatingSub nowMs at_ < ledger.ttlMs)) := by
  unfold knows
  rw [bind_get?_eq_recorded]

@[simp] theorem ttlMs_recordAll (peers : List PeerId) :
    (ledger.recordAll id peers nowMs).ttlMs = ledger.ttlMs := by
  unfold recordAll
  split
  · rfl
  · rfl

theorem slot_insert (slot : Dict PeerId UInt64) :
    ForwardLedger.slot { ledger with entries := ledger.entries.insert id slot } id' =
      if id' = id then slot else ledger.slot id' := by
  unfold ForwardLedger.slot
  simp only [Dict.get?_insert]
  split
  · rfl
  · rfl

theorem recorded_record :
    (ledger.record id peer nowMs).recorded id' peer' =
      if id' = id ∧ peer' = peer then some nowMs else ledger.recorded id' peer' := by
  unfold recorded record
  rw [slot_insert]
  by_cases hid : id' = id
  · subst hid
    rw [if_pos rfl, Dict.get?_insert]
    by_cases hpeer : peer' = peer
    · rw [if_pos hpeer, if_pos ⟨rfl, hpeer⟩]
    · rw [if_neg hpeer, if_neg (fun h => hpeer h.right)]
  · rw [if_neg hid, if_neg (fun h => hid h.left)]

theorem recorded_recordAll (peers : List PeerId) :
    (ledger.recordAll id peers nowMs).recorded id' peer' =
      if id' = id ∧ peer' ∈ peers then some nowMs else ledger.recorded id' peer' := by
  unfold recordAll
  split
  · rename_i hempty
    rw [List.isEmpty_iff.mp hempty, if_neg]
    rintro ⟨-, hmem⟩
    cases hmem
  · unfold recorded
    rw [slot_insert]
    by_cases hid : id' = id
    · subst hid
      have hset := Dict.get?_foldl (fun d k k' => Dict.get?_insert d k k' nowMs) peers
        (ledger.slot id') peer'
      rw [if_pos rfl]
      by_cases hpeer : peer' ∈ peers
      · rw [hset.left hpeer, if_pos ⟨rfl, hpeer⟩]
      · rw [hset.right hpeer, if_neg (fun h => hpeer h.right)]
    · rw [if_neg hid, if_neg (fun h => hid h.left)]

/-- The peer is recorded to have the message, however long ago. -/
def Holds (ledger : ForwardLedger) (id : TunnelId) (peer : PeerId) : Prop :=
  ledger.recorded id peer ≠ none

/-- No record is older than a given time. -/
def Since (ledger : ForwardLedger) (since : UInt64) : Prop :=
  forall id peer at_, ledger.recorded id peer = some at_ -> since.toNat <= at_.toNat

variable {ledger id id' peer peer' nowMs} {since : UInt64} {peers : List PeerId}

theorem holds_record :
    (ledger.record id peer nowMs).Holds id' peer' <->
      ledger.Holds id' peer' ∨ (id' = id ∧ peer' = peer) := by
  unfold Holds
  rw [recorded_record]
  split
  · rename_i h
    simp [h]
  · rename_i h
    simp [h]

theorem holds_recordAll :
    (ledger.recordAll id peers nowMs).Holds id' peer' <->
      ledger.Holds id' peer' ∨ (id' = id ∧ peer' ∈ peers) := by
  unfold Holds
  rw [recorded_recordAll]
  split
  · rename_i h
    simp [h]
  · rename_i h
    simp [h]

theorem Since.record (h : ledger.Since since) (hnow : since.toNat <= nowMs.toNat) :
    (ledger.record id peer nowMs).Since since := by
  intro id' peer' at_ hat
  rw [recorded_record] at hat
  split at hat
  · cases hat
    exact hnow
  · exact h id' peer' at_ hat

theorem Since.recordAll (h : ledger.Since since) (hnow : since.toNat <= nowMs.toNat) :
    (ledger.recordAll id peers nowMs).Since since := by
  intro id' peer' at_ hat
  rw [recorded_recordAll] at hat
  split at hat
  · cases hat
    exact hnow
  · exact h id' peer' at_ hat

theorem Since.knows_iff (h : ledger.Since since) (hsince : since.toNat <= nowMs.toNat)
    (hnow : nowMs.toNat < since.toNat + ledger.ttlMs.toNat) :
    ledger.knows id peer nowMs = true <-> ledger.Holds id peer := by
  unfold Holds
  rw [knows_eq]
  cases hrecorded : ledger.recorded id peer with
  | none => simp
  | some at_ =>
      have hat := h id peer at_ hrecorded
      rw [Option.any_some, decide_eq_true_iff, UInt64.lt_iff_toNat_lt, toNat_saturatingSub]
      constructor
      · intro _ hnone
        cases hnone
      · intro _
        omega

end ForwardLedger

/-!
## The flow at one node

Record the source, plan, record the plan.
-/

namespace FloodFill

def recordSource (ledger : ForwardLedger) (msg : TunnelMessage) (fromPeer : Option PeerId)
    (nowMs : UInt64) : ForwardLedger :=
  match fromPeer with
  | none => ledger
  | some peer => ledger.record msg.id peer nowMs

def flow (fill : FloodFill) (ledger : ForwardLedger) (msg : TunnelMessage)
    (fromPeer : Option PeerId) (nowMs : UInt64) : List PeerId × ForwardLedger :=
  let known := recordSource ledger msg fromPeer nowMs
  let plan := fill.planForward msg fromPeer known nowMs
  (plan, known.recordAll msg.id plan nowMs)

variable {fill : FloodFill} {ledger : ForwardLedger} {msg : TunnelMessage}
  {fromPeer : Option PeerId} {since nowMs : UInt64}

@[simp] theorem ttlMs_recordSource :
    (recordSource ledger msg fromPeer nowMs).ttlMs = ledger.ttlMs := by
  unfold recordSource
  split
  · rfl
  · rfl

theorem since_recordSource (h : ledger.Since since) (hnow : since.toNat <= nowMs.toNat) :
    (recordSource ledger msg fromPeer nowMs).Since since := by
  unfold recordSource
  split
  · exact h
  · exact h.record hnow

theorem holds_recordSource {id : TunnelId} {peer : PeerId} :
    (recordSource ledger msg fromPeer nowMs).Holds id peer <->
      ledger.Holds id peer ∨ (id = msg.id ∧ fromPeer = some peer) := by
  unfold recordSource
  cases fromPeer with
  | none => simp
  | some source =>
      simp only [ForwardLedger.holds_record, Option.some.injEq]
      rw [eq_comm (a := peer)]

theorem nodup_planForward : (fill.planForward msg fromPeer ledger nowMs).Nodup := by
  unfold planForward
  split
  · exact List.nodup_nil
  · exact (fill.nodup.filter _).filter _

/-- What the flow at a node does, while its clock stays inside the TTL of its ledger. -/
structure FlowSpec (fill : FloodFill) (ledger : ForwardLedger) (since : UInt64)
    (msg : TunnelMessage) (fromPeer : Option PeerId) (result : List PeerId × ForwardLedger) :
    Prop where
  nodup : result.fst.Nodup
  plan : forall peer, peer ∈ result.fst <->
    msg.hops.toNat < msg.ttlHops.toNat ∧ peer ∈ fill.peers ∧ fromPeer ≠ some peer ∧
      ¬ ledger.Holds msg.id peer
  ttl : result.snd.ttlMs = ledger.ttlMs
  since : result.snd.Since since
  holds : forall id peer, result.snd.Holds id peer <->
    ledger.Holds id peer ∨ (id = msg.id ∧ (fromPeer = some peer ∨ peer ∈ result.fst))

theorem flow_spec (fill : FloodFill) (msg : TunnelMessage) (fromPeer : Option PeerId)
    (hledger : ledger.Since since) (hsince : since.toNat <= nowMs.toNat)
    (hnow : nowMs.toNat < since.toNat + ledger.ttlMs.toNat) :
    FlowSpec fill ledger since msg fromPeer (fill.flow ledger msg fromPeer nowMs) := by
  have hknown : forall peer,
      (recordSource ledger msg fromPeer nowMs).knows msg.id peer nowMs = true <->
        ledger.Holds msg.id peer ∨ fromPeer = some peer := by
    intro peer
    rw [(since_recordSource hledger hsince).knows_iff hsince (by simpa using hnow),
      holds_recordSource]
    simp
  unfold flow
  refine ⟨nodup_planForward, ?_, ?_, ?_, ?_⟩
  · intro peer
    unfold planForward
    split
    · rename_i hhorizon
      rw [TunnelMessage.atHorizon_iff] at hhorizon
      simp
      omega
    · rename_i hhops
      rw [TunnelMessage.atHorizon_iff] at hhops
      rw [List.mem_filter, List.mem_filter, Bool.not_eq_true', ← Bool.not_eq_true, hknown]
      simp only [decide_eq_true_iff]
      constructor
      · rintro ⟨⟨hpeer, hne⟩, hnot⟩
        exact ⟨Nat.lt_of_not_le hhops, hpeer, fun h => hnot (Or.inr h), fun h => hnot (Or.inl h)⟩
      · rintro ⟨-, hpeer, hne, hnot⟩
        exact ⟨⟨hpeer, fun h => hne h.symm⟩, fun h => h.elim hnot hne⟩
  · simp
  · exact (since_recordSource hledger hsince).recordAll hsince
  · intro id peer
    rw [ForwardLedger.holds_recordAll, holds_recordSource]
    tauto

end FloodFill

end Rabbithole.Reticulum
