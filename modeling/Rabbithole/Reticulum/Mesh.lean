import Rabbithole.Reticulum.FloodFill

/-!
# A mesh of nodes

Every node runs the flow on each message it is offered, and the copies it relays are
delivered in any order.  The log tells, with the last first, what was received and relayed.
-/

namespace Rabbithole.Reticulum

open Foundation List TunnelMessage

structure Topology where
  nodes : List PeerId
  nodup : nodes.Nodup
  fill : PeerId -> FloodFill
  closed : forall node, node ∈ nodes -> forall peer, peer ∈ (fill node).peers -> peer ∈ nodes

def Topology.directedEdges (topo : Topology) : Nat :=
  (topo.nodes.map (fun node => (topo.fill node).peers.length)).sum

structure Copy where
  sender : PeerId
  receiver : PeerId
  msg : TunnelMessage
deriving DecidableEq

inductive Act where
  | received (node : PeerId) (fromPeer : Option PeerId) (msg : TunnelMessage)
  | relayed (copy : Copy)
deriving DecidableEq

/-- The node whose act it is. -/
def Act.node : Act -> PeerId
  | .received node _ _ => node
  | .relayed copy => copy.sender

structure Mesh where
  ledgers : PeerId -> ForwardLedger
  inFlight : List Copy
  log : List Act

inductive MeshEvent where
  /-- A message is offered to a node: its own, or by whatever peer. -/
  | offer (node : PeerId) (fromPeer : Option PeerId) (msg : TunnelMessage) (nowMs : UInt64)
  | deliver (copy : Copy) (nowMs : UInt64)

namespace MeshEvent

def node : MeshEvent -> PeerId
  | .offer node _ _ _ => node
  | .deliver copy _ => copy.receiver

def nowMs : MeshEvent -> UInt64
  | .offer _ _ _ nowMs => nowMs
  | .deliver _ nowMs => nowMs

/-- The clock of the node has not left the TTL that began when its ledger was new. -/
def InTtl (ttlMs : UInt64) (since : PeerId -> UInt64) (e : MeshEvent) : Prop :=
  (since e.node).toNat <= e.nowMs.toNat ∧
    e.nowMs.toNat < (since e.node).toNat + ttlMs.toNat

instance (ttlMs : UInt64) (since : PeerId -> UInt64) (e : MeshEvent) :
    Decidable (e.InTtl ttlMs since) :=
  inferInstanceAs (Decidable (_ ∧ _))

end MeshEvent

namespace Mesh

def start (ttlMs : UInt64) : Mesh where
  ledgers := fun _ => ForwardLedger.new ttlMs
  inFlight := []
  log := []

def relays (node : PeerId) (msg : TunnelMessage) (plan : List PeerId) : List Copy :=
  plan.map (fun peer => ⟨node, peer, msg.forwarded⟩)

def receive (topo : Topology) (mesh : Mesh) (node : PeerId) (fromPeer : Option PeerId)
    (msg : TunnelMessage) (nowMs : UInt64) : Mesh :=
  let (plan, ledger) := (topo.fill node).flow (mesh.ledgers node) msg fromPeer nowMs
  { ledgers := fun n => if n = node then ledger else mesh.ledgers n
    inFlight := mesh.inFlight ++ relays node msg plan
    log := (relays node msg plan).map Act.relayed ++ .received node fromPeer msg :: mesh.log }

def step (topo : Topology) (mesh : Mesh) : MeshEvent -> Option Mesh
  | .offer node fromPeer msg nowMs =>
      if node ∈ topo.nodes then some (mesh.receive topo node fromPeer msg nowMs) else none
  | .deliver copy nowMs =>
      if copy ∈ mesh.inFlight then
        some ({ mesh with inFlight := mesh.inFlight.erase copy }.receive topo copy.receiver
          (some copy.sender) copy.msg nowMs)
      else none

/-- The copies of a message that were relayed. -/
def relayedOf (mesh : Mesh) (id : TunnelId) : List Copy :=
  mesh.log.filterMap (fun act =>
    match act with
    | .relayed copy => if copy.msg.id = id then some copy else none
    | .received _ _ _ => none)

end Mesh

/-!
## What one reception does to the mesh
-/

/-- The node learns from the act that the peer has the message. -/
def Act.tells : Act -> Option (PeerId × PeerId × TunnelId)
  | .received node (some peer) msg => some (node, peer, msg.id)
  | .received _ none _ => none
  | .relayed copy => some (copy.sender, copy.receiver, copy.msg.id)

/-- A relayed copy goes to a peer that no earlier act told the node about. -/
def News (later earlier : Act) : Prop :=
  forall copy, later = .relayed copy ->
    earlier.tells ≠ some (copy.sender, copy.receiver, copy.msg.id)

structure Mesh.Safe (topo : Topology) (ttlMs : UInt64) (since : PeerId -> UInt64)
    (mesh : Mesh) : Prop where
  ttl : forall node, (mesh.ledgers node).ttlMs = ttlMs
  since : forall node, (mesh.ledgers node).Since (since node)
  told : forall act, act ∈ mesh.log -> forall node peer id,
    act.tells = some (node, peer, id) -> (mesh.ledgers node).Holds id peer
  news : mesh.log.Pairwise News
  edge : forall copy, Act.relayed copy ∈ mesh.log ->
    copy.sender ∈ topo.nodes ∧ copy.receiver ∈ (topo.fill copy.sender).peers
  horizon : forall copy, Act.relayed copy ∈ mesh.log ->
    copy.msg.hops.toNat <= copy.msg.ttlHops.toNat
  known : forall copy, copy ∈ mesh.inFlight -> copy.receiver ∈ topo.nodes

namespace Mesh

variable {topo : Topology} {ttlMs : UInt64} {since : PeerId -> UInt64} {mesh : Mesh}
  {node : PeerId} {fromPeer : Option PeerId} {msg : TunnelMessage} {nowMs : UInt64}

theorem mem_relays {plan : List PeerId} {copy : Copy} :
    copy ∈ relays node msg plan <->
      copy.sender = node ∧ copy.receiver ∈ plan ∧ copy.msg = msg.forwarded := by
  unfold relays
  rw [mem_map]
  constructor
  · rintro ⟨peer, hpeer, rfl⟩
    exact ⟨rfl, hpeer, rfl⟩
  · rcases copy with ⟨sender, receiver, copied⟩
    rintro ⟨rfl, hreceiver, rfl⟩
    exact ⟨receiver, hreceiver, rfl⟩

theorem relayed_mem_receive {copy : Copy} :
    Act.relayed copy ∈ (mesh.receive topo node fromPeer msg nowMs).log <->
      copy ∈ relays node msg ((topo.fill node).flow (mesh.ledgers node) msg fromPeer nowMs).fst ∨
        Act.relayed copy ∈ mesh.log := by
  unfold receive
  simp

theorem receive_ledgers (n : PeerId) :
    (mesh.receive topo node fromPeer msg nowMs).ledgers n =
      if n = node then ((topo.fill node).flow (mesh.ledgers node) msg fromPeer nowMs).snd
      else mesh.ledgers n := rfl

theorem Safe.start (topo : Topology) (ttlMs : UInt64) (since : PeerId -> UInt64) :
    (Mesh.start ttlMs).Safe topo ttlMs since where
  ttl _ := rfl
  since _ _ _ _ h := by cases h
  told _ h := by cases h
  news := Pairwise.nil
  edge _ h := by cases h
  horizon _ h := by cases h
  known _ h := by cases h

theorem Safe.flow (h : mesh.Safe topo ttlMs since) (hsince : (since node).toNat <= nowMs.toNat)
    (hnow : nowMs.toNat < (since node).toNat + ttlMs.toNat) (fromPeer : Option PeerId)
    (msg : TunnelMessage) :
    FloodFill.FlowSpec (topo.fill node) (mesh.ledgers node) (since node) msg fromPeer
      ((topo.fill node).flow (mesh.ledgers node) msg fromPeer nowMs) :=
  FloodFill.flow_spec _ msg fromPeer (h.since node) hsince (by rw [h.ttl node]; exact hnow)

theorem Safe.news_receive (h : mesh.Safe topo ttlMs since)
    {result : List PeerId × ForwardLedger}
    (hflow : FloodFill.FlowSpec (topo.fill node) (mesh.ledgers node) (since node) msg fromPeer
      result) : ((relays node msg result.fst).map Act.relayed ++
      .received node fromPeer msg :: mesh.log).Pairwise News := by
  rw [pairwise_append]
  refine ⟨?_, ?_, ?_⟩
  · unfold relays
    rw [map_map, pairwise_map]
    refine hflow.nodup.imp ?_
    rintro peer peer' hne copy hcopy htells
    cases hcopy
    cases htells
    exact hne rfl
  · refine pairwise_cons.mpr ⟨?_, h.news⟩
    intro act _ copy hcopy
    cases hcopy
  · rintro act hact earlier hearlier copy rfl htells
    rcases mem_map.mp hact with ⟨copy', hcopy', heq⟩
    cases heq
    rcases mem_relays.mp hcopy' with ⟨hsender, hreceiver, hmsg⟩
    rcases (hflow.plan _).mp hreceiver with ⟨-, -, hsource, hnot⟩
    rw [hmsg, forwarded_id, hsender] at htells
    rcases mem_cons.mp hearlier with rfl | hlogged
    · cases fromPeer with
      | none => cases htells
      | some source =>
          cases htells
          exact hsource rfl
    · exact hnot (h.told earlier hlogged _ _ _ htells)

theorem holds_receive
    (hflow : FloodFill.FlowSpec (topo.fill node) (mesh.ledgers node) (since node) msg fromPeer
      ((topo.fill node).flow (mesh.ledgers node) msg fromPeer nowMs))
    (n peer : PeerId) (id : TunnelId) :
    ((mesh.receive topo node fromPeer msg nowMs).ledgers n).Holds id peer <->
      (mesh.ledgers n).Holds id peer ∨ (n = node ∧ id = msg.id ∧ (fromPeer = some peer ∨
        peer ∈ ((topo.fill node).flow (mesh.ledgers node) msg fromPeer nowMs).fst)) := by
  rw [receive_ledgers]
  by_cases hn : n = node
  · rw [if_pos hn, hflow.holds, hn]
    simp
  · rw [if_neg hn]
    simp [hn]

theorem Safe.told_receive (h : mesh.Safe topo ttlMs since)
    (hflow : FloodFill.FlowSpec (topo.fill node) (mesh.ledgers node) (since node) msg fromPeer
      ((topo.fill node).flow (mesh.ledgers node) msg fromPeer nowMs))
    {act : Act} (hact : act ∈ (mesh.receive topo node fromPeer msg nowMs).log)
    {n peer : PeerId} {id : TunnelId} (htells : act.tells = some (n, peer, id)) :
    ((mesh.receive topo node fromPeer msg nowMs).ledgers n).Holds id peer := by
  rw [holds_receive hflow]
  rcases mem_append.mp hact with hrelayed | hrest
  · rcases mem_map.mp hrelayed with ⟨copy, hcopy, rfl⟩
    rcases mem_relays.mp hcopy with ⟨hsender, hreceiver, hmsg⟩
    cases htells
    exact Or.inr ⟨hsender, by rw [hmsg, forwarded_id], Or.inr hreceiver⟩
  · rcases mem_cons.mp hrest with rfl | hlogged
    · cases fromPeer with
      | none => cases htells
      | some source =>
          cases htells
          exact Or.inr ⟨rfl, rfl, Or.inl rfl⟩
    · exact Or.inl (h.told act hlogged n peer id htells)

theorem Safe.receive (h : mesh.Safe topo ttlMs since) (hnode : node ∈ topo.nodes)
    (hsince : (since node).toNat <= nowMs.toNat)
    (hnow : nowMs.toNat < (since node).toNat + ttlMs.toNat) :
    (mesh.receive topo node fromPeer msg nowMs).Safe topo ttlMs since := by
  have hflow := h.flow hsince hnow fromPeer msg
  have hedge : forall copy, copy ∈ relays node msg
      ((topo.fill node).flow (mesh.ledgers node) msg fromPeer nowMs).fst ->
      copy.sender ∈ topo.nodes ∧ copy.receiver ∈ (topo.fill copy.sender).peers := by
    intro copy hcopy
    rcases mem_relays.mp hcopy with ⟨hsender, hreceiver, -⟩
    rw [hsender]
    exact ⟨hnode, ((hflow.plan _).mp hreceiver).right.left⟩
  refine ⟨?_, ?_, ?_, h.news_receive hflow, ?_, ?_, ?_⟩
  · intro n
    rw [receive_ledgers]
    split
    · exact hflow.ttl.trans (h.ttl node)
    · exact h.ttl n
  · intro n
    rw [receive_ledgers]
    split
    · rename_i heq
      rw [heq]
      exact hflow.since
    · exact h.since n
  · intro act hact n peer id htells
    exact h.told_receive hflow hact htells
  · intro copy hcopy
    rcases relayed_mem_receive.mp hcopy with hnew | hold
    · exact hedge copy hnew
    · exact h.edge copy hold
  · intro copy hcopy
    rcases relayed_mem_receive.mp hcopy with hnew | hold
    · rcases mem_relays.mp hnew with ⟨-, hreceiver, hmsg⟩
      have hhops := ((hflow.plan _).mp hreceiver).left
      rw [hmsg, toNat_hops_forwarded hhops, forwarded_ttlHops]
      exact hhops
    · exact h.horizon copy hold
  · intro copy hcopy
    rcases mem_append.mp hcopy with hold | hnew
    · exact h.known copy hold
    · have hof := hedge copy hnew
      exact topo.closed _ hof.left _ hof.right

theorem Safe.erase (h : mesh.Safe topo ttlMs since) (copy : Copy) :
    Safe topo ttlMs since { mesh with inFlight := mesh.inFlight.erase copy } :=
  ⟨h.ttl, h.since, h.told, h.news, h.edge, h.horizon,
    fun c hc => h.known c (mem_of_mem_erase hc)⟩

theorem step_offer {s' : Mesh} (hstep : mesh.step topo (.offer node fromPeer msg nowMs) = some s') :
    node ∈ topo.nodes ∧ s' = mesh.receive topo node fromPeer msg nowMs := by
  simp only [step] at hstep
  split at hstep
  · rename_i hnode
    cases hstep
    exact ⟨hnode, rfl⟩
  · cases hstep

theorem step_deliver {s' : Mesh} {copy : Copy}
    (hstep : mesh.step topo (.deliver copy nowMs) = some s') :
    copy ∈ mesh.inFlight ∧
      s' = Mesh.receive topo { mesh with inFlight := mesh.inFlight.erase copy }
        copy.receiver (some copy.sender) copy.msg nowMs := by
  simp only [step] at hstep
  split at hstep
  · rename_i hcopy
    cases hstep
    exact ⟨hcopy, rfl⟩
  · cases hstep

theorem Safe.step (mesh : Mesh) (e : MeshEvent) (mesh' : Mesh)
    (h : mesh.Safe topo ttlMs since) (hclock : e.InTtl ttlMs since)
    (hstep : mesh.step topo e = some mesh') : mesh'.Safe topo ttlMs since := by
  cases e with
  | offer node fromPeer msg nowMs =>
      rcases step_offer hstep with ⟨hnode, rfl⟩
      exact h.receive hnode hclock.left hclock.right
  | deliver copy nowMs =>
      rcases step_deliver hstep with ⟨hcopy, rfl⟩
      exact (h.erase copy).receive (h.known copy hcopy) hclock.left hclock.right

/-!
## How many copies there are

A copy is delivered once: those delivered and those under way are those relayed.
-/

def flying (mesh : Mesh) (id : TunnelId) : Nat :=
  mesh.inFlight.countP (fun copy => decide (copy.msg.id = id))

end Mesh

/-- How often a run delivers a message. -/
def deliveries (id : TunnelId) (events : List MeshEvent) : Nat :=
  events.countP (fun e =>
    match e with
    | .offer _ _ _ _ => false
    | .deliver copy _ => decide (copy.msg.id = id))

namespace Mesh

variable {topo : Topology} {ttlMs : UInt64} {since : PeerId -> UInt64} {mesh : Mesh}
  {node : PeerId} {fromPeer : Option PeerId} {msg : TunnelMessage} {nowMs : UInt64}

theorem filterMap_relayed (id : TunnelId) (copies : List Copy) :
    (copies.map Act.relayed).filterMap (fun act =>
      match act with
      | .relayed copy => if copy.msg.id = id then some copy else none
      | .received _ _ _ => none) =
      copies.filter (fun copy => decide (copy.msg.id = id)) := by
  induction copies with
  | nil => rfl
  | cons copy rest ih =>
      rw [map_cons, filterMap_cons, filter_cons, ih]
      by_cases h : copy.msg.id = id
      · simp [h]
      · simp [h]

theorem balance_receive (id : TunnelId) (d : Nat)
    (h : d + mesh.flying id = (mesh.relayedOf id).length) :
    d + (mesh.receive topo node fromPeer msg nowMs).flying id =
      ((mesh.receive topo node fromPeer msg nowMs).relayedOf id).length := by
  have hlog : (mesh.receive topo node fromPeer msg nowMs).relayedOf id =
      (relays node msg ((topo.fill node).flow (mesh.ledgers node) msg fromPeer
        nowMs).fst).filter (fun copy => decide (copy.msg.id = id)) ++ mesh.relayedOf id := by
    unfold relayedOf receive
    rw [filterMap_append, filterMap_relayed]
    rfl
  rw [hlog, length_append, ← h]
  unfold flying receive
  rw [countP_append, countP_eq_length_filter (l := relays _ _ _)]
  omega

theorem flying_erase (id : TunnelId) (nowMs : UInt64) {copy : Copy} (hcopy : copy ∈ mesh.inFlight) :
    mesh.flying id = flying { mesh with inFlight := mesh.inFlight.erase copy } id +
      deliveries id [.deliver copy nowMs] := by
  unfold flying deliveries
  rw [(perm_cons_erase hcopy).countP_eq, countP_cons, countP_singleton]

theorem balance (id : TunnelId) {events : List MeshEvent}
    (hrun : run? (Mesh.step topo) (Mesh.start ttlMs) events = some mesh) :
    deliveries id events + mesh.flying id = (mesh.relayedOf id).length := by
  refine @run?_history _ _ (Mesh.step topo)
    (fun past mesh => deliveries id past + mesh.flying id = (mesh.relayedOf id).length)
    ?_ [] _ _ _ rfl hrun
  intro past s e s' h hstep
  have hpast : deliveries id (past ++ [e]) = deliveries id past + deliveries id [e] :=
    countP_append
  rw [hpast]
  cases e with
  | offer node fromPeer msg nowMs =>
      rcases step_offer hstep with ⟨-, rfl⟩
      exact balance_receive id _ h
  | deliver copy nowMs =>
      rcases step_deliver hstep with ⟨hcopy, rfl⟩
      have hflying := flying_erase id nowMs hcopy
      refine balance_receive id _ ?_
      show _ = (s.relayedOf id).length
      omega

theorem mem_relayedOf {id : TunnelId} {copy : Copy} :
    copy ∈ mesh.relayedOf id <-> Act.relayed copy ∈ mesh.log ∧ copy.msg.id = id := by
  unfold relayedOf
  rw [mem_filterMap]
  constructor
  · rintro ⟨act, hact, heq⟩
    cases act with
    | received node fromPeer msg => cases heq
    | relayed copy' =>
        simp only [Option.ite_none_right_eq_some, Option.some.injEq] at heq
        rcases heq with ⟨hid, rfl⟩
        exact ⟨hact, hid⟩
  · rintro ⟨hact, hid⟩
    exact ⟨_, hact, by simp [hid]⟩

theorem Safe.nodup_relayedOf (h : mesh.Safe topo ttlMs since) (id : TunnelId) :
    ((mesh.relayedOf id).map (fun copy => (copy.sender, copy.receiver))).Nodup := by
  unfold Nodup relayedOf
  rw [pairwise_map, pairwise_filterMap]
  refine h.news.imp ?_
  intro later earlier hnews copy hlater copy' hearlier hsame
  cases later with
  | received node fromPeer msg => cases hlater
  | relayed c =>
      cases earlier with
      | received node fromPeer msg => cases hearlier
      | relayed c' =>
          simp only [Option.ite_none_right_eq_some, Option.some.injEq] at hlater hearlier
          rcases hlater with ⟨hid, rfl⟩
          rcases hearlier with ⟨hid', rfl⟩
          injection hsame with hsender hreceiver
          apply hnews c rfl
          show some (c'.sender, c'.receiver, c'.msg.id) = _
          rw [hid, hid', hsender, hreceiver]

theorem length_flatMap_edges (nodes : List PeerId) (fill : PeerId -> FloodFill) :
    (nodes.flatMap (fun node => (fill node).peers.map (fun peer => (node, peer)))).length =
      (nodes.map (fun node => (fill node).peers.length)).sum := by
  rw [length_flatMap]
  simp

theorem Safe.length_relayedOf_le (h : mesh.Safe topo ttlMs since) (id : TunnelId) :
    (mesh.relayedOf id).length <= topo.directedEdges := by
  have hsub : (mesh.relayedOf id).map (fun copy => (copy.sender, copy.receiver)) ⊆
      topo.nodes.flatMap (fun node => (topo.fill node).peers.map (fun peer => (node, peer))) := by
    intro pair hpair
    rcases mem_map.mp hpair with ⟨copy, hcopy, rfl⟩
    rcases h.edge copy (mem_relayedOf.mp hcopy).left with ⟨hsender, hreceiver⟩
    exact mem_flatMap.mpr ⟨copy.sender, hsender, mem_map.mpr ⟨_, hreceiver, rfl⟩⟩
  have hle := (subperm_of_subset (h.nodup_relayedOf id) hsub).length_le
  rw [length_map, length_flatMap_edges] at hle
  exact hle

theorem run_safe {events : List MeshEvent} (hclock : forall e, e ∈ events -> e.InTtl ttlMs since)
    (hrun : run? (Mesh.step topo) (Mesh.start ttlMs) events = some mesh) :
    mesh.Safe topo ttlMs since := by
  have halong : Along (Mesh.step topo) (fun _ e => e.InTtl ttlMs since) (Mesh.start ttlMs)
      events :=
    along_of_invariant (fun _ => True) (fun _ _ _ _ _ => trivial)
      (fun _ e he _ => hclock e he) trivial
  exact run?_invariant_along Safe.step (Safe.start topo ttlMs since) halong hrun

theorem floodFill_no_loop {events : List MeshEvent}
    (hclock : forall e, e ∈ events -> e.InTtl ttlMs since)
    (hrun : run? (Mesh.step topo) (Mesh.start ttlMs) events = some mesh) (id : TunnelId) :
    ((mesh.relayedOf id).map (fun copy => (copy.sender, copy.receiver))).Nodup ∧
      mesh.log.Pairwise (fun later earlier => forall copy msg, later = .relayed copy ->
        earlier = .received copy.sender (some copy.receiver) msg -> msg.id ≠ copy.msg.id) ∧
      (forall copy, copy ∈ mesh.relayedOf id ->
        copy.msg.hops.toNat <= copy.msg.ttlHops.toNat) ∧
      (mesh.relayedOf id).length <= topo.directedEdges ∧
      deliveries id events + mesh.flying id <= topo.directedEdges ∧
      (forall copy, copy ∈ mesh.inFlight -> forall nowMs, exists mesh',
        mesh.step topo (.deliver copy nowMs) = some mesh') := by
  have h := run_safe hclock hrun
  refine ⟨h.nodup_relayedOf id, ?_, ?_, h.length_relayedOf_le id, ?_, ?_⟩
  · refine h.news.imp ?_
    rintro later earlier hnews copy msg rfl rfl hid
    apply hnews copy rfl
    rw [← hid]
    rfl
  · intro copy hcopy
    exact h.horizon copy (mem_relayedOf.mp hcopy).left
  · rw [balance id hrun]
    exact h.length_relayedOf_le id
  · intro copy hcopy nowMs
    simp only [Mesh.step, if_pos hcopy]
    exact ⟨_, rfl⟩

end Mesh

def kiteNode (n : UInt8) : PeerId := ⟨Vector.replicate 16 n⟩

/-- Nodes 1, 2, 3 next to one another, and behind 3 the nodes 4 and 5 in a row. -/
def kite : Topology where
  nodes := [kiteNode 1, kiteNode 2, kiteNode 3, kiteNode 4, kiteNode 5]
  nodup := by decide
  fill := fun node =>
    FloodFill.withPeers
      (if node = kiteNode 1 then [kiteNode 2, kiteNode 3]
      else if node = kiteNode 2 then [kiteNode 1, kiteNode 3]
      else if node = kiteNode 3 then [kiteNode 1, kiteNode 2, kiteNode 4]
      else if node = kiteNode 4 then [kiteNode 3, kiteNode 5]
      else if node = kiteNode 5 then [kiteNode 4]
      else [])
  closed := by decide

def kiteMessage (ttlHops : UInt8) : TunnelMessage :=
  ⟨Vector.replicate 16 9, 0, 0, ttlHops, 0, [1, 2, 3]⟩

def kiteCopy (sender receiver hops ttlHops : UInt8) : Copy :=
  ⟨kiteNode sender, kiteNode receiver, { kiteMessage ttlHops with hops := hops }⟩

def kiteDeliver (sender receiver hops ttlHops : UInt8) : MeshEvent :=
  .deliver (kiteCopy sender receiver hops ttlHops) 0

/-- The copy that goes by 2 overtakes the one that goes straight to 3. -/
def kiteRun : List MeshEvent :=
  [.offer (kiteNode 1) none (kiteMessage 3) 0, kiteDeliver 1 2 1 3, kiteDeliver 2 3 2 3,
    kiteDeliver 1 3 1 3, kiteDeliver 3 4 3 3, kiteDeliver 3 1 3 3]

theorem floodFill_no_loop_kite :
    exists mesh, run? (Mesh.step kite) (Mesh.start 1000) kiteRun = some mesh ∧
      ((mesh.relayedOf (kiteMessage 3).id).map
        (fun copy => (copy.sender, copy.receiver))).Nodup ∧
      (mesh.relayedOf (kiteMessage 3).id).length <= kite.directedEdges ∧
      kite.directedEdges = 10 := by
  have hclock : forall e, e ∈ kiteRun -> e.InTtl 1000 (fun _ => 0) := by decide
  rcases Option.isSome_iff_exists.mp
    (show (run? (Mesh.step kite) (Mesh.start 1000) kiteRun).isSome = true by decide) with
    ⟨mesh, hrun⟩
  have hsafe := Mesh.floodFill_no_loop hclock hrun (kiteMessage 3).id
  exact ⟨mesh, hrun, hsafe.left, hsafe.right.right.right.left, by decide⟩

end Rabbithole.Reticulum
