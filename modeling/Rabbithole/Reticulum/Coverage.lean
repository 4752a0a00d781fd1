import Rabbithole.Reticulum.Mesh

/-!
# How far a flood reaches

A node relays the first copy that comes with hops to spare and tells each of its peers once,
so whom a message reaches depends on the copy that came first.
-/

namespace Rabbithole.Reticulum

open Foundation List

/-- There is a walk of so many hops from the origin. -/
inductive Within (topo : Topology) (origin : PeerId) : Nat -> PeerId -> Prop where
  | here : Within topo origin 0 origin
  | hop {n : Nat} {node peer : PeerId} : Within topo origin n node ->
      peer ∈ (topo.fill node).peers -> Within topo origin (n + 1) peer

theorem Within.inside {topo : Topology} {origin node : PeerId} {n : Nat}
    (horigin : origin ∈ topo.nodes) (h : Within topo origin n node) : node ∈ topo.nodes := by
  induction h with
  | here => exact horigin
  | hop _ hpeer ih => exact topo.closed _ ih _ hpeer

namespace Mesh

/-- The node received a copy that had travelled so many hops. -/
def ReachedWith (mesh : Mesh) (id : TunnelId) (node : PeerId) (hops : Nat) : Prop :=
  exists fromPeer msg, Act.received node fromPeer msg ∈ mesh.log ∧ msg.id = id ∧
    msg.hops.toNat = hops

def Reached (mesh : Mesh) (id : TunnelId) (node : PeerId) : Prop :=
  exists hops, mesh.ReachedWith id node hops

/-- A copy that has travelled so many hops is under way to the node. -/
def UnderWay (mesh : Mesh) (id : TunnelId) (node : PeerId) (hops : Nat) : Prop :=
  exists copy, copy ∈ mesh.inFlight ∧ copy.receiver = node ∧ copy.msg.id = id ∧
    copy.msg.hops.toNat = hops

def Gets (mesh : Mesh) (id : TunnelId) (node : PeerId) (hops : Nat) : Prop :=
  mesh.ReachedWith id node hops ∨ mesh.UnderWay id node hops

end Mesh

/-!
## One step of the flood

A step leaves everything about the message as it was, or one node receives a copy of it.
-/

/-- Nothing about the message changes. -/
structure Mesh.Untouched (id : TunnelId) (mesh mesh' : Mesh) : Prop where
  reached : forall node hops, mesh'.ReachedWith id node hops <-> mesh.ReachedWith id node hops
  underWay : forall node hops, mesh'.UnderWay id node hops <-> mesh.UnderWay id node hops
  holds : forall node peer,
    (mesh'.ledgers node).Holds id peer <-> (mesh.ledgers node).Holds id peer

/-- A node receives a copy of the message and relays it. -/
structure Mesh.Spreads (topo : Topology) (id : TunnelId) (horizon : Nat) (mesh : Mesh)
    (node : PeerId) (source : Option PeerId) (hops : Nat) (mesh' : Mesh) : Prop where
  reached : forall n k,
    mesh'.ReachedWith id n k <-> mesh.ReachedWith id n k ∨ (n = node ∧ k = hops)
  arrives : forall n k, mesh.UnderWay id n k -> mesh'.Gets id n k
  leaves : forall n k, mesh'.UnderWay id n k -> mesh.UnderWay id n k ∨
    (k = hops + 1 ∧ hops < horizon ∧ n ∈ (topo.fill node).peers ∧
      ¬ (mesh.ledgers node).Holds id n)
  told : hops < horizon -> forall peer, peer ∈ (topo.fill node).peers ->
    source = some peer ∨ (mesh.ledgers node).Holds id peer ∨
      mesh'.UnderWay id peer (hops + 1)
  learns : forall n peer, (mesh'.ledgers n).Holds id peer ->
    (mesh.ledgers n).Holds id peer ∨ source = some peer ∨ mesh'.UnderWay id peer (hops + 1)
  keeps : forall n peer, (mesh.ledgers n).Holds id peer -> (mesh'.ledgers n).Holds id peer
  holds : hops < horizon -> forall peer, peer ∈ (topo.fill node).peers ->
    (mesh'.ledgers node).Holds id peer

namespace Mesh

variable {topo : Topology} {ttlMs : UInt64} {since : PeerId -> UInt64} {mesh mesh' : Mesh}
  {node : PeerId} {fromPeer : Option PeerId} {msg : TunnelMessage} {nowMs : UInt64}
  {id : TunnelId} {horizon hops : Nat}

variable {source : Option PeerId} {copy : Copy}

theorem Spreads.gets (h : Spreads topo id horizon mesh node source hops mesh') {n : PeerId}
    {k : Nat} (hgets : mesh.Gets id n k) : mesh'.Gets id n k := by
  rcases hgets with hreached | hunder
  · exact Or.inl ((h.reached n k).mpr (Or.inl hreached))
  · exact h.arrives n k hunder

theorem Untouched.gets (h : Untouched id mesh mesh') (n : PeerId) (k : Nat) :
    mesh'.Gets id n k <-> mesh.Gets id n k := by
  unfold Gets
  rw [h.reached, h.underWay]

theorem received_mem_receive {n : PeerId} {m : TunnelMessage} :
    Act.received n source m ∈ (mesh.receive topo node fromPeer msg nowMs).log <->
      (n = node ∧ source = fromPeer ∧ m = msg) ∨ Act.received n source m ∈ mesh.log := by
  unfold receive
  simp

theorem mem_inFlight_receive :
    copy ∈ (mesh.receive topo node fromPeer msg nowMs).inFlight <->
      copy ∈ mesh.inFlight ∨ copy ∈ relays node msg
        ((topo.fill node).flow (mesh.ledgers node) msg fromPeer nowMs).fst := by
  unfold receive
  simp

theorem reachedWith_receive (n : PeerId) (k : Nat) :
    (mesh.receive topo node fromPeer msg nowMs).ReachedWith id n k <->
      mesh.ReachedWith id n k ∨ (n = node ∧ msg.id = id ∧ msg.hops.toNat = k) := by
  unfold ReachedWith
  constructor
  · rintro ⟨source, m, hlog, hid, hhops⟩
    rcases received_mem_receive.mp hlog with ⟨hn, -, hm⟩ | hold
    · rw [← hm]
      exact Or.inr ⟨hn, hid, hhops⟩
    · exact Or.inl ⟨source, m, hold, hid, hhops⟩
  · rintro (⟨source, m, hlog, hid, hhops⟩ | ⟨hn, hid, hhops⟩)
    · exact ⟨source, m, received_mem_receive.mpr (Or.inr hlog), hid, hhops⟩
    · exact ⟨fromPeer, msg, received_mem_receive.mpr (Or.inl ⟨hn, rfl, rfl⟩), hid, hhops⟩

theorem underWay_receive (n : PeerId) (k : Nat) :
    (mesh.receive topo node fromPeer msg nowMs).UnderWay id n k <->
      mesh.UnderWay id n k ∨
        (n ∈ ((topo.fill node).flow (mesh.ledgers node) msg fromPeer nowMs).fst ∧
          msg.id = id ∧ msg.forwarded.hops.toNat = k) := by
  unfold UnderWay
  constructor
  · rintro ⟨copy, hcopy, hreceiver, hid, hhops⟩
    rcases mem_inFlight_receive.mp hcopy with hold | hnew
    · exact Or.inl ⟨copy, hold, hreceiver, hid, hhops⟩
    · rcases mem_relays.mp hnew with ⟨-, hplan, hmsg⟩
      rw [hmsg] at hid hhops
      rw [hreceiver] at hplan
      exact Or.inr ⟨hplan, hid, hhops⟩
  · rintro (⟨copy, hcopy, hreceiver, hid, hhops⟩ | ⟨hplan, hid, hhops⟩)
    · exact ⟨copy, mem_inFlight_receive.mpr (Or.inl hcopy), hreceiver, hid, hhops⟩
    · exact ⟨⟨node, n, msg.forwarded⟩,
        mem_inFlight_receive.mpr (Or.inr (mem_relays.mpr ⟨rfl, hplan, rfl⟩)), rfl, hid, hhops⟩

section

variable (h : mesh.Safe topo ttlMs since) (hsince : (since node).toNat <= nowMs.toNat)
  (hnow : nowMs.toNat < (since node).toNat + ttlMs.toNat)
include h hsince hnow

theorem Safe.untouched_receive (hid : msg.id ≠ id) :
    Untouched id mesh (mesh.receive topo node fromPeer msg nowMs) where
  reached n k := by
    rw [reachedWith_receive]
    simp [hid]
  underWay n k := by
    rw [underWay_receive]
    simp [hid]
  holds n peer := by
    rw [holds_receive (h.flow hsince hnow fromPeer msg)]
    simp [Ne.symm hid]

theorem Safe.spreads_receive (hhorizon : msg.ttlHops.toNat = horizon) :
    Spreads topo msg.id horizon mesh node fromPeer msg.hops.toNat
      (mesh.receive topo node fromPeer msg nowMs) := by
  have hflow := h.flow hsince hnow fromPeer msg
  have hplanned : forall peer,
      peer ∈ ((topo.fill node).flow (mesh.ledgers node) msg fromPeer nowMs).fst ->
      (mesh.receive topo node fromPeer msg nowMs).UnderWay msg.id peer
        (msg.hops.toNat + 1) := by
    intro peer hpeer
    have hhops := ((hflow.plan peer).mp hpeer).left
    exact (underWay_receive peer _).mpr
      (Or.inr ⟨hpeer, rfl, TunnelMessage.toNat_hops_forwarded hhops⟩)
  have hmember : msg.hops.toNat < horizon -> forall peer, peer ∈ (topo.fill node).peers ->
      fromPeer = some peer ∨ (mesh.ledgers node).Holds msg.id peer ∨
        peer ∈ ((topo.fill node).flow (mesh.ledgers node) msg fromPeer nowMs).fst := by
    intro hhops peer hpeer
    by_cases hsource : fromPeer = some peer
    · exact Or.inl hsource
    · by_cases hholds : (mesh.ledgers node).Holds msg.id peer
      · exact Or.inr (Or.inl hholds)
      · exact Or.inr (Or.inr ((hflow.plan peer).mpr
          ⟨by rw [hhorizon]; exact hhops, hpeer, hsource, hholds⟩))
  refine ⟨?_, ?_, ?_, ?_, ?_, ?_, ?_⟩
  · intro n k
    rw [reachedWith_receive]
    simp [eq_comm]
  · intro n k hunder
    exact Or.inr ((underWay_receive n k).mpr (Or.inl hunder))
  · intro n k hunder
    rcases (underWay_receive n k).mp hunder with hold | ⟨hplan, -, hk⟩
    · exact Or.inl hold
    · rcases (hflow.plan n).mp hplan with ⟨hhops, hpeer, -, hnot⟩
      rw [TunnelMessage.toNat_hops_forwarded hhops] at hk
      exact Or.inr ⟨hk.symm, by rw [← hhorizon]; exact hhops, hpeer, hnot⟩
  · intro hhops peer hpeer
    rcases hmember hhops peer hpeer with hsource | hholds | hplan
    · exact Or.inl hsource
    · exact Or.inr (Or.inl hholds)
    · exact Or.inr (Or.inr (hplanned peer hplan))
  · intro n peer hholds
    rcases (holds_receive hflow n peer msg.id).mp hholds with hold | ⟨-, -, hsource | hplan⟩
    · exact Or.inl hold
    · exact Or.inr (Or.inl hsource)
    · exact Or.inr (Or.inr (hplanned peer hplan))
  · intro n peer hholds
    exact (holds_receive hflow n peer msg.id).mpr (Or.inl hholds)
  · intro hhops peer hpeer
    rcases hmember hhops peer hpeer with hsource | hholds | hplan
    · exact (holds_receive hflow node peer msg.id).mpr (Or.inr ⟨rfl, rfl, Or.inl hsource⟩)
    · exact (holds_receive hflow node peer msg.id).mpr (Or.inl hholds)
    · exact (holds_receive hflow node peer msg.id).mpr (Or.inr ⟨rfl, rfl, Or.inr hplan⟩)

end

theorem Untouched.of_erase
    (h : Untouched id { mesh with inFlight := mesh.inFlight.erase copy } mesh')
    (hid : copy.msg.id ≠ id) : Untouched id mesh mesh' where
  reached := h.reached
  underWay n k := by
    rw [h.underWay]
    constructor
    · rintro ⟨c, hc, hrest⟩
      exact ⟨c, mem_of_mem_erase hc, hrest⟩
    · rintro ⟨c, hc, hreceiver, hcid, hhops⟩
      have hne : c ≠ copy := by
        rintro rfl
        exact hid hcid
      exact ⟨c, (mem_erase_of_ne hne).mpr hc, hreceiver, hcid, hhops⟩
  holds := h.holds

theorem Spreads.of_erase
    (h : Spreads topo copy.msg.id horizon { mesh with inFlight := mesh.inFlight.erase copy }
      copy.receiver source copy.msg.hops.toNat mesh') :
    Spreads topo copy.msg.id horizon mesh copy.receiver source copy.msg.hops.toNat mesh' where
  reached := h.reached
  arrives n k := by
    rintro ⟨c, hc, hreceiver, hcid, hhops⟩
    by_cases heq : c = copy
    · rw [heq] at hreceiver hhops
      exact Or.inl ((h.reached n k).mpr (Or.inr ⟨hreceiver.symm, hhops.symm⟩))
    · exact h.arrives n k ⟨c, (mem_erase_of_ne heq).mpr hc, hreceiver, hcid, hhops⟩
  leaves n k hunder := by
    rcases h.leaves n k hunder with ⟨c, hc, hrest⟩ | hnew
    · exact Or.inl ⟨c, mem_of_mem_erase hc, hrest⟩
    · exact Or.inr hnew
  told := h.told
  learns := h.learns
  keeps := h.keeps
  holds := h.holds

/-- The copies of the message under way have its horizon, and their sender has it. -/
def Carried (id : TunnelId) (horizon : Nat) (mesh : Mesh) : Prop :=
  forall copy, copy ∈ mesh.inFlight -> copy.msg.id = id ->
    copy.msg.ttlHops.toNat = horizon ∧ mesh.Reached id copy.sender

theorem Carried.receive (h : mesh.Carried id horizon)
    (hmsg : msg.id = id -> msg.ttlHops.toNat = horizon) :
    (mesh.receive topo node fromPeer msg nowMs).Carried id horizon := by
  intro copy hcopy hid
  rcases mem_inFlight_receive.mp hcopy with hold | hnew
  · rcases h copy hold hid with ⟨hhorizon, k, hreached⟩
    exact ⟨hhorizon, k, (reachedWith_receive _ _).mpr (Or.inl hreached)⟩
  · rcases mem_relays.mp hnew with ⟨hsender, -, hcopied⟩
    rw [hcopied] at hid
    rw [hcopied, hsender]
    exact ⟨hmsg hid, _, (reachedWith_receive _ _).mpr (Or.inr ⟨rfl, hid, rfl⟩)⟩

theorem Carried.erase (h : mesh.Carried id horizon) (copy : Copy) :
    Carried id horizon { mesh with inFlight := mesh.inFlight.erase copy } :=
  fun c hc hid => h c (mem_of_mem_erase hc) hid

end Mesh

/-- The event does not offer the message anew. -/
def MeshEvent.NotOffer (id : TunnelId) : MeshEvent -> Prop
  | .offer _ _ msg _ => msg.id ≠ id
  | .deliver _ _ => True

instance (id : TunnelId) : forall e : MeshEvent, Decidable (e.NotOffer id)
  | .offer _ _ msg _ => inferInstanceAs (Decidable (msg.id ≠ id))
  | .deliver _ _ => inferInstanceAs (Decidable True)

/-- A copy of the message is delivered only when none under way has travelled less. -/
def MeshEvent.FewestFirst (id : TunnelId) (mesh : Mesh) : MeshEvent -> Prop
  | .offer _ _ _ _ => True
  | .deliver copy _ => copy.msg.id = id ->
      forall node hops, mesh.UnderWay id node hops -> copy.msg.hops.toNat <= hops

namespace Mesh

variable {topo : Topology} {ttlMs : UInt64} {since : PeerId -> UInt64} {mesh mesh' : Mesh}
  {id : TunnelId} {horizon : Nat}

theorem step_cases {e : MeshEvent} (hsafe : mesh.Safe topo ttlMs since)
    (hcarried : mesh.Carried id horizon) (hclock : e.InTtl ttlMs since)
    (honce : e.NotOffer id) (hstep : mesh.step topo e = some mesh') :
    mesh'.Carried id horizon ∧
      (Untouched id mesh mesh' ∨ exists copy nowMs, e = .deliver copy nowMs ∧
        copy ∈ mesh.inFlight ∧ copy.msg.id = id ∧
        Spreads topo id horizon mesh copy.receiver (some copy.sender) copy.msg.hops.toNat
          mesh') := by
  cases e with
  | offer node fromPeer msg nowMs =>
      rcases step_offer hstep with ⟨-, rfl⟩
      exact ⟨hcarried.receive (fun hid => absurd hid honce),
        Or.inl (hsafe.untouched_receive hclock.left hclock.right honce)⟩
  | deliver copy nowMs =>
      rcases step_deliver hstep with ⟨hcopy, rfl⟩
      have herased := hsafe.erase copy
      refine ⟨(hcarried.erase copy).receive (fun hid => (hcarried copy hcopy hid).left), ?_⟩
      by_cases hid : copy.msg.id = id
      · subst hid
        exact Or.inr ⟨copy, nowMs, rfl, hcopy, rfl,
          (herased.spreads_receive hclock.left hclock.right
            (hcarried copy hcopy rfl).left).of_erase⟩
      · exact Or.inl ((herased.untouched_receive hclock.left hclock.right hid).of_erase hid)

end Mesh

/-!
## Every peer of a relaying node gets the message
-/

/--
Whom a ledger names gets the message, and so do the peers of a node that received a copy
with hops to spare; the bound says with how many hops.
-/
structure Mesh.Closed (topo : Topology) (id : TunnelId) (horizon : Nat)
    (bound : Nat -> Nat -> Prop) (mesh : Mesh) : Prop where
  holds : forall node peer, (mesh.ledgers node).Holds id peer -> exists k, mesh.Gets id peer k
  closed : forall node hops, mesh.ReachedWith id node hops -> hops < horizon ->
    forall peer, peer ∈ (topo.fill node).peers -> exists k, bound hops k ∧ mesh.Gets id peer k

/-- What was received has at most so many hops, and what is under way one more at most. -/
structure Mesh.Levelled (id : TunnelId) (level : Nat) (mesh : Mesh) : Prop where
  reached : forall node hops, mesh.ReachedWith id node hops -> hops <= level
  underWay : forall node hops, mesh.UnderWay id node hops -> level <= hops ∧ hops <= level + 1

/-- So many different nodes that have received the message with hops to spare. -/
def Mesh.Trail (topo : Topology) (id : TunnelId) (horizon : Nat) (mesh : Mesh)
    (trail : List PeerId) : Prop :=
  trail.Nodup ∧ forall n, n ∈ trail -> n ∈ topo.nodes ∧
    exists k, k < horizon ∧ mesh.ReachedWith id n k

/-- A copy that has travelled so many hops came through as many nodes, all different. -/
structure Mesh.Chained (topo : Topology) (id : TunnelId) (horizon : Nat) (mesh : Mesh) :
    Prop where
  trail : forall node hops, mesh.Gets id node hops ->
    exists trail, mesh.Trail topo id horizon trail ∧ trail.length = hops
  spent : forall node hops, mesh.ReachedWith id node hops -> hops < horizon ->
    forall peer, peer ∈ (topo.fill node).peers -> (mesh.ledgers node).Holds id peer
  inside : forall node hops, mesh.ReachedWith id node hops -> node ∈ topo.nodes

namespace Mesh

variable {topo : Topology} {ttlMs : UInt64} {since : PeerId -> UInt64} {mesh mesh' : Mesh}
  {id : TunnelId} {horizon level : Nat} {bound : Nat -> Nat -> Prop}
  {node : PeerId} {source : Option PeerId} {hops : Nat}

theorem Closed.untouched (h : mesh.Closed topo id horizon bound)
    (hun : Untouched id mesh mesh') : mesh'.Closed topo id horizon bound where
  holds n peer hholds := by
    rcases h.holds n peer ((hun.holds n peer).mp hholds) with ⟨k, hgets⟩
    exact ⟨k, (hun.gets peer k).mpr hgets⟩
  closed n j hreached hj peer hpeer := by
    rcases h.closed n j ((hun.reached n j).mp hreached) hj peer hpeer with ⟨k, hbound, hgets⟩
    exact ⟨k, hbound, (hun.gets peer k).mpr hgets⟩

theorem Closed.spreads (h : mesh.Closed topo id horizon bound)
    (hspreads : Spreads topo id horizon mesh node source hops mesh')
    (hsource : forall peer, source = some peer -> mesh.Reached id peer)
    (hbound : forall peer k, mesh'.Gets id peer k -> bound hops k) :
    mesh'.Closed topo id horizon bound where
  holds n peer hholds := by
    rcases hspreads.learns n peer hholds with hold | hsame | hunder
    · rcases h.holds n peer hold with ⟨k, hgets⟩
      exact ⟨k, hspreads.gets hgets⟩
    · rcases hsource peer hsame with ⟨k, hreached⟩
      exact ⟨k, hspreads.gets (Or.inl hreached)⟩
    · exact ⟨_, Or.inr hunder⟩
  closed n j hreached hj peer hpeer := by
    rcases (hspreads.reached n j).mp hreached with hold | ⟨rfl, rfl⟩
    · rcases h.closed n j hold hj peer hpeer with ⟨k, hk, hgets⟩
      exact ⟨k, hk, hspreads.gets hgets⟩
    · have hgets : exists k, mesh'.Gets id peer k := by
        rcases hspreads.told hj peer hpeer with hsame | hholds | hunder
        · rcases hsource peer hsame with ⟨k, hreached'⟩
          exact ⟨k, hspreads.gets (Or.inl hreached')⟩
        · rcases h.holds _ peer hholds with ⟨k, hgets⟩
          exact ⟨k, hspreads.gets hgets⟩
        · exact ⟨_, Or.inr hunder⟩
      rcases hgets with ⟨k, hk⟩
      exact ⟨k, hbound peer k hk, hk⟩

theorem Levelled.untouched (h : mesh.Levelled id level) (hun : Untouched id mesh mesh') :
    mesh'.Levelled id level where
  reached n k hreached := h.reached n k ((hun.reached n k).mp hreached)
  underWay n k hunder := h.underWay n k ((hun.underWay n k).mp hunder)

theorem Levelled.spreads (h : mesh.Levelled id level)
    (hspreads : Spreads topo id horizon mesh node source hops mesh') (hlevel : level <= hops)
    (hfewest : forall n k, mesh.UnderWay id n k -> hops <= k) : mesh'.Levelled id hops where
  reached n k hreached := by
    rcases (hspreads.reached n k).mp hreached with hold | ⟨-, rfl⟩
    · have hk := h.reached n k hold
      omega
    · exact le_refl _
  underWay n k hunder := by
    rcases hspreads.leaves n k hunder with hold | ⟨rfl, -⟩
    · have hk := h.underWay n k hold
      have hmin := hfewest n k hold
      omega
    · omega

theorem Levelled.gets (h : mesh.Levelled id level) (n : PeerId) (k : Nat)
    (hgets : mesh.Gets id n k) : k <= level + 1 := by
  rcases hgets with hreached | hunder
  · have hk := h.reached n k hreached
    omega
  · exact (h.underWay n k hunder).right

theorem Trail.mono {trail : List PeerId} (h : mesh.Trail topo id horizon trail)
    (hkept : forall n k, mesh.ReachedWith id n k -> mesh'.ReachedWith id n k) :
    mesh'.Trail topo id horizon trail := by
  refine ⟨h.left, ?_⟩
  intro n hn
  rcases h.right n hn with ⟨hin, k, hk, hreached⟩
  exact ⟨hin, k, hk, hkept n k hreached⟩

theorem Chained.untouched (h : mesh.Chained topo id horizon)
    (hun : Untouched id mesh mesh') : mesh'.Chained topo id horizon where
  trail n j hgets := by
    rcases h.trail n j ((hun.gets n j).mp hgets) with ⟨trail, htrail, hlength⟩
    exact ⟨trail, htrail.mono (fun m k => (hun.reached m k).mpr), hlength⟩
  spent n j hreached hj peer hpeer :=
    (hun.holds n peer).mpr (h.spent n j ((hun.reached n j).mp hreached) hj peer hpeer)
  inside n j hreached := h.inside n j ((hun.reached n j).mp hreached)

theorem Chained.not_mem_trail (h : mesh.Chained topo id horizon) {trail : List PeerId}
    (htrail : mesh.Trail topo id horizon trail) {peer : PeerId}
    (hpeer : peer ∈ (topo.fill node).peers) (hnot : ¬ (mesh.ledgers node).Holds id peer) :
    node ∉ trail := by
  intro hmem
  rcases htrail.right node hmem with ⟨-, k, hk, hreached⟩
  exact hnot (h.spent node k hreached hk peer hpeer)

theorem Chained.spreads (h : mesh.Chained topo id horizon)
    (hspreads : Spreads topo id horizon mesh node source hops mesh') (hnode : node ∈ topo.nodes)
    (hcame : exists trail, mesh.Trail topo id horizon trail ∧ trail.length = hops) :
    mesh'.Chained topo id horizon := by
  have hkept : forall n k, mesh.ReachedWith id n k -> mesh'.ReachedWith id n k :=
    fun n k hreached => (hspreads.reached n k).mpr (Or.inl hreached)
  refine ⟨?_, ?_, ?_⟩
  · intro n j hgets
    have hold : (exists trail, mesh.Trail topo id horizon trail ∧ trail.length = j) ->
        exists trail, mesh'.Trail topo id horizon trail ∧ trail.length = j := by
      rintro ⟨trail, htrail, hlength⟩
      exact ⟨trail, htrail.mono hkept, hlength⟩
    rcases hgets with hreached | hunder
    · rcases (hspreads.reached n j).mp hreached with hbefore | ⟨rfl, rfl⟩
      · exact hold (h.trail n j (Or.inl hbefore))
      · exact hold hcame
    · rcases hspreads.leaves n j hunder with hbefore | ⟨rfl, hspare, hpeer, hnot⟩
      · exact hold (h.trail n j (Or.inr hbefore))
      · rcases hcame with ⟨trail, htrail, hlength⟩
        refine ⟨node :: trail, ⟨nodup_cons.mpr
          ⟨h.not_mem_trail htrail hpeer hnot, htrail.left⟩, ?_⟩, by rw [length_cons, hlength]⟩
        intro m hm
        rcases mem_cons.mp hm with rfl | hm
        · exact ⟨hnode, hops, hspare, (hspreads.reached _ _).mpr (Or.inr ⟨rfl, rfl⟩)⟩
        · exact (htrail.mono hkept).right m hm
  · intro n j hreached hj peer hpeer
    rcases (hspreads.reached n j).mp hreached with hbefore | ⟨rfl, rfl⟩
    · exact hspreads.keeps n peer (h.spent n j hbefore hj peer hpeer)
    · exact hspreads.holds hj peer hpeer
  · intro n j hreached
    rcases (hspreads.reached n j).mp hreached with hbefore | ⟨rfl, rfl⟩
    · exact h.inside n j hbefore
    · exact hnode

/-!
## Runs

The flood begins when its origin is offered the message; then copies are delivered, and
other messages may come and go.
-/

theorem start_no_gets {n : PeerId} {k : Nat} : ¬ (Mesh.start ttlMs).Gets id n k := by
  rintro (⟨source, m, hlog, -⟩ | ⟨copy, hcopy, -⟩)
  · cases hlog
  · cases hcopy

/-- What holds of the mesh while the flood goes on, whatever the order of delivery. -/
structure Flooding (topo : Topology) (ttlMs : UInt64) (since : PeerId -> UInt64) (id : TunnelId)
    (horizon : Nat) (mesh : Mesh) : Prop where
  safe : mesh.Safe topo ttlMs since
  carried : mesh.Carried id horizon
  closed : mesh.Closed topo id horizon (fun _ _ => True)
  chained : mesh.Chained topo id horizon

/-- What holds of it besides when copies are delivered fewest hops first. -/
structure Levels (topo : Topology) (id : TunnelId) (horizon : Nat) (mesh : Mesh) : Prop where
  levelled : exists level, mesh.Levelled id level
  closed : mesh.Closed topo id horizon (fun hops k => k <= hops + 1)

theorem Flooding.step (mesh : Mesh) (e : MeshEvent) (mesh' : Mesh)
    (h : mesh.Flooding topo ttlMs since id horizon)
    (hcond : e.InTtl ttlMs since ∧ e.NotOffer id) (hstep : mesh.step topo e = some mesh') :
    mesh'.Flooding topo ttlMs since id horizon := by
  have hsafe := Safe.step mesh e mesh' h.safe hcond.left hstep
  rcases step_cases h.safe h.carried hcond.left hcond.right hstep with
    ⟨hcarried, hun | ⟨copy, nowMs, -, hcopy, hid, hspreads⟩⟩
  · exact ⟨hsafe, hcarried, h.closed.untouched hun, h.chained.untouched hun⟩
  · refine ⟨hsafe, hcarried, h.closed.spreads hspreads ?_ (fun _ _ _ => trivial),
      h.chained.spreads hspreads (h.safe.known copy hcopy) ?_⟩
    · rintro peer ⟨⟩
      exact (h.carried copy hcopy hid).right
    · exact h.chained.trail copy.receiver _ (Or.inr ⟨copy, hcopy, rfl, hid, rfl⟩)

theorem Levels.step (mesh : Mesh) (e : MeshEvent) (mesh' : Mesh)
    (hflood : mesh.Flooding topo ttlMs since id horizon) (h : mesh.Levels topo id horizon)
    (hcond : e.InTtl ttlMs since ∧ e.NotOffer id) (hfewest : e.FewestFirst id mesh)
    (hstep : mesh.step topo e = some mesh') : mesh'.Levels topo id horizon := by
  rcases h.levelled with ⟨level, hlevelled⟩
  rcases step_cases hflood.safe hflood.carried hcond.left hcond.right hstep with
    ⟨-, hun | ⟨copy, nowMs, rfl, hcopy, hid, hspreads⟩⟩
  · exact ⟨⟨level, hlevelled.untouched hun⟩, h.closed.untouched hun⟩
  · have hlevel := (hlevelled.underWay copy.receiver _ ⟨copy, hcopy, rfl, hid, rfl⟩).left
    have hlevelled' := hlevelled.spreads hspreads hlevel (hfewest hid)
    refine ⟨⟨_, hlevelled'⟩, h.closed.spreads hspreads ?_ hlevelled'.gets⟩
    rintro peer ⟨⟩
    exact (hflood.carried copy hcopy hid).right

section Origin

variable {origin : PeerId} {msg : TunnelMessage} {nowMs : UInt64}

theorem offered (hfresh : msg.hops = 0)
    (hclock : (MeshEvent.offer origin none msg nowMs).InTtl ttlMs since)
    (hstep : (Mesh.start ttlMs).step topo (.offer origin none msg nowMs) = some mesh) :
    mesh.Flooding topo ttlMs since msg.id msg.ttlHops.toNat ∧
      mesh.Levels topo msg.id msg.ttlHops.toNat ∧ mesh.ReachedWith msg.id origin 0 := by
  have hsafe := Safe.step _ _ mesh (Safe.start topo ttlMs since) hclock hstep
  rcases step_offer hstep with ⟨hnode, rfl⟩
  have hspreads : Spreads topo msg.id msg.ttlHops.toNat (Mesh.start ttlMs) origin none
      msg.hops.toNat ((Mesh.start ttlMs).receive topo origin none msg nowMs) :=
    (Safe.start topo ttlMs since).spreads_receive hclock.left hclock.right rfl
  have hzero : msg.hops.toNat = 0 := by
    rw [hfresh]
    rfl
  rw [hzero] at hspreads
  have hlevelled : (Mesh.start ttlMs).Levelled msg.id 0 :=
    ⟨fun n k h => absurd (Or.inl h) start_no_gets, fun n k h => absurd (Or.inr h) start_no_gets⟩
  have hlevelled' := hlevelled.spreads hspreads (le_refl 0) (fun n k _ => Nat.zero_le k)
  have hclosed : forall bound, (Mesh.start ttlMs).Closed topo msg.id msg.ttlHops.toNat bound :=
    fun bound => ⟨fun n peer h => absurd rfl h, fun n k h => absurd (Or.inl h) start_no_gets⟩
  have hchained : (Mesh.start ttlMs).Chained topo msg.id msg.ttlHops.toNat :=
    ⟨fun n k h => absurd h start_no_gets, fun n k h => absurd (Or.inl h) start_no_gets,
      fun n k h => absurd (Or.inl h) start_no_gets⟩
  have hcarried : (Mesh.start ttlMs).Carried msg.id msg.ttlHops.toNat := by
    intro copy hcopy
    cases hcopy
  refine ⟨⟨hsafe, hcarried.receive (fun _ => rfl), ?_, ?_⟩, ⟨⟨0, hlevelled'⟩, ?_⟩, ?_⟩
  · exact (hclosed _).spreads hspreads (fun peer h => by cases h) (fun _ _ _ => trivial)
  · refine hchained.spreads hspreads hnode ⟨[], ⟨nodup_nil, ?_⟩, rfl⟩
    intro n hn
    cases hn
  · exact (hclosed _).spreads hspreads (fun peer h => by cases h) hlevelled'.gets
  · exact (hspreads.reached origin 0).mpr (Or.inr ⟨rfl, rfl⟩)

end Origin

/-- The events after the first, of a run of one flood. -/
def Continues (ttlMs : UInt64) (since : PeerId -> UInt64) (id : TunnelId)
    (events : List MeshEvent) : Prop :=
  forall e, e ∈ events -> e.InTtl ttlMs since ∧ e.NotOffer id

variable {events : List MeshEvent}

theorem Flooding.run (h : mesh.Flooding topo ttlMs since id horizon)
    (hevents : Continues ttlMs since id events)
    (hrun : run? (Mesh.step topo) mesh events = some mesh') :
    mesh'.Flooding topo ttlMs since id horizon := by
  have halong : Along (Mesh.step topo)
      (fun _ e => e.InTtl ttlMs since ∧ e.NotOffer id) mesh events :=
    along_of_invariant (fun _ => True) (fun _ _ _ _ _ => trivial)
      (fun _ e he _ => hevents e he) trivial
  exact run?_invariant_along Flooding.step h halong hrun

theorem Levels.run (hflood : mesh.Flooding topo ttlMs since id horizon)
    (h : mesh.Levels topo id horizon) (hevents : Continues ttlMs since id events)
    (hfewest : Along (Mesh.step topo) (fun mesh e => e.FewestFirst id mesh) mesh events)
    (hrun : run? (Mesh.step topo) mesh events = some mesh') : mesh'.Levels topo id horizon := by
  have halong := along_of_forall hevents hfewest
  have hboth := run?_invariant_along
    (fun s e s' (hs : s.Flooding topo ttlMs since id horizon ∧ s.Levels topo id horizon)
      hcond hstep => And.intro (Flooding.step s e s' hs.left hcond.left hstep)
        (Levels.step s e s' hs.left hs.right hcond.left hcond.right hstep))
    ⟨hflood, h⟩ halong hrun
  exact hboth.right

theorem reached_kept {n : PeerId} {k : Nat} (h : mesh.ReachedWith id n k)
    (hrun : run? (Mesh.step topo) mesh events = some mesh') : mesh'.ReachedWith id n k := by
  refine @run?_invariant _ _ (Mesh.step topo) (fun s => s.ReachedWith id n k) ?_ _ _ _ h hrun
  intro s e s' hs hstep
  cases e with
  | offer node fromPeer msg nowMs =>
      rcases step_offer hstep with ⟨-, rfl⟩
      exact (reachedWith_receive n k).mpr (Or.inl hs)
  | deliver copy nowMs =>
      rcases step_deliver hstep with ⟨-, rfl⟩
      exact (reachedWith_receive n k).mpr (Or.inl hs)

theorem not_underWay (h : mesh.flying id = 0) (n : PeerId) (k : Nat) : ¬ mesh.UnderWay id n k := by
  rintro ⟨copy, hcopy, -, hid, -⟩
  have hnone := countP_eq_zero.mp h copy hcopy
  simp [hid] at hnone

theorem Closed.reached (h : mesh.Closed topo id horizon bound) (hquiet : mesh.flying id = 0)
    (hreached : mesh.ReachedWith id node hops) (hspare : hops < horizon) {peer : PeerId}
    (hpeer : peer ∈ (topo.fill node).peers) :
    exists k, bound hops k ∧ mesh.ReachedWith id peer k := by
  rcases h.closed node hops hreached hspare peer hpeer with ⟨k, hbound, hgets | hunder⟩
  · exact ⟨k, hbound, hgets⟩
  · exact absurd hunder (not_underWay hquiet peer k)

/-- Every node nearer than the horizon that was reached at all had hops to spare once. -/
def Spare (topo : Topology) (origin : PeerId) (id : TunnelId) (horizon : Nat) (mesh : Mesh) :
    Prop :=
  forall n node, n < horizon -> Within topo origin n node -> mesh.Reached id node ->
    exists k, k < horizon ∧ mesh.ReachedWith id node k

theorem covered_of_spare {origin : PeerId} (h : mesh.Closed topo id horizon bound)
    (hquiet : mesh.flying id = 0) (horigin : mesh.Reached id origin)
    (hspare : mesh.Spare topo origin id horizon) {n : Nat}
    (hwithin : Within topo origin n node) (hn : n <= horizon) : mesh.Reached id node := by
  induction hwithin with
  | here => exact horigin
  | hop hnear hpeer ih =>
      have hreached := ih (Nat.le_of_succ_le hn)
      rcases hspare _ _ hn hnear hreached with ⟨k, hk, hwith⟩
      rcases h.reached hquiet hwith hk hpeer with ⟨k', -, hwith'⟩
      exact ⟨k', hwith'⟩

theorem covered_of_levels {origin : PeerId} (h : mesh.Levels topo id horizon)
    (hquiet : mesh.flying id = 0) (horigin : mesh.ReachedWith id origin 0) {n : Nat}
    (hwithin : Within topo origin n node) (hn : n <= horizon) :
    exists k, k <= n ∧ mesh.ReachedWith id node k := by
  induction hwithin with
  | here => exact ⟨0, le_refl 0, horigin⟩
  | hop hnear hpeer ih =>
      rcases ih (Nat.le_of_succ_le hn) with ⟨k, hk, hwith⟩
      rcases h.closed.reached hquiet hwith (by omega) hpeer with ⟨k', hk', hwith'⟩
      exact ⟨k', by omega, hwith'⟩

theorem Chained.all_reached (h : mesh.Chained topo id horizon)
    (hnodes : topo.nodes.length <= horizon + 1) (hreached : mesh.ReachedWith id node hops)
    (hnone : forall k, k < horizon -> ¬ mesh.ReachedWith id node k) {peer : PeerId}
    (hpeer : peer ∈ topo.nodes) : mesh.Reached id peer := by
  have hhops : horizon <= hops := by
    by_contra hlt
    exact hnone hops (Nat.lt_of_not_le hlt) hreached
  rcases h.trail node hops (Or.inl hreached) with ⟨trail, htrail, hlength⟩
  have hfresh : node ∉ trail := by
    intro hmem
    rcases htrail.right node hmem with ⟨-, k, hk, hwith⟩
    exact hnone k hk hwith
  have hsub : node :: trail ⊆ topo.nodes := by
    intro m hm
    rcases mem_cons.mp hm with rfl | hm
    · exact h.inside m hops hreached
    · exact (htrail.right m hm).left
  have hperm : (node :: trail).Perm topo.nodes :=
    (subperm_of_subset (nodup_cons.mpr ⟨hfresh, htrail.left⟩) hsub).perm_of_length_le
      (by rw [length_cons]; omega)
  rcases mem_cons.mp (hperm.mem_iff.mpr hpeer) with rfl | hmem
  · exact ⟨hops, hreached⟩
  · rcases htrail.right peer hmem with ⟨-, k, -, hwith⟩
    exact ⟨k, hwith⟩

end Mesh

open Mesh in
theorem floodFill_covers {topo : Topology} {ttlMs : UInt64} {since : PeerId -> UInt64}
    {origin : PeerId} {msg : TunnelMessage} {nowMs : UInt64} {events : List MeshEvent}
    {mesh : Mesh} (hfresh : msg.hops = 0)
    (hclock : (MeshEvent.offer origin none msg nowMs).InTtl ttlMs since)
    (hevents : Continues ttlMs since msg.id events) (hrun : run? (Mesh.step topo) (Mesh.start ttlMs)
      (.offer origin none msg nowMs :: events) = some mesh) (hquiet : mesh.flying msg.id = 0)
    (hspare : mesh.Spare topo origin msg.id msg.ttlHops.toNat ∨
      Along (Mesh.step topo) (fun mesh e => e.FewestFirst msg.id mesh) (Mesh.start ttlMs)
        (.offer origin none msg nowMs :: events) ∨
      topo.nodes.length <= msg.ttlHops.toNat + 1)
    {n : Nat} {node : PeerId} (hn : n <= msg.ttlHops.toNat) (hwithin : Within topo origin n node) :
    mesh.Reached msg.id node := by
  rcases run?_cons_some hrun with ⟨first, hfirst, hrest⟩
  rcases offered hfresh hclock hfirst with ⟨hflooding, hlevels, horigin⟩
  have hflood := hflooding.run hevents hrest
  have horigin' := reached_kept horigin hrest
  rcases hspare with hspare | hfewest | hnodes
  · exact covered_of_spare hflood.closed hquiet ⟨0, horigin'⟩ hspare hwithin hn
  · have hlevels' := hlevels.run hflooding hevents (hfewest.right first hfirst) hrest
    rcases covered_of_levels hlevels' hquiet horigin' hwithin hn with ⟨k, -, hreached⟩
    exact ⟨k, hreached⟩
  · by_cases hspare : mesh.Spare topo origin msg.id msg.ttlHops.toNat
    · exact covered_of_spare hflood.closed hquiet ⟨0, horigin'⟩ hspare hwithin hn
    · unfold Spare at hspare
      push Not at hspare
      rcases hspare with ⟨m, last, hm, hlast, ⟨hops, hreached⟩, hnone⟩
      exact hflood.chained.all_reached hnodes hreached hnone
        (Within.inside (hflood.chained.inside origin 0 horigin') hwithin)

/-- The same order of delivery with a hop more. -/
def kiteRunOn : List MeshEvent :=
  [kiteDeliver 1 2 1 4, kiteDeliver 2 3 2 4, kiteDeliver 1 3 1 4, kiteDeliver 3 4 3 4,
    kiteDeliver 3 1 3 4, kiteDeliver 4 5 4 4]

theorem within_kite : Within kite (kiteNode 1) 3 (kiteNode 5) :=
  ((Within.here.hop (by decide : kiteNode 3 ∈ _)).hop (by decide : kiteNode 4 ∈ _)).hop
    (by decide)

theorem floodFill_covers_kite : exists mesh, run? (Mesh.step kite) (Mesh.start 1000)
        (.offer (kiteNode 1) none (kiteMessage 4) 0 :: kiteRunOn) = some mesh ∧
      mesh.flying (kiteMessage 4).id = 0 ∧ mesh.Reached (kiteMessage 4).id (kiteNode 5) := by
  have hclock : (MeshEvent.offer (kiteNode 1) none (kiteMessage 4) 0).InTtl 1000
      (fun _ => 0) := by decide
  have hevents : forall e, e ∈ kiteRunOn ->
      e.InTtl 1000 (fun _ => 0) ∧ e.NotOffer (kiteMessage 4).id := by decide
  have hrun : exists mesh, run? (Mesh.step kite) (Mesh.start 1000)
      (.offer (kiteNode 1) none (kiteMessage 4) 0 :: kiteRunOn) = some mesh ∧
      mesh.flying (kiteMessage 4).id = 0 :=
    ⟨_, rfl, rfl⟩
  rcases hrun with ⟨mesh, hrun, hquiet⟩
  exact ⟨mesh, hrun, hquiet, floodFill_covers rfl hclock hevents hrun hquiet
    (Or.inr (Or.inr (by decide))) (by decide) within_kite⟩

theorem kiteRun_misses :
    exists mesh, run? (Mesh.step kite) (Mesh.start 1000) kiteRun = some mesh ∧
      mesh.inFlight = [] ∧ (forall e, e ∈ kiteRun -> e.InTtl 1000 (fun _ => 0)) ∧
      Within kite (kiteNode 1) (kiteMessage 3).ttlHops.toNat (kiteNode 5) ∧
      ¬ mesh.Reached (kiteMessage 3).id (kiteNode 5) := by
  have hclock : forall e, e ∈ kiteRun -> e.InTtl 1000 (fun _ => 0) := by decide
  have hothers : exists mesh, run? (Mesh.step kite) (Mesh.start 1000) kiteRun = some mesh ∧
      mesh.inFlight = [] ∧ forall act, act ∈ mesh.log -> act.node ≠ kiteNode 5 :=
    ⟨_, rfl, rfl, by decide⟩
  rcases hothers with ⟨mesh, hrun, hquiet, hothers⟩
  refine ⟨mesh, hrun, hquiet, hclock, within_kite, ?_⟩
  rintro ⟨hops, source, m, hlog, -⟩
  exact hothers _ hlog rfl

end Rabbithole.Reticulum
