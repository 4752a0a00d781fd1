import Mathlib.Combinatorics.SimpleGraph.Star
import Rabbithole.Tracker.Mesh

/-!
# Where an entry comes from

Every entry that gossip brought has come along a route: from the tracker that the server
announced itself to, over trackers that talk, never straight back.  Each hop adds no more
than a lifetime and a delivery to its age.  Where the trackers' graph has no cycle, a route
passes no tracker twice.
-/

namespace Rabbithole.Tracker

open Foundation Federation Directory List

namespace Mesh

variable {tracker : Type} (m : Mesh tracker)

/-- A walk of so many hops to a tracker that never turns back at once, and whose last hop
is from where the tracker says it has learned the entry. -/
def Route (x : tracker) (via : Option SocketAddr) (hops : Nat) : Prop :=
  exists origin, exists p : m.graph.Walk origin x, p.length = hops ∧
    IsChain (fun e e' => e ≠ e') p.edges ∧
    forall y, p.edges.getLast? = some s(y, x) -> via = some (m.addr y)

theorem route_origin (x : tracker) (via : Option SocketAddr) : m.Route x via 0 := by
  refine ⟨x, SimpleGraph.Walk.nil, rfl, IsChain.nil, ?_⟩
  intro y h
  cases h

variable {via : Option SocketAddr} {node : Node}

theorem Route.next {x z : tracker} {hops : Nat} (h : m.Route x via hops) (hadj : m.graph.Adj x z)
    (hvia : via ≠ some (m.addr z)) : m.Route z (some (m.addr x)) (hops + 1) := by
  rcases h with ⟨origin, p, hlength, hchain, hlast⟩
  refine ⟨origin, p.concat hadj, ?_, ?_, ?_⟩
  · rw [SimpleGraph.Walk.length_concat, hlength]
  · rw [SimpleGraph.Walk.edges_concat, concat_eq_append]
    apply isChain_append.mpr
    refine ⟨hchain, isChain_singleton _, ?_⟩
    intro e he e' he'
    cases he'
    intro heq
    rw [heq, Sym2.eq_swap] at he
    exact hvia (hlast z he)
  · intro y hy
    rw [SimpleGraph.Walk.edges_concat, concat_eq_append, getLast?_concat] at hy
    rcases Sym2.eq_iff.mp (Option.some.inj hy) with ⟨hsame, -⟩ | ⟨hx, hz⟩
    · rw [hsame]
    · rw [hx] at hadj
      exact absurd hadj (m.graph.loopless.irrefl z)

theorem Route.hops_lt [Fintype tracker] {x : tracker} {hops : Nat} (h : m.Route x via hops)
    (hforest : m.graph.IsAcyclic) : hops < Fintype.card tracker := by
  rcases h with ⟨origin, p, hlength, hchain, -⟩
  rw [<- hlength]
  exact ((hforest.isPath_iff_isChain p).mpr hchain).length_lt

/-!
## Entries and messages of one key
-/

variable (key : PublicKey) (last : Nat)

/-- The latest that an entry of the key was heard of so many hops from its server, which
has submitted nothing since a given instant. -/
def horizon (last hops : Nat) : Nat :=
  last + m.delay + hops * (m.registry.ttl + m.delay)

/-- The entry, if it is of the key, has come along a route and is not too young for it. -/
def Sourced (x : tracker) (entry : ServerEntry) : Prop :=
  entry.serverKey = some key ->
    exists hops, m.Route x entry.via hops ∧ entry.lastHeartbeat <= m.horizon last hops

def AllSourced (x : tracker) (s : State) : Prop :=
  forall slot entry, s.entries.get? slot = some entry -> m.Sourced key last x entry

/-- What may be on its way: announces by servers, and between trackers that talk to each
other what is asked and answered; a descriptor of the key only along its route. -/
inductive Sound : Source tracker -> tracker -> Nat -> GossipMessage -> Prop where
  | announce {addr : SocketAddr} {x : tracker} {sentAt : Nat} {signed : SignedDescriptor}
      (hquiet : signed.descriptor.serverKey = key -> sentAt <= last) :
      Sound (.server addr) x sentAt (.announce signed)
  | digest {y x : tracker} {sentAt : Nat} (hadj : m.graph.Adj y x)
      (entries : List DigestEntry) : Sound (.tracker y) x sentAt (.digest entries)
  | want {y x : tracker} {sentAt : Nat} (hadj : m.graph.Adj y x) (addrs : List SocketAddr) :
      Sound (.tracker y) x sentAt (.want addrs)
  | batch {y x : tracker} {sentAt : Nat} (hadj : m.graph.Adj y x)
      {descriptors : List SignedDescriptor}
      (hroutes : forall signed, signed ∈ descriptors -> signed.descriptor.serverKey = key ->
        exists via hops, m.Route y via hops ∧ via ≠ some (m.addr x) ∧
          sentAt < m.horizon last hops + m.registry.ttl) :
      Sound (.tracker y) x sentAt (.batch descriptors)

def SoundPacket (p : Packet tracker) : Prop :=
  exists message, p.datagram = GossipMessage.encode m.registry.format message ∧
    m.Sound key last p.source p.to_ p.sentAt message

variable {m key last}

variable {x y : tracker} {now : Nat} {s : State} {signed : SignedDescriptor}
  {message : GossipMessage}

theorem sourced_snapshot (h : m.AllSourced key last x s) (now : Nat) :
    m.AllSourced key last x (m.registry.snapshotAt s now).fst := by
  intro slot entry hentry
  have hpruned : ((s.prune m.registry.ttl now).entries.get? slot) = some entry := hentry
  rw [State.entry_prune] at hpruned
  exact h slot entry (Option.filter_eq_some_iff.mp hpruned).left

theorem route_of_snapshot {z : tracker} (h : m.AllSourced key last x s)
    (hentry : exists entry, entry ∈ (m.registry.snapshotAt s now).snd ∧
      entry.signed = some signed ∧ entry.via ≠ some (m.addr z))
    (hkey : signed.descriptor.serverKey = key) :
    exists via hops, m.Route x via hops ∧ via ≠ some (m.addr z) ∧
      now < m.horizon last hops + m.registry.ttl := by
  rcases hentry with ⟨entry, hmem, hsigned, hvia⟩
  rcases (m.registry.mem_snapshot).mp hmem with ⟨slot, hget, hlive⟩
  have hserver : entry.serverKey = some key := by
    unfold ServerEntry.serverKey
    rw [hsigned, Option.map_some, hkey]
  rcases h slot entry hget hserver with ⟨hops, hroute, hheard⟩
  refine ⟨entry.via, hops, hroute, hvia, ?_⟩
  have hfresh := State.isLive_iff.mp hlive
  omega

theorem entry_of_registered {r : Registry} {slot : Slot} {entry : ServerEntry}
    (h : (r.registerDescriptorAt s signed via now).fst.entries.get? slot = some entry) :
    s.entries.get? slot = some entry ∨ entry = ServerEntry.fromSigned signed via now := by
  have hswept : (s.prune r.ttl now).entries.get? slot = some entry ->
      s.entries.get? slot = some entry := by
    intro hget
    rw [State.entry_prune] at hget
    exact (Option.filter_eq_some_iff.mp hget).left
  unfold Registry.registerDescriptorAt at h
  split at h
  · exact Or.inl h
  · simp only [] at h
    split at h
    · exact Or.inl (hswept h)
    · rw [State.entry_put] at h
      split at h
      · exact Or.inr (Option.some.inj h).symm
      · exact Or.inl (hswept h)

theorem sourced_registered (h : m.AllSourced key last x s)
    (hnew : m.Sourced key last x (ServerEntry.fromSigned signed via now)) :
    m.AllSourced key last x (m.registry.registerDescriptorAt s signed via now).fst := by
  intro slot entry hentry
  rcases entry_of_registered hentry with hold | rfl
  · exact h slot entry hold
  · exact hnew

theorem sourced_learn (h : m.AllSourced key last x s) {descriptors : List SignedDescriptor}
    {peer : SocketAddr} (hnew : forall signed, signed ∈ descriptors ->
      m.Sourced key last x (ServerEntry.fromSigned signed (some peer) now)) :
    m.AllSourced key last x (m.learn s descriptors peer now) := by
  induction descriptors generalizing s with
  | nil => exact h
  | cons signed rest ih =>
      apply ih (sourced_registered h (hnew signed mem_cons_self))
      exact fun signed' hmem => hnew signed' (mem_cons_of_mem signed hmem)

/-!
## One message, one step
-/

theorem soundPacket_reply {messages : List GossipMessage}
    (h : forall message, message ∈ messages -> m.Sound key last (.tracker x) y now message)
    {p : Packet tracker} (hp : p ∈ m.replies (.tracker y) x now messages) :
    m.SoundPacket key last p := by
  rcases mem_map.mp hp with ⟨message, hmem, rfl⟩
  exact ⟨message, rfl, h message hmem⟩

theorem sound_want (hadj : m.graph.Adj x y) (addrs : List SocketAddr)
    (h : message ∈ if addrs.isEmpty then [] else [GossipMessage.want addrs]) :
    m.Sound key last (.tracker x) y now message := by
  split at h
  · cases h
  · rw [mem_singleton.mp h]
    exact Sound.want hadj addrs

theorem sound_batch (hsourced : m.AllSourced key last x s) (hadj : m.graph.Adj x y)
    {batch : List SignedDescriptor} (hbatch : forall signed, signed ∈ batch ->
      exists entry, entry ∈ (m.registry.snapshotAt s now).snd ∧
        entry.signed = some signed ∧ entry.via ≠ some (m.addr y))
    (h : message ∈ if batch.isEmpty then [] else [GossipMessage.batch batch]) :
    m.Sound key last (.tracker x) y now message := by
  split at h
  · cases h
  · rw [mem_singleton.mp h]
    exact Sound.batch hadj
      (fun signed hmem hkey => route_of_snapshot hsourced (hbatch signed hmem) hkey)

/-- A message that may be on its way leaves the tracker's entries sourced, and so are the
answers. -/
theorem handle_sound (hnode : m.AllSourced key last x node.state) {source : Source tracker}
    {sentAt : Nat} (hsound : m.Sound key last source x sentAt message)
    (hnow : now <= sentAt + m.delay) :
    m.AllSourced key last x (m.handleMessage node (m.addrOf source) now message).fst.state ∧
      forall p, p ∈ m.replies source x now
          (m.handleMessage node (m.addrOf source) now message).snd ->
        m.SoundPacket key last p := by
  cases hsound with
  | announce hquiet =>
      constructor
      · apply sourced_registered hnode
        intro hkey
        refine ⟨0, m.route_origin x none, ?_⟩
        have hsent := hquiet (Option.some.inj hkey)
        show now <= last + m.delay + 0 * _
        omega
      · intro p hp
        cases hp
  | @digest y _ _ hadj entries =>
      constructor
      · exact sourced_snapshot hnode now
      · intro p hp
        apply soundPacket_reply _ hp
        intro message hmem
        rcases mem_append.mp hmem with hwant | hbatch
        · exact sound_want hadj.symm _ hwant
        · exact sound_batch hnode hadj.symm (fun signed => of_mem_pushBatch) hbatch
  | @want y _ _ hadj addrs =>
      constructor
      · exact sourced_snapshot hnode now
      · intro p hp
        apply soundPacket_reply _ hp
        intro message hmem
        exact sound_batch hnode hadj.symm (fun signed => of_mem_batchFor) hmem
  | @batch y _ _ hadj descriptors hroutes =>
      constructor
      · apply sourced_learn hnode
        intro signed hmem hkey
        rcases hroutes signed hmem (Option.some.inj hkey) with ⟨via, hops, hroute, hvia, hsent⟩
        refine ⟨hops + 1, hroute.next m hadj hvia, ?_⟩
        show now <= last + m.delay + (hops + 1) * (m.registry.ttl + m.delay)
        rw [Nat.succ_mul]
        unfold horizon at hsent
        omega
      · intro p hp
        cases hp

theorem tick_sound (hnode : m.AllSourced key last x node.state) (hasPeers : Bool) (now : Nat) :
    m.AllSourced key last x (m.tick node hasPeers now).fst.state ∧
      forall message, message ∈ (m.tick node hasPeers now).snd ->
        exists entries, message = .digest entries := by
  cases hasPeers with
  | false => exact ⟨hnode, fun message h => absurd h not_mem_nil⟩
  | true =>
      constructor
      · exact sourced_snapshot hnode now
      · intro message h
        exact ⟨_, mem_singleton.mp h⟩

/-- What holds of the whole mesh at any time. -/
structure Traced (m : Mesh tracker) (key : PublicKey) (last : Nat) (net : Net tracker) :
    Prop where
  nodes : forall x, m.AllSourced key last x (net.nodes x).state
  flight : forall p, p ∈ net.flight -> m.SoundPacket key last p

theorem traced_start : m.Traced key last Mesh.start where
  nodes := by
    intro x slot entry h
    cases h
  flight := fun p hp => absurd hp not_mem_nil

/-- The event is not a late submission by the server. -/
def Quiet (key : PublicKey) (last : Nat) (e : Event tracker) : Prop :=
  forall addr x signed, e.action = .submit addr x signed ->
    signed.descriptor.serverKey = key -> e.now <= last

variable [DecidableEq tracker]

theorem sourced_update {net : Net tracker} (h : m.Traced key last net) {x : tracker}
    (hnode : m.AllSourced key last x node.state) (y : tracker) :
    m.AllSourced key last y (Function.update net.nodes x node y).state := by
  by_cases hy : y = x
  · rw [hy, Function.update_self]
    exact hnode
  · rw [Function.update_of_ne hy]
    exact h.nodes y

theorem traced_step (hself : forall x, x ∉ m.peers x) {net net' : Net tracker}
    {e : Event tracker} (h : m.Traced key last net) (hquiet : Quiet key last e)
    (hstep : m.step? net e = some net') : m.Traced key last net' := by
  unfold step? at hstep
  split at hstep
  · cases hstep
  · rcases e with ⟨now, action⟩
    cases action with
    | tick x =>
        rcases tick_sound (h.nodes x) (!(m.peers x).isEmpty) now with ⟨hnode, hdigests⟩
        cases hstep
        refine ⟨sourced_update h hnode, ?_⟩
        intro p hp
        rcases mem_append.mp hp with hold | hnew
        · exact h.flight p hold
        · rcases mem_flatMap.mp hnew with ⟨y, hy, hsent⟩
          rcases mem_map.mp hsent with ⟨message, hmessage, rfl⟩
          have hadj : m.graph.Adj x y := by
            constructor
            · intro hxy
              rw [<- hxy] at hy
              exact hself x hy
            · exact Or.inl hy
          rcases hdigests message hmessage with ⟨entries, rfl⟩
          exact ⟨.digest entries, rfl, Sound.digest hadj entries⟩
    | submit addr x signed =>
        cases hstep
        refine ⟨h.nodes, ?_⟩
        intro p hp
        rcases mem_append.mp hp with hold | hnew
        · exact h.flight p hold
        · rw [mem_singleton.mp hnew]
          exact ⟨.announce signed, rfl, Sound.announce (hquiet addr x signed rfl)⟩
    | deliver place =>
        unfold act at hstep
        simp only [] at hstep
        split at hstep
        · cases hstep
        · rename_i p hplace
          split at hstep
          · cases hstep
          · rename_i hintime
            cases hstep
            rcases h.flight p (mem_of_getElem? hplace) with ⟨message, hdatagram, hsound⟩
            have hhandled : m.AllSourced key last p.to_
                  (m.handleGossip (net.nodes p.to_) (m.addrOf p.source) now p.datagram).fst.state ∧
                forall p', p' ∈ m.replies p.source p.to_ now
                    (m.handleGossip (net.nodes p.to_) (m.addrOf p.source) now p.datagram).snd ->
                  m.SoundPacket key last p' := by
              unfold handleGossip
              split
              · refine ⟨h.nodes p.to_, ?_⟩
                intro p' hp'
                unfold replies at hp'
                split at hp'
                all_goals cases hp'
              · rw [hdatagram, GossipMessage.decode_encode]
                exact handle_sound (h.nodes p.to_) hsound (Nat.le_of_not_lt hintime)
            refine ⟨sourced_update h hhandled.left, ?_⟩
            intro p' hp'
            rcases mem_append.mp hp' with hold | hnew
            · exact h.flight p' (mem_of_mem_eraseIdx hold)
            · exact hhandled.right p' hnew
    | lose place =>
        cases hstep
        exact ⟨h.nodes, fun p hp => h.flight p (mem_of_mem_eraseIdx hp)⟩

end Mesh

/-!
# Dead servers are forgotten

Once a server submits nothing any more, its entry dies out: in a mesh without cycles no
later than one lifetime and one delivery for each tracker.  In a ring of three or more it
can go round for ever, since a tracker only keeps from sending an entry straight back.
-/

namespace Mesh

variable {tracker : Type} [DecidableEq tracker] {m : Mesh tracker} {key : PublicKey}
  {last : Nat}

theorem traced_run (hself : forall x, x ∉ m.peers x) {net net' : Net tracker}
    {events : List (Event tracker)} (h : m.Traced key last net)
    (hquiet : forall e, e ∈ events -> Quiet key last e)
    (hrun : run? m.step? net events = some net') : m.Traced key last net' := by
  induction events generalizing net with
  | nil =>
      cases hrun
      exact h
  | cons e rest ih =>
      rcases run?_cons_some hrun with ⟨next, hstep, hrest⟩
      apply ih (traced_step hself h (hquiet e mem_cons_self) hstep) _ hrest
      exact fun e' he' => hquiet e' (mem_cons_of_mem e he')

/-- Where the trackers that talk to each other form no cycle, no tracker serves a server's
entry when as many lifetimes and deliveries have gone by as there are trackers. -/
theorem dead_servers_are_forgotten [Fintype tracker] (hforest : m.graph.IsAcyclic)
    (hself : forall x, x ∉ m.peers x) {events : List (Event tracker)} {net : Net tracker}
    (hrun : run? m.step? Mesh.start events = some net)
    (hquiet : forall e, e ∈ events -> Quiet key last e) {now : Nat}
    (hlate : last + Fintype.card tracker * (m.registry.ttl + m.delay) < now) (x : tracker)
    (entry : ServerEntry) (hserved : entry ∈ (m.registry.snapshotAt (net.nodes x).state now).snd) :
    entry.serverKey ≠ some key := by
  intro hkey
  have htraced := traced_run hself traced_start hquiet hrun
  rcases (m.registry.mem_snapshot).mp hserved with ⟨slot, hget, hlive⟩
  rcases htraced.nodes x slot entry hget hkey with ⟨hops, hroute, hheard⟩
  have hfresh := State.isLive_iff.mp hlive
  have hhops := hroute.hops_lt m hforest
  have hrounds : (hops + 1) * (m.registry.ttl + m.delay) <=
      Fintype.card tracker * (m.registry.ttl + m.delay) :=
    Nat.mul_le_mul_right _ hhops
  rw [Nat.succ_mul] at hrounds
  unfold horizon at hheard
  omega

/-!
## A line and a ring
-/

/-- Three trackers, each listing the one before it, and the first none. -/
def line : Mesh (Fin 3) where
  registry := Registry.sampled
  addr := fun x => ⟨.v4 (BitVec.ofNat 32 (0x0a000001 + x.val)), 4656⟩
  peers := fun x => if x.val = 0 then [] else [x - 1]
  delay := seconds 1

/-- The same, but the first lists the last. -/
def ring : Mesh (Fin 3) :=
  { line with peers := fun x => [x - 1] }

/-- A tracker asks the one before it, and gets the descriptor pushed. -/
def passOn (now : Nat) (x : Fin 3) : List (Event (Fin 3)) :=
  [⟨now, .tick x⟩, ⟨now, .deliver 0⟩, ⟨now, .deliver 0⟩]

/-- The server announces itself once.  Each tracker gets the entry when it is about to
expire at the one before it. -/
def lap : List (Event (Fin 3)) :=
  [⟨0, .submit ⟨.v4 0xcb007107, 5500⟩ 0 (Registry.wonderland 1 100)⟩, ⟨0, .deliver 0⟩]
    ++ passOn (seconds 350) 1 ++ passOn (seconds 700) 2 ++ passOn (seconds 1050) 0

theorem quiet_lap : forall e, e ∈ lap -> Quiet 1 0 e := by
  intro e he addr x signed hop _
  have hall : lap.all (fun e =>
      match e.action with
      | .submit _ _ _ => decide (e.now = 0)
      | _ => true) = true := rfl
  have hfirst := all_eq_true.mp hall e he
  rw [hop] at hfirst
  exact Nat.le_of_eq (of_decide_eq_true hfirst)

theorem isAcyclic_line : line.graph.IsAcyclic := by
  have hstar : line.graph <= SimpleGraph.starGraph 1 := by
    intro x y hadj
    rw [SimpleGraph.starGraph_adj]
    revert hadj
    unfold graph line
    revert x y
    decide
  exact (SimpleGraph.isAcyclic_starGraph 1).anti hstar

set_option maxRecDepth 8000 in
/-- In the line the entry stops at the end. -/
theorem dead_servers_are_forgotten_line :
    exists net, run? line.step? Mesh.start (lap.take 8) = some net ∧
      forall x entry,
        entry ∈ (line.registry.snapshotAt (net.nodes x).state (seconds 1084)).snd ->
          entry.serverKey ≠ some 1 := by
  cases hrun : run? line.step? Mesh.start (lap.take 8) with
  | none =>
      have hruns : (run? line.step? Mesh.start (lap.take 8)).isSome = true := by decide
      rw [hrun] at hruns
      cases hruns
  | some net =>
      refine ⟨net, rfl, ?_⟩
      exact fun x => dead_servers_are_forgotten isAcyclic_line (by decide) hrun
        (fun e he => quiet_lap e (mem_of_mem_take he)) (by decide) x

set_option maxRecDepth 8000 in
/-- In the ring the first tracker still serves the entry later than the bound. -/
theorem ring_serves_a_dead_server :
    ¬ forall (tracker : Type) [Fintype tracker] [DecidableEq tracker] (m : Mesh tracker)
        (events : List (Event tracker)) (net : Net tracker) (key : PublicKey) (last now : Nat)
        (x : tracker) (entry : ServerEntry),
      run? m.step? Mesh.start events = some net ->
      (forall e, e ∈ events -> Quiet key last e) ->
      last + Fintype.card tracker * (m.registry.ttl + m.delay) < now ->
      entry ∈ (m.registry.snapshotAt (net.nodes x).state now).snd ->
        entry.serverKey ≠ some key := by
  intro hclaim
  have hserves : (run? ring.step? Mesh.start lap).map (fun net =>
      (ring.registry.snapshotAt (net.nodes 0).state (seconds 1100)).snd.any (fun entry =>
        decide (entry.serverKey = some 1))) = some true := by
    decide
  rcases Option.map_eq_some_iff.mp hserves with ⟨net, hrun, hany⟩
  rcases any_eq_true.mp hany with ⟨entry, hentry, hkey⟩
  exact hclaim (Fin 3) ring lap net 1 0 (seconds 1100) 0 entry hrun quiet_lap
    (by decide) hentry (of_decide_eq_true hkey)

end Mesh

end Rabbithole.Tracker
