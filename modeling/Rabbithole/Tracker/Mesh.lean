import Mathlib.Combinatorics.SimpleGraph.Acyclic
import Rabbithole.Tracker.Gossip
import Rabbithole.Tracker.Policy

/-!
# The tracker mesh

Trackers with fixed lists of peers, and the datagrams on their way.  On its timer a
tracker sends a digest page to each peer; an answer goes to whoever sent the question.
A datagram is lost, or delivered within a bounded time.
-/

namespace Rabbithole.Tracker

open Foundation Federation Directory

def maxGossipRead : Nat := 4096

def maxGossipPeerCursors : Nat := 256

structure Node where
  state : State
  digestCursor : GossipCursor
  pushCursors : List (SocketAddr × GossipCursor)

namespace Node

def start : Node where
  state := State.empty
  digestCursor := GossipCursor.default
  pushCursors := []

/-- A peer's bookmark, and those of the others, the oldest of them dropped at the limit. -/
def forPeer (cursors : List (SocketAddr × GossipCursor)) (peer : SocketAddr) :
    GossipCursor × List (SocketAddr × GossipCursor) :=
  let cursor := (cursors.find? (fun held => decide (held.fst = peer))).map Prod.snd
  let others := cursors.eraseP (fun held => decide (held.fst = peer))
  (cursor.getD GossipCursor.default,
    if others.length = maxGossipPeerCursors then others.tail else others)

end Node

/-- Who sent a datagram: a tracker, or a server from its own address. -/
inductive Source (tracker : Type) where
  | tracker (x : tracker)
  | server (addr : SocketAddr)
deriving DecidableEq

structure Packet (tracker : Type) where
  source : Source tracker
  to_ : tracker
  sentAt : Nat
  datagram : Bytes

/-- The trackers with their addresses and peers; the longest that a datagram travels. -/
structure Mesh (tracker : Type) where
  registry : Registry
  addr : tracker -> SocketAddr
  peers : tracker -> List tracker
  delay : Nat

structure Net (tracker : Type) where
  now : Nat
  nodes : tracker -> Node
  flight : List (Packet tracker)

inductive Action (tracker : Type) where
  | tick (x : tracker)
  | submit (addr : SocketAddr) (x : tracker) (signed : SignedDescriptor)
  | deliver (place : Nat)
  | lose (place : Nat)

structure Event (tracker : Type) where
  now : Nat
  action : Action tracker

namespace Mesh

variable {tracker : Type} (m : Mesh tracker)

def start : Net tracker where
  now := 0
  nodes := fun _ => Node.start
  flight := []

def addrOf (source : Source tracker) : SocketAddr :=
  match source with
  | .tracker x => m.addr x
  | .server addr => addr

/-- A batch is registered descriptor by descriptor; what is refused is only logged. -/
def learn (s : State) (descriptors : List SignedDescriptor) (peer : SocketAddr) (now : Nat) :
    State :=
  descriptors.foldl (fun s signed =>
    (m.registry.registerDescriptorAt s signed (some peer) now).fst) s

/-- One inbound message: what becomes of the tracker, and what it answers. -/
def handleMessage (node : Node) (peer : SocketAddr) (now : Nat) (message : GossipMessage) :
    Node × List GossipMessage :=
  match message with
  | .digest theirs =>
      let (state, snapshot) := m.registry.snapshotAt node.state now
      let want := wantFrom snapshot theirs
      let (cursor, others) := Node.forPeer node.pushCursors peer
      let (batch, cursor) :=
        cursor.pushBatch m.registry.format snapshot theirs peer maxGossipDatagram
      ({ node with state := state, pushCursors := others ++ [(peer, cursor)] },
        (if want.isEmpty then [] else [.want want])
          ++ (if batch.isEmpty then [] else [.batch batch]))
  | .want want =>
      let (state, snapshot) := m.registry.snapshotAt node.state now
      let batch := batchFor m.registry.format snapshot want peer maxGossipDatagram
      ({ node with state := state }, if batch.isEmpty then [] else [.batch batch])
  | .batch descriptors => ({ node with state := m.learn node.state descriptors peer now }, [])
  | .announce signed =>
      ({ node with state := (m.registry.registerDescriptorAt node.state signed none now).fst },
        [])

/-- What does not fit the read buffer comes cut off, and is malformed as is all else that
does not decode. -/
def handleGossip (node : Node) (peer : SocketAddr) (now : Nat) (datagram : Bytes) :
    Node × List GossipMessage :=
  if maxGossipRead < datagram.length then (node, [])
  else
    match GossipMessage.decode m.registry.format datagram with
    | .error _ => (node, [])
    | .ok message => m.handleMessage node peer now message

/-- The next digest page; a tracker without peers does not even look. -/
def tick (node : Node) (hasPeers : Bool) (now : Nat) : Node × List GossipMessage :=
  if hasPeers then
    let (state, snapshot) := m.registry.snapshotAt node.state now
    let (digest, cursor) := node.digestCursor.digest m.registry.format snapshot
    ({ node with state := state, digestCursor := cursor }, [.digest digest])
  else (node, [])

def packet (source : Source tracker) (now : Nat) (x : tracker) (message : GossipMessage) :
    Packet tracker where
  source := source
  to_ := x
  sentAt := now
  datagram := GossipMessage.encode m.registry.format message

/-- The answers go to who sent the datagram; what goes to a server leaves the mesh. -/
def replies (source : Source tracker) (x : tracker) (now : Nat)
    (messages : List GossipMessage) : List (Packet tracker) :=
  match source with
  | .tracker y => messages.map (m.packet (.tracker x) now y)
  | .server _ => []

variable [DecidableEq tracker]

def act (net : Net tracker) (now : Nat) (action : Action tracker) : Option (Net tracker) :=
  match action with
  | .tick x =>
      let (node, messages) := m.tick (net.nodes x) (!(m.peers x).isEmpty) now
      some
        { now := now
          nodes := Function.update net.nodes x node
          flight := net.flight
            ++ (m.peers x).flatMap (fun y => messages.map (m.packet (.tracker x) now y)) }
  | .submit addr x signed =>
      some
        { net with
          now := now
          flight := net.flight ++ [m.packet (.server addr) now x (.announce signed)] }
  | .deliver place =>
      match net.flight[place]? with
      | none => none
      | some p =>
          if p.sentAt + m.delay < now then none
          else
            let (node, messages) :=
              m.handleGossip (net.nodes p.to_) (m.addrOf p.source) now p.datagram
            some
              { now := now
                nodes := Function.update net.nodes p.to_ node
                flight := net.flight.eraseIdx place ++ m.replies p.source p.to_ now messages }
  | .lose place => some { net with now := now, flight := net.flight.eraseIdx place }

/-- The clock does not go back. -/
def step? (net : Net tracker) (e : Event tracker) : Option (Net tracker) :=
  if e.now < net.now then none else m.act net e.now e.action

/-- Two trackers talk when either lists the other. -/
def graph : SimpleGraph tracker where
  Adj x y := x ≠ y ∧ (y ∈ m.peers x ∨ x ∈ m.peers y)
  symm := ⟨fun _ _ h => ⟨h.left.symm, h.right.symm⟩⟩
  loopless := ⟨fun _ h => h.left rfl⟩

end Mesh

end Rabbithole.Tracker
