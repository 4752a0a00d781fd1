import Rabbithole.Foundation.Listing
import Rabbithole.Foundation.Run

/-!
# Whose turn it is

All links to one peer share its history passes.  The peer's entry holds when the last pass
began and whose it was, and stays until the longest interval is over.  Instants are in
nanoseconds.
-/

namespace Rabbithole.Federation
namespace History

open Foundation

def peerLimit : Nat := 4096

def linkLimit : Nat := 8

def seconds (n : Nat) : Nat :=
  n * 10 ^ 9

structure Link (cursor : Type) where
  active : Bool
  busy : Bool
  cursor : Option cursor

namespace Link

def new {cursor : Type} : Link cursor where
  active := false
  busy := false
  cursor := none

end Link

structure Peer (cursor : Type) where
  lastPass : Option Nat
  lastLink : Nat
  links : Dict Nat (Link cursor)

namespace Peer

def new {cursor : Type} : Peer cursor where
  lastPass := none
  lastLink := 0
  links := Dict.empty

def ring {cursor : Type} (peer : Peer cursor) : List Nat :=
  (listBy Prod.fst (peer.links.entries.filter (fun entry => entry.snd.active))).map Prod.fst

/-- The next active link behind the last one, and from the start again after it. -/
def turn {cursor : Type} (peer : Peer cursor) : Option Nat :=
  ((peer.ring.find? (fun id => peer.lastLink < id))).or peer.ring.head?

end Peer

structure State (key cursor : Type) where
  nextLink : Nat
  peers : Dict key (Peer cursor)

variable {key cursor : Type} [DecidableEq key]

/-- The interval that is configured: a minute by default, or five seconds to an hour. -/
def interval (cadenceSecs : Nat) : Nat :=
  seconds (if cadenceSecs = 0 then 60 else max 5 (min cadenceSecs 3600))

namespace State

def new : State key cursor where
  nextLink := 0
  peers := Dict.empty

def link? (s : State key cursor) (peer : key) (link : Nat) : Option (Link cursor) :=
  (s.peers.get? peer).bind (fun entry => entry.links.get? link)

def lastPass? (s : State key cursor) (peer : key) : Option Nat :=
  (s.peers.get? peer).bind Peer.lastPass

/-- Keep peers with links, and those whose cooldown may not be over. -/
def pruned (s : State key cursor) (now : Nat) : State key cursor :=
  { s with
    peers := s.peers.retain (fun _ entry =>
      !entry.links.isEmpty || entry.lastPass.any (fun last => decide (now - last < seconds 3600))) }

def change (s : State key cursor) (peer : key) (f : Peer cursor -> Peer cursor) :
    State key cursor :=
  { s with peers := s.peers.modify peer f }

def changeLink (s : State key cursor) (peer : key) (link : Nat)
    (f : Link cursor -> Link cursor) : State key cursor :=
  s.change peer (fun entry => { entry with links := entry.links.modify link f })

/-- The number of the new link, if there is room for it. -/
def register (s : State key cursor) (peer : key) (now : Nat) : Option Nat × State key cursor :=
  let s := s.pruned now
  if s.peers.contains peer = false ∧ peerLimit <= s.peers.size then (none, s)
  else if 2 ^ 64 <= s.nextLink + 1 then (none, s)
  else
    let id := s.nextLink + 1
    let entry := (s.peers.get? peer).getD Peer.new
    if linkLimit <= entry.links.size then
      (none, { nextLink := id, peers := s.peers.insert peer entry })
    else
      (some id,
        { nextLink := id
          peers := s.peers.insert peer { entry with links := entry.links.insert id Link.new } })

def active (s : State key cursor) (peer : key) (link : Nat) (active : Bool) : State key cursor :=
  s.changeLink peer link (fun l => { l with active := active })

/-- Whether a link may begin a pass now, and its cursor. -/
def mayBegin (s : State key cursor) (peer : key) (link now cadenceSecs : Nat) :
    Option (Option cursor) :=
  (s.peers.get? peer).bind (fun entry =>
    if entry.lastPass.any (fun last => decide (now - last < interval cadenceSecs)) ∨
        entry.links.entries.any (fun l => l.snd.busy) = true then none
    else if entry.turn ≠ some link then none
    else (entry.links.get? link).map Link.cursor)

/-- The cursor to go on from, if it is the link's turn; it is busy then. -/
def begin (s : State key cursor) (peer : key) (link now cadenceSecs : Nat) :
    Option (Option cursor) × State key cursor :=
  match s.mayBegin peer link now cadenceSecs with
  | none => (none, s)
  | some found =>
      (some found,
        s.change peer (fun entry =>
          { lastPass := some now
            lastLink := link
            links := entry.links.modify link (fun l => { l with busy := true }) }))

def dropRegistration (s : State key cursor) (peer : key) (link : Nat) : State key cursor :=
  s.change peer (fun entry => { entry with links := entry.links.erase link })

def dropPass (s : State key cursor) (peer : key) (link : Nat) : State key cursor :=
  s.changeLink peer link (fun l => { l with busy := false })

/-- The pass is over: the cursor is kept, and the pass dropped. -/
def finish (s : State key cursor) (peer : key) (link : Nat) (next : Option cursor) :
    State key cursor :=
  (s.changeLink peer link (fun l => { l with cursor := next })).dropPass peer link

end State

/-!
## The links at work
-/

/-- A registration or a pass is of a peer and a link. -/
structure Handle (key : Type) where
  peer : key
  link : Nat
deriving DecidableEq

structure Begun (key : Type) where
  peer : key
  link : Nat
  instant : Nat
deriving DecidableEq

/-- The table, who holds what of it, and which passes have begun so far. -/
structure World (key cursor : Type) where
  state : State key cursor
  registrations : List (Handle key)
  passes : List (Handle key)
  begun : List (Begun key)
  clock : Nat

inductive Action (key cursor : Type) where
  | register (peer : key) (now : Nat)
  | active (registration : Handle key) (active : Bool)
  | begin (registration : Handle key) (now : Nat)
  | finish (pass : Handle key) (next : Option cursor)
  | dropPass (pass : Handle key)
  | dropRegistration (registration : Handle key)

namespace World

def new : World key cursor where
  state := State.new
  registrations := []
  passes := []
  begun := []
  clock := 0

/-- Instants do not decrease; only what is held is used, and a registration is not
dropped while it has a pass. -/
def step (cadenceSecs : Nat) (w : World key cursor) : Action key cursor -> Option (World key cursor)
  | .register peer now =>
      if now < w.clock then none
      else
        let result := w.state.register peer now
        some { w with
          state := result.snd
          registrations :=
            match result.fst with
            | none => w.registrations
            | some link => ⟨peer, link⟩ :: w.registrations
          clock := now }
  | .active r active =>
      if r ∈ w.registrations then some { w with state := w.state.active r.peer r.link active }
      else none
  | .begin r now =>
      if r ∈ w.registrations ∧ w.clock <= now then
        let result := w.state.begin r.peer r.link now cadenceSecs
        match result.fst with
        | none => some { w with clock := now }
        | some _ =>
            some { w with
              state := result.snd
              passes := r :: w.passes
              begun := w.begun ++ [⟨r.peer, r.link, now⟩]
              clock := now }
      else none
  | .finish p next =>
      if p ∈ w.passes then
        some { w with
          state := w.state.finish p.peer p.link next
          passes := w.passes.erase p }
      else none
  | .dropPass p =>
      if p ∈ w.passes then
        some { w with
          state := w.state.dropPass p.peer p.link
          passes := w.passes.erase p }
      else none
  | .dropRegistration r =>
      if r ∈ w.registrations ∧ r ∉ w.passes then
        some { w with
          state := w.state.dropRegistration r.peer r.link
          registrations := w.registrations.erase r }
      else none

/-- Whether a link is registered and active. -/
def isActive (w : World key cursor) (peer : key) (link : Nat) : Prop :=
  exists l, w.state.link? peer link = some l ∧ l.active = true

end World

end History
end Rabbithole.Federation
