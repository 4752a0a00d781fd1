import Mathlib
import Rabbithole.Foundation.Run

/-!
# The seen set

Message identities, each with the time and the generation of its insertion, and a ring of the
insertions in their order.  The ring is cut by age and by length; an insertion that is rolled
back leaves its ring entry behind.
-/

namespace Rabbithole.Dedup

/-- A message identity, by the network it came from. -/
inductive SeenKey where
  | event (id : BitVec 256)
  | ftn (msgid : String)
  | messageId (id : String)
  | qwk (conference : BitVec 16) (number : BitVec 32)
  | qwkReply (digest : BitVec 256)
  | syndication (id : String)
deriving DecidableEq

/-- One insertion, as the ring keeps it. -/
structure Entry where
  seenAtMs : Int
  key : SeenKey
  generation : Nat
deriving DecidableEq

abbrev Seen := SeenKey -> Option (Int × Nat)

structure Inner where
  seen : Seen
  /-- The ring, oldest insertion first. -/
  order : List Entry
  windowMs : Int
  capacity : Nat
  nextGeneration : Nat

/-- Subtraction of `i64`, which wraps. -/
def i64Sub (a b : Int) : Int :=
  (a - b).bmod (2 ^ 64)

def u64Max : Nat := 2 ^ 64 - 1

/-- Remove a key, if it is there in this generation. -/
def Seen.forget (seen : Seen) (key : SeenKey) (generation : Nat) : Seen :=
  match seen key with
  | some (_, current) =>
      if current = generation then Function.update seen key none else seen
  | none => seen

/-- Pop ring entries for as long as the first one is due, given what is behind it. -/
def drain (due : Entry -> List Entry -> Bool) (seen : Seen) : List Entry -> Seen × List Entry
  | [] => (seen, [])
  | first :: rest =>
      if due first rest then drain due (seen.forget first.key first.generation) rest
      else (seen, first :: rest)

namespace Inner

def new (windowMs : Int) (capacity : Nat) : Inner where
  seen := fun _ => none
  order := []
  windowMs := windowMs
  capacity := capacity
  nextGeneration := 0

/-- Pop what is older than the window. -/
def evict (s : Inner) (nowMs : Int) : Inner :=
  let cutoff := i64Sub nowMs s.windowMs
  let (seen, order) := drain (fun first _ => decide (first.seenAtMs < cutoff)) s.seen s.order
  { s with seen := seen, order := order }

/-- Pop what is over the capacity. -/
def backstop (s : Inner) : Inner :=
  let (seen, order) :=
    drain (fun _ rest => decide (s.capacity < rest.length + 1)) s.seen s.order
  { s with seen := seen, order := order }

/-- Insert a key in a new generation. -/
def push (s : Inner) (key : SeenKey) (nowMs : Int) (generation : Nat) : Inner :=
  { s with
    nextGeneration := generation
    seen := Function.update s.seen key (some (nowMs, generation))
    order := s.order ++ [{ seenAtMs := nowMs, key := key, generation := generation }] }

def record (s : Inner) (key : SeenKey) (nowMs : Int) : Option Nat × Inner :=
  let s := s.evict nowMs
  if (s.seen key).isSome then (none, s)
  else if u64Max <= s.nextGeneration then (none, s)
  else
    let generation := s.nextGeneration + 1
    (some generation, (s.push key nowMs generation).backstop)

end Inner

structure SeenReservation where
  key : SeenKey
  generation : Nat
deriving DecidableEq

/-!
## Callers

The store, and the reservations that callers hold.  Every call takes the lock once, so
the calls of all callers are in one order.  A reservation ends once, by a commit or by
a drop.
-/

structure World where
  inner : Inner
  held : List SeenReservation

def World.new (windowMs : Int) (capacity : Nat) : World where
  inner := Inner.new windowMs capacity
  held := []

inductive Op where
  | checkAndRecord (key : SeenKey) (nowMs : Int)
  | reserve (key : SeenKey) (nowMs : Int)
  | commit (reservation : SeenReservation)
  | drop (reservation : SeenReservation)
deriving DecidableEq

namespace World

def checkAndRecord (w : World) (key : SeenKey) (nowMs : Int) : World :=
  { w with inner := (w.inner.record key nowMs).snd }

def reserve (w : World) (key : SeenKey) (nowMs : Int) : World :=
  match w.inner.record key nowMs with
  | (none, inner) => { w with inner := inner }
  | (some generation, inner) =>
      { inner := inner, held := ⟨key, generation⟩ :: w.held }

def commit (w : World) (reservation : SeenReservation) : World :=
  { w with held := w.held.erase reservation }

def drop (w : World) (reservation : SeenReservation) : World where
  inner :=
    { w.inner with
      seen := w.inner.seen.forget reservation.key reservation.generation }
  held := w.held.erase reservation

end World

def step (w : World) : Op -> Option World
  | .checkAndRecord key nowMs => some (w.checkAndRecord key nowMs)
  | .reserve key nowMs => some (w.reserve key nowMs)
  | .commit reservation =>
      if reservation ∈ w.held then some (w.commit reservation) else none
  | .drop reservation =>
      if reservation ∈ w.held then some (w.drop reservation) else none

/-- The key that a call asks for, and its reading of the clock. -/
def Op.asks : Op -> Option (SeenKey × Int)
  | .checkAndRecord key nowMs => some (key, nowMs)
  | .reserve key nowMs => some (key, nowMs)
  | _ => none

/-- The generation under which a call claims the key it asks for, if it does. -/
def Op.claims (w : World) (op : Op) : Option Entry :=
  match op.asks with
  | none => none
  | some (key, nowMs) =>
      (w.inner.record key nowMs).fst.map (fun generation => ⟨nowMs, key, generation⟩)

def readings (ops : List Op) : List Int :=
  ops.filterMap (fun op => op.asks.map Prod.snd)

end Rabbithole.Dedup
