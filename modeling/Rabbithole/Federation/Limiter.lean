import Rabbithole.Foundation.Credit
import Rabbithole.Foundation.Dict
import Rabbithole.Federation.Postcard

/-!
# The ingest limiter

A token bucket a peer, in a table with room for so many.  A peer that finds the table full has
the buckets that are full again dropped, and is refused when that makes no room.  Token
arithmetic is in exact rationals.
-/

namespace Rabbithole.Federation

open Foundation

def i64Max : Int := 2 ^ 63 - 1

def usizeMax : Nat := 2 ^ 64 - 1

def saturatingSub (a b : Int) : Int :=
  max (-(2 ^ 63)) (min (a - b) i64Max)

structure Bucket where
  tokens : Rat
  lastMs : Int
deriving DecidableEq

/-- A backward clock adds nothing, and is not counted again later. -/
def Bucket.refill (b : Bucket) (capacity rate : Rat) (nowMs : Int) : Bucket :=
  let elapsed : Rat := ((max (saturatingSub nowMs b.lastMs) 0 : Int) : Rat)
  ⟨min (b.tokens + elapsed * rate) capacity, max b.lastMs nowMs⟩

def finiteRate (rate : Rat) : Rat := max rate 0

structure RateLimiter where
  capacity : Rat
  refillPerMs : Rat
  buckets : Dict PublicKey Bucket
  maxPeers : Nat

namespace RateLimiter

def new (capacity : Nat) (refillPerSec : Rat) : RateLimiter where
  capacity := (max capacity 1 : Nat)
  refillPerMs := finiteRate refillPerSec / 1000
  buckets := Dict.empty
  maxPeers := usizeMax

def bounded (capacity : Nat) (refillPerSec : Rat) (maxPeers : Nat) : RateLimiter :=
  { new capacity refillPerSec with
    capacity := capacity
    maxPeers := maxPeers }

/-- Refill every bucket, and drop those that are full. -/
def evictFull (s : RateLimiter) (nowMs : Int) : RateLimiter :=
  { s with
    buckets := s.buckets.filterMap (fun _ b =>
      let b := b.refill s.capacity s.refillPerMs nowMs
      if b.tokens < s.capacity then some b else none) }

/-- The peer's bucket as it is at a time; full when there is none. -/
def current (s : RateLimiter) (peer : PublicKey) (nowMs : Int) : Bucket :=
  ((s.buckets.get? peer).getD ⟨s.capacity, nowMs⟩).refill s.capacity s.refillPerMs nowMs

def put (s : RateLimiter) (peer : PublicKey) (b : Bucket) : RateLimiter :=
  { s with buckets := s.buckets.insert peer b }

/-- Spend from the peer's bucket, all of the cost or nothing. -/
def spend (s : RateLimiter) (peer : PublicKey) (cost : Nat) (nowMs : Int) : Bool × RateLimiter :=
  let b := s.current peer nowMs
  if (cost : Rat) <= b.tokens then (true, s.put peer { b with tokens := b.tokens - cost })
  else (false, s.put peer b)

def tryAcquireMany (s : RateLimiter) (peer : PublicKey) (cost : Nat) (nowMs : Int) :
    Bool × RateLimiter :=
  if cost = 0 then (true, s)
  else if s.capacity < cost then (false, s)
  else if s.buckets.contains peer = false ∧ s.maxPeers <= s.buckets.size then
    let s := s.evictFull nowMs
    if s.maxPeers <= s.buckets.size then (false, s) else s.spend peer cost nowMs
  else s.spend peer cost nowMs

end RateLimiter

/-!
## Runs
-/

structure Call where
  peer : PublicKey
  cost : Nat
  nowMs : Int
deriving DecidableEq

namespace RateLimiter

def call (s : RateLimiter) (c : Call) : Bool × RateLimiter :=
  s.tryAcquireMany c.peer c.cost c.nowMs

def after (s : RateLimiter) (calls : List Call) : RateLimiter :=
  calls.foldl (fun s c => (s.call c).snd) s

/-- The cost of the calls of a kind that are admitted. -/
def admitted (kind : Call -> Bool) : RateLimiter -> List Call -> Nat
  | _, [] => 0
  | s, c :: rest =>
      (if (s.call c).fst && kind c then c.cost else 0) + admitted kind (s.call c).snd rest

/-- The call is refused because the table is full, and would stay so. -/
def lacksRoom (s : RateLimiter) (c : Call) : Bool :=
  decide (c.cost ≠ 0) && decide ((c.cost : Rat) <= s.capacity) &&
    !s.buckets.contains c.peer && decide (s.maxPeers <= s.buckets.size) &&
    decide (s.maxPeers <= (s.evictFull c.nowMs).buckets.size)

/-- The calls that are not. -/
def served : RateLimiter -> List Call -> List Call
  | _, [] => []
  | s, c :: rest =>
      if s.lacksRoom c then served (s.call c).snd rest else c :: served (s.call c).snd rest

end RateLimiter

/-- No call is made before an earlier one. -/
def InOrder (calls : List Call) : Prop :=
  calls.Pairwise (fun a b => a.nowMs <= b.nowMs)

end Rabbithole.Federation
