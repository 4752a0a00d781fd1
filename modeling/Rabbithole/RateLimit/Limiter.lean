import Mathlib.Data.Rat.Floor
import Rabbithole.Foundation.Run

/-!
# The rate limiter

One table of token buckets behind one lock, by key: a client address or an account, in one
class of requests.  Every call brings a reading of the clock, taken before the lock.  Token
arithmetic is in exact rationals.
-/

namespace Rabbithole.RateLimit

/-- Refusals are flagged for audit at most this often per key. -/
def noteIntervalMs : Nat := 60000

def sweepEvery : Nat := 1024

def u64Max : Nat := 2 ^ 64 - 1

inductive IpAddr where
  | v4 (bits : BitVec 32)
  | v6 (bits : BitVec 128)
deriving DecidableEq

inductive Scope where
  | ip (addr : IpAddr)
  | account (id : Int)
deriving DecidableEq

structure LimitKey where
  scope : Scope
  class_ : String
deriving DecidableEq

structure Policy where
  /-- Bucket size; 0 refuses everything. -/
  capacity : Nat
  refillPerSec : Rat
deriving DecidableEq

inductive Decision where
  | allowed
  | limited (retryAfterMs : Nat) (audit : Bool)
deriving DecidableEq

structure Bucket where
  tokens : Rat
  /-- The policy last applied. -/
  capacity : Rat
  refillPerSec : Rat
  updatedMs : Nat
  notedMs : Option Nat
deriving DecidableEq

namespace Bucket

def fresh (policy : Policy) (nowMs : Nat) : Bucket where
  tokens := policy.capacity
  capacity := policy.capacity
  refillPerSec := policy.refillPerSec
  updatedMs := nowMs
  notedMs := none

/-- Advance the bucket to a reading, under a policy. -/
def refill (b : Bucket) (policy : Policy) (nowMs : Nat) : Bucket :=
  let cap : Rat := policy.capacity
  let dt := nowMs - b.updatedMs
  let tokens :=
    if 0 < policy.refillPerSec ∧ 0 < dt then
      b.tokens + ((dt : Rat) / 1000) * policy.refillPerSec
    else
      b.tokens
  { b with
    tokens := max (min tokens cap) 0
    capacity := cap
    refillPerSec := policy.refillPerSec
    updatedMs := nowMs }

def noteStale (b : Bucket) (nowMs : Nat) : Bool :=
  match b.notedMs with
  | none => true
  | some t => decide (noteIntervalMs <= nowMs - t)

/-- Flag a refusal for audit, at most once an interval. -/
def note (b : Bucket) (nowMs : Nat) : Bool × Bucket :=
  if b.noteStale nowMs then (true, { b with notedMs := some nowMs }) else (false, b)

/-- Nothing worth keeping: full again, and its audit note is stale. -/
def expired (b : Bucket) (nowMs : Nat) : Bool :=
  let dt : Rat := ((nowMs - b.updatedMs : Nat) : Rat) / 1000
  decide (b.capacity <= b.tokens + dt * b.refillPerSec) && b.noteStale nowMs

end Bucket

/-- What the lock guards. -/
structure RateLimiter where
  policies : String -> Option Policy
  buckets : LimitKey -> Option Bucket
  checks : Nat

namespace RateLimiter

def new : RateLimiter where
  policies := fun _ => none
  buckets := fun _ => none
  checks := 0

def setPolicy (s : RateLimiter) (class_ : String) (policy : Policy) : RateLimiter :=
  { s with policies := Function.update s.policies class_ (some policy) }

def put (s : RateLimiter) (key : LimitKey) (b : Bucket) : RateLimiter :=
  { s with buckets := Function.update s.buckets key (some b) }

def sweep (s : RateLimiter) (nowMs : Nat) : RateLimiter :=
  { s with buckets := fun key => (s.buckets key).filter (fun b => !b.expired nowMs) }

def tick (s : RateLimiter) (nowMs : Nat) : RateLimiter :=
  let s := { s with checks := (s.checks + 1) % 2 ^ 64 }
  if s.checks % sweepEvery = 0 then s.sweep nowMs else s

/-- The milliseconds until one token is there. -/
def retryAfter (policy : Policy) (tokens : Rat) : Nat :=
  if 0 < policy.refillPerSec then
    min (Int.toNat ⌈(1 - tokens) * 1000 / policy.refillPerSec⌉) u64Max
  else
    u64Max

def current (s : RateLimiter) (key : LimitKey) (policy : Policy) (nowMs : Nat) : Bucket :=
  ((s.buckets key).getD (Bucket.fresh policy nowMs)).refill policy nowMs

protected def decide (s : RateLimiter) (key : LimitKey) (policy : Policy) (nowMs : Nat)
    (consume : Bool) : Decision × RateLimiter :=
  let s := s.tick nowMs
  if policy.capacity = 0 then
    let (audit, b) := (s.current key policy nowMs).note nowMs
    (.limited u64Max audit, s.put key b)
  else if consume = false ∧ s.buckets key = none then (.allowed, s)
  else
    let b := s.current key policy nowMs
    if 1 <= b.tokens then
      (.allowed, s.put key (if consume then { b with tokens := b.tokens - 1 } else b))
    else
      let (audit, b') := b.note nowMs
      (.limited (retryAfter policy b.tokens) audit, s.put key b')

def checkWith (s : RateLimiter) (key : LimitKey) (policy : Policy) (nowMs : Nat) :
    Decision × RateLimiter :=
  s.decide key policy nowMs true

def peekWith (s : RateLimiter) (key : LimitKey) (policy : Policy) (nowMs : Nat) :
    Decision × RateLimiter :=
  s.decide key policy nowMs false

/-- A class with no installed policy is unrestricted. -/
def check (s : RateLimiter) (key : LimitKey) (nowMs : Nat) : Decision × RateLimiter :=
  match s.policies key.class_ with
  | some policy => s.checkWith key policy nowMs
  | none => (.allowed, s)

end RateLimiter

/-!
## Runs

The calls in the order in which they get the lock, which need not be the order of
their readings.  A `check` takes the lock twice; one whose policy is replaced in between
is a `checkWith` under the policy it had read.
-/

inductive Op where
  | setPolicy (class_ : String) (policy : Policy)
  | check (key : LimitKey) (nowMs : Nat)
  | checkWith (key : LimitKey) (policy : Policy) (nowMs : Nat)
  | peekWith (key : LimitKey) (policy : Policy) (nowMs : Nat)
  | sweep (nowMs : Nat)

def Op.run (s : RateLimiter) : Op -> RateLimiter
  | .setPolicy class_ policy => s.setPolicy class_ policy
  | .check key nowMs => (s.check key nowMs).snd
  | .checkWith key policy nowMs => (s.checkWith key policy nowMs).snd
  | .peekWith key policy nowMs => (s.peekWith key policy nowMs).snd
  | .sweep nowMs => s.sweep nowMs

def step (s : RateLimiter) (op : Op) : Option RateLimiter :=
  some (op.run s)

end Rabbithole.RateLimit
