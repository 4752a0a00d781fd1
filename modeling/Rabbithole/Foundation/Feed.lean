import Mathlib.Algebra.Ring.Nat

/-!
# Machines that are fed

A machine takes one item after the other, and puts out some items for each.  What it puts out
for a whole input does not depend on the chunks the input comes in.
-/

namespace Rabbithole.Foundation

open List

variable {state item out : Type*}

def feed (step : state -> item -> state × List out) : state -> List item -> state × List out
  | s, [] => (s, [])
  | s, i :: rest =>
      let (s', first) := step s i
      let (s'', outs) := feed step s' rest
      (s'', first ++ outs)

section

variable (step : state -> item -> state × List out) (s : state)
include step s

theorem feed_cons (i : item) (rest : List item) :
    feed step s (i :: rest) =
      ((feed step (step s i).fst rest).fst,
        (step s i).snd ++ (feed step (step s i).fst rest).snd) := rfl

theorem feed_singleton (i : item) : feed step s [i] = step s i := by
  rw [feed_cons]
  show ((step s i).fst, (step s i).snd ++ []) = step s i
  rw [append_nil]

theorem feed_append (front back : List item) :
    feed step s (front ++ back) =
      ((feed step (feed step s front).fst back).fst,
        (feed step s front).snd ++ (feed step (feed step s front).fst back).snd) := by
  induction front generalizing s with
  | nil => rfl
  | cons i rest ih =>
      rw [cons_append, feed_cons, ih, feed_cons, append_assoc]

end

/-!
# What a run costs

Every call of a machine gives a result.  Where each call books what it costs, a run costs no
more than what is booked in the end.
-/

section Cost

variable {call result : Type*}

def afterCalls (step : state -> call -> result × state) (s : state) (calls : List call) : state :=
  calls.foldl (fun s c => (step s c).snd) s

/-- Each call with the state it was made in, and its result. -/
def outcomes (step : state -> call -> result × state) :
    state -> List call -> List (state × call × result)
  | _, [] => []
  | s, c :: calls => (s, c, (step s c).fst) :: outcomes step (step s c).snd calls

variable {step : state -> call -> result × state} {good : state -> Prop}

theorem good_afterCalls (hgood : forall s c, good s -> good (step s c).snd) {s : state}
    (hs : good s) (calls : List call) : good (afterCalls step s calls) := by
  induction calls generalizing s with
  | nil => exact hs
  | cons c calls ih => exact ih (hgood s c hs)

theorem sum_cost_le {cost : state × call × result -> Nat} {booked : state -> Nat}
    (hgood : forall s c, good s -> good (step s c).snd)
    (hcost : forall s c, good s ->
      booked s + cost (s, c, (step s c).fst) <= booked (step s c).snd)
    {s : state} (hs : good s) (calls : List call) :
    booked s + ((outcomes step s calls).map cost).sum <= booked (afterCalls step s calls) := by
  induction calls generalizing s with
  | nil => exact Nat.le_refl _
  | cons c calls ih =>
      have hfirst := hcost s c hs
      have hrest := ih (hgood s c hs)
      show booked s + ((outcomes step s (c :: calls)).map cost).sum <=
        booked (afterCalls step (step s c).snd calls)
      unfold outcomes
      rw [map_cons, sum_cons]
      omega

end Cost

/-!
# Framing a stream

A framer looks at the front of what has been received: it asks for more, takes an item off,
or finds that the stream is bad.  Its verdict stands whatever comes behind, so the chunks that
a stream comes in do not matter.
-/

variable {byte item error : Type*}

inductive Front (byte item error : Type*) where
  | more
  | bad (e : error)
  | item (i : item) (rest : List byte)

structure Framer (byte item error : Type*) where
  front : List byte -> Front byte item error
  shorter : forall {buf i rest}, front buf = .item i rest -> rest.length < buf.length
  item_append : forall {buf i rest} (behind : List byte), front buf = .item i rest ->
    front (buf ++ behind) = .item i (rest ++ behind)
  bad_append : forall {buf e} (behind : List byte), front buf = .bad e ->
    front (buf ++ behind) = .bad e
  front_nil : front [] = .more

/-- What is left of a stream: bytes that wait for more, or its first error. -/
inductive Remains (byte error : Type*) where
  | waiting (buf : List byte)
  | failed (e : error)

namespace Framer

variable (f : Framer byte item error)

def drainFor : Nat -> List byte -> List item × Remains byte error
  | 0, buf => ([], .waiting buf)
  | fuel + 1, buf =>
      match f.front buf with
      | .more => ([], .waiting buf)
      | .bad e => ([], .failed e)
      | .item i rest =>
          let (items, left) := drainFor fuel rest
          (i :: items, left)

/-- Take items off until more bytes are needed or the stream is bad. -/
def drain (buf : List byte) : List item × Remains byte error :=
  f.drainFor (buf.length + 1) buf

/-- A chunk comes in, and what it completes is taken off; after an error nothing is. -/
def receive (left : Remains byte error) (chunk : List byte) : List item × Remains byte error :=
  match left with
  | .failed e => ([], .failed e)
  | .waiting buf => f.drain (buf ++ chunk)

def receiveAll : Remains byte error -> List (List byte) -> List item × Remains byte error
  | left, [] => ([], left)
  | left, chunk :: chunks =>
      let (items, left') := f.receive left chunk
      let (later, left'') := receiveAll left' chunks
      (items ++ later, left'')

variable {f}

variable {buf : List byte}

theorem drainFor_enough {fuel : Nat} (h : buf.length < fuel) :
    f.drainFor fuel buf = f.drain buf := by
  induction fuel using Nat.strongRecOn generalizing buf with
  | ind fuel ih =>
      cases fuel with
      | zero => exact absurd h (Nat.not_lt_zero _)
      | succ fuel =>
          unfold drain drainFor
          cases hfront : f.front buf with
          | more => rfl
          | bad e => rfl
          | item i rest =>
              have hshorter := f.shorter hfront
              have hfirst := @ih fuel (Nat.lt_succ_self fuel) rest (by omega)
              simp only []
              rw [hfirst]
              by_cases hsame : buf.length = fuel
              · rw [hsame, hfirst]
              · rw [ih buf.length (by omega) hshorter]

theorem drain_of_more (h : f.front buf = .more) : f.drain buf = ([], .waiting buf) := by
  unfold drain drainFor
  rw [h]

theorem drain_of_bad {e : error} (h : f.front buf = .bad e) : f.drain buf = ([], .failed e) := by
  unfold drain drainFor
  rw [h]

theorem drain_of_item {rest : List byte} {i : item} (h : f.front buf = .item i rest) :
    f.drain buf = (i :: (f.drain rest).fst, (f.drain rest).snd) := by
  have hrest : f.drainFor buf.length rest = f.drain rest := drainFor_enough (f.shorter h)
  show f.drainFor (buf.length + 1) buf = _
  unfold drainFor
  rw [h]
  simp only []
  rw [hrest]

theorem drain_append (buf behind : List byte) :
    f.drain (buf ++ behind) =
      ((f.drain buf).fst ++ (f.receive (f.drain buf).snd behind).fst,
        (f.receive (f.drain buf).snd behind).snd) := by
  induction hlength : buf.length using Nat.strongRecOn generalizing buf with
  | ind n ih =>
      cases hfront : f.front buf with
      | more =>
          rw [drain_of_more hfront]
          rfl
      | bad e =>
          rw [drain_of_bad hfront, drain_of_bad (f.bad_append behind hfront)]
          rfl
      | item i rest =>
          have hrest := ih rest.length (hlength ▸ f.shorter hfront) rest rfl
          rw [drain_of_item hfront, drain_of_item (f.item_append behind hfront), hrest]
          rfl

theorem drain_waiting {left : List byte} (h : (f.drain buf).snd = .waiting left) :
    f.front left = .more := by
  induction hlength : buf.length using Nat.strongRecOn generalizing buf with
  | ind n ih =>
      cases hfront : f.front buf with
      | more =>
          rw [drain_of_more hfront] at h
          cases h
          exact hfront
      | bad e =>
          rw [drain_of_bad hfront] at h
          cases h
      | item i rest =>
          rw [drain_of_item hfront] at h
          exact ih rest.length (hlength ▸ f.shorter hfront) h rfl

theorem receiveAll_cons (left : Remains byte error) (chunk : List byte)
    (chunks : List (List byte)) :
    f.receiveAll left (chunk :: chunks) =
      ((f.receive left chunk).fst ++ (f.receiveAll (f.receive left chunk).snd chunks).fst,
        (f.receiveAll (f.receive left chunk).snd chunks).snd) := rfl

theorem receiveAll_failed (e : error) (chunks : List (List byte)) :
    f.receiveAll (.failed e) chunks = ([], .failed e) := by
  induction chunks with
  | nil => rfl
  | cons chunk chunks ih =>
      rw [receiveAll_cons]
      show ([] ++ (f.receiveAll (.failed e) chunks).fst, (f.receiveAll (.failed e) chunks).snd) = _
      rw [ih]
      rfl

theorem receiveAll_waiting (hmore : f.front buf = .more) (chunks : List (List byte)) :
    f.receiveAll (.waiting buf) chunks = f.drain (buf ++ chunks.flatten) := by
  induction chunks generalizing buf with
  | nil =>
      rw [flatten_nil, append_nil, drain_of_more hmore]
      rfl
  | cons chunk chunks ih =>
      have hfirst : f.receive (.waiting buf) chunk = f.drain (buf ++ chunk) := rfl
      rw [flatten_cons, <- append_assoc, drain_append, receiveAll_cons, hfirst]
      cases hleft : (f.drain (buf ++ chunk)).snd with
      | failed e =>
          rw [receiveAll_failed]
          rfl
      | waiting left =>
          rw [ih (drain_waiting hleft)]
          rfl

theorem receiveAll_eq_drain (chunks : List (List byte)) :
    f.receiveAll (.waiting []) chunks = f.drain chunks.flatten :=
  receiveAll_waiting f.front_nil chunks

end Framer

end Rabbithole.Foundation
