import Mathlib.Data.List.Sort
import Rabbithole.Reticulum.Tunnel

/-!
# Batches

Messages for one peer are packed into batches that fit one packet, and paced by a token
bucket.  A batch is an envelope of messages that each say how long they are.
-/

namespace Rabbithole.Reticulum

open Foundation

/-- The length of a Reticulum packet at most. -/
def mtu : Nat := 500

def batchEnvelopeHeaderLen : Nat := 2

def maxBatchMessages : Nat := 255

def batchVersion : UInt8 := 1

def batchFramingReserve : Nat := 8 + 16

def header2PayloadBudget : Nat := mtu - (2 + 2 * 16 + 1)

def defaultBatchBudget : Nat := header2PayloadBudget - batchFramingReserve

inductive BatchError where
  | truncated (needed got : Nat)
  | tooLarge (length : Nat)
  | badVersion (version : UInt8)
  | badMessage (error : TunnelError)
  | trailingBytes (count : Nat)
deriving DecidableEq

structure Batch where
  messages : List TunnelMessage
deriving DecidableEq

namespace Batch

def lengthOf (messages : List TunnelMessage) : Nat :=
  batchEnvelopeHeaderLen + (messages.map TunnelMessage.encodedLen).sum

def encodedLen (batch : Batch) : Nat :=
  lengthOf batch.messages

def encodeMessages : List TunnelMessage -> Except BatchError Bytes
  | [] => .ok []
  | msg :: rest =>
      match msg.encode with
      | .error e => .error (.badMessage e)
      | .ok bytes => (encodeMessages rest).map (fun behind => bytes ++ behind)

def encode (batch : Batch) : Except BatchError Bytes :=
  if maxBatchMessages < batch.messages.length then .error (.tooLarge batch.encodedLen)
  else
    match encodeMessages batch.messages with
    | .error e => .error e
    | .ok bytes =>
        let out := [batchVersion, UInt8.ofNat batch.messages.length] ++ bytes
        if mtu < out.length then .error (.tooLarge out.length) else .ok out

def decodeMessages (contentId : ContentId) (bytes : Bytes) :
    Nat -> Nat -> Except BatchError (List TunnelMessage × Nat)
  | 0, cursor => .ok ([], cursor)
  | count + 1, cursor =>
      match TunnelMessage.decodeFrom contentId bytes cursor with
      | .error e => .error (.badMessage e)
      | .ok (msg, next) =>
          (decodeMessages contentId bytes count next).map
            (fun read => (msg :: read.fst, read.snd))

def decode (contentId : ContentId) (bytes : Bytes) : Except BatchError Batch :=
  if mtu < bytes.length then .error (.tooLarge bytes.length)
  else if bytes.length < batchEnvelopeHeaderLen then
    .error (.truncated batchEnvelopeHeaderLen bytes.length)
  else if bytes.getD 0 0 ≠ batchVersion then .error (.badVersion (bytes.getD 0 0))
  else
    match decodeMessages contentId bytes (bytes.getD 1 0).toNat batchEnvelopeHeaderLen with
    | .error e => .error e
    | .ok (messages, cursor) =>
        if cursor ≠ bytes.length then .error (.trailingBytes (bytes.length - cursor))
        else .ok ⟨messages⟩

end Batch

/-!
## The token bucket

Tokens are millionths of a byte, so a rate in thousandths of a byte per second gives whole
tokens each millisecond.
-/

structure ByteRate where
  millibytesPerSec : Nat
deriving DecidableEq

namespace ByteRate

def fromBytesPerSec (bytes : UInt64) : ByteRate where
  millibytesPerSec := bytes.toNat * 1000

def fromMillibytesPerSec (millibytes : UInt64) : ByteRate where
  millibytesPerSec := millibytes.toNat

end ByteRate

def micro : Nat := 1000000

def u128Max : Nat := 2 ^ 128 - 1

structure TokenBucket where
  capacityMicro : Nat
  rate : ByteRate
  tokensMicro : Nat
  lastMs : UInt64

namespace TokenBucket

def withRate (capacityBytes : UInt64) (rate : ByteRate) (nowMs : UInt64) : TokenBucket where
  capacityMicro := capacityBytes.toNat * micro
  rate := rate
  tokensMicro := capacityBytes.toNat * micro
  lastMs := nowMs

def peekMicro (bucket : TokenBucket) (nowMs : UInt64) : Nat :=
  let elapsed := saturatingSub nowMs bucket.lastMs
  let refill := min (elapsed.toNat * bucket.rate.millibytesPerSec) u128Max
  min (min (bucket.tokensMicro + refill) u128Max) bucket.capacityMicro

def refill (bucket : TokenBucket) (nowMs : UInt64) : TokenBucket :=
  if bucket.lastMs < nowMs then
    { bucket with
      tokensMicro := bucket.peekMicro nowMs
      lastMs := nowMs }
  else bucket

def trySpend (bucket : TokenBucket) (bytes : Nat) (nowMs : UInt64) : Bool × TokenBucket :=
  let bucket := bucket.refill nowMs
  let cost := bytes * micro
  if cost <= bucket.tokensMicro then
    (true, { bucket with tokensMicro := bucket.tokensMicro - cost })
  else (false, bucket)

end TokenBucket

/-!
## The batcher
-/

structure Queued where
  msg : TunnelMessage
  enqueuedMs : UInt64
deriving DecidableEq

structure PeerQueue where
  queue : Dict TunnelId Queued
  bucket : TokenBucket

structure Batcher where
  budget : Nat
  maxBatchAgeMs : UInt64
  capacityBytes : UInt64
  rate : ByteRate
  peers : Dict PeerId PeerQueue

/-- Priority first, high ones in front; then the time of creation; then the id. -/
def TunnelMessage.order (a b : TunnelMessage) : Ordering :=
  (compare b.priority a.priority).then
    ((compare a.createdMs b.createdMs).then (compare a.id b.id))

/-- Groups that are closed, and the one that is being filled with its length. -/
structure Packing where
  groups : List (List Queued)
  current : List Queued
  currentLen : Nat

namespace Batcher

def minBudget : Nat := batchEnvelopeHeaderLen + tunnelMessageHeaderLen

def withRate (budget : Nat) (maxBatchAgeMs capacityBytes : UInt64) (rate : ByteRate) : Batcher where
  budget := max minBudget (min budget defaultBatchBudget)
  maxBatchAgeMs := maxBatchAgeMs
  capacityBytes := capacityBytes
  rate := rate
  peers := Dict.empty

def peerQueue (s : Batcher) (peer : PeerId) (nowMs : UInt64) : PeerQueue :=
  (s.peers.get? peer).getD
    ⟨Dict.empty, TokenBucket.withRate s.capacityBytes s.rate nowMs⟩

def enqueue (s : Batcher) (peer : PeerId) (msg : TunnelMessage) (nowMs : UInt64) : Bool × Batcher :=
  let pq := s.peerQueue peer nowMs
  match pq.queue.get? msg.id with
  | some existing =>
      (false, { s with
        peers := s.peers.insert peer
          { pq with queue := pq.queue.insert msg.id { existing with msg := msg } } })
  | none =>
      (true, { s with
        peers := s.peers.insert peer { pq with queue := pq.queue.insert msg.id ⟨msg, nowMs⟩ } })

def ordered (queue : Dict TunnelId Queued) : List Queued :=
  (queue.entries.map Prod.snd).insertionSort (fun a b => (a.msg.order b.msg).isLE = true)

def packOne (budget : Nat) (p : Packing) (q : Queued) : Packing :=
  let add := q.msg.encodedLen
  -- a message that does not fit even alone stays queued
  if budget < batchEnvelopeHeaderLen + add then p
  else
    let fitsSize := decide (p.currentLen + add <= budget)
    let fitsCount := decide (p.current.length < maxBatchMessages)
    if !p.current.isEmpty && (!fitsSize || !fitsCount) then
      ⟨p.groups ++ [p.current], [q], batchEnvelopeHeaderLen + add⟩
    else ⟨p.groups, p.current ++ [q], p.currentLen + add⟩

def pack (budget : Nat) (ordered : List Queued) : List (List Queued) :=
  let p := ordered.foldl (packOne budget) ⟨[], [], batchEnvelopeHeaderLen⟩
  if p.current.isEmpty then p.groups else p.groups ++ [p.current]

def groupLen (group : List Queued) : Nat :=
  Batch.lengthOf (group.map Queued.msg)

def full (s : Batcher) (group : List Queued) : Bool :=
  decide (s.budget < groupLen group + tunnelMessageHeaderLen)

def aged (s : Batcher) (nowMs : UInt64) (group : List Queued) : Bool :=
  decide (s.maxBatchAgeMs.toNat <=
    group.foldl (fun w q => max w (saturatingSub nowMs q.enqueuedMs).toNat) 0)

/-- Send groups until one is to be held or cannot be paid for. -/
def emit (s : Batcher) (nowMs : UInt64) :
    TokenBucket -> List (List Queued) -> List (List Queued) × TokenBucket
  | bucket, [] => ([], bucket)
  | bucket, group :: rest =>
      if !s.full group && !s.aged nowMs group then ([], bucket)
      else
        let (paid, bucket) := bucket.trySpend (groupLen group) nowMs
        if paid then
          let (sent, bucket) := s.emit nowMs bucket rest
          (group :: sent, bucket)
        else ([], bucket)

def planBatches (s : Batcher) (peer : PeerId) (nowMs : UInt64) : List Batch × Batcher :=
  match s.peers.get? peer with
  | none => ([], s)
  | some pq =>
      let bucket := pq.bucket.refill nowMs
      if pq.queue.isEmpty then
        ([], { s with peers := s.peers.insert peer { pq with bucket := bucket } })
      else
        let (sent, bucket) := s.emit nowMs bucket (pack s.budget (ordered pq.queue))
        let emittedIds := sent.flatten.map (fun q => q.msg.id)
        let queue := emittedIds.foldl (fun queue id => queue.erase id) pq.queue
        (sent.map (fun group => ⟨group.map Queued.msg⟩),
          { s with peers := s.peers.insert peer ⟨queue, bucket⟩ })

end Batcher
end Rabbithole.Reticulum
