import Rabbithole.Tracker.Registry

/-!
# Gossip messages

What trackers tell each other, one message a datagram: a digest of the signed entries, the
addresses that one side wants, signed descriptors, and a server's announce.  Pages and push
replies go round the registry in the order of the addresses.
-/

namespace Rabbithole.Tracker

open Foundation Federation Directory List

def gossipMagic : Bytes :=
  utf8 "RHGS".toList

def gossipVersion : UInt8 := 1

def gossipHeaderLen : Nat := 5

def maxGossipDatagram : Nat := 1200

def maxDigestEntries : Nat := 16

def maxWantEntries : Nat := 16

inductive GossipError where
  | truncated
  | badMagic (magic : Bytes)
  | badVersion (version : UInt8)
  | badPayload
deriving DecidableEq

structure DigestEntry where
  addr : SocketAddr
  serverKey : PublicKey
  timestamp : Int64
deriving DecidableEq

inductive GossipMessage where
  | digest (entries : List DigestEntry)
  | want (addrs : List SocketAddr)
  | batch (descriptors : List SignedDescriptor)
  | announce (signed : SignedDescriptor)
deriving DecidableEq

namespace GossipMessage

variable (f : Format)

def digestEntry : Codec DigestEntry :=
  (f.socketAddr.pair ((f.array 32).pair f.i64)).iso
    (fun (addr, serverKey, timestamp) => ⟨addr, serverKey, timestamp⟩)
    (fun e => (e.addr, e.serverKey, e.timestamp))
    (fun _ => rfl)

/-- The kind of message, then its body. -/
def payload : Codec GossipMessage where
  encode := fun m =>
    match m with
    | .digest entries => f.u32.encode 0 ++ (Codec.list f.length (digestEntry f)).encode entries
    | .want addrs => f.u32.encode 1 ++ (Codec.list f.length f.socketAddr).encode addrs
    | .batch descriptors =>
        f.u32.encode 2 ++ (Codec.list f.length f.signedDescriptor).encode descriptors
    | .announce signed => f.u32.encode 3 ++ f.signedDescriptor.encode signed
  decode := fun bytes =>
    match f.u32.decode bytes with
    | none => none
    | some (kind, rest) =>
        if kind = 0 then
          ((Codec.list f.length (digestEntry f)).decode rest).map
            (fun read => (.digest read.fst, read.snd))
        else if kind = 1 then
          ((Codec.list f.length f.socketAddr).decode rest).map
            (fun read => (.want read.fst, read.snd))
        else if kind = 2 then
          ((Codec.list f.length f.signedDescriptor).decode rest).map
            (fun read => (.batch read.fst, read.snd))
        else if kind = 3 then
          (f.signedDescriptor.decode rest).map (fun read => (.announce read.fst, read.snd))
        else none
  decode_encode := by
    intro m rest
    cases m with
    | digest entries | want addrs | batch descriptors | announce signed => simp [append_assoc]

def encode (m : GossipMessage) : Bytes :=
  gossipMagic ++ gossipVersion :: (payload f).encode m

def decode (buf : Bytes) : Except GossipError GossipMessage :=
  if buf.length < 4 then .error .truncated
  else if buf.take 4 ≠ gossipMagic then .error (.badMagic (buf.take 4))
  else if buf.length < gossipHeaderLen then .error .truncated
  else if buf.getD 4 0 ≠ gossipVersion then .error (.badVersion (buf.getD 4 0))
  else
    match (payload f).fromBytes (buf.drop gossipHeaderLen) with
    | none => .error .badPayload
    | some m => .ok m

theorem decode_encode (m : GossipMessage) : decode f (encode f m) = .ok m := by
  have hmagic : (encode f m).take 4 = gossipMagic := rfl
  have hversion : (encode f m).getD 4 0 = gossipVersion := rfl
  have hbody : (encode f m).drop gossipHeaderLen = (payload f).encode m := rfl
  have hlength : (encode f m).length = 4 + ((payload f).encode m).length + 1 := by
    unfold encode
    rw [length_append, length_cons]
    rfl
  unfold decode
  rw [hmagic, hversion, hbody, hlength, Codec.fromBytes_encode]
  rw [if_neg (by omega), if_neg (not_not.mpr rfl),
    if_neg (by unfold gossipHeaderLen; omega), if_neg (not_not.mpr rfl)]

end GossipMessage

/-!
## Bounded pages
-/

/-- Where the last page ended. -/
structure GossipCursor where
  after : Option SocketAddr
deriving DecidableEq

/-- The timestamp that a list has for an address; of several, the last. -/
def stampOf (stamps : List (SocketAddr × Int64)) (addr : SocketAddr) : Option Int64 :=
  (stamps.reverse.find? (fun stamp => decide (stamp.fst = addr))).map Prod.snd

/-- Whether a list has something for the address that is not older. -/
def holdsSince (stamps : List (SocketAddr × Int64)) (addr : SocketAddr) (timestamp : Int64) :
    Bool :=
  match stampOf stamps addr with
  | none => false
  | some held => decide (timestamp <= held)

def GossipDigest.stamps (theirs : List DigestEntry) : List (SocketAddr × Int64) :=
  theirs.map (fun e => (e.addr, e.timestamp))

def signedOf (entry : ServerEntry) : Option (ServerEntry × SignedDescriptor) :=
  entry.signed.map (fun signed => (entry, signed))

namespace GossipCursor

def default : GossipCursor where
  after := none

/-- The signed entries by address, from the first behind the bookmark on and then from
the start. -/
def ordered (cursor : GossipCursor) (entries : List ServerEntry) :
    List (ServerEntry × SignedDescriptor) :=
  let signed := listBy (fun held => held.fst.addr.rank) (entries.filterMap signedOf)
  let start :=
    match cursor.after with
    | none => 0
    | some after =>
        (signed.findIdx? (fun held => decide (after.rank < held.fst.addr.rank))).getD 0
  signed.drop start ++ signed.take start

variable (f : Format)

def digestLoop : List (ServerEntry × SignedDescriptor) -> List DigestEntry -> GossipCursor ->
    List DigestEntry × GossipCursor
  | [], digest, cursor => (digest, cursor)
  | (entry, signed) :: rest, digest, cursor =>
      let longer := digest ++
        [⟨entry.addr, signed.descriptor.serverKey, signed.descriptor.timestamp⟩]
      if maxGossipDatagram < (GossipMessage.encode f (.digest longer)).length then
        (digest, cursor)
      else digestLoop rest longer ⟨some entry.addr⟩

def digest (cursor : GossipCursor) (entries : List ServerEntry) : List DigestEntry × GossipCursor :=
  digestLoop f ((cursor.ordered entries).take maxDigestEntries) [] cursor

/-- A descriptor that does not fit what is left goes first the next time; one that fits no
datagram is passed over. -/
def pushLoop (theirs : List DigestEntry) (peer : SocketAddr) (maxBytes : Nat) :
    List (ServerEntry × SignedDescriptor) -> List SignedDescriptor -> GossipCursor ->
    List SignedDescriptor × GossipCursor
  | [], batch, cursor => (batch, cursor)
  | (entry, signed) :: rest, batch, cursor =>
      if entry.via ≠ some peer ∧
          holdsSince (GossipDigest.stamps theirs) entry.addr signed.descriptor.timestamp =
            false then
        if min maxBytes maxGossipDatagram <
            (GossipMessage.encode f (.batch (batch ++ [signed]))).length then
          if batch.isEmpty then pushLoop theirs peer maxBytes rest batch ⟨some entry.addr⟩
          else (batch, cursor)
        else pushLoop theirs peer maxBytes rest (batch ++ [signed]) ⟨some entry.addr⟩
      else pushLoop theirs peer maxBytes rest batch ⟨some entry.addr⟩

/-- What a peer's digest shows it to be missing, without what was learned from it. -/
def pushBatch (cursor : GossipCursor) (entries : List ServerEntry) (theirs : List DigestEntry)
    (peer : SocketAddr) (maxBytes : Nat) : List SignedDescriptor × GossipCursor :=
  pushLoop f theirs peer maxBytes ((cursor.ordered entries).take maxWantEntries) [] cursor

theorem mem_ordered {cursor : GossipCursor} {entries : List ServerEntry}
    {held : ServerEntry × SignedDescriptor} (h : held ∈ cursor.ordered entries) :
    held.fst ∈ entries ∧ held.fst.signed = some held.snd := by
  have hlisted : held ∈ entries.filterMap signedOf := by
    rcases mem_append.mp h with hdrop | htake
    · exact mem_listBy.mp (mem_of_mem_drop hdrop)
    · exact mem_listBy.mp (mem_of_mem_take htake)
  rcases mem_filterMap.mp hlisted with ⟨entry, hentry, hsigned⟩
  rcases Option.map_eq_some_iff.mp hsigned with ⟨signed, hcarried, rfl⟩
  exact ⟨hentry, hcarried⟩

theorem mem_pushLoop {theirs : List DigestEntry} {peer : SocketAddr} {maxBytes : Nat}
    {page : List (ServerEntry × SignedDescriptor)} {batch : List SignedDescriptor}
    {cursor : GossipCursor} {signed : SignedDescriptor}
    (h : signed ∈ (pushLoop f theirs peer maxBytes page batch cursor).fst) :
    signed ∈ batch ∨ exists entry, (entry, signed) ∈ page ∧ entry.via ≠ some peer := by
  induction page generalizing batch cursor with
  | nil => exact Or.inl h
  | cons held rest ih =>
      rcases held with ⟨entry, signed'⟩
      have hpast : (signed ∈ batch ∨
          exists entry, (entry, signed) ∈ rest ∧ entry.via ≠ some peer) ->
          signed ∈ batch ∨
            exists e, (e, signed) ∈ (entry, signed') :: rest ∧ e.via ≠ some peer := by
        rintro (hbatch | ⟨e, he, hvia⟩)
        · exact Or.inl hbatch
        · exact Or.inr ⟨e, mem_cons_of_mem _ he, hvia⟩
      unfold pushLoop at h
      split at h
      · rename_i hfree
        split at h
        · split at h
          · exact hpast (ih h)
          · exact Or.inl h
        · rcases ih h with hbatch | ⟨e, he, hvia⟩
          · rcases mem_append.mp hbatch with hold | hnew
            · exact Or.inl hold
            · rw [mem_singleton.mp hnew]
              exact Or.inr ⟨entry, mem_cons_self, hfree.left⟩
          · exact Or.inr ⟨e, mem_cons_of_mem _ he, hvia⟩
      · exact hpast (ih h)

end GossipCursor

/-!
## Pull
-/

def wantedLoop (ours : List (SocketAddr × Int64)) :
    List DigestEntry -> List SocketAddr -> List SocketAddr
  | [], addrs => addrs
  | entry :: rest, addrs =>
      if maxWantEntries <= addrs.length then addrs
      else if holdsSince ours entry.addr entry.timestamp || addrs.contains entry.addr then
        wantedLoop ours rest addrs
      else wantedLoop ours rest (addrs ++ [entry.addr])

/-- Every address that they have something newer for, or that is not held at all. -/
def wantFrom (entries : List ServerEntry) (theirs : List DigestEntry) : List SocketAddr :=
  wantedLoop
    (entries.filterMap (fun e => e.timestamp.map (fun timestamp => (e.addr, timestamp))))
    theirs []

def entryAt (entries : List ServerEntry) (addr : SocketAddr) : Option ServerEntry :=
  entries.reverse.find? (fun e => decide (e.addr = addr))

/-- What an address that is asked for adds to the answer. -/
def offered (entries : List ServerEntry) (peer : SocketAddr) (addr : SocketAddr) :
    Option SignedDescriptor :=
  match entryAt entries addr with
  | none => none
  | some entry => if entry.via = some peer then none else entry.signed

def batchLoop (f : Format) (entries : List ServerEntry) (peer : SocketAddr) (maxBytes : Nat) :
    List SocketAddr -> List SocketAddr -> List SignedDescriptor -> List SignedDescriptor
  | [], _, batch => batch
  | addr :: rest, seen, batch =>
      if seen.contains addr then batchLoop f entries peer maxBytes rest seen batch
      else
        match offered entries peer addr with
        | none => batchLoop f entries peer maxBytes rest (seen ++ [addr]) batch
        | some signed =>
            if min maxBytes maxGossipDatagram <
                (GossipMessage.encode f (.batch (batch ++ [signed]))).length then
              batchLoop f entries peer maxBytes rest (seen ++ [addr]) batch
            else batchLoop f entries peer maxBytes rest (seen ++ [addr]) (batch ++ [signed])

def batchFor (f : Format) (entries : List ServerEntry) (want : List SocketAddr)
    (peer : SocketAddr) (maxBytes : Nat) : List SignedDescriptor :=
  batchLoop f entries peer maxBytes (want.take maxWantEntries) [] []

variable {entries : List ServerEntry} {peer : SocketAddr} {signed : SignedDescriptor} {f : Format}
  {maxBytes : Nat}

theorem of_offered {addr : SocketAddr} (h : offered entries peer addr = some signed) :
    exists entry, entry ∈ entries ∧ entry.signed = some signed ∧ entry.via ≠ some peer := by
  unfold offered at h
  split at h
  · cases h
  · rename_i entry hentry
    split at h
    · cases h
    · rename_i hvia
      exact ⟨entry, mem_reverse.mp (mem_of_find?_eq_some hentry), h, hvia⟩

theorem mem_batchLoop {want seen : List SocketAddr} {batch : List SignedDescriptor}
    (h : signed ∈ batchLoop f entries peer maxBytes want seen batch) :
    signed ∈ batch ∨
      exists entry, entry ∈ entries ∧ entry.signed = some signed ∧ entry.via ≠ some peer := by
  induction want generalizing seen batch with
  | nil => exact Or.inl h
  | cons addr rest ih =>
      unfold batchLoop at h
      split at h
      · exact ih h
      · split at h
        · exact ih h
        · rename_i hoffered
          split at h
          · exact ih h
          · rcases ih h with hbatch | hlater
            · rcases mem_append.mp hbatch with hold | hnew
              · exact Or.inl hold
              · rw [mem_singleton.mp hnew]
                exact Or.inr (of_offered hoffered)
            · exact Or.inr hlater

theorem of_mem_pushBatch {cursor : GossipCursor} {theirs : List DigestEntry}
    (h : signed ∈ (cursor.pushBatch f entries theirs peer maxBytes).fst) :
    exists entry, entry ∈ entries ∧ entry.signed = some signed ∧ entry.via ≠ some peer := by
  rcases GossipCursor.mem_pushLoop f h with hnil | ⟨entry, hpage, hvia⟩
  · cases hnil
  · have hheld := GossipCursor.mem_ordered (mem_of_mem_take hpage)
    exact ⟨entry, hheld.left, hheld.right, hvia⟩

theorem of_mem_batchFor {want : List SocketAddr}
    (h : signed ∈ batchFor f entries want peer maxBytes) :
    exists entry, entry ∈ entries ∧ entry.signed = some signed ∧ entry.via ≠ some peer := by
  rcases mem_batchLoop h with hnil | hentry
  · cases hnil
  · exact hentry

end Rabbithole.Tracker
