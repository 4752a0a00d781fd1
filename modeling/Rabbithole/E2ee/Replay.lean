import Rabbithole.E2ee.Room

/-!
# Accepted once

Whatever is accepted in a room was encrypted by the member it names.  It is accepted once, as
long as no sender key is registered that was taken before a message already accepted: such a
key takes the receiver's chain back.
-/

namespace Rabbithole.E2ee

open Foundation List

section Once

variable {chain key signing verifying : Type}
  {crypto : SenderCrypto chain key signing verifying} {groupId : GroupId}
  {w w' : Room chain key signing verifying}

/-- The accepted message was encrypted at or behind the place of the distribution message. -/
def Room.Covers (crypto : SenderCrypto chain key signing verifying)
    (w : Room chain key signing verifying) (dm : SenderKeyDistributionMessage chain)
    (a : GroupAccepted chain) : Prop :=
  exists x, x ∈ w.sent ∧ x.message.ciphertext = a.message.ciphertext ∧
    exists n, crypto.kdf.after n dm.chainKey = x.chainKey

/-- No sender key is registered that covers a message the receiver has accepted. -/
def Room.Newer (crypto : SenderCrypto chain key signing verifying)
    (w : Room chain key signing verifying) : GroupCall chain signing -> Prop
  | .addMember i dm => forall a, a ∈ w.accepted -> a.receiver = i -> ¬ w.Covers crypto dm a
  | _ => True

/-- Not the same ciphertext accepted by the same receiver. -/
def GroupAccepted.Apart (a b : GroupAccepted chain) : Prop :=
  a.receiver = b.receiver -> a.message.ciphertext ≠ b.message.ciphertext

structure Room.Once (crypto : SenderCrypto chain key signing verifying)
    (w : Room chain key signing verifying) : Prop where
  distinct : w.accepted.Pairwise GroupAccepted.Apart
  spent : forall i s member peer, w.sessions.get? i = some s ->
    s.peers.get? member = some peer -> forall a, a ∈ w.accepted -> a.receiver = i ->
      forall mk, peer.Holds crypto mk -> ¬ crypto.aead.Under mk a.message.ciphertext

variable {i : Nat} {s : GroupSession chain key signing verifying}

theorem Room.Once.keep (ho : w.Once crypto) {s' : GroupSession chain key signing verifying}
    (hget : w.sessions.get? i = some s) (hsessions : w'.sessions = w.sessions.insert i s')
    (hpeers : s'.peers = s.peers) (haccepted : w'.accepted = w.accepted) : w'.Once crypto where
  distinct := by
    rw [haccepted]
    exact ho.distinct
  spent j t member peer hget' hpeer := by
    rw [haccepted]
    rw [hsessions, Dict.get?_insert] at hget'
    split at hget'
    · rename_i hsame
      cases hget'
      rw [hpeers] at hpeer
      rw [hsame]
      exact ho.spent i s member peer hget hpeer
    · exact ho.spent j t member peer hget' hpeer

theorem Room.Once.new (ho : w.Once crypto) (hsessions : w'.sessions = w.sessions.insert i s)
    (hpeers : s.peers = Dict.empty) (haccepted : w'.accepted = w.accepted) : w'.Once crypto where
  distinct := by
    rw [haccepted]
    exact ho.distinct
  spent j t member peer hget' hpeer := by
    rw [haccepted]
    rw [hsessions, Dict.get?_insert] at hget'
    split at hget'
    · cases hget'
      rw [hpeers] at hpeer
      cases hpeer
    · exact ho.spent j t member peer hget' hpeer

section

variable (hcrypto : crypto.Ideal) (hs : w.Sound crypto groupId) (ho : w.Once crypto)
  (hget : w.sessions.get? i = some s)
include hcrypto hs ho hget

theorem Room.Once.addMember {dm : SenderKeyDistributionMessage chain}
    (hnewer : forall a, a ∈ w.accepted -> a.receiver = i -> ¬ w.Covers crypto dm a)
    (signingPublic : verifying) (hsessions : w'.sessions = w.sessions.insert i
      { s with
        peers := s.peers.insert dm.memberId
          ⟨dm.chainKey, dm.iteration, signingPublic, Dict.empty⟩ })
    (haccepted : w'.accepted = w.accepted) : w'.Once crypto where
  distinct := by
    rw [haccepted]
    exact ho.distinct
  spent j t member peer hget' hpeer := by
    rw [haccepted]
    rw [hsessions, Dict.get?_insert] at hget'
    split at hget'
    · rename_i hsame
      cases hget'
      rw [Dict.get?_insert] at hpeer
      split at hpeer
      · cases hpeer
        intro a ha hreceiver mk hholds hunder
        rcases hholds with ⟨n, hmk⟩ | ⟨number, hkept⟩
        · rcases (hs.accepted a ha).left with ⟨x, hx, _, _, _, _, hciphertext⟩
          apply hnewer a ha (hreceiver.trans hsame)
          refine ⟨x, hx, hciphertext, n, hcrypto.kdf.messageKey_injective ?_⟩
          have hmade : crypto.aead.Under (crypto.kdf.messageKey x.chainKey)
              a.message.ciphertext := ⟨_, _, (hs.sent x hx).symm.trans hciphertext⟩
          rw [hmk]
          exact Aead.under_unique hcrypto.aead hunder hmade
        · cases hkept
      · rw [hsame]
        exact ho.spent i s member peer hget hpeer
    · exact ho.spent j t member peer hget' hpeer

/-- A message is opened with a key that opens none of those accepted before. -/
theorem Room.Once.decrypt {msg : GroupMessage} {ad plaintext : Bytes}
    (hunforged : crypto.aead.Unforged (w.Secret crypto)
      (fun m => exists x, x ∈ w.sent ∧ x.sealed crypto groupId = m) msg.ciphertext)
    {peer peer' : PeerSenderState chain key verifying}
    (hpeer : s.peers.get? msg.memberId = some peer) (hopen : peer.open? crypto s.maxSkip msg
      (associatedData s.groupId msg.memberId msg.iteration ad) = .ok (plaintext, peer'))
    (hsessions : w'.sessions =
      w.sessions.insert i { s with peers := s.peers.insert msg.memberId peer' })
    {registered : Option (SenderKeyDistributionMessage chain)}
    (haccepted : w'.accepted = ⟨i, msg, ad, plaintext, registered⟩ :: w.accepted) :
    w'.Once crypto := by
  rcases hs.opened hcrypto hget hpeer hopen with
    ⟨dm, mk, count, _, _, honChain, hopened⟩
  have hsecret := hs.secret hget hpeer hopened.held
  have hunder : crypto.aead.Under mk msg.ciphertext :=
    ⟨_, _, (Aead.made_of_open hcrypto.aead hunforged hsecret hopened.opens).right⟩
  have hfollows := ((hs.sessions i s hget).peers msg.memberId peer hpeer)
  rcases hfollows with ⟨dm', count', _, _, honChain', hfollows⟩
  rcases hfollows.holds hopened.held with ⟨place, hmk⟩
  -- no other peer of the receiver has the key
  have hother : forall member p, s.peers.get? member = some p -> member ≠ msg.memberId ->
      ¬ p.Holds crypto mk := by
    intro member p hp hne hholds
    rcases (hs.sessions i s hget).peers member p hp with ⟨dm'', _, _, _, honChain'', hfollows''⟩
    rcases hfollows''.holds hholds with ⟨place'', hmk''⟩
    apply hne
    apply hs.member_unique (honChain''.after place'')
    rw [hcrypto.kdf.messageKey_injective (hmk''.symm.trans hmk)]
    exact honChain'.after place
  constructor
  · rw [haccepted]
    apply pairwise_cons.mpr
    refine ⟨?_, ho.distinct⟩
    intro a ha hreceiver hciphertext
    replace hciphertext : msg.ciphertext = a.message.ciphertext := hciphertext
    rw [hciphertext] at hunder
    exact ho.spent i s msg.memberId peer hget hpeer a ha hreceiver.symm mk hopened.held hunder
  · intro j t member p hget' hp a ha hreceiver mk' hholds hunder'
    rw [hsessions, Dict.get?_insert] at hget'
    rw [haccepted] at ha
    split at hget'
    · rename_i hsame
      cases hget'
      rw [Dict.get?_insert] at hp
      rcases mem_cons.mp ha with rfl | ha
      · have hkey := Aead.under_unique hcrypto.aead hunder' hunder
        rw [hkey] at hholds
        split at hp
        · cases hp
          exact hopened.spent hholds
        · rename_i hne
          exact hother member p hp hne hholds
      · split at hp
        · cases hp
          exact ho.spent i s msg.memberId peer hget hpeer a ha (hreceiver.trans hsame) mk'
            (hopened.fewer mk' hholds) hunder'
        · exact ho.spent i s member p hget hp a ha (hreceiver.trans hsame) mk' hholds hunder'
    · rename_i hne
      rcases mem_cons.mp ha with rfl | ha
      · exact hne hreceiver.symm
      · exact ho.spent j t member p hget' hp a ha hreceiver mk' hholds hunder'

end

variable [DecidableEq chain]

theorem Room.once_step (hcrypto : crypto.Ideal) {call : GroupCall chain signing}
    (hs : w.Sound crypto groupId) (ho : w.Once crypto) (hideal : w.Ideal crypto groupId call)
    (hnewer : w.Newer crypto call) (h : w.step crypto groupId call = some w') : w'.Once crypto := by
  cases Room.happens_of_step h with
  | new i selfId ck signingKey _ => exact ho.new rfl rfl rfl
  | rekeyed hget ck signingKey | bounded hget maxSkip | failed hget | encrypted hget plaintext ad =>
      exact ho.keep hget rfl rfl rfl
  | produced hget => exact ⟨ho.distinct, ho.spent⟩
  | added hget hproduced signingPublic =>
      exact ho.addMember hcrypto hs hget hnewer signingPublic rfl rfl
  | decrypted hget hpeer hopen =>
      exact ho.decrypt hcrypto hs hget hideal hpeer hopen rfl rfl

omit [DecidableEq chain] in
theorem sound_empty : (Room.empty : Room chain key signing verifying).Sound crypto groupId where
  endless _ hx := absurd hx not_mem_nil
  apart _ hx := absurd hx not_mem_nil
  sessions i s hget := by cases hget
  produced _ hdm := absurd hdm not_mem_nil
  sent _ hx := absurd hx not_mem_nil
  accepted _ ha := absurd ha not_mem_nil

omit [DecidableEq chain] in
theorem once_empty : (Room.empty : Room chain key signing verifying).Once crypto where
  distinct := Pairwise.nil
  spent i s member peer hget := by cases hget

end Once

/-!
## Primitives that hide nothing

A chain key is the number of its chain and its place, a message key is the chain key it
comes from, and a seal carries what is under it.
-/

namespace Plain

def kdf : ChainKdf (Nat × Nat) (Nat × Nat) where
  derive ck := ((ck.fst, ck.snd + 1), ck)

def sealCodec : Codec ((Nat × Nat) × Bytes × Bytes) :=
  (Codec.varint.pair Codec.varint).pair
    ((Codec.list Codec.varint byte).pair (Codec.list Codec.varint byte))

def sign (signing : Nat) (bytes : Bytes) : Signature :=
  BitVec.ofNat _ (Codec.ofHighFirst bytes * 256 + signing)

def crypto : SenderCrypto (Nat × Nat) (Nat × Nat) Nat Nat where
  kdf := kdf
  aead := Aead.ofCodec sealCodec
  sign := sign
  verify verifying bytes signature := sign verifying bytes == signature
  verifyingKey := id
  toBytes verifying := BitVec.ofNat _ verifying
  fromBytes bytes := some bytes.toNat

theorem ideal : crypto.Ideal where
  kdf :=
    { next_injective := by
        intro ⟨origin, n⟩ ⟨origin', n'⟩ heq
        cases heq
        rfl
      messageKey_injective := fun _ _ heq => heq }
  aead := Aead.ideal_ofCodec sealCodec

theorem after_eq (n : Nat) (ck : Nat × Nat) : crypto.kdf.after n ck = (ck.fst, ck.snd + n) := by
  induction n generalizing ck with
  | zero => rfl
  | succ n ih =>
      show crypto.kdf.after n (ck.fst, ck.snd + 1) = _
      rw [ih, Nat.add_right_comm]
      rfl

def FreshOrigin (drawn : List (MemberId × Nat × Nat)) (ck : Nat × Nat) : Prop :=
  forall x, x ∈ drawn -> x.snd.fst ≠ ck.fst

theorem fresh_of_freshOrigin {drawn : List (MemberId × Nat × Nat)} {ck : Nat × Nat}
    (h : FreshOrigin drawn ck) : crypto.Fresh drawn ck := by
  constructor
  · intro n heq
    rw [after_eq] at heq
    have hplace := congrArg Prod.snd heq
    exact Nat.succ_ne_zero n (Nat.add_left_cancel hplace)
  · intro x hx n
    rw [after_eq, after_eq]
    exact ⟨fun heq => h x hx (by rw [← heq]), fun heq => h x hx (by rw [← heq])⟩

/-- What is asked of the primitives, when only genuine ciphertexts are delivered. -/
def Genuine (groupId : GroupId) (w : Room (Nat × Nat) (Nat × Nat) Nat Nat) :
    GroupCall (Nat × Nat) Nat -> Prop
  | .new _ _ ck _ => FreshOrigin w.drawn ck
  | .rekey _ ck _ => FreshOrigin w.drawn ck
  | .decrypt _ msg _ =>
      exists x, x ∈ w.sent ∧ crypto.aead.ciphertext (x.sealed crypto groupId) = msg.ciphertext
  | _ => True

instance (groupId : GroupId) (w : Room (Nat × Nat) (Nat × Nat) Nat Nat)
    (call : GroupCall (Nat × Nat) Nat) : Decidable (Genuine groupId w call) :=
  match call with
  | .new _ _ ck _ => inferInstanceAs (Decidable (forall x, x ∈ w.drawn -> x.snd.fst ≠ ck.fst))
  | .rekey _ ck _ => inferInstanceAs (Decidable (forall x, x ∈ w.drawn -> x.snd.fst ≠ ck.fst))
  | .decrypt _ msg _ =>
      inferInstanceAs (Decidable (exists x, x ∈ w.sent ∧
        crypto.aead.ciphertext (x.sealed crypto groupId) = msg.ciphertext))
  | .setMaxSkip _ _ => isTrue trivial
  | .distributionMessage _ => isTrue trivial
  | .addMember _ _ => isTrue trivial
  | .encrypt _ _ _ => isTrue trivial

theorem ideal_of_genuine (groupId : GroupId) (w : Room (Nat × Nat) (Nat × Nat) Nat Nat)
    (call : GroupCall (Nat × Nat) Nat) (h : Genuine groupId w call) :
    w.Ideal crypto groupId call := by
  cases call with
  | new _ _ _ _ | rekey _ _ _ => exact fresh_of_freshOrigin h
  | decrypt _ msg _ =>
      rcases h with ⟨x, hx, hciphertext⟩
      exact fun _ _ _ _ _ => ⟨_, ⟨x, hx, rfl⟩, hciphertext⟩
  | setMaxSkip _ _ | distributionMessage _ | addMember _ _ | encrypt _ _ _ => trivial

/-- No accepted message is at or behind the place of the distribution message. -/
def Behind (w : Room (Nat × Nat) (Nat × Nat) Nat Nat) : GroupCall (Nat × Nat) Nat -> Prop
  | .addMember i dm =>
      forall a, a ∈ w.accepted -> a.receiver = i -> forall x, x ∈ w.sent ->
        x.message.ciphertext = a.message.ciphertext ->
          x.chainKey.fst = dm.chainKey.fst -> x.chainKey.snd < dm.chainKey.snd
  | _ => True

instance (w : Room (Nat × Nat) (Nat × Nat) Nat Nat) (call : GroupCall (Nat × Nat) Nat) :
    Decidable (Behind w call) :=
  match call with
  | .addMember i dm =>
      inferInstanceAs (Decidable (forall a, a ∈ w.accepted -> a.receiver = i ->
        forall x, x ∈ w.sent -> x.message.ciphertext = a.message.ciphertext ->
          x.chainKey.fst = dm.chainKey.fst -> x.chainKey.snd < dm.chainKey.snd))
  | .new _ _ _ _ => isTrue trivial
  | .rekey _ _ _ => isTrue trivial
  | .decrypt _ _ _ => isTrue trivial
  | .setMaxSkip _ _ => isTrue trivial
  | .distributionMessage _ => isTrue trivial
  | .encrypt _ _ _ => isTrue trivial

theorem newer_of_behind (w : Room (Nat × Nat) (Nat × Nat) Nat Nat)
    (call : GroupCall (Nat × Nat) Nat) (h : Behind w call) : w.Newer crypto call := by
  cases call with
  | addMember i dm =>
      intro a ha hreceiver hcovers
      rcases hcovers with ⟨x, hx, hciphertext, n, hafter⟩
      rw [after_eq] at hafter
      have hlt := h a ha hreceiver x hx hciphertext (by rw [← hafter])
      rw [← hafter] at hlt
      exact absurd hlt (Nat.not_lt.mpr (Nat.le_add_right _ _))
  | new _ _ _ _ | rekey _ _ _ | decrypt _ _ _ | setMaxSkip _ _ | distributionMessage _
  | encrypt _ _ _ => trivial

def alice : GroupSession (Nat × Nat) (Nat × Nat) Nat Nat :=
  GroupSession.new 7 1 (10, 0) 11

def message (s : GroupSession (Nat × Nat) (Nat × Nat) Nat Nat) (text : Bytes) : GroupMessage :=
  (s.encrypt crypto text []).fst

def later (s : GroupSession (Nat × Nat) (Nat × Nat) Nat Nat) (text : Bytes) :
    GroupSession (Nat × Nat) (Nat × Nat) Nat Nat :=
  (s.encrypt crypto text []).snd

/-- Two messages out of order, each delivered twice, and a third behind a rekey. -/
def reordered : List (GroupCall (Nat × Nat) Nat) :=
  [.new 0 1 (10, 0) 11, .new 1 2 (20, 0) 21, .distributionMessage 0,
    .addMember 1 (alice.distributionMessage crypto), .encrypt 0 [65] [], .encrypt 0 [66] [],
    .decrypt 1 (message (later alice [65]) [66]) [], .decrypt 1 (message alice [65]) [],
    .decrypt 1 (message alice [65]) [], .decrypt 1 (message (later alice [65]) [66]) [],
    .rekey 0 (30, 0) 31, .distributionMessage 0,
    .addMember 1 ((alice.rekey (30, 0) 31).distributionMessage crypto), .encrypt 0 [67] [],
    .decrypt 1 (message (alice.rekey (30, 0) 31) [67]) []]

end Plain

def Plain.replayed : List (GroupCall (Nat × Nat) Nat) :=
  [.new 0 1 (10, 0) 11, .new 1 2 (20, 0) 21, .distributionMessage 0,
    .addMember 1 (alice.distributionMessage crypto), .encrypt 0 [65] [],
    .decrypt 1 (message alice [65]) [], .decrypt 1 (message alice [65]) [],
    .addMember 1 (alice.distributionMessage crypto), .decrypt 1 (message alice [65]) []]

end Rabbithole.E2ee
