import Rabbithole.E2ee.Wire
import Rabbithole.Foundation.Dict
import Rabbithole.Foundation.KeyTree
import Rabbithole.Foundation.Sealing

/-!
# Group sessions

Every member encrypts under a chain of its own, and signs with a key of its own.  A
distribution message gives others the chain from where it stands.  Who receives follows the
chain of each member, and keeps the keys of messages that were passed over.
-/

namespace Rabbithole.E2ee

open Foundation List

abbrev GroupId := Array32

abbrev MemberId := Array32

abbrev SigningPublicKey := Array32

abbrev Signature := BitVec (8 * 64)

/-- The third-party primitives. -/
structure SenderCrypto (chain key signing verifying : Type) where
  kdf : ChainKdf chain key
  aead : Aead key
  sign : signing -> Bytes -> Signature
  verify : verifying -> Bytes -> Signature -> Bool
  verifyingKey : signing -> verifying
  toBytes : verifying -> SigningPublicKey
  fromBytes : SigningPublicKey -> Option verifying

structure SenderKeyDistributionMessage (chain : Type) where
  groupId : GroupId
  memberId : MemberId
  iteration : UInt32
  chainKey : chain
  signingPublic : SigningPublicKey
deriving DecidableEq

structure GroupMessage where
  memberId : MemberId
  iteration : UInt32
  ciphertext : Bytes
  signature : Signature
deriving DecidableEq

structure OwnSenderState (chain signing : Type) where
  chainKey : chain
  iteration : UInt32
  signing : signing

/-- A fresh chain and signing key, as they were drawn. -/
def OwnSenderState.generate {chain signing : Type} (chainKey : chain) (key : signing) :
    OwnSenderState chain signing :=
  ⟨chainKey, 0, key⟩

structure PeerSenderState (chain key verifying : Type) where
  chainKey : chain
  iteration : UInt32
  signingPublic : verifying
  skipped : Dict UInt32 key

structure GroupSession (chain key signing verifying : Type) where
  groupId : GroupId
  selfId : MemberId
  own : OwnSenderState chain signing
  peers : Dict MemberId (PeerSenderState chain key verifying)
  maxSkip : UInt32

/-- `u32::saturating_add` of one. -/
def saturatingSucc (n : UInt32) : UInt32 :=
  if n = 0xFFFFFFFF then n else n + 1

def associatedData (groupId : GroupId) (memberId : MemberId) (iteration : UInt32) (ad : Bytes) :
    Bytes :=
  array32.encode groupId ++ (array32.encode memberId ++ (u32.encode iteration ++ ad))

def signingInput (groupId : GroupId) (memberId : MemberId) (iteration : UInt32)
    (ad ciphertext : Bytes) : Bytes :=
  associatedData groupId memberId iteration ad ++
    Codec.littleEndian 8 ciphertext.length ++ ciphertext

section Transcript

variable {groupId groupId' : GroupId} {memberId memberId' : MemberId}
  {iteration iteration' : UInt32} {ad ad' : Bytes}

theorem associatedData_inj
    (h : associatedData groupId memberId iteration ad =
      associatedData groupId' memberId' iteration' ad') :
    groupId = groupId' ∧ memberId = memberId' ∧ iteration = iteration' ∧ ad = ad' := by
  have hgroup := encode_append_inj array32 h
  have hmember := encode_append_inj array32 hgroup.right
  have hiteration := encode_append_inj u32 hmember.right
  exact ⟨hgroup.left, hmember.left, hiteration.left, hiteration.right⟩

def signedTail (ad ciphertext : Bytes) : Bytes :=
  ad ++ (Codec.littleEndian 8 ciphertext.length ++ ciphertext)

theorem signingInput_eq (ciphertext : Bytes) :
    signingInput groupId memberId iteration ad ciphertext =
      associatedData groupId memberId iteration (signedTail ad ciphertext) := by
  unfold signingInput associatedData signedTail
  simp only [append_assoc]

theorem length_signedTail (ad ciphertext : Bytes) :
    (signedTail ad ciphertext).length = ad.length + 8 + ciphertext.length := by
  unfold signedTail
  rw [length_append, length_append, Codec.length_littleEndian, Nat.add_assoc]

/-- No eight bytes but the length's own spell the number of bytes behind them. -/
def SplitsOnce (ad ciphertext : Bytes) : Prop :=
  forall k, k <= ad.length + ciphertext.length -> k ≠ ad.length ->
    ((signedTail ad ciphertext).drop k).take 8 ≠
      Codec.littleEndian 8 (ad.length + ciphertext.length - k)

theorem signedTail_cut {bytes : Bytes} {k behind : Nat} (hbytes : bytes.length = k + 8 + behind)
    (hlength : (bytes.drop k).take 8 = Codec.littleEndian 8 behind) :
    signedTail (bytes.take k) (bytes.drop (k + 8)) = bytes := by
  have hbehind : (bytes.drop (k + 8)).length = behind := by
    rw [length_drop, hbytes, Nat.add_sub_cancel_left]
  unfold signedTail
  rw [hbehind, <- hlength, <- drop_drop, take_append_drop, take_append_drop]

/-- A transcript is that of one message where its bytes have one length in them that is
right: the associated data is not delimited. -/
theorem transcript_of_one_message_iff (groupId : GroupId) (memberId : MemberId)
    (iteration : UInt32) (ad ciphertext : Bytes) :
    (forall groupId' memberId' iteration' ad' ciphertext',
      signingInput groupId' memberId' iteration' ad' ciphertext' =
          signingInput groupId memberId iteration ad ciphertext ->
        groupId' = groupId ∧ memberId' = memberId ∧ iteration' = iteration ∧ ad' = ad ∧
          ciphertext' = ciphertext) <->
      SplitsOnce ad ciphertext := by
  have htail := length_signedTail ad ciphertext
  constructor
  · intro hunique k hk hne hspells
    have hcut := signedTail_cut (by omega) hspells
    have hsame := hunique groupId memberId iteration _ ((signedTail ad ciphertext).drop (k + 8))
      (by rw [signingInput_eq, signingInput_eq, hcut])
    have had := congrArg List.length hsame.right.right.right.left
    rw [length_take] at had
    omega
  · intro honce groupId' memberId' iteration' ad' ciphertext' heq
    rw [signingInput_eq, signingInput_eq] at heq
    rcases associatedData_inj heq with ⟨hgroup, hmember, hiteration, htails⟩
    have hlengths := congrArg List.length htails
    rw [length_signedTail, htail] at hlengths
    by_cases hk : ad'.length = ad.length
    · rcases append_inj htails hk with ⟨had, hbehind⟩
      have hciphertext := append_inj hbehind
        (by rw [Codec.length_littleEndian, Codec.length_littleEndian])
      exact ⟨hgroup, hmember, hiteration, had, hciphertext.right⟩
    · exfalso
      apply honce ad'.length (by omega) hk
      have hbehind : ad.length + ciphertext.length - ad'.length = ciphertext'.length := by omega
      rw [<- htails, hbehind]
      unfold signedTail
      rw [drop_left, take_left' (Codec.length_littleEndian _ _)]

/-- The length of an empty ciphertext is also the end of one of eight bytes. -/
theorem transcript_of_two_messages :
    signingInput 0 0 0 [8, 0, 0, 0, 0, 0, 0, 0] [] =
        signingInput 0 0 0 [] [0, 0, 0, 0, 0, 0, 0, 0] ∧
      ([8, 0, 0, 0, 0, 0, 0, 0] : Bytes) ≠ [] := by
  decide

end Transcript

variable {chain key signing verifying : Type}

/-- The part of `decrypt` behind the signature, on the sender's state. -/
def PeerSenderState.open? (crypto : SenderCrypto chain key signing verifying) (maxSkip : UInt32)
    (peer : PeerSenderState chain key verifying) (msg : GroupMessage) (aeadAd : Bytes) :
    Except Error (Bytes × PeerSenderState chain key verifying) :=
  match peer.skipped.get? msg.iteration with
  | some messageKey =>
      match crypto.aead.openUnder messageKey msg.ciphertext aeadAd with
      | none => .error .decrypt
      | some plaintext =>
          .ok (plaintext, { peer with skipped := peer.skipped.erase msg.iteration })
  | none =>
      if msg.iteration < peer.iteration then .error .decrypt
      else
        let toSkip := msg.iteration - peer.iteration
        if maxSkip < toSkip ∨ maxSkip.toNat < peer.skipped.size + toSkip.toNat then
          .error (.tooManySkipped maxSkip)
        else
          let staged := crypto.kdf.stage id toSkip.toNat peer.iteration peer.chainKey
          let derived := crypto.kdf.derive staged.snd
          match crypto.aead.openUnder derived.snd msg.ciphertext aeadAd with
          | none => .error .decrypt
          | some plaintext =>
              .ok (plaintext,
                { peer with
                  chainKey := derived.fst
                  iteration := saturatingSucc msg.iteration
                  skipped := peer.skipped.insertAll staged.fst })

namespace GroupSession

def defaultMaxSkip : UInt32 := 1000

def new (groupId : GroupId) (selfId : MemberId) (chainKey : chain) (signingKey : signing) :
    GroupSession chain key signing verifying where
  groupId := groupId
  selfId := selfId
  own := OwnSenderState.generate chainKey signingKey
  peers := Dict.empty
  maxSkip := defaultMaxSkip

variable (crypto : SenderCrypto chain key signing verifying)
  (s : GroupSession chain key signing verifying)

def setMaxSkip (maxSkip : UInt32) : GroupSession chain key signing verifying :=
  { s with maxSkip := maxSkip }

def distributionMessage : SenderKeyDistributionMessage chain where
  groupId := s.groupId
  memberId := s.selfId
  iteration := s.own.iteration
  chainKey := s.own.chainKey
  signingPublic := crypto.toBytes (crypto.verifyingKey s.own.signing)

def addMember (dm : SenderKeyDistributionMessage chain) :
    Except Error Unit × GroupSession chain key signing verifying :=
  if dm.groupId ≠ s.groupId then (.error .wrongGroup, s)
  else
    match crypto.fromBytes dm.signingPublic with
    | none => (.error .badSignature, s)
    | some signingPublic =>
        (.ok (),
          { s with
            peers := s.peers.insert dm.memberId
              ⟨dm.chainKey, dm.iteration, signingPublic, Dict.empty⟩ })

def encrypt (plaintext ad : Bytes) : GroupMessage × GroupSession chain key signing verifying :=
  let iteration := s.own.iteration
  let derived := crypto.kdf.derive s.own.chainKey
  let aeadAd := associatedData s.groupId s.selfId iteration ad
  let ciphertext := crypto.aead.sealUnder derived.snd plaintext aeadAd
  let signature := crypto.sign s.own.signing
    (signingInput s.groupId s.selfId iteration ad ciphertext)
  (⟨s.selfId, iteration, ciphertext, signature⟩,
    { s with
      own :=
        { s.own with
          chainKey := derived.fst
          iteration := saturatingSucc s.own.iteration } })

def decrypt (msg : GroupMessage) (ad : Bytes) :
    Except Error Bytes × GroupSession chain key signing verifying :=
  match s.peers.get? msg.memberId with
  | none => (.error .unknownSender, s)
  | some peer =>
      let sigInput := signingInput s.groupId msg.memberId msg.iteration ad msg.ciphertext
      if crypto.verify peer.signingPublic sigInput msg.signature = false then
        (.error .badSignature, s)
      else
        match peer.open? crypto s.maxSkip msg
            (associatedData s.groupId msg.memberId msg.iteration ad) with
        | .error e => (.error e, s)
        | .ok (plaintext, peer) =>
            (.ok plaintext, { s with peers := s.peers.insert msg.memberId peer })

def rekey (chainKey : chain) (signingKey : signing) : GroupSession chain key signing verifying :=
  { s with own := OwnSenderState.generate chainKey signingKey }

end GroupSession

/-!
## What a receiver can open

A message is opened with a key that the receiver has: one it kept, or one that its chain
comes to.  Afterwards it has that key no more.
-/

theorem toNat_saturatingSucc (n : UInt32) :
    (saturatingSucc n).toNat = min (n.toNat + 1) (2 ^ 32 - 1) := by
  unfold saturatingSucc
  split
  · rename_i hmax
    rw [hmax]
    rfl
  · rename_i hless
    have hne : n.toNat ≠ 0xFFFFFFFF := fun heq => hless (UInt32.toNat_inj.mp heq)
    have hlt := n.toNat_lt
    rw [UInt32.toNat_add]
    show (n.toNat + 1) % 2 ^ 32 = _
    omega

namespace PeerSenderState

variable {crypto : SenderCrypto chain key signing verifying}
  {peer peer' : PeerSenderState chain key verifying} {dm : SenderKeyDistributionMessage chain}

/-- A key that the peer's messages can still be opened with. -/
def Holds (crypto : SenderCrypto chain key signing verifying)
    (peer : PeerSenderState chain key verifying) (mk : key) : Prop :=
  (exists n, crypto.kdf.messageKey (crypto.kdf.after n peer.chainKey) = mk) ∨
    exists number, peer.skipped.get? number = some mk

/-- The peer has been followed from a distribution message on, so many messages far. -/
structure Follows (crypto : SenderCrypto chain key signing verifying)
    (peer : PeerSenderState chain key verifying) (dm : SenderKeyDistributionMessage chain)
    (count : Nat) : Prop where
  chainKey : peer.chainKey = crypto.kdf.after count dm.chainKey
  iteration : peer.iteration.toNat = min (dm.iteration.toNat + count) (2 ^ 32 - 1)
  kept : forall number mk, peer.skipped.get? number = some mk ->
    exists j, j < count ∧ number.toNat = dm.iteration.toNat + j ∧
      mk = crypto.kdf.messageKey (crypto.kdf.after j dm.chainKey)

variable {count : Nat} {msg : GroupMessage} {aeadAd plaintext : Bytes}

theorem Follows.holds (hf : Follows crypto peer dm count) {mk : key} (hmk : Holds crypto peer mk) :
    exists j, mk = crypto.kdf.messageKey (crypto.kdf.after j dm.chainKey) := by
  rcases hmk with ⟨n, rfl⟩ | ⟨number, hkept⟩
  · refine ⟨count + n, ?_⟩
    rw [hf.chainKey, ChainKdf.after_add]
  · rcases hf.kept number mk hkept with ⟨j, _, _, hmk⟩
    exact ⟨j, hmk⟩

theorem Follows.not_holds (hideal : crypto.kdf.Ideal) (hendless : crypto.kdf.Endless dm.chainKey)
    (hf : Follows crypto peer dm count) {j : Nat} (hj : j < count)
    (hkept : forall number mk, peer.skipped.get? number = some mk ->
      number.toNat ≠ dm.iteration.toNat + j) :
    ¬ Holds crypto peer (crypto.kdf.messageKey (crypto.kdf.after j dm.chainKey)) := by
  intro hholds
  rcases hholds with ⟨n, hchain⟩ | ⟨number, hget⟩
  · rw [hf.chainKey, ← ChainKdf.after_add] at hchain
    have hsame := ChainKdf.after_inj hideal hendless (hideal.messageKey_injective hchain)
    omega
  · rcases hf.kept number _ hget with ⟨j', _, hnumber, hmk⟩
    have hsame := ChainKdf.after_inj hideal hendless (hideal.messageKey_injective hmk)
    rw [← hsame] at hnumber
    exact hkept number _ hget hnumber

/-- What comes of a message that was opened. -/
structure Opened (crypto : SenderCrypto chain key signing verifying)
    (peer : PeerSenderState chain key verifying) (msg : GroupMessage) (aeadAd plaintext : Bytes)
    (peer' : PeerSenderState chain key verifying) (dm : SenderKeyDistributionMessage chain)
    (mk : key) (count : Nat) : Prop where
  opens : crypto.aead.openUnder mk msg.ciphertext aeadAd = some plaintext
  notBefore : dm.iteration.toNat <= msg.iteration.toNat
  held : Holds crypto peer mk
  spent : ¬ Holds crypto peer' mk
  fewer : forall mk', Holds crypto peer' mk' -> Holds crypto peer mk'
  follows : Follows crypto peer' dm count

theorem opened_of_kept (hideal : crypto.kdf.Ideal) (hendless : crypto.kdf.Endless dm.chainKey)
    (hf : Follows crypto peer dm count) {mk : key}
    (hget : peer.skipped.get? msg.iteration = some mk)
    (hopens : crypto.aead.openUnder mk msg.ciphertext aeadAd = some plaintext) :
    Opened crypto peer msg aeadAd plaintext
      { peer with skipped := peer.skipped.erase msg.iteration } dm mk count := by
  rcases hf.kept _ _ hget with ⟨j, hj, hnumber, hmk⟩
  have hleft : forall number mk', (peer.skipped.erase msg.iteration).get? number = some mk' ->
      number ≠ msg.iteration ∧ peer.skipped.get? number = some mk' := by
    intro number mk' hleft
    rw [Dict.get?_erase] at hleft
    split at hleft
    · cases hleft
    · rename_i hne
      exact ⟨hne, hleft⟩
  have hfollows : Follows crypto
      { peer with skipped := peer.skipped.erase msg.iteration } dm count := by
    constructor
    · exact hf.chainKey
    · exact hf.iteration
    · intro number mk' hget'
      exact hf.kept number mk' (hleft number mk' hget').right
  constructor
  · exact hopens
  · omega
  · exact Or.inr ⟨_, hget⟩
  · rw [hmk]
    apply hfollows.not_holds hideal hendless hj
    intro number mk' hget' heq
    apply (hleft number mk' hget').left
    apply UInt32.toNat_inj.mp
    rw [heq, hnumber]
  · intro mk' hholds
    rcases hholds with hchain | ⟨number, hget'⟩
    · exact Or.inl hchain
    · exact Or.inr ⟨number, (hleft number mk' hget').right⟩
  · exact hfollows

theorem Follows.stage (hf : Follows crypto peer dm count) (hle : peer.iteration <= msg.iteration)
    {number : UInt32} {mk : key}
    (hstaged : (number, mk) ∈ (crypto.kdf.stage id (msg.iteration - peer.iteration).toNat
      peer.iteration peer.chainKey).fst) :
    exists i, i < (msg.iteration - peer.iteration).toNat ∧
      number.toNat = dm.iteration.toNat + (count + i) ∧
      mk = crypto.kdf.messageKey (crypto.kdf.after (count + i) dm.chainKey) := by
  rcases ChainKdf.mem_stage hstaged with ⟨i, hi, heq⟩
  cases heq
  refine ⟨i, hi, ?_, ?_⟩
  · have hiteration := hf.iteration
    have hskip := UInt32.toNat_sub_of_le _ _ hle
    have hlt := msg.iteration.toNat_lt
    have hsmall : i % 2 ^ 32 = i := Nat.mod_eq_of_lt (by omega)
    show (peer.iteration + UInt32.ofNat i).toNat = _
    rw [UInt32.toNat_add, UInt32.toNat_ofNat', hsmall]
    omega
  · rw [hf.chainKey, ChainKdf.after_add]

section

variable (hideal : crypto.kdf.Ideal) (hendless : crypto.kdf.Endless dm.chainKey)
  (hf : Follows crypto peer dm count)
include hideal hendless hf

theorem opened_of_ahead (hle : peer.iteration <= msg.iteration) {toSkip : Nat}
    (hskip : toSkip = (msg.iteration - peer.iteration).toNat) (hopens : crypto.aead.openUnder
      (crypto.kdf.messageKey (crypto.kdf.after toSkip peer.chainKey)) msg.ciphertext aeadAd =
        some plaintext) : Opened crypto peer msg aeadAd plaintext
      { peer with
        chainKey := crypto.kdf.next (crypto.kdf.after toSkip peer.chainKey)
        iteration := saturatingSucc msg.iteration
        skipped := peer.skipped.insertAll
          (crypto.kdf.stage id toSkip peer.iteration peer.chainKey).fst }
      dm (crypto.kdf.messageKey (crypto.kdf.after toSkip peer.chainKey)) (count + toSkip + 1) := by
  have hiteration := hf.iteration
  have hnumber := UInt32.toNat_sub_of_le _ _ hle
  rw [← hskip] at hnumber
  have hplace : crypto.kdf.after toSkip peer.chainKey =
      crypto.kdf.after (count + toSkip) dm.chainKey := by
    rw [hf.chainKey, ChainKdf.after_add]
  have hleft : forall number mk, (peer.skipped.insertAll
      (crypto.kdf.stage id toSkip peer.iteration peer.chainKey).fst).get? number = some mk ->
        exists j, j < count + toSkip ∧ number.toNat = dm.iteration.toNat + j ∧
          mk = crypto.kdf.messageKey (crypto.kdf.after j dm.chainKey) := by
    intro number mk hget
    rcases Dict.get?_insertAll hget with hstaged | hkept
    · rw [hskip] at hstaged
      rcases hf.stage hle hstaged with ⟨i, hi, hplaced⟩
      exact ⟨count + i, by omega, hplaced⟩
    · rcases hf.kept number mk hkept with ⟨j, hj, hplaced⟩
      exact ⟨j, by omega, hplaced⟩
  have hfollows : Follows crypto
      { peer with
        chainKey := crypto.kdf.next (crypto.kdf.after toSkip peer.chainKey)
        iteration := saturatingSucc msg.iteration
        skipped := peer.skipped.insertAll
          (crypto.kdf.stage id toSkip peer.iteration peer.chainKey).fst }
      dm (count + toSkip + 1) := by
    constructor
    · show crypto.kdf.next _ = _
      rw [hplace, ChainKdf.next_after]
    · show (saturatingSucc msg.iteration).toNat = _
      have hlt := msg.iteration.toNat_lt
      rw [toNat_saturatingSucc]
      rw [UInt32.le_iff_toNat_le] at hle
      omega
    · intro number mk hget
      rcases hleft number mk hget with ⟨j, hj, hplaced⟩
      exact ⟨j, by omega, hplaced⟩
  constructor
  · exact hopens
  · have hlt := dm.iteration.toNat_lt
    rw [UInt32.le_iff_toNat_le] at hle
    omega
  · exact Or.inl ⟨toSkip, rfl⟩
  · rw [congrArg crypto.kdf.messageKey hplace]
    apply hfollows.not_holds hideal hendless (Nat.lt_succ_self _)
    intro number mk hget heq
    rcases hleft number mk hget with ⟨j, hj, hplaced, _⟩
    omega
  · intro mk hholds
    rcases hholds with ⟨n, hchain⟩ | ⟨number, hget⟩
    · refine Or.inl ⟨toSkip + 1 + n, ?_⟩
      rw [← hchain, ChainKdf.after_add, ← ChainKdf.next_after]
    · rcases Dict.get?_insertAll hget with hstaged | hkept
      · rcases ChainKdf.mem_stage hstaged with ⟨i, _, heq⟩
        cases heq
        exact Or.inl ⟨i, rfl⟩
      · exact Or.inr ⟨number, hkept⟩
  · exact hfollows

theorem open?_ok {maxSkip : UInt32}
    (h : peer.open? crypto maxSkip msg aeadAd = .ok (plaintext, peer')) :
    exists mk count', Opened crypto peer msg aeadAd plaintext peer' dm mk count' := by
  unfold open? at h
  split at h
  · rename_i mk hget
    split at h
    · cases h
    · rename_i opened hopens
      cases h
      exact ⟨mk, count, opened_of_kept hideal hendless hf hget hopens⟩
  · split at h
    · cases h
    · rename_i hnotBefore
      dsimp only at h
      split at h
      · cases h
      · split at h
        · cases h
        · rename_i opened hopens
          cases h
          rw [ChainKdf.stage_snd] at hopens ⊢
          exact ⟨_, _, opened_of_ahead hideal hendless hf (UInt32.not_lt.mp hnotBefore) rfl
            hopens⟩

end

end PeerSenderState

end Rabbithole.E2ee
