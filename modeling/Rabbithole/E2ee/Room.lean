import Rabbithole.E2ee.Group
import Rabbithole.Foundation.Run

/-!
# A room

Any number of sessions of one group.  Distribution messages come late or more than once, and
a member is asked to decrypt whatever anyone makes up.  Beside the sessions stands what has
happened: keys drawn, distribution messages produced and registered, messages encrypted and
accepted.
-/

namespace Rabbithole.E2ee

open Foundation List

variable {chain key signing verifying : Type}

structure GroupSent (chain : Type) where
  member : MemberId
  iteration : UInt32
  chainKey : chain
  ad : Bytes
  plaintext : Bytes
  message : GroupMessage

structure GroupAccepted (chain : Type) where
  receiver : Nat
  message : GroupMessage
  ad : Bytes
  plaintext : Bytes
  registered : Option (SenderKeyDistributionMessage chain)

structure Room (chain key signing verifying : Type) where
  sessions : Dict Nat (GroupSession chain key signing verifying)
  drawn : List (MemberId × chain)
  produced : List (SenderKeyDistributionMessage chain)
  registered : Dict (Nat × MemberId) (SenderKeyDistributionMessage chain)
  sent : List (GroupSent chain)
  accepted : List (GroupAccepted chain)

inductive GroupCall (chain signing : Type) where
  | new (i : Nat) (selfId : MemberId) (chainKey : chain) (signingKey : signing)
  | setMaxSkip (i : Nat) (maxSkip : UInt32)
  | distributionMessage (i : Nat)
  | addMember (i : Nat) (dm : SenderKeyDistributionMessage chain)
  | encrypt (i : Nat) (plaintext ad : Bytes)
  | decrypt (i : Nat) (msg : GroupMessage) (ad : Bytes)
  | rekey (i : Nat) (chainKey : chain) (signingKey : signing)

namespace Room

def empty : Room chain key signing verifying where
  sessions := Dict.empty
  drawn := []
  produced := []
  registered := Dict.empty
  sent := []
  accepted := []

variable [DecidableEq chain] (crypto : SenderCrypto chain key signing verifying)
  (groupId : GroupId)

/-- What a session of the room is asked for. -/
def ask (w : Room chain key signing verifying) (i : Nat)
    (s : GroupSession chain key signing verifying) :
    GroupCall chain signing -> Option (Room chain key signing verifying)
  | .new _ _ _ _ => none
  | .setMaxSkip _ maxSkip =>
      some { w with sessions := w.sessions.insert i (s.setMaxSkip maxSkip) }
  | .distributionMessage _ =>
      some { w with produced := s.distributionMessage crypto :: w.produced }
  | .addMember _ dm =>
      if dm ∈ w.produced then
        match s.addMember crypto dm with
        | (.error _, s') => some { w with sessions := w.sessions.insert i s' }
        | (.ok (), s') =>
            some
              { w with
                sessions := w.sessions.insert i s'
                registered := w.registered.insert (i, dm.memberId) dm }
      else none
  | .encrypt _ plaintext ad =>
      let encrypted := s.encrypt crypto plaintext ad
      some
        { w with
          sessions := w.sessions.insert i encrypted.snd
          sent := ⟨s.selfId, s.own.iteration, s.own.chainKey, ad, plaintext, encrypted.fst⟩ ::
            w.sent }
  | .decrypt _ msg ad =>
      match s.decrypt crypto msg ad with
      | (.error _, s') => some { w with sessions := w.sessions.insert i s' }
      | (.ok plaintext, s') =>
          some
            { w with
              sessions := w.sessions.insert i s'
              accepted := ⟨i, msg, ad, plaintext, w.registered.get? (i, msg.memberId)⟩ ::
                w.accepted }
  | .rekey _ chainKey signingKey =>
      some
        { w with
          sessions := w.sessions.insert i (s.rekey chainKey signingKey)
          drawn := (s.selfId, chainKey) :: w.drawn }

def step (w : Room chain key signing verifying) (call : GroupCall chain signing) :
    Option (Room chain key signing verifying) :=
  match call with
  | .new i selfId chainKey signingKey =>
      match w.sessions.get? i with
      | some _ => none
      | none =>
          some
            { w with
              sessions := w.sessions.insert i
                (GroupSession.new groupId selfId chainKey signingKey)
              drawn := (selfId, chainKey) :: w.drawn }
  | .setMaxSkip i _ | .distributionMessage i | .addMember i _ | .encrypt i _ _ |
    .decrypt i _ _ | .rekey i _ _ =>
      match w.sessions.get? i with
      | none => none
      | some s => w.ask crypto i s call

end Room

/-!
## Ideal primitives

A chain key that is drawn is on no chain that there is, and a ciphertext that opens under a
key of a chain that was drawn is one that a session has made.
-/

def GroupSent.sealed (crypto : SenderCrypto chain key signing verifying) (groupId : GroupId)
    (x : GroupSent chain) : Sealed key where
  key := crypto.kdf.messageKey x.chainKey
  plaintext := x.plaintext
  ad := associatedData groupId x.member x.iteration x.ad

def SenderCrypto.Fresh (crypto : SenderCrypto chain key signing verifying)
    (drawn : List (MemberId × chain)) (chainKey : chain) : Prop :=
  crypto.kdf.Endless chainKey ∧ forall x, x ∈ drawn -> crypto.kdf.Apart x.snd chainKey

/-- The message key is on a chain that was drawn. -/
def Room.Secret (crypto : SenderCrypto chain key signing verifying)
    (w : Room chain key signing verifying) (mk : key) : Prop :=
  exists x n, x ∈ w.drawn ∧ crypto.kdf.messageKey (crypto.kdf.after n x.snd) = mk

def Room.Ideal (crypto : SenderCrypto chain key signing verifying) (groupId : GroupId)
    (w : Room chain key signing verifying) : GroupCall chain signing -> Prop
  | .new _ _ chainKey _ => crypto.Fresh w.drawn chainKey
  | .rekey _ chainKey _ => crypto.Fresh w.drawn chainKey
  | .decrypt _ msg _ =>
      crypto.aead.Unforged (w.Secret crypto)
        (fun s => exists x, x ∈ w.sent ∧ x.sealed crypto groupId = s) msg.ciphertext
  | _ => True

structure SenderCrypto.Ideal (crypto : SenderCrypto chain key signing verifying) : Prop where
  kdf : crypto.kdf.Ideal
  aead : crypto.aead.Ideal

/-!
## What a room keeps
-/

section Sound

variable (crypto : SenderCrypto chain key signing verifying) (groupId : GroupId)

/-- The chain key is on a chain that was drawn for the member. -/
def Room.OnChain (w : Room chain key signing verifying) (member : MemberId) (ck : chain) : Prop :=
  exists origin n, (member, origin) ∈ w.drawn ∧ crypto.kdf.after n origin = ck

/-- A message that was accepted, as its sender made it, and not before the sender key. -/
def GroupAccepted.Genuine (w : Room chain key signing verifying) (a : GroupAccepted chain) : Prop :=
  (exists x, x ∈ w.sent ∧ x.member = a.message.memberId ∧
    x.iteration = a.message.iteration ∧ x.ad = a.ad ∧ x.plaintext = a.plaintext ∧
    x.message.ciphertext = a.message.ciphertext) ∧
  exists dm, a.registered = some dm ∧ dm.memberId = a.message.memberId ∧
    dm.iteration <= a.message.iteration

structure Room.SessionSound (w : Room chain key signing verifying) (i : Nat)
    (s : GroupSession chain key signing verifying) : Prop where
  group : s.groupId = groupId
  own : w.OnChain crypto s.selfId s.own.chainKey
  peers : forall member peer, s.peers.get? member = some peer ->
    exists dm count, w.registered.get? (i, member) = some dm ∧ dm.memberId = member ∧
      w.OnChain crypto member dm.chainKey ∧ peer.Follows crypto dm count

structure Room.Sound (w : Room chain key signing verifying) : Prop where
  endless : forall x, x ∈ w.drawn -> crypto.kdf.Endless x.snd
  apart : forall x, x ∈ w.drawn -> forall y, y ∈ w.drawn -> forall m n,
    crypto.kdf.after m x.snd = crypto.kdf.after n y.snd -> x = y
  sessions : forall i s, w.sessions.get? i = some s -> w.SessionSound crypto groupId i s
  produced : forall dm, dm ∈ w.produced -> w.OnChain crypto dm.memberId dm.chainKey
  sent : forall x, x ∈ w.sent -> x.message.ciphertext =
    crypto.aead.ciphertext (x.sealed crypto groupId)
  accepted : forall a, a ∈ w.accepted -> a.Genuine w

variable {crypto} {groupId} {w w' : Room chain key signing verifying}

variable {s : GroupSession chain key signing verifying} {i : Nat} {ck : chain} {member : MemberId}

theorem Room.OnChain.mono (h : w.OnChain crypto member ck) (hdrawn : w.drawn ⊆ w'.drawn) :
    w'.OnChain crypto member ck := by
  rcases h with ⟨origin, n, horigin, hck⟩
  exact ⟨origin, n, hdrawn horigin, hck⟩

theorem Room.OnChain.next (h : w.OnChain crypto member ck) :
    w.OnChain crypto member (crypto.kdf.next ck) := by
  rcases h with ⟨origin, n, horigin, rfl⟩
  exact ⟨origin, n + 1, horigin, (ChainKdf.next_after n origin).symm⟩

theorem Room.OnChain.after (h : w.OnChain crypto member ck) (n : Nat) :
    w.OnChain crypto member (crypto.kdf.after n ck) := by
  rcases h with ⟨origin, m, horigin, rfl⟩
  exact ⟨origin, m + n, horigin, ChainKdf.after_add m n origin⟩

theorem Room.Sound.member_unique (hs : w.Sound crypto groupId) {member' : MemberId}
    (h : w.OnChain crypto member ck) (h' : w.OnChain crypto member' ck) : member = member' := by
  rcases h with ⟨origin, m, horigin, rfl⟩
  rcases h' with ⟨origin', n, horigin', heq⟩
  exact congrArg Prod.fst (hs.apart _ horigin _ horigin' m n heq.symm)

theorem Room.Sound.endless_of_onChain (hcrypto : crypto.Ideal) (hs : w.Sound crypto groupId)
    (h : w.OnChain crypto member ck) : crypto.kdf.Endless ck := by
  rcases h with ⟨origin, m, horigin, rfl⟩
  intro n heq
  rw [← ChainKdf.after_add] at heq
  have hsame := ChainKdf.after_inj hcrypto.kdf (hs.endless _ horigin) heq
  omega

theorem GroupAccepted.Genuine.mono {a : GroupAccepted chain} (h : a.Genuine w)
    (hsent : w.sent ⊆ w'.sent) : a.Genuine w' := by
  rcases h with ⟨⟨x, hx, hsame⟩, hregistered⟩
  exact ⟨⟨x, hsent hx, hsame⟩, hregistered⟩

theorem Room.SessionSound.mono (h : w.SessionSound crypto groupId i s) (hdrawn : w.drawn ⊆ w'.drawn)
    (hregistered : forall member, w'.registered.get? (i, member) = w.registered.get? (i, member)) :
    w'.SessionSound crypto groupId i s where
  group := h.group
  own := h.own.mono hdrawn
  peers member peer hpeer := by
    rcases h.peers member peer hpeer with ⟨dm, count, hget, hmember, honChain, hfollows⟩
    exact ⟨dm, count, (hregistered member).trans hget, hmember, honChain.mono hdrawn, hfollows⟩

/-!
## One call
-/

theorem Room.Sound.draw (hcrypto : crypto.Ideal) (hs : w.Sound crypto groupId)
    (hfresh : crypto.Fresh w.drawn ck) :
    Room.Sound crypto groupId { w with drawn := (member, ck) :: w.drawn } where
  endless x hx := by
    rcases mem_cons.mp hx with rfl | hx
    · exact hfresh.left
    · exact hs.endless x hx
  apart x hx y hy m n heq := by
    rcases mem_cons.mp hx with rfl | hx
    · rcases mem_cons.mp hy with rfl | hy
      · rfl
      · exact absurd heq.symm ((hfresh.right y hy).after_ne hcrypto.kdf n m)
    · rcases mem_cons.mp hy with rfl | hy
      · exact absurd heq ((hfresh.right x hx).after_ne hcrypto.kdf m n)
      · exact hs.apart x hx y hy m n heq
  sessions i s hget := (hs.sessions i s hget).mono (subset_cons_self _ _) (fun _ => rfl)
  produced dm hdm := (hs.produced dm hdm).mono (subset_cons_self _ _)
  sent := hs.sent
  accepted := hs.accepted

/-- A session changes, and something is noted beside it. -/
structure Room.Changes (crypto : SenderCrypto chain key signing verifying) (groupId : GroupId)
    (w w' : Room chain key signing verifying) (i : Nat)
    (s : GroupSession chain key signing verifying) : Prop where
  sessions : w'.sessions = w.sessions.insert i s
  session : w'.SessionSound crypto groupId i s
  drawn : w'.drawn = w.drawn
  registered : forall j member, j ≠ i ->
    w'.registered.get? (j, member) = w.registered.get? (j, member)
  produced : forall dm, dm ∈ w'.produced ->
    dm ∈ w.produced ∨ w.OnChain crypto dm.memberId dm.chainKey
  sent : forall x, x ∈ w'.sent ->
    x ∈ w.sent ∨ x.message.ciphertext = crypto.aead.ciphertext (x.sealed crypto groupId)
  grows : w.sent ⊆ w'.sent
  accepted : forall a, a ∈ w'.accepted -> a ∈ w.accepted ∨ a.Genuine w'

theorem Room.Sound.change (hs : w.Sound crypto groupId) (h : Room.Changes crypto groupId w w' i s) :
    w'.Sound crypto groupId where
  endless := by
    rw [h.drawn]
    exact hs.endless
  apart := by
    rw [h.drawn]
    exact hs.apart
  sessions j t hget := by
    rw [h.sessions, Dict.get?_insert] at hget
    split at hget
    · rename_i hsame
      cases hget
      rw [hsame]
      exact h.session
    · rename_i hother
      exact (hs.sessions j t hget).mono (by rw [h.drawn]; exact Subset.refl _)
        (fun member => h.registered j member hother)
  produced dm hdm := by
    rcases h.produced dm hdm with hold | hnew
    · exact (hs.produced dm hold).mono (by rw [h.drawn]; exact Subset.refl _)
    · exact hnew.mono (by rw [h.drawn]; exact Subset.refl _)
  sent x hx := by
    rcases h.sent x hx with hold | hnew
    · exact hs.sent x hold
    · exact hnew
  accepted a ha := by
    rcases h.accepted a ha with hold | hnew
    · exact (hs.accepted a hold).mono h.grows
    · exact hnew

theorem Room.changes_session (hsession : w.SessionSound crypto groupId i s) :
    Room.Changes crypto groupId w { w with sessions := w.sessions.insert i s } i s where
  sessions := rfl
  session := ⟨hsession.group, hsession.own, hsession.peers⟩
  drawn := rfl
  registered _ _ _ := rfl
  produced _ hdm := Or.inl hdm
  sent _ hx := Or.inl hx
  grows := Subset.refl _
  accepted _ ha := Or.inl ha

theorem GroupSession.addMember_cases {s' : GroupSession chain key signing verifying}
    {dm : SenderKeyDistributionMessage chain} {result : Except Error Unit}
    (h : s.addMember crypto dm = (result, s')) :
    (exists e, result = .error e ∧ s' = s) ∨
      exists signingPublic, result = .ok () ∧
        s' =
          { s with
            peers := s.peers.insert dm.memberId
              ⟨dm.chainKey, dm.iteration, signingPublic, Dict.empty⟩ } := by
  unfold GroupSession.addMember at h
  split at h
  · cases h
    exact Or.inl ⟨_, rfl, rfl⟩
  · split at h
    · cases h
      exact Or.inl ⟨_, rfl, rfl⟩
    · rename_i signingPublic _
      cases h
      exact Or.inr ⟨signingPublic, rfl, rfl⟩

theorem GroupSession.decrypt_cases {s' : GroupSession chain key signing verifying}
    {msg : GroupMessage} {ad : Bytes} {result : Except Error Bytes}
    (h : s.decrypt crypto msg ad = (result, s')) :
    (exists e, result = .error e ∧ s' = s) ∨
      exists peer plaintext peer', s.peers.get? msg.memberId = some peer ∧
        peer.open? crypto s.maxSkip msg
          (associatedData s.groupId msg.memberId msg.iteration ad) = .ok (plaintext, peer') ∧
        result = .ok plaintext ∧ s' = { s with peers := s.peers.insert msg.memberId peer' } := by
  unfold GroupSession.decrypt at h
  split at h
  · cases h
    exact Or.inl ⟨_, rfl, rfl⟩
  · rename_i peer hpeer
    dsimp only at h
    split at h
    · cases h
      exact Or.inl ⟨_, rfl, rfl⟩
    · split at h
      · cases h
        exact Or.inl ⟨_, rfl, rfl⟩
      · rename_i plaintext peer' hopen
        cases h
        exact Or.inr ⟨peer, plaintext, peer', hpeer, hopen, rfl, rfl⟩

theorem Room.Sound.secret (hs : w.Sound crypto groupId) (hget : w.sessions.get? i = some s)
    {peer : PeerSenderState chain key verifying} (hpeer : s.peers.get? member = some peer)
    {mk : key} (hholds : peer.Holds crypto mk) : w.Secret crypto mk := by
  rcases (hs.sessions i s hget).peers member peer hpeer with
    ⟨dm, count, _, _, honChain, hfollows⟩
  rcases hfollows.holds hholds with ⟨j, rfl⟩
  rcases honChain.after j with ⟨origin, n, horigin, hplace⟩
  exact ⟨_, n, horigin, congrArg crypto.kdf.messageKey hplace⟩

theorem Room.Sound.opened (hcrypto : crypto.Ideal) (hs : w.Sound crypto groupId) {i : Nat}
    {s : GroupSession chain key signing verifying} (hget : w.sessions.get? i = some s)
    {member : MemberId} {peer peer' : PeerSenderState chain key verifying}
    (hpeer : s.peers.get? member = some peer) {msg : GroupMessage} {aeadAd plaintext : Bytes}
    (hopen : peer.open? crypto s.maxSkip msg aeadAd = .ok (plaintext, peer')) :
    exists dm mk count, w.registered.get? (i, member) = some dm ∧ dm.memberId = member ∧
      w.OnChain crypto member dm.chainKey ∧
      PeerSenderState.Opened crypto peer msg aeadAd plaintext peer' dm mk count := by
  rcases (hs.sessions i s hget).peers member peer hpeer with
    ⟨dm, count, hregistered, hmember, honChain, hfollows⟩
  rcases PeerSenderState.open?_ok hcrypto.kdf (hs.endless_of_onChain hcrypto honChain) hfollows
    hopen with ⟨mk, count', hopened⟩
  exact ⟨dm, mk, count', hregistered, hmember, honChain, hopened⟩

theorem GroupSession.encrypt_ciphertext (s : GroupSession chain key signing verifying)
    (plaintext ad : Bytes) :
    (s.encrypt crypto plaintext ad).fst.ciphertext =
      crypto.aead.ciphertext (GroupSent.sealed crypto s.groupId
        ⟨s.selfId, s.own.iteration, s.own.chainKey, ad, plaintext,
          (s.encrypt crypto plaintext ad).fst⟩) := rfl

section

variable (hs : w.Sound crypto groupId) (hget : w.sessions.get? i = some s)
include hs hget

theorem Room.Sound.distributionMessage : Room.Sound crypto groupId
      { w with produced := s.distributionMessage crypto :: w.produced } where
  endless := hs.endless
  apart := hs.apart
  sessions j t hget' := (hs.sessions j t hget').mono (Subset.refl _) (fun _ => rfl)
  produced dm hdm := by
    rcases mem_cons.mp hdm with rfl | hdm
    · exact (hs.sessions i s hget).own.mono (Subset.refl _)
    · exact (hs.produced dm hdm).mono (Subset.refl _)
  sent := hs.sent
  accepted := hs.accepted

theorem Room.Sound.addMember {dm : SenderKeyDistributionMessage chain} (hproduced : dm ∈ w.produced)
    (signingPublic : verifying) : Room.Sound crypto groupId
      { w with
        sessions := w.sessions.insert i
          { s with
            peers := s.peers.insert dm.memberId
              ⟨dm.chainKey, dm.iteration, signingPublic, Dict.empty⟩ }
        registered := w.registered.insert (i, dm.memberId) dm } := by
  have hsession := hs.sessions i s hget
  refine hs.change
    { sessions := rfl
      session := ⟨hsession.group, hsession.own, ?_⟩
      drawn := rfl
      registered := ?_
      produced := fun _ hdm => Or.inl hdm
      sent := fun _ hx => Or.inl hx
      grows := Subset.refl _
      accepted := fun _ ha => Or.inl ha }
  · intro member peer hpeer
    rw [Dict.get?_insert] at hpeer
    split at hpeer
    · rename_i hmember
      cases hpeer
      refine ⟨dm, 0, ?_, hmember.symm, ?_, ⟨rfl, ?_, fun _ _ hkept => by cases hkept⟩⟩
      · rw [Dict.get?_insert, if_pos (by rw [hmember])]
      · rw [hmember]
        exact hs.produced dm hproduced
      · have hlt := dm.iteration.toNat_lt
        show dm.iteration.toNat = _
        omega
    · rename_i hother
      rcases hsession.peers member peer hpeer with ⟨dm', count, hregistered, hrest⟩
      refine ⟨dm', count, ?_, hrest⟩
      rw [Dict.get?_insert, if_neg (fun heq => hother (congrArg Prod.snd heq))]
      exact hregistered
  · intro j member hother
    rw [Dict.get?_insert, if_neg (fun heq => hother (congrArg Prod.fst heq))]

theorem Room.Sound.encrypt (plaintext ad : Bytes) : Room.Sound crypto groupId
      { w with
        sessions := w.sessions.insert i (s.encrypt crypto plaintext ad).snd
        sent := ⟨s.selfId, s.own.iteration, s.own.chainKey, ad, plaintext,
          (s.encrypt crypto plaintext ad).fst⟩ :: w.sent } := by
  have hsession := hs.sessions i s hget
  refine hs.change
    { sessions := rfl
      session := ⟨hsession.group, hsession.own.next, hsession.peers⟩
      drawn := rfl
      registered := fun _ _ _ => rfl
      produced := fun _ hdm => Or.inl hdm
      sent := ?_
      grows := subset_cons_self _ _
      accepted := fun _ ha => Or.inl ha }
  intro x hx
  rcases mem_cons.mp hx with rfl | hx
  · right
    rw [GroupSession.encrypt_ciphertext, hsession.group]
  · exact Or.inl hx

end

section

variable (hcrypto : crypto.Ideal) (hs : w.Sound crypto groupId)
include hcrypto hs

theorem Room.Sound.decrypt (hget : w.sessions.get? i = some s) {msg : GroupMessage}
    {ad plaintext : Bytes} (hunforged : crypto.aead.Unforged (w.Secret crypto)
      (fun m => exists x, x ∈ w.sent ∧ x.sealed crypto groupId = m) msg.ciphertext)
    {peer peer' : PeerSenderState chain key verifying}
    (hpeer : s.peers.get? msg.memberId = some peer) (hopen : peer.open? crypto s.maxSkip msg
      (associatedData s.groupId msg.memberId msg.iteration ad) = .ok (plaintext, peer')) :
    Room.Sound crypto groupId
      { w with
        sessions := w.sessions.insert i { s with peers := s.peers.insert msg.memberId peer' }
        accepted := ⟨i, msg, ad, plaintext, w.registered.get? (i, msg.memberId)⟩ ::
          w.accepted } := by
  have hsession := hs.sessions i s hget
  rcases hs.opened hcrypto hget hpeer hopen with
    ⟨dm, mk, count, hregistered, hmember, honChain, hopened⟩
  refine hs.change
    { sessions := rfl
      session := ⟨hsession.group, hsession.own, ?_⟩
      drawn := rfl
      registered := fun _ _ _ => rfl
      produced := fun _ hdm => Or.inl hdm
      sent := fun _ hx => Or.inl hx
      grows := Subset.refl _
      accepted := ?_ }
  · intro member p hp
    rw [Dict.get?_insert] at hp
    split at hp
    · rename_i hsame
      cases hp
      rw [hsame]
      exact ⟨dm, count, hregistered, hmember, honChain, hopened.follows⟩
    · exact hsession.peers member p hp
  · intro a ha
    rcases mem_cons.mp ha with rfl | ha
    · right
      rcases Aead.made_of_open hcrypto.aead hunforged (hs.secret hget hpeer hopened.held)
          hopened.opens with
        ⟨⟨x, hx, hsealed⟩, hciphertext⟩
      have hfields := Sealed.mk.inj hsealed
      rw [hsession.group] at hfields
      rcases associatedData_inj hfields.right.right with ⟨-, hxmember, hxiteration, hxad⟩
      refine ⟨⟨x, hx, hxmember, hxiteration, hxad, hfields.right.left, ?_⟩, dm, hregistered,
        hmember, UInt32.le_iff_toNat_le.mpr hopened.notBefore⟩
      rw [hs.sent x hx, hsealed]
      exact hciphertext
    · exact Or.inl ha

theorem Room.Sound.rekey (hget : w.sessions.get? i = some s) (hfresh : crypto.Fresh w.drawn ck)
    (signingKey : signing) : Room.Sound crypto groupId
      { w with
        sessions := w.sessions.insert i (s.rekey ck signingKey)
        drawn := (s.selfId, ck) :: w.drawn } := by
  have hdrawn : Room.Sound crypto groupId { w with drawn := (s.selfId, ck) :: w.drawn } :=
    hs.draw hcrypto hfresh
  have hsession := hdrawn.sessions i s hget
  exact hdrawn.change (Room.changes_session
    ⟨hsession.group, ⟨ck, 0, mem_cons_self, rfl⟩, hsession.peers⟩)

theorem Room.Sound.new (hfresh : crypto.Fresh w.drawn ck) (selfId : MemberId)
    (signingKey : signing) : Room.Sound crypto groupId
      { w with
        sessions := w.sessions.insert i (GroupSession.new groupId selfId ck signingKey)
        drawn := (selfId, ck) :: w.drawn } := by
  have hdrawn : Room.Sound crypto groupId { w with drawn := (selfId, ck) :: w.drawn } :=
    hs.draw hcrypto hfresh
  exact hdrawn.change (Room.changes_session
    ⟨rfl, ⟨ck, 0, mem_cons_self, rfl⟩, nofun⟩)

end

/-!
## What a call comes to
-/

variable [DecidableEq chain]

inductive Room.Happens (crypto : SenderCrypto chain key signing verifying) (groupId : GroupId)
    (w : Room chain key signing verifying) :
    GroupCall chain signing -> Room chain key signing verifying -> Prop where
  | new (i : Nat) (selfId : MemberId) (ck : chain) (signingKey : signing)
      (hnone : w.sessions.get? i = none) :
      Happens crypto groupId w (.new i selfId ck signingKey)
        { w with
          sessions := w.sessions.insert i (GroupSession.new groupId selfId ck signingKey)
          drawn := (selfId, ck) :: w.drawn }
  | rekeyed {i : Nat} {s : GroupSession chain key signing verifying}
      (hget : w.sessions.get? i = some s) (ck : chain) (signingKey : signing) :
      Happens crypto groupId w (.rekey i ck signingKey)
        { w with
          sessions := w.sessions.insert i (s.rekey ck signingKey)
          drawn := (s.selfId, ck) :: w.drawn }
  | bounded {i : Nat} {s : GroupSession chain key signing verifying}
      (hget : w.sessions.get? i = some s) (maxSkip : UInt32) :
      Happens crypto groupId w (.setMaxSkip i maxSkip)
        { w with sessions := w.sessions.insert i (s.setMaxSkip maxSkip) }
  | produced {i : Nat} {s : GroupSession chain key signing verifying}
      (hget : w.sessions.get? i = some s) :
      Happens crypto groupId w (.distributionMessage i)
        { w with produced := s.distributionMessage crypto :: w.produced }
  | failed {call : GroupCall chain signing} {i : Nat}
      {s : GroupSession chain key signing verifying} (hget : w.sessions.get? i = some s) :
      Happens crypto groupId w call { w with sessions := w.sessions.insert i s }
  | added {i : Nat} {s : GroupSession chain key signing verifying}
      (hget : w.sessions.get? i = some s) {dm : SenderKeyDistributionMessage chain}
      (hproduced : dm ∈ w.produced) (signingPublic : verifying) :
      Happens crypto groupId w (.addMember i dm)
        { w with
          sessions := w.sessions.insert i
            { s with
              peers := s.peers.insert dm.memberId
                ⟨dm.chainKey, dm.iteration, signingPublic, Dict.empty⟩ }
          registered := w.registered.insert (i, dm.memberId) dm }
  | encrypted {i : Nat} {s : GroupSession chain key signing verifying}
      (hget : w.sessions.get? i = some s) (plaintext ad : Bytes) :
      Happens crypto groupId w (.encrypt i plaintext ad)
        { w with
          sessions := w.sessions.insert i (s.encrypt crypto plaintext ad).snd
          sent := ⟨s.selfId, s.own.iteration, s.own.chainKey, ad, plaintext,
            (s.encrypt crypto plaintext ad).fst⟩ :: w.sent }
  | decrypted {i : Nat} {s : GroupSession chain key signing verifying}
      (hget : w.sessions.get? i = some s) {msg : GroupMessage} {ad plaintext : Bytes}
      {peer peer' : PeerSenderState chain key verifying}
      (hpeer : s.peers.get? msg.memberId = some peer)
      (hopen : peer.open? crypto s.maxSkip msg
        (associatedData s.groupId msg.memberId msg.iteration ad) = .ok (plaintext, peer')) :
      Happens crypto groupId w (.decrypt i msg ad)
        { w with
          sessions := w.sessions.insert i { s with peers := s.peers.insert msg.memberId peer' }
          accepted := ⟨i, msg, ad, plaintext, w.registered.get? (i, msg.memberId)⟩ ::
            w.accepted }

theorem Room.happens_of_step {call : GroupCall chain signing}
    (h : w.step crypto groupId call = some w') : Room.Happens crypto groupId w call w' := by
  cases call with
  | new i selfId ck signingKey =>
      simp only [Room.step] at h
      split at h
      · cases h
      · rename_i hnone
        cases h
        exact Happens.new i selfId ck signingKey hnone
  | setMaxSkip i maxSkip =>
      simp only [Room.step] at h
      split at h
      · cases h
      · rename_i s hget
        cases h
        exact Happens.bounded hget maxSkip
  | distributionMessage i =>
      simp only [Room.step] at h
      split at h
      · cases h
      · rename_i s hget
        cases h
        exact Happens.produced hget
  | addMember i dm =>
      simp only [Room.step] at h
      split at h
      · cases h
      · rename_i s hget
        simp only [Room.ask] at h
        split at h
        · rename_i hproduced
          split at h
          · rename_i e s' hcall
            cases h
            rcases GroupSession.addMember_cases hcall with ⟨_, _, rfl⟩ | ⟨_, heq, _⟩
            · exact Happens.failed hget
            · cases heq
          · rename_i s' hcall
            cases h
            rcases GroupSession.addMember_cases hcall with ⟨_, heq, _⟩ | ⟨pub, _, rfl⟩
            · cases heq
            · exact Happens.added hget hproduced pub
        · cases h
  | encrypt i plaintext ad =>
      simp only [Room.step] at h
      split at h
      · cases h
      · rename_i s hget
        cases h
        exact Happens.encrypted hget plaintext ad
  | decrypt i msg ad =>
      simp only [Room.step] at h
      split at h
      · cases h
      · rename_i s hget
        simp only [Room.ask] at h
        split at h
        · rename_i e s' hcall
          cases h
          rcases GroupSession.decrypt_cases hcall with ⟨_, _, rfl⟩ | ⟨_, _, _, _, _, heq, _⟩
          · exact Happens.failed hget
          · cases heq
        · rename_i plaintext s' hcall
          cases h
          rcases GroupSession.decrypt_cases hcall with
            ⟨_, heq, _⟩ | ⟨peer, _, peer', hpeer, hopen, heq, rfl⟩
          · cases heq
          · cases heq
            exact Happens.decrypted hget hpeer hopen
  | rekey i ck signingKey =>
      simp only [Room.step] at h
      split at h
      · cases h
      · rename_i s hget
        cases h
        exact Happens.rekeyed hget ck signingKey

theorem Room.sound_step (hcrypto : crypto.Ideal) {call : GroupCall chain signing}
    (hs : w.Sound crypto groupId) (hideal : w.Ideal crypto groupId call)
    (h : w.step crypto groupId call = some w') : w'.Sound crypto groupId := by
  cases Room.happens_of_step h with
  | new i selfId ck signingKey _ => exact hs.new hcrypto hideal selfId signingKey
  | rekeyed hget ck signingKey => exact hs.rekey hcrypto hget hideal signingKey
  | bounded hget maxSkip =>
      have hsession := hs.sessions _ _ hget
      exact hs.change (Room.changes_session ⟨hsession.group, hsession.own, hsession.peers⟩)
  | produced hget => exact hs.distributionMessage hget
  | failed hget => exact hs.change (Room.changes_session (hs.sessions _ _ hget))
  | added hget hproduced signingPublic => exact hs.addMember hget hproduced signingPublic
  | encrypted hget plaintext ad => exact hs.encrypt hget plaintext ad
  | decrypted hget hpeer hopen => exact hs.decrypt hcrypto hget hideal hpeer hopen

end Sound

end Rabbithole.E2ee
