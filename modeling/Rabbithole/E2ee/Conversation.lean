import Rabbithole.E2ee.Chains
import Rabbithole.Foundation.Run

/-!
# Two sessions

An initiator and a responder with the same shared secret and prekey decrypt whatever the
network brings.  Beside them stand the messages that were encrypted and accepted, and the
ratchet keys that the sessions have had.
-/

namespace Rabbithole.E2ee
namespace Ratchet

open Foundation List Function

theorem Party.parity_injective : Injective Party.parity := by
  intro p q h
  cases p with
  | initiator =>
      cases q with
      | initiator => rfl
      | responder => cases h
  | responder =>
      cases q with
      | initiator => cases h
      | responder => rfl

theorem Party.eq_of_ne {p q r : Party} (hp : p ≠ r) (hq : q ≠ r) : p = q := by
  cases p <;> cases q <;> cases r <;> first | rfl | contradiction

structure Sent (key : Type) where
  sender : Party
  messageKey : Option key
  ad : Bytes
  plaintext : Bytes
  message : Message

structure Accepted where
  receiver : Party
  message : Message
  ad : Bytes
  plaintext : Bytes

structure Conversation (secret root chain key entropy : Type) where
  sessions : Party -> Session secret root chain key entropy
  sent : List (Sent key)
  accepted : List Accepted
  ratchets : List PublicKey

inductive Call where
  | encrypt (p : Party) (plaintext ad : Bytes)
  | decrypt (p : Party) (msg : Message) (ad : Bytes)

section Safe

variable {secret root dhout chain key entropy : Type}

namespace Conversation

variable (crypto : RatchetCrypto secret root dhout chain key entropy) (shared : root)

/-- Both sessions, each with a bound of its own. -/
def start (prekey : secret) (rng : Party -> entropy) (maxSkip : Party -> UInt32) :
    Conversation secret root chain key entropy where
  sessions
    | .initiator =>
        (Session.initiator crypto shared (crypto.publicKey prekey) (rng .initiator)).setMaxSkip
          (maxSkip .initiator)
    | .responder =>
        (Session.responder shared prekey (rng .responder)).setMaxSkip (maxSkip .responder)
  sent := []
  accepted := []
  ratchets := [crypto.publicKey (crypto.generate (rng .initiator)).fst, crypto.publicKey prekey]

def step (w : Conversation secret root chain key entropy) :
    Call -> Option (Conversation secret root chain key entropy)
  | .encrypt p plaintext ad =>
      match (w.sessions p).encrypt crypto plaintext ad with
      | (.error _, s) => some { w with sessions := Function.update w.sessions p s }
      | (.ok message, s) =>
          some
            { w with
              sessions := Function.update w.sessions p s
              sent := ⟨p, (w.sessions p).cks.map crypto.kdfCk.messageKey, ad, plaintext,
                message⟩ :: w.sent }
  | .decrypt p msg ad =>
      match (w.sessions p).decrypt crypto msg ad with
      | (.error _, s) => some { w with sessions := Function.update w.sessions p s }
      | (.ok plaintext, s) =>
          some
            { w with
              sessions := Function.update w.sessions p s
              accepted := ⟨p, msg, ad, plaintext⟩ :: w.accepted
              ratchets := crypto.publicKey s.dhs :: w.ratchets }

end Conversation

/-!
## Ideal primitives

A message key that comes of the shared secret opens only what the sessions have sealed.
-/

def Sent.sealed (x : Sent key) : Option (Sealed key) :=
  x.messageKey.map (fun mk => ⟨mk, x.plaintext, associatedData x.ad x.message.header⟩)

def RatchetCrypto.Secret (crypto : RatchetCrypto secret root dhout chain key entropy)
    (shared : root) (mk : key) : Prop :=
  exists inputs n, crypto.keyAt shared inputs n = some mk

def Conversation.Ideal (crypto : RatchetCrypto secret root dhout chain key entropy)
    (shared : root) (w : Conversation secret root chain key entropy) : Call -> Prop
  | .encrypt _ _ _ => True
  | .decrypt _ msg _ =>
      crypto.aead.Unforged (crypto.Secret shared)
        (fun s => exists x, x ∈ w.sent ∧ x.sealed = some s) msg.ciphertext

/-!
## What a conversation keeps
-/

/-- What was accepted is a message that the other party sent. -/
def Accepted.Genuine (w : Conversation secret root chain key entropy) (a : Accepted) : Prop :=
  exists x, x ∈ w.sent ∧ x.sender ≠ a.receiver ∧ x.message = a.message ∧ x.ad = a.ad ∧
    x.plaintext = a.plaintext

structure Sent.At (crypto : RatchetCrypto secret root dhout chain key entropy) (shared : root)
    (x : Sent key) (inputs : List dhout) (n : Nat) (mk : key) : Prop where
  messageKey : x.messageKey = some mk
  place : crypto.keyAt shared inputs n = some mk
  ciphertext : x.message.ciphertext =
    crypto.aead.sealUnder mk x.plaintext (associatedData x.ad x.message.header)

structure Conversation.Sound (crypto : RatchetCrypto secret root dhout chain key entropy)
    (shared : root) (w : Conversation secret root chain key entropy)
    (here : Party -> Place dhout) : Prop where
  sessions : forall p, (w.sessions p).Follows crypto shared p (here p)
  sent : forall x, x ∈ w.sent -> exists inputs n mk,
    (here x.sender).Used x.sender inputs n ∧ x.At crypto shared inputs n mk
  distinct : w.sent.Pairwise (fun x y => x.messageKey ≠ y.messageKey)
  genuine : forall a, a ∈ w.accepted -> a.Genuine w
  spent : forall a, a ∈ w.accepted -> forall mk,
    (w.sessions a.receiver).Available crypto shared a.receiver (here a.receiver) mk ->
      ¬ crypto.aead.Under mk a.message.ciphertext
  once : w.accepted.Pairwise (fun a b => a.message.ciphertext ≠ b.message.ciphertext)

variable {crypto : RatchetCrypto secret root dhout chain key entropy} {shared : root}
  {w w' : Conversation secret root chain key entropy} {here : Party -> Place dhout}

variable {p : Party} {s : Session secret root chain key entropy} {plaintext ad : Bytes}

theorem Conversation.Sound.update_sessions (hs : w.Sound crypto shared here) {here' : Place dhout}
    (hleads : (w.sessions p).Leads crypto shared p (here p) s here') (q : Party) :
    (w.sessions q).Leads crypto shared q (here q) (Function.update w.sessions p s q)
      (Function.update here p here' q) := by
  by_cases hq : q = p
  · cases hq
    rw [update_self, update_self]
    exact hleads
  · rw [update_of_ne hq, update_of_ne hq]
    exact Session.Leads.refl (hs.sessions q)

theorem Conversation.Sound.sent_update (hs : w.Sound crypto shared here)
    {here' : Party -> Place dhout} {sessions : Party -> Session secret root chain key entropy}
    (hleads : forall q, (w.sessions q).Leads crypto shared q (here q) (sessions q) (here' q))
    {x : Sent key} (hx : x ∈ w.sent) :
    exists inputs n mk, (here' x.sender).Used x.sender inputs n ∧
      x.At crypto shared inputs n mk := by
  rcases hs.sent x hx with ⟨inputs, n, mk, hused, hat⟩
  exact ⟨inputs, n, mk, (hleads x.sender).used inputs n hused, hat⟩

theorem Accepted.Genuine.mono {a : Accepted} (h : a.Genuine w) (hsent : w.sent ⊆ w'.sent) :
    a.Genuine w' := by
  rcases h with ⟨x, hx, hsame⟩
  exact ⟨x, hsent hx, hsame⟩

theorem Conversation.Sound.move (hs : w.Sound crypto shared here) {here' : Place dhout}
    (hleads : (w.sessions p).Leads crypto shared p (here p) s here') :
    Conversation.Sound crypto shared { w with sessions := Function.update w.sessions p s }
      (Function.update here p here') where
  sessions q := (hs.update_sessions hleads q).follows
  sent _ hx := hs.sent_update (hs.update_sessions hleads) hx
  distinct := hs.distinct
  genuine a ha := (hs.genuine a ha).mono (Subset.refl _)
  spent a ha mk havailable :=
    hs.spent a ha mk ((hs.update_sessions hleads a.receiver).fewer mk havailable)
  once := hs.once

section

variable (hcrypto : crypto.Ideal)
include hcrypto

theorem Conversation.Sound.encrypt (hshared : crypto.kdfRk.Underived shared)
    (hs : w.Sound crypto shared here) {message : Message}
    (h : (w.sessions p).encrypt crypto plaintext ad = (.ok message, s)) :
    exists here', Conversation.Sound crypto shared
      { w with
        sessions := Function.update w.sessions p s
        sent := ⟨p, (w.sessions p).cks.map crypto.kdfCk.messageKey, ad, plaintext, message⟩ ::
          w.sent } here' := by
  rcases (hs.sessions p).encrypt h with ⟨mk, hmk, hplace, hciphertext, hleads⟩
  have hmoved := hs.move hleads
  refine ⟨_, hmoved.sessions, ?_, ?_, ?_, hmoved.spent, hs.once⟩
  · intro x hx
    rcases mem_cons.mp hx with rfl | hx
    · refine ⟨(here p).mixed, (here p).sends, mk, ?_, hmk, hplace, hciphertext⟩
      rw [update_self]
      exact ⟨(hs.sessions p).parity, suffix_refl _, fun _ => Nat.lt_succ_self _⟩
    · exact hmoved.sent x hx
  · apply pairwise_cons.mpr
    refine ⟨?_, hs.distinct⟩
    intro y hy heq
    rcases hs.sent y hy with ⟨inputs, n, mk', hused, hat⟩
    replace heq : (w.sessions p).cks.map crypto.kdfCk.messageKey = y.messageKey := heq
    rw [hmk, hat.messageKey] at heq
    cases heq
    rcases RootKdf.keyAt_inj hcrypto.kdfRk hcrypto.kdfCk hshared hplace hat.place with
      ⟨rfl, rfl⟩
    have hsender := Party.parity_injective (hused.left.symm.trans (hs.sessions p).parity)
    rw [hsender] at hused
    exact Nat.lt_irrefl _ (hused.right.right rfl)
  · intro a ha
    exact (hs.genuine a ha).mono (subset_cons_self _ _)

theorem Conversation.Sound.made (hs : w.Sound crypto shared here) {msg : Message} {mk : key}
    (hunforged : w.Ideal crypto shared (.decrypt p msg ad)) (hsecret : crypto.Secret shared mk)
    (hopen : crypto.aead.openUnder mk msg.ciphertext (associatedData ad msg.header) =
      some plaintext) :
    crypto.aead.Under mk msg.ciphertext ∧
      exists x inputs n, x ∈ w.sent ∧ x.message = msg ∧ x.ad = ad ∧ x.plaintext = plaintext ∧
        (here x.sender).Used x.sender inputs n ∧ x.At crypto shared inputs n mk := by
  rcases Aead.made_of_open hcrypto.aead hunforged hsecret hopen with
    ⟨⟨x, hx, hsealed⟩, hciphertext⟩
  refine ⟨⟨_, _, hciphertext⟩, ?_⟩
  rcases hs.sent x hx with ⟨inputs, n, mk', hused, hat⟩
  unfold Sent.sealed at hsealed
  rw [hat.messageKey] at hsealed
  have hfields := Sealed.mk.inj (Option.some.inj hsealed)
  rcases associatedData_inj hfields.right.right with ⟨had, hheader⟩
  have hsame : x.message.ciphertext = msg.ciphertext := by
    rw [hat.ciphertext, hfields.left, hfields.right.left, hfields.right.right]
    exact hciphertext
  have hmessage : x.message = msg := by
    rw [show x.message = ⟨x.message.header, x.message.ciphertext⟩ from rfl, hheader, hsame]
  rw [hfields.left] at hat
  exact ⟨x, inputs, n, hx, hmessage, had, hfields.right.left, hused, hat⟩

section

variable (hshared : crypto.kdfRk.Underived shared) (hs : w.Sound crypto shared here)
include hshared hs

theorem Conversation.Sound.decrypt {msg : Message}
    (hunforged : w.Ideal crypto shared (.decrypt p msg ad))
    (h : (w.sessions p).decrypt crypto msg ad = (.ok plaintext, s)) :
    exists here', Conversation.Sound crypto shared
      { w with
        sessions := Function.update w.sessions p s
        accepted := ⟨p, msg, ad, plaintext⟩ :: w.accepted
        ratchets := crypto.publicKey s.dhs :: w.ratchets } here' := by
  rcases (hs.sessions p).decrypt hcrypto hshared h with ⟨mk, here', hopen, hopened⟩
  rcases hopened.place with ⟨inputs, n, hparity, hplace⟩
  rcases hs.made hcrypto hunforged ⟨inputs, n, hplace⟩ hopen with
    ⟨hunder, x, inputs', n', hx, hmessage, had, hplaintext, hused, hat⟩
  have hmoved := hs.move hopened.leads
  refine ⟨_, hmoved.sessions, hmoved.sent, hs.distinct, ?_, ?_, ?_⟩
  · intro a ha
    rcases mem_cons.mp ha with rfl | ha
    · refine ⟨x, hx, ?_, hmessage, had, hplaintext⟩
      intro hsender
      rcases RootKdf.keyAt_inj hcrypto.kdfRk hcrypto.kdfCk hshared hplace hat.place with
        ⟨rfl, rfl⟩
      apply hparity
      rw [hused.left, hsender]
    · exact hs.genuine a ha
  · intro a ha mk' havailable hunder'
    rcases mem_cons.mp ha with rfl | ha
    · rw [Aead.under_unique hcrypto.aead hunder' hunder] at havailable
      dsimp only at havailable
      rw [update_self, update_self] at havailable
      exact hopened.spent havailable
    · exact hmoved.spent a ha mk' havailable hunder'
  · apply pairwise_cons.mpr
    refine ⟨?_, hs.once⟩
    intro a ha heq
    replace heq : msg.ciphertext = a.message.ciphertext := heq
    rw [heq] at hunder
    by_cases hreceiver : a.receiver = p
    · apply hs.spent a ha mk ?_ hunder
      rw [hreceiver]
      exact hopened.held
    · -- it was sent by the party that is given it back
      rcases hs.genuine a ha with ⟨y, hy, hsender, hy', _, _⟩
      rcases hs.sent y hy with ⟨inputs'', n'', mk'', hused'', hat''⟩
      have hunder'' : crypto.aead.Under mk'' a.message.ciphertext := by
        rw [← hy']
        exact ⟨_, _, hat''.ciphertext.symm⟩
      cases Aead.under_unique hcrypto.aead hunder hunder''
      rcases RootKdf.keyAt_inj hcrypto.kdfRk hcrypto.kdfCk hshared hplace hat''.place with
        ⟨rfl, rfl⟩
      apply hparity
      rw [hused''.left, Party.eq_of_ne hsender (Ne.symm hreceiver)]

theorem Conversation.sound_step {call : Call} (hideal : w.Ideal crypto shared call)
    (h : w.step crypto call = some w') : exists here', w'.Sound crypto shared here' := by
  cases call with
  | encrypt p plaintext ad =>
      unfold Conversation.step at h
      dsimp only at h
      split at h
      · rename_i e s hencrypt
        cases h
        rw [Session.encrypt_error hencrypt]
        exact ⟨_, hs.move (Session.Leads.refl (hs.sessions p))⟩
      · rename_i message s hencrypt
        cases h
        exact hs.encrypt hcrypto hshared hencrypt
  | decrypt p msg ad =>
      unfold Conversation.step at h
      dsimp only at h
      split at h
      · rename_i e s hdecrypt
        cases h
        rw [Session.decrypt_error hdecrypt]
        exact ⟨_, hs.move (Session.Leads.reseed (hs.sessions p) s.rng)⟩
      · rename_i plaintext s hdecrypt
        cases h
        exact hs.decrypt hcrypto hshared hideal hdecrypt

end

end

theorem sound_start (prekey : secret) (rng : Party -> entropy) (maxSkip : Party -> UInt32) :
    exists here, (Conversation.start crypto shared prekey rng maxSkip).Sound crypto shared here := by
  let place : Party -> Place dhout
    | .initiator =>
        ⟨[crypto.dh (crypto.generate (rng .initiator)).fst (crypto.publicKey prekey)], 0, 0⟩
    | .responder => ⟨[], 0, 0⟩
  refine ⟨place, ?_, nofun, Pairwise.nil, nofun, nofun, Pairwise.nil⟩
  intro p
  cases p with
  | initiator | responder => exact ⟨rfl, rfl, rfl, rfl, nofun, nofun⟩

/-- No session keeps more keys than it may. -/
def Conversation.Bounded (w : Conversation secret root chain key entropy) : Prop :=
  forall p, (w.sessions p).skipped.size <= (w.sessions p).maxSkip.toNat

theorem Conversation.Bounded.update (h : w.Bounded) (hs : s.skipped.size <= s.maxSkip.toNat)
    (q : Party) : (Function.update w.sessions p s q).skipped.size <=
      (Function.update w.sessions p s q).maxSkip.toNat := by
  by_cases hq : q = p
  · rw [hq, update_self]
    exact hs
  · rw [update_of_ne hq]
    exact h q

theorem Conversation.bounded_step {call : Call} (hb : w.Bounded)
    (h : w.step crypto call = some w') : w'.Bounded := by
  cases call with
  | encrypt p plaintext ad =>
      unfold Conversation.step at h
      dsimp only at h
      split at h
      · rename_i e s hencrypt
        cases h
        rw [Session.encrypt_error hencrypt]
        exact hb.update (hb p)
      · rename_i message s hencrypt
        cases h
        apply hb.update
        unfold Session.encrypt at hencrypt
        split at hencrypt
        · cases hencrypt
        · cases hencrypt
          exact hb p
  | decrypt p msg ad =>
      unfold Conversation.step at h
      dsimp only at h
      split at h
      · rename_i e s hdecrypt
        cases h
        exact hb.update (Session.decrypt_size_le (hb p) hdecrypt)
      · rename_i plaintext s hdecrypt
        cases h
        exact hb.update (Session.decrypt_size_le (hb p) hdecrypt)

/--
Whatever the network brings, what is accepted is what the other party sent, with that header
and associated data, and once.  Every message has a key of its own, the bound on kept keys
holds, and a message that does not open changes nothing but the source of keys.
-/
theorem ratchet_safe (hcrypto : crypto.Ideal) (hshared : crypto.kdfRk.Underived shared)
    {prekey : secret} {rng : Party -> entropy} {maxSkip : Party -> UInt32} {calls : List Call}
    (hideal : Along (Conversation.step crypto) (Conversation.Ideal crypto shared)
      (Conversation.start crypto shared prekey rng maxSkip) calls)
    (hrun : run? (Conversation.step crypto)
      (Conversation.start crypto shared prekey rng maxSkip) calls = some w) :
    (forall a, a ∈ w.accepted -> a.Genuine w) ∧
      w.accepted.Pairwise (fun a b => a.message.ciphertext ≠ b.message.ciphertext) ∧
      w.sent.Pairwise (fun x y => x.messageKey ≠ y.messageKey) ∧
      (forall p msg ad e s', (w.sessions p).decrypt crypto msg ad = (.error e, s') ->
        s' = { w.sessions p with rng := s'.rng }) ∧
      w.Bounded := by
  have hsound : exists here, w.Sound crypto shared here := by
    apply @run?_invariant_along _ _ _ _ (fun w => exists here, w.Sound crypto shared here) _ _ _ _
      (sound_start prekey rng maxSkip) hideal hrun
    intro _ _ _ ⟨here, hs⟩ hcond hstep
    exact Conversation.sound_step hcrypto hshared hs hcond hstep
  have hbounded : w.Bounded := by
    apply run?_invariant (fun _ _ _ => Conversation.bounded_step) _ hrun
    intro p
    cases p with
    | initiator | responder => exact Nat.zero_le _
  rcases hsound with ⟨here, hs⟩
  refine ⟨hs.genuine, hs.once, hs.distinct, ?_, hbounded⟩
  intro p msg ad e s' h
  exact Session.decrypt_error h

end Safe

/-!
## Primitives that hide nothing

A root key is the list of what has gone into it, a chain key is the root and its place, and a
seal carries what is under it.
-/

namespace Plain

def sealCodec : Codec ((List Nat × Nat) × Bytes × Bytes) :=
  ((Codec.list Codec.varint Codec.varint).pair Codec.varint).pair
    ((Codec.list Codec.varint byte).pair (Codec.list Codec.varint byte))

def crypto : RatchetCrypto Array32 (List Nat) Nat (List Nat × Nat) (List Nat × Nat) Nat where
  publicKey := id
  dh s received := s.toNat * received.toNat
  kdfRk := { derive := fun rk d => (d :: rk, (d :: rk, 0)) }
  kdfCk := { derive := fun ck => ((ck.fst, ck.snd + 1), ck) }
  aead := Aead.ofCodec sealCodec
  generate n := (BitVec.ofNat _ n, n + 1)

theorem ideal : crypto.Ideal where
  kdfRk :=
    { root_inj := fun heq => (List.cons.inj heq).symm
      chain_inj := fun heq => (List.cons.inj (Prod.mk.inj heq).left).symm
      chain_ne_next := fun _ _ _ heq => Nat.succ_ne_zero _ (Prod.mk.inj heq).right.symm }
  kdfCk :=
    { next_injective := by
        intro ⟨rk, n⟩ ⟨rk', n'⟩ heq
        cases heq
        rfl
      messageKey_injective := fun _ _ heq => heq }
  aead := Aead.ideal_ofCodec sealCodec

theorem underived : crypto.kdfRk.Underived [] :=
  fun _ _ heq => cons_ne_nil _ _ heq

abbrev World := Conversation Array32 (List Nat) (List Nat × Nat) (List Nat × Nat) Nat

/-- What is asked of the primitives, when only ciphertexts that were made are delivered. -/
def Genuine (w : World) : Call -> Prop
  | .encrypt _ _ _ => True
  | .decrypt _ msg _ =>
      exists x, x ∈ w.sent ∧ x.sealed.map crypto.aead.ciphertext = some msg.ciphertext

instance (w : World) (call : Call) : Decidable (Genuine w call) :=
  match call with
  | .encrypt _ _ _ => isTrue trivial
  | .decrypt _ msg _ =>
      inferInstanceAs (Decidable (exists x, x ∈ w.sent ∧
        x.sealed.map crypto.aead.ciphertext = some msg.ciphertext))

theorem ideal_of_genuine (w : World) (call : Call) (h : Genuine w call) :
    w.Ideal crypto [] call := by
  cases call with
  | encrypt _ _ _ => trivial
  | decrypt _ msg _ =>
      rcases h with ⟨x, hx, hsealed⟩
      rcases Option.map_eq_some_iff.mp hsealed with ⟨s, hs, hciphertext⟩
      exact fun _ _ _ _ _ => ⟨s, ⟨x, hx, hs⟩, hciphertext⟩

def begin (maxSkip : UInt32) : World :=
  Conversation.start crypto [] 7 (fun p => if p = .initiator then 100 else 200)
    (fun _ => maxSkip)

inductive Move where
  | say (p : Party) (text : Bytes)
  | bring (p : Party) (number : Nat)

/-- The calls, where a message that is brought is named by its number among those sent. -/
def calls : World -> List Move -> List Call
  | _, [] => []
  | w, .say p text :: rest =>
      .encrypt p text [] :: calls ((w.step crypto (.encrypt p text [])).getD w) rest
  | w, .bring p number :: rest =>
      match w.sent.reverse[number]? with
      | none => calls w rest
      | some x =>
          .decrypt p x.message x.ad ::
            calls ((w.step crypto (.decrypt p x.message x.ad)).getD w) rest

/-- Late and repeated messages, and one brought back to its sender, over three chains. -/
def turns : List Call :=
  calls (begin 5) [.say .initiator [65], .say .initiator [66], .bring .responder 1,
    .bring .initiator 0, .say .responder [67], .bring .initiator 2, .say .initiator [68],
    .bring .responder 3, .bring .responder 0, .bring .responder 0, .bring .responder 3]

end Plain

theorem ratchet_safe_turns :
    exists w, run? (Conversation.step Plain.crypto) (Plain.begin 5) Plain.turns = some w ∧
      w.accepted.map Accepted.plaintext = [[65], [68], [67], [66]] ∧
      (forall a, a ∈ w.accepted -> a.Genuine w) ∧
      w.accepted.Pairwise (fun a b => a.message.ciphertext ≠ b.message.ciphertext) ∧
      w.sent.Pairwise (fun x y => x.messageKey ≠ y.messageKey) ∧
      (forall p msg ad e s', (w.sessions p).decrypt Plain.crypto msg ad = (.error e, s') ->
        s' = { w.sessions p with rng := s'.rng }) ∧
      w.Bounded := by
  have hplaintexts : (run? (Conversation.step Plain.crypto) (Plain.begin 5) Plain.turns).map
      (fun w => w.accepted.map Accepted.plaintext) = some [[65], [68], [67], [66]] := by
    decide
  have hgenuine : Along (Conversation.step Plain.crypto) Plain.Genuine (Plain.begin 5)
      Plain.turns := by
    decide
  rcases Option.map_eq_some_iff.mp hplaintexts with ⟨w, hrun, heq⟩
  exact ⟨w, hrun, heq, ratchet_safe Plain.ideal Plain.underived
    (along_mono Plain.ideal_of_genuine hgenuine) hrun⟩

end Ratchet
end Rabbithole.E2ee
