import Rabbithole.E2ee.Ratchet

/-!
# Where a session is

Which inputs have gone into the root, and how many keys were taken from its last two chains.
A key that the session can still open a message with is one that it kept, or one of a place
it has not passed.
-/

namespace Rabbithole.E2ee
namespace Ratchet

open Foundation List

inductive Party where
  | initiator
  | responder
deriving DecidableEq

/-- How many inputs, up to an even number, have gone into the chains that the party sends on. -/
def Party.parity : Party -> Nat
  | .initiator => 1
  | .responder => 0

structure Place (dhout : Type) where
  mixed : List dhout
  sends : Nat
  receives : Nat

variable {secret root dhout chain key entropy : Type}

/-- The message at that place of the other party's chains has been passed. -/
def Place.Passed (p : Party) (here : Place dhout) (inputs : List dhout) (n : Nat) : Prop :=
  inputs.length % 2 ≠ p.parity ∧ inputs <:+ here.mixed.tail ∧
    (inputs = here.mixed.tail -> n < here.receives)

/-- A message was sent at that place of the party's own chains. -/
def Place.Used (p : Party) (here : Place dhout) (inputs : List dhout) (n : Nat) : Prop :=
  inputs.length % 2 = p.parity ∧ inputs <:+ here.mixed ∧
    (inputs = here.mixed -> n < here.sends)

variable (crypto : RatchetCrypto secret root dhout chain key entropy) (shared : root)

structure RatchetCrypto.Ideal : Prop where
  kdfRk : crypto.kdfRk.Ideal crypto.kdfCk
  kdfCk : crypto.kdfCk.Ideal
  aead : crypto.aead.Ideal

/-- The message key at a place. -/
abbrev RatchetCrypto.keyAt (inputs : List dhout) (n : Nat) : Option key :=
  crypto.kdfRk.keyAt crypto.kdfCk shared inputs n

structure Session.Follows (p : Party) (s : Session secret root chain key entropy)
    (here : Place dhout) : Prop where
  parity : here.mixed.length % 2 = p.parity
  rk : s.rk = crypto.kdfRk.path shared here.mixed
  cks : s.cks = (crypto.kdfRk.chainAt shared here.mixed).map (crypto.kdfCk.after here.sends)
  ckr : s.ckr =
    (crypto.kdfRk.chainAt shared here.mixed.tail).map (crypto.kdfCk.after here.receives)
  kept : forall label mk, s.skipped.get? label = some mk ->
    exists inputs n, here.Passed p inputs n ∧ crypto.keyAt shared inputs n = some mk
  once : forall label label' mk, s.skipped.get? label = some mk ->
    s.skipped.get? label' = some mk -> label = label'

def Session.Available (p : Party) (s : Session secret root chain key entropy)
    (here : Place dhout) (mk : key) : Prop :=
  (exists label, s.skipped.get? label = some mk) ∨
    exists inputs n, crypto.keyAt shared inputs n = some mk ∧ ¬ here.Passed p inputs n

/-- The session has moved on, and can open nothing that it could not open before. -/
structure Session.Leads (p : Party) (s : Session secret root chain key entropy)
    (here : Place dhout) (s' : Session secret root chain key entropy) (here' : Place dhout) :
    Prop where
  follows : s'.Follows crypto shared p here'
  used : forall inputs n, here.Used p inputs n -> here'.Used p inputs n
  fewer : forall mk, s'.Available crypto shared p here' mk -> s.Available crypto shared p here mk

variable {crypto} {shared} {p : Party} {s s' : Session secret root chain key entropy}
  {here : Place dhout}

theorem Session.Leads.refl (hf : s.Follows crypto shared p here) :
    s.Leads crypto shared p here s here :=
  ⟨hf, fun _ _ h => h, fun _ h => h⟩

theorem Session.Leads.trans {s'' : Session secret root chain key entropy}
    {here' here'' : Place dhout} (h : s.Leads crypto shared p here s' here')
    (h' : s'.Leads crypto shared p here' s'' here'') : s.Leads crypto shared p here s'' here'' where
  follows := h'.follows
  used inputs n hused := h'.used inputs n (h.used inputs n hused)
  fewer mk hmk := h.fewer mk (h'.fewer mk hmk)

theorem Session.Leads.reseed (hf : s.Follows crypto shared p here) (rng : entropy) :
    s.Leads crypto shared p here { s with rng := rng } here :=
  ⟨⟨hf.parity, hf.rk, hf.cks, hf.ckr, hf.kept, hf.once⟩, fun _ _ h => h, fun _ h => h⟩

theorem Place.Passed.receives {here : Place dhout} {inputs : List dhout} {n receives : Nat}
    (h : here.Passed p inputs n) (hle : here.receives <= receives) :
    Place.Passed p { here with receives := receives } inputs n :=
  ⟨h.left, h.right.left, fun heq => Nat.lt_of_lt_of_le (h.right.right heq) hle⟩

variable {ck : chain} {dhrp : PublicKey} {mk : key} {label : Label}

section

variable (hf : s.Follows crypto shared p here) (hchain : s.ckr = some ck)
include hf hchain

theorem Session.Follows.receiving : here.mixed.tail.length % 2 ≠ p.parity := by
  have hparity := hf.parity
  rw [hf.ckr] at hchain
  cases hmixed : here.mixed with
  | nil =>
      rw [hmixed] at hchain
      cases hchain
  | cons d rest =>
      rw [hmixed, length_cons] at hparity
      rw [tail_cons]
      omega

theorem Session.Follows.keyAt_ahead (i : Nat) :
    crypto.keyAt shared here.mixed.tail (here.receives + i) =
      some (crypto.kdfCk.messageKey (crypto.kdfCk.after i ck)) := by
  rw [hf.ckr] at hchain
  rcases Option.map_eq_some_iff.mp hchain with ⟨first, hfirst, rfl⟩
  rw [← ChainKdf.after_add]
  exact RootKdf.keyAt_of_chainAt hfirst _

theorem Session.Follows.chain_ahead (i : Nat) :
    some (crypto.kdfCk.after i ck) = (crypto.kdfRk.chainAt shared here.mixed.tail).map
      (crypto.kdfCk.after (here.receives + i)) := by
  rw [hf.ckr] at hchain
  rcases Option.map_eq_some_iff.mp hchain with ⟨first, hfirst, rfl⟩
  rw [← ChainKdf.after_add, hfirst]
  rfl

end

theorem Session.Follows.not_passed_ahead (i : Nat) :
    ¬ here.Passed p here.mixed.tail (here.receives + i) :=
  fun hpassed => absurd (hpassed.right.right rfl) (Nat.not_lt.mpr (Nat.le_add_right _ _))

theorem passOver_eq_self {upTo : UInt32} (h : s.ckr = none ∨ s.dhr = none) :
    s.passOver crypto upTo = s := by
  have hpassed : passOver crypto.kdfCk s.dhr upTo s.ckr s.nr = (s.ckr, s.nr, []) := by
    unfold passOver
    rcases h with hnone | hnone
    · rw [hnone]
    · rw [hnone]
      cases s.ckr with
      | none => rfl
      | some ck => rfl
  unfold Session.passOver
  rw [hpassed]
  rfl

theorem passOver_eq {upTo : UInt32} (hchain : s.ckr = some ck) (hdhr : s.dhr = some dhrp) :
    s.passOver crypto upTo =
      { s with
        ckr := some (crypto.kdfCk.after (upTo.toNat - s.nr.toNat) ck)
        nr := s.nr + UInt32.ofNat (upTo.toNat - s.nr.toNat)
        skipped := s.skipped.insertAll
          (crypto.kdfCk.stage (fun number => (dhrp, number)) (upTo.toNat - s.nr.toNat) s.nr
            ck).fst } := by
  unfold Session.passOver passOver
  rw [hchain, hdhr]

theorem Session.Follows.staged (hf : s.Follows crypto shared p here) (hchain : s.ckr = some ck)
    {count : Nat} (hstaged : (label, mk) ∈
      (crypto.kdfCk.stage (fun number => (dhrp, number)) count s.nr ck).fst) :
    exists i, i < count ∧ label = (dhrp, s.nr + UInt32.ofNat i) ∧
      crypto.keyAt shared here.mixed.tail (here.receives + i) = some mk := by
  rcases ChainKdf.mem_stage hstaged with ⟨i, hi, heq⟩
  cases heq
  exact ⟨i, hi, rfl, hf.keyAt_ahead hchain i⟩

section

variable (hcrypto : crypto.Ideal) (hshared : crypto.kdfRk.Underived shared)
  (hf : s.Follows crypto shared p here)
include hcrypto hshared hf

theorem Session.Follows.not_kept {i : Nat}
    (hkey : crypto.keyAt shared here.mixed.tail (here.receives + i) = some mk) (label : Label) :
    s.skipped.get? label ≠ some mk := by
  intro hkept
  rcases hf.kept label mk hkept with ⟨inputs, n, hpassed, hkey'⟩
  rcases RootKdf.keyAt_inj hcrypto.kdfRk hcrypto.kdfCk hshared hkey' hkey with ⟨rfl, rfl⟩
  exact Session.Follows.not_passed_ahead i hpassed

theorem Session.Follows.once_insertAll (hchain : s.ckr = some ck) {count : Nat} {label' : Label}
    (hget : (s.skipped.insertAll (crypto.kdfCk.stage (fun number => (dhrp, number)) count s.nr
      ck).fst).get? label = some mk)
    (hget' : (s.skipped.insertAll (crypto.kdfCk.stage (fun number => (dhrp, number)) count s.nr
      ck).fst).get? label' = some mk) : label = label' := by
  rcases Dict.get?_insertAll hget with hstaged | hkept
  · rcases hf.staged hchain hstaged with ⟨i, _, rfl, hkey⟩
    rcases Dict.get?_insertAll hget' with hstaged' | hkept'
    · rcases hf.staged hchain hstaged' with ⟨i', _, rfl, hkey'⟩
      have hplace := RootKdf.keyAt_inj hcrypto.kdfRk hcrypto.kdfCk hshared hkey hkey'
      rw [Nat.add_left_cancel hplace.right]
    · exact absurd hkept' (hf.not_kept hcrypto hshared hkey label')
  · rcases Dict.get?_insertAll hget' with hstaged' | hkept'
    · rcases hf.staged hchain hstaged' with ⟨i', _, _, hkey'⟩
      exact absurd hkept (hf.not_kept hcrypto hshared hkey' label)
    · exact hf.once label label' mk hkept hkept'

theorem Session.Follows.passOver_chain (hchain : s.ckr = some ck) (hdhr : s.dhr = some dhrp)
    (upTo : UInt32) : s.Leads crypto shared p here (s.passOver crypto upTo)
      { here with receives := here.receives + (upTo.toNat - s.nr.toNat) } := by
  rw [passOver_eq hchain hdhr]
  generalize upTo.toNat - s.nr.toNat = count
  have hle : here.receives <= here.receives + count := Nat.le_add_right _ _
  refine ⟨⟨hf.parity, hf.rk, hf.cks, hf.chain_ahead hchain count, ?_, ?_⟩, fun _ _ h => h, ?_⟩
  · intro label mk hget
    rcases Dict.get?_insertAll hget with hstaged | hkept
    · rcases hf.staged hchain hstaged with ⟨i, hi, _, hkey⟩
      refine ⟨here.mixed.tail, here.receives + i, ?_, hkey⟩
      exact ⟨hf.receiving hchain, suffix_refl _, fun _ => Nat.add_lt_add_left hi _⟩
    · rcases hf.kept label mk hkept with ⟨inputs, n, hpassed, hkey⟩
      exact ⟨inputs, n, hpassed.receives hle, hkey⟩
  · intro label label' mk hget hget'
    exact hf.once_insertAll hcrypto hshared hchain hget hget'
  · intro mk havailable
    rcases havailable with ⟨label, hget⟩ | ⟨inputs, n, hkey, hahead⟩
    · rcases Dict.get?_insertAll hget with hstaged | hkept
      · rcases hf.staged hchain hstaged with ⟨i, _, _, hkey⟩
        exact Or.inr ⟨_, _, hkey, Session.Follows.not_passed_ahead i⟩
      · exact Or.inl ⟨label, hkept⟩
    · refine Or.inr ⟨inputs, n, hkey, ?_⟩
      intro hpassed
      exact hahead (hpassed.receives hle)

theorem Session.Follows.passOver (upTo : UInt32) :
    exists receives, s.Leads crypto shared p here (s.passOver crypto upTo)
      { here with receives := receives } := by
  have hsame : (s.ckr = none ∨ s.dhr = none) -> exists receives,
      s.Leads crypto shared p here (s.passOver crypto upTo)
        { here with receives := receives } := by
    intro hnone
    rw [passOver_eq_self hnone]
    exact ⟨here.receives, Session.Leads.refl hf⟩
  cases hchain : s.ckr with
  | none => exact hsame (Or.inl hchain)
  | some ck =>
      cases hdhr : s.dhr with
      | none => exact hsame (Or.inr hdhr)
      | some dhrp => exact ⟨_, hf.passOver_chain hcrypto hshared hchain hdhr upTo⟩

end

/-- Two more inputs: a chain to receive on, and one to send on. -/
theorem Session.Follows.turn (hf : s.Follows crypto shared p here) (received : PublicKey) :
    exists here', s.Leads crypto shared p here (s.turn crypto received) here' := by
  have hpassed : forall {inputs n}, here.Passed p inputs n -> Place.Passed p
      ⟨crypto.dh (crypto.generate s.rng).fst received :: crypto.dh s.dhs received :: here.mixed,
        0, 0⟩ inputs n := by
    intro inputs n hpassed
    have hsuffix : inputs <:+ here.mixed :=
      hpassed.right.left.trans (tail_suffix _)
    refine ⟨hpassed.left, hsuffix.trans (suffix_cons _ _), ?_⟩
    intro heq
    have hlength := congrArg List.length heq
    rw [tail_cons, length_cons] at hlength
    have hle := hsuffix.length_le
    omega
  refine ⟨⟨crypto.dh (crypto.generate s.rng).fst received :: crypto.dh s.dhs received ::
    here.mixed, 0, 0⟩, ⟨?_, ?_, ?_, ?_, ?_, hf.once⟩, ?_, ?_⟩
  · have hparity := hf.parity
    rw [length_cons, length_cons]
    omega
  · unfold Session.turn
    rw [hf.rk]
    rfl
  · unfold Session.turn
    rw [hf.rk]
    rfl
  · unfold Session.turn
    rw [hf.rk]
    rfl
  · intro label mk hget
    rcases hf.kept label mk hget with ⟨inputs, n, hplace, hkey⟩
    exact ⟨inputs, n, hpassed hplace, hkey⟩
  · intro inputs n hused
    have hsuffix := hused.right.left
    refine ⟨hused.left, (hsuffix.trans (suffix_cons _ _)).trans (suffix_cons _ _), ?_⟩
    intro heq
    have hlength := congrArg List.length heq
    rw [length_cons, length_cons] at hlength
    have hle := hsuffix.length_le
    omega
  · intro mk havailable
    rcases havailable with hkept | ⟨inputs, n, hkey, hahead⟩
    · exact Or.inl hkept
    · exact Or.inr ⟨inputs, n, hkey, fun h => hahead (hpassed h)⟩

theorem Session.Follows.toChain (hcrypto : crypto.Ideal)
    (hshared : crypto.kdfRk.Underived shared) (hf : s.Follows crypto shared p here)
    (header : Header) :
    exists here', s.Leads crypto shared p here (s.toChain crypto header) here' := by
  unfold Session.toChain
  split
  · exact ⟨here, Session.Leads.refl hf⟩
  · rcases hf.passOver hcrypto hshared header.prevChainLen with ⟨receives, hpass⟩
    rcases hpass.follows.turn header.ratchetPub with ⟨here', hturn⟩
    exact ⟨here', hpass.trans hturn⟩

/-!
## One message
-/

/-- A message is opened with a key that the session could open it with, and then has no more. -/
structure Session.Opened (crypto : RatchetCrypto secret root dhout chain key entropy)
    (shared : root) (p : Party) (s : Session secret root chain key entropy) (here : Place dhout)
    (s' : Session secret root chain key entropy) (here' : Place dhout) (mk : key) : Prop where
  place : exists inputs n, inputs.length % 2 ≠ p.parity ∧ crypto.keyAt shared inputs n = some mk
  held : s.Available crypto shared p here mk
  spent : ¬ s'.Available crypto shared p here' mk
  leads : s.Leads crypto shared p here s' here'

section

variable (hcrypto : crypto.Ideal) (hshared : crypto.kdfRk.Underived shared)
  (hf : s.Follows crypto shared p here)
include hcrypto hshared hf

theorem Session.Follows.opened_of_kept (hkept : s.skipped.get? label = some mk) :
    Session.Opened crypto shared p s here { s with skipped := s.skipped.erase label } here mk := by
  have hleft : forall {other mk'}, (s.skipped.erase label).get? other = some mk' ->
      other ≠ label ∧ s.skipped.get? other = some mk' := by
    intro other mk' hget
    rw [Dict.get?_erase] at hget
    split at hget
    · cases hget
    · rename_i hne
      exact ⟨hne, hget⟩
  rcases hf.kept label mk hkept with ⟨inputs, n, hpassed, hkey⟩
  refine ⟨⟨inputs, n, hpassed.left, hkey⟩, Or.inl ⟨label, hkept⟩, ?_,
    ⟨hf.parity, hf.rk, hf.cks, hf.ckr, ?_, ?_⟩, fun _ _ h => h, ?_⟩
  · intro havailable
    rcases havailable with ⟨other, hget⟩ | ⟨inputs', n', hkey', hahead⟩
    · exact (hleft hget).left (hf.once other label mk (hleft hget).right hkept)
    · rcases RootKdf.keyAt_inj hcrypto.kdfRk hcrypto.kdfCk hshared hkey hkey' with ⟨rfl, rfl⟩
      exact hahead hpassed
  · intro other mk' hget
    exact hf.kept other mk' (hleft hget).right
  · intro other other' mk' hget hget'
    exact hf.once other other' mk' (hleft hget).right (hleft hget').right
  · intro mk' havailable
    rcases havailable with ⟨other, hget⟩ | hahead
    · exact Or.inl ⟨other, (hleft hget).right⟩
    · exact Or.inr hahead

theorem Session.Follows.opened_of_chain (hchain : s.ckr = some ck) :
    Session.Opened crypto shared p s here (s.advance crypto)
      { here with receives := here.receives + 1 } (crypto.kdfCk.messageKey ck) := by
  have hkey := hf.keyAt_ahead hchain 0
  have hle : here.receives <= here.receives + 1 := Nat.le_succ _
  have hpassed : Place.Passed p { here with receives := here.receives + 1 } here.mixed.tail
      here.receives :=
    ⟨hf.receiving hchain, suffix_refl _, fun _ => Nat.lt_succ_self _⟩
  refine ⟨⟨_, _, hf.receiving hchain, hkey⟩,
    Or.inr ⟨_, _, hkey, Session.Follows.not_passed_ahead 0⟩, ?_,
    ⟨hf.parity, hf.rk, hf.cks, ?_, ?_, hf.once⟩, fun _ _ h => h, ?_⟩
  · intro havailable
    rcases havailable with ⟨label, hget⟩ | ⟨inputs, n, hkey', hahead⟩
    · exact hf.not_kept hcrypto hshared hkey label hget
    · rcases RootKdf.keyAt_inj hcrypto.kdfRk hcrypto.kdfCk hshared hkey hkey' with ⟨rfl, rfl⟩
      exact hahead hpassed
  · have hnext := hf.chain_ahead hchain 1
    unfold Session.advance
    rw [hchain]
    exact hnext
  · intro label mk hget
    rcases hf.kept label mk hget with ⟨inputs, n, hplace, hkey'⟩
    exact ⟨inputs, n, hplace.receives hle, hkey'⟩
  · intro mk havailable
    rcases havailable with hkept | ⟨inputs, n, hkey', hahead⟩
    · exact Or.inl hkept
    · exact Or.inr ⟨inputs, n, hkey', fun h => hahead (h.receives hle)⟩

theorem Session.Follows.decrypt {msg : Message} {ad plaintext : Bytes}
    (h : s.decrypt crypto msg ad = (.ok plaintext, s')) :
    exists mk here', crypto.aead.openUnder mk msg.ciphertext (associatedData ad msg.header) =
        some plaintext ∧ Session.Opened crypto shared p s here s' here' mk := by
  rcases Session.decrypt_ok h with ⟨mk, hkept, hopen, rfl⟩ | ⟨_, _, ck, hchain, hopen, rfl⟩
  · exact ⟨mk, here, hopen, hf.opened_of_kept hcrypto hshared hkept⟩
  · rcases hf.toChain hcrypto hshared msg.header with ⟨here', hto⟩
    rcases hto.follows.passOver hcrypto hshared msg.header.msgNum with ⟨receives, hpass⟩
    have hleads := hto.trans hpass
    have hopened := hleads.follows.opened_of_chain hcrypto hshared hchain
    exact ⟨_, _, hopen, hopened.place, hleads.fewer _ hopened.held, hopened.spent,
      hleads.trans hopened.leads⟩

end

theorem Session.Follows.encrypt (hf : s.Follows crypto shared p here) {plaintext ad : Bytes}
    {message : Message} (h : s.encrypt crypto plaintext ad = (.ok message, s')) :
    exists mk, s.cks.map crypto.kdfCk.messageKey = some mk ∧
      crypto.keyAt shared here.mixed here.sends = some mk ∧
      message.ciphertext =
        crypto.aead.sealUnder mk plaintext (associatedData ad message.header) ∧
      s.Leads crypto shared p here s' { here with sends := here.sends + 1 } := by
  unfold Session.encrypt at h
  split at h
  · cases h
  · rename_i cks hcks
    cases h
    have hchain := hf.cks
    rw [hcks] at hchain
    rcases Option.map_eq_some_iff.mp hchain.symm with ⟨first, hfirst, rfl⟩
    refine ⟨_, congrArg (Option.map crypto.kdfCk.messageKey) hcks,
      RootKdf.keyAt_of_chainAt hfirst _, rfl, ⟨hf.parity, hf.rk, ?_, hf.ckr, hf.kept, hf.once⟩,
      ?_, fun _ h => h⟩
    · rw [hfirst]
      exact congrArg some (ChainKdf.next_after _ _)
    · intro inputs n hused
      exact ⟨hused.left, hused.right.left,
        fun heq => Nat.lt_succ_of_lt (hused.right.right heq)⟩

end Ratchet
end Rabbithole.E2ee
