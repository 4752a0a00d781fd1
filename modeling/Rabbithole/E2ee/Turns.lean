import Rabbithole.E2ee.Missed

/-!
# Two parties on the same chains

One party stands at the newest chain, and the other at the one before it.  So a message that
has not been accepted finds its key: among those that are kept, or on the chain it was sent
on, if its receiver may keep the keys of those before it.
-/

namespace Rabbithole.E2ee
namespace Ratchet

open Foundation

section Turns

variable {secret root dhout chain key entropy : Type}

variable (crypto : RatchetCrypto secret root dhout chain key entropy) (shared : root)

structure Conversation.Side (w : Conversation secret root chain key entropy)
    (es : List (Epoch secret)) (p : Party) (e : Epoch secret) (rest : List (Epoch secret)) :
    Prop where
  view : view p es = e :: rest
  on : (w.sessions p).On crypto shared e rest (w.sent.countP (bySender p))
  keeps : Keeps w.sent w.accepted p (w.sessions p).skipped ((w.sessions p).passed rest)
  ahead : (w.sessions p).passed rest <= w.sent.countP (bySender p.other)
  behind : forall l, es = l :: e :: rest -> (w.sessions p).passed rest <= l.before

structure Conversation.Synced (w : Conversation secret root chain key entropy)
    (es : List (Epoch secret)) : Prop where
  fresh : (es.map (fun e => crypto.publicKey e.own)).Nodup
  known : forall e, e ∈ es -> crypto.publicKey e.own ∈ w.ratchets
  first : forall e rest, (e :: rest) <:+ es -> rest.length <= 2 -> e.before = 0
  sent : forall q x n, IsNth (bySender q) x n w.sent ->
    exists e rest, x.On crypto shared es n e rest
  sides : forall p, exists e rest, w.Side crypto shared es p e rest

/-- A session on the chain that it is to read from. -/
structure Conversation.Arrives (w : Conversation secret root chain key entropy) (p : Party)
    (u : Session secret root chain key entropy) (e : Epoch secret) (rest : List (Epoch secret)) :
    Prop where
  on : u.On crypto shared e rest (w.sent.countP (bySender p))
  keeps : Keeps w.sent w.accepted p u.skipped (u.passed rest)

variable {crypto} {shared} {w w' : Conversation secret root chain key entropy}
  {es : List (Epoch secret)} {p : Party} {s : Session secret root chain key entropy}
  {e : Epoch secret} {rest : List (Epoch secret)}

theorem Conversation.Synced.labelled (hs : w.Synced crypto shared es) (q : Party) :
    Labelled w.sent q := by
  intro x y n m hx hy hlabel
  rcases hs.sent q x n hx with ⟨ex, rx, hxon⟩
  rcases hs.sent q y m hy with ⟨ey, ry, hyon⟩
  exact hxon.number_eq hs.fresh hyon hlabel

theorem Sent.On.ahead {y : Sent key} {m : Nat} {ey : Epoch secret} {ry : List (Epoch secret)}
    (hy : y.On crypto shared es m ey ry) {ckr : Option chain} {nr : UInt32} {ck : chain}
    (hckr : ckr = (crypto.kdfRk.chainAt shared (mixes crypto (ey :: ry))).map
      (crypto.kdfCk.after nr.toNat)) (hchain : ckr = some ck) (hle : ey.before + nr.toNat <= m) :
    y.message.header.label =
        (crypto.publicKey ey.own, nr + UInt32.ofNat (m - (ey.before + nr.toNat))) ∧
      y.messageKey = some
        (crypto.kdfCk.messageKey (crypto.kdfCk.after (m - (ey.before + nr.toNat)) ck)) := by
  have hnumber := hy.number
  have hlt := y.message.header.msgNum.toNat_lt
  constructor
  · have hmsgNum : y.message.header.msgNum =
        nr + UInt32.ofNat (m - (ey.before + nr.toNat)) := by
      apply UInt32.toNat_inj.mp
      rw [UInt32.toNat_add, UInt32.toNat_ofNat']
      omega
    unfold Header.label
    rw [hy.ratchetPub, ← hmsgNum]
  · rcases hy.key with ⟨mk, hat⟩
    rw [hchain] at hckr
    rcases Option.map_eq_some_iff.mp hckr.symm with ⟨first, hfirst, rfl⟩
    have hplace := hat.place
    unfold RatchetCrypto.keyAt at hplace
    rw [RootKdf.keyAt_of_chainAt hfirst] at hplace
    rw [hat.messageKey, ← hplace, ← ChainKdf.after_add]
    congr 3
    omega

variable {x : Sent key} {n : Nat} {ex : Epoch secret} {rx : List (Epoch secret)}

/-- What is passed over on the chain that a session reads from. -/
theorem Conversation.Arrives.passOver {u : Session secret root chain key entropy}
    (h : w.Arrives crypto shared p u e (ex :: rx)) (hsynced : w.Synced crypto shared es)
    (hnth : IsNth (bySender p.other) x n w.sent) (hx : x.On crypto shared es n ex rx)
    (hle : u.passed (ex :: rx) <= n) :
    exists ck, (u.passOver crypto x.message.header.msgNum).ckr = some ck ∧
      x.messageKey = some (crypto.kdfCk.messageKey ck) ∧
      w.Arrives crypto shared p (u.passOver crypto x.message.header.msgNum) e (ex :: rx) ∧
      (u.passOver crypto x.message.header.msgNum).passed (ex :: rx) = n ∧
      (u.passOver crypto x.message.header.msgNum).nr = x.message.header.msgNum := by
  have hnumber := hx.number
  replace hle : ex.before + u.nr.toNat <= n := hle
  rcases hx.key with ⟨mk, hat⟩
  rcases Option.map_eq_some_iff.mp hat.place with ⟨first, hfirst, _⟩
  have hchain : u.ckr = some (crypto.kdfCk.after u.nr.toNat first) := by
    rw [h.on.ckr, hfirst]
    rfl
  have hdhr : u.dhr = some (crypto.publicKey ex.own) := h.on.dhr
  rcases h.on.passOver hchain hdhr x.message.header.msgNum with ⟨hon, hnr⟩
  have hnr' : (u.passOver crypto x.message.header.msgNum).nr = x.message.header.msgNum := by
    apply UInt32.toNat_inj.mp
    omega
  have hpassed : (u.passOver crypto x.message.header.msgNum).passed (ex :: rx) = n := by
    unfold Session.passed
    rw [hnr', hnumber]
    rfl
  have hcount : u.passed (ex :: rx) + (x.message.header.msgNum.toNat - u.nr.toNat) = n := by
    show ex.before + u.nr.toNat + _ = n
    omega
  have hstage : Keeps w.sent w.accepted p (u.passOver crypto x.message.header.msgNum).skipped
      (u.passed (ex :: rx) + (x.message.header.msgNum.toNat - u.nr.toNat)) := by
    rw [passOver_eq hchain hdhr]
    apply h.keeps.stage
    · rw [hcount]
      exact Nat.le_of_lt hnth.lt_countP
    · intro y m hy hpassed' hlt
      rw [hcount] at hlt
      rcases hsynced.sent _ y m hy with ⟨ey, ry, hyon⟩
      replace hpassed' : ex.before + u.nr.toNat <= m := hpassed'
      rcases hx.same_chain hyon ((sender_of_isNth hnth).trans (sender_of_isNth hy).symm)
        (Nat.le_trans (Nat.le_add_right _ _) hpassed') (Nat.le_of_lt hlt) with ⟨rfl, rfl⟩
      exact hyon.ahead h.on.ckr hchain hpassed'
  have hckr := hon.ckr
  rw [hfirst, hnr'] at hckr
  refine ⟨_, hckr, ?_, ⟨hon, ?_⟩, hpassed, hnr'⟩
  · rw [hat.messageKey, ← hat.place]
    exact RootKdf.keyAt_of_chainAt hfirst _
  · rw [hpassed, ← hcount]
    exact hstage

/-- The present chain ends, and the keys of what was missed on it are kept. -/
theorem Conversation.Side.closes (hsynced : w.Synced crypto shared es)
    (hside : w.Side crypto shared es p e rest) (hes : es = ex :: e :: rest)
    (hnth : IsNth (bySender p.other) x n w.sent) (hx : x.On crypto shared es n ex (e :: rest)) :
    Keeps w.sent w.accepted p
        ((w.sessions p).passOver crypto x.message.header.prevChainLen).skipped ex.before ∧
      ((w.sessions p).passOver crypto x.message.header.prevChainLen).On crypto shared e rest
        (w.sent.countP (bySender p)) := by
  have hbehind := hside.behind ex hes
  have hprev := hx.prev
  rw [List.tail_cons] at hprev
  -- without a chain there is nothing to pass over
  have hnone : (w.sessions p).ckr = none ∨ (w.sessions p).dhr = none -> rest.length <= 1 ->
      Keeps w.sent w.accepted p
          ((w.sessions p).passOver crypto x.message.header.prevChainLen).skipped ex.before ∧
        ((w.sessions p).passOver crypto x.message.header.prevChainLen).On crypto shared e rest
          (w.sent.countP (bySender p)) := by
    intro hno hlength
    have hfirst := hsynced.first ex (e :: rest) hx.suffix (Nat.succ_le_succ hlength)
    rw [hfirst] at hbehind ⊢
    rw [passOver_eq_self hno, ← Nat.le_zero.mp hbehind]
    exact ⟨hside.keeps, hside.on⟩
  have hdhr := hside.on.dhr
  cases rest with
  | nil => exact hnone (Or.inr hdhr) (Nat.zero_le _)
  | cons r rs =>
      cases hchain : (w.sessions p).ckr with
      | none =>
          apply hnone (Or.inl hchain)
          have hckr := hside.on.ckr
          rw [hchain] at hckr
          have hempty := RootKdf.eq_nil_of_chainAt (Option.map_eq_none_iff.mp hckr.symm)
          have hlength := congrArg List.length hempty
          rw [length_mixes] at hlength
          rw [List.length_cons, hlength]
          exact Nat.le_refl _
      | some ck =>
          refine ⟨?_, (hside.on.passOver hchain hdhr _).left⟩
          replace hbehind : r.before + (w.sessions p).nr.toNat <= ex.before := hbehind
          replace hprev : ex.before = r.before + x.message.header.prevChainLen.toNat := hprev
          have hcount : (w.sessions p).passed (r :: rs) +
              (x.message.header.prevChainLen.toNat - (w.sessions p).nr.toNat) = ex.before := by
            show r.before + (w.sessions p).nr.toNat + _ = ex.before
            omega
          rw [passOver_eq hchain hdhr, ← hcount]
          apply hside.keeps.stage
          · rw [hcount]
            have hlt := hnth.lt_countP
            have hnumber := hx.number
            omega
          · intro y m hy hpassed hlt
            rw [hcount] at hlt
            replace hpassed : r.before + (w.sessions p).nr.toNat <= m := hpassed
            rcases hsynced.sent _ y m hy with ⟨ey, ry, hyon⟩
            rcases hyon.cases_view hside.view (sender_of_isNth hy) with
              hold | hpresent | ⟨hnew, _⟩
            · exact absurd hold (Nat.not_lt.mpr (Nat.le_trans (Nat.le_add_right _ _) hpassed))
            · cases hpresent
              exact hyon.ahead hside.on.ckr hchain hpassed
            · rw [hes] at hnew
              cases hnew
              have hnumber := hyon.number
              omega

/-- Where the session comes to for a message that it has not passed. -/
inductive Conversation.Reached (crypto : RatchetCrypto secret root dhout chain key entropy)
    (w : Conversation secret root chain key entropy) (es : List (Epoch secret)) (p : Party)
    (e : Epoch secret) (rest : List (Epoch secret)) (header : Header) (ex : Epoch secret)
    (rx : List (Epoch secret)) : Epoch secret -> Prop where
  | stays (hrest : rest = ex :: rx) (hdhr : (w.sessions p).dhr = some header.ratchetPub) :
      Reached crypto w es p e rest header ex rx e
  | turns (hes : es = ex :: e :: rest) (hrx : rx = e :: rest)
      (hdhr : (w.sessions p).dhr ≠ some header.ratchetPub) :
      Reached crypto w es p e rest header ex rx
        ⟨(crypto.generate (w.sessions p).rng).fst, w.sent.countP (bySender p)⟩

theorem Conversation.Side.reaches (hagrees : crypto.Agrees) (hsynced : w.Synced crypto shared es)
    (hside : w.Side crypto shared es p e rest) (hnth : IsNth (bySender p.other) x n w.sent)
    (hx : x.On crypto shared es n ex rx) (hle : (w.sessions p).passed rest <= n) :
    exists e', w.Reached crypto es p e rest x.message.header ex rx e' ∧
      w.Arrives crypto shared p ((w.sessions p).toChain crypto x.message.header) e' (ex :: rx) ∧
      ((w.sessions p).toChain crypto x.message.header).passed (ex :: rx) <= n := by
  rcases hx.cases_view hside.view (sender_of_isNth hnth) with hold | hpresent | ⟨hnew, hrx⟩
  · exact absurd hold (Nat.not_lt.mpr (Nat.le_trans (Nat.le_add_right _ _) hle))
  · have hdhr : (w.sessions p).dhr = some x.message.header.ratchetPub := by
      rw [hside.on.dhr, hpresent, hx.ratchetPub]
      rfl
    refine ⟨e, .stays hpresent hdhr, ?_⟩
    unfold Session.toChain
    rw [if_pos hdhr, ← hpresent]
    exact ⟨⟨hside.on, hside.keeps⟩, hle⟩
  · have hdhr : (w.sessions p).dhr ≠ some x.message.header.ratchetPub := by
      intro heq
      rw [hside.on.dhr, hx.ratchetPub] at heq
      cases rest with
      | nil => cases heq
      | cons r rs =>
          have hsuffix : (r :: rs) <:+ es :=
            (List.suffix_cons _ _).trans (view_suffix hside.view)
          have hsame := suffix_eq_of_publicKey hsynced.fresh hsuffix hx.suffix
            (Option.some.inj heq)
          have hlength := congrArg List.length (hsame.right.trans hrx)
          rw [List.length_cons, List.length_cons] at hlength
          omega
    cases hrx
    rcases hside.closes hsynced hnew hnth hx with ⟨hkeeps, hon⟩
    refine ⟨_, .turns hnew rfl hdhr, ?_⟩
    unfold Session.toChain
    rw [if_neg hdhr, hx.ratchetPub]
    refine ⟨⟨hon.turn hagrees, hkeeps⟩, ?_⟩
    rw [hx.number]
    exact Nat.add_le_add_left (Nat.zero_le _) _

theorem Conversation.Side.admits (hside : w.Side crypto shared es p e rest) {e' : Epoch secret}
    (hx : x.On crypto shared es n ex rx) (hle : (w.sessions p).passed rest <= n)
    (hreached : w.Reached crypto es p e rest x.message.header ex rx e')
    (hroom : (w.sessions p).skipped.size + (n - (w.sessions p).passed rest) <=
      (w.sessions p).maxSkip.toNat) : (w.sessions p).Admits crypto x.message.header := by
  have hnumber := hx.number
  cases hreached with
  | stays hrest hdhr =>
      refine ⟨fun hnew => absurd hdhr hnew, ?_⟩
      unfold Session.stored Session.toChain
      rw [if_pos hdhr, if_pos hdhr]
      rw [hrest] at hroom
      replace hroom : (w.sessions p).skipped.size +
        (n - (ex.before + (w.sessions p).nr.toNat)) <= (w.sessions p).maxSkip.toNat := hroom
      right
      omega
  | turns hes hrx hdhr =>
      have hbehind := hside.behind ex hes
      have hprev := hx.prev
      rw [hrx, List.tail_cons] at hprev
      have hpassed : (w.sessions p).passed rest = startOf rest + (w.sessions p).nr.toNat := rfl
      have hlength := Session.length_passOver crypto.kdfCk (w.sessions p).dhr
        x.message.header.prevChainLen (w.sessions p).ckr (w.sessions p).nr
      constructor
      · intro _
        right
        omega
      · unfold Session.stored Session.toChain
        rw [if_neg hdhr, if_neg hdhr]
        right
        show _ + (x.message.header.msgNum.toNat - 0) <= _
        omega

theorem Conversation.Side.accepts_passed (hcrypto : crypto.Ideal)
    (hsynced : w.Synced crypto shared es) (hside : w.Side crypto shared es p e rest)
    (hnth : IsNth (bySender p.other) x n w.sent) (hnew : ¬ Took w.accepted p x.message)
    (hlt : n < (w.sessions p).passed rest) :
    exists s', (w.sessions p).decrypt crypto x.message x.ad = (.ok x.plaintext, s') := by
  rcases hside.keeps.missed x n hnth hlt with htook | hsome
  · exact absurd htook hnew
  · rcases Option.isSome_iff_exists.mp hsome with ⟨mk, hget⟩
    have hkey := (hside.keeps.get_label (hsynced.labelled _) hnth hget).right
    rcases hsynced.sent _ x n hnth with ⟨ex, rx, hx⟩
    rcases hx.key with ⟨mk', hat⟩
    rw [hat.messageKey] at hkey
    cases hkey
    have hopen := hcrypto.aead.open_seal mk x.plaintext (associatedData x.ad x.message.header)
    rw [← hat.ciphertext] at hopen
    refine ⟨{ w.sessions p with
      skipped := (w.sessions p).skipped.erase x.message.header.label }, ?_⟩
    unfold Session.decrypt
    rw [hget]
    dsimp only
    rw [hopen]

theorem Conversation.Side.accepts_ahead (hcrypto : crypto.Ideal) (hagrees : crypto.Agrees)
    (hsynced : w.Synced crypto shared es) (hside : w.Side crypto shared es p e rest)
    (hnth : IsNth (bySender p.other) x n w.sent) (hle : (w.sessions p).passed rest <= n)
    (hroom : (w.sessions p).skipped.size + (n - (w.sessions p).passed rest) <=
      (w.sessions p).maxSkip.toNat) :
    exists s', (w.sessions p).decrypt crypto x.message x.ad = (.ok x.plaintext, s') := by
  rcases hsynced.sent _ x n hnth with ⟨ex, rx, hx⟩
  rcases hside.reaches hagrees hsynced hnth hx hle with ⟨e', hreached, harrives, hpassed⟩
  rcases harrives.passOver hsynced hnth hx hpassed with ⟨ck, hchain, hkey, _⟩
  rcases hx.key with ⟨mk, hat⟩
  rw [hat.messageKey] at hkey
  cases hkey
  have hopen := hcrypto.aead.open_seal (crypto.kdfCk.messageKey ck) x.plaintext
    (associatedData x.ad x.message.header)
  rw [← hat.ciphertext] at hopen
  have hnone : (w.sessions p).skipped.get? x.message.header.label = none := by
    cases hget : (w.sessions p).skipped.get? x.message.header.label with
    | none => rfl
    | some mk =>
        have hkept := hside.keeps.get_label (hsynced.labelled _) hnth hget
        exact absurd hkept.left (Nat.not_lt.mpr hle)
  exact ⟨_, Session.decrypt_of_admits hnone (hside.admits hx hle hreached hroom) hchain
    hopen⟩

end Turns

end Ratchet
end Rabbithole.E2ee
