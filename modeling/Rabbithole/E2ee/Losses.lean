import Rabbithole.E2ee.Turns

/-!
# Lost messages

Every call leaves the parties on the same chains.  What is missing of the messages before one
are the keys that its receiver keeps, and those it has yet to keep.
-/

namespace Rabbithole.E2ee
namespace Ratchet

open Foundation List Function

section Losses

variable {secret root dhout chain key entropy : Type}
  {crypto : RatchetCrypto secret root dhout chain key entropy} {shared : root}
  {w w' : Conversation secret root chain key entropy} {es : List (Epoch secret)} {p : Party}
  {s : Session secret root chain key entropy} {e : Epoch secret} {rest : List (Epoch secret)}

/-!
## One call
-/

/-- Keys that are drawn are new, and no count of sent messages overflows. -/
def Conversation.Orderly (crypto : RatchetCrypto secret root dhout chain key entropy)
    (w : Conversation secret root chain key entropy) : Call -> Prop
  | .encrypt p _ _ => (w.sessions p).ns.toNat + 1 < UInt32.size
  | .decrypt p _ _ => crypto.publicKey (crypto.generate (w.sessions p).rng).fst ∉ w.ratchets

variable {plaintext ad : Bytes} {x : Sent key} {message : Message} {a : Accepted}
  {ratchets : List PublicKey}

theorem Session.On.encrypt {s' : Session secret root chain key entropy} {total : Nat}
    (h : s.On crypto shared e rest total) (hcounted : s.ns.toNat + 1 < UInt32.size)
    (hencrypt : s.encrypt crypto plaintext ad = (.ok message, s')) :
    s'.On crypto shared e rest (total + 1) ∧ s'.nr = s.nr ∧ s'.skipped = s.skipped := by
  unfold Session.encrypt at hencrypt
  split at hencrypt
  · cases hencrypt
  · rename_i cks hcks
    cases hencrypt
    have hns : (s.ns + 1).toNat = s.ns.toNat + 1 := by
      rw [UInt32.toNat_add]
      exact Nat.mod_eq_of_lt hcounted
    have hchain := h.cks
    rw [hcks] at hchain
    rcases Option.map_eq_some_iff.mp hchain.symm with ⟨first, hfirst, rfl⟩
    refine ⟨⟨h.dhs, h.dhr, h.rk, ?_, h.ckr, ?_, h.pn, nofun⟩, rfl, rfl⟩
    · dsimp only
      rw [hfirst, hns]
      exact congrArg some (ChainKdf.next_after _ _)
    · dsimp only
      rw [hns, h.ns]
      rfl

theorem Sent.On.encrypt {s' : Session secret root chain key entropy} {total : Nat}
    (h : s.On crypto shared e rest total) (hview : view p es = e :: rest)
    (hcounted : s.ns.toNat + 1 < UInt32.size)
    (hencrypt : s.encrypt crypto plaintext ad = (.ok message, s')) : Sent.On crypto shared es
      ⟨p, s.cks.map crypto.kdfCk.messageKey, ad, plaintext, message⟩ total e rest := by
  unfold Session.encrypt at hencrypt
  split at hencrypt
  · cases hencrypt
  · rename_i cks hcks
    cases hencrypt
    have hchain := h.cks
    rw [hcks] at hchain
    rcases Option.map_eq_some_iff.mp hchain.symm with ⟨first, hfirst, rfl⟩
    constructor
    · exact view_suffix hview
    · exact view_parity hview
    · exact congrArg crypto.publicKey h.dhs
    · exact h.ns
    · exact hcounted
    · exact h.pn
    · refine ⟨crypto.kdfCk.messageKey (crypto.kdfCk.after s.ns.toNat first), ?_, ?_, rfl⟩
      · dsimp only
        rw [hcks]
        rfl
      · exact RootKdf.keyAt_of_chainAt hfirst _
    · intro e' rest' hsuffix hparity hlength
      have hle := hsuffix.length_le
      rw [length_cons] at hle
      rcases view_cases hview with heq | ⟨l, heq⟩
      · rw [heq, length_cons] at hle
        omega
      · rw [heq, length_cons, length_cons] at hle
        omega

theorem countP_bySender_ne {sent : List (Sent key)} {q : Party} (h : x.sender ≠ q) :
    (x :: sent).countP (bySender q) = sent.countP (bySender q) := by
  have htest : ¬ bySender q x = true := fun heq => h (of_decide_eq_true heq)
  exact countP_cons_of_neg htest

theorem countP_bySender_self (sent : List (Sent key)) (x : Sent key) :
    (x :: sent).countP (bySender x.sender) = sent.countP (bySender x.sender) + 1 := by
  have htest : bySender x.sender x = true := decide_eq_true rfl
  exact countP_cons_of_pos htest

theorem Conversation.Synced.encrypt (hs : w.Synced crypto shared es)
    (horderly : w.Orderly crypto (.encrypt p plaintext ad))
    (hencrypt : (w.sessions p).encrypt crypto plaintext ad = (.ok message, s)) :
    Conversation.Synced crypto shared
      { w with
        sessions := Function.update w.sessions p s
        sent := ⟨p, (w.sessions p).cks.map crypto.kdfCk.messageKey, ad, plaintext, message⟩ ::
          w.sent } es := by
  generalize hx : (⟨p, (w.sessions p).cks.map crypto.kdfCk.messageKey, ad, plaintext,
    message⟩ : Sent key) = x
  have hsender : x.sender = p := by rw [← hx]
  refine ⟨hs.fresh, hs.known, hs.first, ?_, ?_⟩
  · intro q y n hnth
    rcases hnth with ⟨rfl, htest, rfl⟩ | hnth
    · cases hsender.symm.trans (of_decide_eq_true htest)
      rcases hs.sides p with ⟨e, rest, hside⟩
      rw [← hx]
      exact ⟨e, rest, Sent.On.encrypt hside.on hside.view horderly hencrypt⟩
    · exact hs.sent q y n hnth
  · intro q
    rcases hs.sides q with ⟨e, rest, hside⟩
    have hmore := (sublist_cons_self x w.sent).countP_le (p := bySender q.other)
    by_cases hq : q = p
    · cases hq
      rcases hside.on.encrypt horderly hencrypt with ⟨hon, hnr, hskipped⟩
      have hpassed : s.passed rest = (w.sessions p).passed rest := by
        unfold Session.passed
        rw [hnr]
      refine ⟨e, rest, hside.view, ?_, ?_, ?_, ?_⟩
      · dsimp only
        rw [update_self, ← hsender, countP_bySender_self, hsender]
        exact hon
      · dsimp only
        rw [update_self, hpassed, hskipped]
        exact hside.keeps.encrypt hside.ahead x
      · dsimp only
        rw [update_self, hpassed]
        exact Nat.le_trans hside.ahead hmore
      · dsimp only
        rw [update_self, hpassed]
        exact hside.behind
    · refine ⟨e, rest, hside.view, ?_, ?_, ?_, ?_⟩
      · dsimp only
        rw [update_of_ne hq, countP_bySender_ne (hsender.trans_ne (Ne.symm hq))]
        exact hside.on
      · dsimp only
        rw [update_of_ne hq]
        exact hside.keeps.encrypt hside.ahead x
      · dsimp only
        rw [update_of_ne hq]
        exact Nat.le_trans hside.ahead hmore
      · dsimp only
        rw [update_of_ne hq]
        exact hside.behind

theorem Conversation.Side.accept_kept (hsynced : w.Synced crypto shared es)
    (hside : w.Side crypto shared es p e rest) {n : Nat}
    (hnth : IsNth (bySender p.other) x n w.sent) {mk : key}
    (hget : (w.sessions p).skipped.get? x.message.header.label = some mk)
    (hreceiver : a.receiver = p) (hmessage : a.message = x.message) :
    Conversation.Side crypto shared
      { w with
        sessions := Function.update w.sessions p
          { w.sessions p with
            skipped := (w.sessions p).skipped.erase x.message.header.label }
        accepted := a :: w.accepted
        ratchets := ratchets } es p e rest := by
  have hon := hside.on
  refine ⟨hside.view, ?_, ?_, ?_, ?_⟩
  · dsimp only
    rw [update_self]
    exact ⟨hon.dhs, hon.dhr, hon.rk, hon.cks, hon.ckr, hon.ns, hon.pn, hon.quiet⟩
  · dsimp only
    rw [update_self]
    exact hside.keeps.erase (hsynced.labelled _) hnth (Option.isSome_of_eq_some hget) hreceiver
      hmessage
  · dsimp only
    rw [update_self]
    exact hside.ahead
  · dsimp only
    rw [update_self]
    exact hside.behind

theorem Conversation.Arrives.accept {u : Session secret root chain key entropy} {ex : Epoch secret}
    {rx : List (Epoch secret)} (h : w.Arrives crypto shared p u e (ex :: rx)) {n : Nat}
    (hnth : IsNth (bySender p.other) x n w.sent) (hcounted : u.nr.toNat + 1 < UInt32.size)
    (hpassed : u.passed (ex :: rx) = n) {es' : List (Epoch secret)}
    (hview : view p es' = e :: ex :: rx)
    (hbehind : forall l, es' = l :: e :: ex :: rx -> n < l.before) (hreceiver : a.receiver = p)
    (hmessage : a.message = x.message) : Conversation.Side crypto shared
      { w with
        sessions := Function.update w.sessions p (u.advance crypto)
        accepted := a :: w.accepted
        ratchets := ratchets } es' p e (ex :: rx) := by
  rcases h.on.advance hcounted with ⟨hon, hnr⟩
  have hnext : (u.advance crypto).passed (ex :: rx) = n + 1 := by
    unfold Session.passed at hpassed ⊢
    rw [hnr, ← hpassed, Nat.add_assoc]
  refine ⟨hview, ?_, ?_, ?_, ?_⟩
  · dsimp only
    rw [update_self]
    exact hon
  · dsimp only
    rw [update_self, hnext]
    have hkeeps := h.keeps
    rw [hpassed] at hkeeps
    exact hkeeps.advance hnth hreceiver hmessage
  · dsimp only
    rw [update_self, hnext]
    exact hnth.lt_countP
  · intro l hes
    dsimp only
    rw [update_self, hnext]
    exact hbehind l hes

theorem Conversation.Side.others {q : Party} (hside : w.Side crypto shared es q e rest) (hq : q ≠ p)
    {es' : List (Epoch secret)} (hview : Ratchet.view q es' = e :: rest)
    (hbehind : forall l, es' = l :: e :: rest -> (w.sessions q).passed rest <= l.before)
    (hreceiver : a.receiver = p) : Conversation.Side crypto shared
      { w with
        sessions := Function.update w.sessions p s
        accepted := a :: w.accepted
        ratchets := ratchets } es' q e rest := by
  have hother : a.receiver ≠ q := hreceiver.trans_ne (Ne.symm hq)
  refine ⟨hview, ?_, ?_, ?_, ?_⟩
  · dsimp only
    rw [update_of_ne hq]
    exact hside.on
  · dsimp only
    rw [update_of_ne hq]
    exact hside.keeps.others hother
  · dsimp only
    rw [update_of_ne hq]
    exact hside.ahead
  · dsimp only
    rw [update_of_ne hq]
    exact hbehind

theorem Conversation.Synced.begins (hs : w.Synced crypto shared es)
    (hside : w.Side crypto shared es p e rest) {ex : Epoch secret} (hes : es = ex :: e :: rest)
    {g : Epoch secret} (hg : crypto.publicKey g.own ∉ w.ratchets)
    (hbefore : g.before = w.sent.countP (bySender p)) :
    ((g :: es).map (fun e => crypto.publicKey e.own)).Nodup ∧
      (forall e rest, (e :: rest) <:+ (g :: es) -> rest.length <= 2 -> e.before = 0) ∧
      (forall q x n, IsNth (bySender q) x n w.sent ->
        exists e rest, x.On crypto shared (g :: es) n e rest) := by
  refine ⟨?_, ?_, ?_⟩
  · rw [map_cons, nodup_cons]
    refine ⟨?_, hs.fresh⟩
    intro hmem
    rcases mem_map.mp hmem with ⟨e', he', hsame⟩
    apply hg
    rw [← hsame]
    exact hs.known e' he'
  · intro e' rest' hsuffix hlength
    rcases suffix_cons_iff.mp hsuffix with heq | hrest
    · cases heq
      -- no message has been sent before
      rw [hes, length_cons, length_cons] at hlength
      have hempty := eq_nil_of_length_eq_zero (Nat.le_zero.mp (Nat.le_of_succ_le_succ
        (Nat.le_of_succ_le_succ hlength)))
      rw [hempty] at hside
      have hquiet := hside.on.quiet hside.on.cks
      have hstart := hs.first e [] (view_suffix hside.view) (Nat.zero_le _)
      rw [hbefore, hside.on.ns, hstart, hquiet]
      rfl
    · exact hs.first e' rest' hrest hlength
  · intro q x n hnth
    rcases hs.sent q x n hnth with ⟨e', rest', hx⟩
    refine ⟨e', rest', hx.cons ?_⟩
    intro hparity
    rw [hes, length_cons, length_cons] at hparity
    have hown := view_parity hside.view
    have hsender : x.sender = p := Party.parity_injective (by omega)
    rw [hbefore, ← hsender, sender_of_isNth hnth]
    exact hnth.lt_countP

theorem Conversation.Synced.accept (hagrees : crypto.Agrees) (hs : w.Synced crypto shared es)
    {msg : Message} (horderly : w.Orderly crypto (.decrypt p msg ad))
    (hdecrypt : (w.sessions p).decrypt crypto msg ad = (.ok plaintext, s)) {n : Nat}
    (hnth : IsNth (bySender p.other) x n w.sent) (hmessage : x.message = msg)
    (hnew : ¬ Took w.accepted p msg) : exists es', Conversation.Synced crypto shared
      { w with
        sessions := Function.update w.sessions p s
        accepted := ⟨p, msg, ad, plaintext⟩ :: w.accepted
        ratchets := crypto.publicKey s.dhs :: w.ratchets } es' := by
  cases hmessage
  have hknown : forall e, e ∈ es ->
      crypto.publicKey e.own ∈ crypto.publicKey s.dhs :: w.ratchets :=
    fun e he => mem_cons_of_mem _ (hs.known e he)
  rcases hs.sides p with ⟨e, rest, hside⟩
  rcases Session.decrypt_ok hdecrypt with ⟨mk, hget, _, rfl⟩ | ⟨hnone, _, ck, hchain, _, rfl⟩
  · refine ⟨es, hs.fresh, hknown, hs.first, hs.sent, ?_⟩
    intro q
    by_cases hq : q = p
    · cases hq
      exact ⟨e, rest, hside.accept_kept hs hnth hget rfl rfl⟩
    · rcases hs.sides q with ⟨eq, restq, hsideq⟩
      exact ⟨eq, restq, hsideq.others hq hsideq.view hsideq.behind rfl⟩
  · have hle : (w.sessions p).passed rest <= n := by
      apply Nat.not_lt.mp
      intro hlt
      rcases hside.keeps.missed x n hnth hlt with htook | hsome
      · exact hnew htook
      · rw [hnone] at hsome
        cases hsome
    rcases hs.sent _ x n hnth with ⟨ex, rx, hx⟩
    rcases hside.reaches hagrees hs hnth hx hle with ⟨e', hreached, harrives, hpassed⟩
    rcases harrives.passOver hs hnth hx hpassed with ⟨_, _, _, hover, hnumber, hnr⟩
    have hcounted := hx.counted
    rw [← hnr] at hcounted
    cases hreached with
    | stays hrest hdhr =>
        refine ⟨es, hs.fresh, hknown, hs.first, hs.sent, ?_⟩
        intro q
        by_cases hq : q = p
        · cases hq
          refine ⟨e, ex :: rx, hover.accept hnth hcounted hnumber ?_ ?_ rfl rfl⟩
          · rw [hside.view, hrest]
          · intro l hes
            have hlength : rx.length < (e :: ex :: rx).length :=
              Nat.lt_succ_of_lt (Nat.lt_succ_self _)
            apply hx.older l (e :: ex :: rx) (by rw [hes]) ?_ hlength
            rw [length_cons, length_cons]
            omega
        · rcases hs.sides q with ⟨eq, restq, hsideq⟩
          exact ⟨eq, restq, hsideq.others hq hsideq.view hsideq.behind rfl⟩
    | turns hes hrx hdhr =>
        have hdrawn : (((w.sessions p).toChain crypto x.message.header).passOver crypto
            x.message.header.msgNum).dhs = (crypto.generate (w.sessions p).rng).fst :=
          hover.on.dhs
        have hbegins := hs.begins hside hes
          (g := ⟨(crypto.generate (w.sessions p).rng).fst, w.sent.countP (bySender p)⟩)
          horderly rfl
        have hview := hside.view
        rw [hes] at hview
        refine ⟨⟨(crypto.generate (w.sessions p).rng).fst, w.sent.countP (bySender p)⟩ :: es,
          hbegins.left, ?_, hbegins.right.left, hbegins.right.right, ?_⟩
        · intro e' he'
          rcases mem_cons.mp he' with rfl | he'
          · refine mem_cons.mpr (Or.inl ?_)
            exact congrArg crypto.publicKey hdrawn.symm
          · exact hknown e' he'
        · intro q
          by_cases hq : q = p
          · cases hq
            refine ⟨_, ex :: rx, hover.accept hnth hcounted hnumber ?_ ?_ rfl rfl⟩
            · rw [hes, hrx]
              exact view_cons_self hview
            · intro l heq
              have hlength := congrArg List.length heq
              rw [hes, hrx] at hlength
              simp only [length_cons] at hlength
              omega
          · rcases hs.sides q with ⟨eq, restq, hsideq⟩
            have hother : q = p.other := Party.eq_other_iff.mpr hq
            have hviewq := hsideq.view
            rw [hother, hes, (view_cons_other hview (g := ex)).left] at hviewq
            cases hviewq
            refine ⟨ex, e :: rest, hsideq.others hq ?_ ?_ rfl⟩
            · rw [hother, hes]
              exact (view_cons_other hview).right
            · intro l heq
              rw [hes] at heq
              cases heq
              have hahead := hsideq.ahead
              rw [hother, show p.other.other = p by cases p <;> rfl] at hahead
              rw [hother]
              exact hahead

theorem Conversation.Synced.reseed (hs : w.Synced crypto shared es) (rng : entropy) :
    Conversation.Synced crypto shared
      { w with sessions := Function.update w.sessions p { w.sessions p with rng := rng } } es := by
  refine ⟨hs.fresh, hs.known, hs.first, hs.sent, ?_⟩
  intro q
  rcases hs.sides q with ⟨e, rest, hside⟩
  have hsame : (Function.update w.sessions p { w.sessions p with rng := rng } q) =
      { w.sessions q with rng := (Function.update w.sessions p
        { w.sessions p with rng := rng } q).rng } := by
    by_cases hq : q = p
    · rw [hq, update_self]
    · rw [update_of_ne hq]
  have hon := hside.on
  refine ⟨e, rest, hside.view, ?_, ?_, ?_, ?_⟩
  · dsimp only
    rw [hsame]
    exact ⟨hon.dhs, hon.dhr, hon.rk, hon.cks, hon.ckr, hon.ns, hon.pn, hon.quiet⟩
  · dsimp only
    rw [hsame]
    exact hside.keeps
  · dsimp only
    rw [hsame]
    exact hside.ahead
  · dsimp only
    rw [hsame]
    exact hside.behind

theorem Conversation.synced_step (hcrypto : crypto.Ideal) (hagrees : crypto.Agrees)
    (hshared : crypto.kdfRk.Underived shared) {here : Party -> Place dhout} {call : Call}
    (hsound : w.Sound crypto shared here) (hs : w.Synced crypto shared es)
    (hideal : w.Ideal crypto shared call) (horderly : w.Orderly crypto call)
    (h : w.step crypto call = some w') : exists es', w'.Synced crypto shared es' := by
  cases call with
  | encrypt p plaintext ad =>
      unfold Conversation.step at h
      dsimp only at h
      split at h
      · rename_i e s hencrypt
        cases h
        rw [Session.encrypt_error hencrypt, update_eq_self]
        exact ⟨es, hs⟩
      · rename_i message s hencrypt
        cases h
        exact ⟨es, hs.encrypt horderly hencrypt⟩
  | decrypt p msg ad =>
      unfold Conversation.step at h
      dsimp only at h
      split at h
      · rename_i e s hdecrypt
        cases h
        rw [Session.decrypt_error hdecrypt]
        exact ⟨es, hs.reseed s.rng⟩
      · rename_i plaintext s hdecrypt
        cases h
        rcases hsound.decrypt hcrypto hshared hideal hdecrypt with ⟨here', hsound'⟩
        rcases hsound'.genuine _ mem_cons_self with ⟨x, hx, hsender, hmessage, _⟩
        have hother : x.sender = p.other := Party.eq_other_iff.mpr hsender
        have htest : bySender p.other x = true := decide_eq_true hother
        rcases exists_isNth_of_mem hx htest with ⟨n, hnth⟩
        refine hs.accept hagrees horderly hdecrypt hnth hmessage ?_
        intro htook
        rcases htook with ⟨a, ha, _, hsame⟩
        apply (pairwise_cons.mp hsound'.once).left a ha
        exact congrArg Message.ciphertext hsame.symm

theorem synced_start {prekey : secret} {rng : Party -> entropy}
    (hfirst : crypto.publicKey (crypto.generate (rng .initiator)).fst ≠ crypto.publicKey prekey)
    (maxSkip : Party -> UInt32) :
    (Conversation.start crypto shared prekey rng maxSkip).Synced crypto shared
      [⟨(crypto.generate (rng .initiator)).fst, 0⟩, ⟨prekey, 0⟩] := by
  have hkeeps : forall p, Keeps ([] : List (Sent key)) [] p Dict.empty 0 :=
    fun p => ⟨nofun, nofun, nofun, Nat.le_refl _⟩
  refine ⟨?_, ?_, ?_, nofun, ?_⟩
  · exact nodup_cons.mpr ⟨fun hmem => hfirst (mem_singleton.mp hmem),
      nodup_singleton _⟩
  · intro e he
    exact mem_map_of_mem (f := fun e : Epoch secret => crypto.publicKey e.own) he
  · intro e rest hsuffix _
    rcases mem_cons.mp (hsuffix.subset mem_cons_self) with rfl | hmem
    · rfl
    · cases mem_singleton.mp hmem
      rfl
  · intro p
    cases p with
    | initiator =>
        refine ⟨⟨(crypto.generate (rng .initiator)).fst, 0⟩, [⟨prekey, 0⟩], by simp [view, Party.parity],
          ⟨rfl, rfl, rfl, rfl, rfl, rfl, rfl, nofun⟩, hkeeps _, Nat.le_refl _, ?_⟩
        intro l hes
        cases hes
    | responder =>
        exact ⟨⟨prekey, 0⟩, [], by simp [view, Party.parity],
          ⟨rfl, rfl, rfl, rfl, rfl, rfl, rfl, fun _ => rfl⟩, hkeeps _, Nat.le_refl _, fun _ _ => Nat.zero_le _⟩

/-!
## Messages that were lost
-/

instance (accepted : List Accepted) (p : Party) (msg : Message) : Decidable (Took accepted p msg) :=
  inferInstanceAs (Decidable (exists a, a ∈ accepted ∧ a.receiver = p ∧ a.message = msg))

/-- A message of the other party that has not been accepted. -/
def missing (accepted : List Accepted) (p : Party) (y : Sent key) : Bool :=
  bySender p.other y && !decide (Took accepted p y.message)

theorem Conversation.Sound.nodup_messages {here : Party -> Place dhout} (hcrypto : crypto.Ideal)
    (hs : w.Sound crypto shared here) : (w.sent.map Sent.message).Nodup := by
  apply pairwise_map.mpr
  apply hs.distinct.imp_of_mem
  intro x y hx hy hkeys hsame
  rcases hs.sent x hx with ⟨_, _, mk, _, hat⟩
  rcases hs.sent y hy with ⟨_, _, mk', _, hat'⟩
  have hunder : crypto.aead.Under mk x.message.ciphertext := ⟨_, _, hat.ciphertext.symm⟩
  have hunder' : crypto.aead.Under mk' x.message.ciphertext := by
    rw [hsame]
    exact ⟨_, _, hat'.ciphertext.symm⟩
  apply hkeys
  rw [hat.messageKey, hat'.messageKey, Aead.under_unique hcrypto.aead hunder hunder']

theorem le_missing {accepted : List Accepted} {earlier : List (Sent key)}
    (hnodup : (earlier.map Sent.message).Nodup) :
    earlier.countP (bySender p.other) <=
      accepted.countP (byReceiver p) + earlier.countP (missing accepted p) := by
  have htaken : earlier.countP
      (fun y => bySender p.other y && decide (Took accepted p y.message)) <=
        ((accepted.filter (byReceiver p)).map Accepted.message).length := by
    apply countP_le_of_image hnodup
    intro y hy hkeep
    rcases of_decide_eq_true (Bool.and_eq_true_iff.mp hkeep).right with ⟨a, ha, hreceiver, hsame⟩
    refine mem_map.mpr ⟨a, mem_filter.mpr ⟨ha, decide_eq_true hreceiver⟩, hsame⟩
  rw [length_map, ← countP_eq_length_filter] at htaken
  have hsplit : forall ys : List (Sent key), ys.countP (bySender p.other) =
      ys.countP (fun y => bySender p.other y && decide (Took accepted p y.message)) +
        ys.countP (missing accepted p) := by
    intro ys
    induction ys with
    | nil => rfl
    | cons y ys ih =>
        rw [countP_cons, countP_cons, countP_cons, ih]
        unfold missing
        cases bySender p.other y <;> cases decide (Took accepted p y.message) <;> simp <;> omega
  rw [hsplit earlier]
  exact Nat.add_le_add_right htaken _

/--
A message that has not been accepted is accepted when it is delivered, if a later one has
been accepted, or if its receiver may keep as many keys as messages before it are missing.
-/
theorem lost_messages_do_not_block (hcrypto : crypto.Ideal) (hagrees : crypto.Agrees)
    (hshared : crypto.kdfRk.Underived shared) {prekey : secret} {rng : Party -> entropy}
    (hfirst : crypto.publicKey (crypto.generate (rng .initiator)).fst ≠ crypto.publicKey prekey)
    {maxSkip : Party -> UInt32} {calls : List Call}
    (hideal : Along (Conversation.step crypto) (Conversation.Ideal crypto shared)
      (Conversation.start crypto shared prekey rng maxSkip) calls)
    (horderly : Along (Conversation.step crypto) (Conversation.Orderly crypto)
      (Conversation.start crypto shared prekey rng maxSkip) calls)
    (hrun : run? (Conversation.step crypto)
      (Conversation.start crypto shared prekey rng maxSkip) calls = some w)
    {x : Sent key} {later earlier : List (Sent key)} (hsent : w.sent = later ++ x :: earlier)
    (hsender : x.sender = p.other) (hnew : ¬ Took w.accepted p x.message)
    (hfew : (exists y, y ∈ later ∧ y.sender = x.sender ∧ Took w.accepted p y.message) ∨
      earlier.countP (missing w.accepted p) <= (w.sessions p).maxSkip.toNat) :
    exists s', (w.sessions p).decrypt crypto x.message x.ad = (.ok x.plaintext, s') := by
  have hinv : (exists here, w.Sound crypto shared here) ∧ exists es, w.Synced crypto shared es := by
    apply @run?_invariant_along _ _ _ _
      (fun w => (exists here, w.Sound crypto shared here) ∧ exists es, w.Synced crypto shared es)
      _ _ _ _ ⟨sound_start prekey rng maxSkip, _, synced_start hfirst maxSkip⟩
      (along_and hideal horderly) hrun
    intro _ _ _ ⟨⟨here, hsound⟩, es, hs⟩ ⟨hcond, hcond'⟩ hstep
    exact ⟨Conversation.sound_step hcrypto hshared hsound hcond hstep,
      Conversation.synced_step hcrypto hagrees hshared hsound hs hcond hcond' hstep⟩
  rcases hinv with ⟨⟨here, hsound⟩, es, hs⟩
  rcases hs.sides p with ⟨e, rest, hside⟩
  have htest : bySender p.other x = true := decide_eq_true hsender
  have hnth := isNth_append_cons htest later earlier
  rw [← hsent] at hnth
  by_cases hpassed : earlier.countP (bySender p.other) < (w.sessions p).passed rest
  · exact hside.accepts_passed hcrypto hs hnth hnew hpassed
  · have hle := Nat.not_lt.mp hpassed
    apply hside.accepts_ahead hcrypto hagrees hs hnth hle
    rcases hfew with ⟨y, hy, hsame, a, ha, hreceiver, hmessage⟩ | hfew
    · -- a later message that was accepted has been passed
      exfalso
      rcases hside.keeps.taken a ha hreceiver with ⟨z, m, hz, hm, hzmessage⟩
      have hytest : bySender p.other y = true := decide_eq_true (hsame.trans hsender)
      rcases append_of_mem hy with ⟨newest, newer, rfl⟩
      have hynth := isNth_append_cons hytest newest (newer ++ x :: earlier)
      rw [show newest ++ y :: (newer ++ x :: earlier) = w.sent by
        rw [hsent, append_assoc]
        rfl] at hynth
      have hnumber := hs.labelled _ z y m _ hz hynth
        (congrArg (fun msg => msg.header.label) (hzmessage.trans hmessage))
      rw [countP_append, countP_cons_of_pos htest] at hnumber
      omega
    · have hnodup : (earlier.map Sent.message).Nodup := by
        have hall := hsound.nodup_messages hcrypto
        rw [hsent] at hall
        have hsublist : earlier.Sublist (later ++ x :: earlier) :=
          (sublist_cons_self x earlier).trans (sublist_append_right _ _)
        exact hall.sublist (hsublist.map Sent.message)
      have hmissing := @le_missing _ p w.accepted _ hnodup
      have hsize := hside.keeps.size
      omega

end Losses

namespace Plain

theorem agrees : crypto.Agrees :=
  fun a b => Nat.mul_comm a.toNat b.toNat

instance (w : World) (call : Call) : Decidable (w.Orderly crypto call) :=
  match call with
  | .encrypt p _ _ =>
      inferInstanceAs (Decidable ((w.sessions p).ns.toNat + 1 < UInt32.size))
  | .decrypt p _ _ =>
      inferInstanceAs (Decidable
        (crypto.publicKey (crypto.generate (w.sessions p).rng).fst ∉ w.ratchets))

def losses (maxSkip : UInt32) : List Call :=
  calls (begin maxSkip) [.say .initiator [65], .say .initiator [66], .bring .responder 1,
    .say .responder [67], .bring .initiator 2, .say .initiator [68], .say .initiator [69]]

def lossy (maxSkip : UInt32) : World :=
  (run? (Conversation.step crypto) (begin maxSkip) (losses maxSkip)).getD (begin maxSkip)

theorem run_lossy (maxSkip : UInt32)
    (h : (run? (Conversation.step crypto) (begin maxSkip) (losses maxSkip)).isSome = true) :
    run? (Conversation.step crypto) (begin maxSkip) (losses maxSkip) = some (lossy maxSkip) := by
  rcases Option.isSome_iff_exists.mp h with ⟨w, hw⟩
  unfold lossy
  rw [hw]
  rfl

def last (maxSkip : UInt32) : Sent (List Nat × Nat) :=
  (lossy maxSkip).sent.headD ⟨.initiator, none, [], [], ⟨⟨0, 0, 0⟩, []⟩⟩

end Plain

theorem lost_messages_do_not_block_last :
    exists s', ((Plain.lossy 2).sessions .responder).decrypt Plain.crypto (Plain.last 2).message
      (Plain.last 2).ad = (.ok [69], s') := by
  have hrun := Plain.run_lossy 2 (by decide)
  have hconds : Along (Conversation.step Plain.crypto)
      (fun w call => Plain.Genuine w call ∧ w.Orderly Plain.crypto call) (Plain.begin 2)
      (Plain.losses 2) := by
    decide
  have hsent : (Plain.lossy 2).sent = [] ++ Plain.last 2 :: (Plain.lossy 2).sent.tail := by
    rfl
  have hfacts : (Plain.last 2).sender = .initiator ∧
      ¬ Took (Plain.lossy 2).accepted .responder (Plain.last 2).message ∧
      (Plain.lossy 2).sent.tail.countP (missing (Plain.lossy 2).accepted .responder) <= 2 ∧
      ((Plain.lossy 2).sessions .responder).maxSkip = 2 ∧ (Plain.last 2).plaintext = [69] := by
    decide
  rcases hfacts with ⟨hsender, hnew, hfew, hmaxSkip, hplaintext⟩
  have haccept := lost_messages_do_not_block (p := .responder) Plain.ideal Plain.agrees
    Plain.underived (by decide) (along_mono (fun w call h => Plain.ideal_of_genuine w call h.left) hconds)
    (along_mono (fun _ _ h => h.right) hconds) hrun hsent hsender hnew
    (Or.inr (by rw [hmaxSkip]; exact hfew))
  rw [hplaintext] at haccept
  exact haccept

/-!
Keys that are kept for messages lost on earlier chains count: with a bound of one, a message
is refused though only one is missing on its own chain, and one on the chain that it ends.
-/

def missingOn {key : Type} (accepted : List Accepted) (p : Party) (earlier : List (Sent key))
    (pub : PublicKey) : Nat :=
  earlier.countP (fun y => missing accepted p y && decide (y.message.header.ratchetPub = pub))

/-- Of the messages before it, no more are missing on either chain than the bound. -/
def Conversation.Near {secret root chain key entropy : Type}
    (w : Conversation secret root chain key entropy) (p : Party) (x : Sent key)
    (earlier : List (Sent key)) : Prop :=
  missingOn w.accepted p earlier x.message.header.ratchetPub <= (w.sessions p).maxSkip.toNat ∧
    (w.sessions p).dhr.elim 0 (missingOn w.accepted p earlier) <=
      (w.sessions p).maxSkip.toNat

theorem earlier_losses_block :
    ¬ (forall (maxSkip : UInt32) (calls : List Call) (w : Plain.World) (p : Party)
      (x : Sent (List Nat × Nat)) (later earlier : List (Sent (List Nat × Nat))),
      Along (Conversation.step Plain.crypto) (Conversation.Ideal Plain.crypto [])
        (Plain.begin maxSkip) calls ->
      Along (Conversation.step Plain.crypto) (Conversation.Orderly Plain.crypto)
        (Plain.begin maxSkip) calls ->
      run? (Conversation.step Plain.crypto) (Plain.begin maxSkip) calls = some w ->
      w.sent = later ++ x :: earlier -> x.sender = p.other ->
      ¬ Took w.accepted p x.message -> w.Near p x earlier ->
        exists s', (w.sessions p).decrypt Plain.crypto x.message x.ad = (.ok x.plaintext, s')) := by
  intro hall
  have hconds : Along (Conversation.step Plain.crypto)
      (fun w call => Plain.Genuine w call ∧ w.Orderly Plain.crypto call) (Plain.begin 1)
      (Plain.losses 1) := by
    decide
  have hsent : (Plain.lossy 1).sent = [] ++ Plain.last 1 :: (Plain.lossy 1).sent.tail := by
    rfl
  have hfacts : (Plain.last 1).sender = .initiator ∧
      ¬ Took (Plain.lossy 1).accepted .responder (Plain.last 1).message ∧
      (missingOn (Plain.lossy 1).accepted .responder (Plain.lossy 1).sent.tail
          (Plain.last 1).message.header.ratchetPub <=
            ((Plain.lossy 1).sessions .responder).maxSkip.toNat ∧
        ((Plain.lossy 1).sessions .responder).dhr.elim 0
          (missingOn (Plain.lossy 1).accepted .responder (Plain.lossy 1).sent.tail) <=
            ((Plain.lossy 1).sessions .responder).maxSkip.toNat) ∧
      (((Plain.lossy 1).sessions .responder).decrypt Plain.crypto (Plain.last 1).message
        (Plain.last 1).ad).fst.toOption = none := by
    decide
  rcases hfacts with ⟨hsender, hnew, hnear, hrefused⟩
  rcases hall 1 (Plain.losses 1) (Plain.lossy 1) .responder (Plain.last 1) []
    (Plain.lossy 1).sent.tail
    (along_mono (fun w call h => Plain.ideal_of_genuine w call h.left) hconds)
    (along_mono (fun _ _ h => h.right) hconds) (Plain.run_lossy 1 (by decide)) hsent
    hsender hnew hnear with ⟨s', haccept⟩
  rw [haccept] at hrefused
  cases hrefused

end Ratchet
end Rabbithole.E2ee
