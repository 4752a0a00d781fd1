import Rabbithole.E2ee.Conversation
import Rabbithole.Foundation.Numbering

/-!
# Chains in turn

The two parties take turns at beginning a chain.  Of each it matters under which ratchet key
it is sent, and how many messages the party had sent before.  One party stands at the newest
chain and the other at the one before it.
-/

namespace Rabbithole.E2ee
namespace Ratchet

open Foundation List

variable {secret root dhout chain key entropy : Type}

structure Epoch (secret : Type) where
  own : secret
  before : Nat

/-- What has gone into the root, each ratchet key mixed with the one before it. -/
def mixes (crypto : RatchetCrypto secret root dhout chain key entropy) :
    List (Epoch secret) -> List dhout
  | [] => []
  | [_] => []
  | e :: e' :: rest => crypto.dh e.own (crypto.publicKey e'.own) :: mixes crypto (e' :: rest)

def startOf : List (Epoch secret) -> Nat
  | [] => 0
  | e :: _ => e.before

def view (p : Party) (es : List (Epoch secret)) : List (Epoch secret) :=
  if (es.length + 1) % 2 = p.parity then es else es.tail

variable (crypto : RatchetCrypto secret root dhout chain key entropy) (shared : root)

/-- A message that was sent on a chain, as the sender's messages are numbered. -/
structure Sent.On (es : List (Epoch secret)) (x : Sent key) (n : Nat) (e : Epoch secret)
    (rest : List (Epoch secret)) : Prop where
  suffix : (e :: rest) <:+ es
  sender : rest.length % 2 = x.sender.parity
  ratchetPub : x.message.header.ratchetPub = crypto.publicKey e.own
  number : n = e.before + x.message.header.msgNum.toNat
  counted : x.message.header.msgNum.toNat + 1 < UInt32.size
  prev : e.before = startOf rest.tail + x.message.header.prevChainLen.toNat
  key : exists mk,
    x.At crypto shared (mixes crypto (e :: rest)) x.message.header.msgNum.toNat mk
  older : forall e' rest', (e' :: rest') <:+ es -> rest'.length % 2 = rest.length % 2 ->
    rest.length < rest'.length -> n < e'.before

structure Session.On (s : Session secret root chain key entropy) (e : Epoch secret)
    (rest : List (Epoch secret)) (total : Nat) : Prop where
  dhs : s.dhs = e.own
  dhr : s.dhr = rest.head?.map (fun r => crypto.publicKey r.own)
  rk : s.rk = crypto.kdfRk.path shared (mixes crypto (e :: rest))
  cks : s.cks = (crypto.kdfRk.chainAt shared (mixes crypto (e :: rest))).map
    (crypto.kdfCk.after s.ns.toNat)
  ckr : s.ckr = (crypto.kdfRk.chainAt shared (mixes crypto rest)).map
    (crypto.kdfCk.after s.nr.toNat)
  ns : total = e.before + s.ns.toNat
  pn : e.before = startOf rest.tail + s.pn.toNat
  quiet : s.cks = none -> s.ns = 0

def Session.passed (s : Session secret root chain key entropy) (rest : List (Epoch secret)) : Nat :=
  startOf rest + s.nr.toNat

variable {crypto} {shared} {es : List (Epoch secret)}

theorem length_mixes (e : Epoch secret) (rest : List (Epoch secret)) :
    (mixes crypto (e :: rest)).length = rest.length := by
  induction rest generalizing e with
  | nil => rfl
  | cons e' rest ih => exact congrArg Nat.succ (ih e')

variable {e e' : Epoch secret} {rest rest' : List (Epoch secret)} {p : Party} {x : Sent key}

theorem suffix_eq_of_length (h : (e :: rest) <:+ es) (h' : (e' :: rest') <:+ es)
    (hlength : rest.length = rest'.length) : e = e' ∧ rest = rest' := by
  have hcons : (e :: rest).length = (e' :: rest').length := congrArg Nat.succ hlength
  have hsuffix := suffix_of_suffix_length_le h h' (Nat.le_of_eq hcons)
  exact List.cons.inj (hsuffix.eq_of_length hcons)

theorem suffix_eq_of_publicKey (hnodup : (es.map (fun e => crypto.publicKey e.own)).Nodup)
    (h : (e :: rest) <:+ es) (h' : (e' :: rest') <:+ es)
    (hsame : crypto.publicKey e.own = crypto.publicKey e'.own) : e = e' ∧ rest = rest' := by
  have hlt : forall {e e' : Epoch secret} {rest rest' : List (Epoch secret)},
      (e :: rest) <:+ es -> (e' :: rest') <:+ es ->
        crypto.publicKey e.own = crypto.publicKey e'.own -> ¬ rest.length < rest'.length := by
    intro e e' rest rest' h h' hsame hlt
    have hsuffix : (e :: rest) <:+ rest' := by
      have hle : (e :: rest).length <= (e' :: rest').length := Nat.succ_le_succ (Nat.le_of_lt hlt)
      rcases suffix_cons_iff.mp (suffix_of_suffix_length_le h h' hle) with heq | hrest
      · exact absurd (congrArg List.length heq) (Nat.ne_of_lt (Nat.succ_lt_succ hlt))
      · exact hrest
    have hnodup' := hnodup.sublist (h'.sublist.map (fun e => crypto.publicKey e.own))
    rw [map_cons, nodup_cons] at hnodup'
    apply hnodup'.left
    rw [← hsame]
    exact mem_map_of_mem (hsuffix.subset mem_cons_self)
  apply suffix_eq_of_length h h'
  rcases Nat.lt_trichotomy rest.length rest'.length with hless | hequal | hmore
  · exact absurd hless (hlt h h' hsame)
  · exact hequal
  · exact absurd hmore (hlt h' h hsame.symm)

theorem Sent.On.number_eq (hnodup : (es.map (fun e => crypto.publicKey e.own)).Nodup) {y : Sent key}
    {n m : Nat} (hx : x.On crypto shared es n e rest) (hy : y.On crypto shared es m e' rest')
    (hlabel : x.message.header.label = y.message.header.label) : n = m := by
  have hfields := Prod.mk.inj hlabel
  have hsame : crypto.publicKey e.own = crypto.publicKey e'.own :=
    hx.ratchetPub.symm.trans (hfields.left.trans hy.ratchetPub)
  rcases suffix_eq_of_publicKey hnodup hx.suffix hy.suffix hsame with ⟨rfl, rfl⟩
  rw [hx.number, hy.number, hfields.right]

theorem Sent.On.cons {x : Sent key} {n : Nat} {e g : Epoch secret} {rest : List (Epoch secret)}
    (hx : x.On crypto shared es n e rest) (hlt : es.length % 2 = x.sender.parity -> n < g.before) :
    x.On crypto shared (g :: es) n e rest where
  suffix := hx.suffix.trans (suffix_cons _ _)
  sender := hx.sender
  ratchetPub := hx.ratchetPub
  number := hx.number
  counted := hx.counted
  prev := hx.prev
  key := hx.key
  older e' rest' hsuffix hparity hlength := by
    rcases suffix_cons_iff.mp hsuffix with heq | hrest
    · cases heq
      exact hlt (hparity.trans hx.sender)
    · exact hx.older e' rest' hrest hparity hlength

/-!
## Where a party stands
-/

def Party.other : Party -> Party
  | .initiator => .responder
  | .responder => .initiator

theorem Party.eq_other_iff {q : Party} : q = p.other <-> q ≠ p := by
  cases p with
  | initiator | responder => cases q <;> decide

theorem Party.parity_other (p : Party) : p.other.parity + p.parity = 1 := by
  cases p with
  | initiator => rfl
  | responder => rfl

theorem view_parity (hview : view p es = e :: rest) : rest.length % 2 = p.parity := by
  have hparity := Party.parity_other p
  unfold view at hview
  split at hview
  · rename_i hlead
    rw [hview, length_cons] at hlead
    omega
  · rename_i hfollow
    have hlength := congrArg List.length hview
    rw [length_tail, length_cons] at hlength
    omega

theorem view_suffix (hview : view p es = e :: rest) : (e :: rest) <:+ es := by
  rw [← hview]
  unfold view
  split
  · exact suffix_refl _
  · exact tail_suffix _

theorem view_cases (hview : view p es = e :: rest) :
    es = e :: rest ∨ exists l, es = l :: e :: rest := by
  unfold view at hview
  split at hview
  · exact Or.inl hview
  · cases es with
    | nil => cases hview
    | cons l es => exact Or.inr ⟨l, congrArg (l :: ·) hview⟩

theorem view_cons_self {g l : Epoch secret} (hview : view p (l :: e :: rest) = e :: rest) :
    view p (g :: l :: e :: rest) = g :: l :: e :: rest := by
  have hparity := view_parity hview
  unfold view
  rw [if_pos]
  rw [length_cons, length_cons, length_cons]
  omega

theorem view_cons_other {g l : Epoch secret} (hview : view p (l :: e :: rest) = e :: rest) :
    view p.other (l :: e :: rest) = l :: e :: rest ∧
      view p.other (g :: l :: e :: rest) = l :: e :: rest := by
  have hparity := view_parity hview
  have hother := Party.parity_other p
  unfold view
  constructor
  · rw [if_pos]
    rw [length_cons, length_cons]
    omega
  · rw [if_neg]
    · rfl
    · rw [length_cons, length_cons, length_cons]
      omega

/-- A message of the other party: on a chain that has ended, the present one, or a new one. -/
theorem Sent.On.cases_view {n : Nat} {ex : Epoch secret} {rx : List (Epoch secret)}
    (hx : x.On crypto shared es n ex rx) (hview : view p es = e :: rest)
    (hsender : x.sender = p.other) :
    n < startOf rest ∨ rest = ex :: rx ∨ es = ex :: e :: rest ∧ rx = e :: rest := by
  have hparity := view_parity hview
  have hother := Party.parity_other p
  have hsent := hx.sender
  rw [hsender] at hsent
  have hle : es.length <= rest.length + 2 := by
    rcases view_cases hview with heq | ⟨l, heq⟩
    · rw [heq, length_cons]
      exact Nat.le_succ _
    · rw [heq, length_cons, length_cons]
  have hlength := hx.suffix.length_le
  rw [length_cons] at hlength
  rcases Nat.lt_trichotomy (rx.length + 1) rest.length with hless | hequal | hmore
  · left
    cases rest with
    | nil => cases hless
    | cons r rest =>
        rw [length_cons] at hless hparity
        apply hx.older r rest ((suffix_cons _ _).trans (view_suffix hview))
        · omega
        · omega
  · right
    left
    cases rest with
    | nil => cases hequal
    | cons r rest =>
        rw [length_cons] at hequal
        rcases suffix_eq_of_length hx.suffix
          ((suffix_cons _ _).trans (view_suffix hview)) (Nat.succ.inj hequal) with
          ⟨rfl, rfl⟩
        rfl
  · right
    right
    have hwhole := hx.suffix.eq_of_length_le (by rw [length_cons]; omega)
    rcases view_cases hview with heq | ⟨l, heq⟩
    · have hsame := congrArg List.length (hwhole.trans heq)
      rw [length_cons, length_cons] at hsame
      omega
    · have hsame := List.cons.inj (hwhole.trans heq)
      rw [← hwhole, hsame.right]
      exact ⟨rfl, rfl⟩

theorem Sent.On.same_chain {y : Sent key} {n m : Nat} {ex ey : Epoch secret}
    {rx ry : List (Epoch secret)} (hx : x.On crypto shared es n ex rx)
    (hy : y.On crypto shared es m ey ry) (hsender : x.sender = y.sender) (hstart : ex.before <= m)
    (hle : m <= n) : ey = ex ∧ ry = rx := by
  have hparity : rx.length % 2 = ry.length % 2 := by
    rw [hx.sender, hy.sender, hsender]
  apply suffix_eq_of_length hy.suffix hx.suffix
  rcases Nat.lt_trichotomy ry.length rx.length with hless | hequal | hmore
  · exact absurd (hy.older ex rx hx.suffix hparity hless) (Nat.not_lt.mpr hstart)
  · exact hequal
  · have hlt := hx.older ey ry hy.suffix hparity.symm hmore
    have hnumber := hy.number
    omega

/-!
# Keys of missed messages

What a session keeps are the keys of exactly the messages that it has passed and not accepted.
Each part of reading a message leaves it so.
-/

variable {secret root dhout chain key entropy : Type}

def bySender (p : Party) (x : Sent key) : Bool :=
  decide (x.sender = p)

def byReceiver (p : Party) (a : Accepted) : Bool :=
  decide (a.receiver = p)

/-- The party has accepted the message. -/
def Took (accepted : List Accepted) (p : Party) (msg : Message) : Prop :=
  exists a, a ∈ accepted ∧ a.receiver = p ∧ a.message = msg

/-- So many messages of the other party have been passed, and the keys of the missed kept. -/
structure Keeps (sent : List (Sent key)) (accepted : List Accepted) (p : Party)
    (skipped : Dict Label key) (passed : Nat) : Prop where
  kept : forall label mk, skipped.get? label = some mk ->
    exists y n, IsNth (bySender p.other) y n sent ∧ n < passed ∧
      y.message.header.label = label ∧ y.messageKey = some mk
  missed : forall y n, IsNth (bySender p.other) y n sent -> n < passed ->
    Took accepted p y.message ∨ (skipped.get? y.message.header.label).isSome = true
  taken : forall a, a ∈ accepted -> a.receiver = p ->
    exists y n, IsNth (bySender p.other) y n sent ∧ n < passed ∧ y.message = a.message
  size : skipped.size + accepted.countP (byReceiver p) <= passed

/-- The messages of a sender are told apart by their labels. -/
def Labelled (sent : List (Sent key)) (q : Party) : Prop :=
  forall x y n m, IsNth (bySender q) x n sent -> IsNth (bySender q) y m sent ->
    x.message.header.label = y.message.header.label -> n = m

variable {sent : List (Sent key)} {accepted : List Accepted} {p : Party}
  {skipped : Dict Label key} {passed : Nat}

variable {x : Sent key} {a : Accepted}

theorem sender_of_isNth {q : Party} {n : Nat} (h : IsNth (bySender q) x n sent) : x.sender = q :=
  of_decide_eq_true h.passes

theorem countP_cons_byReceiver (h : a.receiver = p) :
    (a :: accepted).countP (byReceiver p) = accepted.countP (byReceiver p) + 1 := by
  have htest : byReceiver p a = true := decide_eq_true h
  exact countP_cons_of_pos htest

theorem Took.cons {msg : Message} (h : Took accepted p msg) (a : Accepted) :
    Took (a :: accepted) p msg := by
  rcases h with ⟨b, hb, hsame⟩
  exact ⟨b, mem_cons_of_mem _ hb, hsame⟩

section

variable (h : Keeps sent accepted p skipped passed)
include h

theorem Keeps.encrypt (hle : passed <= sent.countP (bySender p.other)) (x : Sent key) :
    Keeps (x :: sent) accepted p skipped passed where
  kept label mk hget := by
    rcases h.kept label mk hget with ⟨y, n, hnth, hrest⟩
    exact ⟨y, n, Or.inr hnth, hrest⟩
  missed y n hnth hn := by
    rcases hnth with ⟨_, _, rfl⟩ | hnth
    · exact absurd hn (Nat.not_lt.mpr hle)
    · exact h.missed y n hnth hn
  taken a ha hreceiver := by
    rcases h.taken a ha hreceiver with ⟨y, n, hnth, hrest⟩
    exact ⟨y, n, Or.inr hnth, hrest⟩
  size := h.size

section

variable {n : Nat} (hlabelled : Labelled sent p.other) (hnth : IsNth (bySender p.other) x n sent)
include hlabelled hnth

theorem Keeps.get_label {mk : key} (hget : skipped.get? x.message.header.label = some mk) :
    n < passed ∧ x.messageKey = some mk := by
  rcases h.kept _ mk hget with ⟨y, m, hy, hm, hlabel, hmk⟩
  have hsame := hlabelled x y n m hnth hy hlabel.symm
  rw [← hsame] at hy hm
  rw [hnth.unique hy]
  exact ⟨hm, hmk⟩

theorem Keeps.erase (hkept : (skipped.get? x.message.header.label).isSome = true)
    (hreceiver : a.receiver = p) (hmessage : a.message = x.message) :
    Keeps sent (a :: accepted) p (skipped.erase x.message.header.label) passed where
  kept label mk hget := by
    rw [Dict.get?_erase] at hget
    split at hget
    · cases hget
    · exact h.kept label mk hget
  missed y m hy hm := by
    rw [Dict.get?_erase]
    split
    · rename_i hlabel
      left
      have hsame := hlabelled y x m n hy hnth hlabel
      rw [hsame] at hy
      rw [hy.unique hnth]
      exact ⟨a, mem_cons_self, hreceiver, hmessage⟩
    · rcases h.missed y m hy hm with htook | hget
      · exact Or.inl (htook.cons a)
      · exact Or.inr hget
  taken b hb hb' := by
    rcases mem_cons.mp hb with rfl | hb
    · rcases Option.isSome_iff_exists.mp hkept with ⟨mk, hget⟩
      exact ⟨x, n, hnth, (h.get_label hlabelled hnth hget).left, hmessage.symm⟩
    · exact h.taken b hb hb'
  size := by
    have herase := Dict.size_erase_add skipped x.message.header.label
    have hcontains : skipped.contains x.message.header.label = true := hkept
    have hsize := h.size
    rw [if_pos hcontains] at herase
    rw [countP_cons_byReceiver hreceiver]
    omega

end

end

theorem Keeps.advance (h : Keeps sent accepted p skipped passed) {x : Sent key}
    (hnth : IsNth (bySender p.other) x passed sent) {a : Accepted}
    (hreceiver : a.receiver = p) (hmessage : a.message = x.message) :
    Keeps sent (a :: accepted) p skipped (passed + 1) where
  kept label mk hget := by
    rcases h.kept label mk hget with ⟨y, n, hy, hn, hrest⟩
    exact ⟨y, n, hy, Nat.lt_succ_of_lt hn, hrest⟩
  missed y n hy hn := by
    rcases Nat.lt_or_eq_of_le (Nat.le_of_lt_succ hn) with hlt | rfl
    · rcases h.missed y n hy hlt with htook | hget
      · exact Or.inl (htook.cons a)
      · exact Or.inr hget
    · left
      rw [hy.unique hnth]
      exact ⟨a, mem_cons_self, hreceiver, hmessage⟩
  taken b hb hb' := by
    rcases mem_cons.mp hb with rfl | hb
    · exact ⟨x, passed, hnth, Nat.lt_succ_self _, hmessage.symm⟩
    · rcases h.taken b hb hb' with ⟨y, n, hy, hn, hsame⟩
      exact ⟨y, n, hy, Nat.lt_succ_of_lt hn, hsame⟩
  size := by
    have hsize := h.size
    rw [countP_cons_byReceiver hreceiver]
    omega

theorem Keeps.others (h : Keeps sent accepted p skipped passed) (hreceiver : a.receiver ≠ p) :
    Keeps sent (a :: accepted) p skipped passed where
  kept := h.kept
  missed y n hy hn := by
    rcases h.missed y n hy hn with htook | hget
    · exact Or.inl (htook.cons a)
    · exact Or.inr hget
  taken b hb hb' := by
    rcases mem_cons.mp hb with rfl | hb
    · exact absurd hb' hreceiver
    · exact h.taken b hb hb'
  size := by
    have htest : ¬ byReceiver p a = true := fun heq => hreceiver (of_decide_eq_true heq)
    rw [countP_cons_of_neg htest]
    exact h.size

theorem Keeps.stage {kdf : ChainKdf chain key} {dhrp : PublicKey} {nr : UInt32} {ck : chain}
    {count : Nat} (h : Keeps sent accepted p skipped passed)
    (hle : passed + count <= sent.countP (bySender p.other))
    (hkeys : forall y n, IsNth (bySender p.other) y n sent -> passed <= n ->
      n < passed + count -> y.message.header.label = (dhrp, nr + UInt32.ofNat (n - passed)) ∧
        y.messageKey = some (kdf.messageKey (kdf.after (n - passed) ck))) : Keeps sent accepted p
      (skipped.insertAll (kdf.stage (fun number => (dhrp, number)) count nr ck).fst)
      (passed + count) where
  kept label mk hget := by
    rcases Dict.get?_insertAll hget with hstaged | hkept
    · rcases ChainKdf.mem_stage hstaged with ⟨i, hi, heq⟩
      cases heq
      rcases exists_isNth (Nat.lt_of_lt_of_le (Nat.add_lt_add_left hi passed) hle) with ⟨y, hy⟩
      have hkey := hkeys y _ hy (Nat.le_add_right _ _) (Nat.add_lt_add_left hi _)
      rw [Nat.add_sub_cancel_left] at hkey
      exact ⟨y, passed + i, hy, Nat.add_lt_add_left hi _, hkey⟩
    · rcases h.kept label mk hkept with ⟨y, n, hy, hn, hrest⟩
      exact ⟨y, n, hy, Nat.lt_add_right _ hn, hrest⟩
  missed y n hy hn := by
    by_cases hpassed : n < passed
    · rcases h.missed y n hy hpassed with htook | hget
      · exact Or.inl htook
      · exact Or.inr (Dict.isSome_insertAll (Or.inr hget))
    · right
      have hkey := hkeys y n hy (Nat.not_lt.mp hpassed) hn
      apply Dict.isSome_insertAll
      rw [hkey.left]
      exact Or.inl ⟨_, ChainKdf.stage_mem (by omega)⟩
  taken a ha hreceiver := by
    rcases h.taken a ha hreceiver with ⟨y, n, hy, hn, hsame⟩
    exact ⟨y, n, hy, Nat.lt_add_right _ hn, hsame⟩
  size := by
    have hsize := h.size
    have hinsert := Dict.size_insertAll_le
      (kdf.stage (fun number => (dhrp, number)) count nr ck).fst skipped
    rw [ChainKdf.length_stage] at hinsert
    omega

/-!
## Moving along the chains
-/

variable {crypto : RatchetCrypto secret root dhout chain key entropy} {shared : root}
  {es : List (Epoch secret)} {s : Session secret root chain key entropy}

/-- Both sides of an exchange come to the same. -/
def RatchetCrypto.Agrees (crypto : RatchetCrypto secret root dhout chain key entropy) : Prop :=
  forall a b, crypto.dh a (crypto.publicKey b) = crypto.dh b (crypto.publicKey a)

theorem Session.On.turn (hagrees : crypto.Agrees) {e l : Epoch secret}
    {rest : List (Epoch secret)} {total : Nat} (h : s.On crypto shared e rest total) :
    (s.turn crypto (crypto.publicKey l.own)).On crypto shared
      ⟨(crypto.generate s.rng).fst, total⟩ (l :: e :: rest) total where
  dhs := rfl
  dhr := rfl
  rk := by
    unfold Session.turn
    rw [h.dhs, h.rk, hagrees e.own l.own]
    rfl
  cks := by
    unfold Session.turn
    rw [h.dhs, h.rk, hagrees e.own l.own]
    rfl
  ckr := by
    unfold Session.turn
    rw [h.dhs, h.rk, hagrees e.own l.own]
    rfl
  ns := rfl
  pn := h.ns
  quiet hnone := by cases hnone

theorem toNat_passOver (nr upTo : UInt32) :
    (nr + UInt32.ofNat (upTo.toNat - nr.toNat)).toNat = max nr.toNat upTo.toNat := by
  have hnr := nr.toNat_lt
  have hupTo := upTo.toNat_lt
  rw [UInt32.toNat_add, UInt32.toNat_ofNat']
  omega

theorem Session.On.passOver {e : Epoch secret} {rest : List (Epoch secret)} {total : Nat}
    (h : s.On crypto shared e rest total) {ck : chain} (hchain : s.ckr = some ck)
    {dhrp : PublicKey} (hdhr : s.dhr = some dhrp) (upTo : UInt32) :
    (s.passOver crypto upTo).On crypto shared e rest total ∧
      (s.passOver crypto upTo).nr.toNat = max s.nr.toNat upTo.toNat := by
  rw [passOver_eq hchain hdhr]
  refine ⟨⟨h.dhs, h.dhr, h.rk, h.cks, ?_, h.ns, h.pn, h.quiet⟩, toNat_passOver s.nr upTo⟩
  have hckr := h.ckr
  rw [hchain] at hckr
  rcases Option.map_eq_some_iff.mp hckr.symm with ⟨first, hfirst, rfl⟩
  rw [hfirst]
  dsimp only
  rw [toNat_passOver, ← ChainKdf.after_add, Option.map_some]
  congr 2
  omega

theorem Session.On.advance {e : Epoch secret} {rest : List (Epoch secret)} {total : Nat}
    (h : s.On crypto shared e rest total) (hcounted : s.nr.toNat + 1 < UInt32.size) :
    (s.advance crypto).On crypto shared e rest total ∧
      (s.advance crypto).nr.toNat = s.nr.toNat + 1 := by
  have hnr : (s.nr + 1).toNat = s.nr.toNat + 1 := by
    rw [UInt32.toNat_add]
    exact Nat.mod_eq_of_lt hcounted
  refine ⟨⟨h.dhs, h.dhr, h.rk, h.cks, ?_, h.ns, h.pn, h.quiet⟩, hnr⟩
  unfold Session.advance
  dsimp only
  rw [h.ckr, hnr]
  cases crypto.kdfRk.chainAt shared (mixes crypto rest) with
  | none => rfl
  | some first => exact congrArg some (ChainKdf.next_after _ _)

end Ratchet
end Rabbithole.E2ee
