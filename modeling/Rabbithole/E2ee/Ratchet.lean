import Rabbithole.E2ee.Wire
import Rabbithole.Foundation.Dict
import Rabbithole.Foundation.KeyTree
import Rabbithole.Foundation.Sealing

/-!
# The Double Ratchet

Two keys are mixed whenever a new ratchet key of the other side is seen, and a chain begins
along which every message has its key.  Who receives keeps the keys of messages that were
passed over, up to a bound, and changes nothing before a message opens.
-/

namespace Rabbithole.E2ee
namespace Ratchet

open Foundation

abbrev PublicKey := Array32

/-- The third-party primitives, and the keys that the entropy source gives. -/
structure RatchetCrypto (secret root dhout chain key entropy : Type) where
  publicKey : secret -> PublicKey
  dh : secret -> PublicKey -> dhout
  kdfRk : RootKdf root dhout chain
  kdfCk : ChainKdf chain key
  aead : Aead key
  generate : entropy -> secret × entropy

structure Header where
  ratchetPub : PublicKey
  prevChainLen : UInt32
  msgNum : UInt32
deriving DecidableEq

def Header.toBytes (header : Header) : Bytes :=
  array32.encode header.ratchetPub ++
    (u32.encode header.prevChainLen ++ u32.encode header.msgNum)

structure Message where
  header : Header
  ciphertext : Bytes
deriving DecidableEq

def associatedData (ad : Bytes) (header : Header) : Bytes :=
  ad ++ header.toBytes

theorem toBytes_injective : Function.Injective Header.toBytes := by
  intro header header' h
  rcases encode_append_inj array32 h with ⟨hpub, hrest⟩
  rcases encode_append_inj u32 hrest with ⟨hprev, hnum⟩
  have hnum' := (encode_append_inj u32 (congrArg (· ++ []) hnum)).left
  cases header
  cases header'
  cases hpub
  cases hprev
  cases hnum'
  rfl

theorem length_toBytes (header : Header) : header.toBytes.length = 40 := by
  unfold Header.toBytes
  rw [List.length_append, List.length_append, length_array32, length_u32, length_u32]

theorem associatedData_inj {ad ad' : Bytes} {header header' : Header}
    (h : associatedData ad header = associatedData ad' header') : ad = ad' ∧ header = header' := by
  have hlength : header.toBytes.length = header'.toBytes.length := by
    rw [length_toBytes, length_toBytes]
  rcases List.append_inj' h hlength with ⟨had, hheader⟩
  exact ⟨had, toBytes_injective hheader⟩

/-- Whose chain, and which message of it. -/
abbrev Label := PublicKey × UInt32

def Header.label (header : Header) : Label :=
  (header.ratchetPub, header.msgNum)

variable {secret root dhout chain key entropy : Type}

structure Session (secret root chain key entropy : Type) where
  dhs : secret
  dhr : Option PublicKey
  rk : root
  cks : Option chain
  ckr : Option chain
  ns : UInt32
  nr : UInt32
  pn : UInt32
  skipped : Dict Label key
  maxSkip : UInt32
  rng : entropy

/-- The locals that `decrypt` commits when the message has opened. -/
structure Staging (secret root chain key : Type) where
  dhr : Option PublicKey
  rk : root
  cks : Option chain
  ckr : Option chain
  ns : UInt32
  nr : UInt32
  pn : UInt32
  newDhs : Option secret
  staged : List (Label × key)

def skipOnChain (kdf : ChainKdf chain key) (ckr : Option chain) (nr : UInt32)
    (dhr : Option PublicKey) (upTo : UInt32) (staged : List (Label × key)) (maxSkip : UInt32)
    (alreadyStored : Nat) : Except Error (Option chain × UInt32 × List (Label × key)) :=
  if upTo <= nr then .ok (ckr, nr, staged)
  else
    let toSkip := upTo - nr
    if maxSkip < toSkip ∨ maxSkip.toNat < alreadyStored + toSkip.toNat then
      .error (.tooManySkipped maxSkip)
    else
      match ckr, dhr with
      | some ck, some dhrp =>
          let passed := kdf.stage (fun number => (dhrp, number)) toSkip.toNat nr ck
          .ok (some passed.snd, upTo, staged ++ passed.fst)
      | _, _ => .ok (ckr, nr, staged)

namespace Session

def defaultMaxSkip : UInt32 := 1000

variable (crypto : RatchetCrypto secret root dhout chain key entropy)

def initiator (shared : root) (theirPrekey : PublicKey) (rng : entropy) :
    Session secret root chain key entropy :=
  let generated := crypto.generate rng
  let derived := crypto.kdfRk.derive shared (crypto.dh generated.fst theirPrekey)
  { dhs := generated.fst
    dhr := some theirPrekey
    rk := derived.fst
    cks := some derived.snd
    ckr := none
    ns := 0
    nr := 0
    pn := 0
    skipped := Dict.empty
    maxSkip := defaultMaxSkip
    rng := generated.snd }

def responder (shared : root) (ourPrekey : secret) (rng : entropy) :
    Session secret root chain key entropy where
  dhs := ourPrekey
  dhr := none
  rk := shared
  cks := none
  ckr := none
  ns := 0
  nr := 0
  pn := 0
  skipped := Dict.empty
  maxSkip := defaultMaxSkip
  rng := rng

variable (s : Session secret root chain key entropy)

def setMaxSkip (maxSkip : UInt32) : Session secret root chain key entropy :=
  { s with maxSkip := maxSkip }

def encrypt (plaintext ad : Bytes) : Except Error Message × Session secret root chain key entropy :=
  match s.cks with
  | none => (.error .noSendingChain, s)
  | some cks =>
      let derived := crypto.kdfCk.derive cks
      let header : Header := ⟨crypto.publicKey s.dhs, s.pn, s.ns⟩
      let ciphertext := crypto.aead.sealUnder derived.snd plaintext (associatedData ad header)
      (.ok ⟨header, ciphertext⟩, { s with cks := some derived.fst, ns := s.ns + 1 })

/-- The first half of `decrypt`'s second part: a ratchet key that is new ends the chain. -/
def ratchet (header : Header) : Except Error (Staging secret root chain key) × entropy :=
  if s.dhr = some header.ratchetPub then
    (.ok ⟨s.dhr, s.rk, s.cks, s.ckr, s.ns, s.nr, s.pn, none, []⟩, s.rng)
  else
    match skipOnChain crypto.kdfCk s.ckr s.nr s.dhr header.prevChainLen [] s.maxSkip
        s.skipped.size with
    | .error e => (.error e, s.rng)
    | .ok (_, _, staged) =>
        let received := header.ratchetPub
        let a := crypto.kdfRk.derive s.rk (crypto.dh s.dhs received)
        let generated := crypto.generate s.rng
        let b := crypto.kdfRk.derive a.fst (crypto.dh generated.fst received)
        (.ok ⟨some received, b.fst, some b.snd, some a.snd, 0, 0, s.ns, some generated.fst,
          staged⟩, generated.snd)

/-- The second half: up to the message on its chain, and its key tried. -/
def openOn? (t : Staging secret root chain key) (msg : Message) (adFull : Bytes) :
    Except Error (Bytes × Staging secret root chain key) :=
  match skipOnChain crypto.kdfCk t.ckr t.nr t.dhr msg.header.msgNum t.staged s.maxSkip
      (s.skipped.size + t.staged.length) with
  | .error e => .error e
  | .ok (ckr, nr, staged) =>
      match ckr with
      | none => .error .noReceivingChain
      | some chain =>
          let derived := crypto.kdfCk.derive chain
          match crypto.aead.openUnder derived.snd msg.ciphertext adFull with
          | none => .error .decrypt
          | some plaintext =>
              .ok (plaintext, { t with ckr := some derived.fst, nr := nr + 1, staged := staged })

def commit (t : Staging secret root chain key) (rng : entropy) :
    Session secret root chain key entropy where
  dhs := t.newDhs.getD s.dhs
  dhr := t.dhr
  rk := t.rk
  cks := t.cks
  ckr := t.ckr
  ns := t.ns
  nr := t.nr
  pn := t.pn
  skipped := s.skipped.insertAll t.staged
  maxSkip := s.maxSkip
  rng := rng

def decrypt (msg : Message) (ad : Bytes) :
    Except Error Bytes × Session secret root chain key entropy :=
  let adFull := associatedData ad msg.header
  match s.skipped.get? msg.header.label with
  | some messageKey =>
      match crypto.aead.openUnder messageKey msg.ciphertext adFull with
      | none => (.error .decrypt, s)
      | some plaintext =>
          (.ok plaintext, { s with skipped := s.skipped.erase msg.header.label })
  | none =>
      match s.ratchet crypto msg.header with
      | (.error e, rng) => (.error e, { s with rng := rng })
      | (.ok t, rng) =>
          match s.openOn? crypto t msg adFull with
          | .error e => (.error e, { s with rng := rng })
          | .ok (plaintext, t) => (.ok plaintext, s.commit t rng)

end Session

/-!
## What reading a message comes to

A message of the present chain passes over those before it and takes its key.  One of a new
chain ends the present one first.
-/

/-- The chain, the number and the kept keys behind the messages before the number. -/
def passOver (kdf : ChainKdf chain key) (dhr : Option PublicKey) (upTo : UInt32)
    (ckr : Option chain) (nr : UInt32) : Option chain × UInt32 × List (Label × key) :=
  match ckr, dhr with
  | some ck, some dhrp =>
      let count := upTo.toNat - nr.toNat
      (some (kdf.after count ck), nr + UInt32.ofNat count,
        (kdf.stage (fun number => (dhrp, number)) count nr ck).fst)
  | _, _ => (ckr, nr, [])

/-- So many keys may be kept. -/
def Allows (maxSkip : UInt32) (stored : Nat) (nr upTo : UInt32) : Prop :=
  upTo.toNat <= nr.toNat ∨ stored + (upTo.toNat - nr.toNat) <= maxSkip.toNat

theorem skipOnChain_of_allows {kdf : ChainKdf chain key} {dhr : Option PublicKey}
    {upTo nr maxSkip : UInt32} {stored : Nat} (h : Allows maxSkip stored nr upTo)
    (ckr : Option chain) (staged : List (Label × key)) :
    skipOnChain kdf ckr nr dhr upTo staged maxSkip stored =
      .ok ((passOver kdf dhr upTo ckr nr).fst, (passOver kdf dhr upTo ckr nr).snd.fst,
        staged ++ (passOver kdf dhr upTo ckr nr).snd.snd) := by
  by_cases hle : upTo <= nr
  · have hzero : upTo.toNat - nr.toNat = 0 := Nat.sub_eq_zero_of_le (UInt32.le_iff_toNat_le.mp hle)
    unfold skipOnChain passOver
    rw [if_pos hle, hzero]
    split
    · show _ = Except.ok (_, nr + 0, staged ++ [])
      rw [UInt32.add_zero, List.append_nil]
      rfl
    · rw [List.append_nil]
  · have hlt : nr <= upTo := UInt32.le_of_lt (UInt32.not_le.mp hle)
    have hsub := UInt32.toNat_sub_of_le _ _ hlt
    have hroom : ¬ (maxSkip < upTo - nr ∨ maxSkip.toNat < stored + (upTo - nr).toNat) := by
      rcases h with hno | hroom
      · exact absurd (UInt32.le_iff_toNat_le.mpr hno) hle
      · rw [UInt32.lt_iff_toNat_lt, hsub]
        omega
    have hnumber : nr + UInt32.ofNat (upTo.toNat - nr.toNat) = upTo := by
      rw [← hsub, UInt32.ofNat_toNat, UInt32.add_comm, UInt32.sub_add_cancel]
    unfold skipOnChain passOver
    rw [if_neg hle]
    dsimp only
    rw [if_neg hroom, hsub]
    split
    · rw [ChainKdf.stage_snd, hnumber]
    · rw [List.append_nil]

theorem allows_of_skipOnChain {kdf : ChainKdf chain key} {dhr : Option PublicKey}
    {upTo nr maxSkip : UInt32} {stored : Nat} {ckr : Option chain} {staged : List (Label × key)}
    {moved : Option chain × UInt32 × List (Label × key)}
    (h : skipOnChain kdf ckr nr dhr upTo staged maxSkip stored = .ok moved) :
    Allows maxSkip stored nr upTo := by
  unfold skipOnChain at h
  split at h
  · rename_i hle
    exact Or.inl (UInt32.le_iff_toNat_le.mp hle)
  · rename_i hlt
    dsimp only at h
    split at h
    · cases h
    · rename_i hroom
      have hsub := UInt32.toNat_sub_of_le _ _ (UInt32.le_of_lt (UInt32.not_le.mp hlt))
      rw [hsub] at hroom
      exact Or.inr (Nat.not_lt.mp (fun hmore => hroom (Or.inr hmore)))

namespace Session

variable (crypto : RatchetCrypto secret root dhout chain key entropy)
  (s : Session secret root chain key entropy)

def passOver (upTo : UInt32) : Session secret root chain key entropy :=
  let passed := Ratchet.passOver crypto.kdfCk s.dhr upTo s.ckr s.nr
  { s with
    ckr := passed.fst
    nr := passed.snd.fst
    skipped := s.skipped.insertAll passed.snd.snd }

def turn (received : PublicKey) : Session secret root chain key entropy :=
  let a := crypto.kdfRk.derive s.rk (crypto.dh s.dhs received)
  let generated := crypto.generate s.rng
  let b := crypto.kdfRk.derive a.fst (crypto.dh generated.fst received)
  { s with
    dhs := generated.fst
    dhr := some received
    rk := b.fst
    cks := some b.snd
    ckr := some a.snd
    ns := 0
    nr := 0
    pn := s.ns
    rng := generated.snd }

def advance : Session secret root chain key entropy :=
  { s with ckr := s.ckr.map crypto.kdfCk.next, nr := s.nr + 1 }

def toChain (header : Header) : Session secret root chain key entropy :=
  if s.dhr = some header.ratchetPub then s
  else (s.passOver crypto header.prevChainLen).turn crypto header.ratchetPub

/-- How many keys are kept once the present chain has ended, if it does. -/
def stored (header : Header) : Nat :=
  if s.dhr = some header.ratchetPub then s.skipped.size
  else
    s.skipped.size +
      (Ratchet.passOver crypto.kdfCk s.dhr header.prevChainLen s.ckr s.nr).snd.snd.length

/-- Neither part of reading the message passes over too many. -/
structure Admits (header : Header) : Prop where
  closing : s.dhr ≠ some header.ratchetPub ->
    Allows s.maxSkip s.skipped.size s.nr header.prevChainLen
  own : Allows s.maxSkip (s.stored crypto header) (s.toChain crypto header).nr header.msgNum

variable {crypto} {s}

theorem ratchet_of_allows {header : Header}
    (h : s.dhr ≠ some header.ratchetPub ->
      Allows s.maxSkip s.skipped.size s.nr header.prevChainLen) :
    exists t, s.ratchet crypto header = (.ok t, (s.toChain crypto header).rng) ∧
      s.commit t (s.toChain crypto header).rng = s.toChain crypto header ∧
        s.skipped.size + t.staged.length = s.stored crypto header := by
  unfold ratchet toChain stored
  split
  · exact ⟨_, rfl, rfl, rfl⟩
  · rename_i hnew
    rw [skipOnChain_of_allows (h hnew)]
    exact ⟨_, rfl, rfl, rfl⟩

theorem allows_of_ratchet {header : Header} {t : Staging secret root chain key} {rng : entropy}
    (h : s.ratchet crypto header = (.ok t, rng)) (hnew : s.dhr ≠ some header.ratchetPub) :
    Allows s.maxSkip s.skipped.size s.nr header.prevChainLen := by
  unfold ratchet at h
  rw [if_neg hnew] at h
  split at h
  · cases h
  · rename_i hskip
    exact allows_of_skipOnChain hskip

theorem commit_openOn (t : Staging secret root chain key) (rng : entropy) (upTo : UInt32) : s.commit
        { t with
          ckr := (Ratchet.passOver crypto.kdfCk t.dhr upTo t.ckr t.nr).fst.map crypto.kdfCk.next
          nr := (Ratchet.passOver crypto.kdfCk t.dhr upTo t.ckr t.nr).snd.fst + 1
          staged := t.staged ++
            (Ratchet.passOver crypto.kdfCk t.dhr upTo t.ckr t.nr).snd.snd } rng =
      ((s.commit t rng).passOver crypto upTo).advance crypto := by
  unfold commit passOver advance Dict.insertAll
  rw [List.foldl_append]

variable {ad plaintext : Bytes} {msg : Message} {s' : Session secret root chain key entropy}

theorem decrypt_of_admits {ck : chain} (hnone : s.skipped.get? msg.header.label = none)
    (hadmits : s.Admits crypto msg.header)
    (hchain : ((s.toChain crypto msg.header).passOver crypto msg.header.msgNum).ckr = some ck)
    (hopen : crypto.aead.openUnder (crypto.kdfCk.messageKey ck) msg.ciphertext
      (associatedData ad msg.header) = some plaintext) :
    s.decrypt crypto msg ad = (.ok plaintext,
      ((s.toChain crypto msg.header).passOver crypto msg.header.msgNum).advance crypto) := by
  rcases ratchet_of_allows hadmits.closing with ⟨t, hratchet, hcommit, hstored⟩
  have hown := hadmits.own
  rw [← hstored, ← hcommit] at hown
  replace hown : Allows s.maxSkip (s.skipped.size + t.staged.length) t.nr msg.header.msgNum := hown
  rw [← hcommit] at hchain ⊢
  have hopens : s.openOn? crypto t msg (associatedData ad msg.header) = .ok (plaintext,
      { t with
        ckr := (Ratchet.passOver crypto.kdfCk t.dhr msg.header.msgNum t.ckr t.nr).fst.map
          crypto.kdfCk.next
        nr := (Ratchet.passOver crypto.kdfCk t.dhr msg.header.msgNum t.ckr t.nr).snd.fst + 1
        staged := t.staged ++
          (Ratchet.passOver crypto.kdfCk t.dhr msg.header.msgNum t.ckr t.nr).snd.snd }) := by
    unfold openOn?
    rw [skipOnChain_of_allows hown]
    replace hchain : (Ratchet.passOver crypto.kdfCk t.dhr msg.header.msgNum t.ckr t.nr).fst =
      some ck := hchain
    dsimp only
    rw [hchain]
    dsimp only
    rw [show (crypto.kdfCk.derive ck).snd = crypto.kdfCk.messageKey ck from rfl, hopen]
    rfl
  unfold decrypt
  rw [hnone, hratchet, ← commit_openOn]
  dsimp only
  rw [hopens]

/-- What was read came from a kept key, or from the chain that the header names. -/
theorem decrypt_ok (h : s.decrypt crypto msg ad = (.ok plaintext, s')) :
    (exists mk, s.skipped.get? msg.header.label = some mk ∧
      crypto.aead.openUnder mk msg.ciphertext (associatedData ad msg.header) = some plaintext ∧
      s' = { s with skipped := s.skipped.erase msg.header.label }) ∨
    (s.skipped.get? msg.header.label = none ∧ s.Admits crypto msg.header ∧ exists ck,
      ((s.toChain crypto msg.header).passOver crypto msg.header.msgNum).ckr = some ck ∧
      crypto.aead.openUnder (crypto.kdfCk.messageKey ck) msg.ciphertext
        (associatedData ad msg.header) = some plaintext ∧
      s' = ((s.toChain crypto msg.header).passOver crypto msg.header.msgNum).advance crypto) := by
  have hdecrypt := h
  unfold decrypt at h
  split at h
  · rename_i mk hkept
    dsimp only at h
    split at h
    · cases h
    · rename_i hopen
      cases h
      exact Or.inl ⟨mk, hkept, hopen, rfl⟩
  · rename_i hnone
    right
    dsimp only at h
    split at h
    · cases h
    · rename_i t rng hratchet
      split at h
      · cases h
      · rename_i opened t' hopens
        have hclosing := allows_of_ratchet hratchet
        rcases ratchet_of_allows hclosing with ⟨t'', hratchet', hcommit, hstored⟩
        rw [hratchet] at hratchet'
        cases hratchet'
        unfold openOn? at hopens
        split at hopens
        · cases hopens
        · rename_i ckr nr staged hskip
          have hown := allows_of_skipOnChain hskip
          rw [skipOnChain_of_allows hown] at hskip
          cases hskip
          rw [hstored] at hown
          split at hopens
          · cases hopens
          · rename_i ck hchain
            dsimp only at hopens
            split at hopens
            · cases hopens
            · rename_i hopen
              cases hopens
              cases h
              have hadmits : s.Admits crypto msg.header := by
                refine ⟨hclosing, ?_⟩
                rw [← hcommit]
                exact hown
              have hchain' : ((s.toChain crypto msg.header).passOver crypto
                  msg.header.msgNum).ckr = some ck := by
                rw [← hcommit]
                exact hchain
              rw [decrypt_of_admits hnone hadmits hchain' hopen] at hdecrypt
              exact ⟨hnone, hadmits, ck, hchain', hopen, (Prod.mk.inj hdecrypt).right.symm⟩

theorem encrypt_error {e : Error} (h : s.encrypt crypto plaintext ad = (.error e, s')) :
    s' = s := by
  unfold encrypt at h
  split at h
  · cases h
    rfl
  · cases h

theorem decrypt_error {e : Error} (h : s.decrypt crypto msg ad = (.error e, s')) :
    s' = { s with rng := s'.rng } := by
  unfold decrypt at h
  split at h
  · dsimp only at h
    split at h
    · cases h
      rfl
    · cases h
  · dsimp only at h
    split at h
    · cases h
      rfl
    · split at h
      · cases h
        rfl
      · cases h

/-!
## How many keys are kept
-/

theorem length_passOver (kdf : ChainKdf chain key) (dhr : Option PublicKey) (upTo : UInt32)
    (ckr : Option chain) (nr : UInt32) :
    (Ratchet.passOver kdf dhr upTo ckr nr).snd.snd.length <= upTo.toNat - nr.toNat := by
  unfold Ratchet.passOver
  split
  · exact Nat.le_of_eq (ChainKdf.length_stage _ _ _ _)
  · exact Nat.zero_le _

variable (crypto)

theorem size_passOver_le (s : Session secret root chain key entropy) (upTo : UInt32) :
    (s.passOver crypto upTo).skipped.size <=
      s.skipped.size + (Ratchet.passOver crypto.kdfCk s.dhr upTo s.ckr s.nr).snd.snd.length :=
  Dict.size_insertAll_le _ _

theorem size_toChain_le (s : Session secret root chain key entropy) (header : Header) :
    (s.toChain crypto header).skipped.size <= s.stored crypto header := by
  unfold toChain stored
  split
  · exact Nat.le_refl _
  · exact size_passOver_le crypto s header.prevChainLen

theorem maxSkip_toChain (s : Session secret root chain key entropy) (header : Header) :
    (s.toChain crypto header).maxSkip = s.maxSkip := by
  unfold toChain
  split
  · rfl
  · rfl

variable {crypto}

theorem Admits.stored_le {header : Header} (h : s.Admits crypto header)
    (hle : s.skipped.size <= s.maxSkip.toNat) : s.stored crypto header <= s.maxSkip.toNat := by
  unfold stored
  split
  · exact hle
  · rename_i hnew
    have hlength := length_passOver crypto.kdfCk s.dhr header.prevChainLen s.ckr s.nr
    rcases h.closing hnew with hnone | hroom
    · omega
    · omega

theorem decrypt_size_le {s' : Session secret root chain key entropy} {msg : Message} {ad : Bytes}
    {result : Except Error Bytes} (hle : s.skipped.size <= s.maxSkip.toNat)
    (h : s.decrypt crypto msg ad = (result, s')) : s'.skipped.size <= s'.maxSkip.toNat := by
  cases result with
  | error e =>
      rw [decrypt_error h]
      exact hle
  | ok plaintext =>
      rcases decrypt_ok h with ⟨mk, _, _, rfl⟩ | ⟨_, hadmits, ck, _, _, rfl⟩
      · have herase := Dict.size_erase_add s.skipped msg.header.label
        show (s.skipped.erase msg.header.label).size <= s.maxSkip.toNat
        omega
      · have hchain := size_toChain_le crypto s msg.header
        have hstored := hadmits.stored_le hle
        have hpass := size_passOver_le crypto (s.toChain crypto msg.header)
          msg.header.msgNum
        have hlength := length_passOver crypto.kdfCk (s.toChain crypto msg.header).dhr
          msg.header.msgNum (s.toChain crypto msg.header).ckr (s.toChain crypto msg.header).nr
        show ((s.toChain crypto msg.header).passOver crypto msg.header.msgNum).skipped.size <=
          (s.toChain crypto msg.header).maxSkip.toNat
        rw [maxSkip_toChain crypto]
        rcases hadmits.own with hnone | hroom
        · omega
        · omega

end Session

end Ratchet
end Rabbithole.E2ee
