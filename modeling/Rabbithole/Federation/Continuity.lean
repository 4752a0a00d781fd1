import Rabbithole.Federation.Postcard

/-!
# Key continuity

A home server attests a persona's key.  From the second generation on the key before it has
to have signed for the new one: the server alone cannot swap a persona's key.
-/

namespace Rabbithole.Federation

open Foundation List

def attestationContext : Bytes := asciiBytes "rhp-fed-attestation-v1"

def rotationContext : Bytes := asciiBytes "rhp-fed-rotation-v1"

def challengeContext : Bytes := asciiBytes "rhp-fed-visitor-challenge-v1"

def maxPersonaLen : Nat := 64

def minChallengeLen : Nat := 16

/-- All bytes of the charset are characters of their own. -/
def isValidName (name : String) (max : Nat) : Bool :=
  let bytes := name.toList
  let alnum := fun (b : Char) => decide (('a' <= b ∧ b <= 'z') ∨ ('0' <= b ∧ b <= '9'))
  if bytes.isEmpty ∨ max < bytes.length then false
  else
    bytes.all (fun b => alnum b || b == '-' || b == '_' || b == '.') &&
      (bytes.head?.map alnum).getD false && (bytes.getLast?.map alnum).getD false

def isValidPersonaName (name : String) : Bool :=
  isValidName name maxPersonaLen

inductive AttestationError where
  | badSignature
  | keyMismatch
  | badPersonaName
  | expired
  | notYetValid
deriving DecidableEq

/-- What the key before signs for the key that follows it. -/
structure RotationStatement where
  personaName : String
  homeServerKey : PublicKey
  newKey : PublicKey
  generation : UInt64
deriving DecidableEq

structure KeyRotation where
  newKey : PublicKey
  prevSig : Signature
deriving DecidableEq

structure AttestationBody where
  personaName : String
  personaKey : PublicKey
  homeServerKey : PublicKey
  issuedAt : Int64
  expiresAt : Int64
  generation : UInt64
  rotation : Option KeyRotation
deriving DecidableEq

structure PersonaAttestation where
  body : AttestationBody
  sig : Signature
deriving DecidableEq

structure ContinuityChain where
  attestations : List PersonaAttestation

inductive ContinuityError where
  | attestation (e : AttestationError)
  | empty
  | personaMismatch
  | generationGap
  | missingRotation
  | rotationKeyMismatch
  | badRotationSignature
  | challengeTooShort
  | badChallengeSignature
deriving DecidableEq

/-!
## What is signed
-/

namespace Postcard

def rotationStatement (p : Postcard) : Codec RotationStatement :=
  (p.text.pair ((p.array 32).pair ((p.array 32).pair p.u64))).iso
    (fun (name, home, key, generation) => ⟨name, home, key, generation⟩)
    (fun s => (s.personaName, s.homeServerKey, s.newKey, s.generation))
    (fun _ => rfl)

def keyRotation (p : Postcard) : Codec KeyRotation :=
  ((p.array 32).pair p.signature).iso (fun (key, sig) => ⟨key, sig⟩)
    (fun r => (r.newKey, r.prevSig)) (fun _ => rfl)

def attestationBody (p : Postcard) : Codec AttestationBody :=
  (p.text.pair ((p.array 32).pair ((p.array 32).pair
    (p.i64.pair (p.i64.pair (p.u64.pair p.keyRotation.option)))))).iso
    (fun (name, key, home, issued, expires, generation, rotation) =>
      ⟨name, key, home, issued, expires, generation, rotation⟩)
    (fun b => (b.personaName, b.personaKey, b.homeServerKey, b.issuedAt, b.expiresAt,
      b.generation, b.rotation))
    (fun _ => rfl)

end Postcard

section Verify

variable (p : Postcard) (scheme : Scheme)

def rotationSignedBytes (statement : RotationStatement) : Bytes :=
  rotationContext ++ p.rotationStatement.encode statement

def signedBytes (body : AttestationBody) : Bytes :=
  attestationContext ++ p.attestationBody.encode body

def challengeSignedBytes (challenge : Bytes) : Bytes :=
  challengeContext ++ challenge

/-!
## Verification
-/

def KeyRotation.verify (rotation : KeyRotation) (prevKey : PublicKey) (personaName : String)
    (homeServerKey : PublicKey) (generation : UInt64) : Except ContinuityError Unit :=
  if scheme.verify prevKey
      (rotationSignedBytes p ⟨personaName, homeServerKey, rotation.newKey, generation⟩)
      rotation.prevSig then .ok ()
  else .error .badRotationSignature

def PersonaAttestation.verifySignature (att : PersonaAttestation)
    (homeServerKey : PublicKey) : Except AttestationError Unit :=
  if att.body.homeServerKey ≠ homeServerKey then .error .keyMismatch
  else if isValidPersonaName att.body.personaName = false then .error .badPersonaName
  else if scheme.verify homeServerKey (signedBytes p att.body) att.sig then .ok ()
  else .error .badSignature

def PersonaAttestation.checkFreshness (att : PersonaAttestation) (nowMs : Int64) :
    Except AttestationError Unit :=
  if nowMs < att.body.issuedAt then .error .notYetValid
  else if att.body.expiresAt <= nowMs then .error .expired
  else .ok ()

namespace ContinuityChain

/-- Each link by itself, and that it is of the persona the chain starts with. -/
def checkLinks (homeServerKey : PublicKey) (personaName : String) :
    List PersonaAttestation -> Except ContinuityError Unit
  | [] => .ok ()
  | att :: rest =>
      match att.verifySignature p scheme homeServerKey with
      | .error e => .error (.attestation e)
      | .ok () =>
          if att.body.personaName ≠ personaName then .error .personaMismatch
          else checkLinks homeServerKey personaName rest

def checkedSucc (generation : UInt64) : Option UInt64 :=
  if generation.toNat + 1 < 2 ^ 64 then some (generation + 1) else none

/-- A link and the one before it. -/
def checkPair (prev next : PersonaAttestation) : Except ContinuityError Unit :=
  if checkedSucc prev.body.generation ≠ some next.body.generation then .error .generationGap
  else
    match next.body.rotation with
    | none => .error .missingRotation
    | some rotation =>
        if rotation.newKey ≠ next.body.personaKey then .error .rotationKeyMismatch
        else
          rotation.verify p scheme prev.body.personaKey next.body.personaName
            next.body.homeServerKey next.body.generation

def checkPairs : List PersonaAttestation -> Except ContinuityError Unit
  | prev :: next :: rest =>
      match checkPair p scheme prev next with
      | .error e => .error e
      | .ok () => checkPairs (next :: rest)
  | _ => .ok ()

def verify (chain : ContinuityChain) (homeServerKey : PublicKey) (nowMs : Int64) :
    Except ContinuityError PublicKey :=
  match chain.attestations.head? with
  | none => .error .empty
  | some first =>
      match checkLinks p scheme homeServerKey first.body.personaName chain.attestations with
      | .error e => .error e
      | .ok () =>
          match checkPairs p scheme chain.attestations with
          | .error e => .error e
          | .ok () =>
              match chain.attestations.getLast? with
              | none => .error .empty
              | some latest =>
                  match latest.checkFreshness nowMs with
                  | .error e => .error (.attestation e)
                  | .ok () => .ok latest.body.personaKey

end ContinuityChain

def verifyVisitor (chain : ContinuityChain) (homeServerKey : PublicKey) (nowMs : Int64)
    (challenge : Bytes) (personaSig : Signature) : Except ContinuityError PublicKey :=
  if challenge.length < minChallengeLen then .error .challengeTooShort
  else
    match chain.verify p scheme homeServerKey nowMs with
    | .error e => .error e
    | .ok personaKey =>
        if scheme.verify personaKey (challengeSignedBytes challenge) personaSig then
          .ok personaKey
        else .error .badChallengeSignature

end Verify

/-!
## What a chain that passes says
-/

section Ideal

variable {p : Postcard} {scheme : Scheme}

/-- A signature verifies only for what the holder of the key signed. -/
def Scheme.Ideal (scheme : Scheme) (signed : PublicKey -> Bytes -> Prop) : Prop :=
  forall key message sig, scheme.verify key message sig = true -> signed key message

/-- The next generation, and the key before it signed for its key. -/
structure Consented (p : Postcard) (signed : PublicKey -> Bytes -> Prop)
    (homeServerKey : PublicKey) (prev next : PersonaAttestation) : Prop where
  generation : next.body.generation.toNat = prev.body.generation.toNat + 1
  consent : signed prev.body.personaKey (rotationSignedBytes p
    ⟨next.body.personaName, homeServerKey, next.body.personaKey, next.body.generation⟩)

/-- One persona throughout, each key consented to by the one before, and the last one told. -/
structure ContinuityChain.Continuous (p : Postcard) (signed : PublicKey -> Bytes -> Prop)
    (homeServerKey : PublicKey) (chain : ContinuityChain) (key : PublicKey) : Prop where
  persona : forall att, att ∈ chain.attestations -> forall first,
    chain.attestations.head? = some first -> att.body.personaName = first.body.personaName
  consented : chain.attestations.IsChain (Consented p signed homeServerKey)
  latest : chain.attestations.getLast?.map (fun att => att.body.personaKey) = some key

theorem PersonaAttestation.verifySignature_ok (att : PersonaAttestation) {home : PublicKey}
    (h : att.verifySignature p scheme home = .ok ()) : att.body.homeServerKey = home := by
  unfold PersonaAttestation.verifySignature at h
  split at h
  · cases h
  · rename_i hsame
    exact not_not.mp hsame

namespace ContinuityChain

variable {home : PublicKey} {links : List PersonaAttestation}

theorem checkLinks_ok {name : String} (h : checkLinks p scheme home name links = .ok ()) :
    forall att, att ∈ links ->
      att.body.personaName = name ∧ att.body.homeServerKey = home := by
  induction links with
  | nil =>
      intro att hatt
      cases hatt
  | cons first rest ih =>
      unfold checkLinks at h
      split at h
      · cases h
      · rename_i hsignature
        split at h
        · cases h
        · rename_i hname
          rw [not_not] at hname
          rw [forall_mem_cons]
          exact ⟨⟨hname, first.verifySignature_ok hsignature⟩, ih h⟩

theorem checkedSucc_eq_some {generation next : UInt64} (h : checkedSucc generation = some next) :
    next.toNat = generation.toNat + 1 := by
  unfold checkedSucc at h
  split at h
  · rename_i hlt
    cases h
    rw [UInt64.toNat_add]
    exact Nat.mod_eq_of_lt hlt
  · cases h

variable {signed : PublicKey -> Bytes -> Prop}

theorem checkPair_ok (hideal : scheme.Ideal signed) {prev next : PersonaAttestation}
    (hhome : next.body.homeServerKey = home) (h : checkPair p scheme prev next = .ok ()) :
    Consented p signed home prev next := by
  unfold checkPair at h
  split at h
  · cases h
  · rename_i hgeneration
    rw [not_not] at hgeneration
    split at h
    · cases h
    · rename_i rotation _
      split at h
      · cases h
      · rename_i hkey
        rw [not_not] at hkey
        unfold KeyRotation.verify at h
        split at h
        · rename_i hverify
          rw [hkey, hhome] at hverify
          exact ⟨checkedSucc_eq_some hgeneration, hideal _ _ _ hverify⟩
        · cases h

theorem checkPairs_ok (hideal : scheme.Ideal signed)
    (hhome : forall att, att ∈ links -> att.body.homeServerKey = home)
    (h : checkPairs p scheme links = .ok ()) : links.IsChain (Consented p signed home) := by
  induction links with
  | nil => exact IsChain.nil
  | cons prev rest ih =>
      cases rest with
      | nil => exact List.IsChain.singleton prev
      | cons next rest =>
          unfold checkPairs at h
          split at h
          · cases h
          · rename_i hpair
            rw [forall_mem_cons] at hhome
            have hnext := hhome.right next mem_cons_self
            rw [isChain_cons_cons]
            exact ⟨checkPair_ok hideal hnext hpair, ih hhome.right h⟩

theorem verify_ok (hideal : scheme.Ideal signed) {chain : ContinuityChain} {now : Int64}
    {key : PublicKey} (h : chain.verify p scheme home now = .ok key) :
    chain.Continuous p signed home key := by
  unfold verify at h
  split at h
  · cases h
  · rename_i first hfirst
    split at h
    · cases h
    · rename_i hlinks
      split at h
      · cases h
      · rename_i hpairs
        split at h
        · cases h
        · rename_i latest hlatest
          split at h
          · cases h
          · cases h
            have hall := checkLinks_ok hlinks
            refine ⟨?_, ?_, ?_⟩
            · intro att hatt head hhead
              rw [hfirst] at hhead
              cases hhead
              exact (hall att hatt).left
            · exact checkPairs_ok hideal (fun att hatt => (hall att hatt).right) hpairs
            · rw [hlatest]
              rfl

end ContinuityChain

theorem verifyVisitor_ok {signed : PublicKey -> Bytes -> Prop} (hideal : scheme.Ideal signed)
    {chain : ContinuityChain} {home key : PublicKey} {now : Int64} {challenge : Bytes}
    {sig : Signature} (h : verifyVisitor p scheme chain home now challenge sig = .ok key) :
    chain.Continuous p signed home key ∧ signed key (challengeSignedBytes challenge) ∧
      minChallengeLen <= challenge.length := by
  unfold verifyVisitor at h
  split at h
  · cases h
  · rename_i hlong
    split at h
    · cases h
    · rename_i personaKey hchain
      split at h
      · rename_i hverify
        cases h
        exact ⟨ContinuityChain.verify_ok hideal hchain, hideal _ _ _ hverify,
          Nat.le_of_not_lt hlong⟩
      · cases h

/-!
## No swap
-/

/-- The holder of a key never signs for two different keys of the same generation. -/
def Loyal (p : Postcard) (signed : PublicKey -> Bytes -> Prop) (key : PublicKey) : Prop :=
  forall st st', signed key (rotationSignedBytes p st) -> signed key (rotationSignedBytes p st') ->
    st.personaName = st'.personaName -> st.homeServerKey = st'.homeServerKey ->
    st.generation = st'.generation -> st = st'

variable {signed : PublicKey -> Bytes -> Prop} {home : PublicKey}

theorem keys_agree {name : String} (rest rest' : List PersonaAttestation)
    {a a' : PersonaAttestation} (hchain : (a :: rest).IsChain (Consented p signed home))
    (hchain' : (a' :: rest').IsChain (Consented p signed home))
    (hname : forall att, att ∈ rest -> att.body.personaName = name)
    (hname' : forall att, att ∈ rest' -> att.body.personaName = name)
    (hloyal : forall att, att ∈ a :: rest -> Loyal p signed att.body.personaKey)
    (hkey : a.body.personaKey = a'.body.personaKey)
    (hgeneration : a.body.generation = a'.body.generation) (hlength : rest.length = rest'.length) :
    (a :: rest).map (fun att => att.body.personaKey) =
      (a' :: rest').map (fun att => att.body.personaKey) := by
  induction rest generalizing a a' rest' with
  | nil =>
      rw [length_nil, eq_comm, length_eq_zero_iff] at hlength
      rw [hlength, map_singleton, map_singleton, hkey]
  | cons b rest ih =>
      cases rest' with
      | nil => cases hlength
      | cons b' rest' =>
          rw [isChain_cons_cons] at hchain hchain'
          rw [forall_mem_cons] at hname hname' hloyal
          have hnext : b.body.generation = b'.body.generation := by
            apply UInt64.toNat.inj
            rw [hchain.left.generation, hchain'.left.generation, hgeneration]
          have hconsent := hchain'.left.consent
          rw [← hkey] at hconsent
          have hsame := hloyal.left _ _ hchain.left.consent hconsent
            (hname.left.trans hname'.left.symm) rfl hnext
          have hkeys : b.body.personaKey = b'.body.personaKey :=
            congrArg RotationStatement.newKey hsame
          rw [map_cons, map_cons, hkey]
          congr 1
          exact ih rest' hchain.right hchain'.right hname.right hname'.right hloyal.right hkeys
            hnext (Nat.succ.inj hlength)

/--
A chain that passes is of one persona, rises by one generation a link, and has each key
consented to by the one before; and two chains of one length with the same beginning
end in the same key, when no holder signs for two keys of one generation.
-/
theorem continuity_rules_out_swap (hideal : scheme.Ideal signed) :
    (forall (chain : ContinuityChain) now key, chain.verify p scheme home now = .ok key ->
      chain.Continuous p signed home key) ∧
    (forall (chain chain' : ContinuityChain) (first first' : PersonaAttestation) now now' key key',
      chain.attestations.length = chain'.attestations.length ->
      chain.attestations.head? = some first -> chain'.attestations.head? = some first' ->
      first.body.personaKey = first'.body.personaKey ->
      first.body.personaName = first'.body.personaName ->
      first.body.generation = first'.body.generation ->
      (forall att, att ∈ chain.attestations -> Loyal p signed att.body.personaKey) ->
      chain.verify p scheme home now = .ok key -> chain'.verify p scheme home now' = .ok key' ->
      key = key') := by
  constructor
  · intro chain now key h
    exact ContinuityChain.verify_ok hideal h
  · intro chain chain' first first' now now' key key' hlength hfirst hfirst' hkey hname
      hgeneration hloyal h h'
    have hgood := ContinuityChain.verify_ok hideal h
    have hgood' := ContinuityChain.verify_ok hideal h'
    rcases head?_eq_some_iff.mp hfirst with ⟨rest, hrest⟩
    rcases head?_eq_some_iff.mp hfirst' with ⟨rest', hrest'⟩
    have hpersona : forall att, att ∈ rest -> att.body.personaName = first.body.personaName := by
      intro att hatt
      apply hgood.persona att _ first hfirst
      rw [hrest]
      exact mem_cons_of_mem _ hatt
    have hpersona' : forall att, att ∈ rest' -> att.body.personaName = first.body.personaName := by
      intro att hatt
      rw [hname]
      apply hgood'.persona att _ first' hfirst'
      rw [hrest']
      exact mem_cons_of_mem _ hatt
    have hchain := hgood.consented
    have hchain' := hgood'.consented
    rw [hrest] at hchain hloyal hlength
    rw [hrest'] at hchain' hlength
    have hkeys := keys_agree rest rest' hchain hchain' hpersona hpersona' hloyal hkey hgeneration
      (Nat.succ.inj hlength)
    have hlatest := hgood.latest
    rw [← getLast?_map, hrest, hkeys, ← hrest', getLast?_map, hgood'.latest] at hlatest
    exact (Option.some.inj hlatest).symm

end Ideal

/-!
A persona that changed its key once, with the keys of three fixed seeds.
-/

namespace Alice

def server : PublicKey := 0x5c6f0fb4018874f31b12941dbf0967ca725dba3c2ddb52fd95f10974dde3888a

def key₀ : PublicKey := 0x3cfdba0f4a423e61a4ec74249fecaa8226dffb6dc2686bf62d760144712ea743

def key₁ : PublicKey := 0x3a470c81b69fb3986da6ad061aefc5f555b07d7f0a9dbd3233457a2c337ebe66

def statement : RotationStatement := ⟨"alice", server, key₁, 1⟩

def consent : Signature :=
  0xa2f536ca00b88de64322c0641030cc96bd3a7c6d93245fe2dac6d3c12ac25bec29e5605801113a48fd5ed18dae05187911b7261364460be3d2f9c2895776734

def link₀ : PersonaAttestation where
  body := ⟨"alice", key₀, server, 1700000000000, 1700003600000, 0, none⟩
  sig :=
    0xfe625ab53fc9acbd780aca50f526bd2f3cad453c7fba40daa88b4d41f6d777b8918d4e114bcea48f0fe072deb294532a17a4c716ea36950d7b0eb3e77923b57

def link₁ : PersonaAttestation where
  body := ⟨"alice", key₁, server, 1700003600000, 1700007200000, 1, some ⟨key₁, consent⟩⟩
  sig :=
    0x37e083ce336253e2dc23641682c7ab3083e12f8f9da32af288cf4ffcc56f5baa5d767c72c7d64c3b16db578a3da1c2892153653070e9f23d23ecbe8e2de8fca

/-- The server attests the new key again, for longer. -/
def link₂ : PersonaAttestation where
  body := ⟨"alice", key₁, server, 1700003600000, 1700010800000, 1, some ⟨key₁, consent⟩⟩
  sig :=
    0x9095d198aef108bae72d620b28371bfc4991cfbc42772879036115d52144e2474b6e3c85e15c2086fb84daa1728d7ef13936cecdc8c618ac47b33745a0a767d

def chain : ContinuityChain := ⟨[link₀, link₁]⟩

def renewed : ContinuityChain := ⟨[link₀, link₂]⟩

/-- The signatures that were made. -/
def scheme : Scheme where
  verify := fun key message sig => decide
    ((key = server ∧ message = signedBytes .wire link₀.body ∧ sig = link₀.sig) ∨
      (key = server ∧ message = signedBytes .wire link₁.body ∧ sig = link₁.sig) ∨
      (key = server ∧ message = signedBytes .wire link₂.body ∧ sig = link₂.sig) ∨
      (key = key₀ ∧ message = rotationSignedBytes .wire statement ∧ sig = consent))

def signed (key : PublicKey) (message : Bytes) : Prop :=
  key = server ∨ (key = key₀ ∧ message = rotationSignedBytes .wire statement)

theorem ideal : scheme.Ideal signed := by
  intro key message sig h
  rcases of_decide_eq_true h with hfirst | hsecond | hagain | hconsent
  · exact Or.inl hfirst.left
  · exact Or.inl hsecond.left
  · exact Or.inl hagain.left
  · exact Or.inr ⟨hconsent.left, hconsent.right.left⟩

theorem loyal (key : PublicKey) (hkey : key ≠ server) : Loyal .wire signed key := by
  intro st st' hst hst' _ _ _
  rcases hst with hserver | ⟨_, hst⟩
  · exact absurd hserver hkey
  · rcases hst' with hserver | ⟨_, hst'⟩
    · exact absurd hserver hkey
    · have hsame := append_cancel_left (hst.trans hst'.symm)
      exact Postcard.wire.rotationStatement.encode_injective hsame

set_option maxRecDepth 8000 in
theorem verify_chain : chain.verify .wire scheme server 1700003600001 = .ok key₁ := by
  decide

set_option maxRecDepth 8000 in
theorem verify_renewed : renewed.verify .wire scheme server 1700007200000 = .ok key₁ := by
  decide

end Alice

theorem continuity_rules_out_swap_alice :
    Alice.chain.verify .wire Alice.scheme Alice.server 1700003600001 = .ok Alice.key₁ ∧
      Alice.renewed.verify .wire Alice.scheme Alice.server 1700007200000 = .ok Alice.key₁ ∧
      Alice.chain.Continuous .wire Alice.signed Alice.server Alice.key₁ ∧
      forall key, Alice.renewed.verify .wire Alice.scheme Alice.server 1700007200000 = .ok key ->
        Alice.key₁ = key := by
  have hrule := @continuity_rules_out_swap .wire Alice.scheme Alice.signed Alice.server Alice.ideal
  refine ⟨Alice.verify_chain, Alice.verify_renewed, hrule.left _ _ _ Alice.verify_chain, ?_⟩
  intro key hkey
  apply hrule.right Alice.chain Alice.renewed Alice.link₀ Alice.link₀ _ _ _ _ rfl rfl rfl rfl rfl
    rfl _ Alice.verify_chain hkey
  intro att hatt
  apply Alice.loyal
  rcases mem_cons.mp hatt with rfl | hatt
  · decide
  · rcases mem_singleton.mp hatt with rfl
    decide

end Rabbithole.Federation
