import Rabbithole.Foundation.Text
import Rabbithole.Federation.Postcard

/-!
# Pull grants

A source's signed permission for one other server to fetch some files.  The first of two
formats has no certificate and no addresses.  The version at the front says which one follows,
in what is sent as in what is signed.
-/

namespace Rabbithole.Federation

open Foundation Codec

def pullGrantContext : Bytes := asciiBytes "rhp-fed-pull-grant-v1"

def pullGrantVersion : UInt32 := 2

def pullGrantV1 : UInt32 := 1

def maxGrantLifetimeSecs : Int := 2 * 3600

def maxEndpoints : Nat := 4

def maxPullItems : Nat := 1000

def maxPullPath : Nat := 1024

def maxPullDepth : Nat := 16

def maxSegment : Nat := 128

structure PullItem where
  nodeId : Int64
  relPath : String
  root : BitVec (8 * 32)
  size : UInt64
  mime : String
deriving DecidableEq

structure PullGrant where
  version : UInt32
  sourceKey : PublicKey
  fetcherKey : PublicKey
  issuedUnix : Int64
  expiresUnix : Int64
  nonce : BitVec (8 * 16)
  items : List PullItem
  tlsFingerprint : BitVec (8 * 32)
  endpoints : List String
deriving DecidableEq

structure SignedPullGrant where
  grant : PullGrant
  sig : Signature
deriving DecidableEq

/-- The first format: without the last two fields. -/
structure PullGrantV1 where
  version : UInt32
  sourceKey : PublicKey
  fetcherKey : PublicKey
  issuedUnix : Int64
  expiresUnix : Int64
  nonce : BitVec (8 * 16)
  items : List PullItem

structure SignedPullGrantV1 where
  grant : PullGrantV1
  sig : Signature

namespace PullGrantV1

def of (g : PullGrant) : PullGrantV1 :=
  ⟨g.version, g.sourceKey, g.fetcherKey, g.issuedUnix, g.expiresUnix, g.nonce, g.items⟩

def intoGrant (g : PullGrantV1) : PullGrant :=
  ⟨g.version, g.sourceKey, g.fetcherKey, g.issuedUnix, g.expiresUnix, g.nonce, g.items, 0, []⟩

end PullGrantV1

inductive PullGrantError where
  | decode
  | version
  | badSignature
  | wrongSource
  | wrongFetcher
  | expired
  | count
  | badPath
  | tooLong
deriving DecidableEq

/-!
## On the wire
-/

namespace Postcard

def pullItem (p : Postcard) : Codec PullItem :=
  (p.i64.pair (p.text.pair ((p.array 32).pair (p.u64.pair p.text)))).iso
    (fun (nodeId, relPath, root, size, mime) => ⟨nodeId, relPath, root, size, mime⟩)
    (fun i => (i.nodeId, i.relPath, i.root, i.size, i.mime)) (fun _ => rfl)

def pullGrantV1 (p : Postcard) : Codec PullGrantV1 :=
  (p.u32.pair ((p.array 32).pair ((p.array 32).pair (p.i64.pair (p.i64.pair
    ((p.array 16).pair (p.length.list p.pullItem))))))).iso
    (fun (version, source, fetcher, issued, expires, nonce, items) =>
      ⟨version, source, fetcher, issued, expires, nonce, items⟩)
    (fun g => (g.version, g.sourceKey, g.fetcherKey, g.issuedUnix, g.expiresUnix, g.nonce, g.items))
    (fun _ => rfl)

def pullGrant (p : Postcard) : Codec PullGrant :=
  (p.u32.pair ((p.array 32).pair ((p.array 32).pair (p.i64.pair (p.i64.pair
    ((p.array 16).pair ((p.length.list p.pullItem).pair
      ((p.array 32).pair (p.length.list p.text))))))))).iso
    (fun (version, source, fetcher, issued, expires, nonce, items, fingerprint, endpoints) =>
      ⟨version, source, fetcher, issued, expires, nonce, items, fingerprint, endpoints⟩)
    (fun g => (g.version, g.sourceKey, g.fetcherKey, g.issuedUnix, g.expiresUnix, g.nonce, g.items,
      g.tlsFingerprint, g.endpoints))
    (fun _ => rfl)

def signedPullGrantV1 (p : Postcard) : Codec SignedPullGrantV1 :=
  (p.pullGrantV1.pair p.signature).iso (fun (grant, sig) => ⟨grant, sig⟩)
    (fun g => (g.grant, g.sig)) (fun _ => rfl)

def signedPullGrant (p : Postcard) : Codec SignedPullGrant :=
  (p.pullGrant.pair p.signature).iso (fun (grant, sig) => ⟨grant, sig⟩)
    (fun g => (g.grant, g.sig)) (fun _ => rfl)

end Postcard

/-!
## What a grant may name
-/

def segmentIsAcceptable (segment : List Char) : Bool :=
  let text := String.ofList segment
  let trimmed := trim text
  trimmed ≠ "" && trimmed == text && text ≠ "." && text ≠ ".." &&
    decide (text.utf8ByteSize <= maxSegment) && !segment.contains '/' && !segment.any isControl

def relPathIsAcceptable (path : String) : Bool :=
  let segments := path.toList.splitOn '/'
  path ≠ "" && decide (path.utf8ByteSize <= maxPullPath) &&
    decide (segments.length <= maxPullDepth) && segments.all segmentIsAcceptable

/-- A host without the brackets around it, if there are both. -/
def bareHost (host : List Char) : List Char :=
  match host with
  | '[' :: rest => if rest.getLast? = some ']' then rest.dropLast else host
  | _ => host

def labelIsAcceptable (label : List Char) : Bool :=
  !label.isEmpty && decide (label.length <= 63) && label.head? ≠ some '-' &&
    label.getLast? ≠ some '-' && label.all (fun c => c.isAlphanum || c == '-')

def hostIsAcceptable (host : List Char) : Bool :=
  if host.isEmpty ∨ 253 < (String.ofList host).utf8ByteSize then false
  else if isIpAddr (bareHost host) then true
  else
    host.head? ≠ some '.' && host.getLast? ≠ some '.' &&
      (host.splitOn '.').all labelIsAcceptable

def endpointIsAcceptable (endpoint : String) : Bool :=
  match rsplitOnce ':' endpoint.toList with
  | some (host, port) =>
      ((parseUnsigned 65535 port).map (fun n => decide (n ≠ 0))).getD false &&
        hostIsAcceptable host &&
        (!host.contains ':' || (host.head? == some '[' && host.getLast? == some ']'))
  | none => false

def repeated : List String -> Bool
  | [] => false
  | endpoint :: rest => rest.contains endpoint || repeated rest

def saturatingSub64 (a b : Int64) : Int :=
  max (-(2 ^ 63)) (min (a.toInt - b.toInt) (2 ^ 63 - 1))

/-!
## Signing, sending and checking
-/

/-- A private key: the public one, and what it signs a message with. -/
structure IdentityKey where
  public_ : PublicKey
  sign : Bytes -> Signature

section Grants

variable (p : Postcard) (scheme : Scheme)

/-- The context, then the grant in its own version's layout. -/
def pullSignedBytes (grant : PullGrant) : Bytes :=
  pullGrantContext ++
    if grant.version = pullGrantV1 then p.pullGrantV1.encode (PullGrantV1.of grant)
    else p.pullGrant.encode grant

def PullGrant.sign (grant : PullGrant) (key : IdentityKey) :
    Except PullGrantError SignedPullGrant :=
  if grant.version = pullGrantV1 ∧ (grant.tlsFingerprint ≠ 0 ∨ grant.endpoints ≠ []) then
    .error .version
  else
    let grant := { grant with sourceKey := key.public_ }
    .ok ⟨grant, key.sign (pullSignedBytes p grant)⟩

namespace SignedPullGrant

def toBytes (g : SignedPullGrant) : Bytes :=
  if g.grant.version = pullGrantV1 then
    p.signedPullGrantV1.encode ⟨PullGrantV1.of g.grant, g.sig⟩
  else p.signedPullGrant.encode g

def fromBytes (bytes : Bytes) : Except PullGrantError SignedPullGrant :=
  match p.u32.decode bytes with
  | none => .error .decode
  | some (version, _) =>
      if version = pullGrantV1 then
        match p.signedPullGrantV1.fromBytes bytes with
        | none => .error .decode
        | some v1 => .ok ⟨v1.grant.intoGrant, v1.sig⟩
      else
        match p.signedPullGrant.fromBytes bytes with
        | none => .error .decode
        | some g => .ok g

def check (g : SignedPullGrant) (source fetcher : PublicKey) (nowUnix : Int64) :
    Except PullGrantError Unit :=
  if g.grant.version ≠ pullGrantVersion ∧ g.grant.version ≠ pullGrantV1 then .error .version
  else if g.grant.sourceKey ≠ source then .error .wrongSource
  else if scheme.verify source (pullSignedBytes p g.grant) g.sig = false then .error .badSignature
  else if g.grant.fetcherKey ≠ fetcher then .error .wrongFetcher
  else if g.grant.expiresUnix <= nowUnix then .error .expired
  else if maxGrantLifetimeSecs < saturatingSub64 g.grant.expiresUnix nowUnix then .error .tooLong
  else if g.grant.items = [] ∨ maxPullItems < g.grant.items.length then .error .count
  else if g.grant.items.all (fun i => relPathIsAcceptable i.relPath) = false then .error .badPath
  else if maxEndpoints < g.grant.endpoints.length ∨ repeated g.grant.endpoints = true ∨
      g.grant.endpoints.all endpointIsAcceptable = false then .error .badPath
  else .ok ()

end SignedPullGrant

end Grants

/-!
## The way over the wire
-/

/-- A grant of the first format has nothing that the format has no place for. -/
def PullGrant.Fits (grant : PullGrant) : Prop :=
  grant.version = pullGrantV1 -> grant.tlsFingerprint = 0 ∧ grant.endpoints = []

section Wire

variable {p : Postcard}

variable {g : SignedPullGrant} {grant : PullGrant}

theorem PullGrantV1.intoGrant_of (h : grant.Fits) (hversion : grant.version = pullGrantV1) :
    (PullGrantV1.of grant).intoGrant = grant := by
  rcases h hversion with ⟨hfingerprint, hendpoints⟩
  cases grant
  simp only at hfingerprint hendpoints
  subst hfingerprint
  subst hendpoints
  rfl

theorem PullGrant.sign_fits {key : IdentityKey} (h : grant.sign p key = .ok g) : g.grant.Fits := by
  unfold PullGrant.sign at h
  split at h
  · cases h
  · rename_i hplain
    cases h
    intro hversion
    rw [not_and_or, not_or, not_not, not_not] at hplain
    rcases hplain with hother | hnothing
    · exact absurd hversion hother
    · exact hnothing

theorem decode_version_of_v1 (g : PullGrantV1) (rest : Bytes) :
    exists behind, p.u32.decode (p.pullGrantV1.encode g ++ rest) = some (g.version, behind) :=
  ⟨_, decode_pair_encode p.u32 _ _ rest⟩

theorem decode_version (g : PullGrant) (rest : Bytes) :
    exists behind, p.u32.decode (p.pullGrant.encode g ++ rest) = some (g.version, behind) :=
  ⟨_, decode_pair_encode p.u32 _ _ rest⟩

theorem version_of_fromBytes {bytes : Bytes} (h : p.signedPullGrant.fromBytes bytes = some g) :
    exists behind, p.u32.decode bytes = some (g.grant.version, behind) := by
  rcases Option.map_eq_some_iff.mp h with ⟨⟨read, rest⟩, hread, heq⟩
  cases heq
  rcases decode_of_decode_iso hread with ⟨signed, hsigned, hparts⟩
  rcases decode_fst_of_decode_pair hsigned with ⟨behind, hgrant⟩
  rcases decode_of_decode_iso hgrant with ⟨fields, hfields, hbuilt⟩
  rcases decode_fst_of_decode_pair hfields with ⟨behind', hversion⟩
  refine ⟨behind', ?_⟩
  rw [hversion, ← hparts]
  show some (fields.fst, behind') = some (signed.fst.version, behind')
  rw [← hbuilt]

theorem SignedPullGrant.fromBytes_fits {bytes : Bytes}
    (h : SignedPullGrant.fromBytes p bytes = .ok g) : g.grant.Fits := by
  unfold SignedPullGrant.fromBytes at h
  split at h
  · cases h
  · rename_i version behind hfront
    split at h
    · split at h
      · cases h
      · cases h
        exact fun _ => ⟨rfl, rfl⟩
    · rename_i hother
      split at h
      · cases h
      · rename_i read hread
        cases h
        rcases version_of_fromBytes hread with ⟨behind', hversion⟩
        rw [hfront] at hversion
        cases hversion
        exact fun hfirst => absurd hfirst hother

theorem SignedPullGrant.fromBytes_toBytes (h : g.grant.Fits) :
    SignedPullGrant.fromBytes p (g.toBytes p) = .ok g := by
  rcases eq_or_ne g.grant.version pullGrantV1 with hversion | hversion
  · have hbytes : g.toBytes p = p.signedPullGrantV1.encode ⟨PullGrantV1.of g.grant, g.sig⟩ :=
      if_pos hversion
    rcases decode_version_of_v1 (PullGrantV1.of g.grant) (p.signature.encode g.sig) with
      ⟨behind, hfront⟩
    have hdecode : p.u32.decode (p.signedPullGrantV1.encode ⟨PullGrantV1.of g.grant, g.sig⟩) =
        some (g.grant.version, behind) := hfront
    rw [hbytes]
    unfold SignedPullGrant.fromBytes
    rw [hdecode]
    simp only []
    rw [if_pos hversion, fromBytes_encode]
    simp only []
    rw [PullGrantV1.intoGrant_of h hversion]
  · have hbytes : g.toBytes p = p.signedPullGrant.encode g := if_neg hversion
    rcases decode_version g.grant (p.signature.encode g.sig) with ⟨behind, hfront⟩
    have hdecode : p.u32.decode (p.signedPullGrant.encode g) =
        some (g.grant.version, behind) := hfront
    rw [hbytes]
    unfold SignedPullGrant.fromBytes
    rw [hdecode]
    simp only []
    rw [if_neg hversion, fromBytes_encode]

theorem decode_version_of_signed (grant : PullGrant) :
    exists behind, p.u32.decode (if grant.version = pullGrantV1 then
      p.pullGrantV1.encode (PullGrantV1.of grant) else p.pullGrant.encode grant) =
        some (grant.version, behind) := by
  split
  · rcases decode_version_of_v1 (PullGrantV1.of grant) [] with ⟨behind, hfront⟩
    rw [List.append_nil] at hfront
    exact ⟨behind, hfront⟩
  · rcases decode_version grant [] with ⟨behind, hfront⟩
    rw [List.append_nil] at hfront
    exact ⟨behind, hfront⟩

theorem PullGrant.eq_of_signedBytes {grant' : PullGrant} (h : grant.Fits) (h' : grant'.Fits)
    (hbytes : pullSignedBytes p grant = pullSignedBytes p grant') : grant = grant' := by
  have hbody := List.append_cancel_left hbytes
  have hversion : grant.version = grant'.version := by
    rcases decode_version_of_signed grant with ⟨behind, hfront⟩
    rcases decode_version_of_signed grant' with ⟨behind', hfront'⟩
    rw [hbody, hfront'] at hfront
    exact (congrArg Prod.fst (Option.some.inj hfront)).symm
  rw [hversion] at hbody
  split at hbody
  · rename_i hfirst
    have hsame := p.pullGrantV1.encode_injective hbody
    rw [← PullGrantV1.intoGrant_of h (hversion.trans hfirst), hsame,
      PullGrantV1.intoGrant_of h' hfirst]
  · exact p.pullGrant.encode_injective hbody

end Wire

/--
Whatever is signed is read back as it was and has the same verdict; and a grant read in
the first format has no certificate and no addresses, so that what was read is all in
the signed bytes.
-/
theorem pull_grants_survive_wire (p : Postcard) (scheme : Scheme) :
    (forall (grant : PullGrant) key g, grant.sign p key = .ok g ->
      SignedPullGrant.fromBytes p (g.toBytes p) = .ok g ∧
      forall read, SignedPullGrant.fromBytes p (g.toBytes p) = .ok read ->
        forall source fetcher now,
          read.check p scheme source fetcher now = g.check p scheme source fetcher now) ∧
    (forall bytes g, SignedPullGrant.fromBytes p bytes = .ok g ->
      g.grant.version = pullGrantV1 -> g.grant.tlsFingerprint = 0 ∧ g.grant.endpoints = []) ∧
    (forall bytes bytes' g g', SignedPullGrant.fromBytes p bytes = .ok g ->
      SignedPullGrant.fromBytes p bytes' = .ok g' ->
      pullSignedBytes p g.grant = pullSignedBytes p g'.grant -> g.grant = g'.grant) := by
  refine ⟨?_, ?_, ?_⟩
  · intro grant key g hsign
    have hback := SignedPullGrant.fromBytes_toBytes (p := p) (PullGrant.sign_fits hsign)
    refine ⟨hback, ?_⟩
    intro read hread source fetcher now
    rw [hback] at hread
    cases hread
    rfl
  · intro bytes g hread
    exact SignedPullGrant.fromBytes_fits hread
  · intro bytes bytes' g g' hread hread' hbytes
    exact PullGrant.eq_of_signedBytes (SignedPullGrant.fromBytes_fits hread)
      (SignedPullGrant.fromBytes_fits hread') hbytes

/-- One item, in the first format and in one that nobody reads yet. -/
def oneItem (version : UInt32) : PullGrant :=
  ⟨version, 0, 5, 100, 700, 9, [⟨1, "a", 3, 1, "text/plain"⟩], 0, []⟩

/-- A key of a fixed seed, on the two grants it signs here. -/
def oneKey : IdentityKey where
  public_ := 0x5c6f0fb4018874f31b12941dbf0967ca725dba3c2ddb52fd95f10974dde3888a
  sign := fun message =>
    if message[21]? = some 1 then
      0x60c956868ce8bbccb712669fc6e150c4e0b404570a4ef6f60fc83b3231c74734c5ae678c966a139fbd62ee85ba5904b608040f5cafcde6f44e550a691b47835
    else
      0x857166c12e40951642cbdcedadf23cdfa910852d9ea82d245455255062a6df1e0b1c05c55320921df177ccb82f495b093e37ac9465c1b2bafbdaf2d7e5ce7ec

theorem pull_grants_survive_wire_oneItem :
    exists first later, (oneItem 1).sign .wire oneKey = .ok first ∧
      SignedPullGrant.fromBytes .wire (first.toBytes .wire) = .ok first ∧
      (oneItem 3).sign .wire oneKey = .ok later ∧
      SignedPullGrant.fromBytes .wire (later.toBytes .wire) = .ok later := by
  have hsigned : forall version, (oneItem version).sign .wire oneKey =
      .ok ⟨{ oneItem version with sourceKey := oneKey.public_ },
        oneKey.sign
          (pullSignedBytes .wire { oneItem version with sourceKey := oneKey.public_ })⟩ := by
    intro version
    apply if_neg
    intro hplain
    rcases hplain.right with hfingerprint | hendpoints
    · exact hfingerprint rfl
    · exact hendpoints rfl
  have hsurvive := (pull_grants_survive_wire .wire ⟨fun _ _ _ => true⟩).left
  exact ⟨_, _, hsigned 1, (hsurvive _ _ _ (hsigned 1)).left, hsigned 3,
    (hsurvive _ _ _ (hsigned 3)).left⟩

end Rabbithole.Federation
