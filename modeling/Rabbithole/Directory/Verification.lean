import Mathlib.Data.Char
import Rabbithole.Binkp.Command
import Rabbithole.Directory.Descriptor
import Rabbithole.Foundation.Lines
import Rabbithole.Foundation.Listing

/-!
# Addresses as text

How an address and port are shown.  Of a version 6 address the longest run of zero
groups is left out, and one that holds a version 4 address shows that.
-/

namespace Rabbithole.Directory

open Foundation RateLimit Federation Binkp

def part (width place n : Nat) : Nat :=
  n / 2 ^ (width * place) % 2 ^ width

def showIpv4 (n : Nat) : List Char :=
  joined '.' ([3, 2, 1, 0].map (fun place => Nat.toDigits 10 (part 8 place n)))

def segments (n : Nat) : List Nat :=
  [7, 6, 5, 4, 3, 2, 1, 0].map (fun place => part 16 place n)

structure Span where
  start : Nat
  len : Nat
deriving DecidableEq

/-- The first of the longest runs of zero groups. -/
def zeroesLoop : List Nat -> Nat -> Span -> Span -> Span
  | [], _, _, longest => longest
  | segment :: rest, i, current, longest =>
      if segment = 0 then
        let current := ⟨if current.len = 0 then i else current.start, current.len + 1⟩
        zeroesLoop rest (i + 1) current (if longest.len < current.len then current else longest)
      else zeroesLoop rest (i + 1) ⟨0, 0⟩ longest

def showSegments (groups : List Nat) : List Char :=
  joined ':' (groups.map (Nat.toDigits 16))

def showIpv6 (n : Nat) : List Char :=
  let groups := segments n
  let zeroes := zeroesLoop groups 0 ⟨0, 0⟩ ⟨0, 0⟩
  if groups.take 6 = [0, 0, 0, 0, 0, 0xffff] then "::ffff:".toList ++ showIpv4 (n % 2 ^ 32)
  else if 1 < zeroes.len then
    showSegments (groups.take zeroes.start) ++ "::".toList
      ++ showSegments (groups.drop (zeroes.start + zeroes.len))
  else showSegments groups

def SocketAddr.display (addr : SocketAddr) : List Char :=
  match addr.ip with
  | .v4 bits => showIpv4 bits.toNat ++ ':' :: Nat.toDigits 10 addr.port.toNat
  | .v6 bits =>
      '[' :: showIpv6 bits.toNat ++ ']' :: ':' :: Nat.toDigits 10 addr.port.toNat

example : SocketAddr.display ⟨.v4 0xcb007107, 5500⟩ = "203.0.113.7:5500".toList ∧
    SocketAddr.display ⟨.v6 0x20010db8000000000000000000000001, 80⟩ = "[2001:db8::1]:80".toList ∧
    SocketAddr.display ⟨.v6 0xffff01020304, 1⟩ = "[::ffff:1.2.3.4]:1".toList := by
  decide

theorem solid_showIpv4 (n : Nat) : Solid (showIpv4 n) := by
  apply solid_joined (by decide)
  intro octet hoctet
  rcases List.mem_map.mp hoctet with ⟨place, -, rfl⟩
  exact solid_toDigits (by decide) (by decide) _

theorem solid_showSegments (groups : List Nat) : Solid (showSegments groups) := by
  apply solid_joined (by decide)
  intro group hgroup
  rcases List.mem_map.mp hgroup with ⟨segment, -, rfl⟩
  exact solid_toDigits (by decide) (by decide) _

theorem solid_of_all {s : List Char} (h : s.all (fun c => !isWhitespace c) = true) : Solid s := by
  intro c hc
  have hsolid := List.all_eq_true.mp h c hc
  rwa [Bool.not_eq_true'] at hsolid

theorem solid_showIpv6 (n : Nat) : Solid (showIpv6 n) := by
  unfold showIpv6
  simp only []
  split
  · exact solid_append (solid_of_all (by decide)) (solid_showIpv4 _)
  · split
    · exact solid_append (solid_append (solid_showSegments _) (solid_of_all (by decide)))
        (solid_showSegments _)
    · exact solid_showSegments _

theorem solid_display (addr : SocketAddr) : Solid addr.display := by
  have hport : Solid (Nat.toDigits 10 addr.port.toNat) :=
    solid_toDigits (by decide) (by decide) _
  unfold SocketAddr.display
  split
  · exact solid_append (solid_showIpv4 _)
      (solid_append (s := [':']) (solid_of_all (by decide)) hport)
  · exact solid_append
      (solid_append (s := ['[']) (solid_of_all (by decide)) (solid_showIpv6 _))
      (solid_append (s := [']', ':']) (solid_of_all (by decide)) hport)

theorem display_ne_nil (addr : SocketAddr) : addr.display ≠ [] := by
  unfold SocketAddr.display
  split
  · simp
  · simp

/-!
# Offline verification

What a client makes of a listed row and the signed statement that came with it.  Nothing
is taken from the statement but what its signature covers, and the row must say the same.
-/

def maxProofBytes : Nat := 16 * 1024

def maxListingBytes : Nat := 1024 * 1024

def futureSkewMs : Int := 5 * 60 * 1000

def gossipMaxAgeMs : Int := 24 * 60 * 60 * 1000

def textLen (s : List Char) : Nat :=
  (utf8 s).length

inductive DirectoryProof where
  /-- The original descriptor in hexadecimal. -/
  | gossip (hex : List Char)
  /-- The original envelope in canonical JSON. -/
  | announce (document : List Char)
  | invalid
deriving DecidableEq

namespace DirectoryProof

def ofGossip (hex : List Char) : DirectoryProof :=
  if textLen hex <= maxProofBytes * 2 then .gossip hex else .invalid

def withinLimits (proof : DirectoryProof) : Bool :=
  match proof with
  | .gossip s => textLen s <= maxProofBytes * 2
  | .announce s => textLen s <= maxProofBytes
  | .invalid => true

end DirectoryProof

structure DirectoryServer where
  name : List Char
  endpoint : List Char
  description : List Char
  usersOnline : Option Nat
  listeners : List (List Char)
  uptimePct : Option Nat
  reachable : Bool
  proof : Option DirectoryProof
deriving DecidableEq

inductive Binding where
  /-- The signature covers this very address, its scheme and its path. -/
  | endpoint
  /-- It covers the host and the port. -/
  | address
deriving DecidableEq

structure VerifiedDescriptor where
  publicKey : List Char
  issuedAtMs : Int64
  binding : Binding
deriving DecidableEq

inductive DirectoryVerification where
  | unverified
  | invalid
  | future
  | stale (verified : VerifiedDescriptor)
  | verified (verified : VerifiedDescriptor)
deriving DecidableEq

/-!
## JSON
-/

/-- A value as the parser gives it; the fields of an object have different keys. -/
inductive Value where
  | null
  | bool (b : Bool)
  /-- A number as it is written back, and its value if it is a small enough integer. -/
  | number (text : List Char) (asI64 : Option Int64)
  | string (s : List Char)
  | array (items : List Value)
  | object (fields : List (List Char × Value))

namespace Value

def get (key : List Char) (v : Value) : Option Value :=
  match v with
  | .object fields => (fields.find? (fun field => decide (field.fst = key))).map Prod.snd
  | _ => none

def asStr (v : Value) : Option (List Char) :=
  match v with
  | .string s => some s
  | _ => none

def asI64 (v : Value) : Option Int64 :=
  match v with
  | .number _ n => n
  | _ => none

end Value

/-- The parser, and how a text is quoted. -/
structure JsonText where
  parse : List Char -> Option Value
  quote : List Char -> List Char

def boolText (b : Bool) : List Char :=
  if b then "true".toList else "false".toList

mutual

/-- Compact, the keys of every object in their order. -/
def canonicalJson (j : JsonText) : Value -> List Char
  | .null => "null".toList
  | .bool b => boolText b
  | .number text _ => text
  | .string s => j.quote s
  | .array items => '[' :: joined ',' (canonicalItems j items) ++ [']']
  | .object fields =>
      '{' :: joined ',' ((listBy Prod.fst (canonicalFields j fields)).map (fun field =>
        j.quote field.fst ++ ':' :: field.snd)) ++ ['}']

def canonicalItems (j : JsonText) : List Value -> List (List Char)
  | [] => []
  | v :: rest => canonicalJson j v :: canonicalItems j rest

def canonicalFields (j : JsonText) : List (List Char × Value) -> List (List Char × List Char)
  | [] => []
  | (key, v) :: rest => (key, canonicalJson j v) :: canonicalFields j rest

end

/-!
## Claims
-/

/-- The third-party parts: signatures, the binary format, and JSON. -/
structure Verifier where
  scheme : Scheme
  format : Format
  json : JsonText

/-- An array that a text has in hexadecimal. -/
def arrayOfHex (count : Nat) (s : List Char) : Option (BitVec (8 * count)) :=
  (fromHex s).bind (fun bytes =>
    match (Codec.array count).decode bytes with
    | some (v, []) => some v
    | _ => none)

def hexOfKey (key : PublicKey) : List Char :=
  toHex ((Codec.array 32).encode key)

namespace Verifier

variable (v : Verifier)

def wsScheme : List Char := "ws://".toList

/-- The document must be the very bytes, verify, and name the row's address and name. -/
def verifyGossip (row : DirectoryServer) (text : List Char) : Option (VerifiedDescriptor × Int) :=
  if maxProofBytes * 2 < textLen text then none
  else
    (fromHex text).bind (fun bytes =>
      (SignedDescriptor.ofBytes v.format bytes).bind (fun signed =>
        if signed.verify v.scheme v.format ≠ .ok () then none
        else if signed.toBytes v.format ≠ bytes then none
        else if row.endpoint ≠ wsScheme ++ signed.descriptor.addr.display ∨
            row.name ≠ signed.descriptor.name then none
        else
          some (⟨hexOfKey signed.descriptor.serverKey, signed.descriptor.timestamp, .address⟩,
            gossipMaxAgeMs)))

/-- The scheme that an endpoint names, and the field that binds it. -/
def endpointField (endpoint : List Char) : Option (List Char) :=
  (findText "://".toList endpoint).bind (fun place =>
    let protocol := endpoint.take place
    if protocol = "wss".toList then some "ws".toList
    else if protocol = "ws".toList ∨ protocol = "quic".toList then some protocol
    else none)

def verifyAnnounce (row : DirectoryServer) (text : List Char) : Option (VerifiedDescriptor × Int) :=
  if maxProofBytes < textLen text then none
  else do
    let value <- v.json.parse text
    let descriptor <- value.get "descriptor".toList
    let key <- ((descriptor.get "publicKey".toList).bind Value.asStr).bind (arrayOfHex 32)
    let sig <- ((value.get "signature".toList).bind Value.asStr).bind (arrayOfHex 64)
    guard (v.scheme.verify key (utf8 (canonicalJson v.json descriptor)) sig = true)
    let name <- (descriptor.get "name".toList).bind Value.asStr
    guard (name = row.name)
    let field <- endpointField row.endpoint
    let endpoints <- descriptor.get "endpoints".toList
    let endpoint <- (endpoints.get field).bind Value.asStr
    guard (endpoint = row.endpoint)
    let issuedAt <- (descriptor.get "timestamp".toList).bind Value.asI64
    let ttl <- (descriptor.get "ttl".toList).bind Value.asI64
    guard (30 <= ttl.toInt ∧ ttl.toInt <= 3600)
    some (⟨hexOfKey key, issuedAt, .endpoint⟩, ttl.toInt * 1000)

def verifiedClaim (row : DirectoryServer) : Option (VerifiedDescriptor × Int) :=
  match row.proof with
  | none => none
  | some (.gossip text) => v.verifyGossip row text
  | some (.announce text) => v.verifyAnnounce row text
  | some .invalid => none

def saturate (n : Int) : Int :=
  max (-2 ^ 63) (min (2 ^ 63 - 1) n)

def verify (row : DirectoryServer) (nowMs : Int64) : DirectoryVerification :=
  if row.proof.isNone then .unverified
  else
    match v.verifiedClaim row with
    | none => .invalid
    | some (claim, maxAgeMs) =>
        if nowMs < 0 ∨ claim.issuedAtMs < 0 ∨
            saturate (nowMs.toInt + futureSkewMs) < claim.issuedAtMs.toInt then .future
        else if maxAgeMs <= saturate (nowMs.toInt - claim.issuedAtMs.toInt) then .stale claim
        else .verified claim

end Verifier

end Rabbithole.Directory
