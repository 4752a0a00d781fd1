import Mathlib.Data.List.Destutter
import Rabbithole.Foundation.Text
import Rabbithole.Foundation.Utf8

/-!
# Links

The `rabbit://` links: an authority, a target and the routes besides the authority, read
from a text and shown as one.
-/

namespace Rabbithole.Link

open Foundation

/-- What is used of the hex library: digits in lower case, which read back. -/
structure Hex where
  encode : Bytes -> List Char
  decode : List Char -> Option Bytes
  decode_encode : forall bytes, decode (encode bytes) = some bytes
  digits : forall bytes c, c ∈ encode bytes -> c ∈ "0123456789abcdef".toList

/-!
## Destination hashes
-/

inductive DestinationHashError where
  | badLength (length : Nat)
  | badChar (offset : Nat)
deriving DecidableEq

/-- Sixteen bytes. -/
structure DestinationHash where
  bytes : Bytes
  length : bytes.length = 16
deriving DecidableEq

def hexVal (b : UInt8) : Option UInt8 :=
  if 48 <= b && b <= 57 then some (b - 48)
  else if 97 <= b && b <= 102 then some (b - 97 + 10)
  else if 65 <= b && b <= 70 then some (b - 65 + 10)
  else none

def hexPairs : Nat -> Bytes -> Except DestinationHashError Bytes
  | i, hi :: lo :: rest =>
      match hexVal hi with
      | none => .error (.badChar (i * 2))
      | some hi =>
          match hexVal lo with
          | none => .error (.badChar (i * 2 + 1))
          | some lo => (hexPairs (i + 1) rest).map (fun out => ((hi <<< 4) ||| lo) :: out)
  | _, _ => .ok []

theorem length_hexPairs {i : Nat} {bytes out : Bytes} (h : hexPairs i bytes = .ok out) :
    out.length = bytes.length / 2 := by
  fun_induction hexPairs i bytes generalizing out with
  | case1 => cases h
  | case2 => cases h
  | case3 i hi lo rest vhi hhi vlo hlo ih =>
      cases hrest : hexPairs (i + 1) rest with
      | error e =>
          rw [hrest] at h
          cases h
      | ok out =>
          rw [hrest] at h
          cases h
          rw [List.length_cons, ih hrest, List.length_cons, List.length_cons]
          omega
  | case4 bytes _ hshort =>
      cases h
      rcases bytes with _ | ⟨first, _ | ⟨second, rest⟩⟩
      · rfl
      · show 0 = 1 / 2
        decide
      · exact absurd rfl (hshort first second rest)

namespace DestinationHash

def fromStr (s : List Char) : Except DestinationHashError DestinationHash :=
  if hlength : (utf8 s).length = 32 then
    match hpairs : hexPairs 0 (utf8 s) with
    | .error e => .error e
    | .ok out => .ok ⟨out, by rw [length_hexPairs hpairs, hlength]⟩
  else .error (.badLength (utf8 s).length)

def hexDigits : List Char := "0123456789abcdef".toList

def hex16 (bytes : Bytes) : List Char :=
  bytes.flatMap (fun b : UInt8 =>
    [hexDigits.getD (b >>> 4).toNat '0', hexDigits.getD (b &&& 15).toNat '0'])

def display (hash : DestinationHash) : List Char :=
  hex16 hash.bytes

def le (a b : DestinationHash) : Bool :=
  decide (a.bytes <= b.bytes)

end DestinationHash

/-!
## Escapes
-/

def isUnreserved (b : UInt8) : Bool :=
  (48 <= b && b <= 57) || (65 <= b && b <= 90) || (97 <= b && b <= 122) ||
    b == 45 || b == 95 || b == 46 || b == 126 || b == 47

def upperDigits : List Char := "0123456789ABCDEF".toList

def pctByte (b : UInt8) : List Char :=
  if isUnreserved b then [Char.ofNat b.toNat]
  else ['%', upperDigits.getD (b >>> 4).toNat '0', upperDigits.getD (b &&& 15).toNat '0']

def pctEncode (s : List Char) : List Char :=
  (utf8 s).flatMap pctByte

/-- Two digits as a number in base 16; a plus can stand for the first of them. -/
def fromStrRadix16 (x y : UInt8) : Option UInt8 :=
  match if x = 43 then some 0 else hexVal x, hexVal y with
  | some hi, some lo => some (hi * 16 + lo)
  | _, _ => none

/-- The decoded bytes.  There are none where the text is cut inside a character. -/
def pctBytes : Bytes -> Option Bytes
  | 37 :: x :: y :: rest =>
      if rest.head?.any isContinuation then none
      else
        match fromStrRadix16 x y with
        | some v => (pctBytes rest).map (fun out => v :: out)
        | none => (pctBytes (x :: y :: rest)).map (fun out => 37 :: out)
  | b :: rest => (pctBytes rest).map (fun out => b :: out)
  | [] => some []

def pctDecode (s : List Char) : Option (List Char) :=
  (pctBytes (utf8 s)).map fromUtf8Lossy

/-!
## Links
-/

inductive LinkError where
  | scheme
  | authority
  | target
  | unknownKind (kind : List Char)
  | hex
  | rnsAuthority (e : DestinationHashError)
  | rnsVia (e : DestinationHashError)
deriving DecidableEq

/-- A link is refused, or the program ends in the middle of it. -/
inductive Stop where
  | error (e : LinkError)
  | panicked
deriving DecidableEq

inductive LinkAuthority where
  | host (host : List Char) (port : Option UInt16)
  | rns (dest : DestinationHash)
deriving DecidableEq

/-- A content id: 32 bytes. -/
structure Id where
  bytes : Bytes
  length : bytes.length = 32
deriving DecidableEq

inductive LinkTarget where
  | file (area path : List Char) (root : Option Id)
  | manifest (id : Id)
  | blob (id : Id)
deriving DecidableEq

structure RabbitLink where
  authority : LinkAuthority
  target : LinkTarget
  rnsVia : List DestinationHash
deriving DecidableEq

def stripRnsScheme : List Char -> Option (List Char)
  | r :: n :: s :: colon :: rest =>
      if r.toLower = 'r' ∧ n.toLower = 'n' ∧ s.toLower = 's' ∧ colon = ':' then some rest else none
  | _ => none

def parseAuthority (a : List Char) : Except LinkError LinkAuthority :=
  if a.isEmpty then .error .authority
  else
    match stripRnsScheme a with
    | some hash =>
        match DestinationHash.fromStr hash with
        | .error e => .error (.rnsAuthority e)
        | .ok dest => .ok (.rns dest)
    | none =>
        match rsplitOnce ':' a with
        | some (host, port) =>
            match parseUnsigned 65535 port with
            | none => .error .authority
            | some port =>
                if host.isEmpty then .error .authority
                else .ok (.host host (some (UInt16.ofNat port)))
        | none => .ok (.host a none)

section

variable (hex : Hex)

def hex32 (s : List Char) : Except LinkError Id :=
  match hex.decode s with
  | none => .error .hex
  | some bytes => if h : bytes.length = 32 then .ok ⟨bytes, h⟩ else .error .hex

/-- The first `root` of the query. -/
def queryRoot : List (List Char) -> Except LinkError (Option Id)
  | [] => .ok none
  | pair :: pairs =>
      match "root=".toList.isPrefixOf? pair with
      | some v => (hex32 hex v).map some
      | none => queryRoot pairs

/-- All routes of the query, in its order. -/
def queryRoutes : List (List Char) -> Except LinkError (List DestinationHash)
  | [] => .ok []
  | pair :: pairs =>
      match ("via=".toList.isPrefixOf? pair).bind stripRnsScheme with
      | some hash =>
          match DestinationHash.fromStr hash with
          | .error e => .error (.rnsVia e)
          | .ok dest => (queryRoutes pairs).map (fun via => dest :: via)
      | none => queryRoutes pairs

def queryVia (pairs : List (List Char)) : Except LinkError (List DestinationHash) :=
  (queryRoutes pairs).map (fun via => (via.mergeSort DestinationHash.le).destutter (· ≠ ·))

/-- The pairs of a query, if there is one. -/
def queryPairs (query : Option (List Char)) : List (List Char) :=
  match query with
  | some q => q.splitOn '&'
  | none => []

def parseFile (segs pairs : List (List Char)) : Except Stop LinkTarget :=
  match segs with
  | [] => .error (.error .target)
  | area :: more =>
      if area.isEmpty then .error (.error .target)
      else if (more.filter (fun seg => !seg.isEmpty)).isEmpty then .error (.error .target)
      else
        match queryRoot hex pairs with
        | .error e => .error (.error e)
        | .ok root =>
            match pctDecode area with
            | none => .error .panicked
            | some area =>
                match pctDecode (['/'].intercalate (more.filter (fun seg => !seg.isEmpty))) with
                | none => .error .panicked
                | some path => .ok (.file area path root)

def parseTarget (kind : List Char) (segs pairs : List (List Char)) : Except Stop LinkTarget :=
  if kind = "manifest".toList then
    match hex32 hex (segs.headD []) with
    | .error e => .error (.error e)
    | .ok id => .ok (.manifest id)
  else if kind = "blob".toList then
    match hex32 hex (segs.headD []) with
    | .error e => .error (.error e)
    | .ok id => .ok (.blob id)
  else if kind = "files".toList then parseFile hex segs pairs
  else .error (.error (.unknownKind kind))

def splitQuery (pathq : List Char) : List Char × Option (List Char) :=
  match splitOnce '?' pathq with
  | some (path, query) => (path, some query)
  | none => (pathq, none)

/-- The part behind the authority. -/
def parsePath (authority : LinkAuthority) (pathq : List Char) : Except Stop RabbitLink :=
  if pathq.isEmpty then .error (.error .target)
  else
    let segs := (splitQuery pathq).fst.splitOn '/'
    let pairs := queryPairs (splitQuery pathq).snd
    match parseTarget hex (segs.headD []) segs.tail pairs with
    | .error stop => .error stop
    | .ok target =>
        match queryVia pairs with
        | .error e => .error (.error e)
        | .ok rnsVia => .ok ⟨authority, target, rnsVia⟩

def parse (s : List Char) : Except Stop RabbitLink :=
  match "rabbit://".toList.isPrefixOf? s with
  | none => .error (.error .scheme)
  | some rest =>
      match splitOnce '/' rest with
      | none => .error (.error .target)
      | some (authority, pathq) =>
          match parseAuthority authority with
          | .error e => .error (.error e)
          | .ok authority => parsePath hex authority pathq

def LinkAuthority.display : LinkAuthority -> List Char
  | .host name none => name
  | .host name (some port) => name ++ ':' :: Nat.toDigits 10 port.toNat
  | .rns dest => "rns:".toList ++ dest.display

def LinkTarget.display : LinkTarget -> List Char
  | .manifest id => "/manifest/".toList ++ hex.encode id.bytes
  | .blob id => "/blob/".toList ++ hex.encode id.bytes
  | .file area path _ => "/files/".toList ++ pctEncode area ++ '/' :: pctEncode path

def RabbitLink.pairs (l : RabbitLink) : List (List Char) :=
  (match l.target with
    | .file _ _ (some root) => ["root=".toList ++ hex.encode root.bytes]
    | _ => []) ++ l.rnsVia.map (fun via => "via=rns:".toList ++ via.display)

def RabbitLink.display (l : RabbitLink) : List Char :=
  "rabbit://".toList ++ l.authority.display ++ l.target.display hex ++
    if (l.pairs hex).isEmpty then [] else '?' :: ['&'].intercalate (l.pairs hex)

end

end Rabbithole.Link
