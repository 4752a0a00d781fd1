import Rabbithole.Foundation.Reading

/-!
# Manifests in CBOR

The interchange form of a manifest: deterministic CBOR of one fixed schema.  The writer
keeps to a limit on the whole document; the reader accepts shortest arguments, definite
lengths and the four keys in their order only.
-/

namespace Rabbithole.Manifest

open Foundation

def manifestCborVersion : Nat := 1

def maxManifestCborBytes : Nat := 16 * 1024 * 1024

def maxManifestCborFiles : Nat := 65536

/-- A content id: 32 bytes. -/
def Root : Type := { bytes : Bytes // bytes.length = 32 }

structure ManifestFile where
  path : String
  size : UInt64
  root : Root
  mime : String

structure Manifest where
  name : String
  chunkSize : UInt32
  files : List ManifestFile

inductive ManifestCborError where
  | limit (what : String)
  | version (version : Nat)
  | invalid (offset : Nat) (reason : String)
deriving DecidableEq

def bigEndian : Nat -> Nat -> Bytes
  | 0, _ => []
  | count + 1, n => bigEndian count (n / 256) ++ [UInt8.ofNat n]

def ofBigEndian (bytes : Bytes) : Nat :=
  bytes.foldl (fun n b => n * 256 + b.toNat) 0

/-!
## The writer
-/

namespace Writer

def append (out bytes : Bytes) : Except ManifestCborError Bytes :=
  if maxManifestCborBytes - out.length < bytes.length then .error (.limit "byte length")
  else .ok (out ++ bytes)

/-- A type and its argument, in the shortest form. -/
def headBytes (major : UInt8) (value : Nat) : Bytes :=
  if value <= 23 then [(major <<< 5) ||| UInt8.ofNat value]
  else if value <= 255 then ((major <<< 5) ||| 24) :: bigEndian 1 value
  else if value <= 65535 then ((major <<< 5) ||| 25) :: bigEndian 2 value
  else if value <= 4294967295 then ((major <<< 5) ||| 26) :: bigEndian 4 value
  else ((major <<< 5) ||| 27) :: bigEndian 8 value

def head (major : UInt8) (value : Nat) (out : Bytes) : Except ManifestCborError Bytes :=
  append out (headBytes major value)

def text (text : String) (out : Bytes) : Except ManifestCborError Bytes :=
  if maxManifestCborBytes < (Codec.bytesOf text).length then .error (.limit "byte length")
  else do
    let out ← head 3 (Codec.bytesOf text).length out
    append out (Codec.bytesOf text)

def file (out : Bytes) (file : ManifestFile) : Except ManifestCborError Bytes := do
  let out ← head 4 4 out
  let out ← text file.path out
  let out ← head 0 file.size.toNat out
  let out ← head 2 32 out
  let out ← append out file.root.val
  text file.mime out

end Writer

def encode (manifest : Manifest) : Except ManifestCborError Bytes :=
  if maxManifestCborFiles < manifest.files.length then .error (.limit "file count")
  else do
    let out ← Writer.head 5 4 []
    let out ← Writer.head 0 0 out
    let out ← Writer.head 0 manifestCborVersion out
    let out ← Writer.head 0 1 out
    let out ← Writer.text manifest.name out
    let out ← Writer.head 0 2 out
    let out ← Writer.head 0 manifest.chunkSize.toNat out
    let out ← Writer.head 0 3 out
    let out ← Writer.head 4 manifest.files.length out
    manifest.files.foldlM Writer.file out

/-!
## The reader
-/

/--
The input and the place in it.  The last two fields change nothing: they keep the parts
of the input that were read, from where to where, and the records room was made for,
with the bytes that were left then.
-/
structure Reader where
  bytes : Bytes
  offset : Nat
  taken : List (Nat × Nat)
  reserved : List (Nat × Nat)

namespace Reader

def invalid (reason : String) (s : Reader) : ManifestCborError :=
  .invalid s.offset reason

def remaining (s : Reader) : Nat :=
  s.bytes.length - s.offset

abbrev Read (value : Type) : Type := Reading Reader ManifestCborError value

def advance (s : Reader) (count : Nat) : Reader :=
  { s with
    offset := s.offset + count
    taken := (s.offset, s.offset + count) :: s.taken }

def take (count : Nat) : Read Bytes :=
  fun s =>
    if s.remaining < count then (.error (invalid "truncated item" s), s)
    else (.ok ((s.bytes.drop s.offset).take count), s.advance count)

/-- How many bytes an argument has, and the least value that needs them. -/
def argument (info : UInt8) : Option (Nat × Nat) :=
  if info = 24 then some (1, 24)
  else if info = 25 then some (2, 256)
  else if info = 26 then some (4, 65536)
  else if info = 27 then some (8, 4294967296)
  else none

/-- The value of a head, by its first byte. -/
def headValue (major initial : UInt8) : Read Nat :=
  if initial >>> 5 ≠ major then Reading.fail (invalid "unexpected type")
  else if initial &&& 31 <= 23 then Reading.pure (initial &&& 31).toNat
  else
    match argument (initial &&& 31) with
    | none => Reading.fail (invalid "indefinite or reserved argument")
    | some (length, minimum) => do
        let bytes ← take length
        if ofBigEndian bytes < minimum then Reading.fail (invalid "non-shortest argument")
        else Reading.pure (ofBigEndian bytes)

def head (major : UInt8) : Read Nat := do
  let first ← take 1
  headValue major (first.headD 0)

def exact (major : UInt8) (expected : Nat) : Read Unit := do
  let value ← head major
  if value ≠ expected then Reading.fail (invalid "unexpected key or container length")
  else Reading.pure ()

def text : Read String := do
  let length ← head 3
  Reading.require (fun s => decide (length <= s.remaining)) (invalid "truncated text")
  let bytes ← take length
  match Codec.textOf? bytes with
  | none => Reading.fail (invalid "invalid UTF-8")
  | some text => Reading.pure text

/-- A byte string of 32 bytes, its head read already. -/
def root : Read Root := do
  let bytes ← take 32
  if h : bytes.length = 32 then Reading.pure ⟨bytes, h⟩
  else Reading.fail (invalid "truncated item")

def file : Read ManifestFile := do
  exact 4 4
  let path ← text
  let size ← head 0
  exact 2 32
  let root ← root
  let mime ← text
  Reading.pure ⟨path, UInt64.ofNat size, root, mime⟩

def reserve (count : Nat) : Read Unit :=
  Reading.update (fun s => { s with reserved := (count, s.remaining) :: s.reserved })

/-- The manifest, with whatever is behind it. -/
def manifest : Read Manifest := do
  exact 5 4
  exact 0 0
  let version ← head 0
  Reading.require (fun _ => decide (version = manifestCborVersion)) (fun _ => .version version)
  exact 0 1
  let name ← text
  exact 0 2
  let chunkSize ← head 0
  Reading.require (fun _ => decide (chunkSize < 2 ^ 32)) (invalid "chunk size exceeds u32")
  exact 0 3
  let count ← head 4
  Reading.require (fun _ => decide (count <= maxManifestCborFiles)) (fun _ => .limit "file count")
  Reading.require (fun s => decide (count <= s.remaining / 38)) (invalid "truncated file records")
  reserve count
  let files ← Reading.many file count
  Reading.pure ⟨name, UInt32.ofNat chunkSize, files⟩

def document : Read Manifest := do
  let manifest ← manifest
  Reading.require (fun s => decide (s.remaining = 0)) (invalid "trailing bytes")
  Reading.pure manifest

def new (bytes : Bytes) : Reader where
  bytes := bytes
  offset := 0
  taken := []
  reserved := []

end Reader

def decode (bytes : Bytes) : Except ManifestCborError Manifest :=
  if maxManifestCborBytes < bytes.length then .error (.limit "byte length")
  else (Reader.document (Reader.new bytes)).fst

end Rabbithole.Manifest
