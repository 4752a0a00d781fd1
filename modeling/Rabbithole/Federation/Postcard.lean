import Rabbithole.Foundation.Codec

/-!
# Postcard and signatures

The codecs of the primitive types, from which a record's codec is put together, and the
signature scheme.  Both are third-party; here they are parameters, a codec with its law.
-/

namespace Rabbithole.Federation

open Foundation

def asciiBytes (text : String) : Bytes :=
  text.toList.map (fun c => UInt8.ofNat c.toNat)

abbrev PublicKey := BitVec (8 * 32)

abbrev Signature := BitVec (8 * 64)

structure Postcard where
  u32 : Codec UInt32
  u64 : Codec UInt64
  i64 : Codec Int64
  length : Codec Nat
  text : Codec String
  array : (count : Nat) -> Codec (BitVec (8 * count))

namespace Postcard

/-- A signature is written as a sequence of bytes, behind its length. -/
def signature (p : Postcard) : Codec Signature where
  encode := fun sig => p.length.encode 64 ++ (p.array 64).encode sig
  decode := fun bytes =>
    match p.length.decode bytes with
    | none => none
    | some (count, rest) => if count = 64 then (p.array 64).decode rest else none
  decode_encode := by
    intro sig rest
    rw [List.append_assoc, Codec.decode_encode]
    simp

def zigzag (n : Int) : Nat :=
  if 0 <= n then 2 * n.toNat else 2 * (-n - 1).toNat + 1

def unzigzag (n : Nat) : Int :=
  if n % 2 = 0 then n / 2 else -((n : Int) / 2) - 1

theorem unzigzag_zigzag (n : Int) : unzigzag (zigzag n) = n := by
  unfold unzigzag zigzag
  split
  all_goals
    split
    · omega
    · omega

/-- The documented format: variable-length integers, signed ones zigzag. -/
def wire : Postcard where
  u32 := Codec.varint.iso UInt32.ofNat UInt32.toNat (fun _ => UInt32.ofNat_toNat)
  u64 := Codec.varint.iso UInt64.ofNat UInt64.toNat (fun _ => UInt64.ofNat_toNat)
  i64 := Codec.varint.iso (fun n => Int64.ofInt (unzigzag n)) (fun n => zigzag n.toInt)
    (fun n => by rw [unzigzag_zigzag, Int64.ofInt_toInt])
  length := Codec.varint
  text := Codec.text Codec.varint
  array := Codec.array

end Postcard

/-- Whether a key verifies a signature of a message. -/
structure Scheme where
  verify : PublicKey -> Bytes -> Signature -> Bool

end Rabbithole.Federation
