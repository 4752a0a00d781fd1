import Rabbithole.Foundation.Codec

/-!
# Errors and associated data

What both kinds of session share: their errors, and the bytes that tie a ciphertext to what
travels beside it.
-/

namespace Rabbithole.E2ee

open Foundation

inductive Error where
  | decrypt
  | tooManySkipped (max : UInt32)
  | noReceivingChain
  | noSendingChain
  | unknownSender
  | badSignature
  | wrongGroup
deriving DecidableEq

abbrev Array32 := BitVec (8 * 32)

def array32 : Codec Array32 :=
  Codec.array 32

def byte : Codec UInt8 :=
  (Codec.array 1).iso UInt8.ofBitVec UInt8.toBitVec (fun _ => rfl)

/-- `u32::to_le_bytes`. -/
def u32 : Codec UInt32 :=
  (Codec.array 4).iso UInt32.ofBitVec UInt32.toBitVec (fun _ => rfl)

theorem length_array32 (v : Array32) : (array32.encode v).length = 32 :=
  Codec.length_littleEndian 32 _

theorem length_u32 (n : UInt32) : (u32.encode n).length = 4 :=
  Codec.length_littleEndian 4 _

theorem encode_append_inj {value : Type} (c : Codec value) {v v' : value} {rest rest' : Bytes}
    (h : c.encode v ++ rest = c.encode v' ++ rest') : v = v' ∧ rest = rest' := by
  have hread := c.decode_encode v rest
  rw [h, c.decode_encode] at hread
  cases hread
  exact ⟨rfl, rfl⟩

end Rabbithole.E2ee
