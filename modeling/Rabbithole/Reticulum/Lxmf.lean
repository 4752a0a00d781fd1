import Mathlib.Data.String.Basic
import Rabbithole.Federation.Postcard
import Rabbithole.Foundation.Ascending

/-!
# Signed messages

A signed message travels as its signature and behind it the message, packed.  Whoever
unpacks reads a message from the front of what is behind the signature, and nothing asks
whether that was all of it.
-/

namespace Rabbithole.Reticulum
namespace Lxmf

open Foundation List
open Federation (Postcard)

def destinationHashLength : Nat := 16

def signatureLength : Nat := 64

structure LxmfMessage where
  destinationHash : BitVec (8 * destinationHashLength)
  sourceHash : BitVec (8 * destinationHashLength)
  timestamp : BitVec (8 * 8)
  title : Bytes
  content : Bytes
  fields : Ascending String Bytes

structure SignedLxmf where
  message : LxmfMessage
  signature : { sig : Bytes // sig.length = signatureLength }

inductive LxmfError where
  | malformed

/-- Bytes behind their number. -/
def bytes (p : Postcard) : Codec Bytes where
  encode := fun content => p.length.encode content.length ++ content
  decode := fun input =>
    match p.length.decode input with
    | none => none
    | some (count, rest) => Codec.takeBytes count rest
  decode_encode := by
    intro content rest
    rw [append_assoc, Codec.decode_encode]
    exact Codec.takeBytes_append content rest

/-- Entries behind their number; they are put in one by one as they are read. -/
def fields (p : Postcard) : Codec (Ascending String Bytes) :=
  (Codec.list p.length (p.text.pair (bytes p))).iso Ascending.ofList Ascending.entries
    Ascending.ofList_entries

def message (p : Postcard) : Codec LxmfMessage :=
  ((p.array destinationHashLength).pair ((p.array destinationHashLength).pair
    ((p.array 8).pair ((bytes p).pair ((bytes p).pair (fields p)))))).iso
    (fun v =>
      { destinationHash := v.1
        sourceHash := v.2.1
        timestamp := v.2.2.1
        title := v.2.2.2.1
        content := v.2.2.2.2.1
        fields := v.2.2.2.2.2 })
    (fun m => (m.destinationHash, m.sourceHash, m.timestamp, m.title, m.content, m.fields))
    (fun _ => rfl)

def pack (p : Postcard) (signed : SignedLxmf) : Bytes :=
  signed.signature.val ++ (message p).encode signed.message

def unpack (p : Postcard) (input : Bytes) : Except LxmfError SignedLxmf :=
  if h : input.length < signatureLength then .error .malformed
  else
    match (message p).fromBytes (input.drop signatureLength) with
    | none => .error .malformed
    | some m =>
        .ok {
          message := m
          signature := ⟨input.take signatureLength, by
            rw [length_take]
            exact Nat.min_eq_left (Nat.le_of_not_lt h)⟩ }

/-!
## What unpacking looks at
-/

variable {p : Postcard}

theorem unpack_eq_ok {input : Bytes} {signed : SignedLxmf} : unpack p input = .ok signed ↔
      exists body, input = signed.signature.val ++ body ∧
        (message p).fromBytes body = some signed.message := by
  constructor
  · intro h
    unfold unpack at h
    split at h
    · contradiction
    · split at h
      · contradiction
      · rename_i m hread
        cases h
        exact ⟨input.drop signatureLength, (take_append_drop _ input).symm, hread⟩
  · rintro ⟨body, rfl, hread⟩
    obtain ⟨m, sig, hsig⟩ := signed
    have hlong : ¬ (sig ++ body).length < signatureLength := by
      rw [length_append, hsig]
      exact Nat.not_lt.mpr (Nat.le_add_right _ _)
    unfold unpack
    rw [dif_neg hlong]
    dsimp only at hread ⊢
    have hdrop : (sig ++ body).drop signatureLength = body := drop_left' hsig
    have htake : (sig ++ body).take signatureLength = sig := take_left' hsig
    simp only [hdrop, hread, htake]

theorem unpack_pack_append (signed : SignedLxmf) (t : Bytes) :
    unpack p (pack p signed ++ t) = .ok signed := by
  apply unpack_eq_ok.mpr
  refine ⟨(message p).encode signed.message ++ t, ?_, ?_⟩
  · unfold pack
    rw [append_assoc]
  · unfold Codec.fromBytes
    rw [Codec.decode_encode]
    rfl

theorem unpack_eq_ok_iff_message (input : Bytes) : (exists signed, unpack p input = .ok signed) ↔
      signatureLength <= input.length ∧
        exists m, (message p).fromBytes (input.drop signatureLength) = some m := by
  constructor
  · rintro ⟨signed, h⟩
    obtain ⟨body, rfl, hread⟩ := unpack_eq_ok.mp h
    rw [length_append, signed.signature.property,
      drop_left' signed.signature.property]
    exact ⟨Nat.le_add_right _ _, signed.message, hread⟩
  · rintro ⟨hlong, m, hread⟩
    have hsig : (input.take signatureLength).length = signatureLength := by
      rw [length_take]
      exact Nat.min_eq_left hlong
    exact ⟨⟨m, ⟨_, hsig⟩⟩, unpack_eq_ok.mpr
      ⟨_, (take_append_drop signatureLength input).symm, hread⟩⟩

/-- An input gives back itself where nothing is read from it, or where it is a packed message;
and bytes behind a packed message are never an error. -/
theorem unpack_exact (p : Postcard) (input : Bytes) (signed : SignedLxmf) (t : Bytes) :
    ((forall read, unpack p input = .ok read -> pack p read = input) ∧
      (t ≠ [] -> unpack p (pack p signed ++ t) = .error .malformed)) ↔
      (input.length < signatureLength ∨
        (message p).fromBytes (input.drop signatureLength) = none ∨
        exists whole, input = pack p whole) ∧ t = [] := by
  constructor
  · rintro ⟨hback, hrest⟩
    refine ⟨?_, ?_⟩
    · by_cases hshort : input.length < signatureLength
      · exact Or.inl hshort
      · refine Or.inr ?_
        cases hread : (message p).fromBytes (input.drop signatureLength) with
        | none => exact Or.inl rfl
        | some m =>
            obtain ⟨read, hok⟩ :=
              (unpack_eq_ok_iff_message input).mpr ⟨Nat.le_of_not_lt hshort, m, hread⟩
            exact Or.inr ⟨read, (hback read hok).symm⟩
    · by_contra ht
      have hmalformed := hrest ht
      rw [unpack_pack_append] at hmalformed
      contradiction
  · rintro ⟨hinput, rfl⟩
    refine ⟨fun read hok => ?_, fun ht => absurd rfl ht⟩
    rcases hinput with hshort | hnone | ⟨whole, rfl⟩
    · obtain ⟨hlong, -⟩ := (unpack_eq_ok_iff_message input).mp ⟨read, hok⟩
      exact absurd hshort (Nat.not_lt.mpr hlong)
    · obtain ⟨-, m, hread⟩ := (unpack_eq_ok_iff_message input).mp ⟨read, hok⟩
      rw [hnone] at hread
      contradiction
    · have hwhole := unpack_pack_append (p := p) whole []
      rw [append_nil, hok] at hwhole
      cases hwhole
      rfl

def blankMessage : LxmfMessage where
  destinationHash := 0
  sourceHash := 0
  timestamp := 0
  title := []
  content := []
  fields := Ascending.empty

/-- One byte behind an empty message. -/
theorem not_unpack_exact :
    ¬ (forall (p : Postcard) (input : Bytes) (signed : SignedLxmf) (t : Bytes),
      (forall read, unpack p input = .ok read -> pack p read = input) ∧
        (t ≠ [] -> unpack p (pack p signed ++ t) = .error .malformed)) := by
  intro h
  have hzero := (h Postcard.wire []
    ⟨blankMessage, ⟨List.replicate signatureLength 0, length_replicate⟩⟩ [0]).right
      (cons_ne_nil _ _)
  rw [unpack_pack_append] at hzero
  contradiction

end Lxmf
end Rabbithole.Reticulum
