import Rabbithole.Foundation.Codec

/-!
# Authenticated encryption

A message is sealed under a key, bound to data that travels beside it.  Ideally it is opened
under that key and with that data only, and a key that is secret opens nothing but what was
sealed by those who have it.
-/

namespace Rabbithole.Foundation

structure Aead (key : Type) where
  sealUnder : key -> Bytes -> Bytes -> Bytes
  openUnder : key -> Bytes -> Bytes -> Option Bytes

/-- What was put under a seal. -/
structure Sealed (key : Type) where
  key : key
  plaintext : Bytes
  ad : Bytes
deriving DecidableEq

namespace Aead

variable {key : Type}

structure Ideal (aead : Aead key) : Prop where
  open_seal : forall k plaintext ad, aead.openUnder k (aead.sealUnder k plaintext ad) ad = some plaintext
  bound : forall {k k' plaintext opened ad ad'},
    aead.openUnder k' (aead.sealUnder k plaintext ad) ad' = some opened -> k' = k ∧ ad' = ad

def ciphertext (aead : Aead key) (s : Sealed key) : Bytes :=
  aead.sealUnder s.key s.plaintext s.ad

/-- If a secret key opens it, it is a ciphertext that was made. -/
def Unforged (aead : Aead key) (secret : key -> Prop) (made : Sealed key -> Prop)
    (ciphertext : Bytes) : Prop :=
  forall k ad plaintext, secret k -> aead.openUnder k ciphertext ad = some plaintext ->
    exists s, made s ∧ aead.ciphertext s = ciphertext

theorem made_of_open {aead : Aead key} (hideal : aead.Ideal) {secret : key -> Prop}
    {made : Sealed key -> Prop} {ciphertext : Bytes}
    (hunforged : aead.Unforged secret made ciphertext) {k : key} (hsecret : secret k)
    {ad plaintext : Bytes} (hopen : aead.openUnder k ciphertext ad = some plaintext) :
    made ⟨k, plaintext, ad⟩ ∧ aead.sealUnder k plaintext ad = ciphertext := by
  rcases hunforged k ad plaintext hsecret hopen with ⟨⟨k', plaintext', ad'⟩, hmade, rfl⟩
  rcases hideal.bound hopen with ⟨rfl, rfl⟩
  have hsame := hideal.open_seal k plaintext' ad
  rw [show aead.openUnder k (aead.sealUnder k plaintext' ad) ad = some plaintext from hopen] at hsame
  cases hsame
  exact ⟨hmade, rfl⟩

theorem ciphertext_injective {aead : Aead key} (hideal : aead.Ideal) :
    Function.Injective aead.ciphertext := by
  intro ⟨k, plaintext, ad⟩ ⟨k', plaintext', ad'⟩ heq
  have hopen := hideal.open_seal k plaintext ad
  have hsame := hideal.open_seal k' plaintext' ad'
  replace heq : aead.sealUnder k plaintext ad = aead.sealUnder k' plaintext' ad' := heq
  rw [heq] at hopen
  rcases hideal.bound hopen with ⟨rfl, rfl⟩
  rw [hopen] at hsame
  cases hsame
  rfl

/-- Something was sealed under the key, and this is what came of it. -/
def Under (aead : Aead key) (k : key) (ciphertext : Bytes) : Prop :=
  exists plaintext ad, aead.sealUnder k plaintext ad = ciphertext

theorem under_unique {aead : Aead key} (hideal : aead.Ideal) {k k' : key} {ciphertext : Bytes}
    (h : aead.Under k ciphertext) (h' : aead.Under k' ciphertext) : k = k' := by
  rcases h with ⟨plaintext, ad, rfl⟩
  rcases h' with ⟨plaintext', ad', heq⟩
  exact congrArg Sealed.key
    (@ciphertext_injective _ _ hideal ⟨k, plaintext, ad⟩ ⟨k', plaintext', ad'⟩ heq.symm)

/-- A seal that carries all it was made from, and is opened by looking at it. -/
def ofCodec [DecidableEq key] (c : Codec (key × Bytes × Bytes)) : Aead key where
  sealUnder k plaintext ad := c.encode (k, plaintext, ad)
  openUnder k ciphertext ad :=
    match c.fromBytes ciphertext with
    | some (k', plaintext, ad') => if k = k' ∧ ad = ad' then some plaintext else none
    | none => none

theorem ideal_ofCodec [DecidableEq key] (c : Codec (key × Bytes × Bytes)) : (ofCodec c).Ideal where
  open_seal k plaintext ad := by
    simp [ofCodec]
  bound {k k' plaintext opened ad ad'} hopen := by
    simp only [ofCodec, Codec.fromBytes_encode, Option.ite_none_right_eq_some] at hopen
    exact hopen.left

end Aead

end Rabbithole.Foundation
