import Mathlib.Data.String.Basic
import Rabbithole.Federation.Postcard
import Rabbithole.Foundation.Listing
import Rabbithole.Manifest.Cbor

/-!
# The identity of a manifest

A manifest is known by the hash of its own encoding.  Files are sorted by their paths when
it is built, and files of one path keep the order in which they were supplied.
-/

namespace Rabbithole.Manifest

open Foundation Federation

def chunkSize : UInt32 := 1024 * 1024

namespace Wire

variable (p : Postcard)

def root : Codec Root where
  encode := fun root => root.val
  decode := fun bytes =>
    if h : (bytes.take 32).length = 32 then some (⟨bytes.take 32, h⟩, bytes.drop 32) else none
  decode_encode := by
    intro root rest
    have htake : (root.val ++ rest).take 32 = root.val := List.take_left' root.property
    have hdrop : (root.val ++ rest).drop 32 = rest := List.drop_left' root.property
    rw [dif_pos (by rw [htake]; exact root.property), hdrop]
    exact congrArg (fun root => some (root, rest)) (Subtype.ext htake)

def file : Codec ManifestFile :=
  (p.text.pair (p.u64.pair (root.pair p.text))).iso
    (fun (path, size, root, mime) => ⟨path, size, root, mime⟩)
    (fun f => (f.path, f.size, f.root, f.mime)) (fun _ => rfl)

def manifest : Codec Manifest :=
  (p.text.pair (p.u32.pair (p.length.list (file p)))).iso
    (fun (name, chunkSize, files) => ⟨name, chunkSize, files⟩)
    (fun m => (m.name, m.chunkSize, m.files)) (fun _ => rfl)

end Wire

namespace Manifest

/-- Texts are ordered by their characters, as their bytes are. -/
def new (name : String) (files : List ManifestFile) : Manifest where
  name := name
  chunkSize := Rabbithole.Manifest.chunkSize
  files := listBy ManifestFile.path files

def encode (p : Postcard) (m : Manifest) : Bytes :=
  (Wire.manifest p).encode m

def id {digest : Type} (p : Postcard) (blake3 : Bytes -> digest) (m : Manifest) : digest :=
  blake3 (m.encode p)

end Manifest

/-- The order of the files tells in the bytes, and in the id, just where two different files
have one path. -/
theorem manifest_id_order {digest : Type} (p : Postcard) (blake3 : Bytes -> digest)
    (name : String) (files : List ManifestFile) :
    (forall files', files'.Perm files ->
      (Manifest.new name files').encode p = (Manifest.new name files).encode p ∧
        (Manifest.new name files').id p blake3 = (Manifest.new name files).id p blake3) <->
      forall a b, a ∈ files -> b ∈ files -> a.path = b.path -> a = b := by
  rw [← listBy_perm_iff ManifestFile.path files]
  constructor
  · intro h files' hperm
    have hsame := (Wire.manifest p).encode_injective (h files' hperm).left
    exact congrArg Manifest.files hsame
  · intro h files' hperm
    have hsame : Manifest.new name files' = Manifest.new name files := by
      unfold Manifest.new
      rw [h files' hperm]
    rw [hsame]
    exact ⟨rfl, rfl⟩

def filledRoot (b : UInt8) : Root :=
  ⟨List.replicate 32 b, List.length_replicate⟩

/-- Two files of one path, whose roots differ. -/
theorem not_manifest_id_order :
    ¬ forall (name : String) (files files' : List ManifestFile), files'.Perm files ->
      (Manifest.new name files').encode .wire = (Manifest.new name files).encode .wire := by
  intro h
  have hperm : [(⟨"f", 1, filledRoot 1, ""⟩ : ManifestFile), ⟨"f", 1, filledRoot 2, ""⟩].Perm
      [⟨"f", 1, filledRoot 2, ""⟩, ⟨"f", 1, filledRoot 1, ""⟩] := List.Perm.swap _ _ _
  have hsame := h "x" _ _ hperm
  revert hsame
  decide

end Rabbithole.Manifest
