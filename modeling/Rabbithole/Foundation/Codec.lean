import Mathlib.Algebra.Ring.Int.Defs
import Mathlib.Algebra.Ring.Nat
import Mathlib.Data.List.Basic
import Mathlib.Data.List.Induction

/-!
# Codecs

A value is written as bytes, and read back from the front of an input.  Codecs compose: one
after the other, a list behind its length, a value that is another in other clothes.
-/

namespace Rabbithole.Foundation

open List

abbrev Bytes := List UInt8

/-- What is written is read back, whatever follows it. -/
structure Codec (value : Type) where
  encode : value -> Bytes
  decode : Bytes -> Option (value × Bytes)
  decode_encode : forall v rest, decode (encode v ++ rest) = some (v, rest)

namespace Codec

variable {value value' : Type}

attribute [simp] decode_encode

/-- What is read from a whole input; bytes behind the value are not looked at. -/
def fromBytes (c : Codec value) (bytes : Bytes) : Option value :=
  (c.decode bytes).map Prod.fst

@[simp] theorem fromBytes_encode (c : Codec value) (v : value) :
    c.fromBytes (c.encode v) = some v := by
  have hread := c.decode_encode v []
  rw [append_nil] at hread
  unfold fromBytes
  rw [hread]
  rfl

theorem encode_injective (c : Codec value) : Function.Injective c.encode := by
  intro v v' heq
  have hread := c.fromBytes_encode v
  rw [heq, fromBytes_encode] at hread
  exact (Option.some.inj hread).symm

/-- One value after the other: the fields of a record. -/
def pair (c : Codec value) (c' : Codec value') : Codec (value × value') where
  encode := fun v => c.encode v.fst ++ c'.encode v.snd
  decode := fun bytes =>
    match c.decode bytes with
    | none => none
    | some (v, rest) =>
        match c'.decode rest with
        | none => none
        | some (v', rest) => some ((v, v'), rest)
  decode_encode := by
    intro v rest
    simp

theorem decode_pair_encode (c : Codec value) (c' : Codec value') (v : value × value')
    (rest : Bytes) :
    c.decode ((c.pair c').encode v ++ rest) = some (v.fst, c'.encode v.snd ++ rest) := by
  show c.decode ((c.encode v.fst ++ c'.encode v.snd) ++ rest) = _
  rw [append_assoc, decode_encode]

/-- The same bytes for another type of value. -/
def iso (c : Codec value) (ofValue : value -> value') (toValue : value' -> value)
    (h : forall v, ofValue (toValue v) = v) : Codec value' where
  encode := fun v => c.encode (toValue v)
  decode := fun bytes => (c.decode bytes).map (fun read => (ofValue read.fst, read.snd))
  decode_encode := by
    intro v rest
    simp [h]

theorem decode_fst_of_decode_pair {c : Codec value} {c' : Codec value'} {bytes : Bytes}
    {v : value × value'} {rest : Bytes} (h : (c.pair c').decode bytes = some (v, rest)) :
    exists behind, c.decode bytes = some (v.fst, behind) := by
  unfold pair at h
  simp only [] at h
  split at h
  · cases h
  · rename_i first behind hfirst
    split at h
    · cases h
    · cases h
      exact ⟨behind, hfirst⟩

theorem decode_of_decode_iso {c : Codec value} {ofValue : value -> value'}
    {toValue : value' -> value} {hiso : forall v, ofValue (toValue v) = v} {bytes : Bytes}
    {v : value'} {rest : Bytes} (h : (c.iso ofValue toValue hiso).decode bytes = some (v, rest)) :
    exists w, c.decode bytes = some (w, rest) ∧ ofValue w = v := by
  rcases Option.map_eq_some_iff.mp h with ⟨⟨w, behind⟩, hdecode, hread⟩
  cases hread
  exact ⟨w, hdecode, rfl⟩

/-- As many values as were announced. -/
def decodeMany (c : Codec value) : Nat -> Bytes -> Option (List value × Bytes)
  | 0, bytes => some ([], bytes)
  | count + 1, bytes =>
      match c.decode bytes with
      | none => none
      | some (v, rest) => (c.decodeMany count rest).map (fun read => (v :: read.fst, read.snd))

theorem decodeMany_encode (c : Codec value) (vs : List value) (rest : Bytes) :
    c.decodeMany vs.length (vs.flatMap c.encode ++ rest) = some (vs, rest) := by
  induction vs with
  | nil => rfl
  | cons v vs ih =>
      rw [flatMap_cons, append_assoc, length_cons]
      unfold decodeMany
      rw [decode_encode]
      simp only []
      rw [ih]
      rfl

/-- A list behind its length. -/
def list (length : Codec Nat) (c : Codec value) : Codec (List value) where
  encode := fun vs => length.encode vs.length ++ vs.flatMap c.encode
  decode := fun bytes =>
    match length.decode bytes with
    | none => none
    | some (count, rest) => c.decodeMany count rest
  decode_encode := by
    intro vs rest
    rw [append_assoc, decode_encode]
    exact c.decodeMany_encode vs rest

/-- A byte that says whether a value follows it. -/
def option (c : Codec value) : Codec (Option value) where
  encode := fun v? =>
    match v? with
    | none => [0]
    | some v => 1 :: c.encode v
  decode := fun bytes =>
    match bytes with
    | 0 :: rest => some (none, rest)
    | 1 :: rest => (c.decode rest).map (fun read => (some read.fst, read.snd))
    | _ => none
  decode_encode := by
    intro v? rest
    cases v? with
    | none => rfl
    | some v => simp

/-!
## Numbers, arrays and texts
-/

/-- Seven bits a byte, low ones first; the top bit says that more follow. -/
def varintBytes : Nat -> Nat -> Bytes
  | 0, n => [UInt8.ofNat n]
  | fuel + 1, n =>
      if n < 128 then [UInt8.ofNat n]
      else UInt8.ofNat (n % 128 + 128) :: varintBytes fuel (n / 128)

def readVarint : Bytes -> Option (Nat × Bytes)
  | [] => none
  | b :: rest =>
      if b.toNat < 128 then some (b.toNat, rest)
      else (readVarint rest).map (fun read => (b.toNat - 128 + 128 * read.fst, read.snd))

theorem readVarint_small {n : Nat} (h : n < 128) (rest : Bytes) :
    readVarint ([UInt8.ofNat n] ++ rest) = some (n, rest) := by
  have hbyte : (UInt8.ofNat n).toNat = n := by
    rw [UInt8.toNat_ofNat']
    omega
  unfold readVarint
  simp [hbyte, h]

theorem readVarint_varintBytes (fuel n : Nat) (h : n <= fuel) (rest : Bytes) :
    readVarint (varintBytes fuel n ++ rest) = some (n, rest) := by
  induction fuel generalizing n with
  | zero => exact readVarint_small (by omega) rest
  | succ fuel ih =>
      unfold varintBytes
      split
      · rename_i hsmall
        exact readVarint_small hsmall rest
      · have hbyte : (UInt8.ofNat (n % 128 + 128)).toNat = n % 128 + 128 := by
          rw [UInt8.toNat_ofNat']
          omega
        have hmore : ¬ n % 128 + 128 < 128 := by omega
        rw [cons_append]
        unfold readVarint
        rw [hbyte, if_neg hmore, ih (n / 128) (by omega)]
        simp only [Option.map_some, Option.some.injEq, Prod.mk.injEq, and_true]
        omega

def varint : Codec Nat where
  encode := fun n => varintBytes n n
  decode := readVarint
  decode_encode := fun n rest => readVarint_varintBytes n n (Nat.le_refl n) rest

def littleEndian : Nat -> Nat -> Bytes
  | 0, _ => []
  | count + 1, n => UInt8.ofNat n :: littleEndian count (n / 256)

def readLittleEndian : Nat -> Bytes -> Option (Nat × Bytes)
  | 0, bytes => some (0, bytes)
  | _ + 1, [] => none
  | count + 1, b :: rest =>
      (readLittleEndian count rest).map (fun read => (b.toNat + 256 * read.fst, read.snd))

theorem readLittleEndian_littleEndian (count n : Nat) (rest : Bytes) :
    readLittleEndian count (littleEndian count n ++ rest) = some (n % 256 ^ count, rest) := by
  induction count generalizing n with
  | zero =>
      rw [Nat.pow_zero, Nat.mod_one]
      rfl
  | succ count ih =>
      unfold littleEndian
      rw [cons_append]
      unfold readLittleEndian
      have hsplit : n % 256 ^ (count + 1) = n % 256 + 256 * (n / 256 % 256 ^ count) := by
        rw [Nat.pow_succ, Nat.mul_comm, Nat.mod_mul]
      have hbyte : (UInt8.ofNat n).toNat = n % 256 := UInt8.toNat_ofNat'
      rw [ih, hsplit, hbyte]
      rfl

/-- An array of bytes, its first byte the lowest of the number. -/
def array (count : Nat) : Codec (BitVec (8 * count)) where
  encode := fun v => littleEndian count v.toNat
  decode := fun bytes =>
    (readLittleEndian count bytes).map (fun read => (BitVec.ofNat (8 * count) read.fst, read.snd))
  decode_encode := by
    intro v rest
    have hlt : v.toNat < 256 ^ count := by
      have hpow : 256 ^ count = 2 ^ (8 * count) := by rw [Nat.pow_mul]
      rw [hpow]
      exact v.isLt
    rw [readLittleEndian_littleEndian, Nat.mod_eq_of_lt hlt]
    simp

def highFirst (count n : Nat) : Bytes :=
  (littleEndian count n).reverse

def ofHighFirst (bytes : Bytes) : Nat :=
  bytes.foldl (fun n b => n * 256 + b.toNat) 0

@[simp] theorem length_littleEndian (count n : Nat) : (littleEndian count n).length = count := by
  induction count generalizing n with
  | zero => rfl
  | succ count ih =>
      unfold littleEndian
      rw [length_cons, ih]

@[simp] theorem length_highFirst (count n : Nat) : (highFirst count n).length = count := by
  unfold highFirst
  rw [length_reverse, length_littleEndian]

theorem highFirst_succ (count n : Nat) :
    highFirst (count + 1) n = highFirst count (n / 256) ++ [UInt8.ofNat n] :=
  reverse_cons

theorem ofHighFirst_append (front : Bytes) (b : UInt8) :
    ofHighFirst (front ++ [b]) = ofHighFirst front * 256 + b.toNat := by
  unfold ofHighFirst
  rw [foldl_append]
  rfl

theorem ofHighFirst_highFirst (count n : Nat) :
    ofHighFirst (highFirst count n) = n % 256 ^ count := by
  induction count generalizing n with
  | zero =>
      rw [Nat.pow_zero, Nat.mod_one]
      rfl
  | succ count ih =>
      have hsplit : n % 256 ^ (count + 1) = n % 256 + 256 * (n / 256 % 256 ^ count) := by
        rw [Nat.pow_succ, Nat.mul_comm, Nat.mod_mul]
      have hbyte : (UInt8.ofNat n).toNat = n % 256 := UInt8.toNat_ofNat'
      rw [highFirst_succ, ofHighFirst_append, ih, hbyte, hsplit]
      omega

theorem highFirst_ofHighFirst (bytes : Bytes) :
    highFirst bytes.length (ofHighFirst bytes) = bytes := by
  induction bytes using List.reverseRecOn with
  | nil => rfl
  | append_singleton front b ih =>
      have hb := b.toNat_lt
      have hdiv : (ofHighFirst front * 256 + b.toNat) / 256 = ofHighFirst front := by omega
      have hbyte : UInt8.ofNat (ofHighFirst front * 256 + b.toNat) = b := by
        apply UInt8.toNat_inj.mp
        rw [UInt8.toNat_ofNat']
        omega
      rw [length_append, length_singleton, highFirst_succ, ofHighFirst_append, hdiv, ih, hbyte]

theorem ofHighFirst_lt (bytes : Bytes) : ofHighFirst bytes < 256 ^ bytes.length := by
  induction bytes using List.reverseRecOn with
  | nil => exact Nat.one_pos
  | append_singleton front b ih =>
      have hb := b.toNat_lt
      rw [ofHighFirst_append, length_append, length_singleton, Nat.pow_succ]
      omega

def takeBytes (count : Nat) (bytes : Bytes) : Option (Bytes × Bytes) :=
  if count <= bytes.length then some (bytes.take count, bytes.drop count) else none

theorem takeBytes_append (front rest : Bytes) :
    takeBytes front.length (front ++ rest) = some (front, rest) := by
  unfold takeBytes
  simp

def textOf? (bytes : Bytes) : Option String :=
  if h : (ByteArray.mk bytes.toArray).IsValidUTF8 then some ⟨ByteArray.mk bytes.toArray, h⟩
  else none

def bytesOf (text : String) : Bytes :=
  text.toByteArray.data.toList

theorem textOf?_bytesOf (text : String) : textOf? (bytesOf text) = some text := by
  unfold textOf? bytesOf
  simp only [Array.toArray_toList]
  rw [dif_pos text.isValidUTF8]

theorem bytesOf_of_textOf? {bytes : Bytes} {text : String} (h : textOf? bytes = some text) :
    bytesOf text = bytes := by
  unfold textOf? at h
  split at h
  · cases h
    rfl
  · cases h

/-- A text behind the number of its bytes. -/
def text (length : Codec Nat) : Codec String where
  encode := fun s => length.encode (bytesOf s).length ++ bytesOf s
  decode := fun bytes =>
    match length.decode bytes with
    | none => none
    | some (count, rest) =>
        match takeBytes count rest with
        | none => none
        | some (front, rest) => (textOf? front).map (fun s => (s, rest))
  decode_encode := by
    intro s rest
    rw [append_assoc, decode_encode]
    simp only [takeBytes_append, textOf?_bytesOf]
    rfl

end Codec

/-!
# Records with fields at fixed places

A record is its fields one behind another, so that the widths of those before a field say
where it begins, whatever stands in them and behind the record.
-/

/-- The bytes of a field, as far as they are there. -/
def fieldAt (bytes : Bytes) (offset width : Nat) : Bytes :=
  (bytes.drop offset).take width

theorem fieldAt_skip (front rest : Bytes) (offset width : Nat) :
    fieldAt (front ++ rest) (front.length + offset) width = fieldAt rest offset width := by
  unfold fieldAt
  rw [← drop_drop, drop_left]

theorem fieldAt_append {bytes : Bytes} {offset width : Nat} (rest : Bytes)
    (h : offset + width <= bytes.length) :
    fieldAt (bytes ++ rest) offset width = fieldAt bytes offset width := by
  unfold fieldAt
  rw [drop_append_of_le_length (by omega),
    take_append_of_le_length (by rw [length_drop]; omega)]

theorem fieldAt_layout {fields : List Bytes} {widths : List Nat} {index width : Nat}
    {field : Bytes} (hwidths : fields.map List.length = widths)
    (hfield : fields[index]? = some field) (hwidth : widths[index]? = some width) (rest : Bytes) :
    fieldAt (fields.flatten ++ rest) (widths.take index).sum width = field := by
  subst hwidths
  have hlength : field.length = width := by
    rw [getElem?_map, hfield] at hwidth
    exact Option.some.inj hwidth
  induction fields generalizing index with
  | nil => cases hfield
  | cons first fields ih =>
      cases index with
      | zero =>
          cases hfield
          unfold fieldAt
          rw [take_zero, sum_nil, drop_zero, flatten_cons, append_assoc, ← hlength, take_left]
      | succ index =>
          rw [map_cons, take_succ_cons, sum_cons, flatten_cons, append_assoc, fieldAt_skip]
          exact ih hfield hwidth

theorem length_layout {fields : List Bytes} {widths : List Nat}
    (hwidths : fields.map List.length = widths) : fields.flatten.length = widths.sum := by
  rw [length_flatten, hwidths]

namespace Codec

/-- The number whose bytes these are, low ones first. -/
def ofLittleEndian (bytes : Bytes) : Nat :=
  ofHighFirst bytes.reverse

theorem ofLittleEndian_littleEndian {count n : Nat} (h : n < 256 ^ count) :
    ofLittleEndian (littleEndian count n) = n := by
  show ofHighFirst (highFirst count n) = n
  rw [ofHighFirst_highFirst, Nat.mod_eq_of_lt h]

end Codec

end Rabbithole.Foundation
