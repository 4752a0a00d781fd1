import Rabbithole.Foundation.Dict
import Rabbithole.Foundation.Codec

/-!
# Transactions

A transaction is a header of twenty bytes and a list of fields.  One that comes in several
frames is put together first, and a frame that is all of it takes the same way through the
reassembler.
-/

namespace Rabbithole.Hotline

open Foundation Codec List

inductive HotlineError where
  | truncated (need have_ : Nat)
  | tooLarge (size max : Nat)
  | trailingBytes (count : Nat)
  | fragmentMismatch (id first next : UInt32)
  | fragmentOverflow (id : UInt32) (have_ : Nat) (total : UInt32)
deriving DecidableEq

/-!
## Fields
-/

structure Field where
  id : UInt16
  data : Bytes
deriving DecidableEq

namespace Field

def encode (f : Field) : Bytes :=
  let length := min f.data.length 0xFFFF
  highFirst 2 f.id.toNat ++ highFirst 2 length ++ f.data.take length

/-- The field at the front, and how many bytes it takes. -/
def decode (bytes : Bytes) : Except HotlineError (Field × Nat) :=
  if bytes.length < 4 then .error (.truncated (4 - bytes.length) bytes.length)
  else
    let size := ofHighFirst (fieldAt bytes 2 2)
    let last := 4 + size
    if bytes.length < last then .error (.truncated (last - bytes.length) bytes.length)
    else .ok (⟨UInt16.ofNat (ofHighFirst (fieldAt bytes 0 2)), fieldAt bytes 4 size⟩, last)

end Field

def encodeParams (fields : List Field) : Bytes :=
  let count := min fields.length 0xFFFF
  highFirst 2 count ++ (fields.take count).flatMap Field.encode

/-- The fields from a place on, and the place behind them. -/
def decodeFields (bytes : Bytes) : Nat -> Nat -> Except HotlineError (List Field × Nat)
  | 0, pos => .ok ([], pos)
  | count + 1, pos =>
      match Field.decode (bytes.drop pos) with
      | .error err => .error err
      | .ok (field, used) =>
          match decodeFields bytes count (pos + used) with
          | .error err => .error err
          | .ok (fields, pos) => .ok (field :: fields, pos)

def decodeParams (bytes : Bytes) : Except HotlineError (List Field) :=
  if bytes.length < 2 then .error (.truncated (2 - bytes.length) bytes.length)
  else
    match decodeFields bytes (ofHighFirst (fieldAt bytes 0 2)) 2 with
    | .error err => .error err
    | .ok (fields, pos) =>
        if pos ≠ bytes.length then .error (.trailingBytes (bytes.length - pos)) else .ok fields

def decodeBody (body : Bytes) : Except HotlineError (List Field) :=
  if body.isEmpty then .ok [] else decodeParams body

/-!
## A frame
-/

structure TransactionHeader where
  flags : UInt8
  isReply : UInt8
  type_ : UInt16
  id : UInt32
  error : UInt32
  totalSize : UInt32
  dataSize : UInt32
deriving DecidableEq

namespace TransactionHeader

def len : Nat := 20

/-- Only a part of the body is in the frame. -/
def isFragmented (h : TransactionHeader) : Bool :=
  h.dataSize < h.totalSize

def encode (h : TransactionHeader) : Bytes :=
  [h.flags, h.isReply] ++ highFirst 2 h.type_.toNat ++ highFirst 4 h.id.toNat ++
    highFirst 4 h.error.toNat ++ highFirst 4 h.totalSize.toNat ++ highFirst 4 h.dataSize.toNat

def decode (bytes : Bytes) : Except HotlineError TransactionHeader :=
  if bytes.length < len then .error (.truncated (len - bytes.length) bytes.length)
  else
    let u32At (offset : Nat) := UInt32.ofNat (ofHighFirst (fieldAt bytes offset 4))
    .ok {
      flags := bytes.getD 0 0
      isReply := bytes.getD 1 0
      type_ := UInt16.ofNat (ofHighFirst (fieldAt bytes 2 2))
      id := u32At 4
      error := u32At 8
      totalSize := u32At 12
      dataSize := u32At 16 }

end TransactionHeader

structure Transaction where
  header : TransactionHeader
  fields : List Field
deriving DecidableEq

def Transaction.decode (bytes : Bytes) : Except HotlineError Transaction :=
  match TransactionHeader.decode bytes with
  | .error err => .error err
  | .ok header =>
      let dataSize := header.dataSize.toNat
      let last := TransactionHeader.len + dataSize
      if bytes.length < last then .error (.truncated (last - bytes.length) bytes.length)
      else if header.isFragmented then
        .error (.truncated (header.totalSize - header.dataSize).toNat dataSize)
      else
        match decodeBody (fieldAt bytes TransactionHeader.len dataSize) with
        | .error err => .error err
        | .ok fields => .ok ⟨header, fields⟩

/-!
## Reassembly
-/

def maxTransactionBody : Nat := 16 * 1024 * 1024

structure Partial where
  header : TransactionHeader
  totalSize : UInt32
  body : Bytes

structure Reassembler where
  inFlight : Dict UInt32 Partial

namespace Reassembler

def new : Reassembler :=
  ⟨Dict.empty⟩

def drop (s : Reassembler) (id : UInt32) : Reassembler :=
  ⟨s.inFlight.erase id⟩

/-- The transaction of a body that is complete. -/
def completed (header : TransactionHeader) (body : Bytes) :
    Except HotlineError (Option Transaction) :=
  match decodeBody body with
  | .error err => .error err
  | .ok fields => .ok (some ⟨header, fields⟩)

def push (s : Reassembler) (header : TransactionHeader) (chunk : Bytes) :
    Except HotlineError (Option Transaction) × Reassembler :=
  let id := header.id
  let total := header.totalSize.toNat
  if maxTransactionBody < total then
    (.error (.tooLarge total maxTransactionBody), s.drop id)
  else if !s.inFlight.contains id && decide (total <= chunk.length) then
    (completed header (chunk.take total), s)
  else
    let entry := (s.inFlight.get? id).getD ⟨header, header.totalSize, []⟩
    if entry.totalSize ≠ header.totalSize then
      (.error (.fragmentMismatch id entry.totalSize header.totalSize), s.drop id)
    else
      let body := entry.body ++ chunk
      if entry.totalSize.toNat < body.length then
        (.error (.fragmentOverflow id body.length entry.totalSize), s.drop id)
      else if body.length = entry.totalSize.toNat then (completed entry.header body, s.drop id)
      else (.ok none, ⟨s.inFlight.insert id { entry with body := body }⟩)

end Reassembler

/-!
## What is written is read back
-/

theorem u16_highFirst (n : UInt16) : UInt16.ofNat (ofHighFirst (highFirst 2 n.toNat)) = n := by
  have hlt : n.toNat < 256 ^ 2 := n.toNat_lt
  rw [ofHighFirst_highFirst, Nat.mod_eq_of_lt hlt, UInt16.ofNat_toNat]

theorem u32_highFirst (n : UInt32) : UInt32.ofNat (ofHighFirst (highFirst 4 n.toNat)) = n := by
  have hlt : n.toNat < 256 ^ 4 := n.toNat_lt
  rw [ofHighFirst_highFirst, Nat.mod_eq_of_lt hlt, UInt32.ofNat_toNat]

/-- A field whose length fits the two bytes for it. -/
def Field.Fits (f : Field) : Prop :=
  f.data.length <= 0xFFFF

theorem Field.encode_eq {f : Field} (h : f.Fits) :
    f.encode = [highFirst 2 f.id.toNat, highFirst 2 f.data.length, f.data].flatten := by
  unfold Field.encode
  simp only [Nat.min_eq_left h, take_length, flatten_cons, flatten_nil, append_nil, append_assoc]

theorem Field.length_encode {f : Field} (h : f.Fits) : f.encode.length = 4 + f.data.length := by
  rw [Field.encode_eq h]
  simp only [length_flatten, map_cons, length_highFirst, map_nil, sum_cons, sum_nil]
  omega

theorem Field.decode_encode {f : Field} (h : f.Fits) (rest : Bytes) :
    Field.decode (f.encode ++ rest) = .ok (f, f.encode.length) := by
  have hlength := Field.length_encode h
  have hwidths : [highFirst 2 f.id.toNat, highFirst 2 f.data.length, f.data].map List.length =
      [2, 2, f.data.length] := by
    simp only [map_cons, length_highFirst, map_nil]
  have hid := @fieldAt_layout _ _ 0 _ _ hwidths rfl rfl rest
  have hsize := @fieldAt_layout _ _ 1 _ _ hwidths rfl rfl rest
  have hdata := @fieldAt_layout _ _ 2 _ _ hwidths rfl rfl rest
  rw [<- Field.encode_eq h] at hid hsize hdata
  have hcount : ofHighFirst (fieldAt (f.encode ++ rest) 2 2) = f.data.length := by
    rw [show fieldAt (f.encode ++ rest) 2 2 = _ from hsize, ofHighFirst_highFirst]
    exact Nat.mod_eq_of_lt (Nat.lt_succ_of_le h)
  have hname : UInt16.ofNat (ofHighFirst (fieldAt (f.encode ++ rest) 0 2)) = f.id := by
    rw [show fieldAt (f.encode ++ rest) 0 2 = _ from hid, u16_highFirst]
  unfold Field.decode
  rw [if_neg (by rw [length_append]; omega)]
  simp only [hcount]
  rw [if_neg (by rw [length_append]; omega), hname,
    show fieldAt (f.encode ++ rest) 4 f.data.length = _ from hdata, hlength]

theorem decodeFields_encode {fields : List Field} (h : forall f, f ∈ fields -> f.Fits)
    (front : Bytes) :
    decodeFields (front ++ fields.flatMap Field.encode) fields.length front.length =
      .ok (fields, front.length + (fields.flatMap Field.encode).length) := by
  induction fields generalizing front with
  | nil => rfl
  | cons f fields ih =>
      have hfirst := h f mem_cons_self
      have hrest := ih (fun g hg => h g (mem_cons_of_mem f hg)) (front ++ f.encode)
      rw [length_append, append_assoc] at hrest
      rw [length_cons, flatMap_cons]
      unfold decodeFields
      rw [drop_left, Field.decode_encode hfirst]
      simp only []
      rw [hrest]
      simp only [length_append, Nat.add_assoc]

theorem encodeParams_eq {fields : List Field} (hcount : fields.length <= 0xFFFF) :
    encodeParams fields = highFirst 2 fields.length ++ fields.flatMap Field.encode := by
  unfold encodeParams
  simp only [Nat.min_eq_left hcount, take_length]

theorem decodeParams_encode {fields : List Field} (hcount : fields.length <= 0xFFFF)
    (h : forall f, f ∈ fields -> f.Fits) : decodeParams (encodeParams fields) = .ok fields := by
  have heq := encodeParams_eq hcount
  have hfront : fieldAt (encodeParams fields) 0 2 = highFirst 2 fields.length := by
    unfold fieldAt
    rw [heq, drop_zero, take_left' (length_highFirst _ _)]
  have hfields := decodeFields_encode h (highFirst 2 fields.length)
  rw [length_highFirst, <- heq] at hfields
  have hlength : (encodeParams fields).length = 2 + (fields.flatMap Field.encode).length := by
    rw [heq, length_append, length_highFirst]
  unfold decodeParams
  have hmod : fields.length % 256 ^ 2 = fields.length :=
    Nat.mod_eq_of_lt (Nat.lt_succ_of_le hcount)
  rw [if_neg (by omega), hfront, ofHighFirst_highFirst, hmod, hfields]
  simp only [hlength, ne_eq, not_true, if_false]

namespace TransactionHeader

def layout (h : TransactionHeader) : List Bytes :=
  [[h.flags], [h.isReply], highFirst 2 h.type_.toNat, highFirst 4 h.id.toNat,
    highFirst 4 h.error.toNat, highFirst 4 h.totalSize.toNat, highFirst 4 h.dataSize.toNat]

section

variable (h : TransactionHeader)
include h

theorem encode_eq : h.encode = h.layout.flatten := by
  unfold encode layout
  simp only [flatten_cons, flatten_nil, append_nil, append_assoc, cons_append, nil_append]

theorem widths_layout : h.layout.map List.length = [1, 1, 2, 4, 4, 4, 4] := by
  unfold layout
  simp only [map_cons, length_highFirst, map_nil, length_singleton]

theorem length_encode : h.encode.length = len := by
  rw [encode_eq, length_layout h.widths_layout]
  rfl

theorem decode_encode (rest : Bytes) : decode (h.encode ++ rest) = .ok h := by
  have htype := @fieldAt_layout _ _ 2 _ _ h.widths_layout rfl rfl rest
  have hid := @fieldAt_layout _ _ 3 _ _ h.widths_layout rfl rfl rest
  have herror := @fieldAt_layout _ _ 4 _ _ h.widths_layout rfl rfl rest
  have htotal := @fieldAt_layout _ _ 5 _ _ h.widths_layout rfl rfl rest
  have hdata := @fieldAt_layout _ _ 6 _ _ h.widths_layout rfl rfl rest
  rw [<- encode_eq] at htype hid herror htotal hdata
  unfold decode
  rw [if_neg (by rw [length_append, length_encode]; omega)]
  simp only [show fieldAt (h.encode ++ rest) 2 2 = _ from htype,
    show fieldAt (h.encode ++ rest) 4 4 = _ from hid,
    show fieldAt (h.encode ++ rest) 8 4 = _ from herror,
    show fieldAt (h.encode ++ rest) 12 4 = _ from htotal,
    show fieldAt (h.encode ++ rest) 16 4 = _ from hdata, u16_highFirst, u32_highFirst]
  rfl

end

end TransactionHeader

/-!
## Two ways to read a frame
-/

/-- What is decoded is what a fresh reassembler completes. -/
def Agree (bytes : Bytes) (header : TransactionHeader) : Prop :=
  forall t : Transaction, Transaction.decode bytes = .ok t <->
    (Reassembler.new.push header (bytes.drop TransactionHeader.len)).fst = .ok (some t)

/-- A header, and as many bytes behind it as it says. -/
structure Frame (bytes : Bytes) (header : TransactionHeader) : Prop where
  header_eq : TransactionHeader.decode bytes = .ok header
  length_eq : bytes.length = TransactionHeader.len + header.dataSize.toNat

variable {bytes : Bytes} {header : TransactionHeader}

theorem Frame.decode_eq (h : Frame bytes header) (hwhole : header.isFragmented = false) :
    Transaction.decode bytes =
      (decodeBody (bytes.drop TransactionHeader.len)).map (fun fields => ⟨header, fields⟩) := by
  have hchunk : fieldAt bytes TransactionHeader.len header.dataSize.toNat =
      bytes.drop TransactionHeader.len := by
    apply take_of_length_le
    rw [length_drop, h.length_eq]
    omega
  unfold Transaction.decode
  rw [h.header_eq]
  simp only []
  rw [if_neg (Nat.not_lt.mpr (Nat.le_of_eq h.length_eq.symm)), hwhole, hchunk]
  cases decodeBody (bytes.drop TransactionHeader.len) with
  | error err => rfl
  | ok fields => rfl

theorem Frame.decode_fragmented (h : Frame bytes header) (hpart : header.isFragmented = true) :
    exists err, Transaction.decode bytes = .error err := by
  unfold Transaction.decode
  rw [h.header_eq]
  simp only []
  rw [if_neg (Nat.not_lt.mpr (Nat.le_of_eq h.length_eq.symm)), hpart]
  exact ⟨_, rfl⟩

namespace Reassembler

theorem push_tooLarge {s : Reassembler} {chunk : Bytes}
    (h : maxTransactionBody < header.totalSize.toNat) :
    (s.push header chunk).fst = .error (.tooLarge header.totalSize.toNat maxTransactionBody) := by
  unfold push
  simp only [if_pos h]

theorem push_new {chunk : Bytes} (h : ¬ maxTransactionBody < header.totalSize.toNat) :
    (new.push header chunk).fst =
      if header.totalSize.toNat <= chunk.length then
        completed header (chunk.take header.totalSize.toNat) else .ok none := by
  have hfresh : new.inFlight.contains header.id = false := rfl
  have hnone : new.inFlight.get? header.id = none := rfl
  unfold push
  simp only [if_neg h, hfresh, hnone, Bool.not_false, Bool.true_and, decide_eq_true_eq]
  split
  · rfl
  · rename_i hshort
    rw [Option.getD_none]
    simp only [ne_eq, not_true, if_false, nil_append]
    rw [if_neg (by omega), if_neg (by omega)]

end Reassembler

theorem completed_eq {body : Bytes} {t : Transaction} :
    Reassembler.completed header body = .ok (some t) <->
      (decodeBody body).map (fun fields => (⟨header, fields⟩ : Transaction)) = .ok t := by
  unfold Reassembler.completed
  cases decodeBody body with
  | error err => exact Iff.intro nofun nofun
  | ok fields =>
      constructor
      all_goals
        intro heq
        cases heq
        rfl

/-- Up to the limit of the reassembler the two agree on every frame that does not carry more
than its body; beyond the limit the reassembler refuses it. -/
theorem frames_agree (h : Frame bytes header) (hsize : header.dataSize <= header.totalSize) :
    (header.totalSize.toNat <= maxTransactionBody -> Agree bytes header) ∧
      (maxTransactionBody < header.totalSize.toNat ->
        (Reassembler.new.push header (bytes.drop TransactionHeader.len)).fst =
          .error (.tooLarge header.totalSize.toNat maxTransactionBody)) := by
  refine ⟨?_, Reassembler.push_tooLarge⟩
  intro hlimit t
  have hlength : (bytes.drop TransactionHeader.len).length = header.dataSize.toNat := by
    rw [length_drop, h.length_eq]
    exact Nat.add_sub_cancel_left _ _
  rw [Reassembler.push_new (Nat.not_lt.mpr hlimit), hlength]
  rcases Nat.lt_or_ge header.dataSize.toNat header.totalSize.toNat with hless | hwhole
  · have hpart : header.isFragmented = true := decide_eq_true hless
    rcases h.decode_fragmented hpart with ⟨err, herr⟩
    rw [herr, if_neg (Nat.not_le.mpr hless)]
    exact Iff.intro nofun nofun
  · have hnot : header.isFragmented = false := decide_eq_false (Nat.not_lt.mpr hwhole)
    have hequal : header.totalSize.toNat = header.dataSize.toNat := Nat.le_antisymm hwhole hsize
    have hall : (bytes.drop TransactionHeader.len).take header.totalSize.toNat =
        bytes.drop TransactionHeader.len := by
      apply take_of_length_le
      rw [hlength, hequal]
    rw [h.decode_eq hnot, if_pos hwhole, hall, completed_eq]

/-- A request without fields. -/
def bare : TransactionHeader where
  flags := 0
  isReply := 0
  type_ := 500
  id := 1
  error := 0
  totalSize := 2
  dataSize := 2

theorem frames_agree_bare : Agree (bare.encode ++ [0, 0]) bare :=
  (frames_agree ⟨TransactionHeader.decode_encode bare [0, 0], rfl⟩ (by decide)).left (by decide)

/-- As many fields of the greatest length as are beyond the limit. -/
def manyFields : List Field :=
  List.replicate 257 ⟨0, List.replicate 0xFFFF 0⟩

theorem fits_manyFields {f : Field} (h : f ∈ manyFields) : f.Fits := by
  rw [eq_of_mem_replicate h]
  exact Nat.le_of_eq length_replicate

theorem count_manyFields : manyFields.length = 257 :=
  length_replicate

theorem length_encodeParams_replicate {count : Nat} (hcount : count <= 0xFFFF) {f : Field}
    (h : f.Fits) :
    (encodeParams (List.replicate count f)).length = 2 + count * (4 + f.data.length) := by
  rw [encodeParams_eq (Nat.le_trans (Nat.le_of_eq length_replicate) hcount),
    length_append, length_highFirst, length_flatMap, map_replicate,
    Field.length_encode h, sum_replicate, nsmul_eq_mul]
  rfl

theorem length_manyFields : (encodeParams manyFields).length = 16843525 := by
  have hfits : Field.Fits ⟨0, List.replicate 0xFFFF 0⟩ := Nat.le_of_eq length_replicate
  unfold manyFields
  rw [length_encodeParams_replicate (by decide) hfits, length_replicate]

def large : TransactionHeader :=
  { bare with totalSize := 16843525, dataSize := 16843525 }

/-- A body beyond the limit is decoded and not completed; and of a frame that carries more
than its body one of the two reads what the other does not. -/
theorem not_frames_agree :
    ¬ (forall (bytes : Bytes) (header : TransactionHeader), Frame bytes header ->
        header.dataSize = header.totalSize -> Agree bytes header) ∧
      ¬ (forall (bytes : Bytes) (header : TransactionHeader), Frame bytes header ->
        header.totalSize.toNat <= maxTransactionBody -> Agree bytes header) := by
  constructor
  · intro hall
    have hframe : Frame (large.encode ++ encodeParams manyFields) large := by
      refine ⟨TransactionHeader.decode_encode large _, ?_⟩
      rw [length_append, TransactionHeader.length_encode, length_manyFields]
      rfl
    have hbody : (large.encode ++ encodeParams manyFields).drop TransactionHeader.len =
        encodeParams manyFields := drop_left' (TransactionHeader.length_encode large)
    have hread : decodeBody (encodeParams manyFields) = .ok manyFields := by
      have hsome : (encodeParams manyFields).isEmpty = false := by
        rw [isEmpty_eq_false_iff_exists_mem]
        apply exists_mem_of_length_pos
        rw [length_manyFields]
        exact Nat.succ_pos _
      have hcount : manyFields.length <= 0xFFFF := by
        rw [count_manyFields]
        decide
      unfold decodeBody
      rw [if_neg (Bool.eq_false_iff.mp hsome), decodeParams_encode hcount fun _ => fits_manyFields]
    have hdecode := hframe.decode_eq rfl
    rw [hbody, hread] at hdecode
    have hpush := (hall _ large hframe rfl _).mp hdecode
    have hlimit : maxTransactionBody < large.totalSize.toNat := by decide
    rw [Reassembler.push_tooLarge hlimit] at hpush
    cases hpush
  · intro hall
    have hframe : Frame ({ bare with dataSize := 3 }.encode ++ [0, 0, 0])
        { bare with dataSize := 3 } := ⟨TransactionHeader.decode_encode _ [0, 0, 0], rfl⟩
    have hdecode := (hall _ _ hframe (by decide) ⟨{ bare with dataSize := 3 }, []⟩).mpr rfl
    cases hdecode

end Rabbithole.Hotline
