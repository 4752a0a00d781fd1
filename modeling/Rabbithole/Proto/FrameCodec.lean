import Rabbithole.Foundation.Codec
import Rabbithole.Foundation.Feed

/-!
# Frames

The one message shape of every control stream: a small header and an opaque payload, as
the serializer writes them.
-/

namespace Rabbithole.Proto

open Foundation List Codec

inductive FrameKind where
  | request
  | reply
  | push
deriving DecidableEq

inductive ErrorCode where
  | badRequest
  | unauthenticated
  | forbidden
  | notFound
  | alreadyExists
  | rateLimited
  | internal
  | versionMismatch
  | unsupported
  | tooLarge
  | sessionExpired
  | unavailable
  | totpRequired
  | kicked
  | muted
  | slowMode (retryAfterSecs : UInt32)
  | other (code : UInt16)
deriving DecidableEq

structure Frame where
  version : UInt16
  kind : FrameKind
  family : UInt8
  messageType : UInt16
  id : UInt64
  error : Option ErrorCode
  payload : Bytes
deriving DecidableEq

/-!
## The documented format
-/

namespace Wire

def u8 : Codec UInt8 where
  encode := fun b => [b]
  decode := fun bytes =>
    match bytes with
    | [] => none
    | b :: rest => some (b, rest)
  decode_encode := fun _ _ => rfl

def u16 : Codec UInt16 :=
  Codec.varint.iso UInt16.ofNat UInt16.toNat (fun _ => UInt16.ofNat_toNat)

def u32 : Codec UInt32 :=
  Codec.varint.iso UInt32.ofNat UInt32.toNat (fun _ => UInt32.ofNat_toNat)

def u64 : Codec UInt64 :=
  Codec.varint.iso UInt64.ofNat UInt64.toNat (fun _ => UInt64.ofNat_toNat)

def kinds : List FrameKind := [.request, .reply, .push]

/-- A variant is the number of its place. -/
def kind : Codec FrameKind where
  encode := fun k => Codec.varint.encode (kinds.idxOf k)
  decode := fun bytes =>
    (Codec.varint.decode bytes).bind (fun read =>
      (kinds[read.fst]?).map (fun k => (k, read.snd)))
  decode_encode := by
    intro k rest
    rw [decode_encode, Option.bind_some]
    cases k <;> rfl

/-- The variants without a field. -/
def codes : List ErrorCode :=
  [.badRequest, .unauthenticated, .forbidden, .notFound, .alreadyExists, .rateLimited, .internal,
    .versionMismatch, .unsupported, .tooLarge, .sessionExpired, .unavailable, .totpRequired,
    .kicked, .muted]

def errorCode : Codec ErrorCode where
  encode := fun code =>
    match code with
    | .slowMode retryAfterSecs => Codec.varint.encode 15 ++ u32.encode retryAfterSecs
    | .other number => Codec.varint.encode 16 ++ u16.encode number
    | plain => Codec.varint.encode (codes.idxOf plain)
  decode := fun bytes =>
    (Codec.varint.decode bytes).bind (fun read =>
      if read.fst = 15 then
        (u32.decode read.snd).map (fun field => (ErrorCode.slowMode field.fst, field.snd))
      else if read.fst = 16 then
        (u16.decode read.snd).map (fun field => (ErrorCode.other field.fst, field.snd))
      else (codes[read.fst]?).map (fun code => (code, read.snd)))
  decode_encode := by
    intro code rest
    cases code with
    | slowMode retryAfterSecs =>
        rw [append_assoc, decode_encode, Option.bind_some, if_pos rfl,
          decode_encode]
        rfl
    | other number =>
        rw [append_assoc, decode_encode, Option.bind_some,
          if_neg (show ¬ (16 : Nat) = 15 by decide), if_pos rfl, decode_encode]
        rfl
    | _ =>
        rw [decode_encode, Option.bind_some]
        rfl

/-- The fields one after the other, the payload behind its length. -/
def frame : Codec Frame :=
  (u16.pair (kind.pair (u8.pair (u16.pair (u64.pair (errorCode.option.pair
    (Codec.list Codec.varint u8))))))).iso
    (fun v => ⟨v.1, v.2.1, v.2.2.1, v.2.2.2.1, v.2.2.2.2.1, v.2.2.2.2.2.1, v.2.2.2.2.2.2⟩)
    (fun f => (f.version, f.kind, f.family, f.messageType, f.id, f.error, f.payload))
    (fun _ => rfl)

end Wire

/-!
# The frame codec

On a stream a frame stands behind its length, four bytes with the high one first.  The
codec holds what has come in so far, and gives out frames as they are complete.
-/

def maxFrameSize : Nat := 1024 * 1024

def lenPrefix : Nat := 4

inductive ProtoError where
  | frameTooLarge (size max : Nat)
  | postcard
deriving DecidableEq

def encodeFrame (p : Codec Frame) (frame : Frame) : Except ProtoError Bytes :=
  let bytes := p.encode frame
  if maxFrameSize < bytes.length then .error (.frameTooLarge bytes.length maxFrameSize)
  else .ok bytes

def decodeFrame (p : Codec Frame) (bytes : Bytes) : Except ProtoError Frame :=
  if maxFrameSize < bytes.length then .error (.frameTooLarge bytes.length maxFrameSize)
  else
    match p.fromBytes bytes with
    | none => .error .postcard
    | some frame => .ok frame

structure FrameCodec where
  buf : Bytes

namespace FrameCodec

def new : FrameCodec where
  buf := []

def feed (c : FrameCodec) (bytes : Bytes) : FrameCodec where
  buf := c.buf ++ bytes

/-- The next frame, if it is complete, and what the codec holds then. -/
def nextFrame (p : Codec Frame) (c : FrameCodec) : Except ProtoError (Option Frame) × FrameCodec :=
  if c.buf.length < lenPrefix then (.ok none, c)
  else
    let len := Codec.ofHighFirst (c.buf.take lenPrefix)
    if maxFrameSize < len then (.error (.frameTooLarge len maxFrameSize), c)
    else if c.buf.length < lenPrefix + len then (.ok none, c)
    else
      let advanced := c.buf.drop lenPrefix
      let rest : FrameCodec := { buf := advanced.drop len }
      match decodeFrame p (advanced.take len) with
      | .error e => (.error e, rest)
      | .ok frame => (.ok (some frame), rest)

def encode (p : Codec Frame) (frame : Frame) : Except ProtoError Bytes :=
  match encodeFrame p frame with
  | .error e => .error e
  | .ok body => .ok (Codec.highFirst lenPrefix body.length ++ body)

/-!
## As a framer
-/

variable (p : Codec Frame)

/-- What a call comes to, as a verdict on the bytes that the codec holds. -/
def front (buf : Bytes) : Front UInt8 Frame ProtoError :=
  match nextFrame p ⟨buf⟩ with
  | (.ok none, _) => .more
  | (.error e, _) => .bad e
  | (.ok (some frame), rest) => .item frame rest.buf

def announced (buf : Bytes) : Nat :=
  Codec.ofHighFirst (buf.take lenPrefix)

variable {p}

variable {buf : Bytes}

theorem front_short (h : buf.length < lenPrefix) : front p buf = .more := by
  unfold front nextFrame
  rw [if_pos h]

section

variable (hprefixed : lenPrefix <= buf.length)
include hprefixed

theorem front_tooLarge (h : maxFrameSize < announced buf) :
    front p buf = .bad (.frameTooLarge (announced buf) maxFrameSize) := by
  unfold announced at *
  unfold front nextFrame
  rw [if_neg (Nat.not_lt.mpr hprefixed)]
  simp only []
  rw [if_pos h]

theorem front_incomplete (hsize : announced buf <= maxFrameSize)
    (h : buf.length < lenPrefix + announced buf) : front p buf = .more := by
  unfold announced at *
  unfold front nextFrame
  rw [if_neg (Nat.not_lt.mpr hprefixed)]
  simp only []
  rw [if_neg (Nat.not_lt.mpr hsize), if_pos h]

theorem front_complete (hsize : announced buf <= maxFrameSize)
    (h : lenPrefix + announced buf <= buf.length) :
    front p buf =
      match p.fromBytes ((buf.drop lenPrefix).take (announced buf)) with
      | none => .bad .postcard
      | some frame => .item frame ((buf.drop lenPrefix).drop (announced buf)) := by
  have hbody : ¬ maxFrameSize < ((buf.drop lenPrefix).take (announced buf)).length := by
    rw [length_take]
    omega
  unfold announced at *
  unfold front nextFrame decodeFrame
  rw [if_neg (Nat.not_lt.mpr hprefixed)]
  simp only []
  rw [if_neg (Nat.not_lt.mpr hsize), if_neg (Nat.not_lt.mpr h), if_neg hbody]
  cases p.fromBytes ((buf.drop lenPrefix).take (Codec.ofHighFirst (buf.take lenPrefix))) with
  | none => rfl
  | some frame => rfl

end

theorem announced_append (h : lenPrefix <= buf.length) (behind : Bytes) :
    announced (buf ++ behind) = announced buf := by
  unfold announced
  rw [take_append_of_le_length h]

theorem front_cases (p : Codec Frame) (buf : Bytes) :
    front p buf = .more ∨
      (lenPrefix <= buf.length ∧ maxFrameSize < announced buf ∧
        front p buf = .bad (.frameTooLarge (announced buf) maxFrameSize)) ∨
      (lenPrefix <= buf.length ∧ announced buf <= maxFrameSize ∧
        lenPrefix + announced buf <= buf.length) := by
  by_cases hprefixed : lenPrefix <= buf.length
  · by_cases hsize : announced buf <= maxFrameSize
    · by_cases hbody : lenPrefix + announced buf <= buf.length
      · exact Or.inr (Or.inr ⟨hprefixed, hsize, hbody⟩)
      · exact Or.inl (front_incomplete hprefixed hsize (Nat.not_le.mp hbody))
    · have hlarge := Nat.not_le.mp hsize
      exact Or.inr (Or.inl ⟨hprefixed, hlarge, front_tooLarge hprefixed hlarge⟩)
  · exact Or.inl (front_short (Nat.not_le.mp hprefixed))

theorem front_append_complete (hprefixed : lenPrefix <= buf.length)
    (hsize : announced buf <= maxFrameSize) (h : lenPrefix + announced buf <= buf.length)
    (behind : Bytes) :
    front p (buf ++ behind) =
      match p.fromBytes ((buf.drop lenPrefix).take (announced buf)) with
      | none => .bad .postcard
      | some frame => .item frame ((buf.drop lenPrefix).drop (announced buf) ++ behind) := by
  have hsame := announced_append hprefixed behind
  have hdrop : (buf ++ behind).drop lenPrefix = buf.drop lenPrefix ++ behind :=
    drop_append_of_le_length hprefixed
  have hlength : announced buf <= (buf.drop lenPrefix).length := by
    rw [length_drop]
    omega
  rw [front_complete (by rw [length_append]; omega) (by rw [hsame]; exact hsize)
    (by rw [hsame, length_append]; omega), hsame, hdrop, take_append_of_le_length hlength,
    drop_append_of_le_length hlength]

/-- What the codec does with its buffer is a framer. -/
def framer (p : Codec Frame) : Framer UInt8 Frame ProtoError where
  front := front p
  shorter := by
    intro buf frame rest h
    rcases front_cases p buf with hmore | ⟨-, -, hbad⟩ | ⟨hprefixed, hsize, hbody⟩
    · rw [hmore] at h
      cases h
    · rw [hbad] at h
      cases h
    · rw [front_complete hprefixed hsize hbody] at h
      cases hread : p.fromBytes ((buf.drop lenPrefix).take (announced buf)) with
      | none =>
          rw [hread] at h
          cases h
      | some read =>
          rw [hread] at h
          cases h
          have hpos : 0 < lenPrefix := by decide
          rw [length_drop, length_drop]
          omega
  item_append := by
    intro buf frame rest behind h
    rcases front_cases p buf with hmore | ⟨-, -, hbad⟩ | ⟨hprefixed, hsize, hbody⟩
    · rw [hmore] at h
      cases h
    · rw [hbad] at h
      cases h
    · rw [front_append_complete hprefixed hsize hbody]
      rw [front_complete hprefixed hsize hbody] at h
      cases hread : p.fromBytes ((buf.drop lenPrefix).take (announced buf)) with
      | none =>
          rw [hread] at h
          cases h
      | some read =>
          rw [hread] at h
          cases h
          rfl
  bad_append := by
    intro buf e behind h
    rcases front_cases p buf with hmore | ⟨hprefixed, hlarge, hbad⟩ | ⟨hprefixed, hsize, hbody⟩
    · rw [hmore] at h
      cases h
    · have hsame := announced_append hprefixed behind
      rw [front_tooLarge (by rw [length_append]; omega) (by rw [hsame]; exact hlarge), hsame,
        <- hbad, h]
    · rw [front_append_complete hprefixed hsize hbody]
      rw [front_complete hprefixed hsize hbody] at h
      cases hread : p.fromBytes ((buf.drop lenPrefix).take (announced buf)) with
      | none =>
          rw [hread] at h
          exact h
      | some read =>
          rw [hread] at h
          cases h
  front_nil := front_short (by decide)

/-!
## Streams
-/

/-- All frames that the codec has, and its first error if it comes to one. -/
def drained (p : Codec Frame) (c : FrameCodec) : List Frame × Except ProtoError FrameCodec :=
  match (framer p).drain c.buf with
  | (frames, .waiting buf) => (frames, .ok ⟨buf⟩)
  | (frames, .failed e) => (frames, .error e)

/-- Feed chunk by chunk, and drain after each; the first error ends it. -/
def received (p : Codec Frame) : FrameCodec -> List Bytes -> List Frame × Except ProtoError FrameCodec
  | c, [] => ([], .ok c)
  | c, chunk :: chunks =>
      match drained p (c.feed chunk) with
      | (frames, .error e) => (frames, .error e)
      | (frames, .ok c') =>
          let (later, last) := received p c' chunks
          (frames ++ later, last)

/-- What a framer has left, as the codec has it. -/
def held (left : Remains UInt8 ProtoError) : Except ProtoError FrameCodec :=
  match left with
  | .waiting buf => .ok ⟨buf⟩
  | .failed e => .error e

theorem drained_eq (p : Codec Frame) (buf : Bytes) :
    drained p ⟨buf⟩ = (((framer p).drain buf).fst, held ((framer p).drain buf).snd) := by
  unfold drained
  simp only []
  rcases hdrain : (framer p).drain buf with ⟨frames, left⟩
  cases left with
  | waiting rest => rfl
  | failed e => rfl

theorem received_eq (p : Codec Frame) (buf : Bytes) (chunks : List Bytes) :
    received p ⟨buf⟩ chunks =
      (((framer p).receiveAll (.waiting buf) chunks).fst,
        held ((framer p).receiveAll (.waiting buf) chunks).snd) := by
  induction chunks generalizing buf with
  | nil => rfl
  | cons chunk chunks ih =>
      have hfirst : (framer p).receive (.waiting buf) chunk = (framer p).drain (buf ++ chunk) := rfl
      have hfeed : feed ⟨buf⟩ chunk = ⟨buf ++ chunk⟩ := rfl
      rw [Framer.receiveAll_cons, hfirst]
      unfold received
      rw [hfeed, drained_eq]
      cases hleft : ((framer p).drain (buf ++ chunk)).snd with
      | waiting rest =>
          simp only [held]
          rw [ih rest]
          rfl
      | failed e =>
          simp only [held]
          rw [Framer.receiveAll_failed]
          simp

theorem received_new (p : Codec Frame) (chunks : List Bytes) :
    received p new chunks =
      (((framer p).drain chunks.flatten).fst, held ((framer p).drain chunks.flatten).snd) := by
  have hreceived := received_eq p [] chunks
  rw [Framer.receiveAll_eq_drain] at hreceived
  exact hreceived

/-- The bytes of some frames, if every one of them is accepted. -/
def encodeAll (p : Codec Frame) : List Frame -> Except ProtoError Bytes
  | [] => .ok []
  | frame :: frames =>
      match encode p frame with
      | .error e => .error e
      | .ok bytes =>
          match encodeAll p frames with
          | .error e => .error e
          | .ok behind => .ok (bytes ++ behind)

theorem front_encode {p : Codec Frame} {frame : Frame} {bytes : Bytes}
    (h : encode p frame = .ok bytes) (rest : Bytes) :
    front p (bytes ++ rest) = .item frame rest := by
  unfold encode encodeFrame at h
  simp only [] at h
  split at h
  · rename_i herror
    cases h
  · rename_i body hbody
    cases h
    split at hbody
    · cases hbody
    · rename_i hsize
      cases hbody
      have hfits : (p.encode frame).length <= maxFrameSize := Nat.not_lt.mp hsize
      have hmax : maxFrameSize = 1048576 := rfl
      have hprefixed : (Codec.highFirst lenPrefix (p.encode frame).length).length = lenPrefix :=
        length_highFirst _ _
      have hannounced : announced
          (Codec.highFirst lenPrefix (p.encode frame).length ++ (p.encode frame ++ rest)) =
            (p.encode frame).length := by
        unfold announced
        rw [take_left' hprefixed, ofHighFirst_highFirst]
        exact Nat.mod_eq_of_lt (by rw [show 256 ^ lenPrefix = 4294967296 from rfl]; omega)
      rw [append_assoc, front_complete]
      · rw [hannounced, drop_left' hprefixed, take_left' rfl, drop_left' rfl, fromBytes_encode]
      · rw [length_append, hprefixed]
        omega
      · rw [hannounced]
        exact hfits
      · rw [hannounced, length_append, length_append, hprefixed]
        omega

theorem drain_encodeAll {p : Codec Frame} {frames : List Frame} {wire : Bytes}
    (h : encodeAll p frames = .ok wire) (further : Bytes) :
    (framer p).drain (wire ++ further) =
      (frames ++ ((framer p).drain further).fst, ((framer p).drain further).snd) := by
  induction frames generalizing wire with
  | nil =>
      cases h
      rfl
  | cons frame frames ih =>
      unfold encodeAll at h
      split at h
      · cases h
      · rename_i bytes hbytes
        split at h
        · cases h
        · rename_i behind hbehind
          cases h
          have hfront : (framer p).front (bytes ++ (behind ++ further)) =
              .item frame (behind ++ further) := front_encode hbytes (behind ++ further)
          rw [append_assoc, Framer.drain_of_item hfront, ih hbehind]
          rfl

/-- However the bytes are cut, encoded frames are read back in order, and after them what one
feed of the rest gives: the same frames and the same first error. -/
theorem received_whatever_the_cuts (p : Codec Frame) :
    (forall frames wire further chunks, encodeAll p frames = .ok wire ->
      chunks.flatten = wire ++ further ->
        received p new chunks =
          (frames ++ (received p new [further]).fst, (received p new [further]).snd)) ∧
    (forall chunks chunks' : List Bytes, chunks.flatten = chunks'.flatten ->
      received p new chunks = received p new chunks') := by
  constructor
  · intro frames wire further chunks hencode hcut
    rw [received_new, received_new, hcut, flatten_singleton, drain_encodeAll hencode]
  · intro chunks chunks' hsame
    rw [received_new, received_new, hsame]

/-- A request with a small payload. -/
def ping : Frame where
  version := 1
  kind := .request
  family := 0
  messageType := 7
  id := 300
  error := none
  payload := [1, 2, 3]

theorem received_whatever_the_cuts_ping : (received Wire.frame new
      [[0, 0, 0, 11, 1], [0, 0, 7, 172, 2, 0, 3, 1, 2], [3, 0, 16, 0, 1], [0]]).fst = [ping] ∧
    received Wire.frame new
        [[0, 0, 0, 11, 1], [0, 0, 7, 172, 2, 0, 3, 1, 2], [3, 0, 16, 0, 1], [0]] =
      received Wire.frame new
        [[], [0], [0, 0, 11, 1, 0, 0, 7, 172, 2, 0, 3, 1, 2, 3, 0, 16, 0, 1, 0]] := by
  have hencode : encodeAll Wire.frame [ping] =
      .ok [0, 0, 0, 11, 1, 0, 0, 7, 172, 2, 0, 3, 1, 2, 3] := by
    decide
  constructor
  · have hreceived := (received_whatever_the_cuts Wire.frame).left [ping] _ [0, 16, 0, 1, 0]
      [[0, 0, 0, 11, 1], [0, 0, 7, 172, 2, 0, 3, 1, 2], [3, 0, 16, 0, 1], [0]] hencode rfl
    rw [hreceived]
    decide
  · exact (received_whatever_the_cuts Wire.frame).right _ _ rfl

end FrameCodec

end Rabbithole.Proto
