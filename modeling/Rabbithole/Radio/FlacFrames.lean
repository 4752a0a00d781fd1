import Rabbithole.Foundation.Codec

/-!
# FLAC streams

What a file says about itself before its audio, and the two checksums of its frames.
-/

namespace Rabbithole.Radio
namespace Flac

open Foundation List

def slice? (bytes : Bytes) (start stop : Nat) : Option Bytes :=
  if start <= stop ∧ stop <= bytes.length then some ((bytes.drop start).take (stop - start))
  else none

variable {bytes : Bytes}

theorem slice?_eq_some {part : Bytes} {start stop : Nat} (h : slice? bytes start stop = some part) :
    start <= stop ∧ stop <= bytes.length ∧ part = (bytes.drop start).take (stop - start) := by
  unfold slice? at h
  split at h
  · rename_i hbounds
    cases h
    exact ⟨hbounds.left, hbounds.right, rfl⟩
  · cases h

theorem length_slice? {part : Bytes} {start stop : Nat} (h : slice? bytes start stop = some part) :
    part.length = stop - start := by
  rcases slice?_eq_some h with ⟨hle, hlength, rfl⟩
  rw [length_take, length_drop]
  omega

/-!
## Checksums
-/

def repeated {value : Type*} (f : value -> value) : Nat -> value -> value
  | 0, v => v
  | n + 1, v => repeated f n (f v)

def crc8Bit (crc : UInt8) : UInt8 :=
  if crc &&& 0x80 ≠ 0 then (crc <<< 1) ^^^ 0x07 else crc <<< 1

def crc8 (bytes : Bytes) : UInt8 :=
  bytes.foldl (fun crc byte => repeated crc8Bit 8 (crc ^^^ byte)) 0

def crc16Bit (crc : UInt16) : UInt16 :=
  if crc &&& 0x8000 ≠ 0 then (crc <<< 1) ^^^ 0x8005 else crc <<< 1

def crc16More (crc : UInt16) (bytes : Bytes) : UInt16 :=
  bytes.foldl (fun (crc : UInt16) (byte : UInt8) =>
    repeated crc16Bit 8 (crc ^^^ (byte.toUInt16 <<< 8))) crc

def crc16 (bytes : Bytes) : UInt16 :=
  crc16More 0 bytes

def ofPair (pair : Bytes) : UInt16 :=
  UInt16.ofNat (Codec.ofHighFirst pair)

/-!
## The headers
-/

structure Stream where
  sampleRate : Nat
  channels : Nat
  bitsPerSample : Nat
  /-- Samples a channel, or zero when the encoder did not know. -/
  totalSamples : Nat
  /-- The largest frame in bytes, or zero when the encoder did not say. -/
  maxFrame : Nat
  audioAt : Nat
deriving DecidableEq

/-- What a tag at the front says its own length is. -/
def id3v2Says (front : Bytes) : Nat :=
  if front.length < 10 ∨ front.take 3 ≠ [0x49, 0x44, 0x33] then 0
  else
    let size := (front.drop 6).take 4
    if size.any (fun b => b &&& 0x80 ≠ 0) then 0
    else
      let body := size.foldl (fun n b => n * 2 ^ 7 + b.toNat) 0
      let footer := if front.getD 5 0 &&& 0x10 ≠ 0 then 10 else 0
      10 + body + footer

def id3v2Len (bytes : Bytes) : Nat :=
  min (id3v2Says bytes) bytes.length

/-- The fields of the block that describes the stream. -/
def infoOf (body : Bytes) : Option Stream :=
  (slice? body 10 18).map (fun packed =>
    let at_ := fun i => (packed.getD i 0).toNat
    { sampleRate := at_ 0 * 2 ^ 12 + at_ 1 * 2 ^ 4 + at_ 2 / 2 ^ 4
      channels := at_ 2 / 2 % 8 + 1
      bitsPerSample := at_ 2 % 2 * 2 ^ 4 + at_ 3 / 2 ^ 4 + 1
      totalSamples := at_ 3 % 2 ^ 4 * 2 ^ 32 + Codec.ofHighFirst (packed.drop 4)
      maxFrame := Codec.ofHighFirst ((body.drop 7).take 3)
      audioAt := 0 })

/-- The metadata blocks from a place on; each takes four bytes at least. -/
def blocksFrom (bytes : Bytes) : Nat -> Nat -> Option Stream -> Option Stream
  | 0, _, _ => none
  | fuel + 1, place, found =>
      (slice? bytes place (place + 4)).bind (fun header =>
        let first := header.getD 0 0
        let len := Codec.ofHighFirst (header.drop 1)
        (slice? bytes (place + 4) (place + 4 + len)).bind (fun body =>
          let next :=
            if first &&& 0x7F = 0 then (infoOf body).map some else some found
          next.bind (fun found =>
            if first &&& 0x80 ≠ 0 then
              found.map (fun info => { info with audioAt := place + 4 + len })
            else blocksFrom bytes fuel (place + 4 + len) found)))

def magic : Bytes := [0x66, 0x4C, 0x61, 0x43]

def streaminfo (bytes : Bytes) : Option Stream :=
  let start := id3v2Len bytes
  (slice? bytes start (start + 4)).bind (fun front =>
    if front ≠ magic then none
    else
      (blocksFrom bytes (bytes.length + 1) (start + 4) none).bind (fun info =>
        if 0 < info.sampleRate then some info else none))

theorem blocksFrom_enough {fuel place : Nat} {found : Option Stream}
    (h : bytes.length < place + fuel) :
    blocksFrom bytes (fuel + 1) place found = blocksFrom bytes fuel place found := by
  induction fuel generalizing place found with
  | zero =>
      unfold blocksFrom
      have hnone : slice? bytes place (place + 4) = none := by
        unfold slice?
        rw [if_neg (by omega)]
      rw [hnone]
      rfl
  | succ fuel ih =>
      unfold blocksFrom
      apply congrArg (Option.bind _)
      funext header
      apply congrArg (Option.bind _)
      funext body
      apply congrArg (Option.bind _)
      funext next
      rw [ih (by omega)]

/-!
# FLAC frames

A frame does not say how long it is.  It ends where the next header stands that parses
and matches its checksum, so that the checksum over the whole frame matches, too; the
last frame ends where nothing follows but a tag.
-/

structure Frame where
  offset : Nat
  /-- The whole frame, header and checksum included. -/
  len : Nat
  samples : Nat
  sampleRate : Nat
  /-- The header, its checksum included. -/
  header : Nat
  /-- The coded number in the header. -/
  number : Nat
deriving DecidableEq

def blockSizes : List (Option Nat) :=
  [none, some 192, some 576, some 1152, some 2304, some 4608, none, none, some 256, some 512,
    some 1024, some 2048, some 4096, some 8192, some 16384, some 32768]

def sampleRates : List (Option Nat) :=
  [none, some 88200, some 176400, some 192000, some 8000, some 16000, some 22050, some 24000,
    some 32000, some 44100, some 48000, some 96000, none, none, none, none]

structure Head where
  block : Nat
  rate : Nat
  len : Nat
  number : Nat
deriving DecidableEq

/-- How many bytes a coded number takes, by its first. -/
def codedLen (lead : UInt8) : Option Nat :=
  if lead <= 0x7F then some 1
  else if 0xC0 <= lead ∧ lead <= 0xDF then some 2
  else if 0xE0 <= lead ∧ lead <= 0xEF then some 3
  else if 0xF0 <= lead ∧ lead <= 0xF7 then some 4
  else if 0xF8 <= lead ∧ lead <= 0xFB then some 5
  else if 0xFC <= lead ∧ lead <= 0xFD then some 6
  else if lead = 0xFE then some 7
  else none

def pairAt (bytes : Bytes) (p : Nat) : Option Nat :=
  (bytes[p]?).bind (fun high => (bytes[p + 1]?).map (fun low => high.toNat * 256 + low.toNat))

/-- The block size that a code stands for, and where the header goes on. -/
def blockAt (bytes : Bytes) (p code : Nat) : Option (Option Nat × Nat) :=
  if code = 6 then (bytes[p]?).map (fun b => (some (b.toNat + 1), p + 1))
  else if code = 7 then (pairAt bytes p).map (fun n => (some (n + 1), p + 2))
  else some (blockSizes.getD code none, p)

/-- The sample rate that a code stands for, and where the header goes on. -/
def rateAt (bytes : Bytes) (p code : Nat) (info : Stream) : Option (Option Nat × Nat) :=
  if code = 12 then (bytes[p]?).map (fun b => (some (b.toNat * 1000), p + 1))
  else if code = 13 then (pairAt bytes p).map (fun n => (some n, p + 2))
  else if code = 14 then (pairAt bytes p).map (fun n => (some (n * 10), p + 2))
  else if code = 0 then some (some info.sampleRate, p)
  else some (sampleRates.getD code none, p)

/-- The first two bytes: the sync code, and a reserved zero before the blocking bit. -/
def isSync (b0 b1 : UInt8) : Bool :=
  b0 = 0xFF ∧ b1 &&& 0xFE = 0xF8

def isReserved (b2 b3 : UInt8) : Bool :=
  b3 &&& 0x01 ≠ 0 ∨ b2 >>> 4 = 0 ∨ b2 &&& 0x0F = 15 ∨ b3 >>> 4 > 10 ∨ (b3 >>> 1) &&& 0x07 = 3

def headerAt (bytes : Bytes) (place : Nat) (info : Stream) : Option Head := do
  let b0 <- bytes[place]?
  let b1 <- bytes[place + 1]?
  let b2 <- bytes[place + 2]?
  let b3 <- bytes[place + 3]?
  guard (isSync b0 b1 = true)
  guard (isReserved b2 b3 = false)
  let lead <- bytes[place + 4]?
  let coded <- codedLen lead
  let (block?, p) <- blockAt bytes (place + 4 + coded) (b2 >>> 4).toNat
  let (rate?, q) <- rateAt bytes p (b2 &&& 0x0F).toNat info
  let covered <- slice? bytes place q
  let crc <- bytes[q]?
  guard (crc8 covered = crc)
  let block <- block?
  let rate <- rate?
  guard (0 < block ∧ 0 < rate)
  some { block := block, rate := rate, len := q + 1 - place, number := coded }

/-!
## Where a frame ends
-/

def mayBegin (bytes : Bytes) (start probe : Nat) (info : Stream) : Bool :=
  isSync (bytes.getD probe 0) (bytes.getD (probe + 1) 0) ∧ start + 6 <= probe ∧
    (headerAt bytes probe info).isSome

/-- Probe every place below a limit; the running checksum covers what lies two bytes and
more before the probe. -/
def nextFrameFrom (bytes : Bytes) (start : Nat) (info : Stream) (limit : Nat) :
    Nat -> Nat -> Nat -> UInt16 -> Option Nat
  | 0, _, _, _ => none
  | fuel + 1, probe, covered, crc =>
      let goOn : Option Nat :=
        if 2 <= probe + 1 ∧ covered < probe + 1 - 2 then
          (slice? bytes covered (probe + 1 - 2)).bind (fun more =>
            nextFrameFrom bytes start info limit fuel (probe + 1) (probe + 1 - 2)
              (crc16More crc more))
        else nextFrameFrom bytes start info limit fuel (probe + 1) covered crc
      if probe + 1 < limit then
        if mayBegin bytes start probe info then
          (slice? bytes (probe - 2) probe).bind (fun want =>
            (slice? bytes covered (probe - 2)).bind (fun more =>
              if crc16More crc more = ofPair want then some probe else goOn))
        else goOn
      else none

def nextFrame (bytes : Bytes) (start afterHeader : Nat) (info : Stream) (limit : Nat) :
    Option Nat :=
  let covered := max (afterHeader - 2) start
  (slice? bytes start covered).bind (fun front =>
    nextFrameFrom bytes start info limit (limit + 1) afterHeader covered (crc16 front))

def tag : Bytes := [0x54, 0x41, 0x47]

def apeTagEx : Bytes := [0x41, 0x50, 0x45, 0x54, 0x41, 0x47, 0x45, 0x58]

def lyricsBegin : Bytes := [0x4C, 0x59, 0x52, 0x49, 0x43, 0x53, 0x42, 0x45, 0x47, 0x49, 0x4E]

def id3 : Bytes := [0x49, 0x44, 0x33]

def tailIsOver (tail : Bytes) : Bool :=
  tail.isEmpty || tag.isPrefixOf tail || apeTagEx.isPrefixOf tail || lyricsBegin.isPrefixOf tail
    || id3.isPrefixOf tail || tail.all (fun b => b = 0)

def audioEndFrom (bytes : Bytes) (start limit : Nat) : Nat -> Nat -> Nat -> UInt16 -> Option Nat
  | 0, _, _, _ => none
  | fuel + 1, stop, covered, crc =>
      if stop <= limit then
        (slice? bytes covered (stop - 2)).bind (fun more =>
          let crc := crc16More crc more
          (slice? bytes (stop - 2) stop).bind (fun want =>
            if start + 6 < stop ∧ crc = ofPair want ∧ tailIsOver (bytes.drop stop) then some stop
            else audioEndFrom bytes start limit fuel (stop + 1) (stop - 2) crc))
      else none

def audioEnd (bytes : Bytes) (start afterHeader limit : Nat) : Option Nat :=
  let limit := min limit bytes.length
  let covered := max (afterHeader - 2) start
  (slice? bytes start covered).bind (fun front =>
    audioEndFrom bytes start limit (limit + 1) (covered + 2) covered (crc16 front))

def near (bytes : Bytes) (start : Nat) (info : Stream) : Nat :=
  if info.maxFrame = 0 then bytes.length else min (start + info.maxFrame + 2) bytes.length

def bounds (bytes : Bytes) (start : Nat) (info : Stream) : List Nat :=
  if near bytes start info < bytes.length then [near bytes start info, bytes.length]
  else [near bytes start info, near bytes start info]

def frameEnd (bytes : Bytes) (start afterHeader : Nat) (info : Stream) : Option Nat :=
  match (bounds bytes start info).findSome? (nextFrame bytes start afterHeader info) with
  | some stop => some stop
  | none => (bounds bytes start info).findSome? (audioEnd bytes start afterHeader)

def framesFrom (bytes : Bytes) (info : Stream) : Nat -> Nat -> List Frame
  | 0, _ => []
  | fuel + 1, place =>
      if place + 6 < bytes.length then
        match headerAt bytes place info with
        | none => framesFrom bytes info fuel (place + 1)
        | some head =>
            match frameEnd bytes place (place + head.len) info with
            | none => []
            | some stop =>
                { offset := place
                  len := stop - place
                  samples := head.block
                  sampleRate := head.rate
                  header := head.len
                  number := head.number } :: framesFrom bytes info fuel stop
      else []

def frames (bytes : Bytes) : List Frame :=
  match streaminfo bytes with
  | none => []
  | some info => framesFrom bytes info (bytes.length + 1) info.audioAt

/-!
## Headers
-/

variable {bytes : Bytes} {place : Nat} {info : Stream} {head : Head}

theorem guard_bind_eq_some {value : Type} {p : Prop} [Decidable p] {x : Option value} {v : value} :
    ((guard p : Option Unit) >>= fun _ => x) = some v <-> p ∧ x = some v := by
  unfold guard
  split
  · rename_i hp
    exact ⟨fun h => ⟨hp, h⟩, And.right⟩
  · rename_i hp
    constructor
    · intro h
      cases h
    · exact fun h => absurd h.left hp

/-- What a header that parses is made of: four bytes, a coded number, what is written out
of the block size and the rate, and the checksum over all these. -/
structure Header (bytes : Bytes) (place : Nat) (info : Stream) (head : Head)
    (b0 b1 b2 b3 lead : UInt8) (p : Nat) : Prop where
  first : bytes[place]? = some b0
  second : bytes[place + 1]? = some b1
  third : bytes[place + 2]? = some b2
  fourth : bytes[place + 3]? = some b3
  sync : isSync b0 b1 = true
  reserved : isReserved b2 b3 = false
  leads : bytes[place + 4]? = some lead
  coded : codedLen lead = some head.number
  block : blockAt bytes (place + 4 + head.number) (b2 >>> 4).toNat = some (some head.block, p)
  rate : rateAt bytes p (b2 &&& 0x0F).toNat info = some (some head.rate, place + head.len - 1)
  covered : exists part, slice? bytes place (place + head.len - 1) = some part ∧
    bytes[place + head.len - 1]? = some (crc8 part)
  positive : 0 < head.block ∧ 0 < head.rate ∧ 0 < head.len

theorem headerAt_eq_some_iff :
    headerAt bytes place info = some head <->
      exists b0 b1 b2 b3 lead p, Header bytes place info head b0 b1 b2 b3 lead p := by
  unfold headerAt
  constructor
  · intro h
    rcases Option.bind_eq_some_iff.mp h with ⟨b0, h0, h⟩
    rcases Option.bind_eq_some_iff.mp h with ⟨b1, h1, h⟩
    rcases Option.bind_eq_some_iff.mp h with ⟨b2, h2, h⟩
    rcases Option.bind_eq_some_iff.mp h with ⟨b3, h3, h⟩
    rcases guard_bind_eq_some.mp h with ⟨hsync, h⟩
    rcases guard_bind_eq_some.mp h with ⟨hreserved, h⟩
    rcases Option.bind_eq_some_iff.mp h with ⟨lead, hlead, h⟩
    rcases Option.bind_eq_some_iff.mp h with ⟨coded, hcoded, h⟩
    rcases Option.bind_eq_some_iff.mp h with ⟨⟨block?, p⟩, hblock, h⟩
    rcases Option.bind_eq_some_iff.mp h with ⟨⟨rate?, q⟩, hrate, h⟩
    rcases Option.bind_eq_some_iff.mp h with ⟨part, hpart, h⟩
    rcases Option.bind_eq_some_iff.mp h with ⟨crc, hcrc, h⟩
    rcases guard_bind_eq_some.mp h with ⟨hsame, h⟩
    rcases Option.bind_eq_some_iff.mp h with ⟨block, hblock?, h⟩
    rcases Option.bind_eq_some_iff.mp h with ⟨rate, hrate?, h⟩
    rcases guard_bind_eq_some.mp h with ⟨⟨hblockPos, hratePos⟩, h⟩
    cases h
    have hplace : place + (q + 1 - place) - 1 = q := by
      have hle := (slice?_eq_some hpart).left
      omega
    refine ⟨b0, b1, b2, b3, lead, p, ?_⟩
    exact
      { first := h0
        second := h1
        third := h2
        fourth := h3
        sync := hsync
        reserved := hreserved
        leads := hlead
        coded := hcoded
        block := by rw [hblock, hblock?]
        rate := by rw [hrate, hrate?, hplace]
        covered := by
          rw [hplace]
          exact ⟨part, hpart, by rw [hcrc, hsame]⟩
        positive := by
          have hle := (slice?_eq_some hpart).left
          exact ⟨hblockPos, hratePos, by show 0 < q + 1 - place; omega⟩ }
  · rintro ⟨b0, b1, b2, b3, lead, p, hheader⟩
    rcases hheader.covered with ⟨part, hpart, hcrc⟩
    rcases hheader.positive with ⟨hblock, hrate, hlen⟩
    have hle := (slice?_eq_some hpart).left
    apply Option.bind_eq_some_iff.mpr ⟨b0, hheader.first, ?_⟩
    apply Option.bind_eq_some_iff.mpr ⟨b1, hheader.second, ?_⟩
    apply Option.bind_eq_some_iff.mpr ⟨b2, hheader.third, ?_⟩
    apply Option.bind_eq_some_iff.mpr ⟨b3, hheader.fourth, ?_⟩
    apply guard_bind_eq_some.mpr ⟨hheader.sync, ?_⟩
    apply guard_bind_eq_some.mpr ⟨hheader.reserved, ?_⟩
    apply Option.bind_eq_some_iff.mpr ⟨lead, hheader.leads, ?_⟩
    apply Option.bind_eq_some_iff.mpr ⟨head.number, hheader.coded, ?_⟩
    apply Option.bind_eq_some_iff.mpr ⟨_, hheader.block, ?_⟩
    apply Option.bind_eq_some_iff.mpr ⟨_, hheader.rate, ?_⟩
    apply Option.bind_eq_some_iff.mpr ⟨part, hpart, ?_⟩
    apply Option.bind_eq_some_iff.mpr ⟨crc8 part, hcrc, ?_⟩
    apply guard_bind_eq_some.mpr ⟨rfl, ?_⟩
    apply Option.bind_eq_some_iff.mpr ⟨head.block, rfl, ?_⟩
    apply Option.bind_eq_some_iff.mpr ⟨head.rate, rfl, ?_⟩
    apply guard_bind_eq_some.mpr ⟨⟨hblock, hrate⟩, ?_⟩
    have hback : place + head.len - 1 + 1 - place = head.len := by omega
    rw [hback]

/-!
## Where things stand
-/

variable {p q code start fuel limit stop : Nat} {bytes' : Bytes}

/-- A reader ends behind its place, and all that it reads is between the two. -/
structure Field (read : Bytes -> Nat -> Option (Option Nat × Nat)) : Prop where
  le {bytes : Bytes} {p q : Nat} {v : Option Nat} (h : read bytes p = some (v, q)) : p <= q
  shift {bytes bytes' : Bytes} {p p' q : Nat} {v : Option Nat} (h : read bytes p = some (v, q))
    (hsame : forall i, i < q - p -> bytes'[p' + i]? = bytes[p + i]?) :
    read bytes' p' = some (v, p' + (q - p))

theorem field_byte (value : UInt8 -> Nat) :
    Field (fun bytes p => (bytes[p]?).map (fun b => (some (value b), p + 1))) where
  le {_ p _ _} h := by
    rcases Option.map_eq_some_iff.mp h with ⟨b, -, hpair⟩
    cases hpair
    exact Nat.le_succ p
  shift {_ bytes' _ p' _ _} h hsame := by
    rcases Option.map_eq_some_iff.mp h with ⟨b, hb, hpair⟩
    cases hpair
    have hfirst : bytes'[p']? = some b := (hsame 0 (by omega)).trans hb
    rw [hfirst, Option.map_some, Nat.add_sub_cancel_left]

theorem field_pair (value : Nat -> Nat) :
    Field (fun bytes p => (pairAt bytes p).map (fun n => (some (value n), p + 2))) where
  le {_ p _ _} h := by
    rcases Option.map_eq_some_iff.mp h with ⟨n, -, hpair⟩
    cases hpair
    exact Nat.le_add_right p 2
  shift {bytes bytes' p p' _ _} h hsame := by
    rcases Option.map_eq_some_iff.mp h with ⟨n, hn, hpair⟩
    cases hpair
    have hpairAt : pairAt bytes' p' = pairAt bytes p := by
      unfold pairAt
      rw [hsame 1 (by omega), show bytes'[p']? = bytes[p]? from hsame 0 (by omega)]
    rw [hpairAt, hn, Option.map_some, Nat.add_sub_cancel_left]

theorem field_constant (v : Option Nat) : Field (fun _ p => some (v, p)) where
  le h := by
    cases h
    exact Nat.le_refl _
  shift h _ := by
    cases h
    rw [Nat.sub_self, Nat.add_zero]

theorem Field.ite {cond : Prop} [Decidable cond] {read read' : Bytes -> Nat -> Option (Option Nat × Nat)}
    (h : Field read) (h' : Field read') :
    Field (fun bytes p => if cond then read bytes p else read' bytes p) := by
  by_cases hcond : cond
  · simpa only [if_pos hcond] using h
  · simpa only [if_neg hcond] using h'

theorem field_blockAt (code : Nat) : Field (fun bytes p => blockAt bytes p code) :=
  (field_byte fun b => b.toNat + 1).ite ((field_pair fun n => n + 1).ite (field_constant _))

theorem field_rateAt (code : Nat) (info : Stream) :
    Field (fun bytes p => rateAt bytes p code info) :=
  (field_byte fun b => b.toNat * 1000).ite ((field_pair id).ite
    ((field_pair fun n => n * 10).ite ((field_constant _).ite (field_constant _))))

theorem Header.length_le {b0 b1 b2 b3 lead : UInt8}
    (h : Header bytes place info head b0 b1 b2 b3 lead p) :
    place + 4 + head.number <= p ∧ p + 1 <= place + head.len ∧
      place + head.len <= bytes.length := by
  rcases h.covered with ⟨part, hpart, hcrc⟩
  have hblock := (field_blockAt _).le h.block
  have hrate := (field_rateAt _ _).le h.rate
  have hend := (List.getElem?_eq_some_iff.mp hcrc).fst
  have hpos := h.positive.right.right
  omega

theorem nextFrameFrom_bounds {probe covered : Nat} {crc : UInt16}
    (h : nextFrameFrom bytes start info limit fuel probe covered crc = some stop) :
    probe <= stop ∧ start + 6 <= stop ∧ stop < limit := by
  induction fuel generalizing probe covered crc with
  | zero =>
      cases h
  | succ fuel ih =>
      unfold nextFrameFrom at h
      simp only [] at h
      split at h
      · rename_i hlimit
        -- going on, the probe is one further
        have hon : forall {x : Option Nat}, x = some stop ->
            x = (if 2 <= probe + 1 ∧ covered < probe + 1 - 2 then
              (slice? bytes covered (probe + 1 - 2)).bind (fun more =>
                nextFrameFrom bytes start info limit fuel (probe + 1) (probe + 1 - 2)
                  (crc16More crc more))
              else nextFrameFrom bytes start info limit fuel (probe + 1) covered crc) ->
            probe <= stop ∧ start + 6 <= stop ∧ stop < limit := by
          intro x hx heq
          rw [heq] at hx
          split at hx
          · rcases Option.bind_eq_some_iff.mp hx with ⟨more, -, hx⟩
            rcases ih hx with ⟨hprobe, hsix, hstop⟩
            exact ⟨Nat.le_of_succ_le hprobe, hsix, hstop⟩
          · rcases ih hx with ⟨hprobe, hsix, hstop⟩
            exact ⟨Nat.le_of_succ_le hprobe, hsix, hstop⟩
        split at h
        · rename_i hbegin
          rcases Option.bind_eq_some_iff.mp h with ⟨want, -, h⟩
          rcases Option.bind_eq_some_iff.mp h with ⟨more, -, h⟩
          split at h
          · cases h
            unfold mayBegin at hbegin
            rw [decide_eq_true_eq] at hbegin
            exact ⟨Nat.le_refl _, hbegin.right.left, by omega⟩
          · exact hon h rfl
        · exact hon h rfl
      · cases h

theorem audioEndFrom_bounds {probe covered : Nat} {crc : UInt16}
    (h : audioEndFrom bytes start limit fuel probe covered crc = some stop) :
    probe <= stop ∧ start + 6 < stop ∧ stop <= limit := by
  induction fuel generalizing probe covered crc with
  | zero =>
      cases h
  | succ fuel ih =>
      unfold audioEndFrom at h
      split at h
      · rename_i hlimit
        rcases Option.bind_eq_some_iff.mp h with ⟨more, -, h⟩
        simp only [] at h
        rcases Option.bind_eq_some_iff.mp h with ⟨want, -, h⟩
        split at h
        · rename_i hend
          cases h
          exact ⟨Nat.le_refl _, hend.left, hlimit⟩
        · rcases ih h with ⟨hprobe, hsix, hstop⟩
          exact ⟨Nat.le_of_succ_le hprobe, hsix, hstop⟩
      · cases h

theorem le_of_mem_bounds (h : limit ∈ bounds bytes start info) : limit <= bytes.length := by
  have hnear : near bytes start info <= bytes.length := by
    unfold near
    split
    · exact Nat.le_refl _
    · exact Nat.min_le_right _ _
  unfold bounds at h
  split at h
  · rcases mem_cons.mp h with rfl | hmem
    · exact hnear
    · rw [mem_singleton.mp hmem]
  · rcases mem_cons.mp h with rfl | hmem
    · exact hnear
    · rw [mem_singleton.mp hmem]
      exact hnear

theorem frameEnd_bounds {afterHeader : Nat}
    (h : frameEnd bytes start afterHeader info = some stop) :
    afterHeader <= stop ∧ start + 6 <= stop ∧ stop <= bytes.length := by
  unfold frameEnd at h
  split at h
  · rename_i found hfound
    cases h
    rcases exists_of_findSome?_eq_some hfound with ⟨limit, hmem, hnext⟩
    unfold nextFrame at hnext
    rcases Option.bind_eq_some_iff.mp hnext with ⟨front, -, hnext⟩
    rcases nextFrameFrom_bounds hnext with ⟨hprobe, hsix, hstop⟩
    exact ⟨hprobe, hsix, Nat.le_trans (Nat.le_of_lt hstop) (le_of_mem_bounds hmem)⟩
  · rcases exists_of_findSome?_eq_some h with ⟨limit, hmem, hend⟩
    unfold audioEnd at hend
    rcases Option.bind_eq_some_iff.mp hend with ⟨front, hfront, hend⟩
    rcases audioEndFrom_bounds hend with ⟨hprobe, hsix, hstop⟩
    refine ⟨?_, Nat.le_of_lt hsix, Nat.le_trans hstop (Nat.min_le_right _ _)⟩
    omega

theorem framesFrom_enough (h : bytes.length < place + fuel) :
    framesFrom bytes info (fuel + 1) place = framesFrom bytes info fuel place := by
  induction fuel generalizing place with
  | zero =>
      unfold framesFrom
      rw [if_neg (by omega)]
  | succ fuel ih =>
      unfold framesFrom
      by_cases hmore : place + 6 < bytes.length
      · rw [if_pos hmore, if_pos hmore]
        cases headerAt bytes place info with
        | none => exact ih (by omega)
        | some head =>
            cases hstop : frameEnd bytes place (place + head.len) info with
            | none => simp only [hstop]
            | some stop =>
                have hsix := (frameEnd_bounds hstop).right.left
                simp only [hstop]
                rw [ih (by omega)]
      · rw [if_neg hmore, if_neg hmore]

/-- What a frame says of itself stands in the file: a header that parses, and room for
all of the frame behind it. -/
theorem of_mem_framesFrom {frame : Frame} (h : frame ∈ framesFrom bytes info fuel place) :
    headerAt bytes frame.offset info = some
        { block := frame.samples
          rate := frame.sampleRate
          len := frame.header
          number := frame.number } ∧
      frame.header <= frame.len ∧ frame.offset + frame.len <= bytes.length := by
  induction fuel generalizing place with
  | zero =>
      cases h
  | succ fuel ih =>
      unfold framesFrom at h
      split at h
      · split at h
        · exact ih h
        · rename_i head hhead
          split at h
          · cases h
          · rename_i stop hstop
            rcases mem_cons.mp h with rfl | hrest
            · rcases frameEnd_bounds hstop with ⟨hafter, -, hlength⟩
              refine ⟨hhead, ?_, ?_⟩
              · show head.len <= stop - place
                omega
              · show place + (stop - place) <= bytes.length
                omega
            · exact ih hrest
      · cases h

theorem of_mem_frames {frame : Frame} (h : frame ∈ frames bytes) :
    exists info, streaminfo bytes = some info ∧
      headerAt bytes frame.offset info = some
        { block := frame.samples
          rate := frame.sampleRate
          len := frame.header
          number := frame.number } ∧
      frame.header <= frame.len ∧ frame.offset + frame.len <= bytes.length := by
  unfold frames at h
  split at h
  · cases h
  · rename_i info hinfo
    exact ⟨info, hinfo, of_mem_framesFrom h⟩

end Flac
end Rabbithole.Radio
