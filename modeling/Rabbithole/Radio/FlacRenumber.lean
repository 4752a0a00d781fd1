import Rabbithole.Radio.FlacFrames

/-!
# Frames written again

The same frame as one of a stream that keeps going: its number is another, and so are
both checksums, which cover the number.
-/

namespace Rabbithole.Radio
namespace Flac

open Foundation List

/-- Sample numbers start again here: at six coded bytes, never the seventh. -/
def numberLimit : Nat := 2 ^ 31

/-- The numbers below a limit, the lead byte, and how many bytes follow it. -/
def shapes : List (Nat × UInt8 × Nat) :=
  [(2 ^ 7, 0x00, 0), (2 ^ 11, 0xC0, 1), (2 ^ 16, 0xE0, 2), (2 ^ 21, 0xF0, 3), (2 ^ 26, 0xF8, 4),
    (2 ^ 31, 0xFC, 5)]

def shaped (lead : UInt8) (follow v : Nat) : Bytes :=
  (lead ||| UInt8.ofNat (v >>> (6 * follow))) ::
    (List.range follow).reverse.map (fun i => UInt8.ofNat (0x80 ||| ((v >>> (6 * i)) &&& 0x3F)))

def writeNumber (sample : UInt64) : Bytes :=
  let v := sample.toNat % numberLimit
  match shapes.find? (fun shape => v < shape.1) with
  | none => []
  | some (_, lead, follow) => shaped lead follow v

def renumber (frame : Bytes) (header number : Nat) (sample : UInt64) : Option Bytes :=
  if header < 5 + number ∨ frame.length < header + 2 then none
  else do
    let b0 <- frame[0]?
    let b1 <- frame[1]?
    let b2 <- frame[2]?
    let b3 <- frame[3]?
    let written <- slice? frame (4 + number) (header - 1)
    let front := [b0, b1 ||| 0x01, b2, b3] ++ writeNumber sample ++ written
    let body <- slice? frame header (frame.length - 2)
    let out := front ++ [crc8 front] ++ body
    some (out ++ Codec.highFirst 2 (crc16 out).toNat)

/-!
## Coded numbers
-/

def leadBits (lead : UInt8) (coded : Nat) : Nat :=
  if coded = 1 then lead.toNat else lead.toNat % 2 ^ (7 - coded)

/-- The number that some bytes code: as many follow the lead as it says, each of them a
continuation with six bits. -/
def readNumber (coded : Bytes) : Option Nat :=
  match coded with
  | [] => none
  | lead :: follow =>
      if codedLen lead = some (follow.length + 1) ∧
          follow.all (fun b => b &&& 0xC0 = 0x80) = true then
        some (follow.foldl (fun v b => v * 2 ^ 6 + b.toNat % 2 ^ 6)
          (leadBits lead (follow.length + 1)))
      else none

/-- The shape that a number is written in: the first that it fits into. -/
structure Shaped (v : Nat) (lead : UInt8) (follow : Nat) : Prop where
  limit : exists limit, (limit, lead, follow) ∈ shapes ∧ v < limit
  shortest : forall limit lead' follow', (limit, lead', follow') ∈ shapes -> v < limit ->
    follow <= follow'

theorem writeNumber_eq (sample : UInt64) :
    exists lead follow, Shaped (sample.toNat % numberLimit) lead follow ∧
      writeNumber sample = shaped lead follow (sample.toNat % numberLimit) := by
  have hlimit : sample.toNat % numberLimit < 2 ^ 31 := Nat.mod_lt _ (by decide)
  unfold writeNumber
  generalize sample.toNat % numberLimit = v at hlimit
  simp only []
  cases hfind : shapes.find? (fun shape => v < shape.1) with
  | none =>
      have hnone := find?_eq_none.mp hfind (2 ^ 31, 0xFC, 5) (by decide)
      rw [decide_eq_true_eq] at hnone
      exact absurd hlimit hnone
  | some shape =>
      rcases shape with ⟨limit, lead, follow⟩
      have hmem := mem_of_find?_eq_some hfind
      have hlt := find?_some hfind
      rw [decide_eq_true_eq] at hlt
      refine ⟨lead, follow, ⟨⟨limit, hmem, hlt⟩, ?_⟩, rfl⟩
      rcases find?_eq_some_iff_append.mp hfind with ⟨-, before, after, hsplit, hbefore⟩
      intro limit' lead' follow' hmem' hlt'
      rw [hsplit] at hmem'
      rcases mem_append.mp hmem' with hfirst | hrest
      · have hno := hbefore _ hfirst
        rw [Bool.not_eq_true', decide_eq_false_iff_not] at hno
        exact absurd hlt' hno
      · have hsorted : shapes.Pairwise (fun a b => a.2.2 <= b.2.2) := by decide
        rw [hsplit] at hsorted
        rcases mem_cons.mp hrest with heq | hafter
        · cases heq
          exact Nat.le_refl _
        · exact (pairwise_cons.mp (pairwise_append.mp hsorted).right.left).left _ hafter

theorem lead_of_mem {limit follow x : Nat} {lead : UInt8} (h : (limit, lead, follow) ∈ shapes)
    (hx : x < limit / 2 ^ (6 * follow)) :
    codedLen (lead ||| UInt8.ofNat x) = some (follow + 1) ∧
      leadBits (lead ||| UInt8.ofNat x) (follow + 1) = x ∧ follow <= 5 := by
  have hall : shapes.all (fun shape =>
      (List.range (shape.1 / 2 ^ (6 * shape.2.2))).all (fun x =>
        decide (codedLen (shape.2.1 ||| UInt8.ofNat x) = some (shape.2.2 + 1) ∧
          leadBits (shape.2.1 ||| UInt8.ofNat x) (shape.2.2 + 1) = x ∧ shape.2.2 <= 5))) = true := by
    decide
  have hshape := all_eq_true.mp hall (limit, lead, follow) h
  have hone := all_eq_true.mp hshape x (mem_range.mpr hx)
  rwa [decide_eq_true_eq] at hone

theorem follows (x : Nat) :
    UInt8.ofNat (0x80 ||| (x &&& 0x3F)) &&& 0xC0 = 0x80 ∧
      (UInt8.ofNat (0x80 ||| (x &&& 0x3F))).toNat % 2 ^ 6 = x % 2 ^ 6 := by
  have hall : (List.range 64).all (fun x =>
      decide (UInt8.ofNat (0x80 ||| x) &&& 0xC0 = 0x80 ∧
        (UInt8.ofNat (0x80 ||| x)).toNat % 2 ^ 6 = x)) = true := by
    decide
  have hmask : x &&& 0x3F = x % 2 ^ 6 := Nat.and_two_pow_sub_one_eq_mod x 6
  have hone := all_eq_true.mp hall (x % 2 ^ 6) (mem_range.mpr (Nat.mod_lt _ (by decide)))
  rw [decide_eq_true_eq] at hone
  rw [hmask]
  exact hone

theorem foldl_follow (v follow : Nat) : ((List.range follow).reverse.map (fun i =>
        UInt8.ofNat (0x80 ||| ((v >>> (6 * i)) &&& 0x3F)))).foldl
      (fun n b => n * 2 ^ 6 + b.toNat % 2 ^ 6) (v >>> (6 * follow)) = v := by
  induction follow with
  | zero => rfl
  | succ follow ih =>
      rw [range_succ, reverse_append, reverse_singleton, singleton_append,
        map_cons, foldl_cons, (follows _).right]
      have hstep : v >>> (6 * (follow + 1)) * 2 ^ 6 + v >>> (6 * follow) % 2 ^ 6 =
          v >>> (6 * follow) := by
        rw [Nat.mul_add, Nat.mul_one, Nat.shiftRight_add, Nat.shiftRight_eq_div_pow _ 6]
        exact Nat.div_add_mod' _ _
      rw [hstep]
      exact ih

theorem readNumber_shaped {v follow : Nat} {lead : UInt8} (h : Shaped v lead follow) :
    readNumber (shaped lead follow v) = some v ∧ follow <= 5 ∧
      codedLen (lead ||| UInt8.ofNat (v >>> (6 * follow))) = some (follow + 1) := by
  rcases h.limit with ⟨limit, hmem, hlt⟩
  have hhigh : v >>> (6 * follow) < limit / 2 ^ (6 * follow) := by
    have hdvd : 2 ^ (6 * follow) ∣ limit := by
      have hall : shapes.all (fun shape => decide (2 ^ (6 * shape.2.2) ∣ shape.1)) = true := by
        decide
      have hone := all_eq_true.mp hall (limit, lead, follow) hmem
      rwa [decide_eq_true_eq] at hone
    rw [Nat.shiftRight_eq_div_pow]
    exact Nat.div_lt_div_of_lt_of_dvd hdvd hlt
  rcases lead_of_mem hmem hhigh with ⟨hcoded, hbits, hfollow⟩
  refine ⟨?_, hfollow, hcoded⟩
  unfold shaped readNumber
  simp only []
  rw [length_map, length_reverse, length_range, if_pos, hbits, foldl_follow]
  refine ⟨hcoded, ?_⟩
  rw [all_eq_true]
  intro b hb
  rcases mem_map.mp hb with ⟨i, -, rfl⟩
  exact decide_eq_true (follows _).left

/-!
## The frame
-/

def Frame.bytesIn (frame : Frame) (bytes : Bytes) : Bytes :=
  (bytes.drop frame.offset).take frame.len

/-- A frame written again: its header parses with the same block size and rate, counts
samples and carries the number in the shortest form; behind it stand the bytes of the
original, and both checksums are those of the bytes before them. -/
structure WrittenAgain (info : Stream) (frame : Frame) (audio : Bytes) (sample : UInt64)
    (out : Bytes) (head : Head) : Prop where
  header : headerAt out 0 info = some head
  block : head.block = frame.samples
  rate : head.rate = frame.sampleRate
  countsSamples : exists b, out[1]? = some b ∧ b &&& 0x01 = 1
  number : readNumber ((out.drop 4).take head.number) = some (sample.toNat % numberLimit)
  sixBytes : head.number <= 6
  shortest : forall limit lead follow, (limit, lead, follow) ∈ shapes ->
    sample.toNat % numberLimit < limit -> head.number <= follow + 1
  audio : exists body, slice? audio frame.header (audio.length - 2) = some body ∧
    slice? out head.len (out.length - 2) = some body
  headerCrc : exists front, slice? out 0 (head.len - 1) = some front ∧
    out[head.len - 1]? = some (crc8 front)
  frameCrc : exists front, slice? out 0 (out.length - 2) = some front ∧
    slice? out (out.length - 2) out.length = some (Codec.highFirst 2 (crc16 front).toNat)

theorem slice?_of_append (front part back : Bytes) :
    slice? (front ++ part ++ back) front.length (front.length + part.length) = some part := by
  unfold slice?
  rw [if_pos (by rw [length_append, length_append]; omega), Nat.add_sub_cancel_left,
    append_assoc, drop_left' rfl, take_left' rfl]

set_option maxRecDepth 8000 in
theorem isSync_or (b0 b1 : UInt8) (h : isSync b0 b1 = true) : isSync b0 (b1 ||| 0x01) = true := by
  have hall : (List.range 256).all (fun n =>
      decide (UInt8.ofNat n &&& 0xFE = 0xF8 -> (UInt8.ofNat n ||| 0x01) &&& 0xFE = 0xF8)) = true := by
    decide
  have hone := all_eq_true.mp hall b1.toNat (mem_range.mpr b1.toNat_lt)
  rw [decide_eq_true_eq, UInt8.ofNat_toNat] at hone
  unfold isSync at h ⊢
  rw [decide_eq_true_eq] at h ⊢
  exact ⟨h.left, hone h.right⟩

set_option maxRecDepth 8000 in
theorem or_one_and_one (b : UInt8) : (b ||| 0x01) &&& 0x01 = 1 := by
  have hall : (List.range 256).all (fun n =>
      decide ((UInt8.ofNat n ||| 0x01) &&& 0x01 = 1)) = true := by
    decide
  have hone := all_eq_true.mp hall b.toNat (mem_range.mpr b.toNat_lt)
  rwa [decide_eq_true_eq, UInt8.ofNat_toNat] at hone

/-- What is written: the four bytes, the number, what else the header has, its checksum,
the body, and the checksum of all. -/
def rewritten (b0 b1 b2 b3 : UInt8) (coded written body : Bytes) : Bytes :=
  let front := [b0, b1 ||| 0x01, b2, b3] ++ coded ++ written
  let out := front ++ [crc8 front] ++ body
  out ++ Codec.highFirst 2 (crc16 out).toNat

/-- A header stays one when its number is another. -/
theorem header_rewritten {bytes written body : Bytes} {place p : Nat} {info : Stream} {head : Head}
    {b0 b1 b2 b3 lead lead' : UInt8} {follow : Bytes}
    (h : Header bytes place info head b0 b1 b2 b3 lead p)
    (hcoded : codedLen lead' = some (follow.length + 1))
    (hlength : 5 + head.number + written.length = head.len)
    (hwritten : forall i, i < written.length ->
      written[i]? = bytes[place + 4 + head.number + i]?) :
    Header (rewritten b0 b1 b2 b3 (lead' :: follow) written body) 0 info
      { head with len := 5 + (follow.length + 1) + written.length, number := follow.length + 1 }
      b0 (b1 ||| 0x01) b2 b3 lead'
      (4 + (follow.length + 1) + (p - (place + 4 + head.number))) := by
  have hblock := (field_blockAt _).le h.block
  have hrate := (field_rateAt _ _).le h.rate
  -- what is written out stands behind the new number as it stood behind the old one
  have hbehind : forall i, i < written.length ->
      (rewritten b0 b1 b2 b3 (lead' :: follow) written body)[4 + (follow.length + 1) + i]? =
        bytes[place + 4 + head.number + i]? := by
    intro i hi
    have hsplit : rewritten b0 b1 b2 b3 (lead' :: follow) written body =
        ([b0, b1 ||| 0x01, b2, b3] ++ (lead' :: follow)) ++ (written ++
          ([crc8 ([b0, b1 ||| 0x01, b2, b3] ++ (lead' :: follow) ++ written)] ++ body ++
            Codec.highFirst 2 (crc16 ([b0, b1 ||| 0x01, b2, b3] ++ (lead' :: follow) ++ written ++
              [crc8 ([b0, b1 ||| 0x01, b2, b3] ++ (lead' :: follow) ++ written)] ++ body)).toNat)) := by
      unfold rewritten
      simp only [append_assoc]
    have hfront : ([b0, b1 ||| 0x01, b2, b3] ++ (lead' :: follow)).length =
        4 + (follow.length + 1) := by
      rw [length_append, length_cons]
      rfl
    rw [hsplit, <- hwritten i hi, <- hfront, getElem?_append_right (Nat.le_add_right _ _),
      Nat.add_sub_cancel_left, getElem?_append_left hi]
  have hfrontLength : ([b0, b1 ||| 0x01, b2, b3] ++ (lead' :: follow) ++ written).length =
      4 + (follow.length + 1) + written.length := by
    rw [length_append, length_append, length_cons]
    rfl
  have hpos := h.positive
  exact
    { first := rfl
      second := rfl
      third := rfl
      fourth := rfl
      sync := isSync_or b0 b1 h.sync
      reserved := h.reserved
      leads := rfl
      coded := hcoded
      block := by
        rw [Nat.zero_add]
        exact (field_blockAt _).shift h.block (fun i hi => hbehind i (by omega))
      rate := by
        have hshift : rateAt (rewritten b0 b1 b2 b3 (lead' :: follow) written body)
            (4 + (follow.length + 1) + (p - (place + 4 + head.number))) (b2 &&& 0x0F).toNat info =
              some (some head.rate, 4 + (follow.length + 1) + (p - (place + 4 + head.number)) +
                (place + head.len - 1 - p)) := by
          apply (field_rateAt _ _).shift h.rate
          intro i hi
          have hone := hbehind (p - (place + 4 + head.number) + i) (by omega)
          have hback : place + 4 + head.number + (p - (place + 4 + head.number) + i) = p + i := by
            omega
          rw [hback, <- Nat.add_assoc] at hone
          exact hone
        rw [hshift]
        congr 2
        show _ = 0 + (5 + (follow.length + 1) + written.length) - 1
        omega
      covered := by
        refine ⟨[b0, b1 ||| 0x01, b2, b3] ++ (lead' :: follow) ++ written, ?_, ?_⟩
        · have hslice := slice?_of_append []
            ([b0, b1 ||| 0x01, b2, b3] ++ (lead' :: follow) ++ written)
            ([crc8 ([b0, b1 ||| 0x01, b2, b3] ++ (lead' :: follow) ++ written)] ++ body ++
              Codec.highFirst 2 (crc16 ([b0, b1 ||| 0x01, b2, b3] ++ (lead' :: follow) ++ written ++
                [crc8 ([b0, b1 ||| 0x01, b2, b3] ++ (lead' :: follow) ++ written)] ++ body)).toNat)
          rw [hfrontLength] at hslice
          have hsame : 0 + (5 + (follow.length + 1) + written.length) - 1 =
              ([] : Bytes).length + (4 + (follow.length + 1) + written.length) := by
            rw [length_nil]
            omega
          show slice? _ 0 (0 + (5 + (follow.length + 1) + written.length) - 1) = _
          rw [hsame]
          unfold rewritten
          simp only [append_assoc, nil_append] at hslice ⊢
          exact hslice
        · show (rewritten b0 b1 b2 b3 (lead' :: follow) written body)[
            0 + (5 + (follow.length + 1) + written.length) - 1]? = _
          have hsame : 0 + (5 + (follow.length + 1) + written.length) - 1 =
              ([b0, b1 ||| 0x01, b2, b3] ++ (lead' :: follow) ++ written).length := by
            rw [hfrontLength]
            omega
          unfold rewritten
          simp only []
          rw [hsame, append_assoc, append_assoc, getElem?_append_right (Nat.le_refl _),
            Nat.sub_self]
          rfl
      positive := ⟨hpos.left, hpos.right.left, by show 0 < 5 + _ + _; omega⟩ }

theorem getElem?_slice? {bytes part : Bytes} {start stop i : Nat}
    (h : slice? bytes start stop = some part) (hi : i < part.length) :
    part[i]? = bytes[start + i]? := by
  rcases slice?_eq_some h with ⟨hle, hlength, rfl⟩
  rw [length_take, length_drop] at hi
  rw [getElem?_take_of_lt (by omega), getElem?_drop]

theorem exists_slice? {bytes : Bytes} {start stop : Nat} (h : start <= stop)
    (hlength : stop <= bytes.length) : exists part, slice? bytes start stop = some part := by
  unfold slice?
  rw [if_pos ⟨h, hlength⟩]
  exact ⟨_, rfl⟩

theorem renumber_eq {frame written body : Bytes} {header number : Nat} {b0 b1 b2 b3 : UInt8}
    (sample : UInt64) (hheader : 5 + number <= header) (hlen : header + 2 <= frame.length)
    (h0 : frame[0]? = some b0) (h1 : frame[1]? = some b1) (h2 : frame[2]? = some b2)
    (h3 : frame[3]? = some b3) (hwritten : slice? frame (4 + number) (header - 1) = some written)
    (hbody : slice? frame header (frame.length - 2) = some body) :
    renumber frame header number sample =
      some (rewritten b0 b1 b2 b3 (writeNumber sample) written body) := by
  have hguard : ¬ (header < 5 + number ∨ frame.length < header + 2) := by omega
  unfold renumber
  rw [if_neg hguard, h0, h1, h2, h3, hwritten, hbody]
  rfl

theorem writtenAgain_rewritten {bytes written body audio : Bytes} {p : Nat} {info : Stream}
    {frame : Frame} {b0 b1 b2 b3 lead : UInt8} (sample : UInt64) (h : Header bytes frame.offset info
      { block := frame.samples, rate := frame.sampleRate, len := frame.header,
        number := frame.number } b0 b1 b2 b3 lead p)
    (hlength : 5 + frame.number + written.length = frame.header)
    (hwritten : forall i, i < written.length ->
      written[i]? = bytes[frame.offset + 4 + frame.number + i]?)
    (hbody : slice? audio frame.header (audio.length - 2) = some body) :
    exists head, WrittenAgain info frame audio sample
      (rewritten b0 b1 b2 b3 (writeNumber sample) written body) head := by
  rcases writeNumber_eq sample with ⟨shapeLead, follow, hshape, hcodedBytes⟩
  rcases readNumber_shaped hshape with ⟨hread, hfollow, hcoded⟩
  have hlist : exists lead' rest, writeNumber sample = lead' :: rest ∧ rest.length = follow ∧
      codedLen lead' = some (follow + 1) := by
    rw [hcodedBytes]
    unfold shaped
    refine ⟨_, _, rfl, ?_, hcoded⟩
    rw [length_map, length_reverse, length_range]
  rcases hlist with ⟨lead', rest, hbytes, hrest, hlead'⟩
  rw [<- hrest] at hlead'
  have hheader := @header_rewritten _ _ body _ _ _ _ _ _ _ _ _ _ _ h hlead' hlength hwritten
  rw [<- hbytes] at hheader
  have hat := headerAt_eq_some_iff.mpr ⟨_, _, _, _, _, _, hheader⟩
  have hnumberLength : (writeNumber sample).length = rest.length + 1 := by
    rw [hbytes, length_cons]
  generalize hfront : [b0, b1 ||| 0x01, b2, b3] ++ writeNumber sample ++ written = front
  have hfrontLength : front.length = 4 + (rest.length + 1) + written.length := by
    rw [<- hfront, length_append, length_append, hnumberLength]
    rfl
  have hout : rewritten b0 b1 b2 b3 (writeNumber sample) written body =
      (front ++ [crc8 front]) ++ body ++
        Codec.highFirst 2 (crc16 (front ++ [crc8 front] ++ body)).toNat := by
    unfold rewritten
    rw [hfront]
  have hcrcLength : (front ++ [crc8 front]).length = 5 + (rest.length + 1) + written.length := by
    rw [length_append, hfrontLength, length_singleton]
    omega
  have houtLength : (rewritten b0 b1 b2 b3 (writeNumber sample) written body).length - 2 =
      (front ++ [crc8 front]).length + body.length := by
    rw [hout, length_append, length_append, Codec.length_highFirst]
    omega
  refine ⟨_, ⟨hat, rfl, rfl, ?_, ?_, ?_, ?_, ?_, ?_, ?_⟩⟩
  · exact ⟨b1 ||| 0x01, rfl, or_one_and_one b1⟩
  · show readNumber (((rewritten b0 b1 b2 b3 (writeNumber sample) written body).drop 4).take
      (rest.length + 1)) = _
    have htake : ((rewritten b0 b1 b2 b3 (writeNumber sample) written body).drop 4).take
        (rest.length + 1) = writeNumber sample := by
      have hsplit : rewritten b0 b1 b2 b3 (writeNumber sample) written body =
          [b0, b1 ||| 0x01, b2, b3] ++ (writeNumber sample ++ (written ++ ([crc8 front] ++ (body ++
            Codec.highFirst 2 (crc16 (front ++ [crc8 front] ++ body)).toNat)))) := by
        rw [hout, <- hfront]
        simp only [append_assoc]
      rw [hsplit, drop_left' (show ([b0, b1 ||| 0x01, b2, b3] : Bytes).length = 4 from rfl),
        take_left' hnumberLength]
    rw [htake, hcodedBytes]
    exact hread
  · show rest.length + 1 <= 6
    omega
  · intro limit lead'' follow' hmem hlt
    have hle := hshape.shortest limit lead'' follow' hmem hlt
    show rest.length + 1 <= follow' + 1
    omega
  · refine ⟨body, hbody, ?_⟩
    show slice? _ (5 + (rest.length + 1) + written.length) _ = some body
    rw [houtLength, <- hcrcLength, hout]
    exact slice?_of_append _ _ _
  · rcases hheader.covered with ⟨part, hpart, hcrc⟩
    rw [Nat.zero_add] at hpart hcrc
    exact ⟨part, hpart, hcrc⟩
  · refine ⟨front ++ [crc8 front] ++ body, ?_, ?_⟩
    · have hslice := slice?_of_append [] (front ++ [crc8 front] ++ body)
        (Codec.highFirst 2 (crc16 (front ++ [crc8 front] ++ body)).toNat)
      rw [nil_append, <- hout, length_nil, Nat.zero_add, length_append] at hslice
      rw [houtLength]
      exact hslice
    · have hslice := slice?_of_append (front ++ [crc8 front] ++ body)
        (Codec.highFirst 2 (crc16 (front ++ [crc8 front] ++ body)).toNat) []
      rw [append_nil, <- hout, Codec.length_highFirst] at hslice
      rw [length_append] at hslice
      have hfull : (rewritten b0 b1 b2 b3 (writeNumber sample) written body).length =
          (front ++ [crc8 front]).length + body.length + 2 := by
        rw [hout, length_append, length_append, Codec.length_highFirst]
      rw [houtLength, hfull]
      exact hslice

/-- A frame of a file that has two bytes and more behind its header is written again as
the same audio; one that has not, whose checksums would overlap, is refused. -/
theorem renumber_keeps_audio {bytes : Bytes} {frame : Frame} (h : frame ∈ frames bytes)
    (sample : UInt64) :
    exists info, streaminfo bytes = some info ∧
      ((frame.header + 2 <= frame.len ∧ exists out head,
          renumber (frame.bytesIn bytes) frame.header frame.number sample = some out ∧
            WrittenAgain info frame (frame.bytesIn bytes) sample out head) ∨
        (frame.len < frame.header + 2 ∧
          renumber (frame.bytesIn bytes) frame.header frame.number sample = none)) := by
  rcases of_mem_frames h with ⟨info, hinfo, hat, hheaderLen, hlength⟩
  refine ⟨info, hinfo, ?_⟩
  have haudio : (frame.bytesIn bytes).length = frame.len := by
    unfold Frame.bytesIn
    rw [length_take, length_drop]
    omega
  by_cases hroom : frame.header + 2 <= frame.len
  · left
    refine ⟨hroom, ?_⟩
    rcases headerAt_eq_some_iff.mp hat with ⟨b0, b1, b2, b3, lead, p, hheader⟩
    rcases hheader.length_le with ⟨hnumber, hend, -⟩
    have hfive : 5 + frame.number <= frame.header := by
      have hfour : frame.offset + 4 + frame.number <= p := hnumber
      have hp : p + 1 <= frame.offset + frame.header := hend
      omega
    have hget : forall i, i < frame.len ->
        (frame.bytesIn bytes)[i]? = bytes[frame.offset + i]? := by
      intro i hi
      unfold Frame.bytesIn
      rw [getElem?_take_of_lt hi, getElem?_drop]
    have hwrittenThere : exists part,
        slice? (frame.bytesIn bytes) (4 + frame.number) (frame.header - 1) = some part :=
      exists_slice? (by omega) (by omega)
    have hbodyThere : exists part,
        slice? (frame.bytesIn bytes) frame.header ((frame.bytesIn bytes).length - 2) = some part :=
      exists_slice? (by omega) (by omega)
    rcases hwrittenThere with ⟨written, hwritten⟩
    rcases hbodyThere with ⟨body, hbody⟩
    have hcount := length_slice? hwritten
    have hsame : forall i, i < written.length ->
        written[i]? = bytes[frame.offset + 4 + frame.number + i]? := by
      intro i hi
      rw [getElem?_slice? hwritten hi, hget _ (by omega)]
      congr 1
      omega
    rcases writtenAgain_rewritten sample hheader (by omega) hsame hbody with ⟨head, hagain⟩
    refine ⟨_, head, ?_, hagain⟩
    apply renumber_eq sample hfive (by omega)
    · rw [hget 0 (by omega)]
      exact hheader.first
    · rw [hget 1 (by omega)]
      exact hheader.second
    · rw [hget 2 (by omega)]
      exact hheader.third
    · rw [hget 3 (by omega)]
      exact hheader.fourth
    · exact hwritten
    · exact hbody
  · right
    refine ⟨Nat.not_le.mp hroom, ?_⟩
    unfold renumber
    rw [if_pos (Or.inr (by omega))]

/-- A file with one block of metadata, for 44.1 kHz in stereo, and some audio. -/
def fileOf (audio : Bytes) : Bytes :=
  magic ++ [0x80, 0, 0, 34] ++ List.replicate 10 0 ++ [0x0A, 0xC4, 0x42, 0xF0, 0, 0, 0, 0] ++
    List.replicate 16 0 ++ audio

def shortAudio : Bytes :=
  [0xFF, 0xF8, 0xC9, 0xA8, 0x00, 0x8D, 0x01, 0x02, 0x03, 0x04, 0x8D, 0xB5]

set_option maxRecDepth 8000 in
theorem renumber_keeps_audio_short :
    exists info out head, streaminfo (fileOf shortAudio) = some info ∧
      renumber shortAudio 6 1 300 = some out ∧
        WrittenAgain info ⟨42, 12, 4096, 44100, 6, 1⟩ shortAudio 300 out head := by
  have hbytes : Frame.bytesIn ⟨42, 12, 4096, 44100, 6, 1⟩ (fileOf shortAudio) = shortAudio := by
    decide
  have hframe : ⟨42, 12, 4096, 44100, 6, 1⟩ ∈ frames (fileOf shortAudio) := by
    decide
  rcases renumber_keeps_audio hframe 300 with
    ⟨info, hinfo, ⟨-, out, head, hout, hagain⟩ | ⟨hshort, -⟩⟩
  · rw [hbytes] at hout hagain
    exact ⟨info, out, head, hinfo, hout, hagain⟩
  · exact absurd hshort (by decide)

/-- Two headers whose last two bytes are the checksum of the four before them: the first
is found to be a frame of nothing but its header, which cannot be written again. -/
def crowdedAudio : Bytes :=
  [0xFF, 0xF8, 0x34, 0xAE, 0x3B, 0xAF, 0xFF, 0xF8, 0x34, 0xAE, 0x3B, 0xAF]

set_option maxRecDepth 8000 in
theorem not_every_frame_is_written_again :
    ¬ forall (bytes : Bytes) (frame : Frame) (sample : UInt64), frame ∈ frames bytes ->
      exists out, renumber (frame.bytesIn bytes) frame.header frame.number sample = some out := by
  intro hall
  have hframe : ⟨42, 6, 1152, 8000, 6, 1⟩ ∈ frames (fileOf crowdedAudio) := by
    decide
  rcases hall (fileOf crowdedAudio) _ 0 hframe with ⟨out, hout⟩
  have hnone : renumber (Frame.bytesIn ⟨42, 6, 1152, 8000, 6, 1⟩ (fileOf crowdedAudio)) 6 1 0 =
      none := by
    decide
  rw [hnone] at hout
  cases hout

end Flac
end Rabbithole.Radio
