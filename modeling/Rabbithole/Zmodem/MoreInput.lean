import Rabbithole.Zmodem.Headers

/-!
# More input changes no verdict

A decoder that has not asked for more answers the same to any longer input, but for optional
bytes behind the frame.  So a frame that was cut before its last byte that matters is always
incomplete, and what a line brings does not depend on how it cuts it up.
-/

namespace Rabbithole.Zmodem

open Foundation List

variable {input body : Bytes} {wide : Bool} {count i : Nat} {d : DecodedHeader}

theorem length_of_drop {behind : Bytes} {n : Nat} {b : UInt8} (h : input.drop n = b :: behind) :
    input.length = n + (behind.length + 1) := by
  have hlength := congrArg List.length h
  rw [length_drop, length_cons] at hlength
  omega

theorem takeWhile_append_of_lt {p : UInt8 -> Bool} (h : (input.takeWhile p).length < input.length)
    (rest : Bytes) : (input ++ rest).takeWhile p = input.takeWhile p := by
  rw [takeWhile_append, if_neg (Nat.ne_of_lt h)]

theorem decodeOne_append (h : decodeOne input ≠ .error .incomplete) (rest : Bytes) :
    decodeOne (input ++ rest) = decodeOne input := by
  unfold decodeOne at h ⊢
  dsimp only at h ⊢
  cases hdrop : input.drop (input.takeWhile isNoise).length with
  | nil =>
      rw [hdrop] at h
      exact absurd rfl h
  | cons b behind =>
      have hlength := length_of_drop hdrop
      rw [takeWhile_append_of_lt (by omega) rest,
        drop_append_of_le_length (by omega), hdrop, cons_append]
      rw [hdrop] at h
      dsimp only at h ⊢
      split
      · rename_i hzdle
        rw [if_pos hzdle] at h
        cases behind with
        | nil => exact absurd rfl h
        | cons code behind => rfl
      · rfl

theorem readEscaped_append {error : Type} {ofZdle : ZdleError -> error} {frameEnd cancelled : error}
    (h : readEscaped ofZdle frameEnd cancelled count input ≠ .error (ofZdle .incomplete))
    (rest : Bytes) :
    readEscaped ofZdle frameEnd cancelled count (input ++ rest) =
      readEscaped ofZdle frameEnd cancelled count input := by
  induction count generalizing input with
  | zero => rfl
  | succ count ih =>
      unfold readEscaped at h ⊢
      have hone : decodeOne input ≠ .error .incomplete := by
        intro hnone
        rw [hnone] at h
        exact h rfl
      rw [decodeOne_append hone rest]
      cases hitem : decodeOne input with
      | error e => rfl
      | ok found =>
          rcases found with ⟨item, used⟩
          rw [hitem] at h
          cases item with
          | frameEnd frameEnd => rfl
          | cancel => rfl
          | byte b =>
              dsimp only at h ⊢
              rw [drop_append_of_le_length (decodeOne_used hitem).right, ih]
              intro hnone
              rw [hnone] at h
              exact h rfl

theorem readPayload_append {room : Nat} (h : readPayload room input ≠ .error .incomplete)
    (rest : Bytes) : readPayload room (input ++ rest) = readPayload room input := by
  induction room generalizing input with
  | zero =>
      unfold readPayload at h ⊢
      have hone : decodeOne input ≠ .error .incomplete := by
        intro hnone
        rw [hnone] at h
        exact h rfl
      rw [decodeOne_append hone rest]
  | succ room ih =>
      unfold readPayload at h ⊢
      have hone : decodeOne input ≠ .error .incomplete := by
        intro hnone
        rw [hnone] at h
        exact h rfl
      rw [decodeOne_append hone rest]
      cases hitem : decodeOne input with
      | error e => rfl
      | ok found =>
          rcases found with ⟨item, used⟩
          rw [hitem] at h
          cases item with
          | frameEnd frameEnd => rfl
          | cancel => rfl
          | byte b =>
              dsimp only at h ⊢
              rw [drop_append_of_le_length (decodeOne_used hitem).right, ih]
              intro hnone
              rw [hnone] at h
              exact h rfl

theorem readPayload_used {room : Nat} {payload : Bytes} {frameEnd : FrameEnd} {used : Nat}
    (h : readPayload room input = .ok (payload, frameEnd, used)) : used <= input.length := by
  induction room generalizing input payload used with
  | zero =>
      unfold readPayload at h
      cases hitem : decodeOne input with
      | error e =>
          rw [hitem] at h
          cases h
      | ok found =>
          rcases found with ⟨item, count⟩
          rw [hitem] at h
          cases item with
          | byte b | cancel => cases h
          | frameEnd frameEnd =>
              cases h
              exact (decodeOne_used hitem).right
  | succ room ih =>
      unfold readPayload at h
      cases hitem : decodeOne input with
      | error e =>
          rw [hitem] at h
          cases h
      | ok found =>
          rcases found with ⟨item, count⟩
          have hcount := (decodeOne_used hitem).right
          rw [hitem] at h
          cases item with
          | cancel => cases h
          | frameEnd frameEnd =>
              cases h
              exact hcount
          | byte b =>
              dsimp only at h
              cases hmore : readPayload room (input.drop count) with
              | error e =>
                  rw [hmore] at h
                  cases h
              | ok found =>
                  rcases found with ⟨payload', frameEnd', more⟩
                  rw [hmore] at h
                  cases h
                  have hrest := ih hmore
                  rw [length_drop] at hrest
                  omega

theorem readEscaped_used {error : Type} {ofZdle : ZdleError -> error} {frameEnd cancelled : error}
    {data : Bytes} {used : Nat}
    (h : readEscaped ofZdle frameEnd cancelled count input = .ok (data, used)) :
    used <= input.length := by
  induction count generalizing input data used with
  | zero =>
      cases h
      exact Nat.zero_le _
  | succ count ih =>
      unfold readEscaped at h
      cases hitem : decodeOne input with
      | error e =>
          rw [hitem] at h
          cases h
      | ok found =>
          rcases found with ⟨item, one⟩
          have hone := (decodeOne_used hitem).right
          rw [hitem] at h
          cases item with
          | cancel | frameEnd frameEnd => cases h
          | byte b =>
              dsimp only at h
              cases hmore : readEscaped ofZdle frameEnd cancelled count (input.drop one) with
              | error e =>
                  rw [hmore] at h
                  cases h
              | ok found =>
                  rcases found with ⟨data', more⟩
                  rw [hmore] at h
                  cases h
                  have hrest := ih hmore
                  rw [length_drop] at hrest
                  omega

/-!
## Subpackets
-/

/-- The same subpacket, with optional bytes behind it. -/
def DecodedSubpacket.withMore (d : DecodedSubpacket) (extra : Nat) : DecodedSubpacket :=
  { d with consumed := d.consumed + extra }

theorem decodeSubpacket_consumed {d : DecodedSubpacket} (h : decodeSubpacket input wide = .ok d) :
    d.consumed <= input.length := by
  unfold decodeSubpacket at h
  cases hpayload : readPayload maxDecodePayload input with
  | error e =>
      rw [hpayload] at h
      cases h
  | ok found =>
      rcases found with ⟨payload, frameEnd, i⟩
      have hi := readPayload_used hpayload
      rw [hpayload] at h
      dsimp only at h
      cases hcrc : readEscaped SubpacketError.ofZdle (.zdle .unexpectedFrameEnd) .cancelled
          (crcLen wide) (input.drop i) with
      | error e =>
          rw [hcrc] at h
          cases h
      | ok found =>
          rcases found with ⟨crc, used⟩
          have hused := readEscaped_used hcrc
          rw [length_drop] at hused
          rw [hcrc] at h
          dsimp only at h
          split at h
          · cases h
          · split at h
            · rename_i hxon
              have hlt := (List.getElem?_eq_some_iff.mp hxon.right).fst
              cases h
              exact hlt
            · cases h
              show i + used <= input.length
              omega

/--
A subpacket that was judged is judged the same with more input behind it.  What it takes of
that is the flow control that follows the last subpacket of a frame.
-/
theorem decodeSubpacket_append (h : decodeSubpacket input wide ≠ .error .incomplete)
    (rest : Bytes) :
    exists extra, decodeSubpacket (input ++ rest) wide =
        (decodeSubpacket input wide).map (fun d => d.withMore extra) ∧
      (extra = 0 ∨ (extra = 1 ∧ rest.head? = some xon ∧
        forall d, decodeSubpacket input wide = .ok d ->
          d.frameEnd = .zcrcw ∧ d.consumed = input.length)) := by
  unfold decodeSubpacket at h ⊢
  have hread : readPayload maxDecodePayload input ≠ .error .incomplete := by
    intro hnone
    rw [hnone] at h
    exact h rfl
  rw [readPayload_append hread rest]
  cases hpayload : readPayload maxDecodePayload input with
  | error e => exact ⟨0, rfl, Or.inl rfl⟩
  | ok found =>
      rcases found with ⟨payload, frameEnd, i⟩
      have hi := readPayload_used hpayload
      rw [hpayload] at h
      dsimp only at h ⊢
      have hchecked : readEscaped SubpacketError.ofZdle (.zdle .unexpectedFrameEnd) .cancelled
          (crcLen wide) (input.drop i) ≠ .error .incomplete := by
        intro hnone
        rw [hnone] at h
        exact h rfl
      rw [drop_append_of_le_length hi, readEscaped_append hchecked rest]
      cases hcrc : readEscaped SubpacketError.ofZdle (.zdle .unexpectedFrameEnd) .cancelled
          (crcLen wide) (input.drop i) with
      | error e => exact ⟨0, rfl, Or.inl rfl⟩
      | ok found =>
          rcases found with ⟨crc, used⟩
          have hused := readEscaped_used hcrc
          rw [length_drop] at hused
          dsimp only
          split
          · exact ⟨0, rfl, Or.inl rfl⟩
          · rcases Nat.lt_or_ge (i + used) input.length with hinside | hbehind
            · -- the byte behind the checksum was seen
              rw [getElem?_append_left hinside]
              refine ⟨0, ?_, Or.inl rfl⟩
              split
              · rfl
              · rfl
            · have hall : i + used = input.length := by omega
              have hunseen : ¬ (frameEnd = .zcrcw ∧ input[input.length]? = some xon) := by
                intro hxon
                exact Nat.lt_irrefl _ (List.getElem?_eq_some_iff.mp hxon.right).fst
              rw [List.getElem?_append_right hbehind, hall, Nat.sub_self,
                ← head?_eq_getElem?, if_neg hunseen]
              by_cases hxon : frameEnd = .zcrcw ∧ rest.head? = some xon
              · rw [if_pos hxon]
                refine ⟨1, rfl, Or.inr ⟨rfl, hxon.right, ?_⟩⟩
                intro d hd
                cases hd
                exact ⟨hxon.left, rfl⟩
              · rw [if_neg hxon]
                exact ⟨0, rfl, Or.inl rfl⟩

/-- The bytes of a subpacket that are not its trailer of flow control. -/
def subpacketMandatory (wire : Bytes) (frameEnd : FrameEnd) : Nat :=
  if frameEnd = .zcrcw then wire.length - 1 else wire.length

theorem decodeSubpacket_take {payload : Bytes} {frameEnd : FrameEnd} {escaper escaper' : Escaper}
    {wire : Bytes} (h : encodeSubpacketWith payload frameEnd wide escaper = .ok (wire, escaper'))
    {n : Nat} (hn : n < subpacketMandatory wire frameEnd) :
    decodeSubpacket (wire.take n) wide = .error .incomplete := by
  have hle : subpacketMandatory wire frameEnd <= wire.length := by
    unfold subpacketMandatory
    split
    · exact Nat.sub_le _ 1
    · exact Nat.le_refl _
  have hlength : (wire.take n).length = n := length_take_of_le (by omega)
  have hwhole := decodeSubpacket_encodeSubpacketWith h []
  rw [append_nil] at hwhole
  apply Classical.byContradiction
  intro hjudged
  rcases decodeSubpacket_append hjudged (wire.drop n) with ⟨extra, hmore, hextra⟩
  rw [take_append_drop, hwhole] at hmore
  cases hcut : decodeSubpacket (wire.take n) wide with
  | error e =>
      rw [hcut] at hmore
      cases hmore
  | ok d =>
      have hconsumed := decodeSubpacket_consumed hcut
      rw [hcut] at hmore hextra
      rw [hlength] at hconsumed hextra
      have hsame := Except.ok.inj hmore
      have hend : frameEnd = d.frameEnd := congrArg DecodedSubpacket.frameEnd hsame
      have hcount : wire.length = d.consumed + extra := congrArg DecodedSubpacket.consumed hsame
      rcases hextra with hnone | ⟨hone, _, hlast⟩
      · omega
      · rcases hlast d rfl with ⟨hzcrcw, hall⟩
        unfold subpacketMandatory at hn
        rw [if_pos (hend.trans hzcrcw)] at hn
        omega

/-!
## Frames of data on the line
-/

/-- `stream_data` from its start on: full subpackets, the last of which ends the frame. -/
def streamRest (wide : Bool) (rest : Bytes) : Except SubpacketError Bytes :=
  if rest.length <= maxPayload then encodeSubpacket rest .zcrce wide
  else do
    let wire <- encodeSubpacket (rest.take maxPayload) .zcrcg wide
    return wire ++ (<- streamRest wide (rest.drop maxPayload))
termination_by rest.length
decreasing_by
  rw [length_drop]
  unfold maxPayload at *
  omega

def streamData (wide : Bool) (bytes : Bytes) (start : UInt32) : Except SubpacketError Bytes :=
  streamRest wide (bytes.drop (min start.toNat bytes.length))

/-- More of the line is read as long as a subpacket is incomplete. -/
def nextSubpacket (wide : Bool) (buf : Bytes) (reads : List Bytes) :
    Except SubpacketError (DecodedSubpacket × Bytes × List Bytes) :=
  match decodeSubpacket buf wide with
  | .ok sub => .ok (sub, buf.drop sub.consumed, reads)
  | .error .incomplete =>
      match reads with
      | [] => .error .incomplete
      | read :: reads => nextSubpacket wide (buf ++ read) reads
  | .error e => .error e
termination_by reads

/-- What the receiver is handed until the frame ends. -/
def readFrame (wide : Bool) : Nat -> Bytes -> List Bytes ->
    Except SubpacketError (Bytes × Bytes × List Bytes)
  | 0, _, _ => .error .incomplete
  | fuel + 1, buf, reads => do
      let (sub, buf, reads) <- nextSubpacket wide buf reads
      if sub.frameEnd = .zcrce ∨ sub.frameEnd = .zcrcw then return (sub.payload, buf, reads)
      let (data, left) <- readFrame wide fuel buf reads
      return (sub.payload ++ data, left)

theorem encodeSubpacket_ok {payload : Bytes} (h : payload.length <= maxPayload)
    (frameEnd : FrameEnd) : exists wire escaper,
      encodeSubpacketWith payload frameEnd wide Escaper.new = .ok (wire, escaper) ∧
        encodeSubpacket payload frameEnd wide = .ok wire := by
  rcases encodeSubpacketWith_ok h frameEnd wide Escaper.new with ⟨wire, escaper, hwire⟩
  exact ⟨wire, escaper, hwire, by rw [encodeSubpacket, hwire]; rfl⟩

/-- However much of the line has been read before. -/
theorem nextSubpacket_line {payload wire suffix buf : Bytes} {frameEnd : FrameEnd}
    {reads : List Bytes} {escaper escaper' : Escaper}
    (h : encodeSubpacketWith payload frameEnd wide escaper = .ok (wire, escaper'))
    (hend : frameEnd ≠ .zcrcw) (hline : buf ++ reads.flatten = wire ++ suffix) :
    exists left later, nextSubpacket wide buf reads =
      .ok (⟨payload, frameEnd, wire.length⟩, left, later) ∧ left ++ later.flatten = suffix := by
  induction reads generalizing buf with
  | nil =>
      rw [flatten_nil, append_nil] at hline
      rw [nextSubpacket, hline, decodeSubpacket_encodeSubpacketWith h]
      exact ⟨_, _, rfl, by simp⟩
  | cons read reads ih =>
      rcases Nat.lt_or_ge buf.length wire.length with hshort | hlong
      · have hcut := congrArg (take buf.length) hline
        rw [take_left, take_append_of_le_length (Nat.le_of_lt hshort)] at hcut
        have hn : buf.length < subpacketMandatory wire frameEnd := by
          rwa [subpacketMandatory, if_neg hend]
        rw [nextSubpacket, hcut, decodeSubpacket_take h hn, <- hcut]
        exact ih (by rw [append_assoc]; exact hline)
      · rcases prefix_of_prefix_length_le ⟨suffix, hline.symm⟩ ⟨_, rfl⟩ hlong with ⟨left, rfl⟩
        rw [append_assoc, append_right_inj] at hline
        rw [nextSubpacket, decodeSubpacket_encodeSubpacketWith h]
        exact ⟨left, _, by simp, hline⟩

theorem readFrame_streamRest (rest : Bytes) : exists wire, streamRest wide rest = .ok wire ∧
    forall fuel suffix buf reads, rest.length <= fuel -> buf ++ reads.flatten = wire ++ suffix ->
      exists left later, readFrame wide (fuel + 1) buf reads = .ok (rest, left, later) ∧
        left ++ later.flatten = suffix := by
  have hfull : (rest.take maxPayload).length <= maxPayload := length_take_le _ _
  fun_induction streamRest wide rest with
  | case1 rest hlast =>
      rcases encodeSubpacket_ok hlast .zcrce with ⟨wire, escaper, hwith, hwire⟩
      refine ⟨wire, hwire, ?_⟩
      intro fuel suffix buf reads hfuel hline
      rcases nextSubpacket_line hwith nofun hline with ⟨left, later, hnext, hrest⟩
      exact ⟨left, later, by rw [readFrame, hnext]; rfl, hrest⟩
  | case2 rest hmore ih =>
      rcases encodeSubpacket_ok hfull .zcrcg with ⟨wire, escaper, hwith, hwire⟩
      rcases ih (length_take_le _ _) with ⟨behind, hbehind, hread⟩
      refine ⟨wire ++ behind, by rw [hwire, hbehind]; rfl, ?_⟩
      intro fuel suffix buf reads hfuel hline
      rw [append_assoc] at hline
      rcases nextSubpacket_line hwith nofun hline with ⟨left, later, hnext, hrest⟩
      cases fuel with
      | zero => exact absurd (hfuel.trans (Nat.zero_le _)) hmore
      | succ fuel =>
          have hless : (rest.drop maxPayload).length <= fuel := by
            unfold maxPayload
            grind
          rcases hread fuel suffix left later hless hrest with ⟨left, later, hframe, hrest⟩
          refine ⟨left, later, ?_, hrest⟩
          rw [readFrame, hnext]
          simp [bind, Except.bind, hframe, pure, Except.pure]

/-- The file from the start on is read as it was sent, in whatever pieces the line brings it. -/
theorem readFrame_streamData (wide : Bool) (bytes : Bytes) (start : UInt32) :
    exists wire, streamData wide bytes start = .ok wire ∧
      forall suffix buf reads, buf ++ reads.flatten = wire ++ suffix -> exists left later,
        readFrame wide (bytes.length + 1) buf reads = .ok (bytes.drop start.toNat, left, later) ∧
          left ++ later.flatten = suffix := by
  rcases readFrame_streamRest (bytes.drop start.toNat) with ⟨wire, hwire, hread⟩
  refine ⟨wire, ?_, fun suffix buf reads => hread _ suffix buf reads (by simp)⟩
  unfold streamData
  grind [drop_eq_nil_iff]

theorem readFrame_streamData_pieces : exists wire, streamData true [24, 42] 1 = .ok wire ∧
    exists left later, readFrame true 3 [] [wire.take 3, wire.drop 3] = .ok ([42], left, later) ∧
      left ++ later.flatten = [] := by
  rcases readFrame_streamData true [24, 42] 1 with ⟨wire, hwire, hread⟩
  exact ⟨wire, hwire, hread [] [] _ (by simp)⟩

/-!
## Headers
-/

/-- The same header, with optional bytes behind it. -/
def DecodedHeader.withMore (d : DecodedHeader) (extra : Nat) : DecodedHeader :=
  { d with consumed := d.consumed + extra }

theorem readHex_append (h : readHex count input ≠ .error .incomplete) (more : Bytes) :
    readHex count (input ++ more) =
      (readHex count input).map (fun found => (found.fst, found.snd ++ more)) := by
  induction count generalizing input with
  | zero => rfl
  | succ count ih =>
      cases input with
      | nil => exact absurd rfl h
      | cons high input =>
          rw [cons_append]
          unfold readHex at h ⊢
          cases hhigh : hexValue high with
          | error e => rfl
          | ok hi =>
              rw [hhigh] at h
              dsimp only at h ⊢
              cases input with
              | nil => exact absurd rfl h
              | cons low input =>
                  rw [cons_append]
                  dsimp only at h ⊢
                  cases hlow : hexValue low with
                  | error e => rfl
                  | ok lo =>
                      rw [hlow] at h
                      dsimp only at h ⊢
                      have hrest : readHex count input ≠ .error .incomplete := by
                        intro hnone
                        rw [hnone] at h
                        exact h rfl
                      rw [ih hrest]
                      cases readHex count input with
                      | error e | ok found => rfl

theorem readHex_used {bytes rest : Bytes} (h : readHex count input = .ok (bytes, rest)) :
    input.length = 2 * count + rest.length := by
  induction count generalizing input bytes with
  | zero =>
      cases h
      exact (Nat.zero_add _).symm
  | succ count ih =>
      cases input with
      | nil => cases h
      | cons high input =>
          unfold readHex at h
          cases hhigh : hexValue high with
          | error e =>
              rw [hhigh] at h
              cases h
          | ok hi =>
              rw [hhigh] at h
              dsimp only at h
              cases input with
              | nil => cases h
              | cons low input =>
                  dsimp only at h
                  cases hlow : hexValue low with
                  | error e =>
                      rw [hlow] at h
                      cases h
                  | ok lo =>
                      rw [hlow] at h
                      dsimp only at h
                      cases hmore : readHex count input with
                      | error e =>
                          rw [hmore] at h
                          cases h
                      | ok found =>
                          rw [hmore] at h
                          cases h
                          have hinput := ih hmore
                          rw [length_cons, length_cons]
                          omega

theorem skipTrailer_le (expected : List Bytes) (input : Bytes) :
    skipTrailer expected input <= input.length := by
  induction expected generalizing input with
  | nil => exact Nat.zero_le _
  | cons bytes expected ih =>
      cases input with
      | nil => exact Nat.le_refl _
      | cons b input =>
          unfold skipTrailer
          rw [length_cons]
          split
          · have hle := ih input
            omega
          · exact ih (b :: input)

theorem mem_take_skipTrailer {expected : List Bytes} {b : UInt8}
    (h : b ∈ input.take (skipTrailer expected input)) : b ∈ expected.flatten := by
  induction expected generalizing input with
  | nil => exact absurd h not_mem_nil
  | cons bytes expected ih =>
      rw [flatten_cons]
      cases input with
      | nil => exact absurd h not_mem_nil
      | cons first input =>
          unfold skipTrailer at h
          split at h
          · rename_i hfirst
            rw [Nat.add_comm 1, take_succ_cons] at h
            rcases mem_cons.mp h with hb | hmore
            · rw [hb]
              exact mem_append_left _ hfirst
            · exact mem_append_right _ (ih hmore)
          · exact mem_append_right _ (ih h)

theorem skipTrailer_append (expected : List Bytes) (input more : Bytes) :
    exists extra, skipTrailer expected (input ++ more) = skipTrailer expected input + extra ∧
      (extra = 0 ∨ skipTrailer expected input = input.length) := by
  induction expected generalizing input with
  | nil => exact ⟨0, rfl, Or.inl rfl⟩
  | cons bytes expected ih =>
      cases input with
      | nil => exact ⟨_, (Nat.zero_add _).symm, Or.inr rfl⟩
      | cons b input =>
          rw [cons_append]
          unfold skipTrailer
          split
          · rcases ih input with ⟨extra, hmore, hextra⟩
            refine ⟨extra, by rw [hmore, Nat.add_assoc], ?_⟩
            rw [length_cons]
            omega
          · exact ih (b :: input)

theorem finishHeader_add (raw : Bytes) (format : HeaderFormat) (consumed extra : Nat) :
    finishHeader raw format (consumed + extra) =
      (finishHeader raw format consumed).map (fun d => d.withMore extra) := by
  unfold finishHeader
  cases FrameType.fromByte (raw.headD 0) with
  | none => rfl
  | some frameType => rfl

theorem finishHeader_ok {raw : Bytes} {format : HeaderFormat} {consumed : Nat}
    (h : finishHeader raw format consumed = .ok d) : d.format = format ∧ d.consumed = consumed := by
  unfold finishHeader at h
  split at h
  · cases h
  · cases h
    exact ⟨rfl, rfl⟩

def trailerBytes : List Bytes :=
  [[0x0D, 0x8D], [0x0A, 0x8A], [xon]]

theorem decodeHexBody_consumed (h : decodeHexBody body i = .ok d) :
    d.consumed <= i + body.length := by
  unfold decodeHexBody at h
  cases hread : readHex 7 body with
  | error e =>
      rw [hread] at h
      cases h
  | ok found =>
      rcases found with ⟨raw, rest⟩
      have hlength := readHex_used hread
      have htrailer := skipTrailer_le trailerBytes rest
      unfold trailerBytes at htrailer
      rw [hread] at h
      dsimp only at h
      split at h
      · cases h
      · rw [(finishHeader_ok h).right]
        omega

theorem decodeBinBody_consumed (h : decodeBinBody body i wide = .ok d) :
    d.consumed <= i + body.length := by
  unfold decodeBinBody at h
  cases hread : readEscaped HeaderError.ofZdle .unexpectedFrameEnd .cancelled (5 + crcLen wide)
      body with
  | error e =>
      rw [hread] at h
      cases h
  | ok found =>
      rcases found with ⟨raw, used⟩
      have hused := readEscaped_used hread
      rw [hread] at h
      dsimp only at h
      split at h
      · cases h
      · rw [(finishHeader_ok h).right]
        omega

theorem decodeHexBody_append (h : decodeHexBody body i ≠ .error .incomplete) (more : Bytes) :
    exists extra, decodeHexBody (body ++ more) i =
        (decodeHexBody body i).map (fun d => d.withMore extra) ∧
      (extra = 0 ∨ (extra <= more.length ∧
        (forall b, b ∈ more.take extra -> b ∈ trailerBytes.flatten) ∧
        forall d, decodeHexBody body i = .ok d ->
          d.format = .hex ∧ d.consumed = i + body.length)) := by
  unfold decodeHexBody at h ⊢
  have hhex : readHex 7 body ≠ .error .incomplete := by
    intro hnone
    rw [hnone] at h
    exact h rfl
  rw [readHex_append hhex more]
  cases hread : readHex 7 body with
  | error e => exact ⟨0, rfl, Or.inl rfl⟩
  | ok found =>
      rcases found with ⟨raw, rest⟩
      have hlength := readHex_used hread
      dsimp only [Except.map]
      split
      · exact ⟨0, rfl, Or.inl rfl⟩
      · rcases skipTrailer_append trailerBytes rest more with ⟨extra, hmore, hextra⟩
        have hle := skipTrailer_le trailerBytes (rest ++ more)
        have htaken : forall b,
            b ∈ (rest ++ more).take (skipTrailer trailerBytes (rest ++ more)) ->
              b ∈ trailerBytes.flatten := fun b => mem_take_skipTrailer
        rw [hmore] at htaken hle
        unfold trailerBytes at hmore hextra hle htaken ⊢
        rw [hmore, ← Nat.add_assoc, finishHeader_add]
        refine ⟨extra, rfl, ?_⟩
        rcases hextra with hnone | hall
        · exact Or.inl hnone
        · rw [hall, length_append] at hle
          rw [hall, take_length_add_append] at htaken
          refine Or.inr ⟨by omega, fun b hb => htaken b (mem_append_right _ hb), ?_⟩
          intro d hd
          rcases finishHeader_ok hd with ⟨hformat, hconsumed⟩
          exact ⟨hformat, by omega⟩

theorem decodeBinBody_append (h : decodeBinBody body i wide ≠ .error .incomplete) (more : Bytes) :
    decodeBinBody (body ++ more) i wide = decodeBinBody body i wide := by
  unfold decodeBinBody at h ⊢
  rw [readEscaped_append]
  intro hnone
  rw [hnone] at h
  exact h rfl

theorem unchanged_withMore (verdict : Except HeaderError DecodedHeader) :
    verdict = verdict.map (fun d => d.withMore 0) := by
  cases verdict with
  | error e => rfl
  | ok d => rfl

theorem decodeHeader_consumed (h : decodeHeader input = .ok d) : d.consumed <= input.length := by
  cases input with
  | nil => cases h
  | cons first input =>
      unfold decodeHeader at h
      dsimp only at h
      split at h
      · cases h
      · generalize hpads : ((first :: input).takeWhile (fun b => b == zpad)).length = pads at h
        cases hdrop : (first :: input).drop pads with
        | nil =>
            rw [hdrop] at h
            cases h
        | cons b rest =>
            have hlength := length_of_drop hdrop
            rw [hdrop] at h
            dsimp only at h
            split at h
            · cases h
            · cases rest with
              | nil => cases h
              | cons format body =>
                  rw [@List.length_cons _ format body] at hlength
                  dsimp only at h
                  split at h
                  · have hconsumed := decodeHexBody_consumed h
                    omega
                  · split at h
                    · have hconsumed := decodeBinBody_consumed h
                      omega
                    · split at h
                      · have hconsumed := decodeBinBody_consumed h
                        omega
                      · cases h

/--
A header that was judged is judged the same with more input behind it.  What it takes of
that is the trailer of a hex header.
-/
theorem decodeHeader_append (h : decodeHeader input ≠ .error .incomplete) (more : Bytes) :
    exists extra, decodeHeader (input ++ more) =
        (decodeHeader input).map (fun d => d.withMore extra) ∧
      (extra = 0 ∨ (extra <= more.length ∧
        (forall b, b ∈ more.take extra -> b ∈ trailerBytes.flatten) ∧
        forall d, decodeHeader input = .ok d ->
          d.format = .hex ∧ d.consumed = input.length)) := by
  cases input with
  | nil => exact absurd rfl h
  | cons first input =>
      rw [cons_append]
      unfold decodeHeader at h ⊢
      dsimp only at h ⊢
      split
      · exact ⟨0, rfl, Or.inl rfl⟩
      · rename_i hfirst
        rw [if_neg hfirst] at h
        rw [← cons_append]
        cases hdrop : (first :: input).drop
            ((first :: input).takeWhile (fun b => b == zpad)).length with
        | nil =>
            rw [hdrop] at h
            exact absurd rfl h
        | cons b rest =>
            have hlength := length_of_drop hdrop
            rw [takeWhile_append_of_lt (by omega) more,
              drop_append_of_le_length (by omega), hdrop, cons_append]
            rw [hdrop] at h
            generalize ((first :: input).takeWhile (fun b => b == zpad)).length = pads at *
            dsimp only at h ⊢
            split
            · exact ⟨0, rfl, Or.inl rfl⟩
            · rename_i hzdle
              rw [if_neg hzdle] at h
              cases rest with
              | nil => exact absurd rfl h
              | cons format body =>
                  rw [@List.length_cons _ format body] at hlength
                  rw [cons_append]
                  dsimp only at h ⊢
                  split
                  · rename_i hformat
                    rw [if_pos hformat] at h
                    rcases decodeHexBody_append h more with ⟨extra, hmore, hextra⟩
                    have htotal : pads + 2 + body.length = (first :: input).length := by omega
                    rw [htotal] at hextra
                    exact ⟨extra, hmore, hextra⟩
                  · rename_i hhex
                    rw [if_neg hhex] at h
                    split
                    · rename_i hformat
                      rw [if_pos hformat] at h
                      rw [decodeBinBody_append h more]
                      exact ⟨0, unchanged_withMore _, Or.inl rfl⟩
                    · rename_i hbin
                      rw [if_neg hbin] at h
                      split
                      · rename_i hformat
                        rw [if_pos hformat] at h
                        rw [decodeBinBody_append h more]
                        exact ⟨0, unchanged_withMore _, Or.inl rfl⟩
                      · exact ⟨0, rfl, Or.inl rfl⟩

theorem hexDigit_not_trailer (nibble : UInt8) : hexDigit nibble ∉ trailerBytes.flatten := by
  have hall : forall n : Fin 16, hexDigits.getD n.val 0 ∉ trailerBytes.flatten := by
    decide
  have hlt : (nibble &&& 0x0F).toNat < 16 := by
    rw [toNat_low]
    exact Nat.mod_lt _ (by decide)
  exact hall ⟨(nibble &&& 0x0F).toNat, hlt⟩

theorem lastDigit_encodeHex (h : Header) :
    exists digit, h.encodeHex[17]? = some digit ∧ digit ∉ trailerBytes.flatten := by
  unfold Header.encodeHex
  generalize hdigits : (h.bodyBytes ++ crcBytes false h.bodyBytes).flatMap hexByte = digits
  have hlength : digits.length = 14 := by
    rw [← hdigits, length_flatMap_hexByte, length_append, length_bodyBytes, length_crcBytes]
    rfl
  have hinside : 13 < digits.length := by omega
  have hlast := getElem?_eq_getElem hinside
  generalize digits[13] = digit at hlast
  refine ⟨digit, ?_, ?_⟩
  · rw [append_assoc, append_assoc, getElem?_append_right (by decide),
      getElem?_append_left (by rw [hlength]; decide)]
    exact hlast
  · have hmem := mem_of_getElem? hlast
    rw [← hdigits] at hmem
    rcases mem_flatMap.mp hmem with ⟨byte, _, hbyte⟩
    unfold hexByte at hbyte
    rw [mem_cons, mem_singleton] at hbyte
    rcases hbyte with hhigh | hlow
    · rw [hhigh]
      exact hexDigit_not_trailer _
    · rw [hlow]
      exact hexDigit_not_trailer _

theorem decodeHeader_take (h : Header) (format : HeaderFormat) {n : Nat}
    (hn : n < h.mandatory format) :
    decodeHeader ((h.encode format).take n) = .error .incomplete := by
  have hle := mandatory_le h format
  have hlength : ((h.encode format).take n).length = n := length_take_of_le (by omega)
  have hbehind : ((h.encode format).drop n).length = (h.encode format).length - n :=
    length_drop
  have hwhole := decodeHeader_encode h format []
  have hspare : h.spare format [] = 0 := if_neg (fun hxon => nomatch hxon.right.right)
  rw [append_nil, hspare, Nat.add_zero] at hwhole
  apply Classical.byContradiction
  intro hjudged
  rcases decodeHeader_append hjudged ((h.encode format).drop n) with ⟨extra, hmore, hextra⟩
  rw [take_append_drop, hwhole] at hmore
  cases hcut : decodeHeader ((h.encode format).take n) with
  | error e =>
      rw [hcut] at hmore
      cases hmore
  | ok d =>
      have hconsumed := decodeHeader_consumed hcut
      rw [hcut] at hmore hextra
      rw [hlength] at hconsumed hextra
      have hsame := Except.ok.inj hmore
      have hformat : format = d.format := congrArg DecodedHeader.format hsame
      have hcount : (h.encode format).length = d.consumed + extra :=
        congrArg DecodedHeader.consumed hsame
      rcases hextra with hnone | ⟨_, htrailer, hlast⟩
      · omega
      · rcases hlast d rfl with ⟨hhex, hall⟩
        rw [take_of_length_le (by omega)] at htrailer
        rw [hformat.trans hhex] at hn htrailer
        -- the cut is before the last digit, which would have to be of the trailer
        have hn : n < 18 := hn
        rcases lastDigit_encodeHex h with ⟨digit, hdigit, hnot⟩
        apply hnot
        apply htrailer
        apply mem_of_getElem? (i := 17 - n)
        rw [getElem?_drop, Nat.add_sub_of_le (by omega)]
        exact hdigit

/--
A verdict other than incomplete stands whatever follows: the same error, or the same subpacket
or header, which takes at most the optional trailer behind it.  What is cut before its last
byte outside that trailer is incomplete.
-/
theorem more_input_stands :
    (forall (input more : Bytes) (wide : Bool),
      decodeSubpacket input wide ≠ .error .incomplete ->
        exists extra, decodeSubpacket (input ++ more) wide =
            (decodeSubpacket input wide).map (fun d => d.withMore extra) ∧
          (extra = 0 ∨ (extra = 1 ∧ more.head? = some xon ∧
            forall d, decodeSubpacket input wide = .ok d ->
              d.frameEnd = .zcrcw ∧ d.consumed = input.length))) ∧
      (forall input more : Bytes, decodeHeader input ≠ .error .incomplete ->
        exists extra, decodeHeader (input ++ more) =
            (decodeHeader input).map (fun d => d.withMore extra) ∧
          (extra = 0 ∨ (extra <= more.length ∧
            (forall b, b ∈ more.take extra -> b ∈ trailerBytes.flatten) ∧
            forall d, decodeHeader input = .ok d ->
              d.format = .hex ∧ d.consumed = input.length))) ∧
      (forall (payload : Bytes) (frameEnd : FrameEnd) (wide : Bool) (escaper escaper' : Escaper)
        (wire : Bytes) (n : Nat),
        encodeSubpacketWith payload frameEnd wide escaper = .ok (wire, escaper') ->
          n < subpacketMandatory wire frameEnd ->
            decodeSubpacket (wire.take n) wide = .error .incomplete) ∧
      forall (h : Header) (format : HeaderFormat) (n : Nat), n < h.mandatory format ->
        decodeHeader ((h.encode format).take n) = .error .incomplete := by
  refine ⟨?_, ?_, ?_, ?_⟩
  · intro input more wide hjudged
    exact decodeSubpacket_append hjudged more
  · intro input more hjudged
    exact decodeHeader_append hjudged more
  · intro payload frameEnd wide escaper escaper' wire n hencode hn
    exact decodeSubpacket_take hencode hn
  · intro h format n hn
    exact decodeHeader_take h format hn

set_option maxRecDepth 8000 in
/-- The last subpacket of a frame and a header, cut behind their checksums and before. -/
theorem more_input_stands_cut :
    (exists extra, decodeSubpacket ([64, 24, 77, 24, 107, 182, 60] ++ [17, 42]) false =
        (decodeSubpacket [64, 24, 77, 24, 107, 182, 60] false).map (fun d => d.withMore extra)) ∧
      (exists extra,
        decodeHeader ([42, 42, 24, 66, 48, 57, 48, 55, 48, 48, 48, 48, 48, 48, 102, 57, 53, 49] ++
            [13, 10, 17]) =
          (decodeHeader [42, 42, 24, 66, 48, 57, 48, 55, 48, 48, 48, 48, 48, 48, 102, 57, 53,
            49]).map (fun d => d.withMore extra)) ∧
      decodeSubpacket (List.take 6 [64, 24, 77, 24, 107, 182, 60, 17]) false =
        .error .incomplete ∧
      decodeHeader (((Header.withPos .zrpos 7).encode .hex).take 17) = .error .incomplete := by
  refine ⟨?_, ?_, ?_, ?_⟩
  · rcases more_input_stands.left [64, 24, 77, 24, 107, 182, 60] [17, 42] false
      (by decide) with ⟨extra, hmore, _⟩
    exact ⟨extra, hmore⟩
  · rcases more_input_stands.right.left
      [42, 42, 24, 66, 48, 57, 48, 55, 48, 48, 48, 48, 48, 48, 102, 57, 53, 49] [13, 10, 17]
      (by decide) with ⟨extra, hmore, _⟩
    exact ⟨extra, hmore⟩
  · have hencode : (encodeSubpacketWith [64, 13] .zcrcw false ⟨0⟩).map Prod.fst =
        .ok [64, 24, 77, 24, 107, 182, 60, 17] := by
      decide
    cases hwire : encodeSubpacketWith [64, 13] .zcrcw false ⟨0⟩ with
    | error e =>
        rw [hwire] at hencode
        cases hencode
    | ok found =>
        rcases found with ⟨wire, escaper'⟩
        rw [hwire] at hencode
        cases hencode
        exact more_input_stands.right.right.left [64, 13] .zcrcw false ⟨0⟩ escaper' _ 6 hwire
          (by decide)
  · exact more_input_stands.right.right.right (Header.withPos .zrpos 7) .hex 17 (by decide)

end Rabbithole.Zmodem
