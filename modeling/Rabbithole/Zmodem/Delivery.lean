import Rabbithole.Zmodem.Progress

/-!
# What is delivered

What a closed file holds is what the sender has, as long as no header arrives spoilt inside a
frame of data: the bytes of the frame it begins go where the frame before it has ended.
-/

namespace Rabbithole.Zmodem

open Foundation List

variable {file : Bytes} {info : FileInfo}

/-!
## What a file holds

Inside a frame of data, what comes next are the bytes behind those that were written.
-/

/-- What was written, from where the file was resumed to an offset. -/
structure WrittenTo (file : Bytes) (s : Wire) (offset : UInt32) : Prop where
  length : s.resume.toNat + s.written.length = offset.toNat
  bound : offset.toNat <= file.length
  bytes : s.written = (file.drop s.resume.toNat).take s.written.length

/-- Where the receiver is in the file it has open. -/
def fileOffset : RecvState -> Option UInt32
  | .awaitingData offset => some offset
  | .receivingData offset => some offset
  | _ => none

structure Exact (file : Bytes) (info : FileInfo) (s : Wire) : Prop where
  closed : forall c, c ∈ s.closed -> c.written = file.drop c.resume.toNat
  resumable : s.receiver.resumeOffset.toNat <= file.length
  written : forall offset, fileOffset s.receiver.state = some offset -> WrittenTo file s offset
  inside : s.receiverStopped = false -> forall offset, s.receiver.state = .receivingData offset ->
    Expect.behind file info s.read = some (.bytes offset.toNat)

theorem exact_new : Exact file info (Wire.new info) where
  closed := nofun
  resumable := Nat.zero_le _
  written := nofun
  inside := nofun

/-- What is kept to be sent again is a header. -/
def RepliesHeader (r : Receiver) : Prop :=
  forall reply, r.lastReply = some reply -> exists h format, reply = .sendHeader h format

theorem repliesHeader_some {r : Receiver} {h : Header} {format : HeaderFormat}
    (hreply : r.lastReply = some (.sendHeader h format)) : RepliesHeader r := by
  intro reply heq
  rw [hreply] at heq
  cases heq
  exact ⟨h, format, rfl⟩

theorem repliesHeader_of_move {r r' : Receiver} {event : RecvEvent} {actions : List RecvAction}
    (hr : RepliesHeader r) (hmove : Receiver.Move r event actions r') : RepliesHeader r' := by
  cases hmove with
  | again _ _ _ | offered _ _ | frame _ _ _ | wrote _ _ => exact hr
  | init _ _ | fin _ _ | opened _ _ | correct _ _ | closed _ _ _ | acknowledged _ _ =>
      exact repliesHeader_some rfl

variable {s s' : Wire} {offset : UInt32}

theorem repliesHeader_step {event : Wire.Event} (hs : RepliesHeader s.receiver)
    (hstep : Wire.step file s event = some s') : RepliesHeader s'.receiver := by
  cases Wire.happens_of_step hstep with
  | sent _ hsame =>
      rw [hsame.receiver]
      exact hs
  | read _ _ hanswer =>
      cases hanswer with
      | failed _ => exact hs
      | moved hmove =>
          rw [(sameSender_foldl_act _ _ _).receiver]
          exact repliesHeader_of_move hs hmove
  | spoilt _ | lost _ | passed _ | armed _ => exact hs
  | declined _ => exact repliesHeader_some rfl

theorem WrittenTo.write {payload : Bytes} (hfile : file.length < 2 ^ 32)
    (hs : WrittenTo file s offset)
    (hpayload : payload = (file.drop offset.toNat).take payload.length)
    (hresume : s'.resume = s.resume) (hwritten : s'.written = s.written ++ payload) :
    WrittenTo file s' (offset + UInt32.ofNat payload.length) ∧
      (offset + UInt32.ofNat payload.length).toNat = offset.toNat + payload.length := by
  have hlength : payload.length <= file.length - offset.toNat := by
    rw [hpayload, length_take, length_drop]
    exact Nat.min_le_right _ _
  have hbound := hs.bound
  have hoffset : (offset + UInt32.ofNat payload.length).toNat =
      offset.toNat + payload.length := by
    rw [UInt32.toNat_add, UInt32.toNat_ofNat']
    omega
  refine ⟨⟨?_, ?_, ?_⟩, hoffset⟩
  · rw [hoffset, hresume, hwritten, length_append, ← hs.length]
    omega
  · rw [hoffset]
    omega
  · rw [hresume, hwritten, length_append, take_add, drop_drop, hs.length,
      ← hpayload, ← hs.bytes]

theorem WrittenTo.all (hfile : file.length < 2 ^ 32) (hs : WrittenTo file s offset)
    (hend : offset = UInt32.ofNat file.length) : s.written = file.drop s.resume.toNat := by
  have hlength := hs.length
  rw [hend, UInt32.toNat_ofNat', Nat.mod_eq_of_lt hfile] at hlength
  rw [hs.bytes, take_of_length_le]
  rw [length_drop]
  omega

theorem WrittenTo.congr (hs : WrittenTo file s offset) (hresume : s'.resume = s.resume)
    (hwritten : s'.written = s.written) : WrittenTo file s' offset := by
  constructor
  · rw [hresume, hwritten]
    exact hs.length
  · exact hs.bound
  · rw [hresume, hwritten]
    exact hs.bytes

theorem exact_of_closed (hclosed : forall c, c ∈ s.closed -> c.written = file.drop c.resume.toNat)
    (hresumable : s.receiver.resumeOffset.toNat <= file.length)
    (hstate : fileOffset s.receiver.state = none) : Exact file info s where
  closed := hclosed
  resumable := hresumable
  written offset heq := by
    rw [hstate] at heq
    cases heq
  inside _ offset heq := by
    rw [heq] at hstate
    cases hstate

theorem Exact.kept (hs : Exact file info s) (hclosed : s'.closed = s.closed)
    (hresume : s'.resume = s.resume) (hwritten : s'.written = s.written)
    (hresumable : s'.receiver.resumeOffset.toNat <= file.length)
    (hstate : s'.receiver.state = s.receiver.state)
    (hinside : s'.receiverStopped = false -> forall offset,
      s.receiver.state = .receivingData offset ->
        Expect.behind file info s'.read = some (.bytes offset.toNat)) : Exact file info s' where
  closed := by
    rw [hclosed]
    exact hs.closed
  resumable := hresumable
  written offset heq := by
    rw [hstate] at heq
    exact (hs.written offset heq).congr hresume hwritten
  inside hlive offset heq := by
    rw [hstate] at heq
    exact hinside hlive offset heq

theorem Exact.wrote {s s' : Wire} (hfile : file.length < 2 ^ 32) (hs : Exact file info s)
    {offset : UInt32} (hstate : s.receiver.state = .receivingData offset) {payload : Bytes}
    {expect : Expect} {frameEnd : FrameEnd}
    (hnext : Expect.next file info (.bytes offset.toNat) (.data payload frameEnd) = some expect)
    (hread : Expect.behind file info s'.read = some expect) (hclosed : s'.closed = s.closed)
    (hresume : s'.resume = s.resume) (hwritten : s'.written = s.written ++ payload)
    (hresumable : s'.receiver.resumeOffset = s.receiver.resumeOffset)
    (hafter : s'.receiver.state = .receivingData (offset + UInt32.ofNat payload.length) ∨
      s'.receiver.state = .awaitingData (offset + UInt32.ofNat payload.length)) :
    Exact file info s' := by
  simp only [Expect.next] at hnext
  split at hnext
  · rename_i hpayload
    cases hnext
    have hbefore : WrittenTo file s offset := hs.written offset (by rw [hstate]; rfl)
    rcases hbefore.write hfile hpayload hresume hwritten with ⟨hto, hoffset⟩
    constructor
    · rw [hclosed]
      exact hs.closed
    · rw [hresumable]
      exact hs.resumable
    · intro offset' heq
      rcases hafter with hafter | hafter
      all_goals
        rw [hafter] at heq
        cases heq
        exact hto
    · intro _ offset' heq
      rcases hafter with hafter | hafter
      · rw [hafter] at heq
        cases heq
        rw [hread, hoffset]
      · rw [hafter] at heq
        cases heq
  · cases hnext

theorem Exact.read (hfile : file.length < 2 ^ 32) (hs : Exact file info s)
    (ht : Traffic file info s) (hheaders : RepliesHeader s.receiver)
    (hlive : s.receiverStopped = false) {item : RecvEvent} {rest : List RecvEvent}
    (hitems : s.toReceiver = item :: rest)
    (hanswer : Wire.Answer { s with toReceiver := rest, read := s.read ++ [item] } item s') :
    Exact file info s' := by
  rcases ht.taken hlive hitems with ⟨expect, expect', hread, hnext, hread', _⟩
  have hinside : forall offset, s.receiver.state = .receivingData offset ->
      expect = .bytes offset.toNat := by
    intro offset hstate
    have hbytes := hs.inside hlive offset hstate
    rw [hread] at hbytes
    exact Option.some.inj hbytes
  have hheader : forall h, item = .header h -> expect.afterHeader file h = some expect' := by
    intro h heq
    rw [heq] at hnext
    rw [← Expect.next_header file info (Expect.ne_offer_of_next_header file info hnext)]
    exact hnext
  cases hanswer with
  | failed recoveries => exact hs.kept rfl rfl rfl hs.resumable rfl nofun
  | moved hmove =>
      cases hmove with
      | again recoveries hreply hasked =>
          rcases hheaders _ hreply with ⟨reply, format, rfl⟩
          refine hs.kept rfl rfl rfl hs.resumable rfl ?_
          intro _ offset hstate
          rcases hasked with hznak | hdone
          · have hafter := hheader _ rfl
            unfold Expect.afterHeader at hafter
            rw [hznak, hinside offset hstate] at hafter
            exact hread'.trans hafter.symm
          · rw [hstate] at hdone
            cases hdone
      | init _ _ | offered _ _ | fin _ _ => exact exact_of_closed hs.closed hs.resumable rfl
      | opened _ _ =>
          exact
            { closed := hs.closed
              resumable := Nat.zero_le _
              written := by
                intro offset heq
                cases heq
                exact ⟨rfl, hs.resumable, rfl⟩
              inside := nofun }
      | @frame h offset htype hstate hpos =>
          have hafter := hheader h rfl
          unfold Expect.afterHeader at hafter
          rw [htype, hpos] at hafter
          cases hafter
          exact
            { closed := hs.closed
              resumable := hs.resumable
              written := by
                intro offset' heq
                cases heq
                exact (hs.written offset (by rw [hstate]; rfl)).congr rfl rfl
              inside := by
                intro _ offset' heq
                cases heq
                exact hread' }
      | @correct h offset _ hstate =>
          refine hs.kept rfl rfl rfl hs.resumable rfl ?_
          intro _ offset' heq
          replace heq : s.receiver.state = .receivingData offset' := heq
          rw [hstate] at heq
          cases heq
      | @closed h offset htype hstate hpos =>
          have hafter := hheader h rfl
          unfold Expect.afterHeader at hafter
          rw [htype, hpos] at hafter
          dsimp only at hafter
          split at hafter
          · rename_i hend
            refine exact_of_closed ?_ hs.resumable rfl
            intro c hc
            rcases mem_cons.mp hc with rfl | hc
            · exact (hs.written offset (by rw [hstate]; rfl)).all hfile hend
            · exact hs.closed c hc
          · cases hafter
      | @wrote payload frameEnd offset state hstate hafter
      | @acknowledged payload frameEnd offset state hstate hafter =>
          rw [hinside offset hstate] at hnext
          exact hs.wrote hfile hstate hnext hread' rfl rfl rfl rfl hafter

/-- No header arrives spoilt inside a frame of data. -/
def FramesKept (s : Wire) (event : Wire.Event) : Prop :=
  event = .toReceiver true -> forall offset, s.receiver.state ≠ .receivingData offset

instance (s : Wire) (event : Wire.Event) : Decidable (FramesKept s event) :=
  match hstate : s.receiver.state with
  | .receivingData offset =>
      decidable_of_iff (event ≠ .toReceiver true)
        ⟨fun h heq => absurd heq h, fun h heq => h heq offset hstate⟩
  | .awaitingInit => isTrue (fun _ _ => by rw [hstate]; exact nofun)
  | .awaitingFile => isTrue (fun _ _ => by rw [hstate]; exact nofun)
  | .awaitingFileInfo => isTrue (fun _ _ => by rw [hstate]; exact nofun)
  | .awaitingData _ => isTrue (fun _ _ => by rw [hstate]; exact nofun)
  | .done => isTrue (fun _ _ => by rw [hstate]; exact nofun)

theorem exact_step {event : Wire.Event} (hfile : file.length < 2 ^ 32) (ht : Traffic file info s)
    (hheaders : RepliesHeader s.receiver) (hs : Exact file info s) (hkept : FramesKept s event)
    (hstep : Wire.step file s event = some s') : Exact file info s' := by
  cases Wire.happens_of_step hstep with
  | sent _ hsame =>
      apply hs.kept hsame.closed hsame.resume hsame.written
      · rw [hsame.receiver]
        exact hs.resumable
      · rw [hsame.receiver]
      · rw [hsame.receiverStopped, hsame.read]
        exact hs.inside
  | read hlive hitems hanswer => exact hs.read hfile ht hheaders hlive hitems hanswer
  | spoilt recoveries =>
      refine hs.kept rfl rfl rfl hs.resumable rfl ?_
      intro _ offset hstate
      exact absurd hstate (hkept rfl offset)
  | lost recoveries => exact hs.kept rfl rfl rfl hs.resumable rfl nofun
  | passed hawaits =>
      refine hs.kept rfl rfl rfl hs.resumable rfl ?_
      intro _ offset hstate
      rw [hstate] at hawaits
      cases hawaits
  | armed hoffset => exact hs.kept rfl rfl rfl hoffset rfl hs.inside
  | declined _ => exact exact_of_closed hs.closed (Nat.zero_le _) rfl

/-!
## Whole sessions
-/

/--
Every file that was closed holds the sender's bytes from where it was resumed, and a sender
that is done has delivered its file, if it was wanted.
-/
def DeliveredExactly (file : Bytes) (info : FileInfo) (s : Wire) : Prop :=
  (forall c, c ∈ s.closed -> c.written = file.drop c.resume.toNat) ∧
    (s.sender.state = .done -> s.sender.skipped = false -> Delivered info s)

theorem delivered_of_run {events : List Wire.Event}
    (hrun : run? (Wire.step file) (Wire.new info) events = some s) (hdone : s.sender.state = .done)
    (hskipped : s.sender.skipped = false) : Delivered info s := by
  have hinv : Traffic file info s ∧ Progress info s := by
    apply run?_invariant _ ⟨traffic_new, progress_new⟩ hrun
    intro _ _ _ ⟨ht, hs⟩ hstep
    exact ⟨traffic_step ht hstep, progress_step ht hs hstep⟩
  exact delivered_of_done hinv.right hdone hskipped

theorem exact_of_run (hfile : file.length < 2 ^ 32) {events : List Wire.Event}
    (hkept : Along (Wire.step file) FramesKept (Wire.new info) events)
    (hrun : run? (Wire.step file) (Wire.new info) events = some s) : Exact file info s := by
  have hinv : Traffic file info s ∧ RepliesHeader s.receiver ∧ Exact file info s := by
    apply run?_invariant_along _ ⟨traffic_new, nofun, exact_new⟩ hkept hrun
    intro _ _ _ ⟨ht, hheaders, hs⟩ hcond hstep
    exact ⟨traffic_step ht hstep, repliesHeader_step hheaders hstep,
      exact_step hfile ht hheaders hs hcond hstep⟩
  exact hinv.right.right

theorem delivered_exactly_of_framesKept (hfile : file.length < 2 ^ 32)
    {events : List Wire.Event} {s : Wire}
    (hrun : run? (Wire.step file) (Wire.new info) events = some s)
    (hkept : Along (Wire.step file) FramesKept (Wire.new info) events) :
    DeliveredExactly file info s := by
  constructor
  · exact (exact_of_run hfile hkept hrun).closed
  · exact delivered_of_run hrun

/-- A file is resumed behind its first byte, and the end of the file arrives spoilt once. -/
def resumedSession : List Wire.Event :=
  [.start, .toReceiver false, .toSender false, .toReceiver false, .setResume 1,
    .toReceiver false, .toSender false, .put 1 .zcrcg, .put 5 .zcrce, .exhausted,
    .toReceiver false, .toReceiver false, .toReceiver false, .toReceiver true,
    .toSender false, .toReceiver false, .toSender false, .toReceiver false, .toSender false]

theorem delivered_exactly_of_framesKept_resumed :
    exists s, run? (Wire.step [1, 2, 3]) (Wire.new (FileInfo.new "f")) resumedSession = some s ∧
      s.sender.state = .done ∧ s.sender.skipped = false ∧
      s.closed.map Closed.written = [[2, 3]] ∧
      DeliveredExactly [1, 2, 3] (FileInfo.new "f") s := by
  have hdone : (run? (Wire.step [1, 2, 3]) (Wire.new (FileInfo.new "f")) resumedSession).map
      (fun s => (s.sender.state, s.sender.skipped, s.closed.map Closed.written)) =
      some (.done, false, [[2, 3]]) := by
    decide
  have hkept : Along (Wire.step [1, 2, 3]) FramesKept (Wire.new (FileInfo.new "f"))
      resumedSession := by
    decide
  rcases Option.map_eq_some_iff.mp hdone with ⟨s, hrun, heq⟩
  rw [Prod.mk.injEq, Prod.mk.injEq] at heq
  exact ⟨s, hrun, heq.left, heq.right.left, heq.right.right,
    delivered_exactly_of_framesKept (by decide) hrun hkept⟩

/-!
Inside a frame of data, a spoilt header is asked for again, and what follows it is taken
for the rest of the frame.  Here the offset comes around to the start: the file is written
three times before it is closed.
-/

def spoiltSession (length : Nat) : List Wire.Event :=
  [.start, .toReceiver false, .toSender false, .toReceiver false, .toReceiver false,
    .toSender false, .put length .zcrcg, .exhausted,
    -- the end of the file, and the request to repeat it, are both spoilt
    .toReceiver false, .toReceiver false, .toReceiver true, .toSender true, .toReceiver false,
    .toSender false, .put length .zcrce, .exhausted,
    -- the second frame is spoilt, and its bytes are not
    .toReceiver true, .toReceiver false, .toReceiver false, .toSender false, .toSender false,
    .put length .zcrce, .exhausted,
    .toReceiver false, .toReceiver false, .toReceiver false, .toReceiver false]

theorem closed_of_spoiltSession (hlength : file.length = 2 ^ 31) {read : FileInfo}
    {payload : Bytes} (hencode : info.encode = .ok payload)
    (hdecode : FileInfo.decode payload = .ok read) :
    exists s, run? (Wire.step file) (Wire.new info) (spoiltSession file.length) = some s ∧
      s.closed = [⟨some read, 0, file ++ file ++ file⟩] := by
  have hpos : UInt32.ofNat file.length = 2147483648 := by
    rw [hlength]
    rfl
  simp [spoiltSession, run?, Wire.step, Wire.new, Wire.senderDid, Wire.send, Wire.deliver,
    Wire.receiverDid, Wire.act, Wire.isStreaming, Sender.new, Sender.start, Sender.zrqinit,
    Sender.advance, Sender.advancePlain, Sender.advanceInner, Sender.anchor,
    Sender.corruptHeader, Sender.retryExchange, SendAction.isSendHeader, Receiver.new,
    Receiver.advance, Receiver.asksAgain, Receiver.advanceInner, Receiver.receive,
    Receiver.corruptHeader, Receiver.zrinit, Receiver.zrpos, RecvAction.isSendHeader,
    Header.new, Header.withPos, Header.withFlags, Header.pos, recovery, maxRecoveryAttempts,
    List.find?, hencode, hdecode, hpos]

theorem spoilt_frame_written_again :
    ¬ (forall (file : Bytes) (info : FileInfo) (events : List Wire.Event) (s : Wire),
      file.length < 2 ^ 32 -> run? (Wire.step file) (Wire.new info) events = some s ->
        DeliveredExactly file info s) := by
  intro hall
  have hencode : (FileInfo.new "f").encode = .ok [102, 0, 0] := by
    decide
  have hdecode : FileInfo.decode [102, 0, 0] = .ok (FileInfo.new "f") := by
    decide
  have hlength : (List.replicate (2 ^ 31) (0 : UInt8)).length = 2 ^ 31 :=
    length_replicate
  generalize List.replicate (2 ^ 31) (0 : UInt8) = file at hlength
  rcases closed_of_spoiltSession hlength hencode hdecode with ⟨s, hrun, hclosed⟩
  have hexact := (hall file _ _ s (by omega) hrun).left
  rw [hclosed] at hexact
  have hwritten := congrArg List.length (hexact _ mem_cons_self)
  rw [length_append, length_append, length_drop] at hwritten
  omega

end Rabbithole.Zmodem
