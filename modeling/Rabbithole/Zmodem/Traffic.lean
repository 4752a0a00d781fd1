import Rabbithole.Zmodem.Moves
import Rabbithole.Zmodem.Wire

/-!
# What is under way to the receiver

Behind the header of an offer there is the offer, behind that of a data frame the bytes of
the file from its position on, and every end of file names the length of the file, whatever
is spoilt on the way.
-/

namespace Rabbithole.Zmodem

open Foundation List

/-- What the subpackets are to hold that come next. -/
inductive Expect where
  | nothing
  | offer
  | bytes (offset : Nat)
deriving DecidableEq

namespace Expect

variable (file : Bytes) (info : FileInfo)

def afterHeader (expect : Expect) (h : Header) : Option Expect :=
  match h.frameType with
  | .zfile => some .offer
  | .zdata => some (.bytes h.pos.toNat)
  | .zeof => if h.pos = UInt32.ofNat file.length then some .nothing else none
  | .znak => some expect
  | _ => some .nothing

def next : Expect -> RecvEvent -> Option Expect
  | .offer, .header _ => none
  | expect, .header h => expect.afterHeader file h
  | .offer, .data payload _ => if info.encode = .ok payload then some .nothing else none
  | .bytes offset, .data payload _ =>
      if payload = (file.drop offset).take payload.length then
        some (.bytes (offset + payload.length))
      else none
  | .nothing, .data _ _ => none

theorem next_header {expect : Expect} (hne : expect ≠ .offer) (h : Header) :
    expect.next file info (.header h) = expect.afterHeader file h := by
  cases expect with
  | nothing => rfl
  | offer => exact absurd rfl hne
  | bytes offset => rfl

variable {info} in
theorem next_offer {payload : Bytes} {frameEnd : FrameEnd} (h : info.encode = .ok payload) :
    Expect.next file info .offer (.data payload frameEnd) = some .nothing := by
  simp only [next]
  rw [if_pos h]

theorem ne_offer_of_next_header {expect after : Expect} {h : Header}
    (hnext : expect.next file info (.header h) = some after) : expect ≠ .offer := by
  rintro rfl
  cases hnext

def behind (items : List RecvEvent) : Option Expect :=
  run? (next file info) .nothing items

variable {file info}

theorem behind_append {items : List RecvEvent} {expect : Expect}
    (h : behind file info items = some expect) (more : List RecvEvent) :
    behind file info (items ++ more) = run? (next file info) expect more := by
  unfold behind at h ⊢
  rw [run?_append, h]

theorem behind_cons {items rest : List RecvEvent} {item : RecvEvent} {after : Expect}
    (h : behind file info (items ++ item :: rest) = some after) :
    exists expect expect', behind file info items = some expect ∧
      expect.next file info item = some expect' ∧
      behind file info (items ++ [item]) = some expect' := by
  cases hfront : behind file info items with
  | none =>
      unfold behind at h hfront
      rw [run?_append, hfront] at h
      cases h
  | some expect =>
      rw [behind_append hfront] at h
      rcases run?_cons_some h with ⟨expect', hnext, _⟩
      refine ⟨expect, expect', rfl, hnext, ?_⟩
      rw [behind_append hfront, run?_cons, hnext]
      rfl

end Expect

/-!
## What the sender repeats
-/

/-- What is sent together, and sent again when it is asked for. -/
inductive Exchange (file : Bytes) (info : FileInfo) : List SendAction -> Prop where
  | none : Exchange file info []
  | request : Exchange file info Sender.zrqinit
  | offer (format : HeaderFormat) :
      Exchange file info [.sendHeader (Header.new .zfile) format, .sendFileInfo info]
  | data (pos : UInt32) (format : HeaderFormat) :
      Exchange file info [.sendHeader (Header.withPos .zdata pos) format, .streamData pos]
  | eof :
      Exchange file info [.sendHeader (Header.withPos .zeof (UInt32.ofNat file.length)) .hex]
  | fin : Exchange file info Sender.zfin

/-- A frame of data from a position on. -/
def IsAnchor (actions : List SendAction) : Prop :=
  exists pos format,
    actions = [.sendHeader (Header.withPos .zdata pos) format, .streamData pos]

/-- All that the sender has put on the channel, and what its driver is to put there next. -/
structure Traffic (file : Bytes) (info : FileInfo) (s : Wire) : Prop where
  offered : s.sender.info = info
  behind : exists after, Expect.behind file info (s.read ++ s.toReceiver) = some after ∧
    (after = .offer -> s.senderStopped = true) ∧
    (Wire.isStreaming s.sender.state = true -> after = .bytes s.stream)
  exchange : Exchange file info s.sender.lastExchange
  anchored : Wire.isStreaming s.sender.state = true -> IsAnchor s.sender.lastExchange
  awaiting : s.receiverStopped = false -> s.receiver.state = .awaitingFileInfo ->
    Expect.behind file info s.read = some .offer

variable {file : Bytes} {info : FileInfo}

theorem traffic_new : Traffic file info (Wire.new info) where
  offered := rfl
  behind := ⟨.nothing, rfl, nofun, nofun⟩
  exchange := Exchange.none
  anchored := nofun
  awaiting := nofun

/-!
## The sender's side
-/

/-- What sending leaves as it is. -/
structure SameReceiver (s s' : Wire) : Prop where
  sender : s'.sender = s.sender
  receiver : s'.receiver = s.receiver
  receiverStopped : s'.receiverStopped = s.receiverStopped
  read : s'.read = s.read
  toSender : s'.toSender = s.toSender
  opened : s'.opened = s.opened
  resume : s'.resume = s.resume
  written : s'.written = s.written
  closed : s'.closed = s.closed

theorem sameReceiver_refl (s : Wire) : SameReceiver s s :=
  ⟨rfl, rfl, rfl, rfl, rfl, rfl, rfl, rfl, rfl⟩

variable {s : Wire}

theorem SameReceiver.trans {s' s'' : Wire} (h : SameReceiver s s') (h' : SameReceiver s' s'') :
    SameReceiver s s'' where
  sender := h'.sender.trans h.sender
  receiver := h'.receiver.trans h.receiver
  receiverStopped := h'.receiverStopped.trans h.receiverStopped
  read := h'.read.trans h.read
  toSender := h'.toSender.trans h.toSender
  opened := h'.opened.trans h.opened
  resume := h'.resume.trans h.resume
  written := h'.written.trans h.written
  closed := h'.closed.trans h.closed

theorem sameReceiver_send (s : Wire) (action : SendAction) : SameReceiver s (s.send action) := by
  cases action with
  | sendHeader h format | streamData start => exact ⟨rfl, rfl, rfl, rfl, rfl, rfl, rfl, rfl, rfl⟩
  | sendFileInfo info =>
      simp only [Wire.send]
      cases info.encode with
      | error e | ok payload => exact ⟨rfl, rfl, rfl, rfl, rfl, rfl, rfl, rfl, rfl⟩
  | sendOverAndOut | finished => exact sameReceiver_refl s

theorem sameReceiver_foldl_send (actions : List SendAction) (s : Wire) :
    SameReceiver s (actions.foldl Wire.send s) := by
  induction actions generalizing s with
  | nil => exact sameReceiver_refl s
  | cons action actions ih => exact (sameReceiver_send s action).trans (ih (s.send action))

theorem behind_header {items : List RecvEvent} {expect : Expect} {h : Header}
    (hitems : Expect.behind file info items = some expect) (hne : expect ≠ .offer) :
    Expect.behind file info (items ++ [.header h]) = expect.afterHeader file h := by
  rw [Expect.behind_append hitems, run?_cons, Expect.next_header file info hne]
  cases expect.afterHeader file h with
  | none => rfl
  | some after => rfl

theorem behind_exchange {actions : List SendAction} (hx : Exchange file info actions) {s : Wire}
    {expect : Expect} (hitems : Expect.behind file info (s.read ++ s.toReceiver) = some expect)
    (hne : expect ≠ .offer) :
    exists after,
      Expect.behind file info (s.read ++ (actions.foldl Wire.send s).toReceiver) = some after ∧
        (after = .offer -> (actions.foldl Wire.send s).senderStopped = true) ∧
        (IsAnchor actions -> after = .bytes (actions.foldl Wire.send s).stream) := by
  have hheader := fun h => @behind_header file info _ expect h hitems hne
  cases hx with
  | none =>
      refine ⟨expect, hitems, fun hoffer => absurd hoffer hne, ?_⟩
      rintro ⟨pos, format, heq⟩
      cases heq
  | request | fin =>
      refine ⟨.nothing, ?_, nofun, ?_⟩
      · show Expect.behind file info (s.read ++ (s.toReceiver ++ _)) = _
        rw [← append_assoc, hheader]
        rfl
      · rintro ⟨pos, format, heq⟩
        cases heq
  | offer format =>
      cases hencode : info.encode with
      | error e =>
          have hsent : [SendAction.sendHeader (Header.new .zfile) format,
              .sendFileInfo info].foldl Wire.send s =
              { s with
                toReceiver := s.toReceiver ++ [.header (Header.new .zfile)]
                senderStopped := true } := by
            simp only [foldl_cons, foldl_nil, Wire.send, hencode]
          rw [hsent]
          refine ⟨.offer, ?_, fun _ => rfl, ?_⟩
          · rw [← append_assoc, hheader]
            rfl
          · rintro ⟨pos, format, heq⟩
            cases heq
      | ok payload =>
          have hsent : [SendAction.sendHeader (Header.new .zfile) format,
              .sendFileInfo info].foldl Wire.send s =
              { s with
                toReceiver := s.toReceiver ++ [.header (Header.new .zfile)] ++
                  [.data payload .zcrcw] } := by
            simp only [foldl_cons, foldl_nil, Wire.send, hencode]
          rw [hsent]
          refine ⟨.nothing, ?_, nofun, ?_⟩
          · have hoffer : Expect.behind file info
                ((s.read ++ s.toReceiver) ++ [.header (Header.new .zfile)]) = some .offer :=
              hheader _
            rw [← append_assoc, ← append_assoc, Expect.behind_append hoffer, run?_cons,
              Expect.next_offer file hencode]
            rfl
          · rintro ⟨pos, format, heq⟩
            cases heq
  | data pos format =>
      refine ⟨.bytes pos.toNat, ?_, nofun, fun _ => rfl⟩
      show Expect.behind file info (s.read ++ (s.toReceiver ++ _)) = _
      rw [← append_assoc, hheader]
      rfl
  | eof =>
      refine ⟨.nothing, ?_, nofun, ?_⟩
      · show Expect.behind file info (s.read ++ (s.toReceiver ++ _)) = _
        rw [← append_assoc, hheader]
        exact if_pos rfl
      · rintro ⟨pos, format, heq⟩
        cases heq

/-- The sender sends an exchange: the one before, or one that it keeps. -/
theorem Traffic.exchanged (hs : Traffic file info s) (hlive : s.senderStopped = false) {t : Sender}
    {actions : List SendAction} (hx : Exchange file info actions) (hinfo : t.info = info)
    (hkept : t.lastExchange = actions)
    (hstream : Wire.isStreaming t.state = true -> IsAnchor actions) :
    Traffic file info (s.senderDid (.ok actions, t)) := by
  rcases hs.behind with ⟨expect, hbehind, hoffer, _⟩
  have hne : expect ≠ .offer := by
    intro heq
    rw [hoffer heq] at hlive
    cases hlive
  have hsame := sameReceiver_foldl_send actions { s with sender := t }
  rcases @behind_exchange file info actions hx { s with sender := t } expect hbehind hne with
    ⟨after, hafter, hstopped, hanchor⟩
  constructor
  · show (actions.foldl Wire.send { s with sender := t }).sender.info = info
    rw [hsame.sender]
    exact hinfo
  · refine ⟨after, ?_, hstopped, ?_⟩
    · show Expect.behind file info ((actions.foldl Wire.send { s with sender := t }).read ++ _) = _
      rw [hsame.read]
      exact hafter
    · intro hstate
      replace hstate : Wire.isStreaming
        (actions.foldl Wire.send { s with sender := t }).sender.state = true := hstate
      rw [hsame.sender] at hstate
      exact hanchor (hstream hstate)
  · show Exchange file info (actions.foldl Wire.send { s with sender := t }).sender.lastExchange
    rw [hsame.sender]
    show Exchange file info t.lastExchange
    rw [hkept]
    exact hx
  · intro hstate
    replace hstate : Wire.isStreaming
      (actions.foldl Wire.send { s with sender := t }).sender.state = true := hstate
    show IsAnchor (actions.foldl Wire.send { s with sender := t }).sender.lastExchange
    rw [hsame.sender] at hstate ⊢
    show IsAnchor t.lastExchange
    rw [hkept]
    exact hstream hstate
  · intro hreceiver hstate
    show Expect.behind file info (actions.foldl Wire.send { s with sender := t }).read = _
    replace hreceiver : (actions.foldl Wire.send { s with sender := t }).receiverStopped =
      false := hreceiver
    replace hstate : (actions.foldl Wire.send { s with sender := t }).receiver.state =
      .awaitingFileInfo := hstate
    rw [hsame.receiverStopped] at hreceiver
    rw [hsame.receiver] at hstate
    rw [hsame.read]
    exact hs.awaiting hreceiver hstate

theorem Traffic.failed (hs : Traffic file info s) :
    Traffic file info { s with senderStopped := true } where
  offered := hs.offered
  behind := by
    rcases hs.behind with ⟨after, hafter, _, hstream⟩
    exact ⟨after, hafter, fun _ => rfl, hstream⟩
  exchange := hs.exchange
  anchored := hs.anchored
  awaiting := hs.awaiting

theorem Traffic.asked (hs : Traffic file info s) (hlive : s.senderStopped = false)
    (recoveries : Nat) :
    Traffic file info (s.senderDid (.ok [.sendHeader (Header.new .znak) .hex],
      { s.sender with recoveries := recoveries })) where
  offered := hs.offered
  behind := by
    rcases hs.behind with ⟨after, hafter, hoffer, hstream⟩
    have hne : after ≠ .offer := by
      intro heq
      rw [hoffer heq] at hlive
      cases hlive
    refine ⟨after, ?_, hoffer, hstream⟩
    show Expect.behind file info (s.read ++ (s.toReceiver ++ _)) = _
    rw [← append_assoc, behind_header hafter hne]
    rfl
  exchange := hs.exchange
  anchored := hs.anchored
  awaiting := hs.awaiting

theorem Traffic.moved {s : Wire} (hs : Traffic file info s) (hlive : s.senderStopped = false)
    {event : SendEvent} (hevent : forall offset, event = .dataExhausted offset ->
      offset = UInt32.ofNat file.length)
    {actions : List SendAction} {t : Sender} (hmove : Sender.Move s.sender event actions t) :
    Traffic file info (s.senderDid (.ok actions, t)) := by
  cases hmove with
  | again recoveries _ =>
      exact hs.exchanged hlive hs.exchange hs.offered rfl hs.anchored
  | @offer h format fc32 _ _ =>
      rw [hs.offered]
      exact hs.exchanged hlive (Exchange.offer format) rfl rfl nofun
  | @anchored h format _ _ =>
      exact hs.exchanged hlive (Exchange.data h.pos format) hs.offered rfl
        (fun _ => ⟨h.pos, format, rfl⟩)
  | acknowledged _ => exact hs
  | @exhausted offset start _ =>
      rw [hevent offset rfl]
      exact hs.exchanged hlive Exchange.eof hs.offered rfl nofun
  | closed _ _ | skipped _ => exact hs.exchanged hlive Exchange.fin hs.offered rfl nofun
  | finished _ =>
      exact
        { offered := hs.offered
          behind := by
            rcases hs.behind with ⟨after, hafter, hoffer, _⟩
            exact ⟨after, hafter, hoffer, nofun⟩
          exchange := hs.exchange
          anchored := nofun
          awaiting := hs.awaiting }

section

variable (hs : Traffic file info s) (hlive : s.senderStopped = false)
include hs hlive

theorem Traffic.advanced {event : SendEvent}
    (hevent : forall offset, event = .dataExhausted offset ->
      offset = UInt32.ofNat file.length) :
    Traffic file info (s.senderDid (s.sender.advance event)) := by
  cases hresult : s.sender.advance event with
  | mk result t =>
      cases result with
      | error e =>
          rw [Sender.advance_error hresult]
          exact hs.failed
      | ok actions => exact hs.moved hlive hevent (Sender.move_of_advance hresult)

theorem Traffic.spoilt : Traffic file info (s.senderDid s.sender.corruptHeader) := by
  cases hresult : s.sender.corruptHeader with
  | mk result t =>
      cases result with
      | error e =>
          rw [Sender.corruptHeader_error hresult]
          exact hs.failed
      | ok actions =>
          rcases Sender.corruptHeader_ok hresult with ⟨rfl, recoveries, rfl⟩
          exact hs.asked hlive recoveries

theorem Traffic.started : Traffic file info (s.senderDid s.sender.start) := by
  cases hresult : s.sender.start with
  | mk result t =>
      cases result with
      | error e =>
          rw [Sender.start_error hresult]
          exact hs.failed
      | ok actions =>
          rcases Sender.start_ok hresult with ⟨_, rfl, rfl⟩
          exact hs.exchanged hlive Exchange.request hs.offered rfl nofun

end

theorem Traffic.put {s : Wire} (hs : Traffic file info s)
    (hstate : Wire.isStreaming s.sender.state = true) (length : Nat) (frameEnd : FrameEnd) :
    Traffic file info { s with
      toReceiver := s.toReceiver ++ [.data ((file.drop s.stream).take length) frameEnd]
      stream := s.stream + ((file.drop s.stream).take length).length } where
  offered := hs.offered
  behind := by
    rcases hs.behind with ⟨after, hafter, hoffer, hstream⟩
    rw [hstream hstate] at hafter
    refine ⟨.bytes (s.stream + ((file.drop s.stream).take length).length), ?_, nofun,
      fun _ => rfl⟩
    have hpayload : (file.drop s.stream).take length =
        (file.drop s.stream).take ((file.drop s.stream).take length).length := by
      rw [length_take, take_eq_take_min]
    have hnext : Expect.next file info (.bytes s.stream)
        (.data ((file.drop s.stream).take length) frameEnd) =
        some (.bytes (s.stream + ((file.drop s.stream).take length).length)) := by
      simp only [Expect.next]
      exact if_pos hpayload
    rw [← append_assoc, Expect.behind_append hafter, run?_cons, hnext]
    rfl
  exchange := hs.exchange
  anchored := hs.anchored
  awaiting := hs.awaiting

/-!
## The receiver's side
-/

/-- What answering leaves as it is. -/
structure SameSender (s s' : Wire) : Prop where
  sender : s'.sender = s.sender
  receiver : s'.receiver = s.receiver
  toReceiver : s'.toReceiver = s.toReceiver
  stream : s'.stream = s.stream
  senderStopped : s'.senderStopped = s.senderStopped
  receiverStopped : s'.receiverStopped = s.receiverStopped
  read : s'.read = s.read

theorem sameSender_foldl_act (resume : UInt32) (actions : List RecvAction) (s : Wire) :
    SameSender s (actions.foldl (Wire.act resume) s) := by
  induction actions generalizing s with
  | nil => exact ⟨rfl, rfl, rfl, rfl, rfl, rfl, rfl⟩
  | cons action actions ih =>
      have hrest := ih (Wire.act resume s action)
      rw [foldl_cons]
      cases action with
      | sendHeader h format | openFile info | writeData offset data | closeFile =>
          exact ⟨hrest.sender, hrest.receiver, hrest.toReceiver, hrest.stream,
            hrest.senderStopped, hrest.receiverStopped, hrest.read⟩
      | sendOverAndOut | finished => exact hrest

theorem Traffic.received {s s' : Wire} (hs : Traffic file info s) (hsender : s'.sender = s.sender)
    (hstream : s'.stream = s.stream) (hstopped : s'.senderStopped = s.senderStopped)
    (hitems : s'.read ++ s'.toReceiver = s.read ++ s.toReceiver)
    (hawaiting : s'.receiverStopped = false -> s'.receiver.state = .awaitingFileInfo ->
      Expect.behind file info s'.read = some .offer) : Traffic file info s' where
  offered := by
    rw [hsender]
    exact hs.offered
  behind := by
    rw [hsender, hstream, hstopped, hitems]
    exact hs.behind
  exchange := by
    rw [hsender]
    exact hs.exchange
  anchored := by
    rw [hsender]
    exact hs.anchored
  awaiting := hawaiting

theorem isAwaiting_of_move {r r' : Receiver} {event : RecvEvent} {actions : List RecvAction}
    (hmove : Receiver.Move r event actions r') (hstate : r'.state = .awaitingFileInfo) :
    (exists h, event = .header h ∧ r.state = .awaitingFileInfo) ∨
      (exists h, event = .header h ∧ h.frameType = .zfile) := by
  cases hmove with
  | @again h reply recoveries _ _ => exact Or.inl ⟨h, rfl, hstate⟩
  | init _ _ | fin _ _ | opened _ _ | frame _ _ _ | closed _ _ _ => cases hstate
  | @offered h htype _ => exact Or.inr ⟨h, rfl, htype⟩
  | @correct h offset _ hbefore =>
      replace hstate : r.state = .awaitingFileInfo := hstate
      rw [hbefore] at hstate
      cases hstate
  | wrote _ hafter =>
      replace hstate := hstate
      rcases hafter with rfl | rfl
      · cases hstate
      · cases hstate
  | acknowledged _ hafter =>
      rcases hafter with rfl | rfl
      · cases hstate
      · cases hstate

theorem Traffic.taken (hs : Traffic file info s) (hlive : s.receiverStopped = false)
    {item : RecvEvent} {rest : List RecvEvent} (hitems : s.toReceiver = item :: rest) :
    exists expect expect', Expect.behind file info s.read = some expect ∧
      expect.next file info item = some expect' ∧
      Expect.behind file info (s.read ++ [item]) = some expect' ∧
      (s.receiver.state = .awaitingFileInfo -> expect = .offer) := by
  rcases hs.behind with ⟨after, hafter, _, _⟩
  rw [hitems] at hafter
  rcases Expect.behind_cons hafter with ⟨expect, expect', hread, hnext, hread'⟩
  refine ⟨expect, expect', hread, hnext, hread', fun hstate => ?_⟩
  have hoffer := hs.awaiting hlive hstate
  rw [hread] at hoffer
  exact Option.some.inj hoffer

theorem Traffic.answered {s mid : Wire} (hs : Traffic file info s)
    (hsender : mid.sender = s.sender) (hstream : mid.stream = s.stream)
    (hstopped : mid.senderStopped = s.senderStopped)
    (hitems : mid.read ++ mid.toReceiver = s.read ++ s.toReceiver) {outcome : Receiver.Outcome}
    (hawaiting : forall actions r, outcome = (.ok actions, r) -> r.state = .awaitingFileInfo ->
      mid.receiverStopped = false -> Expect.behind file info mid.read = some .offer) :
    Traffic file info (mid.receiverDid outcome) := by
  rcases outcome with ⟨result, r⟩
  cases result with
  | error e => exact hs.received hsender hstream hstopped hitems nofun
  | ok actions =>
      have hsame :=
        sameSender_foldl_act mid.receiver.resumeOffset actions { mid with receiver := r }
      apply hs.received (hsame.sender.trans hsender) (hsame.stream.trans hstream)
        (hsame.senderStopped.trans hstopped)
      · show (actions.foldl _ { mid with receiver := r }).read ++
          (actions.foldl _ { mid with receiver := r }).toReceiver = _
        rw [hsame.read, hsame.toReceiver]
        exact hitems
      · intro hlive hstate
        replace hlive : (actions.foldl (Wire.act mid.receiver.resumeOffset)
          { mid with receiver := r }).receiverStopped = false := hlive
        replace hstate : (actions.foldl (Wire.act mid.receiver.resumeOffset)
          { mid with receiver := r }).receiver.state = .awaitingFileInfo := hstate
        show Expect.behind file info (actions.foldl _ { mid with receiver := r }).read = _
        rw [hsame.receiverStopped] at hlive
        rw [hsame.receiver] at hstate
        rw [hsame.read]
        exact hawaiting actions r rfl hstate hlive

theorem Traffic.delivered {s' : Wire} (hs : Traffic file info s) (hlive : s.receiverStopped = false)
    {item : RecvEvent} {rest : List RecvEvent} (hitems : s.toReceiver = item :: rest)
    {corrupt : Bool}
    (hstep : Wire.deliver { s with toReceiver := rest, read := s.read ++ [item] } item corrupt =
      some s') : Traffic file info s' := by
  rcases hs.taken hlive hitems with ⟨expect, expect', _, hnext, hread', hoffer⟩
  have hall : (s.read ++ [item]) ++ rest = s.read ++ s.toReceiver := by
    rw [hitems, append_assoc, singleton_append]
  have hheader : forall h, item = .header h -> s.receiver.state ≠ .awaitingFileInfo := by
    intro h heq hstate
    rw [heq] at hnext
    exact Expect.ne_offer_of_next_header file info hnext (hoffer hstate)
  unfold Wire.deliver at hstep
  split at hstep
  · rename_i h
    cases hstep
    apply @Traffic.answered file info s
      { s with toReceiver := rest, read := s.read ++ [.header h] } hs rfl rfl rfl hall
    intro actions r houtcome hstate _
    rcases Receiver.corruptHeader_ok houtcome with ⟨_, recoveries, rfl⟩
    exact absurd hstate (hheader h rfl)
  · cases hstep
  · cases hstep
    apply @Traffic.answered file info s
      { s with toReceiver := rest, read := s.read ++ [item] } hs rfl rfl rfl hall
    intro actions r houtcome hstate _
    rcases isAwaiting_of_move (Receiver.move_of_advance houtcome) hstate with
      ⟨h, heq, hbefore⟩ | ⟨h, heq, htype⟩
    · exact absurd hbefore (hheader h heq)
    · rw [heq] at hnext
      have hne := Expect.ne_offer_of_next_header file info hnext
      rw [Expect.next_header file info hne] at hnext
      unfold Expect.afterHeader at hnext
      rw [htype] at hnext
      cases hnext
      exact hread'

theorem traffic_step {s' : Wire} {event : Wire.Event} (hs : Traffic file info s)
    (hstep : Wire.step file s event = some s') : Traffic file info s' := by
  cases Wire.taken_of_step hstep with
  | start hlive => exact hs.started hlive
  | @put length frameEnd hlive hstate => exact hs.put hstate length frameEnd
  | exhausted hlive =>
      apply hs.advanced hlive
      intro offset heq
      cases heq
      rfl
  | toReceiver hlive hitems hdeliver => exact hs.delivered hlive hitems hdeliver
  | @skipData payload frameEnd rest hawaits hitems =>
      apply @Traffic.received file info s { s with
        toReceiver := rest
        read := s.read ++ [.data payload frameEnd] } hs rfl rfl rfl
      · show (s.read ++ [_]) ++ rest = _
        rw [hitems, append_assoc, singleton_append]
      · intro _ hstate
        replace hstate : s.receiver.state = .awaitingFileInfo := hstate
        rw [hstate] at hawaits
        cases hawaits
  | setResume _ => exact hs.received rfl rfl rfl rfl hs.awaiting
  | decline =>
      apply hs.answered rfl rfl rfl rfl
      intro actions r houtcome hstate _
      rcases Receiver.declineFile_ok houtcome with ⟨_, _, rfl⟩
      cases hstate
  | @toSender corrupt h rest hlive hqueue =>
      have hmid : Traffic file info { s with toSender := rest } :=
        hs.received rfl rfl rfl rfl hs.awaiting
      split
      · exact hmid.spoilt hlive
      · exact hmid.advanced hlive nofun

end Rabbithole.Zmodem
