import Rabbithole.Zmodem.Session

/-!
# What the machines can do

All that a call of either machine can come to when it does not fail.
-/

namespace Rabbithole.Zmodem

open Foundation

/-!
## The receiver
-/

namespace Receiver

inductive Move (r : Receiver) : RecvEvent -> List RecvAction -> Receiver -> Prop where
  | again {h : Header} {reply : RecvAction} (recoveries : Nat)
      (hreply : r.lastReply = some reply)
      (hasked : h.frameType = .znak ∨ r.state = .done) :
      Move r (.header h) [reply] { r with recoveries := recoveries }
  | init {h : Header} (htype : h.frameType = .zrqinit)
      (hstate : r.state = .awaitingInit ∨ r.state = .awaitingFile) :
      Move r (.header h) [zrinit]
        { r with state := .awaitingFile, lastReply := some zrinit }
  | offered {h : Header} (htype : h.frameType = .zfile) (hstate : r.state = .awaitingFile) :
      Move r (.header h) [] { r with state := .awaitingFileInfo }
  | fin {h : Header} (htype : h.frameType = .zfin) (hstate : r.state = .awaitingFile) :
      Move r (.header h) [.sendHeader (Header.new .zfin) .hex, .sendOverAndOut, .finished]
        { r with
          state := .done
          lastReply := some (.sendHeader (Header.new .zfin) .hex) }
  | opened {payload : Bytes} {frameEnd : FrameEnd} {info : FileInfo}
      (hstate : r.state = .awaitingFileInfo) (hinfo : FileInfo.decode payload = .ok info) :
      Move r (.data payload frameEnd) [.openFile info, zrpos r.resumeOffset]
        { r with
          resumeOffset := 0
          state := .awaitingData r.resumeOffset
          lastReply := some (zrpos r.resumeOffset) }
  | frame {h : Header} {offset : UInt32} (htype : h.frameType = .zdata)
      (hstate : r.state = .awaitingData offset) (hpos : h.pos = offset) :
      Move r (.header h) [] { r with state := .receivingData offset }
  | correct {h : Header} {offset : UInt32} (htype : h.frameType ≠ .znak)
      (hstate : r.state = .awaitingData offset) :
      Move r (.header h) [zrpos offset] { r with lastReply := some (zrpos offset) }
  | closed {h : Header} {offset : UInt32} (htype : h.frameType = .zeof)
      (hstate : r.state = .awaitingData offset) (hpos : h.pos = offset) :
      Move r (.header h) [.closeFile, zrinit]
        { r with state := .awaitingFile, lastReply := some zrinit }
  | wrote {payload : Bytes} {frameEnd : FrameEnd} {offset : UInt32} {state : RecvState}
      (hstate : r.state = .receivingData offset)
      (hafter : state = .receivingData (offset + UInt32.ofNat payload.length) ∨
        state = .awaitingData (offset + UInt32.ofNat payload.length)) :
      Move r (.data payload frameEnd) [.writeData offset payload] { r with state := state }
  | acknowledged {payload : Bytes} {frameEnd : FrameEnd} {offset : UInt32} {state : RecvState}
      (hstate : r.state = .receivingData offset)
      (hafter : state = .receivingData (offset + UInt32.ofNat payload.length) ∨
        state = .awaitingData (offset + UInt32.ofNat payload.length)) :
      Move r (.data payload frameEnd)
        [.writeData offset payload, zack (offset + UInt32.ofNat payload.length)]
        { r with
          state := state
          lastReply := some (zack (offset + UInt32.ofNat payload.length)) }

variable {r r' : Receiver} {actions : List RecvAction} {event : RecvEvent} {e : SessionError}

theorem corruptHeader_ok (h : r.corruptHeader = (.ok actions, r')) :
    actions = [.sendHeader (Header.new .znak) .hex] ∧
      exists recoveries, r' = { r with recoveries := recoveries } := by
  unfold corruptHeader at h
  split at h
  · cases h
  · rename_i recoveries _
    cases h
    exact ⟨rfl, recoveries, rfl⟩

theorem declineFile_ok (h : r.declineFile = (.ok actions, r')) :
    r.state = .awaitingFileInfo ∧ actions = [zskip] ∧
      r' = { r with resumeOffset := 0, state := .awaitingFile, lastReply := some zskip } := by
  unfold declineFile at h
  split at h
  · cases h
  · rename_i hstate
    cases h
    exact ⟨not_not.mp hstate, rfl, rfl⟩

theorem not_znak_of_asksAgain (hplain : ¬ r.asksAgain event = true) (h : Header)
    (heq : event = .header h) : h.frameType ≠ .znak := by
  intro hznak
  apply hplain
  subst heq
  unfold asksAgain
  simp [hznak]

theorem move_of_receive {offset : UInt32} {payload : Bytes} {frameEnd : FrameEnd}
    (hstate : r.state = .receivingData offset)
    (h : r.receive offset payload frameEnd = (.ok actions, r')) :
    Move r (.data payload frameEnd) actions
      { r' with
        lastReply := (actions.reverse.find? RecvAction.isSendHeader).or r'.lastReply } := by
  unfold receive at h
  cases frameEnd with
  | zcrcg =>
      cases h
      exact Move.wrote hstate (Or.inl rfl)
  | zcrce =>
      cases h
      exact Move.wrote hstate (Or.inr rfl)
  | zcrcq =>
      cases h
      exact Move.acknowledged hstate (Or.inl rfl)
  | zcrcw =>
      cases h
      exact Move.acknowledged hstate (Or.inr rfl)

theorem move_of_advanceInner (hplain : forall h, event = .header h -> h.frameType ≠ .znak)
    (h : r.advanceInner event = (.ok actions, r')) : Move r event actions
      { r' with
        lastReply := (actions.reverse.find? RecvAction.isSendHeader).or r'.lastReply } := by
  unfold advanceInner at h
  dsimp only at h
  split at h
  · rename_i hd hstate
    split at h
    · rename_i htype
      cases h
      exact Move.init htype (Or.inl hstate)
    · cases h
  · rename_i hd hstate
    split at h
    · rename_i htype
      cases h
      have hmove := Move.init htype (Or.inr hstate)
      rw [← hstate] at hmove
      exact hmove
    · split at h
      · rename_i htype
        cases h
        exact Move.offered htype hstate
      · split at h
        · rename_i htype
          cases h
          exact Move.fin htype hstate
        · cases h
  · rename_i payload frameEnd hstate
    split at h
    · cases h
    · rename_i info hinfo
      cases h
      exact Move.opened hstate hinfo
  · rename_i offset hd hstate
    split at h
    · rename_i htype
      split at h
      · rename_i hpos
        cases h
        exact Move.frame htype hstate hpos
      · cases h
        exact Move.correct (hplain hd rfl) hstate
    · split at h
      · rename_i htype
        split at h
        · rename_i hpos
          cases h
          exact Move.closed htype hstate hpos
        · cases h
          exact Move.correct (hplain hd rfl) hstate
      · cases h
  · rename_i offset payload frameEnd hstate
    exact move_of_receive hstate h
  · cases h

theorem move_of_advance (h : r.advance event = (.ok actions, r')) : Move r event actions r' := by
  unfold advance at h
  split at h
  · rename_i hagain
    split at h
    · cases h
    · rename_i recoveries _
      split at h
      · rename_i reply hreply
        cases h
        cases event with
        | data payload frameEnd => cases hagain
        | header hd =>
            refine Move.again recoveries hreply ?_
            unfold asksAgain at hagain
            simp only [Bool.or_eq_true, Bool.and_eq_true, beq_iff_eq] at hagain
            rcases hagain with hznak | hdone
            · exact Or.inl hznak
            · exact Or.inr hdone.left
      · cases h
  · rename_i hplain
    split at h
    · cases h
    · rename_i actions' r'' hinner
      cases h
      exact move_of_advanceInner (not_znak_of_asksAgain hplain) hinner

/-!
A call that fails spends a recovery at most.
-/

theorem corruptHeader_error (h : r.corruptHeader = (.error e, r')) :
    exists recoveries, r' = { r with recoveries := recoveries } := by
  unfold corruptHeader at h
  split at h
  · cases h
    exact ⟨r.recoveries, rfl⟩
  · cases h

theorem declineFile_error (h : r.declineFile = (.error e, r')) :
    exists recoveries, r' = { r with recoveries := recoveries } := by
  unfold declineFile at h
  split at h
  · cases h
    exact ⟨r.recoveries, rfl⟩
  · cases h

theorem advanceInner_error (h : r.advanceInner event = (.error e, r')) : r' = r := by
  unfold advanceInner at h
  dsimp only at h
  split at h
  · split at h
    · cases h
    · cases h
      rfl
  · split at h
    · cases h
    · split at h
      · cases h
      · split at h
        · cases h
        · cases h
          rfl
  · split at h
    · cases h
      rfl
    · cases h
  · split at h
    · split at h
      · cases h
      · cases h
    · split at h
      · split at h
        · cases h
        · cases h
      · cases h
        rfl
  · rename_i payload frameEnd _
    unfold receive at h
    cases frameEnd with
    | zcrce | zcrcg | zcrcq | zcrcw => cases h
  · cases h
    rfl

theorem advance_error (h : r.advance event = (.error e, r')) :
    exists recoveries, r' = { r with recoveries := recoveries } := by
  unfold advance at h
  split at h
  · split at h
    · cases h
      exact ⟨r.recoveries, rfl⟩
    · rename_i recoveries _
      split at h
      · cases h
      · cases h
        exact ⟨recoveries, rfl⟩
  · split at h
    · rename_i hinner
      cases h
      rw [advanceInner_error hinner]
      exact ⟨r.recoveries, rfl⟩
    · cases h

end Receiver

/-!
## The sender
-/

namespace Sender

/-- From where a sender goes to streaming, or learns that its file is not wanted. -/
def offering : SendState -> Bool
  | .awaitingFileAck => true
  | .streaming _ => true
  | .awaitingEofAck => true
  | _ => false

inductive Move (t : Sender) : SendEvent -> List SendAction -> Sender -> Prop where
  | again {h : Header} (recoveries : Nat) (hstate : t.state ≠ .done) :
      Move t (.header h) t.lastExchange { t with recoveries := recoveries }
  | offer {h : Header} {format : HeaderFormat} (fc32 : Bool) (htype : h.frameType = .zrinit)
      (hstate : t.state = .awaitingRinit) :
      Move t (.header h) [.sendHeader (Header.new .zfile) format, .sendFileInfo t.info]
        { t with
          peerCanFc32 := fc32
          state := .awaitingFileAck
          lastExchange := [.sendHeader (Header.new .zfile) format, .sendFileInfo t.info] }
  | anchored {h : Header} {format : HeaderFormat} (htype : h.frameType = .zrpos)
      (hstate : offering t.state = true) :
      Move t (.header h)
        [.sendHeader (Header.withPos .zdata h.pos) format, .streamData h.pos]
        { t with
          state := .streaming h.pos
          lastExchange :=
            [.sendHeader (Header.withPos .zdata h.pos) format, .streamData h.pos] }
  | acknowledged {h : Header} (htype : h.frameType = .zack) :
      Move t (.header h) [] t
  | exhausted {offset start : UInt32} (hstate : t.state = .streaming start) :
      Move t (.dataExhausted offset) [.sendHeader (Header.withPos .zeof offset) .hex]
        { t with
          state := .awaitingEofAck
          lastExchange := [.sendHeader (Header.withPos .zeof offset) .hex] }
  | closed {h : Header} (htype : h.frameType = .zrinit) (hstate : t.state = .awaitingEofAck) :
      Move t (.header h) zfin { t with state := .awaitingFinAck, lastExchange := zfin }
  | skipped {h : Header} (hstate : offering t.state = true) :
      Move t (.header h) zfin
        { t with skipped := true, state := .awaitingFinAck, lastExchange := zfin }
  | finished {h : Header} (hstate : t.state = .awaitingFinAck) :
      Move t (.header h) [.sendOverAndOut, .finished] { t with state := .done }

variable {t t' : Sender} {e : SessionError} {actions : List SendAction} {event : SendEvent}
  {h : Header}

theorem corruptHeader_ok (h : t.corruptHeader = (.ok actions, t')) :
    actions = [.sendHeader (Header.new .znak) .hex] ∧
      exists recoveries, t' = { t with recoveries := recoveries } := by
  unfold corruptHeader at h
  split at h
  · cases h
  · rename_i recoveries _
    cases h
    exact ⟨rfl, recoveries, rfl⟩

theorem start_ok (h : t.start = (.ok actions, t')) :
    t.state = .start ∧ actions = zrqinit ∧
      t' = { t with state := .awaitingRinit, lastExchange := zrqinit } := by
  unfold start at h
  split at h
  · cases h
  · rename_i hstate
    cases h
    exact ⟨not_not.mp hstate, rfl, rfl⟩

theorem move_of_retryExchange {hd : Header} (h : t.retryExchange = (.ok actions, t')) :
    Move t (.header hd) actions t' := by
  unfold retryExchange at h
  split at h
  · cases h
  · rename_i hpending
    split at h
    · cases h
    · rename_i recoveries _
      cases h
      exact Move.again recoveries (fun hdone => hpending (Or.inr hdone))

theorem move_of_advancePlain (h : t.advancePlain event = (.ok actions, t')) :
    Move t event actions t' := by
  unfold advancePlain at h
  split at h
  · cases h
  · rename_i actions' t'' hinner
    unfold advanceInner at hinner
    dsimp only at hinner
    split at hinner
    · rename_i hd hstate
      split at hinner
      · rename_i htype
        cases hinner
        cases h
        exact Move.offer _ htype hstate
      · cases hinner
    · rename_i hd hstate
      split at hinner
      · rename_i htype
        cases hinner
        cases h
        exact Move.anchored htype (by rw [hstate]; rfl)
      · cases hinner
    · rename_i start hd hstate
      split at hinner
      · rename_i htype
        cases hinner
        cases h
        exact Move.anchored htype (by rw [hstate]; rfl)
      · split at hinner
        · rename_i htype
          cases hinner
          cases h
          exact Move.acknowledged htype
        · cases hinner
    · rename_i start offset hstate
      cases hinner
      cases h
      exact Move.exhausted hstate
    · rename_i hd hstate
      split at hinner
      · rename_i htype
        cases hinner
        cases h
        exact Move.anchored htype (by rw [hstate]; rfl)
      · split at hinner
        · rename_i htype
          cases hinner
          cases h
          exact Move.closed htype hstate
        · cases hinner
    · rename_i hd hstate
      split at hinner
      · cases hinner
        cases h
        exact Move.finished hstate
      · cases hinner
    · cases hinner

/-- A header: a refusal of a file that is on offer, what is only to be said again, or any
other. -/
theorem advance_cases (t : Sender) (h : Header) :
    (offering t.state = true ∧ t.advance (.header h) = t.skip) ∨
      t.advance (.header h) = t.retryExchange ∨
        t.advance (.header h) = t.advancePlain (.header h) := by
  unfold advance
  dsimp only
  split
  · exact Or.inr (Or.inl rfl)
  split
  · rcases t with ⟨state, info, fc32, recoveries, lastExchange, skipped⟩
    cases state with
    | start | awaitingRinit | done => exact Or.inr (Or.inr rfl)
    | awaitingFileAck | streaming offset | awaitingEofAck => exact Or.inl ⟨rfl, rfl⟩
    | awaitingFinAck =>
        cases skipped with
        | true => exact Or.inr (Or.inl rfl)
        | false => exact Or.inr (Or.inr rfl)
  · exact Or.inr (Or.inr rfl)

theorem move_of_advance (h : t.advance event = (.ok actions, t')) : Move t event actions t' := by
  cases event with
  | dataExhausted offset => exact move_of_advancePlain h
  | header hd =>
      rcases advance_cases t hd with ⟨hstate, heq⟩ | heq | heq
      · rw [heq] at h
        cases h
        exact Move.skipped hstate
      · rw [heq] at h
        exact move_of_retryExchange h
      · rw [heq] at h
        exact move_of_advancePlain h

theorem corruptHeader_error (h : t.corruptHeader = (.error e, t')) : t' = t := by
  unfold corruptHeader at h
  split at h
  · cases h
    rfl
  · cases h

theorem start_error (h : t.start = (.error e, t')) : t' = t := by
  unfold start at h
  split at h
  · cases h
    rfl
  · cases h

theorem retryExchange_error (h : t.retryExchange = (.error e, t')) : t' = t := by
  unfold retryExchange at h
  split at h
  · cases h
    rfl
  · split at h
    · cases h
      rfl
    · cases h

theorem advanceInner_error (h : t.advanceInner event = (.error e, t')) : t' = t := by
  unfold advanceInner at h
  dsimp only at h
  split at h
  · split at h
    · cases h
    · cases h
      rfl
  · split at h
    · cases h
    · cases h
      rfl
  · split at h
    · cases h
    · split at h
      · cases h
      · cases h
        rfl
  · cases h
  · split at h
    · cases h
    · split at h
      · cases h
      · cases h
        rfl
  · split at h
    · cases h
    · cases h
      rfl
  · cases h
    rfl

theorem advancePlain_error (h : t.advancePlain event = (.error e, t')) : t' = t := by
  unfold advancePlain at h
  split at h
  · rename_i hinner
    cases h
    exact advanceInner_error hinner
  · split at h
    · cases h
    · cases h

theorem advance_error (h : t.advance event = (.error e, t')) : t' = t := by
  cases event with
  | dataExhausted offset => exact advancePlain_error h
  | header hd =>
      rcases advance_cases t hd with ⟨_, heq⟩ | heq | heq
      · rw [heq] at h
        cases h
      · rw [heq] at h
        exact retryExchange_error h
      · rw [heq] at h
        exact advancePlain_error h

end Sender

end Rabbithole.Zmodem
