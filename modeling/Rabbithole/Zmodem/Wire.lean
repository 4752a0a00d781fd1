import Rabbithole.Foundation.Run
import Rabbithole.Zmodem.Session

/-!
# A session

A sender and a receiver with their drivers, and what is under way between them.  A
header can be spoilt before it is read.  A driver stops at the first error of its machine.
-/

namespace Rabbithole.Zmodem

open Foundation

/-- A file the receiver has closed: its offer, where it was resumed, what was written. -/
structure Closed where
  info : Option FileInfo
  resume : UInt32
  written : Bytes

/--
The state of a session.  Where the sender is to go on streaming is kept by its driver.
The last five fields change nothing: they keep what the receiver has read, the file it has
open, and those it has closed.
-/
structure Wire where
  sender : Sender
  receiver : Receiver
  toReceiver : List RecvEvent
  toSender : List Header
  stream : Nat
  senderStopped : Bool
  receiverStopped : Bool
  read : List RecvEvent
  opened : Option FileInfo
  resume : UInt32
  written : Bytes
  closed : List Closed

namespace Wire

def new (info : FileInfo) : Wire where
  sender := Sender.new info
  receiver := Receiver.new
  toReceiver := []
  toSender := []
  stream := 0
  senderStopped := false
  receiverStopped := false
  read := []
  opened := none
  resume := 0
  written := []
  closed := []

/-!
## The drivers
-/

def send (s : Wire) : SendAction -> Wire
  | .sendHeader h _ => { s with toReceiver := s.toReceiver ++ [.header h] }
  | .sendFileInfo info =>
      match info.encode with
      | .error _ => { s with senderStopped := true }
      | .ok payload => { s with toReceiver := s.toReceiver ++ [.data payload .zcrcw] }
  | .streamData start => { s with stream := start.toNat }
  | .sendOverAndOut => s
  | .finished => s

def senderDid (s : Wire) : Sender.Outcome -> Wire
  | (.error _, t) => { s with sender := t, senderStopped := true }
  | (.ok actions, t) => actions.foldl send { s with sender := t }

/-- An action of the receiver, with the offset at which a file would be resumed. -/
def act (resume : UInt32) (s : Wire) : RecvAction -> Wire
  | .sendHeader h _ => { s with toSender := s.toSender ++ [h] }
  | .openFile info => { s with opened := some info, resume := resume, written := [] }
  | .writeData _ data => { s with written := s.written ++ data }
  | .closeFile => { s with closed := ⟨s.opened, s.resume, s.written⟩ :: s.closed }
  | .sendOverAndOut => s
  | .finished => s

def receiverDid (s : Wire) : Receiver.Outcome -> Wire
  | (.error _, r) => { s with receiver := r, receiverStopped := true }
  | (.ok actions, r) => actions.foldl (act s.receiver.resumeOffset) { s with receiver := r }

/-!
## What can happen
-/

inductive Event where
  | start
  | put (length : Nat) (frameEnd : FrameEnd)
  | exhausted
  | toReceiver (corrupt : Bool)
  | skipData
  | setResume (offset : UInt32)
  | decline
  | toSender (corrupt : Bool)
deriving DecidableEq

/-- A header for which the receiver waits, so that subpackets before it are passed over. -/
def awaitsHeader : RecvState -> Bool
  | .awaitingFileInfo => false
  | .receivingData _ => false
  | _ => true

def isStreaming : SendState -> Bool
  | .streaming _ => true
  | _ => false

/-- The receiver's driver takes the next thing that arrives. -/
def deliver (s : Wire) (item : RecvEvent) (corrupt : Bool) : Option Wire :=
  match item, corrupt with
  | .header _, true => some (s.receiverDid s.receiver.corruptHeader)
  | .data _ _, true => none
  | item, false => some (s.receiverDid (s.receiver.advance item))

def step (file : Bytes) (s : Wire) : Event -> Option Wire
  | .start =>
      if s.senderStopped then none else some (s.senderDid s.sender.start)
  | .put length frameEnd =>
      if s.senderStopped || !isStreaming s.sender.state then none
      else
        let payload := (file.drop s.stream).take length
        some { s with
          toReceiver := s.toReceiver ++ [.data payload frameEnd]
          stream := s.stream + payload.length }
  | .exhausted =>
      if s.senderStopped || !isStreaming s.sender.state then none
      else if file.length <= s.stream then
        some (s.senderDid (s.sender.advance (.dataExhausted (UInt32.ofNat file.length))))
      else none
  | .toReceiver corrupt =>
      if s.receiverStopped then none
      else
        match s.toReceiver with
        | [] => none
        | item :: rest =>
            deliver { s with toReceiver := rest, read := s.read ++ [item] } item corrupt
  | .skipData =>
      if s.receiverStopped || !awaitsHeader s.receiver.state then none
      else
        match s.toReceiver with
        | .data payload frameEnd :: rest =>
            some { s with toReceiver := rest, read := s.read ++ [.data payload frameEnd] }
        | _ => none
  | .setResume offset =>
      if s.receiverStopped then none
      else if offset.toNat <= file.length then
        some { s with receiver := s.receiver.setResumeOffset offset }
      else none
  | .decline =>
      if s.receiverStopped then none else some (s.receiverDid s.receiver.declineFile)
  | .toSender corrupt =>
      if s.senderStopped then none
      else
        match s.toSender with
        | [] => none
        | h :: rest =>
            some ({ s with toSender := rest }.senderDid
              (if corrupt then s.sender.corruptHeader else s.sender.advance (.header h)))

/-!
## All that a step can be
-/

inductive Taken (file : Bytes) (s : Wire) : Event -> Wire -> Prop where
  | start (hlive : s.senderStopped = false) :
      Taken file s .start (s.senderDid s.sender.start)
  | put {length : Nat} {frameEnd : FrameEnd} (hlive : s.senderStopped = false)
      (hstate : isStreaming s.sender.state = true) :
      Taken file s (.put length frameEnd) { s with
        toReceiver := s.toReceiver ++ [.data ((file.drop s.stream).take length) frameEnd]
        stream := s.stream + ((file.drop s.stream).take length).length }
  | exhausted (hlive : s.senderStopped = false) :
      Taken file s .exhausted
        (s.senderDid (s.sender.advance (.dataExhausted (UInt32.ofNat file.length))))
  | toReceiver {corrupt : Bool} {item : RecvEvent} {rest : List RecvEvent} {s' : Wire}
      (hlive : s.receiverStopped = false) (hitems : s.toReceiver = item :: rest)
      (hdeliver : deliver { s with toReceiver := rest, read := s.read ++ [item] } item corrupt =
        some s') :
      Taken file s (.toReceiver corrupt) s'
  | skipData {payload : Bytes} {frameEnd : FrameEnd} {rest : List RecvEvent}
      (hstate : awaitsHeader s.receiver.state = true)
      (hitems : s.toReceiver = .data payload frameEnd :: rest) :
      Taken file s .skipData
        { s with toReceiver := rest, read := s.read ++ [.data payload frameEnd] }
  | setResume {offset : UInt32} (hoffset : offset.toNat <= file.length) :
      Taken file s (.setResume offset)
        { s with receiver := s.receiver.setResumeOffset offset }
  | decline :
      Taken file s .decline (s.receiverDid s.receiver.declineFile)
  | toSender {corrupt : Bool} {h : Header} {rest : List Header}
      (hlive : s.senderStopped = false) (hqueue : s.toSender = h :: rest) :
      Taken file s (.toSender corrupt) ({ s with toSender := rest }.senderDid
        (if corrupt then s.sender.corruptHeader else s.sender.advance (.header h)))

theorem taken_of_step {file : Bytes} {s s' : Wire} {event : Event}
    (hstep : step file s event = some s') : Taken file s event s' := by
  unfold step at hstep
  cases event with
  | start =>
      dsimp only at hstep
      split at hstep
      · cases hstep
      · rename_i hlive
        cases hstep
        exact Taken.start (Bool.eq_false_iff.mpr hlive)
  | put length frameEnd =>
      dsimp only at hstep
      split at hstep
      · cases hstep
      · rename_i hlive
        cases hstep
        rw [Bool.or_eq_true, not_or, Bool.not_eq_true', Bool.not_eq_false] at hlive
        exact Taken.put (Bool.eq_false_iff.mpr hlive.left) hlive.right
  | exhausted =>
      dsimp only at hstep
      split at hstep
      · cases hstep
      · rename_i hlive
        rw [Bool.or_eq_true, not_or] at hlive
        split at hstep
        · cases hstep
          exact Taken.exhausted (Bool.eq_false_iff.mpr hlive.left)
        · cases hstep
  | toReceiver corrupt =>
      dsimp only at hstep
      split at hstep
      · cases hstep
      · rename_i hlive
        split at hstep
        · cases hstep
        · rename_i item rest hitems
          exact Taken.toReceiver (Bool.eq_false_iff.mpr hlive) hitems hstep
  | skipData =>
      dsimp only at hstep
      split at hstep
      · cases hstep
      · rename_i hlive
        rw [Bool.or_eq_true, not_or, Bool.not_eq_true', Bool.not_eq_false] at hlive
        split at hstep
        · rename_i payload frameEnd rest hitems
          cases hstep
          exact Taken.skipData hlive.right hitems
        · cases hstep
  | setResume offset =>
      dsimp only at hstep
      split at hstep
      · cases hstep
      · split at hstep
        · rename_i hoffset
          cases hstep
          exact Taken.setResume hoffset
        · cases hstep
  | decline =>
      dsimp only at hstep
      split at hstep
      · cases hstep
      · cases hstep
        exact Taken.decline
  | toSender corrupt =>
      dsimp only at hstep
      split at hstep
      · cases hstep
      · rename_i hlive
        split at hstep
        · cases hstep
        · rename_i h rest hqueue
          cases hstep
          exact Taken.toSender (Bool.eq_false_iff.mpr hlive) hqueue

end Wire

end Rabbithole.Zmodem
