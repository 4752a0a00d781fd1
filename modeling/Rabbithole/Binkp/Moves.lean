import Rabbithole.Binkp.Session

/-!
# What a session can do

All that one event can come to, whatever the phase and whoever sent it.
-/

namespace Rabbithole.Binkp

open Foundation

def emitted : Outcome -> List Action
  | .ok actions => actions
  | .error _ => []

namespace Session

inductive Move (s : Session) : Event -> List Action -> Session -> Prop where
  | quiet {e : Event} (challenge : Option Bytes) (addresses : List Address) :
      Move s e [] { s with peerChallenge := challenge, peerAddresses := addresses }
  | password {e : Event} (value : String) (addresses : List Address)
      (hphase : s.phase = .greeting) :
      Move s e [.sendCommand (.pwd value)]
        { s with peerAddresses := addresses, phase := .awaitOk }
  | entered {e : Event} {front : List Action} (hphase : s.phase = .greeting ∨ s.phase = .awaitOk)
      (hfront : front = [.sendCommand (.ok "secure"), .authenticated] ∨
        front = [.authenticated]) :
      Move s e (front ++ s.enterTransfer.fst) s.enterTransfer.snd
  | failed {e : Event} {actions : List Action} {text : String}
      (hactions : actions = [.aborted text] ∨
        actions = [.sendCommand (.err text), .aborted text]) :
      Move s e actions { s with phase := .failed }
  | file {info : FileInfo} (hphase : s.phase = .transfer) (hnone : s.receiving = none)
      (hsize : info.size ≠ 0) :
      Move s (.command (.file info)) [.expectFile info]
        { s with receiving := some (info, 0) }
  | emptyFile {info : FileInfo} (hphase : s.phase = .transfer) (hnone : s.receiving = none)
      (hsize : info.size = 0) :
      Move s (.command (.file info))
        (.expectFile info :: .sendCommand (.got info.id) :: .fileComplete info.id ::
          s.maybeFinish.fst) s.maybeFinish.snd
  | data {bytes : Bytes} {info : FileInfo} {received : UInt64} (hphase : s.phase = .transfer)
      (hopen : s.receiving = some (info, received))
      (hmore : ¬ info.size <= received + UInt64.ofNat bytes.length) :
      Move s (.data bytes) [.writeData bytes]
        { s with receiving := some (info, received + UInt64.ofNat bytes.length) }
  | lastData {bytes : Bytes} {info : FileInfo} {received : UInt64} (hphase : s.phase = .transfer)
      (hopen : s.receiving = some (info, received))
      (hlast : info.size <= received + UInt64.ofNat bytes.length) :
      Move s (.data bytes)
        (.writeData bytes :: .sendCommand (.got info.id) :: .fileComplete info.id ::
          { s with receiving := none }.maybeFinish.fst) { s with receiving := none }.maybeFinish.snd
  | acked {e : Event} {id id' : FileId} (hphase : s.phase = .transfer)
      (hsending : s.sending = some id)
      (hevent : e = .command (.got id') ∨ e = .command (.skip id')) :
      Move s e { s with sending := none }.startNextSend.fst
        { s with sending := none }.startNextSend.snd
  | eob (hphase : s.phase = .transfer) :
      Move s (.command .eob) { s with peerEob := true }.maybeFinish.fst
        { s with peerEob := true }.maybeFinish.snd

variable {hashes : Hashes} {s : Session}

theorem Move.unchanged {e : Event} : Move s e [] s :=
  Move.quiet s.peerChallenge s.peerAddresses

theorem move_greeting (hphase : s.phase = .greeting) (e : Event) :
    Move s e (emitted (s.advanceGreeting hashes e).fst) (s.advanceGreeting hashes e).snd := by
  cases e with
  | data bytes => exact Move.unchanged
  | command cmd =>
      cases cmd with
      | nul line =>
          unfold advanceGreeting
          dsimp only
          split
          · exact Move.quiet _ s.peerAddresses
          · exact Move.unchanged
      | adr addresses =>
          unfold advanceGreeting
          dsimp only
          split
          · exact Move.password _ addresses hphase
          · exact Move.quiet s.peerChallenge addresses
      | pwd value =>
          unfold advanceGreeting
          dsimp only
          split
          · exact Move.unchanged
          · split
            · exact Move.entered (Or.inl hphase) (Or.inl rfl)
            · exact Move.failed (Or.inr rfl)
      | err text | bsy text => exact Move.failed (Or.inl rfl)
      | file info | ok text | eob | got id | get id | skip id => exact Move.unchanged

theorem move_awaitOk (hphase : s.phase = .awaitOk) (e : Event) :
    Move s e (emitted (s.advanceAwaitOk e).fst) (s.advanceAwaitOk e).snd := by
  cases e with
  | data bytes => exact Move.unchanged
  | command cmd =>
      cases cmd with
      | ok text => exact Move.entered (Or.inr hphase) (Or.inr rfl)
      | err text | bsy text => exact Move.failed (Or.inl rfl)
      | nul line | adr addresses | pwd value | file info | eob | got id | get id | skip id =>
          exact Move.unchanged

section

variable (hphase : s.phase = .transfer)
include hphase

theorem move_onFile (info : FileInfo) :
    Move s (.command (.file info)) (emitted (s.onFile info).fst) (s.onFile info).snd := by
  unfold onFile
  split
  · exact Move.unchanged
  · rename_i hopen
    have hnone : s.receiving = none := by
      cases hreceiving : s.receiving with
      | none => rfl
      | some found =>
          rw [hreceiving] at hopen
          exact absurd rfl hopen
    split
    · rename_i hsize
      exact Move.emptyFile hphase hnone hsize
    · rename_i hsize
      exact Move.file hphase hnone hsize

theorem move_onData (bytes : Bytes) :
    Move s (.data bytes) (emitted (s.onData bytes).fst) (s.onData bytes).snd := by
  unfold onData
  split
  · exact Move.unchanged
  · rename_i info received hopen
    dsimp only
    split
    · rename_i hlast
      exact Move.lastData hphase hopen hlast
    · rename_i hmore
      exact Move.data hphase hopen hmore

theorem move_onGot {e : Event} {id : FileId}
    (hevent : e = .command (.got id) ∨ e = .command (.skip id)) :
    Move s e (emitted s.onGot.fst) s.onGot.snd := by
  unfold onGot
  split
  · rename_i sent hsending
    exact Move.acked hphase hsending hevent
  · exact Move.unchanged

theorem move_transfer (e : Event) :
    Move s e (emitted (s.advanceTransfer e).fst) (s.advanceTransfer e).snd := by
  cases e with
  | data bytes => exact move_onData hphase bytes
  | command cmd =>
      cases cmd with
      | file info => exact move_onFile hphase info
      | got id => exact move_onGot hphase (Or.inl rfl)
      | skip id => exact move_onGot hphase (Or.inr rfl)
      | eob => exact Move.eob hphase
      | err text | bsy text => exact Move.failed (Or.inl rfl)
      | nul line | adr addresses | pwd value | ok text | get id => exact Move.unchanged

end

theorem move_of_advance (hashes : Hashes) (s : Session) (e : Event) :
    Move s e (emitted (s.advance hashes e).fst) (s.advance hashes e).snd := by
  unfold advance
  split
  · rename_i hphase
    exact move_greeting hphase e
  · rename_i hphase
    exact move_awaitOk hphase e
  · rename_i hphase
    exact move_transfer hphase e
  · exact Move.unchanged
  · exact Move.unchanged

/-!
## Finishing and sending on

Neither touches the file that comes in, nor what is left of the batch.
-/

/-- The files not yet acknowledged, the one that is out in front. -/
def batch (s : Session) : List FileId :=
  s.sending.toList ++ s.outgoing.map FileInfo.id

theorem maybeFinish_cases (s : Session) :
    (s.maybeFinish = ([], s)) ∨
      (s.maybeFinish = ([.finished], { s with phase := .done }) ∧ s.phase = .transfer) := by
  unfold maybeFinish
  split
  · rename_i hall
    exact Or.inr ⟨rfl, hall.right.right.right.right⟩
  · exact Or.inl rfl

theorem startNextSend_cases (s : Session) :
    (exists info rest, s.outgoing = info :: rest ∧
      s.startNextSend = ([.sendCommand (.file info), .streamFile info],
        { s with outgoing := rest, sending := some info.id })) ∨
    (s.outgoing = [] ∧ exists front, (front = [] ∨ front = [.sendCommand .eob]) ∧
      s.startNextSend = (front ++ { s with localEob := true }.maybeFinish.fst,
        { s with localEob := true }.maybeFinish.snd)) := by
  unfold startNextSend
  split
  · rename_i info rest hout
    exact Or.inl ⟨info, rest, hout, rfl⟩
  · rename_i hout
    right
    refine ⟨hout, ?_⟩
    split
    · rename_i heob
      have hsame : { s with localEob := true } = s := by
        cases s
        cases heob
        rfl
      rw [hsame]
      exact ⟨[], Or.inl rfl, rfl⟩
    · exact ⟨[.sendCommand .eob], Or.inr rfl, rfl⟩

theorem startNextSend_cons {s : Session} {info : FileInfo} {rest : List FileInfo}
    (hout : s.outgoing = info :: rest) :
    s.startNextSend = ([.sendCommand (.file info), .streamFile info],
      { s with outgoing := rest, sending := some info.id }) := by
  unfold startNextSend
  split
  · rename_i info' rest' hcons
    cases hout.symm.trans hcons
    rfl
  · rename_i hnil
    cases hout.symm.trans hnil

theorem startNextSend_nil {s : Session} (hout : s.outgoing = []) (heob : s.localEob = false) :
    s.startNextSend = (.sendCommand .eob :: { s with localEob := true }.maybeFinish.fst,
      { s with localEob := true }.maybeFinish.snd) := by
  unfold startNextSend
  split
  · rename_i info rest hcons
    cases hout.symm.trans hcons
  · rw [if_neg (by rw [heob]; exact Bool.false_ne_true)]

@[simp] theorem receiving_maybeFinish (s : Session) :
    s.maybeFinish.snd.receiving = s.receiving := by
  rcases s.maybeFinish_cases with h | ⟨h, -⟩
  · rw [h]
  · rw [h]

@[simp] theorem batch_maybeFinish (s : Session) : s.maybeFinish.snd.batch = s.batch := by
  rcases s.maybeFinish_cases with h | ⟨h, -⟩
  · rw [h]
  · rw [h]
    rfl

@[simp] theorem receiving_startNextSend (s : Session) :
    s.startNextSend.snd.receiving = s.receiving := by
  rcases s.startNextSend_cases with ⟨info, rest, -, h⟩ | ⟨-, front, -, h⟩
  · rw [h]
  · rw [h, receiving_maybeFinish]

theorem batch_startNextSend (hsending : s.sending = none) :
    s.startNextSend.snd.batch = s.batch := by
  rcases s.startNextSend_cases with ⟨info, rest, hout, h⟩ | ⟨-, front, -, h⟩
  · rw [h]
    unfold batch
    rw [hsending, hout]
    rfl
  · rw [h, batch_maybeFinish]
    rfl

/-- Files go either way, or did. -/
def authed (s : Session) : Prop :=
  s.phase = .transfer ∨ s.phase = .done

theorem authed_maybeFinish {s : Session} (h : s.authed) : s.maybeFinish.snd.authed := by
  rcases s.maybeFinish_cases with heq | ⟨heq, -⟩
  · rw [heq]
    exact h
  · rw [heq]
    exact Or.inr rfl

theorem authed_startNextSend {s : Session} (h : s.authed) : s.startNextSend.snd.authed := by
  rcases s.startNextSend_cases with ⟨info, rest, -, heq⟩ | ⟨-, front, -, heq⟩
  · rw [heq]
    exact h
  · rw [heq]
    exact @authed_maybeFinish { s with localEob := true } h

end Session

end Rabbithole.Binkp
