import Rabbithole.Zmodem.Traffic

/-!
# What a step can be

All that can happen in a session, as the receiver and the headers to the sender show it.
-/

namespace Rabbithole.Zmodem

open Foundation List

/-- The sender with the headers that are under way to it, before a step and after it. -/
inductive Sender.Turn (t : Sender) : List Header -> Sender -> List Header -> Prop where
  | kept {queue rest : List Header} (recoveries : Nat) (hrest : rest <:+ queue) :
      Turn t queue { t with recoveries := recoveries } rest
  | started {queue : List Header} (hstate : t.state = .start) :
      Turn t queue { t with state := .awaitingRinit, lastExchange := Sender.zrqinit } queue
  | moved {h : Header} {rest : List Header} {actions : List SendAction} {t' : Sender}
      (hmove : Sender.Move t (.header h) actions t') : Turn t (h :: rest) t' rest
  | exhausted {queue : List Header} {offset : UInt32} {actions : List SendAction} {t' : Sender}
      (hmove : Sender.Move t (.dataExhausted offset) actions t') : Turn t queue t' queue

/-- What a call of the receiver's machine comes to for a session. -/
inductive Wire.Answer (s : Wire) (item : RecvEvent) : Wire -> Prop where
  | failed (recoveries : Nat) :
      Answer s item { s with
        receiver := { s.receiver with recoveries := recoveries }
        receiverStopped := true }
  | moved {actions : List RecvAction} {r : Receiver}
      (hmove : Receiver.Move s.receiver item actions r) :
      Answer s item (actions.foldl (act s.receiver.resumeOffset) { s with receiver := r })

inductive Wire.Happens (file : Bytes) (s : Wire) : Wire.Event -> Wire -> Prop where
  | sent {event : Wire.Event} {s' : Wire} {t : Sender} {rest : List Header}
      (hturn : Sender.Turn s.sender s.toSender t rest)
      (hsame : SameReceiver { s with sender := t, toSender := rest } s') :
      Happens file s event s'
  | read {item : RecvEvent} {rest : List RecvEvent} {s' : Wire}
      (hlive : s.receiverStopped = false) (hitems : s.toReceiver = item :: rest)
      (hanswer : Answer { s with toReceiver := rest, read := s.read ++ [item] } item s') :
      Happens file s (.toReceiver false) s'
  | spoilt {h : Header} {rest : List RecvEvent} (recoveries : Nat) :
      Happens file s (.toReceiver true) { s with
        receiver := { s.receiver with recoveries := recoveries }
        toReceiver := rest
        toSender := s.toSender ++ [Header.new .znak]
        read := s.read ++ [.header h] }
  | lost {event : Wire.Event} {items : List RecvEvent} {past : List RecvEvent}
      (recoveries : Nat) :
      Happens file s event { s with
        receiver := { s.receiver with recoveries := recoveries }
        toReceiver := items
        read := past
        receiverStopped := true }
  | passed {items : List RecvEvent} {past : List RecvEvent}
      (hstate : awaitsHeader s.receiver.state = true) :
      Happens file s .skipData { s with toReceiver := items, read := past }
  | armed {offset : UInt32} (hoffset : offset.toNat <= file.length) :
      Happens file s (.setResume offset)
        { s with receiver := s.receiver.setResumeOffset offset }
  | declined (hstate : s.receiver.state = .awaitingFileInfo) :
      Happens file s .decline { s with
        receiver := { s.receiver with
          resumeOffset := 0
          state := .awaitingFile
          lastReply := some Receiver.zskip }
        toSender := s.toSender ++ [Header.new .zskip] }

namespace Wire

variable {file : Bytes}

theorem happens_of_senderDid {s : Wire} {event : Event} {rest : List Header}
    {outcome : Sender.Outcome} (hrest : rest <:+ s.toSender)
    (herror : forall e t, outcome = (.error e, t) -> t = s.sender)
    (hok : forall actions t, outcome = (.ok actions, t) ->
      Sender.Turn s.sender s.toSender t rest) :
    Happens file s event ({ s with toSender := rest }.senderDid outcome) := by
  rcases outcome with ⟨result, t⟩
  cases result with
  | error e =>
      rw [herror e t rfl]
      exact Happens.sent (Sender.Turn.kept s.sender.recoveries hrest)
        ⟨rfl, rfl, rfl, rfl, rfl, rfl, rfl, rfl, rfl⟩
  | ok actions =>
      exact Happens.sent (hok actions t rfl) (sameReceiver_foldl_send actions _)

theorem answer_of_advance (s : Wire) (item : RecvEvent) :
    Answer s item (s.receiverDid (s.receiver.advance item)) := by
  cases hresult : s.receiver.advance item with
  | mk result r =>
      cases result with
      | error e =>
          rcases Receiver.advance_error hresult with ⟨recoveries, rfl⟩
          exact Answer.failed recoveries
      | ok actions => exact Answer.moved (Receiver.move_of_advance hresult)

theorem happens_of_deliver {s s' : Wire} {item : RecvEvent} {rest : List RecvEvent} {corrupt : Bool}
    (hlive : s.receiverStopped = false) (hitems : s.toReceiver = item :: rest)
    (hstep : deliver { s with toReceiver := rest, read := s.read ++ [item] } item corrupt =
      some s') : Happens file s (.toReceiver corrupt) s' := by
  unfold deliver at hstep
  split at hstep
  · rename_i h
    cases hstep
    cases hresult : s.receiver.corruptHeader with
    | mk result r =>
        cases result with
        | error e =>
            rcases Receiver.corruptHeader_error hresult with ⟨recoveries, rfl⟩
            exact Happens.lost recoveries
        | ok actions =>
            rcases Receiver.corruptHeader_ok hresult with ⟨rfl, recoveries, rfl⟩
            exact Happens.spoilt recoveries
  · cases hstep
  · cases hstep
    exact Happens.read hlive hitems (answer_of_advance _ item)

theorem happens_of_decline (s : Wire) :
    Happens file s .decline (s.receiverDid s.receiver.declineFile) := by
  cases hresult : s.receiver.declineFile with
  | mk result r =>
      cases result with
      | error e =>
          rcases Receiver.declineFile_error hresult with ⟨recoveries, rfl⟩
          exact Happens.lost recoveries
      | ok actions =>
          rcases Receiver.declineFile_ok hresult with ⟨hstate, rfl, rfl⟩
          exact Happens.declined hstate

theorem happens_of_step {s s' : Wire} {event : Event} (hstep : step file s event = some s') :
    Happens file s event s' := by
  cases taken_of_step hstep with
  | start _ =>
      apply happens_of_senderDid (suffix_refl s.toSender)
      · intro e t houtcome
        exact Sender.start_error houtcome
      · intro actions t houtcome
        rcases Sender.start_ok houtcome with ⟨hstate, _, rfl⟩
        exact Sender.Turn.started hstate
  | put _ _ =>
      exact Happens.sent
        (Sender.Turn.kept s.sender.recoveries (suffix_refl s.toSender))
        ⟨rfl, rfl, rfl, rfl, rfl, rfl, rfl, rfl, rfl⟩
  | exhausted _ =>
      apply happens_of_senderDid (suffix_refl s.toSender)
      · intro e t houtcome
        exact Sender.advance_error houtcome
      · intro actions t houtcome
        exact Sender.Turn.exhausted (Sender.move_of_advance houtcome)
  | toReceiver hlive hitems hdeliver => exact happens_of_deliver hlive hitems hdeliver
  | skipData hstate _ => exact Happens.passed hstate
  | setResume hoffset => exact Happens.armed hoffset
  | decline => exact happens_of_decline s
  | @toSender corrupt h rest _ hqueue =>
      apply happens_of_senderDid
      · rw [hqueue]
        exact suffix_cons h rest
      · intro e t houtcome
        split at houtcome
        · exact Sender.corruptHeader_error houtcome
        · exact Sender.advance_error houtcome
      · intro actions t houtcome
        rw [hqueue]
        split at houtcome
        · rcases Sender.corruptHeader_ok houtcome with ⟨_, recoveries, rfl⟩
          exact Sender.Turn.kept recoveries (suffix_cons h rest)
        · exact Sender.Turn.moved (Sender.move_of_advance houtcome)

end Wire

/-!
# What a sender that is done has delivered

A sender that is done has been told that its file is not wanted, or the receiver has closed
the file.  Before that, a header that gives a position and one that is ready for another file
cannot cross.
-/

/-- What is read off the offer of a file. -/
def Offered (info read : FileInfo) : Prop :=
  exists payload, info.encode = .ok payload ∧ FileInfo.decode payload = .ok read

/-- The receiver has closed the file that was offered. -/
def Delivered (info : FileInfo) (s : Wire) : Prop :=
  exists c, c ∈ s.closed ∧ exists read, c.info = some read ∧ Offered info read

/-!
## The sender's side

A sender streams only when it was given a position, and ends only when its file is not
wanted or a receiver is ready behind the end of the file.
-/

def streams : SendState -> Bool
  | .streaming _ => true
  | .awaitingEofAck => true
  | _ => false

def ends : SendState -> Bool
  | .awaitingFinAck => true
  | .done => true
  | _ => false

namespace Sender

variable {t t' : Sender} {queue rest : List Header}

theorem Turn.suffix (hturn : Turn t queue t' rest) : rest <:+ queue := by
  cases hturn with
  | kept _ hrest => exact hrest
  | started _ | exhausted _ => exact suffix_refl queue
  | @moved h rest actions t' _ => exact suffix_cons h rest

theorem streams_of_turn (hturn : Turn t queue t' rest) (hstate : streams t'.state = true) :
    streams t.state = true ∨ exists h, queue = h :: rest ∧ h.frameType = .zrpos := by
  cases hturn with
  | kept _ _ => exact Or.inl hstate
  | started _ => cases hstate
  | @moved h rest actions t' hmove =>
      cases hmove with
      | again _ _ | acknowledged _ => exact Or.inl hstate
      | offer _ _ _ | closed _ _ | skipped _ | finished _ => cases hstate
      | anchored htype _ => exact Or.inr ⟨h, rfl, htype⟩
  | exhausted hmove =>
      cases hmove with
      | exhausted hbefore =>
          rw [hbefore]
          exact Or.inl rfl

theorem ends_of_turn (hturn : Turn t queue t' rest) (hstate : ends t'.state = true) :
    (ends t.state = true ∧ t'.skipped = t.skipped) ∨ t'.skipped = true ∨
      (streams t.state = true ∧ exists h, queue = h :: rest ∧ h.frameType = .zrinit) := by
  cases hturn with
  | kept _ _ => exact Or.inl ⟨hstate, rfl⟩
  | started _ => cases hstate
  | @moved h rest actions t' hmove =>
      cases hmove with
      | again _ _ | acknowledged _ => exact Or.inl ⟨hstate, rfl⟩
      | offer _ _ _ | anchored _ _ => cases hstate
      | closed htype hbefore =>
          rw [hbefore]
          exact Or.inr (Or.inr ⟨rfl, h, rfl, htype⟩)
      | skipped _ => exact Or.inr (Or.inl rfl)
      | finished hbefore =>
          rw [hbefore]
          exact Or.inl ⟨rfl, rfl⟩
  | exhausted hmove =>
      cases hmove with
      | exhausted _ => cases hstate

end Sender

/-!
## Before the file is closed
-/

/-- The receiver has a file open. -/
def inData : RecvState -> Bool
  | .awaitingData _ => true
  | .receivingData _ => true
  | _ => false

/-- The receiver answers with a header that is not of a type. -/
def AnswersNot (frameType : FrameType) (r : Receiver) : Prop :=
  forall reply, r.lastReply = some reply ->
    exists h format, reply = .sendHeader h format ∧ h.frameType ≠ frameType

/-- No position was given yet. -/
structure Unopened (s : Wire) : Prop where
  state : inData s.receiver.state = false
  reply : AnswersNot .zrpos s.receiver
  queue : forall h, h ∈ s.toSender -> h.frameType ≠ .zrpos
  sender : streams s.sender.state = false
  skipped : ends s.sender.state = true -> s.sender.skipped = true

/-- A file is open, and the receiver was ready for one only before it gave a position. -/
structure Opened (info : FileInfo) (s : Wire) : Prop where
  state : inData s.receiver.state = true
  offered : exists read, s.opened = some read ∧ Offered info read
  reply : AnswersNot .zrinit s.receiver
  queue : s.toSender.Pairwise (fun a b => a.frameType = .zrpos -> b.frameType ≠ .zrinit)
  sender : streams s.sender.state = true -> forall h, h ∈ s.toSender -> h.frameType ≠ .zrinit
  skipped : ends s.sender.state = true -> s.sender.skipped = true

def Progress (info : FileInfo) (s : Wire) : Prop :=
  Delivered info s ∨ Unopened s ∨ Opened info s

variable {file : Bytes} {info : FileInfo}

theorem progress_new : Progress info (Wire.new info) :=
  Or.inr (Or.inl ⟨rfl, nofun, nofun, rfl, nofun⟩)

variable {s s' : Wire} {h : Header} {rest : List RecvEvent}

theorem Unopened.sent (hs : Unopened s) {t : Sender} {rest : List Header}
    (hturn : Sender.Turn s.sender s.toSender t rest)
    (hsame : SameReceiver { s with sender := t, toSender := rest } s') : Unopened s' := by
  have hnone : forall h, s.toSender = h :: rest -> h.frameType ≠ .zrpos := by
    intro h hqueue
    exact hs.queue h (by rw [hqueue]; exact mem_cons_self)
  constructor
  · rw [hsame.receiver]
    exact hs.state
  · rw [hsame.receiver]
    exact hs.reply
  · rw [hsame.toSender]
    intro h hmem
    exact hs.queue h (hturn.suffix.mem hmem)
  · rw [hsame.sender]
    cases hstate : streams t.state with
    | false => rfl
    | true =>
        rcases Sender.streams_of_turn hturn hstate with hbefore | ⟨h, hqueue, htype⟩
        · rw [hs.sender] at hbefore
          cases hbefore
        · exact absurd htype (hnone h hqueue)
  · rw [hsame.sender]
    intro hstate
    rcases Sender.ends_of_turn hturn hstate with ⟨hbefore, hkept⟩ | hskipped | ⟨hbefore, _⟩
    · exact hkept.trans (hs.skipped hbefore)
    · exact hskipped
    · rw [hs.sender] at hbefore
      cases hbefore

theorem Opened.sent (hs : Opened info s) {t : Sender} {rest : List Header}
    (hturn : Sender.Turn s.sender s.toSender t rest)
    (hsame : SameReceiver { s with sender := t, toSender := rest } s') : Opened info s' := by
  constructor
  · rw [hsame.receiver]
    exact hs.state
  · rw [hsame.opened]
    exact hs.offered
  · rw [hsame.receiver]
    exact hs.reply
  · rw [hsame.toSender]
    exact hs.queue.sublist hturn.suffix.sublist
  · rw [hsame.sender, hsame.toSender]
    intro hstate h hmem
    rcases Sender.streams_of_turn hturn hstate with hbefore | ⟨first, hqueue, htype⟩
    · exact hs.sender hbefore h (hturn.suffix.mem hmem)
    · have hpairs := hs.queue
      rw [hqueue, pairwise_cons] at hpairs
      exact hpairs.left h hmem htype
  · rw [hsame.sender]
    intro hstate
    rcases Sender.ends_of_turn hturn hstate with ⟨hbefore, hkept⟩ | hskipped |
      ⟨hbefore, h, hqueue, htype⟩
    · exact hkept.trans (hs.skipped hbefore)
    · exact hskipped
    · exact absurd htype (hs.sender hbefore h (by rw [hqueue]; exact mem_cons_self))

/-!
The receiver has answered, and has put more headers on the channel.
-/

section

variable (hs : Unopened s) (hsender : s'.sender = s.sender)
  (hstate : inData s'.receiver.state = false) (hreply : AnswersNot .zrpos s'.receiver)
include hs hsender hstate hreply

theorem Unopened.kept (hqueue : s'.toSender = s.toSender) : Unopened s' := by
  constructor
  · exact hstate
  · exact hreply
  · rw [hqueue]
    exact hs.queue
  · rw [hsender]
    exact hs.sender
  · rw [hsender]
    exact hs.skipped

theorem Unopened.replied (hqueue : s'.toSender = s.toSender ++ [h]) (htype : h.frameType ≠ .zrpos) :
    Unopened s' := by
  constructor
  · exact hstate
  · exact hreply
  · rw [hqueue]
    intro h' hmem
    rcases mem_append.mp hmem with hold | hnew
    · exact hs.queue h' hold
    · rw [mem_singleton.mp hnew]
      exact htype
  · rw [hsender]
    exact hs.sender
  · rw [hsender]
    exact hs.skipped

end

section

variable (hs : Opened info s) (hsender : s'.sender = s.sender) (hopened : s'.opened = s.opened)
  (hstate : inData s'.receiver.state = true) (hreply : AnswersNot .zrinit s'.receiver)
include hs hsender hopened hstate hreply

theorem Opened.kept (hqueue : s'.toSender = s.toSender) : Opened info s' := by
  constructor
  · exact hstate
  · rw [hopened]
    exact hs.offered
  · exact hreply
  · rw [hqueue]
    exact hs.queue
  · rw [hsender, hqueue]
    exact hs.sender
  · rw [hsender]
    exact hs.skipped

theorem Opened.replied (hqueue : s'.toSender = s.toSender ++ [h]) (htype : h.frameType ≠ .zrinit) :
    Opened info s' := by
  constructor
  · exact hstate
  · rw [hopened]
    exact hs.offered
  · exact hreply
  · rw [hqueue, pairwise_append]
    refine ⟨hs.queue, pairwise_singleton _ h, ?_⟩
    intro _ _ h' hmem _
    rw [mem_singleton.mp hmem]
    exact htype
  · rw [hsender, hqueue]
    intro hstreams h' hmem
    rcases mem_append.mp hmem with hold | hnew
    · exact hs.sender hstreams h' hold
    · rw [mem_singleton.mp hnew]
      exact htype
  · rw [hsender]
    exact hs.skipped

end

theorem answersNot_some {frameType : FrameType} {r : Receiver} {format : HeaderFormat}
    (hreply : r.lastReply = some (.sendHeader h format)) (htype : h.frameType ≠ frameType) :
    AnswersNot frameType r := by
  intro reply heq
  rw [hreply] at heq
  cases heq
  exact ⟨h, format, rfl, htype⟩

theorem Traffic.offered_of_read (hs : Traffic file info s) (hlive : s.receiverStopped = false)
    {payload : Bytes} {frameEnd : FrameEnd} (hitems : s.toReceiver = .data payload frameEnd :: rest)
    (hstate : s.receiver.state = .awaitingFileInfo) {read : FileInfo}
    (hread : FileInfo.decode payload = .ok read) : Offered info read := by
  rcases hs.taken hlive hitems with ⟨expect, expect', _, hnext, _, hoffer⟩
  rw [hoffer hstate] at hnext
  simp only [Expect.next] at hnext
  split at hnext
  · rename_i hencode
    exact ⟨payload, hencode, hread⟩
  · cases hnext

theorem Unopened.read (hs : Unopened s) (ht : Traffic file info s)
    (hlive : s.receiverStopped = false) {item : RecvEvent} (hitems : s.toReceiver = item :: rest)
    (hanswer : Wire.Answer { s with toReceiver := rest, read := s.read ++ [item] } item s') :
    Progress info s' := by
  have hnot : forall k, s.receiver.state ≠ .awaitingData k ∧
      s.receiver.state ≠ .receivingData k := by
    intro k
    constructor
    all_goals
      intro heq
      have hstate := hs.state
      rw [heq] at hstate
      cases hstate
  cases hanswer with
  | failed recoveries => exact Or.inr (Or.inl (hs.kept rfl hs.state hs.reply rfl))
  | moved hmove =>
      cases hmove with
      | again recoveries hreply _ =>
          rcases hs.reply _ hreply with ⟨h, format, rfl, htype⟩
          exact Or.inr (Or.inl (hs.replied rfl hs.state hs.reply rfl htype))
      | init _ _ | fin _ _ =>
          exact Or.inr (Or.inl (hs.replied rfl rfl (answersNot_some rfl nofun) rfl nofun))
      | offered _ _ => exact Or.inr (Or.inl (hs.kept rfl rfl hs.reply rfl))
      | @opened payload frameEnd read hstate hread =>
          refine Or.inr (Or.inr ⟨rfl, ⟨read, rfl, ?_⟩, answersNot_some rfl nofun, ?_, ?_, ?_⟩)
          · exact ht.offered_of_read hlive hitems hstate hread
          · show Pairwise _ (s.toSender ++ [_])
            rw [pairwise_append]
            refine ⟨?_, pairwise_singleton _ _, ?_⟩
            · apply pairwise_of_forall_sublist
              intro a b hsub htype
              exact absurd htype (hs.queue a (hsub.mem mem_cons_self))
            · intro a ha b _ htype
              exact absurd htype (hs.queue a ha)
          · intro hstreams
            replace hstreams : streams s.sender.state = true := hstreams
            rw [hs.sender] at hstreams
            cases hstreams
          · exact hs.skipped
      | frame _ hstate _ | correct _ hstate | closed _ hstate _ => exact absurd hstate (hnot _).left
      | wrote hstate _ | acknowledged hstate _ => exact absurd hstate (hnot _).right

theorem Opened.read (hs : Opened info s) {item : RecvEvent}
    (hanswer : Wire.Answer { s with toReceiver := rest, read := s.read ++ [item] } item s') :
    Progress info s' := by
  have hnot : forall state, inData state = false -> s.receiver.state ≠ state := by
    rintro state hfalse rfl
    rw [hs.state] at hfalse
    cases hfalse
  cases hanswer with
  | failed recoveries => exact Or.inr (Or.inr (hs.kept rfl rfl hs.state hs.reply rfl))
  | moved hmove =>
      cases hmove with
      | again recoveries hreply _ =>
          rcases hs.reply _ hreply with ⟨h, format, rfl, htype⟩
          exact Or.inr (Or.inr (hs.replied rfl rfl hs.state hs.reply rfl htype))
      | init _ hstate =>
          rcases hstate with hstate | hstate
          all_goals exact absurd hstate (hnot _ rfl)
      | offered _ hstate | fin _ hstate | opened hstate _ => exact absurd hstate (hnot _ rfl)
      | frame _ _ _ => exact Or.inr (Or.inr (hs.kept rfl rfl rfl hs.reply rfl))
      | correct _ _ =>
          exact Or.inr (Or.inr
            (hs.replied rfl rfl hs.state (answersNot_some rfl nofun) rfl nofun))
      | closed _ _ _ =>
          rcases hs.offered with ⟨read, hopened, hoffered⟩
          exact Or.inl ⟨_, mem_cons_self, read, hopened, hoffered⟩
      | wrote _ hafter =>
          refine Or.inr (Or.inr (hs.kept rfl rfl ?_ hs.reply rfl))
          rcases hafter with rfl | rfl
          · rfl
          · rfl
      | acknowledged _ hafter =>
          refine Or.inr (Or.inr
            (hs.replied rfl rfl ?_ (answersNot_some rfl nofun) rfl nofun))
          rcases hafter with rfl | rfl
          · rfl
          · rfl

/-!
What was closed stays closed.
-/

theorem subset_closed_foldl_act (resume : UInt32) (actions : List RecvAction) (s : Wire) :
    s.closed ⊆ (actions.foldl (Wire.act resume) s).closed := by
  induction actions generalizing s with
  | nil => exact fun _ hc => hc
  | cons action actions ih =>
      have hrest := ih (Wire.act resume s action)
      rw [foldl_cons]
      cases action with
      | sendHeader h format | openFile info | writeData offset data | sendOverAndOut | finished =>
          exact hrest
      | closeFile => exact fun c hc => hrest (mem_cons_of_mem _ hc)

theorem subset_closed_of_happens {event : Wire.Event} (hstep : Wire.Happens file s event s') :
    s.closed ⊆ s'.closed := by
  cases hstep with
  | sent _ hsame =>
      rw [hsame.closed]
      exact fun _ hc => hc
  | read _ _ hanswer =>
      cases hanswer with
      | failed _ => exact fun _ hc => hc
      | moved _ => exact fun c hc => subset_closed_foldl_act _ _ _ hc
  | spoilt _ | lost _ | passed _ | armed _ | declined _ => exact fun _ hc => hc

theorem progress_step {event : Wire.Event} (ht : Traffic file info s) (hs : Progress info s)
    (hstep : Wire.step file s event = some s') : Progress info s' := by
  have hhappens := Wire.happens_of_step hstep
  rcases hs with ⟨c, hc, hdelivered⟩ | hs | hs
  · exact Or.inl ⟨c, subset_closed_of_happens hhappens hc, hdelivered⟩
  · cases hhappens with
    | sent hturn hsame => exact Or.inr (Or.inl (hs.sent hturn hsame))
    | read hlive hitems hanswer => exact hs.read ht hlive hitems hanswer
    | spoilt recoveries =>
        exact Or.inr (Or.inl (hs.replied rfl hs.state hs.reply rfl nofun))
    | lost recoveries | passed _ | armed _ =>
        exact Or.inr (Or.inl (hs.kept rfl hs.state hs.reply rfl))
    | declined _ =>
        exact Or.inr (Or.inl (hs.replied rfl rfl (answersNot_some rfl nofun) rfl nofun))
  · cases hhappens with
    | sent hturn hsame => exact Or.inr (Or.inr (hs.sent hturn hsame))
    | read hlive hitems hanswer => exact hs.read hanswer
    | spoilt recoveries =>
        exact Or.inr (Or.inr (hs.replied rfl rfl hs.state hs.reply rfl nofun))
    | lost recoveries | passed _ | armed _ =>
        exact Or.inr (Or.inr (hs.kept rfl rfl hs.state hs.reply rfl))
    | declined hstate =>
        have hdata := hs.state
        rw [hstate] at hdata
        cases hdata

theorem delivered_of_done (hs : Progress info s) (hdone : s.sender.state = .done)
    (hskipped : s.sender.skipped = false) : Delivered info s := by
  have hends : ends s.sender.state = true := by
    rw [hdone]
    rfl
  rcases hs with hs | hs | hs
  · exact hs
  all_goals
    rw [hs.skipped hends] at hskipped
    cases hskipped

end Rabbithole.Zmodem
