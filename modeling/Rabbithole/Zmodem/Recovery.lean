import Rabbithole.Foundation.Feed
import Rabbithole.Zmodem.Moves

/-!
# Recoveries

A machine sends a ZNAK for a header that it could not read, and sends again what it sent last
when it gets one.  Both are paid from one budget, and neither moves it.
-/

namespace Rabbithole.Zmodem

open Foundation

theorem recovery_ok {attempts more : Nat} (h : recovery attempts = .ok more) :
    more = attempts + 1 ∧ more <= maxRecoveryAttempts := by
  unfold recovery at h
  split at h
  · cases h
  · rename_i hless
    cases h
    exact ⟨rfl, Nat.lt_of_not_le hless⟩

/-!
## One budget

Both machines count their recoveries and remember what they sent last.  A call either leaves
the count alone and sends no ZNAK, or pays for what it sends.
-/

structure Recovering (machine action : Type) where
  recoveries : machine -> Nat
  /-- What is sent again. -/
  exchange : machine -> List action
  isZnak : action -> Bool

namespace Recovering

variable {machine action call : Type}

/-- The ZNAKs of a call, and one for an exchange that it sends again. -/
def cost (m : Recovering machine action) (replays : machine -> call -> Bool) :
    machine × call × Except SessionError (List action) -> Nat
  | (_, _, .error _) => 0
  | (s, c, .ok actions) => actions.countP m.isZnak + if replays s c then 1 else 0

/-- The budget is kept, and no ZNAK is remembered. -/
structure Good (m : Recovering machine action) (s : machine) : Prop where
  budget : m.recoveries s <= maxRecoveryAttempts
  exchange : forall a, a ∈ m.exchange s -> m.isZnak a = false

/-- A recovery has been paid for, and is all that has happened. -/
structure Paid (m : Recovering machine action) (s s' : machine) : Prop where
  recoveries : m.recoveries s' = m.recoveries s + 1
  budget : m.recoveries s' <= maxRecoveryAttempts
  exchange : m.exchange s' = m.exchange s

inductive Did (m : Recovering machine action) (replays : Bool) (s : machine) :
    Except SessionError (List action) × machine -> Prop where
  | refused (e : SessionError) : Did m replays s (.error e, s)
  | nothing {s' : machine} (e : SessionError) : m.Paid s s' -> Did m replays s (.error e, s')
  | plain {s' : machine} {actions : List action} :
      replays = false -> m.recoveries s' = m.recoveries s ->
      (forall a, a ∈ m.exchange s' -> a ∈ m.exchange s ∨ m.isZnak a = false) ->
      (forall a, a ∈ actions -> m.isZnak a = false) -> Did m replays s (.ok actions, s')
  | asked {s' : machine} (znak : action) :
      replays = false -> m.Paid s s' -> Did m replays s (.ok [znak], s')
  | again {s' : machine} : m.Paid s s' -> Did m replays s (.ok (m.exchange s), s')

/-- An event that is no recovery: it is refused, or no ZNAK comes of it. -/
inductive Took (m : Recovering machine action) (s : machine) :
    Except SessionError (List action) × machine -> Prop where
  | refused (e : SessionError) : Took m s (.error e, s)
  | actions {s' : machine} {actions : List action} :
      m.recoveries s' = m.recoveries s -> m.exchange s' = m.exchange s ->
      actions.all (fun a => !m.isZnak a) = true -> Took m s (.ok actions, s')

variable {m : Recovering machine action} {s : machine}

variable {actions : List action} {a : action}

theorem not_isZnak_of_all (h : actions.all (fun a => !m.isZnak a) = true) (ha : a ∈ actions) :
    m.isZnak a = false := by
  have hznak := List.all_eq_true.mp h a ha
  rwa [Bool.not_eq_true'] at hznak

theorem Paid.good {s' : machine} (hpaid : m.Paid s s') (hs : m.Good s) : m.Good s' :=
  ⟨hpaid.budget, fun a ha => hs.exchange a (hpaid.exchange ▸ ha)⟩

theorem Did.good {replays : Bool} {outcome : Except SessionError (List action) × machine}
    (h : m.Did replays s outcome) (hs : m.Good s) : m.Good outcome.snd := by
  cases h with
  | refused e => exact hs
  | nothing e hpaid | asked znak _ hpaid | again hpaid => exact hpaid.good hs
  | plain _ hrecoveries hexchange _ =>
      refine ⟨hrecoveries ▸ hs.budget, ?_⟩
      intro a ha
      exact (hexchange a ha).elim (hs.exchange a) id

theorem Did.not_isZnak {s' : machine} (h : m.Did true s (.ok actions, s')) (hs : m.Good s)
    (ha : a ∈ actions) : m.isZnak a = false := by
  cases h with
  | plain hreplays | asked _ hreplays => cases hreplays
  | again _ => exact hs.exchange a ha

theorem countP_isZnak (h : forall a, a ∈ actions -> m.isZnak a = false) :
    actions.countP m.isZnak = 0 := by
  rw [List.countP_eq_zero]
  intro a ha
  rw [h a ha]
  exact Bool.false_ne_true

theorem Did.cost_le {replays : machine -> call -> Bool} {c : call}
    {outcome : Except SessionError (List action) × machine}
    (h : m.Did (replays s c) s outcome) (hs : m.Good s) :
    m.recoveries s + m.cost replays (s, c, outcome.fst) <= m.recoveries outcome.snd := by
  cases h with
  | refused e => exact Nat.le_refl _
  | nothing e hpaid =>
      show m.recoveries s <= _
      rw [hpaid.recoveries]
      exact Nat.le_succ _
  | plain hreplays hrecoveries _ hactions =>
      show m.recoveries s + (List.countP _ _ + _) <= _
      rw [countP_isZnak hactions, hreplays, if_neg Bool.false_ne_true, hrecoveries]
      exact Nat.le_refl _
  | asked znak hreplays hpaid =>
      show m.recoveries s + (List.countP _ [znak] + _) <= _
      rw [hreplays, if_neg Bool.false_ne_true, hpaid.recoveries]
      exact Nat.add_le_add_left List.countP_le_length _
  | again hpaid =>
      show m.recoveries s + (List.countP _ _ + _) <= _
      rw [countP_isZnak hs.exchange, hpaid.recoveries]
      split
      · exact Nat.le_refl _
      · exact Nat.le_succ _

variable {step : machine -> call -> Except SessionError (List action) × machine}
  {replays : machine -> call -> Bool}

theorem good_run (hdid : forall s c, m.Did (replays s c) s (step s c)) (hs : m.Good s)
    (calls : List call) : m.Good (afterCalls step s calls) :=
  good_afterCalls (fun s c hgood => (hdid s c).good hgood) hs calls

theorem sum_cost_run (hdid : forall s c, m.Did (replays s c) s (step s c)) (hs : m.Good s)
    (calls : List call) :
    ((outcomes step s calls).map (m.cost replays)).sum <= maxRecoveryAttempts := by
  have hcost := sum_cost_le (fun s c hgood => (hdid s c).good hgood)
    (fun s c hgood => (hdid s c).cost_le hgood) hs calls
  have hbudget := (good_run hdid hs calls).budget
  exact Nat.le_trans (Nat.le_trans (Nat.le_add_left _ _) hcost) hbudget

theorem not_isZnak_run (hdid : forall s c, m.Did (replays s c) s (step s c)) (hs : m.Good s)
    {calls : List call} {c : call} (hreplays : replays (afterCalls step s calls) c = true)
    (hactions : (step (afterCalls step s calls) c).fst = .ok actions) (ha : a ∈ actions) :
    m.isZnak a = false := by
  have hc := hdid (afterCalls step s calls) c
  rw [hreplays, ← Prod.eta (step (afterCalls step s calls) c), hactions] at hc
  exact hc.not_isZnak (good_run hdid hs calls) ha

end Recovering

/-!
## The receiver
-/

inductive RecvCall where
  | advance (event : RecvEvent)
  | corruptHeader
  | declineFile
  | setResumeOffset (offset : UInt32)

def RecvAction.isZnak : RecvAction -> Bool
  | .sendHeader h _ => h.frameType == .znak
  | _ => false

namespace Receiver

def recovering : Recovering Receiver RecvAction where
  recoveries := Receiver.recoveries
  exchange := fun r => r.lastReply.toList
  isZnak := RecvAction.isZnak

def call (r : Receiver) : RecvCall -> Outcome
  | .advance event => r.advance event
  | .corruptHeader => r.corruptHeader
  | .declineFile => r.declineFile
  | .setResumeOffset offset => (.ok [], r.setResumeOffset offset)

/-- What was sent last is asked for: by a ZNAK, or by a ZFIN once all is done. -/
def replays (r : Receiver) : RecvCall -> Bool
  | .advance event => r.asksAgain event
  | _ => false

def recovers (r : Receiver) : RecvCall -> Bool
  | .corruptHeader => true
  | c => r.replays c

theorem took_receive (r : Receiver) (offset : UInt32) (payload : Bytes) (frameEnd : FrameEnd) :
    recovering.Took r (r.receive offset payload frameEnd) := by
  unfold receive
  cases frameEnd with
  | zcrcg | zcrce | zcrcq | zcrcw => exact Recovering.Took.actions rfl rfl rfl

theorem took_advanceInner (r : Receiver) (event : RecvEvent) :
    recovering.Took r (r.advanceInner event) := by
  unfold advanceInner
  dsimp only
  split
  · split
    · exact Recovering.Took.actions rfl rfl rfl
    · exact Recovering.Took.refused _
  · split
    · exact Recovering.Took.actions rfl rfl rfl
    · split
      · exact Recovering.Took.actions rfl rfl rfl
      · split
        · exact Recovering.Took.actions rfl rfl rfl
        · exact Recovering.Took.refused _
  · split
    · exact Recovering.Took.refused _
    · exact Recovering.Took.actions rfl rfl rfl
  · split
    · split
      all_goals exact Recovering.Took.actions rfl rfl rfl
    · split
      · split
        all_goals exact Recovering.Took.actions rfl rfl rfl
      · exact Recovering.Took.refused _
  · exact took_receive r _ _ _
  · exact Recovering.Took.refused _

theorem mem_lastReply {actions : List RecvAction} {before : Option RecvAction} {a : RecvAction}
    (h : a ∈ ((actions.reverse.find? RecvAction.isSendHeader).or before).toList) :
    a ∈ before.toList ∨ a ∈ actions := by
  cases hfind : actions.reverse.find? RecvAction.isSendHeader with
  | none =>
      rw [hfind] at h
      exact Or.inl h
  | some reply =>
      rw [hfind] at h
      have hreply : a = reply := List.mem_singleton.mp h
      rw [hreply]
      exact Or.inr (List.mem_reverse.mp (List.mem_of_find?_eq_some hfind))

theorem did_again {r : Receiver} {event : RecvEvent} (h : r.asksAgain event = true) :
    recovering.Did true r (r.advance event) := by
  unfold advance
  rw [if_pos h]
  cases hrecovery : recovery r.recoveries with
  | error e => exact Recovering.Did.refused e
  | ok more =>
      obtain ⟨rfl, hless⟩ := recovery_ok hrecovery
      have hpaid : recovering.Paid r { r with recoveries := r.recoveries + 1 } :=
        ⟨rfl, hless, rfl⟩
      dsimp only
      split
      · rename_i reply hreply
        have hdid : recovering.Did true r (.ok (recovering.exchange r), _) :=
          Recovering.Did.again hpaid
        have hexchange : recovering.exchange r = [reply] := by
          show r.lastReply.toList = [reply]
          rw [hreply]
          rfl
        rwa [hexchange] at hdid
      · exact Recovering.Did.nothing _ hpaid

theorem did_advance (r : Receiver) (event : RecvEvent) :
    recovering.Did (r.asksAgain event) r (r.advance event) := by
  cases hagain : r.asksAgain event with
  | true => exact did_again hagain
  | false =>
      have htook := took_advanceInner r event
      unfold advance
      rw [if_neg (hagain ▸ Bool.false_ne_true)]
      generalize r.advanceInner event = outcome at htook
      cases htook with
      | refused e => exact Recovering.Did.refused e
      | @actions r' actions hrecoveries hexchange hactions =>
          refine Recovering.Did.plain rfl hrecoveries ?_
            (fun a => Recovering.not_isZnak_of_all hactions)
          intro a ha
          rcases mem_lastReply ha with hbefore | hsent
          · exact Or.inl (hexchange ▸ hbefore)
          · exact Or.inr (Recovering.not_isZnak_of_all hactions hsent)

theorem did_call (r : Receiver) (c : RecvCall) : recovering.Did (r.replays c) r (r.call c) := by
  cases c with
  | advance event => exact did_advance r event
  | corruptHeader =>
      show recovering.Did false r r.corruptHeader
      unfold corruptHeader
      cases hrecovery : recovery r.recoveries with
      | error e => exact Recovering.Did.refused e
      | ok more =>
          obtain ⟨rfl, hless⟩ := recovery_ok hrecovery
          exact Recovering.Did.asked _ rfl ⟨rfl, hless, rfl⟩
  | declineFile =>
      show recovering.Did false r r.declineFile
      unfold declineFile
      split
      · exact Recovering.Did.refused _
      · have hskip : forall a, a ∈ [zskip] -> RecvAction.isZnak a = false := by
          intro a ha
          rw [List.mem_singleton.mp ha]
          rfl
        exact Recovering.Did.plain rfl rfl (fun a ha => Or.inr (hskip a ha)) hskip
  | setResumeOffset offset =>
      exact Recovering.Did.plain rfl rfl (fun a ha => Or.inl ha) nofun

theorem good_new : recovering.Good new where
  budget := Nat.zero_le _
  exchange := nofun

theorem call_recovers {r : Receiver} {c : RecvCall} (h : r.recovers c = true) :
    (r.call c).snd = { r with recoveries := (r.call c).snd.recoveries } := by
  cases c with
  | advance event =>
      show (r.advance event).snd = { r with recoveries := (r.advance event).snd.recoveries }
      have hagain : r.asksAgain event = true := h
      unfold advance
      rw [if_pos hagain]
      split
      · rfl
      · split
        · rfl
        · rfl
  | corruptHeader =>
      show r.corruptHeader.snd = { r with recoveries := r.corruptHeader.snd.recoveries }
      unfold corruptHeader
      split
      · rfl
      · rfl
  | declineFile => cases h
  | setResumeOffset offset => cases h

end Receiver

/-!
## The sender
-/

inductive SendCall where
  | start
  | advance (event : SendEvent)
  | corruptHeader

def SendAction.isZnak : SendAction -> Bool
  | .sendHeader h _ => h.frameType == .znak
  | _ => false

namespace Sender

def recovering : Recovering Sender SendAction where
  recoveries := Sender.recoveries
  exchange := Sender.lastExchange
  isZnak := SendAction.isZnak

def call (t : Sender) : SendCall -> Outcome
  | .start => t.start
  | .advance event => t.advance event
  | .corruptHeader => t.corruptHeader

/-- What was sent last is asked for: by a ZNAK, or by one more ZSKIP for a skipped file. -/
def replays (t : Sender) : SendCall -> Bool
  | .advance (.header h) =>
      h.frameType == .znak ||
        h.frameType == .zskip && t.state == .awaitingFinAck && t.skipped
  | _ => false

def recovers (t : Sender) : SendCall -> Bool
  | .corruptHeader => true
  | c => t.replays c

theorem took_advanceInner (t : Sender) (event : SendEvent) :
    recovering.Took t (t.advanceInner event) := by
  unfold advanceInner
  dsimp only
  split
  · split
    · exact Recovering.Took.actions rfl rfl rfl
    · exact Recovering.Took.refused _
  · split
    · exact Recovering.Took.actions rfl rfl rfl
    · exact Recovering.Took.refused _
  · split
    · exact Recovering.Took.actions rfl rfl rfl
    · split
      · exact Recovering.Took.actions rfl rfl rfl
      · exact Recovering.Took.refused _
  · exact Recovering.Took.actions rfl rfl rfl
  · split
    · exact Recovering.Took.actions rfl rfl rfl
    · split
      · exact Recovering.Took.actions rfl rfl rfl
      · exact Recovering.Took.refused _
  · split
    · exact Recovering.Took.actions rfl rfl rfl
    · exact Recovering.Took.refused _
  · exact Recovering.Took.refused _

theorem did_advancePlain (t : Sender) (event : SendEvent) :
    recovering.Did false t (t.advancePlain event) := by
  have htook := took_advanceInner t event
  unfold advancePlain
  generalize t.advanceInner event = outcome at htook
  cases htook with
  | refused e => exact Recovering.Did.refused e
  | @actions t' actions hrecoveries hexchange hactions =>
      dsimp only
      split
      · exact Recovering.Did.plain rfl hrecoveries
          (fun a ha => Or.inr (Recovering.not_isZnak_of_all hactions ha))
          (fun a => Recovering.not_isZnak_of_all hactions)
      · exact Recovering.Did.plain rfl hrecoveries
          (fun a ha => Or.inl (hexchange ▸ ha))
          (fun a => Recovering.not_isZnak_of_all hactions)

theorem did_retryExchange (t : Sender) : recovering.Did true t t.retryExchange := by
  unfold retryExchange
  split
  · exact Recovering.Did.refused _
  · cases hrecovery : recovery t.recoveries with
    | error e => exact Recovering.Did.refused e
    | ok more =>
        obtain ⟨rfl, hless⟩ := recovery_ok hrecovery
        exact Recovering.Did.again ⟨rfl, hless, rfl⟩

theorem did_of_header {t : Sender} {exchange : List SendAction} {t' : Sender}
    (hrecoveries : t'.recoveries = t.recoveries) (hexchange : t'.lastExchange = exchange)
    (hznak : exchange.all (fun a => !a.isZnak) = true) :
    recovering.Did false t (.ok exchange, t') := by
  have hnone : forall a, a ∈ exchange -> recovering.isZnak a = false :=
    fun a => Recovering.not_isZnak_of_all hznak
  refine Recovering.Did.plain rfl hrecoveries ?_ hnone
  intro a ha
  exact Or.inr (hnone a (hexchange ▸ ha))

theorem advance_eq (t : Sender) (event : SendEvent) :
    t.replays (.advance event) = true ∧ t.advance event = t.retryExchange ∨
      t.replays (.advance event) = false ∧
        (t.advance event = t.advancePlain event ∨ t.advance event = t.skip) := by
  cases event with
  | dataExhausted offset => exact Or.inr ⟨rfl, Or.inl rfl⟩
  | header h =>
      rcases h with ⟨frameType, data⟩
      rcases t with ⟨state, info, fc32, recoveries, lastExchange, skipped⟩
      cases frameType with
      | znak => exact Or.inl ⟨rfl, rfl⟩
      | zskip =>
          cases state with
          | awaitingFileAck | streaming offset | awaitingEofAck => exact Or.inr ⟨rfl, Or.inr rfl⟩
          | awaitingFinAck =>
              cases skipped with
              | true => exact Or.inl ⟨rfl, rfl⟩
              | false => exact Or.inr ⟨rfl, Or.inl rfl⟩
          | _ => exact Or.inr ⟨rfl, Or.inl rfl⟩
      | _ => exact Or.inr ⟨rfl, Or.inl rfl⟩

theorem did_call (t : Sender) (c : SendCall) : recovering.Did (t.replays c) t (t.call c) := by
  cases c with
  | start =>
      show recovering.Did false t t.start
      unfold start
      split
      · exact Recovering.Did.refused _
      · exact did_of_header rfl rfl rfl
  | advance event =>
      show recovering.Did _ t (t.advance event)
      rcases advance_eq t event with ⟨hreplays, heq⟩ | ⟨hreplays, heq | heq⟩
      · rw [hreplays, heq]
        exact did_retryExchange t
      · rw [hreplays, heq]
        exact did_advancePlain t event
      · rw [hreplays, heq]
        exact did_of_header rfl rfl rfl
  | corruptHeader =>
      show recovering.Did false t t.corruptHeader
      unfold corruptHeader
      cases hrecovery : recovery t.recoveries with
      | error e => exact Recovering.Did.refused e
      | ok more =>
          obtain ⟨rfl, hless⟩ := recovery_ok hrecovery
          exact Recovering.Did.asked _ rfl ⟨rfl, hless, rfl⟩

theorem good_new (info : FileInfo) : recovering.Good (new info) where
  budget := Nat.zero_le _
  exchange := nofun

theorem call_recovers {t : Sender} {c : SendCall} (h : t.recovers c = true) :
    (t.call c).snd = { t with recoveries := (t.call c).snd.recoveries } := by
  cases c with
  | start => cases h
  | advance event =>
      show (t.advance event).snd = { t with recoveries := (t.advance event).snd.recoveries }
      rcases advance_eq t event with ⟨_, heq⟩ | ⟨hreplays, _⟩
      · rw [heq]
        unfold retryExchange
        split
        · rfl
        · split
          · rfl
          · rfl
      · have hagain : t.replays (.advance event) = true := h
        rw [hreplays] at hagain
        cases hagain
  | corruptHeader =>
      show t.corruptHeader.snd = { t with recoveries := t.corruptHeader.snd.recoveries }
      unfold corruptHeader
      split
      · rfl
      · rfl

end Sender

/-!
## Over a session
-/

/-- What a receiver spends, and what it says to a ZNAK, after any calls. -/
structure Receiver.RecoversWithin (r : Receiver) : Prop where
  bounded : forall calls,
    ((outcomes call r calls).map (recovering.cost replays)).sum <= maxRecoveryAttempts
  unanswered : forall calls (h : Header), h.frameType = .znak -> forall actions,
    ((afterCalls call r calls).advance (.header h)).fst = .ok actions ->
      forall a, a ∈ actions -> a.isZnak = false
  harmless : forall calls c, (afterCalls call r calls).recovers c = true ->
    ((afterCalls call r calls).call c).snd = { afterCalls call r calls with
      recoveries := ((afterCalls call r calls).call c).snd.recoveries }

structure Sender.RecoversWithin (t : Sender) : Prop where
  bounded : forall calls,
    ((outcomes call t calls).map (recovering.cost replays)).sum <= maxRecoveryAttempts
  unanswered : forall calls (h : Header), h.frameType = .znak -> forall actions,
    ((afterCalls call t calls).advance (.header h)).fst = .ok actions ->
      forall a, a ∈ actions -> a.isZnak = false
  harmless : forall calls c, (afterCalls call t calls).recovers c = true ->
    ((afterCalls call t calls).call c).snd = { afterCalls call t calls with
      recoveries := ((afterCalls call t calls).call c).snd.recoveries }

theorem Receiver.recoversWithin_new : Receiver.new.RecoversWithin where
  bounded := Recovering.sum_cost_run did_call good_new
  unanswered := by
    intro calls h hznak actions hactions a ha
    refine Recovering.not_isZnak_run (c := .advance (.header h)) did_call good_new ?_ hactions ha
    show (h.frameType == .znak || _) = true
    rw [hznak]
    rfl
  harmless := fun _ _ h => call_recovers h

theorem Sender.recoversWithin_new (info : FileInfo) : (Sender.new info).RecoversWithin where
  bounded := Recovering.sum_cost_run did_call (good_new info)
  unanswered := by
    intro calls h hznak actions hactions a ha
    refine Recovering.not_isZnak_run (c := .advance (.header h)) did_call (good_new info) ?_
      hactions ha
    show (h.frameType == .znak || _) = true
    rw [hznak]
    rfl
  harmless := fun _ _ h => call_recovers h

theorem recovery_bounded_harmless :
    Receiver.new.RecoversWithin ∧ forall info, (Sender.new info).RecoversWithin :=
  ⟨Receiver.recoversWithin_new, Sender.recoversWithin_new⟩

end Rabbithole.Zmodem
