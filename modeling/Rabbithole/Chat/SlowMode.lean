import Rabbithole.Chat.Invariant

/-!
# Slow mode

While slow mode is on, the clock of an account says when its last message was accepted; two
messages are an interval apart.  A refusal says how long to wait, which is enough unless the
refused message came with a time before the one of the clock.
-/

namespace Rabbithole.Chat

open Foundation Dict ChatService

/-!
## What a message does to a room
-/

namespace ChatService

/-- A message to a room, once its text is found good. -/
def said (room : Room) (sender : Sender) (text : String) (nowMs : Nat) (wallClockMs : I64) :
    Except ChatError ChatLine × Room :=
  if (room.members.get? sender.sessionId).isNone then (.error .notMember, room)
  else
    match room.mutedNow sender.accountId nowMs with
    | (true, room) => (.error .muted, room)
    | (false, room) =>
        match (if 0 < room.slowModeSecs then slowWait room sender nowMs else none) with
        | some retry => (.error (.slowMode retry), room)
        | none =>
            let room := room.clocked sender.accountId nowMs
            let line : ChatLine :=
              { room := room.name
                sender := sender.screenName
                text := text
                atUnixMs :=
                  nextChatTimestamp (room.history.getLast?.map ChatLine.atUnixMs) wallClockMs }
            (.ok line, append room line)

/-- A text that is empty or too long is refused before any room is looked at. -/
def badText (s : ChatService) (text : String) : Option ChatError :=
  if (trim (trimEnd text)).isEmpty then some .empty
  else if s.maxLen < (trimEnd text).utf8ByteSize then
    some (.tooLong (trimEnd text).utf8ByteSize s.maxLen)
  else none

theorem send_eq (lower : String -> String) (s : ChatService) (name : String) (sender : Sender)
    (text : String) (nowMs : Nat) (wallClockMs : I64) :
    s.send lower name sender text nowMs wallClockMs =
      match s.badText text with
      | some e => (.error e, s)
      | none =>
          s.withRoom lower name (fun room => said room sender (trimEnd text) nowMs wallClockMs) := by
  unfold send badText
  dsimp only
  split
  · rfl
  · split
    · rfl
    · rfl

theorem send_room {lower : String -> String} {s : ChatService} {name text : String} {room : Room}
    (htext : s.badText text = none) (hroom : s.rooms.get? (key lower name) = some room)
    (sender : Sender) (nowMs : Nat) (wallClockMs : I64) :
    s.send lower name sender text nowMs wallClockMs =
      ((said room sender (trimEnd text) nowMs wallClockMs).fst, { s with
        rooms := s.rooms.insert (key lower name)
          (said room sender (trimEnd text) nowMs wallClockMs).snd }) := by
  rw [send_eq, htext]
  dsimp only
  unfold withRoom
  rw [hroom]

theorem send_cases (lower : String -> String) (s : ChatService) (name : String) (sender : Sender)
    (text : String) (nowMs : Nat) (wallClockMs : I64) :
    (exists e, s.send lower name sender text nowMs wallClockMs = (.error e, s) ∧
        forall retry, e ≠ .slowMode retry) ∨
      exists room, s.badText text = none ∧ s.rooms.get? (key lower name) = some room := by
  rw [send_eq]
  cases htext : s.badText text with
  | some e =>
      refine Or.inl ⟨e, rfl, ?_⟩
      rintro retry rfl
      unfold badText at htext
      split at htext
      · cases htext
      · split at htext
        · cases htext
        · cases htext
  | none =>
      dsimp only
      unfold withRoom
      cases hroom : s.rooms.get? (key lower name) with
      | none => exact Or.inl ⟨_, rfl, nofun⟩
      | some room => exact Or.inr ⟨room, rfl, rfl⟩

end ChatService

/-- The pace of a room and its clocks are what they were. -/
structure Room.SamePace (room room' : Room) : Prop where
  slow : room'.slowModeSecs = room.slowModeSecs
  clocks : room'.lastSentMs = room.lastSentMs

theorem Room.SamePace.refl (room : Room) : room.SamePace room :=
  ⟨rfl, rfl⟩

theorem Room.mutedNow_same (room : Room) (account : Int) (nowMs : Nat) :
    exists muted mutedAs, (room.mutedNow account nowMs).snd =
      { room with muted := muted, mutedAs := mutedAs } := by
  unfold Room.mutedNow
  split
  · exact ⟨_, _, rfl⟩
  · exact ⟨_, _, rfl⟩
  · split
    all_goals exact ⟨_, _, rfl⟩

theorem Room.samePace_mutedNow (room : Room) (account : Int) (nowMs : Nat) :
    room.SamePace (room.mutedNow account nowMs).snd := by
  rcases room.mutedNow_same account nowMs with ⟨muted, mutedAs, hsame⟩
  rw [hsame]
  exact ⟨rfl, rfl⟩

theorem Room.samePace_letIn (room : Room) (session : Nat) (screenName : String) :
    room.SamePace (room.letIn session screenName) := by
  unfold Room.letIn
  split
  · exact ⟨rfl, rfl⟩
  · exact Room.SamePace.refl room

theorem Room.samePace_barred (room : Room) (account : Int) (ban : Bool) :
    room.SamePace (room.barred account ban) := by
  unfold Room.barred
  split
  · exact ⟨rfl, rfl⟩
  · exact Room.SamePace.refl room

namespace ChatService

variable {room room' : Room} {sender : Sender} {nowMs retry : Nat} {text : String}
  {wallClockMs : I64}

theorem said_ok {line : ChatLine}
    (h : said room sender text nowMs wallClockMs = (.ok line, room')) :
    room'.slowModeSecs = room.slowModeSecs ∧
      (0 < room.slowModeSecs -> slowWait room sender nowMs = none ∧
        room'.lastSentMs = room.lastSentMs.insert sender.accountId nowMs) := by
  rcases room.mutedNow_same sender.accountId nowMs with ⟨muted, mutedAs, hsame⟩
  unfold said at h
  split at h
  · cases h
  · split at h
    · cases h
    · rename_i seen hseen
      rw [hseen] at hsame
      replace hsame : seen = { room with muted := muted, mutedAs := mutedAs } := hsame
      split at h
      · cases h
      · rename_i hwait
        cases h
        rw [hsame] at hwait ⊢
        unfold append Room.clocked
        split
        · rename_i hslow
          rw [if_pos hslow] at hwait
          exact ⟨rfl, fun _ => ⟨hwait, rfl⟩⟩
        · rename_i hslow
          exact ⟨rfl, fun hpos => absurd hpos hslow⟩

theorem said_error {e : ChatError}
    (h : said room sender text nowMs wallClockMs = (.error e, room')) : room.SamePace room' := by
  have hpace := room.samePace_mutedNow sender.accountId nowMs
  unfold said at h
  split at h
  · cases h
    exact Room.SamePace.refl room
  · split at h
    · rename_i seen hseen
      cases h
      rw [hseen] at hpace
      exact hpace
    · rename_i seen hseen
      rw [hseen] at hpace
      split at h
      · cases h
        exact hpace
      · cases h

theorem said_slowMode
    (h : said room sender text nowMs wallClockMs = (.error (.slowMode retry), room')) :
    (room'.members.get? sender.sessionId).isNone = false ∧
      (forall nowMs', room'.mutedNow sender.accountId nowMs' = (false, room')) ∧
      0 < room'.slowModeSecs ∧ slowWait room' sender nowMs = some retry := by
  rcases room.mutedNow_same sender.accountId nowMs with ⟨muted, mutedAs, hsame⟩
  unfold said at h
  split at h
  · cases h
  · rename_i hmember
    split at h
    · cases h
    · rename_i seen hseen
      split at h
      · rename_i retry' hwait
        cases h
        split at hwait
        · rename_i hslow
          refine ⟨?_, ?_, hslow, hwait⟩
          · rw [hseen] at hsame
            replace hsame : room' = { room with muted := muted, mutedAs := mutedAs } := hsame
            rw [hsame]
            exact Bool.eq_false_iff.mpr hmember
          · intro nowMs'
            have hnone : room'.muted.get? sender.accountId = none := by
              unfold Room.mutedNow at hseen
              split at hseen
              · rename_i hnone
                cases hseen
                exact hnone
              · cases hseen
              · split at hseen
                · cases hseen
                · cases hseen
                  unfold Room.unmuted
                  simp
            unfold Room.mutedNow
            rw [hnone]
        · cases hwait
      · cases h

theorem said_again (text : String) (nowMs : Nat) (wallClockMs : I64)
    (hmember : (room.members.get? sender.sessionId).isNone = false)
    (hmuted : room.mutedNow sender.accountId nowMs = (false, room))
    (hslow : 0 < room.slowModeSecs) :
    (said room sender text nowMs wallClockMs).fst.isOk = true <->
      slowWait room sender nowMs = none := by
  unfold said
  rw [hmember, if_neg Bool.false_ne_true, hmuted]
  dsimp only
  rw [if_pos hslow]
  cases slowWait room sender nowMs with
  | none => exact ⟨fun _ => rfl, fun _ => rfl⟩
  | some retry => exact ⟨nofun, nofun⟩

/-!
## How long to wait
-/

section

variable (hslow : room.slowModeSecs <= maxSlowModeSecs)
include hslow

theorem slowWait_eq_some (h : slowWait room sender nowMs = some retry) :
    exists last, room.lastSentMs.get? sender.accountId = some last ∧
      room.canModerate sender.accountId sender.isModerator = false ∧
      nowMs - last < room.slowModeSecs * 1000 ∧
      retry = (room.slowModeSecs * 1000 - (nowMs - last) + 999) / 1000 := by
  unfold slowWait at h
  split at h
  · cases h
  · rename_i hmoderate
    split at h
    · cases h
    · rename_i last hlast
      unfold maxSlowModeSecs at hslow
      have hwait : min (room.slowModeSecs * 1000) u64Max = room.slowModeSecs * 1000 := by
        unfold u64Max
        omega
      rw [hwait] at h
      dsimp only at h
      split at h
      · rename_i hearly
        refine ⟨last, hlast, Bool.eq_false_iff.mpr hmoderate, hearly, ?_⟩
        rw [← Option.some.inj h]
        unfold u32Max
        omega
      · cases h

theorem slowWait_eq_none_iff {last : Nat}
    (hlast : room.lastSentMs.get? sender.accountId = some last)
    (hmoderate : room.canModerate sender.accountId sender.isModerator = false) :
    slowWait room sender nowMs = none <-> room.slowModeSecs * 1000 <= nowMs - last := by
  unfold maxSlowModeSecs at hslow
  have hwait : min (room.slowModeSecs * 1000) u64Max = room.slowModeSecs * 1000 := by
    unfold u64Max
    omega
  unfold slowWait
  rw [hmoderate, if_neg Bool.false_ne_true, hlast]
  dsimp only
  rw [hwait]
  split
  · rename_i hearly
    exact ⟨nofun, fun hle => absurd hearly (Nat.not_lt.mpr hle)⟩
  · rename_i hlate
    exact ⟨fun _ => Nat.le_of_not_lt hlate, fun _ => rfl⟩

theorem slowWait_retry (h : slowWait room sender nowMs = some retry) :
    1 <= retry ∧ exists last, room.lastSentMs.get? sender.accountId = some last ∧
      (slowWait room sender (nowMs + 1000 * retry) = none <-> last <= nowMs) := by
  rcases slowWait_eq_some hslow h with ⟨last, hlast, hmoderate, hearly, hretry⟩
  refine ⟨by omega, last, hlast, ?_⟩
  rw [slowWait_eq_none_iff hslow hlast hmoderate]
  omega

end

end ChatService

/-!
## What each call does to the pace of a room
-/

/-- The account and the time of a call that has a message accepted in a room. -/
def Op.accepted (lower : String -> String) (s : ChatService) (k : String) : Op -> Option (Int × Nat)
  | .send name sender text nowMs wallClockMs =>
      if ChatService.key lower name = k ∧
          (s.send lower name sender text nowMs wallClockMs).fst.isOk = true then
        some (sender.accountId, nowMs)
      else none
  | _ => none

/-- Where a room under a key comes from, and what became of its pace. -/
inductive PaceStep (lower : String -> String) (s : ChatService) (op : Op) (k : String)
    (room' : Room) : Prop where
  | fresh (hslow : room'.slowModeSecs = 0)
  | same {room : Room} (hroom : s.rooms.get? k = some room) (hpace : room.SamePace room')
  | changed {room : Room} (hroom : s.rooms.get? k = some room)
      (hslow : room'.slowModeSecs <= maxSlowModeSecs)
      (hclocks : 0 < room'.slowModeSecs -> room'.lastSentMs = room.lastSentMs)
  | sent {room : Room} {account : Int} {nowMs : Nat} (hroom : s.rooms.get? k = some room)
      (hop : op.accepted lower s k = some (account, nowMs))
      (hslow : room'.slowModeSecs = room.slowModeSecs)
      (hclocks : 0 < room.slowModeSecs ->
        room'.lastSentMs = room.lastSentMs.insert account nowMs)

section

variable {lower : String -> String} {s : ChatService} {op : Op} {k : String} {room' : Room}

theorem PaceStep.unchanged (h : s.rooms.get? k = some room') : PaceStep lower s op k room' :=
  .same h (Room.SamePace.refl room')

theorem PaceStep.insert {k' : String} {room : Room}
    (h : (s.rooms.insert k' room).get? k = some room')
    (hput : k = k' -> PaceStep lower s op k room) : PaceStep lower s op k room' := by
  rw [get?_insert] at h
  split at h
  · rename_i hk
    cases h
    exact hput hk
  · exact PaceStep.unchanged h

theorem PaceStep.withRoom {answer : Type} {name : String}
    {act : Room -> Except ChatError answer × Room}
    (h : (s.withRoom lower name act).snd.rooms.get? k = some room')
    (hact : forall room, s.rooms.get? k = some room -> k = ChatService.key lower name ->
      PaceStep lower s op k (act room).snd) : PaceStep lower s op k room' := by
  unfold ChatService.withRoom at h
  split at h
  · exact PaceStep.unchanged h
  · rename_i room hroom
    apply PaceStep.insert h
    intro hk
    rw [← hk] at hroom
    exact hact room hroom hk

theorem PaceStep.expelled {room : Room} {sessions : List Nat} {target : Int} {ban : Bool}
    (hroom : s.rooms.get? k = some room) :
    PaceStep lower s op k ((ChatService.expel room sessions).snd.barred target ban) := by
  rcases expel_same room sessions with ⟨members, hsame⟩
  rcases Room.samePace_barred (ChatService.expel room sessions).snd target ban with
    ⟨hslow, hclocks⟩
  rw [hsame] at hslow hclocks
  refine .same hroom ⟨?_, ?_⟩
  · rw [hsame]
    exact hslow
  · rw [hsame]
    exact hclocks

/-- Every room after a call, and where its pace comes from. -/
theorem paceStep (h : (op.run lower s).rooms.get? k = some room') :
    PaceStep lower s op k room' := by
  cases op with
  | joinLobby session account screenName =>
      replace h : (s.rooms.modify (ChatService.key lower lobby)
        (fun room => room.letIn session screenName)).get? k = some room' := h
      rw [get?_modify] at h
      rcases Option.map_eq_some_iff.mp h with ⟨room, hroom, rfl⟩
      refine .same hroom ?_
      split
      · exact room.samePace_letIn session screenName
      · exact Room.SamePace.refl room
  | sessionClosed session account =>
      simp only [Op.run] at h
      rw [get?_sessionClosed] at h
      rcases Option.bind_eq_some_iff.mp h with ⟨room, hroom, hnew⟩
      split at hnew
      · cases hnew
        refine .same hroom ?_
        split
        all_goals exact ⟨rfl, rfl⟩
      · cases hnew
  | create name category topic private_ account creatorName session =>
      simp only [Op.run] at h
      unfold ChatService.create at h
      dsimp only at h
      split at h
      · exact PaceStep.unchanged h
      · split at h
        · exact PaceStep.unchanged h
        · exact PaceStep.insert h (fun _ => .fresh rfl)
  | join name session account screenName =>
      apply PaceStep.withRoom h
      intro room hroom _
      refine .same hroom ?_
      split
      · exact Room.SamePace.refl room
      · split
        · exact Room.SamePace.refl room
        · exact room.samePace_letIn session screenName
  | leave name session =>
      simp only [Op.run] at h
      unfold ChatService.leave at h
      split at h
      · exact PaceStep.unchanged h
      · split at h
        · exact PaceStep.unchanged h
        · rename_i room hroom
          split at h
          · exact PaceStep.unchanged h
          · split at h
            · apply PaceStep.insert h
              rintro rfl
              exact .same hroom ⟨rfl, rfl⟩
            · rw [get?_erase] at h
              split at h
              · cases h
              · exact PaceStep.unchanged h
  | invite name session target | setTopic name topic account isModerator
  | keeping name session account isModerator nowMs =>
      apply PaceStep.withRoom h
      intro room hroom _
      refine .same hroom ?_
      split
      · exact Room.SamePace.refl room
      · exact ⟨rfl, rfl⟩
  | kick name byAccount byIsModerator target targetSessions ban =>
      simp only [Op.run] at h
      unfold ChatService.kick at h
      split at h
      · exact PaceStep.unchanged h
      · rename_i room hroom
        split at h
        · exact PaceStep.unchanged h
        · split at h
          · exact PaceStep.unchanged h
          · dsimp only at h
            split at h
            · rw [get?_erase] at h
              split at h
              · cases h
              · exact PaceStep.unchanged h
            · apply PaceStep.insert h
              rintro rfl
              exact PaceStep.expelled hroom
  | mute name byAccount byIsModerator target targetName durationMs nowMs =>
      simp only [Op.run] at h
      unfold ChatService.mute at h
      split at h
      · exact PaceStep.unchanged h
      · apply PaceStep.withRoom h
        intro room hroom _
        refine .same hroom ?_
        split
        · exact Room.SamePace.refl room
        · split
          · exact Room.SamePace.refl room
          · exact ⟨rfl, rfl⟩
  | unmute name byAccount byIsModerator target nowMs =>
      apply PaceStep.withRoom h
      intro room hroom _
      refine .same hroom ?_
      split
      · exact Room.SamePace.refl room
      · rcases room.samePace_mutedNow target nowMs with ⟨hslow, hclocks⟩
        exact ⟨hslow, hclocks⟩
  | isMuted name account nowMs =>
      simp only [Op.run] at h
      unfold ChatService.isMuted at h
      split at h
      · exact PaceStep.unchanged h
      · rename_i room hroom
        apply PaceStep.insert h
        rintro rfl
        exact .same hroom (room.samePace_mutedNow account nowMs)
  | setSlowMode name seconds byAccount byIsModerator =>
      apply PaceStep.withRoom h
      intro room hroom _
      split
      · exact PaceStep.unchanged hroom
      · refine .changed hroom (Nat.min_le_right _ _) ?_
        intro hpos
        exact if_neg (Nat.ne_of_gt hpos)
  | send name sender text nowMs wallClockMs =>
      simp only [Op.run] at h
      rcases send_cases lower s name sender text nowMs wallClockMs with
        ⟨e, hsend, -⟩ | ⟨room, htext, hroom⟩
      · rw [hsend] at h
        exact PaceStep.unchanged h
      · have hsend := send_room htext hroom sender nowMs wallClockMs
        rw [hsend] at h
        apply PaceStep.insert h
        rintro rfl
        rcases hsaid : ChatService.said room sender (trimEnd text) nowMs wallClockMs with
          ⟨answer, left⟩
        cases answer with
        | error e => exact .same hroom (said_error hsaid)
        | ok line =>
            rcases said_ok hsaid with ⟨hslow, hclocks⟩
            refine .sent hroom (if_pos ⟨rfl, ?_⟩) hslow (fun hpos => (hclocks hpos).right)
            rw [hsend, hsaid]
            rfl

end

/-!
## Runs
-/

def ChatService.Paced (s : ChatService) : Prop :=
  forall k room, s.rooms.get? k = some room -> room.slowModeSecs <= maxSlowModeSecs

theorem paced_step {lower : String -> String} (s : ChatService) (op : Op) (s' : ChatService)
    (hs : s.Paced) (hstep : step lower s op = some s') : s'.Paced := by
  intro k room' hroom'
  cases hstep
  cases paceStep hroom' with
  | fresh hslow =>
      rw [hslow]
      exact Nat.zero_le _
  | same hroom hpace =>
      rw [hpace.slow]
      exact hs k _ hroom
  | changed hroom hslow hclocks => exact hslow
  | sent hroom hop hslow hclocks =>
      rw [hslow]
      exact hs k _ hroom

theorem paced_new (lower : String -> String) (maxLen : Nat) :
    (ChatService.new lower maxLen).Paced := by
  intro k room hroom
  unfold ChatService.new at hroom
  rw [get?_insert] at hroom
  split at hroom
  · cases hroom
    exact Nat.zero_le _
  · cases hroom

/-- Slow mode is on in a room, and the next call has no message of an account accepted there. -/
def Undisturbed (lower : String -> String) (k : String) (account : Int) (s : ChatService)
    (op : Op) : Prop :=
  (exists room, s.rooms.get? k = some room ∧ 0 < room.slowModeSecs) ∧
    forall nowMs, op.accepted lower s k ≠ some (account, nowMs)

section

variable {lower : String -> String} {s t : ChatService} {name text : String} {sender : Sender}
  {nowMs : Nat} {wallClockMs : I64}

variable {room : Room}

theorem clock_of_accepted {line : ChatLine}
    (h : (s.send lower name sender text nowMs wallClockMs).fst = .ok line)
    (hroom : (s.send lower name sender text nowMs wallClockMs).snd.rooms.get?
      (ChatService.key lower name) = some room) (hslow : 0 < room.slowModeSecs) :
    room.lastSentMs.get? sender.accountId = some nowMs := by
  rcases send_cases lower s name sender text nowMs wallClockMs with
    ⟨e, hsend, -⟩ | ⟨before, htext, hbefore⟩
  · rw [hsend] at h
    cases h
  · rw [send_room htext hbefore] at h hroom
    rcases hsaid : ChatService.said before sender (trimEnd text) nowMs wallClockMs with
      ⟨answer, left⟩
    rw [hsaid] at h hroom
    cases h
    dsimp only at hroom
    rw [get?_insert, if_pos rfl] at hroom
    cases hroom
    rcases said_ok hsaid with ⟨hsame, hclocks⟩
    rw [hsame] at hslow
    rw [(hclocks hslow).right, get?_insert, if_pos rfl]

theorem clock_of_undisturbed {k : String} {account : Int} {ops : List Op}
    (hs : forall room, s.rooms.get? k = some room -> 0 < room.slowModeSecs ->
      room.lastSentMs.get? account = some nowMs)
    (hquiet : Along (step lower) (Undisturbed lower k account) s ops)
    (hrun : run? (step lower) s ops = some t) (hroom : t.rooms.get? k = some room)
    (hslow : 0 < room.slowModeSecs) : room.lastSentMs.get? account = some nowMs := by
  let inv : ChatService -> Prop := fun s => forall room, s.rooms.get? k = some room ->
    0 < room.slowModeSecs -> room.lastSentMs.get? account = some nowMs
  have hinv : inv t := by
    refine run?_invariant_along ?_ hs hquiet hrun
    rintro s op s' hs ⟨⟨before, hbefore, hon⟩, hnone⟩ hstep room' hroom' hslow'
    cases hstep
    have hclock := hs before hbefore hon
    cases paceStep hroom' with
    | fresh hslow =>
        rw [hslow] at hslow'
        exact absurd hslow' (Nat.lt_irrefl 0)
    | same hroom hpace =>
        rw [hbefore] at hroom
        cases hroom
        rw [hpace.clocks]
        exact hclock
    | changed hroom hslow hclocks =>
        rw [hbefore] at hroom
        cases hroom
        rw [hclocks hslow']
        exact hclock
    | sent hroom hop hslow hclocks =>
        rename_i sent account' nowMs'
        rw [hbefore] at hroom
        cases hroom
        rw [hclocks hon, get?_insert, if_neg]
        · exact hclock
        · rintro rfl
          exact hnone nowMs' hop
  exact hinv room hroom hslow

theorem spaced_of_accepted {line : ChatLine} {last : Nat} (hs : s.Paced)
    (hroom : s.rooms.get? (ChatService.key lower name) = some room) (hslow : 0 < room.slowModeSecs)
    (hmoderate : room.canModerate sender.accountId sender.isModerator = false)
    (hlast : room.lastSentMs.get? sender.accountId = some last)
    (h : (s.send lower name sender text nowMs wallClockMs).fst = .ok line) :
    last + 1000 * room.slowModeSecs <= nowMs := by
  rcases send_cases lower s name sender text nowMs wallClockMs with
    ⟨e, hsend, -⟩ | ⟨_, htext, _⟩
  · rw [hsend] at h
    cases h
  · rw [send_room htext hroom] at h
    rcases hsaid : ChatService.said room sender (trimEnd text) nowMs wallClockMs with
      ⟨answer, left⟩
    rw [hsaid] at h
    cases h
    have hwait := ((said_ok hsaid).right hslow).left
    have hspaced :=
      (slowWait_eq_none_iff (hs _ room hroom) hlast hmoderate).mp hwait
    omega

theorem retry_of_refused {retry : Nat} (hs : s.Paced)
    (h : (s.send lower name sender text nowMs wallClockMs).fst = .error (.slowMode retry)) :
    1 <= retry ∧ exists room last, s.rooms.get? (ChatService.key lower name) = some room ∧
      room.lastSentMs.get? sender.accountId = some last ∧
      forall wallClockMs' : I64,
        ((s.send lower name sender text nowMs wallClockMs).snd.send lower name sender text
          (nowMs + 1000 * retry) wallClockMs').fst.isOk = true <-> last <= nowMs := by
  rcases send_cases lower s name sender text nowMs wallClockMs with
    ⟨e, hsend, hother⟩ | ⟨room, htext, hroom⟩
  · rw [hsend] at h
    cases h
    exact absurd rfl (hother retry)
  · have hsend := send_room htext hroom sender nowMs wallClockMs
    rcases hsaid : ChatService.said room sender (trimEnd text) nowMs wallClockMs with
      ⟨answer, left⟩
    rw [hsend, hsaid] at h
    cases h
    rcases said_slowMode hsaid with ⟨hmember, hmuted, hslow, hwait⟩
    have hpace := said_error hsaid
    have hbound : left.slowModeSecs <= maxSlowModeSecs := by
      rw [hpace.slow]
      exact hs _ room hroom
    rcases slowWait_retry hbound hwait with ⟨hpos, last, hlast, hagain⟩
    refine ⟨hpos, room, last, hroom, by rw [← hpace.clocks]; exact hlast, ?_⟩
    intro wallClockMs'
    have hleft : ({ s with rooms := s.rooms.insert (ChatService.key lower name) left } :
        ChatService).rooms.get? (ChatService.key lower name) = some left := by
      dsimp only
      rw [get?_insert, if_pos rfl]
    rw [hsend, hsaid]
    dsimp only
    rw [send_room (by exact htext) hleft, ← hagain]
    exact said_again _ _ _ hmember (hmuted _) hslow

end

/--
In every run: where slow mode stays on after an accepted message, the clock of the account
has the time of its last one, and the next that is accepted, of one who does not moderate
there, comes the interval later at least.  A refusal says to wait a second or more; after
that the message is accepted exactly when the refused one did not come before the clock.
-/
theorem slow_mode_spaces {lower : String -> String} {maxLen : Nat} {before : List Op}
    {s : ChatService} (hrun : run? (step lower) (ChatService.new lower maxLen) before = some s) :
    (forall (name name' text text' : String) (sender sender' : Sender) (now1 now2 : Nat)
      (wall1 wall2 : I64) (line line' : ChatLine) (between : List Op) (t : ChatService)
      (room : Room),
      (s.send lower name sender text now1 wall1).fst = .ok line ->
      Along (step lower) (Undisturbed lower (ChatService.key lower name) sender.accountId)
        (s.send lower name sender text now1 wall1).snd between ->
      run? (step lower) (s.send lower name sender text now1 wall1).snd between = some t ->
      t.rooms.get? (ChatService.key lower name) = some room -> 0 < room.slowModeSecs ->
      ChatService.key lower name' = ChatService.key lower name ->
      sender'.accountId = sender.accountId ->
        room.lastSentMs.get? sender.accountId = some now1 ∧
          (room.canModerate sender'.accountId sender'.isModerator = false ->
            (t.send lower name' sender' text' now2 wall2).fst = .ok line' ->
              now1 + 1000 * room.slowModeSecs <= now2)) ∧
      forall (name text : String) (sender : Sender) (nowMs retry : Nat) (wallClockMs : I64),
        (s.send lower name sender text nowMs wallClockMs).fst = .error (.slowMode retry) ->
          1 <= retry ∧ exists room last,
            s.rooms.get? (ChatService.key lower name) = some room ∧
            room.lastSentMs.get? sender.accountId = some last ∧
            forall wallClockMs' : I64,
              ((s.send lower name sender text nowMs wallClockMs).snd.send lower name sender text
                (nowMs + 1000 * retry) wallClockMs').fst.isOk = true <-> last <= nowMs := by
  have hpaced : s.Paced :=
    run?_invariant paced_step (paced_new lower maxLen) hrun
  refine ⟨?_, fun name text sender nowMs retry wallClockMs h => retry_of_refused hpaced h⟩
  intro name name' text text' sender sender' now1 now2 wall1 wall2 line line' between t room hfirst
    hquiet hbetween hroom hslow hname haccount
  have hclock : room.lastSentMs.get? sender.accountId = some now1 :=
    clock_of_undisturbed (fun room hroom hslow => clock_of_accepted hfirst hroom hslow) hquiet
      hbetween hroom hslow
  refine ⟨hclock, fun hmoderate hsecond => ?_⟩
  have hlater : t.Paced := by
    apply run?_invariant paced_step _ hbetween
    exact paced_step s (.send name sender text now1 wall1) _ hpaced rfl
  rw [← haccount] at hclock
  rw [← hname] at hroom
  exact spaced_of_accepted hlater hroom hslow hmoderate hclock hsecond

/-- Ten seconds between messages in the lobby, which a moderator asked for. -/
def slowLobby : List Op :=
  [.joinLobby 1 10 "ann", .joinLobby 2 20 "bo", .setSlowMode lobby 10 20 true]

def slowState : ChatService :=
  slowLobby.foldl (fun s op => op.run asciiLower s) (ChatService.new asciiLower 64)

/-- A message, a second one that is refused, and a third. -/
theorem slow_mode_spaces_lobby :
    run? (step asciiLower) (ChatService.new asciiLower 64) slowLobby = some slowState ∧
      exists t, run? (step asciiLower) slowState
        [.send lobby chatterer "hi" 5000 epoch, .send lobby chatterer "ho" 7000 epoch] = some t ∧
      forall (now2 : Nat) (line' : ChatLine),
        (t.send asciiLower lobby chatterer "ho" now2 epoch).fst = .ok line' -> 15000 <= now2 := by
  refine ⟨rfl, _, rfl, ?_⟩
  intro now2 line' hsecond
  have hrefused : (Op.send lobby chatterer "ho" 7000 epoch).accepted asciiLower
      (slowState.send asciiLower lobby chatterer "hi" 5000 epoch).snd
      (ChatService.key asciiLower lobby) = none := by
    decide
  have hundisturbed : Undisturbed asciiLower (ChatService.key asciiLower lobby) 10
      (slowState.send asciiLower lobby chatterer "hi" 5000 epoch).snd
      (.send lobby chatterer "ho" 7000 epoch) := by
    refine ⟨⟨_, rfl, by decide⟩, fun nowMs => ?_⟩
    rw [hrefused]
    exact nofun
  rcases hroom : (((slowState.send asciiLower lobby chatterer "hi" 5000 epoch).snd.send asciiLower
      lobby chatterer "ho" 7000 epoch).snd.rooms.get? (ChatService.key asciiLower lobby)) with _ | room
  · exact absurd hroom (by decide)
  · have hslow : room.slowModeSecs = 10 ∧ room.canModerate 10 false = false := by
      cases hroom
      decide
    have hspaced := (@slow_mode_spaces asciiLower 64 slowLobby slowState rfl).left lobby lobby "hi"
      "ho" chatterer chatterer 5000 now2 epoch epoch _ line'
      [.send lobby chatterer "ho" 7000 epoch] _ room rfl ⟨hundisturbed, fun _ _ => trivial⟩ rfl
      hroom (by rw [hslow.left]; decide) rfl rfl
    have hlate := hspaced.right hslow.right hsecond
    rw [hslow.left] at hlate
    exact hlate

set_option maxRecDepth 8000 in
/-- A message that comes with a time before that of the last one, and again as it is told. -/
theorem early_clock_waits_longer :
    ¬ (forall (before : List Op) (s : ChatService) (name text : String) (sender : Sender)
      (nowMs retry : Nat) (wallClockMs : I64),
      run? (step asciiLower) (ChatService.new asciiLower 64) before = some s ->
      (s.send asciiLower name sender text nowMs wallClockMs).fst = .error (.slowMode retry) ->
        ((s.send asciiLower name sender text nowMs wallClockMs).snd.send asciiLower name sender text
          (nowMs + 1000 * retry) wallClockMs).fst.isOk = true) := by
  intro hall
  have hrun : run? (step asciiLower) (ChatService.new asciiLower 64)
      (slowLobby ++ [.send lobby chatterer "hi" 5000 epoch]) =
        some (slowState.send asciiLower lobby chatterer "hi" 5000 epoch).snd := rfl
  have hagain := hall _ _ lobby "ho" chatterer 4000 10 epoch hrun (by decide)
  exact absurd hagain (by decide)

end Rabbithole.Chat
