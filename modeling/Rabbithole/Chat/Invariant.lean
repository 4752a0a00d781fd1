import Rabbithole.Chat.Rooms

/-!
# What holds of the rooms

The lobby is there, every other room has a member, and every room is under the key of its
name.  The two tables of mutes name the same accounts, and a muted guest is there.  The
scrollback is bounded and its timestamps rise, up to the end of their type.
-/

namespace Rabbithole.Chat

open Foundation List Dict

/-- One line after another: at a later time, or both at the end of the clock. -/
def ChatLine.Before (a b : ChatLine) : Prop :=
  a.atUnixMs < b.atUnixMs ∨ (a.atUnixMs.val = i64Max ∧ b.atUnixMs.val = i64Max)

structure Room.Sound (room : Room) : Prop where
  mutes : forall account, (room.muted.get? account).isSome = (room.mutedAs.get? account).isSome
  rising : room.history.Pairwise ChatLine.Before
  short : room.history.length <= scrollback

/-- How a call may change a room, beside the guests that are there. -/
structure Room.Follows (s : ChatService) (room room' : Room) : Prop where
  name : room'.name = room.name
  persistent : room'.persistent = room.persistent
  survives : room.survives = true -> room'.survives = true
  sound : room.Sound -> room'.Sound
  mutes : forall account, (room'.muted.get? account).isSome = true ->
    (room.muted.get? account).isSome = true ∨ 0 <= account ∨ s.present account = true

section Follows

variable {s : ChatService} {room room' room'' : Room}

theorem Room.Follows.refl (s : ChatService) (room : Room) : room.Follows s room where
  name := rfl
  persistent := rfl
  survives := id
  sound := id
  mutes := fun _ h => Or.inl h

theorem Room.Follows.trans (h : room.Follows s room') (h' : room'.Follows s room'') :
    room.Follows s room'' where
  name := h'.name.trans h.name
  persistent := h'.persistent.trans h.persistent
  survives := fun hs => h'.survives (h.survives hs)
  sound := fun hs => h'.sound (h.sound hs)
  mutes := by
    intro account hmuted
    rcases h'.mutes account hmuted with hbefore | hother
    · exact h.mutes account hbefore
    · exact Or.inr hother

theorem Room.Follows.of_same (hname : room'.name = room.name)
    (hpersistent : room'.persistent = room.persistent)
    (hmembers : room'.members = room.members) (hmuted : room'.muted = room.muted)
    (hmutedAs : room'.mutedAs = room.mutedAs) (hhistory : room'.history = room.history) :
    room.Follows s room' where
  name := hname
  persistent := hpersistent
  survives := by
    unfold Room.survives
    rw [hpersistent, hmembers]
    exact id
  sound := by
    intro h
    constructor
    · rw [hmuted, hmutedAs]
      exact h.mutes
    · rw [hhistory]
      exact h.rising
    · rw [hhistory]
      exact h.short
  mutes := by
    intro account h
    rw [hmuted] at h
    exact Or.inl h

theorem Room.survives_iff :
    room.survives = true <->
      room.persistent = true ∨ exists session, room.members.get? session ≠ none := by
  unfold Room.survives
  rw [Bool.or_eq_true, Bool.not_eq_true', ← Bool.not_eq_true, Dict.isEmpty_iff, not_forall]

theorem Room.follows_letIn (session : Nat) (screenName : String) :
    room.Follows s (room.letIn session screenName) := by
  unfold Room.letIn
  split
  · exact
      { name := rfl
        persistent := rfl
        survives := by
          intro _
          rw [Room.survives_iff]
          refine Or.inr ⟨session, ?_⟩
          simp
        sound := fun h => ⟨h.mutes, h.rising, h.short⟩
        mutes := fun _ h => Or.inl h }
  · exact Room.Follows.refl s room

theorem Room.survives_barred (room : Room) (account : Int) (ban : Bool) :
    (room.barred account ban).survives = room.survives := by
  unfold Room.barred
  split
  · rfl
  · rfl

theorem Room.follows_barred (s : ChatService) (room : Room) (account : Int) (ban : Bool) :
    room.Follows s (room.barred account ban) := by
  unfold Room.barred
  split
  · exact Room.Follows.of_same rfl rfl rfl rfl rfl rfl
  · exact Room.Follows.refl s room

theorem Room.follows_clocked (account : Int) (nowMs : Nat) :
    room.Follows s (room.clocked account nowMs) := by
  unfold Room.clocked
  split
  · exact Room.Follows.of_same rfl rfl rfl rfl rfl rfl
  · exact Room.Follows.refl s room

theorem Room.follows_members {members : Dict Nat String}
    (hsurvives : room.survives = true ->
      ({ room with members := members } : Room).survives = true) :
    room.Follows s { room with members := members } where
  name := rfl
  persistent := rfl
  survives := hsurvives
  sound := fun h => ⟨h.mutes, h.rising, h.short⟩
  mutes := fun _ h => Or.inl h

theorem Room.follows_dismiss {session : Nat} (hsurvives : (room.dismiss session).survives = true) :
    room.Follows s (room.dismiss session) :=
  Room.follows_members (fun _ => hsurvives)

theorem Room.follows_unmuted (account : Int) : room.Follows s (room.unmuted account) where
  name := rfl
  persistent := rfl
  survives := id
  sound := by
    intro h
    refine ⟨?_, h.rising, h.short⟩
    intro other
    unfold Room.unmuted
    simp only [get?_erase]
    split
    · rfl
    · exact h.mutes other
  mutes := by
    intro other hmuted
    unfold Room.unmuted at hmuted
    simp only [get?_erase] at hmuted
    split at hmuted
    · cases hmuted
    · exact Or.inl hmuted

theorem Room.follows_mutedNow (s : ChatService) (room : Room) (account : Int) (nowMs : Nat) :
    room.Follows s (room.mutedNow account nowMs).snd := by
  unfold Room.mutedNow
  split
  · exact Room.Follows.refl s room
  · exact Room.Follows.refl s room
  · split
    · exact Room.Follows.refl s room
    · exact Room.follows_unmuted account

theorem Room.follows_lapse (nowMs : Nat) : room.Follows s (ChatService.lapse room nowMs) where
  name := rfl
  persistent := rfl
  survives := id
  sound := by
    intro h
    refine ⟨?_, h.rising, h.short⟩
    intro account
    have hsame := h.mutes account
    unfold ChatService.lapse
    simp only [get?_retain]
    cases hmuted : room.muted.get? account with
    | none =>
        rw [hmuted] at hsame
        cases hname : room.mutedAs.get? account with
        | none => rfl
        | some name =>
            rw [hname] at hsame
            cases hsame
    | some ends =>
        rw [hmuted] at hsame
        cases hname : room.mutedAs.get? account with
        | none =>
            rw [hname] at hsame
            cases hsame
        | some name =>
            rw [Option.filter_some, Option.filter_some]
            split
            · rfl
            · rfl
  mutes := by
    intro account hmuted
    unfold ChatService.lapse at hmuted
    simp only [get?_retain] at hmuted
    cases hold : room.muted.get? account with
    | none =>
        rw [hold] at hmuted
        cases hmuted
    | some ends => exact Or.inl rfl

theorem Room.follows_muted {account : Int} (ends : Option Nat) (name : String)
    (hguest : account < 0 -> s.present account = true) : room.Follows s
      { room with
        muted := room.muted.insert account ends
        mutedAs := room.mutedAs.insert account name } where
  name := rfl
  persistent := rfl
  survives := id
  sound := by
    intro h
    refine ⟨?_, h.rising, h.short⟩
    intro other
    simp only [get?_insert]
    split
    · rfl
    · exact h.mutes other
  mutes := by
    intro other hmuted
    simp only [get?_insert] at hmuted
    split at hmuted
    · rename_i heq
      subst heq
      apply Or.inr
      rcases Int.lt_or_le other 0 with hneg | hpos
      · exact Or.inr (hguest hneg)
      · exact Or.inl hpos
    · exact Or.inl hmuted

/-!
### Scrollback
-/

theorem nextChatTimestamp_before (last wallClockMs : I64) :
    last < nextChatTimestamp (some last) wallClockMs ∨
      (last.val = i64Max ∧ (nextChatTimestamp (some last) wallClockMs).val = i64Max) := by
  have hnext : last.saturatingSucc <= nextChatTimestamp (some last) wallClockMs :=
    le_max_right _ _
  have hval : last.saturatingSucc.val <= (nextChatTimestamp (some last) wallClockMs).val := hnext
  have htop := (nextChatTimestamp (some last) wallClockMs).property.right
  have hlast := last.property.right
  have hsucc : last.saturatingSucc.val = min (last.val + 1) i64Max := rfl
  rcases lt_or_eq_of_le hlast with hlt | heq
  · apply Or.inl
    show last.val < (nextChatTimestamp (some last) wallClockMs).val
    omega
  · exact Or.inr ⟨heq, by omega⟩

variable {line : ChatLine}

theorem ChatLine.Before.trans_of_next {a last : ChatLine} (h : a.Before last)
    (hnext : last.Before line) : a.Before line := by
  rcases h with hlt | ⟨htop, hlast⟩
  · rcases hnext with hlt' | ⟨hlast, htop⟩
    · exact Or.inl (lt_trans hlt hlt')
    · apply Or.inl
      have hle : last.atUnixMs <= line.atUnixMs := by
        show last.atUnixMs.val <= line.atUnixMs.val
        rw [hlast, htop]
      exact lt_of_lt_of_le hlt hle
  · rcases hnext with hlt' | ⟨_, htop'⟩
    · have hle := line.atUnixMs.property.right
      have hval : last.atUnixMs.val < line.atUnixMs.val := hlt'
      omega
    · exact Or.inr ⟨htop, htop'⟩

theorem rising_snoc {history : List ChatLine} {wallClockMs : I64}
    (h : history.Pairwise ChatLine.Before) (hline : line.atUnixMs =
      nextChatTimestamp (history.getLast?.map ChatLine.atUnixMs) wallClockMs) :
    (history ++ [line]).Pairwise ChatLine.Before := by
  rw [pairwise_append]
  refine ⟨h, pairwise_singleton _ _, ?_⟩
  intro a ha b hb
  rw [mem_singleton.mp hb]
  rcases eq_nil_or_concat' history with hnil | ⟨front, last, hconcat⟩
  · rw [hnil] at ha
    cases ha
  · subst hconcat
    rw [getLast?_concat, Option.map_some] at hline
    have hnext : last.Before line := by
      unfold ChatLine.Before
      rw [hline]
      exact nextChatTimestamp_before last.atUnixMs wallClockMs
    rcases mem_append.mp ha with hfront | hlast
    · have hbefore := (pairwise_append.mp h).right.right a hfront last
        (mem_singleton_self last)
      exact hbefore.trans_of_next hnext
    · rw [mem_singleton.mp hlast]
      exact hnext

theorem Room.follows_append {wallClockMs : I64} (hline : line.atUnixMs =
      nextChatTimestamp (room.history.getLast?.map ChatLine.atUnixMs) wallClockMs) :
    room.Follows s (ChatService.append room line) where
  name := rfl
  persistent := rfl
  survives := id
  sound := by
    intro h
    have hwhole := rising_snoc h.rising hline
    refine ⟨h.mutes, ?_, ?_⟩
    · unfold ChatService.append
      simp only []
      split
      · exact Pairwise.sublist
          ((tail_sublist _).append (Sublist.refl _)) hwhole
      · exact hwhole
    · have hshort := h.short
      unfold ChatService.append
      simp only [length_append, length_singleton]
      split
      · rw [length_tail]
        unfold scrollback at *
        omega
      · omega
  mutes := fun _ h => Or.inl h

end Follows

/-!
## The service
-/

section Service

variable {lower : String -> String} {owner : Nat -> Int} {s : ChatService}

/-- What holds of one room, under its key. -/
structure ChatService.Holds (lower : String -> String) (s : ChatService) (k : String)
    (room : Room) : Prop where
  named : k = ChatService.key lower room.name
  lasting : room.persistent = true <-> k = ChatService.key lower lobby
  survives : room.survives = true
  sound : room.Sound
  guests : forall account, account < 0 -> (room.muted.get? account).isSome = true ->
    s.present account = true

/-- The sessions' accounts are as their owners say. -/
structure ChatService.Consistent (lower : String -> String) (owner : Nat -> Int)
    (s : ChatService) : Prop where
  lobby : s.rooms.get? (ChatService.key lower lobby) ≠ none
  rooms : forall k room, s.rooms.get? k = some room -> s.Holds lower k room
  owners : forall session account, s.guestSessions.get? session = some account ->
    account = owner session

variable {name k : String} {account target byAccount : Int} {session nowMs : Nat} {room : Room}
  {sessions : List Nat} {isModerator byIsModerator : Bool}

theorem ChatService.present_iff :
    s.present account = true <->
      exists session, s.guestSessions.get? session = some account := by
  unfold ChatService.present
  rw [any_eq_true]
  constructor
  · rintro ⟨⟨session, other⟩, hmem, heq⟩
    have hsame : other = account := of_decide_eq_true heq
    rw [hsame] at hmem
    exact ⟨session, get?_eq_some_iff.mpr hmem⟩
  · rintro ⟨session, hfound⟩
    exact ⟨(session, account), get?_eq_some_iff.mp hfound, decide_eq_true rfl⟩

theorem ChatService.Holds.follows {room' : Room} (h : s.Holds lower k room)
    (hfollows : room.Follows s room') : s.Holds lower k room' where
  named := by
    rw [hfollows.name]
    exact h.named
  lasting := by
    rw [hfollows.persistent]
    exact h.lasting
  survives := hfollows.survives h.survives
  sound := hfollows.sound h.sound
  guests := by
    intro account hneg hmuted
    rcases hfollows.mutes account hmuted with hbefore | hpos | hpresent
    · exact h.guests account hneg hbefore
    · omega
    · exact hpresent

theorem ChatService.Holds.of_rooms {rooms : Dict String Room} (h : s.Holds lower k room) :
    ({ s with rooms := rooms } : ChatService).Holds lower k room :=
  ⟨h.named, h.lasting, h.survives, h.sound, h.guests⟩

theorem ChatService.Consistent.insert {room' : Room} (h : s.Consistent lower owner)
    (hroom : s.rooms.get? k = some room) (hfollows : room.Follows s room') :
    ({ s with rooms := s.rooms.insert k room' } : ChatService).Consistent lower owner where
  lobby := by
    rw [get?_insert]
    split
    · exact Option.some_ne_none _
    · exact h.lobby
  rooms := by
    intro k' found hfound
    rw [get?_insert] at hfound
    split at hfound
    · rename_i heq
      subst heq
      cases hfound
      exact ((h.rooms k' room hroom).follows hfollows).of_rooms
    · exact (h.rooms k' found hfound).of_rooms
  owners := h.owners

theorem ChatService.Consistent.withRoom {answer : Type}
    {act : Room -> Except ChatError answer × Room} (h : s.Consistent lower owner)
    (hact : forall room : Room, room.Follows s (act room).snd) :
    (s.withRoom lower name act).snd.Consistent lower owner := by
  unfold ChatService.withRoom
  cases hroom : s.rooms.get? (ChatService.key lower name) with
  | none => exact h
  | some room => exact h.insert hroom (hact room)

theorem ChatService.Consistent.erase (h : s.Consistent lower owner)
    (hroom : s.rooms.get? k = some room) (hpersistent : room.persistent = false) :
    ({ s with rooms := s.rooms.erase k } : ChatService).Consistent lower owner where
  lobby := by
    have hne : ChatService.key lower Chat.lobby ≠ k := by
      intro heq
      have hlasting := (h.rooms k room hroom).lasting.mpr heq.symm
      rw [hpersistent] at hlasting
      cases hlasting
    rw [get?_erase, if_neg hne]
    exact h.lobby
  rooms := by
    intro k' found hfound
    rw [get?_erase] at hfound
    split at hfound
    · cases hfound
    · exact (h.rooms k' found hfound).of_rooms
  owners := h.owners

/-!
### Each call
-/

theorem ChatService.Consistent.new (maxLen : Nat) :
    (ChatService.new lower maxLen).Consistent lower owner where
  lobby := by
    unfold ChatService.new
    simp
  rooms := by
    intro k room hroom
    unfold ChatService.new at hroom
    rw [get?_insert] at hroom
    split at hroom
    · rename_i hk
      cases hroom
      exact
        { named := hk
          lasting := ⟨fun _ => hk, fun _ => rfl⟩
          survives := rfl
          sound := ⟨fun _ => rfl, Pairwise.nil, Nat.zero_le _⟩
          guests := by
            intro account _ hmuted
            cases hmuted }
    · cases hroom
  owners := by
    intro session account h
    cases h

theorem ChatService.Consistent.joinLobby {screenName : String} (h : s.Consistent lower owner) :
    (s.joinLobby lower session (owner session) screenName).Consistent lower owner where
  lobby := by
    unfold ChatService.joinLobby
    rw [get?_modify]
    simp only [ne_eq, Option.map_eq_none_iff]
    exact h.lobby
  rooms := by
    intro k room' hroom
    unfold ChatService.joinLobby at hroom
    rw [get?_modify] at hroom
    rcases Option.map_eq_some_iff.mp hroom with ⟨room, hold, hnew⟩
    have hfollows : room.Follows s room' := by
      rw [← hnew]
      split
      · exact Room.follows_letIn session screenName
      · exact Room.Follows.refl s room
    have hholds := (h.rooms k room hold).follows hfollows
    refine ⟨hholds.named, hholds.lasting, hholds.survives, hholds.sound, ?_⟩
    intro account hneg hmuted
    rcases ChatService.present_iff.mp (hholds.guests account hneg hmuted) with ⟨other, hother⟩
    rw [ChatService.present_iff]
    refine ⟨other, ?_⟩
    unfold ChatService.joinLobby
    simp only []
    split
    · rw [get?_insert]
      split
      · rename_i heq
        rw [heq] at hother
        rw [h.owners session account hother]
      · exact hother
    · exact hother
  owners := by
    intro other account hother
    unfold ChatService.joinLobby at hother
    simp only [] at hother
    split at hother
    · rw [get?_insert] at hother
      split at hother
      · rename_i heq
        cases hother
        rw [heq]
      · exact h.owners other account hother
    · exact h.owners other account hother

def ChatService.without (s : ChatService) (session : Nat) : ChatService :=
  { s with guestSessions := s.guestSessions.erase session }

theorem ChatService.Consistent.present_without (h : s.Consistent lower owner)
    (hpresent : s.present account = true) (hother : account ≠ owner session) :
    (s.without session).present account = true := by
  rcases ChatService.present_iff.mp hpresent with ⟨other, hfound⟩
  rw [ChatService.present_iff]
  refine ⟨other, ?_⟩
  unfold ChatService.without
  rw [get?_erase, if_neg]
  · exact hfound
  · intro heq
    apply hother
    rw [← heq]
    exact h.owners other account hfound

theorem ChatService.get?_sessionClosed (s : ChatService) (session : Nat) (account : Int)
    (k : String) :
    (s.sessionClosed session account).rooms.get? k =
      (s.rooms.get? k).bind (fun room =>
        if (room.dismiss session).survives then
          some (if account < 0 ∧ (s.without session).present account = false then
            (room.dismiss session).unmuted account
          else room.dismiss session)
        else none) := by
  unfold ChatService.sessionClosed
  simp only [get?_filterMap]
  cases s.rooms.get? k with
  | none => rfl
  | some room =>
      simp only [Option.bind_some, Bool.and_eq_true, decide_eq_true_eq, Bool.not_eq_true']
      rfl

theorem ChatService.Consistent.sessionClosed (h : s.Consistent lower owner) :
    (s.sessionClosed session (owner session)).Consistent lower owner where
  lobby := by
    rcases Option.ne_none_iff_exists'.mp h.lobby with ⟨room, hroom⟩
    have hpersistent := (h.rooms _ room hroom).lasting.mpr rfl
    have hsurvives : (room.dismiss session).survives = true :=
      Room.survives_iff.mpr (Or.inl hpersistent)
    rw [ChatService.get?_sessionClosed, hroom, Option.bind_some, if_pos hsurvives]
    exact Option.some_ne_none _
  rooms := by
    intro k room' hroom'
    rw [ChatService.get?_sessionClosed] at hroom'
    rcases Option.bind_eq_some_iff.mp hroom' with ⟨room, hroom, hnew⟩
    split at hnew
    · rename_i hsurvives
      have hleft := (h.rooms k room hroom).follows (Room.follows_dismiss hsurvives)
      have hfollows : (room.dismiss session).Follows s room' := by
        cases hnew
        split
        · exact Room.follows_unmuted _
        · exact Room.Follows.refl s _
      have hholds := hleft.follows hfollows
      refine ⟨hholds.named, hholds.lasting, hholds.survives, hholds.sound, ?_⟩
      intro account hneg hmuted
      show (s.without session).present account = true
      by_cases hown : account = owner session
      · subst hown
        cases hnew
        split at hmuted
        · unfold Room.unmuted at hmuted
          simp at hmuted
        · rename_i hstays
          rw [← Bool.not_eq_false]
          intro hgone
          exact hstays ⟨hneg, hgone⟩
      · exact h.present_without (hholds.guests account hneg hmuted) hown
    · cases hnew
  owners := by
    intro other account hother
    unfold ChatService.sessionClosed at hother
    simp only [get?_erase] at hother
    split at hother
    · cases hother
    · exact h.owners other account hother

theorem ChatService.Consistent.add {k : String} {room : Room} (h : s.Consistent lower owner)
    (hnew : s.rooms.get? k = none) (hholds : s.Holds lower k room) :
    ({ s with rooms := s.rooms.insert k room } : ChatService).Consistent lower owner where
  lobby := by
    rw [get?_insert, if_neg]
    · exact h.lobby
    · intro heq
      rw [← heq] at hnew
      exact h.lobby hnew
  rooms := by
    intro k' found hfound
    rw [get?_insert] at hfound
    split at hfound
    · rename_i hk
      subst hk
      cases hfound
      exact hholds.of_rooms
    · exact (h.rooms k' found hfound).of_rooms
  owners := h.owners

section

variable (h : s.Consistent lower owner)
include h

theorem ChatService.Consistent.create {category topic creatorName : String} {private_ : Bool} :
    (s.create lower name category topic private_ account creatorName
      session).snd.Consistent lower owner := by
  unfold ChatService.create
  simp only []
  split
  · exact h
  · split
    · exact h
    · rename_i hnew
      rw [Bool.not_eq_true, Option.isSome_eq_false_iff, Option.isNone_iff_eq_none] at hnew
      apply h.add hnew
      constructor
      · rfl
      · constructor
        · intro hlasting
          cases hlasting
        · intro heq
          rw [heq] at hnew
          exact absurd hnew h.lobby
      · rw [Room.survives_iff]
        exact Or.inr ⟨session, by simp⟩
      · exact ⟨fun _ => rfl, Pairwise.nil, Nat.zero_le _⟩
      · intro account _ hmuted
        cases hmuted

theorem ChatService.Consistent.join {screenName : String} :
    (s.join lower name session account screenName).snd.Consistent lower owner := by
  apply h.withRoom
  intro room
  split
  · exact Room.Follows.refl s room
  · split
    · exact Room.Follows.refl s room
    · exact Room.follows_letIn session screenName

theorem ChatService.Consistent.leave : (s.leave lower name session).snd.Consistent lower owner := by
  unfold ChatService.leave
  split
  · exact h
  · cases hroom : s.rooms.get? (ChatService.key lower name) with
    | none => exact h
    | some room =>
        simp only []
        split
        · exact h
        · split
          · rename_i hsurvives
            exact h.insert hroom (Room.follows_dismiss hsurvives)
          · rename_i hsurvives
            apply h.erase hroom
            rw [Room.survives_iff, not_or] at hsurvives
            exact Bool.not_eq_true _ ▸ hsurvives.left

theorem ChatService.Consistent.invite :
    (s.invite lower name session target).snd.Consistent lower owner := by
  apply h.withRoom
  intro room
  split
  · exact Room.Follows.refl s room
  · exact Room.Follows.of_same rfl rfl rfl rfl rfl rfl

theorem ChatService.Consistent.setTopic {topic : String} :
    (s.setTopic lower name topic account isModerator).snd.Consistent lower owner := by
  apply h.withRoom
  intro room
  split
  · exact Room.Follows.refl s room
  · exact Room.Follows.of_same rfl rfl rfl rfl rfl rfl

theorem ChatService.Consistent.setSlowMode {seconds : Nat} :
    (s.setSlowMode lower name seconds account isModerator).snd.Consistent lower owner := by
  apply h.withRoom
  intro room
  split
  · exact Room.Follows.refl s room
  · exact Room.Follows.of_same rfl rfl rfl rfl rfl rfl

theorem ChatService.Consistent.mute {targetName : String} {durationMs : Option Nat} :
    (s.mute lower name byAccount byIsModerator target targetName durationMs
      nowMs).snd.Consistent lower owner := by
  unfold ChatService.mute
  split
  · exact h
  · rename_i hguest
    apply h.withRoom
    intro room
    split
    · exact Room.Follows.refl s room
    · split
      · exact Room.Follows.refl s room
      · apply Room.follows_muted
        intro hneg
        rw [← Bool.not_eq_false]
        intro hgone
        exact hguest ⟨hneg, hgone⟩

theorem ChatService.Consistent.unmute :
    (s.unmute lower name byAccount byIsModerator target nowMs).snd.Consistent lower owner := by
  apply h.withRoom
  intro room
  split
  · exact Room.Follows.refl s room
  · exact (Room.follows_mutedNow s room target nowMs).trans (Room.follows_unmuted target)

theorem ChatService.Consistent.isMuted :
    (s.isMuted lower name account nowMs).snd.Consistent lower owner := by
  unfold ChatService.isMuted
  cases hroom : s.rooms.get? (ChatService.key lower name) with
  | none => exact h
  | some room => exact h.insert hroom (Room.follows_mutedNow s room account nowMs)

theorem ChatService.Consistent.keeping :
    (s.keeping lower name session account isModerator nowMs).snd.Consistent lower owner := by
  apply h.withRoom
  intro room
  split
  · exact Room.Follows.refl s room
  · exact Room.follows_lapse nowMs

end

theorem ChatService.expel_same (room : Room) (sessions : List Nat) :
    exists members, (ChatService.expel room sessions).snd = { room with members := members } := by
  induction sessions generalizing room with
  | nil => exact ⟨room.members, rfl⟩
  | cons session rest ih =>
      rcases ih (room.dismiss session) with ⟨members, hmembers⟩
      exact ⟨members, hmembers⟩

theorem ChatService.survives_expel (hnobody : (ChatService.expel room sessions).fst = [])
    (h : room.survives = true) : (ChatService.expel room sessions).snd.survives = true := by
  induction sessions generalizing room with
  | nil => exact h
  | cons session rest ih =>
      unfold ChatService.expel at hnobody
      simp only [] at hnobody
      split at hnobody
      · cases hnobody
      · rename_i habsent
        apply ih hnobody
        rw [Room.survives_iff] at h ⊢
        rcases h with hpersistent | ⟨member, hmember⟩
        · exact Or.inl hpersistent
        · refine Or.inr ⟨member, ?_⟩
          unfold Room.dismiss
          rw [get?_erase, if_neg]
          · exact hmember
          · intro heq
            rw [← heq, Bool.not_eq_true, Option.isSome_eq_false_iff,
              Option.isNone_iff_eq_none] at habsent
            exact hmember habsent

theorem ChatService.follows_expel
    (hsurvives : (ChatService.expel room sessions).snd.survives = true) :
    room.Follows s (ChatService.expel room sessions).snd := by
  rcases ChatService.expel_same room sessions with ⟨members, hleft⟩
  rw [hleft] at hsurvives ⊢
  exact Room.follows_members (fun _ => hsurvives)

theorem ChatService.persistent_of_expel_reaped
    (hreaped : (ChatService.expel room sessions).snd.survives = false) :
    room.persistent = false := by
  rcases ChatService.expel_same room sessions with ⟨members, hleft⟩
  rw [hleft] at hreaped
  have hnot := Bool.eq_false_iff.mp hreaped
  rw [ne_eq, Room.survives_iff, not_or] at hnot
  exact Bool.eq_false_iff.mpr hnot.left

theorem ChatService.Consistent.kick {ban : Bool} (h : s.Consistent lower owner) :
    (s.kick lower name byAccount byIsModerator target sessions ban).snd.Consistent lower owner := by
  unfold ChatService.kick
  cases hroom : s.rooms.get? (ChatService.key lower name) with
  | none => exact h
  | some room =>
      simp only []
      split
      · exact h
      · split
        · exact h
        · have hholds := h.rooms _ room hroom
          split
          · rename_i hreaped
            apply h.erase hroom
            have hgone := hreaped.right
            rw [Room.survives_barred] at hgone
            exact ChatService.persistent_of_expel_reaped hgone
          · rename_i hstays
            apply h.insert hroom
            apply Room.Follows.trans _ (Room.follows_barred s _ target ban)
            apply ChatService.follows_expel
            rw [Room.survives_barred] at hstays
            by_cases hnobody : (ChatService.expel room sessions).fst = []
            · exact ChatService.survives_expel hnobody hholds.survives
            · rw [← Bool.not_eq_false]
              intro hgone
              exact hstays ⟨Or.inl hnobody, hgone⟩

theorem ChatService.Consistent.send {name text : String} {sender : Sender} {nowMs : Nat}
    {wallClockMs : I64} (h : s.Consistent lower owner) :
    (s.send lower name sender text nowMs wallClockMs).snd.Consistent lower owner := by
  unfold ChatService.send
  simp only []
  split
  · exact h
  · split
    · exact h
    · apply h.withRoom
      intro room
      split
      · exact Room.Follows.refl s room
      · have hmuted := Room.follows_mutedNow s room sender.accountId nowMs
        cases hnow : room.mutedNow sender.accountId nowMs with
        | mk muted room' =>
            rw [hnow] at hmuted
            cases muted with
            | true => exact hmuted
            | false =>
                simp only []
                split
                · exact hmuted
                · have hclocked := hmuted.trans
                    (Room.follows_clocked sender.accountId nowMs)
                  exact hclocked.trans (Room.follows_append rfl)

/-- The caller's account is the one its session belongs to. -/
def Op.By (owner : Nat -> Int) (op : Op) : Prop :=
  forall session account, op.caller = some (session, account) -> account = owner session

theorem ChatService.Consistent.run {op : Op} (h : s.Consistent lower owner)
    (hby : op.By owner) : (op.run lower s).Consistent lower owner := by
  cases op with
  | joinLobby session account screenName =>
      cases hby session account rfl
      exact h.joinLobby
  | sessionClosed session account =>
      cases hby session account rfl
      exact h.sessionClosed
  | create name category topic private_ account creatorName session => exact h.create
  | join name session account screenName => exact h.join
  | leave name session => exact h.leave
  | invite name session target => exact h.invite
  | setTopic name topic account isModerator => exact h.setTopic
  | kick name byAccount byIsModerator target targetSessions ban => exact h.kick
  | mute name byAccount byIsModerator target targetName durationMs nowMs => exact h.mute
  | unmute name byAccount byIsModerator target nowMs => exact h.unmute
  | isMuted name account nowMs => exact h.isMuted
  | setSlowMode name seconds byAccount byIsModerator => exact h.setSlowMode
  | keeping name session account isModerator nowMs => exact h.keeping
  | send name sender text nowMs wallClockMs => exact h.send

end Service

/--
In every run in which each session is used with one account: the lobby is there, every other
room has a member and is under the key of its name, the tables of mutes agree, a muted guest
has a live session, and at most 500 lines have timestamps that rise, up to `i64::MAX`.
-/
theorem rooms_consistent {lower : String -> String} {owner : Nat -> Int} {maxLen : Nat}
    {ops : List Op} {s : ChatService} (hone : forall op, op ∈ ops -> op.By owner)
    (hrun : run? (step lower) (ChatService.new lower maxLen) ops = some s) :
    s.rooms.get? (ChatService.key lower lobby) ≠ none ∧
      forall k room, s.rooms.get? k = some room ->
        (k ≠ ChatService.key lower lobby ->
          exists session, room.members.get? session ≠ none) ∧
        k = ChatService.key lower room.name ∧
        (forall account,
          (room.muted.get? account).isSome = (room.mutedAs.get? account).isSome) ∧
        (forall account, account < 0 -> (room.muted.get? account).isSome = true ->
          exists session, s.guestSessions.get? session = some account) ∧
        room.history.length <= 500 ∧
        room.history.Pairwise (fun a b => a.atUnixMs < b.atUnixMs ∨
          (a.atUnixMs.val = i64Max ∧ b.atUnixMs.val = i64Max)) := by
  have hconsistent : s.Consistent lower owner := by
    have halong : Along (step lower) (fun _ op => op.By owner) (ChatService.new lower maxLen)
        ops :=
      along_of_invariant (fun _ => True) (fun _ _ _ _ _ => trivial)
        (fun _ op hop _ => hone op hop) trivial
    apply run?_invariant_along _ (ChatService.Consistent.new maxLen) halong hrun
    intro s op s' h hby hstep
    cases hstep
    exact h.run hby
  refine ⟨hconsistent.lobby, ?_⟩
  intro k room hroom
  have hholds := hconsistent.rooms k room hroom
  refine ⟨?_, hholds.named, hholds.sound.mutes, ?_, hholds.sound.short, hholds.sound.rising⟩
  · intro hother
    rcases Room.survives_iff.mp hholds.survives with hpersistent | hmember
    · exact absurd (hholds.lasting.mp hpersistent) hother
    · exact hmember
  · intro account hneg hmuted
    exact ChatService.present_iff.mp (hholds.guests account hneg hmuted)

def asciiLower (s : String) : String :=
  String.ofList (s.toList.map Char.toLower)

/-- A guest that is muted, and whose mute goes with its session. -/
def guestMuted : List Op :=
  [.joinLobby 1 (-1) "guest", .joinLobby 2 10 "ann",
    .create "Den" "" "" true 10 "ann" 2, .mute lobby 10 true (-1) "guest" none 0,
    .sessionClosed 1 (-1)]

theorem rooms_consistent_guestMuted :
    exists s, run? (step asciiLower) (ChatService.new asciiLower 64) guestMuted = some s ∧
      s.rooms.get? (ChatService.key asciiLower lobby) ≠ none := by
  have hone : forall op, op ∈ guestMuted ->
      op.By (fun session => if session = 1 then -1 else 10) := by
    intro op hop session account hcaller
    simp only [guestMuted, mem_cons, not_mem_nil, or_false] at hop
    rcases hop with rfl | rfl | rfl | rfl | rfl
    · cases hcaller
      rfl
    · cases hcaller
      rfl
    · cases hcaller
      rfl
    · cases hcaller
    · cases hcaller
      rfl
  exact ⟨_, rfl, (rooms_consistent hone rfl).left⟩

/-!
### At the end of the clock
-/

def chatterer : Sender where
  sessionId := 1
  accountId := 10
  isModerator := false
  screenName := "ann"

def epoch : I64 :=
  ⟨0, by decide⟩

def hello : Op :=
  .send lobby chatterer "hi" 0 ⟨0, by decide⟩

/-- So many lines in the lobby, all while the wall clock stands at its epoch. -/
def chatter (lines : Nat) : List Op :=
  .joinLobby 1 10 "ann" ::
    List.replicate lines hello

/-- The lobby, with the chatterer in it and the last line at a time. -/
structure Chattering (s : ChatService) (room : Room) (last : Option Int) : Prop where
  here : s.rooms.get? (ChatService.key asciiLower lobby) = some room
  member : room.members.get? 1 = some "ann"
  unmuted : room.muted.get? 10 = none
  quick : room.slowModeSecs = 0
  roomy : 2 <= s.maxLen
  latest : room.history.getLast?.map (fun line => line.atUnixMs.val) = last

variable {room : Room} {s : ChatService}

theorem run_hello {last : Option Int} (h : Chattering s room last) :
    hello.run asciiLower s =
      { s with
        rooms := s.rooms.insert (ChatService.key asciiLower lobby)
          (ChatService.append room
            { room := room.name, sender := "ann", text := "hi",
              atUnixMs := nextChatTimestamp (room.history.getLast?.map ChatLine.atUnixMs)
                ⟨0, by decide⟩ }) } := by
  have htext : trimEnd "hi" = "hi" := by decide
  have hempty : (trim "hi").isEmpty = false := by decide
  have hsize : ¬ s.maxLen < "hi".utf8ByteSize := by
    have hroomy := h.roomy
    have htwo : "hi".utf8ByteSize = 2 := by decide
    omega
  have hmuted : room.mutedNow 10 0 = (false, room) := by
    unfold Room.mutedNow
    rw [h.unmuted]
  simp only [hello, Op.run, ChatService.send, htext, hempty, if_neg hsize,
    ChatService.withRoom, h.here, chatterer, h.member, hmuted, h.quick, Room.clocked]
  simp

theorem chattering_append {last : Option Int} {line : ChatLine} (h : Chattering s room last) :
    Chattering
      { s with
        rooms := s.rooms.insert (ChatService.key asciiLower lobby)
          (ChatService.append room line) }
      (ChatService.append room line) (some line.atUnixMs.val) where
  here := by
    rw [get?_insert, if_pos rfl]
  member := h.member
  unmuted := h.unmuted
  quick := h.quick
  roomy := h.roomy
  latest := by
    unfold ChatService.append
    simp only [getLast?_concat, Option.map_some]

theorem val_nextChatTimestamp {n : Int} {last : I64} (hlast : last.val = n) (hn : 0 <= n) :
    (nextChatTimestamp (some last) ⟨0, by decide⟩).val = min (n + 1) i64Max := by
  have hsucc : last.saturatingSucc.val = min (n + 1) i64Max := by
    rw [← hlast]
    rfl
  have hle : (⟨0, by decide⟩ : I64) <= last.saturatingSucc := by
    show (0 : Int) <= last.saturatingSucc.val
    rw [hsucc]
    unfold i64Max
    omega
  show (max (⟨0, by decide⟩ : I64) last.saturatingSucc).val = _
  rw [max_eq_right hle]
  exact hsucc

theorem Chattering.hello {n : Int} (h : Chattering s room (some n)) (hn : 0 <= n) :
    exists line, Chattering (hello.run asciiLower s) (ChatService.append room line)
        (some (min (n + 1) i64Max)) ∧
      line.atUnixMs.val = min (n + 1) i64Max := by
  rcases Option.map_eq_some_iff.mp h.latest with ⟨last, hlast, hval⟩
  have hnext := val_nextChatTimestamp hval hn
  rw [run_hello h, hlast]
  refine ⟨⟨room.name, "ann", "hi", nextChatTimestamp (some last.atUnixMs) ⟨0, by decide⟩⟩,
    ?_, hnext⟩
  rw [← hnext]
  exact chattering_append h

theorem Chattering.hellos (lines : Nat) {n : Int} (h : Chattering s room (some n)) (hn : 0 <= n)
    (htop : n <= i64Max) :
    exists s' room', run? (step asciiLower) s (List.replicate lines Chat.hello) = some s' ∧
      Chattering s' room' (some (min (n + lines) i64Max)) := by
  induction lines generalizing s room n with
  | zero =>
      refine ⟨s, room, rfl, ?_⟩
      have hsame : min (n + ((0 : Nat) : Int)) i64Max = n := by omega
      rw [hsame]
      exact h
  | succ lines ih =>
      rcases h.hello hn with ⟨line, hnext, _⟩
      rcases ih hnext (by unfold i64Max; omega) (min_le_right _ _) with
        ⟨s', room', hrun, hlater⟩
      refine ⟨s', room', hrun, ?_⟩
      have hsame : min (min (n + 1) i64Max + (lines : Int)) i64Max =
          min (n + ((lines + 1 : Nat) : Int)) i64Max := by
        omega
      rw [← hsame]
      exact hlater

theorem append_last {last : ChatLine} (line : ChatLine) (h : room.history.getLast? = some last) :
    exists front, (ChatService.append room line).history = front ++ [last, line] := by
  rcases getLast?_eq_some_iff.mp h with ⟨front, hfront⟩
  unfold ChatService.append
  simp only []
  split
  · rename_i hfull
    refine ⟨front.tail, ?_⟩
    have hne : front ≠ [] := by
      intro hnil
      rw [hfront, hnil] at hfull
      cases hfull
    rw [hfront, tail_append_of_ne_nil hne, append_assoc]
    rfl
  · refine ⟨front, ?_⟩
    rw [hfront, append_assoc]
    rfl

theorem Chattering.joined : exists room, Chattering
      ((ChatService.new asciiLower 64).joinLobby asciiLower 1 10 "ann") room none := by
  refine ⟨ChatService.lobbyRoom.letIn 1 "ann", ?_, ?_, rfl, rfl, by decide, rfl⟩
  · unfold ChatService.joinLobby ChatService.new
    rw [get?_modify, get?_insert, if_pos rfl]
    simp
  · decide

theorem Chattering.first (h : Chattering s room none) :
    exists room', Chattering (Chat.hello.run asciiLower s) room' (some 0) := by
  have hnone : room.history.getLast? = none := Option.map_eq_none_iff.mp h.latest
  rw [run_hello h, hnone]
  exact ⟨_, chattering_append h⟩

theorem Chattering.stuck (h : Chattering s room (some i64Max)) :
    exists room', (Chat.hello.run asciiLower s).rooms.get?
        (ChatService.key asciiLower lobby) = some room' ∧
      ¬ room'.history.Pairwise (fun a b => a.atUnixMs < b.atUnixMs) := by
  rcases h.hello (by decide) with ⟨line, hnext, hline⟩
  rcases Option.map_eq_some_iff.mp h.latest with ⟨last, hlast, hval⟩
  rcases append_last line hlast with ⟨front, hhistory⟩
  refine ⟨_, hnext.here, ?_⟩
  rw [hhistory, pairwise_append]
  intro hrising
  have hlt : last.atUnixMs.val < line.atUnixMs.val :=
    rel_of_pairwise_cons hrising.right.left mem_cons_self
  rw [hval, hline] at hlt
  omega

theorem chatter_stuck {lines : Nat} (h : i64Max <= lines) :
    exists s room, run? (step asciiLower) (ChatService.new asciiLower 64)
        (chatter (lines + 2)) = some s ∧
      s.rooms.get? (ChatService.key asciiLower lobby) = some room ∧
      ¬ room.history.Pairwise (fun a b => a.atUnixMs < b.atUnixMs) := by
  rcases Chattering.joined with ⟨room₀, hjoined⟩
  rcases hjoined.first with ⟨room₁, hfirst⟩
  rcases hfirst.hellos lines le_rfl (by decide) with ⟨s₂, room₂, hrun, hlater⟩
  have htop : min (0 + (lines : Int)) i64Max = i64Max := by omega
  rw [htop] at hlater
  rcases hlater.stuck with ⟨room₃, hroom, hnot⟩
  refine ⟨_, room₃, ?_, hroom, hnot⟩
  have hsplit : List.replicate (lines + 2) hello =
      hello :: (List.replicate lines hello ++ [hello]) := by
    rw [← replicate_succ', replicate_succ]
  have hmiddle : run? (step asciiLower)
      (hello.run asciiLower (Op.run asciiLower (ChatService.new asciiLower 64)
        (.joinLobby 1 10 "ann"))) (List.replicate lines hello) = some s₂ := hrun
  unfold chatter
  rw [hsplit]
  show run? (step asciiLower) _ (List.replicate lines hello ++ [hello]) = _
  rw [run?_append, hmiddle]
  rfl

/-- Two lines of the lobby have the same time, after more lines than the clock has ticks. -/
theorem timestamps_stop_rising :
    exists s room,
      run? (step asciiLower) (ChatService.new asciiLower 64) (chatter (2 ^ 63 + 1)) = some s ∧
      (forall op, op ∈ chatter (2 ^ 63 + 1) -> op.By (fun _ => 10)) ∧
      s.rooms.get? (ChatService.key asciiLower lobby) = some room ∧
      ¬ room.history.Pairwise (fun a b => a.atUnixMs < b.atUnixMs) := by
  have hlines : 2 ^ 63 + 1 = (2 ^ 63 - 1) + 2 := by decide
  have hlong : i64Max <= ((2 ^ 63 - 1 : Nat) : Int) := by decide
  rw [hlines]
  rcases chatter_stuck hlong with ⟨s, room, hrun, hroom, hnot⟩
  refine ⟨s, room, hrun, ?_, hroom, hnot⟩
  intro op hop session account hcaller
  rcases mem_cons.mp hop with rfl | hmem
  · cases hcaller
    rfl
  · rw [eq_of_mem_replicate hmem] at hcaller
    cases hcaller
    rfl

end Rabbithole.Chat
