import Rabbithole.Zmodem.Delivery

/-!
# The receiver against any peer

Whatever the other side sends, and whatever its own driver asks in between, the receiver
writes only while it has a file open.  Where it writes is counted in 32 bits; as long as a
file stays below that, its writes follow one another and it is closed where they end.
-/

namespace Rabbithole.Zmodem

open Foundation

inductive IntakeCall where
  | advance (event : RecvEvent)
  | corruptHeader
  | declineFile
  | setResumeOffset (offset : UInt32)

/-- What the actions do to files, in order. -/
inductive Deed where
  | opened (resume : UInt32)
  | wrote (offset : UInt32) (data : Bytes)
  | closed (header : Option Header)
deriving DecidableEq

/-- A file that is open: where it was resumed, and how many bytes were written since. -/
structure Span where
  resume : Nat
  written : Nat
deriving DecidableEq

def Span.reach (span : Span) : Nat :=
  span.resume + span.written

def RecvEvent.header? : RecvEvent -> Option Header
  | .header h => some h
  | .data _ _ => none

/-- What an action does to files, asked for by a header or not. -/
def RecvAction.deed (resume : UInt32) (header : Option Header) : RecvAction -> Option Deed
  | .openFile _ => some (.opened resume)
  | .writeData offset data => some (.wrote offset data)
  | .closeFile => some (.closed header)
  | _ => none

structure Intake where
  receiver : Receiver
  file : Option Span
  deeds : List Deed

def Span.after : Option Span -> Deed -> Option Span
  | _, .opened resume => some ⟨resume.toNat, 0⟩
  | some span, .wrote _ data => some ⟨span.resume, span.written + data.length⟩
  | none, .wrote _ _ => none
  | _, .closed _ => none

namespace Intake

def new : Intake where
  receiver := Receiver.new
  file := none
  deeds := []

def add (s : Intake) (r : Receiver) (deeds : List Deed) : Intake where
  receiver := r
  file := deeds.foldl Span.after s.file
  deeds := s.deeds ++ deeds

def did (s : Intake) (header : Option Header) : Receiver.Outcome -> Intake
  | (.ok actions, r) =>
      s.add r (actions.filterMap (RecvAction.deed s.receiver.resumeOffset header))
  | (.error _, r) => s.add r []

def call (s : Intake) : IntakeCall -> Intake
  | .advance event => s.did event.header? (s.receiver.advance event)
  | .corruptHeader => s.did none s.receiver.corruptHeader
  | .declineFile => s.did none s.receiver.declineFile
  | .setResumeOffset offset => s.add (s.receiver.setResumeOffset offset) []

def step (s : Intake) (c : IntakeCall) : Option Intake :=
  some (s.call c)

end Intake

/-- A file is opened when none is, and written to and closed when one is. -/
def WhileOpen : Option Span -> List Deed -> Prop
  | _, [] => True
  | none, .opened resume :: rest => WhileOpen (Span.after none (.opened resume)) rest
  | some _, .opened _ :: _ => False
  | none, _ :: _ => False
  | some span, deed :: rest => WhileOpen (Span.after (some span) deed) rest

/-- Each write begins where the last one ended, and a file is closed where they all end. -/
def Deed.Fits : Option Span -> Deed -> Prop
  | _, .opened _ => True
  | none, _ => False
  | some span, .wrote offset _ => offset.toNat = span.reach
  | some span, .closed header =>
      exists h, header = some h ∧ h.frameType = .zeof ∧ h.pos.toNat = span.reach

def Contiguous : Option Span -> List Deed -> Prop
  | _, [] => True
  | file, deed :: rest => deed.Fits file ∧ Contiguous (Span.after file deed) rest

/-- The call writes to the open file, or closes it. -/
def Receiver.Touches (r : Receiver) : IntakeCall -> Prop
  | .advance (.data _ _) => exists offset, r.state = .receivingData offset
  | .advance (.header h) => h.frameType = .zeof ∧ r.state = .awaitingData h.pos
  | _ => False

/-- Where the call would write or close, the file has not grown past 32 bits. -/
def Below (s : Intake) (c : IntakeCall) : Prop :=
  s.receiver.Touches c -> forall span, s.file = some span -> span.reach < 2 ^ 32

/-!
## One call
-/

/-- The open file is where the receiver takes it to be, in 32 bits. -/
structure Intake.Placed (s : Intake) : Prop where
  replies : RepliesHeader s.receiver
  closed : fileOffset s.receiver.state = none -> s.file = none
  opened : forall offset, fileOffset s.receiver.state = some offset ->
    exists span, s.file = some span ∧ offset.toNat = span.reach % 2 ^ 32

theorem placed_new : Intake.new.Placed where
  replies := nofun
  closed _ := rfl
  opened := nofun

/-- What a call comes to. -/
inductive Intake.Happens (s : Intake) (c : IntakeCall) : Intake -> Prop where
  | kept {r : Receiver} (htouches : ¬ s.receiver.Touches c)
      (hreplies : RepliesHeader r)
      (hstate : fileOffset r.state = fileOffset s.receiver.state) :
      Happens s c (s.add r [])
  | opened {r : Receiver} {resume : UInt32} (htouches : ¬ s.receiver.Touches c)
      (hreplies : RepliesHeader r)
      (hbefore : fileOffset s.receiver.state = none)
      (hstate : fileOffset r.state = some resume) :
      Happens s c (s.add r [.opened resume])
  | wrote {r : Receiver} {offset : UInt32} {data : Bytes} (htouches : s.receiver.Touches c)
      (hreplies : RepliesHeader r)
      (hbefore : fileOffset s.receiver.state = some offset)
      (hstate : fileOffset r.state = some (offset + UInt32.ofNat data.length)) :
      Happens s c (s.add r [.wrote offset data])
  | closed {r : Receiver} {h : Header} (htype : h.frameType = .zeof)
      (htouches : s.receiver.Touches c)
      (hreplies : RepliesHeader r)
      (hbefore : fileOffset s.receiver.state = some h.pos)
      (hstate : fileOffset r.state = none) :
      Happens s c (s.add r [.closed (some h)])

theorem Receiver.advance_receive {r : Receiver} {offset : UInt32} {payload : Bytes}
    {frameEnd : FrameEnd} (hstate : r.state = .receivingData offset) :
    exists actions r', r.advance (.data payload frameEnd) = (.ok actions, r') ∧
      fileOffset r'.state = some (offset + UInt32.ofNat payload.length) ∧
      forall resume header, actions.filterMap (RecvAction.deed resume header) =
        [.wrote offset payload] := by
  unfold Receiver.advance Receiver.advanceInner Receiver.receive
  rw [hstate]
  cases frameEnd with
  | zcrce | zcrcg | zcrcq | zcrcw => exact ⟨_, _, rfl, rfl, fun _ _ => rfl⟩

theorem Receiver.advance_zeof {r : Receiver} {h : Header} (htype : h.frameType = .zeof)
    (hstate : r.state = .awaitingData h.pos) :
    exists r', r.advance (.header h) = (.ok [.closeFile, zrinit], r') ∧
      fileOffset r'.state = none := by
  have hplain : r.asksAgain (.header h) = false := by
    simp [Receiver.asksAgain, htype, hstate]
  have hinner : r.advanceInner (.header h) =
      (.ok [.closeFile, zrinit], { r with state := .awaitingFile }) := by
    simp [Receiver.advanceInner, htype, hstate]
  unfold Receiver.advance
  rw [hplain, hinner]
  exact ⟨_, rfl, rfl⟩

variable {s : Intake}

theorem Intake.happens_of_touches (hs : s.Placed) {event : RecvEvent}
    (htouches : s.receiver.Touches (.advance event)) :
    s.Happens (.advance event) (s.call (.advance event)) := by
  show s.Happens _ (s.did event.header? (s.receiver.advance event))
  cases event with
  | data payload frameEnd =>
      rcases htouches with ⟨offset, hstate⟩
      rcases @Receiver.advance_receive _ _ payload frameEnd hstate with
        ⟨actions, r', hreceive, hafter, hdeeds⟩
      have hreplies := repliesHeader_of_move hs.replies (Receiver.move_of_advance hreceive)
      rw [hreceive]
      unfold Intake.did
      dsimp only
      rw [hdeeds]
      exact Happens.wrote ⟨offset, hstate⟩ hreplies (by rw [hstate]; rfl) hafter
  | header h =>
      rcases Receiver.advance_zeof htouches.left htouches.right with ⟨r', hzeof, hafter⟩
      have hreplies := repliesHeader_of_move hs.replies (Receiver.move_of_advance hzeof)
      rw [hzeof]
      exact Happens.closed htouches.left htouches hreplies (by rw [htouches.right]; rfl) hafter

theorem Intake.happens_of_move (hs : s.Placed) {event : RecvEvent} {actions : List RecvAction}
    {r : Receiver} (htouches : ¬ s.receiver.Touches (.advance event))
    (hmove : Receiver.Move s.receiver event actions r) :
    s.Happens (.advance event) (s.did event.header? (.ok actions, r)) := by
  have hreplies := repliesHeader_of_move hs.replies hmove
  cases hmove with
  | again recoveries hreply _ =>
      rcases hs.replies _ hreply with ⟨reply, format, rfl⟩
      exact Happens.kept htouches hreplies rfl
  | init _ hstate =>
      apply Happens.kept htouches hreplies
      rcases hstate with hstate | hstate
      · rw [hstate]
        rfl
      · rw [hstate]
  | offered _ hstate | fin _ hstate | frame _ hstate _ =>
      exact Happens.kept htouches hreplies (by rw [hstate]; rfl)
  | opened hstate _ => exact Happens.opened htouches hreplies (by rw [hstate]; rfl) rfl
  | correct _ hstate => exact Happens.kept htouches hreplies rfl
  | closed htype hstate hpos => exact absurd ⟨htype, by rw [hpos]; exact hstate⟩ htouches
  | wrote hstate _ | acknowledged hstate _ => exact absurd ⟨_, hstate⟩ htouches

theorem Intake.happens (hs : s.Placed) (c : IntakeCall) : s.Happens c (s.call c) := by
  cases c with
  | advance event =>
      by_cases htouches : s.receiver.Touches (.advance event)
      · exact happens_of_touches hs htouches
      · show s.Happens _ (s.did event.header? (s.receiver.advance event))
        rcases hcall : s.receiver.advance event with ⟨result, r'⟩
        cases result with
        | ok actions => exact happens_of_move hs htouches (Receiver.move_of_advance hcall)
        | error e =>
            rcases Receiver.advance_error hcall with ⟨recoveries, rfl⟩
            exact Happens.kept htouches hs.replies rfl
  | corruptHeader =>
      show s.Happens _ (s.did none s.receiver.corruptHeader)
      rcases hcall : s.receiver.corruptHeader with ⟨result, r'⟩
      cases result with
      | ok actions =>
          rcases Receiver.corruptHeader_ok hcall with ⟨rfl, recoveries, rfl⟩
          exact Happens.kept id hs.replies rfl
      | error e =>
          rcases Receiver.corruptHeader_error hcall with ⟨recoveries, rfl⟩
          exact Happens.kept id hs.replies rfl
  | declineFile =>
      show s.Happens _ (s.did none s.receiver.declineFile)
      rcases hcall : s.receiver.declineFile with ⟨result, r'⟩
      cases result with
      | ok actions =>
          rcases Receiver.declineFile_ok hcall with ⟨hstate, rfl, rfl⟩
          exact Happens.kept id (repliesHeader_some rfl) (by rw [hstate]; rfl)
      | error e =>
          rcases Receiver.declineFile_error hcall with ⟨recoveries, rfl⟩
          exact Happens.kept id hs.replies rfl
  | setResumeOffset offset => exact Happens.kept id hs.replies rfl

theorem Span.offset_write {span : Span} {offset : UInt32} (data : Bytes)
    (hoffset : offset.toNat = span.reach % 2 ^ 32) :
    (offset + UInt32.ofNat data.length).toNat =
      (Span.mk span.resume (span.written + data.length)).reach % 2 ^ 32 := by
  rw [UInt32.toNat_add, UInt32.toNat_ofNat', hoffset, ← Nat.add_mod]
  unfold Span.reach
  rw [Nat.add_assoc]

theorem placed_call (hs : s.Placed) (c : IntakeCall) : (s.call c).Placed := by
  have hhappens := Intake.happens hs c
  generalize s.call c = s' at hhappens
  cases hhappens with
  | kept _ hreplies hstate =>
      constructor
      · exact hreplies
      · intro hnone
        exact hs.closed (hstate.symm.trans hnone)
      · intro offset hsome
        exact hs.opened offset (hstate.symm.trans hsome)
  | @opened r resume _ hreplies _ hstate =>
      constructor
      · exact hreplies
      · intro hnone
        exact absurd (hstate.symm.trans hnone) (by exact nofun)
      · intro offset hsome
        cases hstate.symm.trans hsome
        have hfile : Span.after s.file (.opened resume) = some ⟨resume.toNat, 0⟩ := by
          cases s.file with
          | none => rfl
          | some span => rfl
        refine ⟨_, hfile, ?_⟩
        exact (Nat.mod_eq_of_lt resume.toNat_lt).symm
  | @wrote r offset data _ hreplies hbefore hstate =>
      rcases hs.opened offset hbefore with ⟨span, hspan, hoffset⟩
      constructor
      · exact hreplies
      · intro hnone
        exact absurd (hstate.symm.trans hnone) (by exact nofun)
      · intro offset' hsome
        cases hstate.symm.trans hsome
        have hfile : Span.after s.file (.wrote offset data) =
            some ⟨span.resume, span.written + data.length⟩ := by
          rw [hspan]
          rfl
        exact ⟨_, hfile, Span.offset_write data hoffset⟩
  | @closed r h _ _ hreplies _ hstate =>
      constructor
      · exact hreplies
      · intro _
        show Span.after s.file (.closed (some h)) = none
        cases s.file with
        | none => rfl
        | some span => rfl
      · intro offset hsome
        exact absurd (hstate.symm.trans hsome) (by exact nofun)

/-!
## Whole runs
-/

theorem Span.reach_lt_iff {span : Span} {offset : UInt32}
    (hoffset : offset.toNat = span.reach % 2 ^ 32) :
    offset.toNat = span.reach <-> span.reach < 2 ^ 32 := by
  constructor
  · intro heq
    rw [← heq]
    exact offset.toNat_lt
  · intro hlt
    rw [hoffset, Nat.mod_eq_of_lt hlt]

theorem Intake.deeds_call (hs : s.Placed) (c : IntakeCall) :
    exists deeds, (s.call c).deeds = s.deeds ++ deeds ∧
      (s.call c).file = deeds.foldl Span.after s.file ∧ WhileOpen s.file deeds ∧
      (Contiguous s.file deeds <-> Below s c) := by
  have hhappens := Intake.happens hs c
  generalize s.call c = s' at hhappens
  unfold Below
  cases hhappens with
  | kept htouches _ _ =>
      refine ⟨[], rfl, rfl, trivial, ?_⟩
      exact iff_of_true trivial (fun h => absurd h htouches)
  | opened htouches _ hbefore _ =>
      refine ⟨_, rfl, rfl, ?_, ?_⟩
      · rw [hs.closed hbefore]
        trivial
      · exact iff_of_true ⟨trivial, trivial⟩ (fun h => absurd h htouches)
  | wrote htouches _ hbefore _ =>
      rcases hs.opened _ hbefore with ⟨span, hspan, hoffset⟩
      refine ⟨_, rfl, rfl, ?_, ?_⟩
      · rw [hspan]
        trivial
      · rw [hspan]
        simp [Contiguous, Deed.Fits, htouches, Span.reach_lt_iff hoffset]
  | closed htype htouches _ hbefore _ =>
      rcases hs.opened _ hbefore with ⟨span, hspan, hoffset⟩
      refine ⟨_, rfl, rfl, ?_, ?_⟩
      · rw [hspan]
        trivial
      · rw [hspan]
        simp [Contiguous, Deed.Fits, htype, htouches, Span.reach_lt_iff hoffset]

theorem whileOpen_append {file : Option Span} {front back : List Deed}
    (hfront : WhileOpen file front) (hback : WhileOpen (front.foldl Span.after file) back) :
    WhileOpen file (front ++ back) := by
  induction front generalizing file with
  | nil => exact hback
  | cons deed rest ih =>
      cases file with
      | none =>
          cases deed with
          | opened resume => exact ih hfront hback
          | wrote offset data | closed header => exact hfront.elim
      | some span =>
          cases deed with
          | opened resume => exact hfront.elim
          | wrote offset data | closed header => exact ih hfront hback

theorem contiguous_append {file : Option Span} {front back : List Deed} :
    Contiguous file (front ++ back) <->
      Contiguous file front ∧ Contiguous (front.foldl Span.after file) back := by
  induction front generalizing file with
  | nil => exact (iff_of_eq (true_and _)).symm
  | cons deed rest ih =>
      show deed.Fits file ∧ Contiguous (Span.after file deed) (rest ++ back) <-> _
      rw [ih, ← and_assoc]
      exact Iff.rfl

theorem Intake.deeds_run {t : Intake} (hs : s.Placed) {calls : List IntakeCall}
    (hrun : run? step s calls = some t) :
    exists deeds, t.deeds = s.deeds ++ deeds ∧ WhileOpen s.file deeds ∧
      (Contiguous s.file deeds <-> Along step Below s calls) := by
  induction calls generalizing s with
  | nil =>
      cases hrun
      exact ⟨[], (List.append_nil _).symm, trivial, Iff.rfl⟩
  | cons c rest ih =>
      rcases run?_cons_some hrun with ⟨s', hstep, hrest⟩
      cases hstep
      rcases deeds_call hs c with ⟨front, hfront, hfile, hopen, hfits⟩
      rcases ih (placed_call hs c) hrest with ⟨back, hback, hopen', hfits'⟩
      rw [hfile] at hopen' hfits'
      refine ⟨front ++ back, ?_, whileOpen_append hopen hopen', ?_⟩
      · rw [hback, hfront, List.append_assoc]
      · rw [contiguous_append, hfits, hfits']
        constructor
        · intro ⟨hbelow, halong⟩
          exact along_cons hbelow rfl halong
        · intro ⟨hbelow, halong⟩
          exact ⟨hbelow, halong _ rfl⟩

/-- Whatever is asked of the receiver, and whatever fails of it. -/
theorem writes_contiguous_iff {calls : List IntakeCall} {s : Intake}
    (hrun : run? Intake.step Intake.new calls = some s) :
    WhileOpen none s.deeds ∧
      (Contiguous none s.deeds <-> Along Intake.step Below Intake.new calls) := by
  rcases Intake.deeds_run placed_new hrun with ⟨deeds, hdeeds, hopen, hfits⟩
  rw [hdeeds]
  exact ⟨hopen, hfits⟩

/-- A file resumed behind its third byte, with headers out of place and a spoilt one. -/
def resumedIntake : List IntakeCall :=
  [.advance (.header (Header.new .zrqinit)), .declineFile,
    .advance (.header (Header.new .zfile)), .setResumeOffset 3,
    .advance (.data [102, 0, 0] .zcrcw), .advance (.header (Header.withPos .zdata 0)),
    .advance (.header (Header.withPos .zdata 3)), .setResumeOffset 9,
    .advance (.data [5, 6] .zcrcq), .corruptHeader, .advance (.data [7] .zcrce),
    .advance (.header (Header.withPos .zeof 3)), .advance (.header (Header.withPos .zeof 6))]

theorem writes_contiguous_iff_resumed :
    exists s, run? Intake.step Intake.new resumedIntake = some s ∧
      s.deeds = [.opened 3, .wrote 3 [5, 6], .wrote 5 [7],
        .closed (some (Header.withPos .zeof 6))] ∧
      WhileOpen none s.deeds ∧
      (Contiguous none s.deeds <-> Along Intake.step Below Intake.new resumedIntake) := by
  have hdeeds : (run? Intake.step Intake.new resumedIntake).map Intake.deeds =
      some [.opened 3, .wrote 3 [5, 6], .wrote 5 [7],
        .closed (some (Header.withPos .zeof 6))] := by
    decide
  rcases Option.map_eq_some_iff.mp hdeeds with ⟨s, hrun, heq⟩
  exact ⟨s, hrun, heq, writes_contiguous_iff hrun⟩

/-!
A file resumed at the last offset there is begins again at the first, behind one byte.
-/

def lastOffsetIntake : List IntakeCall :=
  [.advance (.header (Header.new .zrqinit)), .advance (.header (Header.new .zfile)),
    .setResumeOffset 0xFFFFFFFF, .advance (.data [102, 0, 0] .zcrcw),
    .advance (.header (Header.withPos .zdata 0xFFFFFFFF)), .advance (.data [1] .zcrcg),
    .advance (.data [2] .zcrce), .advance (.header (Header.withPos .zeof 1))]

theorem last_offset_begins_again :
    ¬ (forall (calls : List IntakeCall) (s : Intake),
      run? Intake.step Intake.new calls = some s -> Contiguous none s.deeds) := by
  intro hall
  have hdeeds : (run? Intake.step Intake.new lastOffsetIntake).map Intake.deeds =
      some [.opened 0xFFFFFFFF, .wrote 0xFFFFFFFF [1], .wrote 0 [2],
        .closed (some (Header.withPos .zeof 1))] := by
    decide
  rcases Option.map_eq_some_iff.mp hdeeds with ⟨s, hrun, heq⟩
  have hfits := hall _ s hrun
  rw [heq] at hfits
  have hreach : 0 = 4294967295 + 1 := hfits.right.right.left
  cases hreach

end Rabbithole.Zmodem
