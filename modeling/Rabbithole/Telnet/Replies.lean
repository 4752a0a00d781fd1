import Rabbithole.Telnet.Reading

/-!
# What is written back

The echo of the lines and the answers to commands, byte for byte of what is read.  Where no
call is dropped, all of it is written, however the reads cut the stream.
-/

namespace Rabbithole.Telnet

open Foundation List

namespace TelnetStream

/-- The echo, as it goes to the connection. -/
def shown (s : TelnetStream) (out : Bytes) (done : Bool) : Bytes :=
  if s.echoActive then escapeIac (if done then out ++ [0x0D, 0x0A] else out) else []

/-- What the rest of a stream has written back, where each line is read with its own mode. -/
def replies (modes : Nat -> Echo) : Nat -> TelnetStream -> List Item -> Bytes
  | _, _, [] => []
  | count, s, .event e :: rest =>
      (s.absorb e).snd.fst ++ replies modes count (s.absorb e).fst rest
  | count, s, .byte b :: rest =>
      match s.line.byte (modes count) b with
      | (line, out, true) =>
          s.shown out true ++ replies modes (count + 1) { s with line := line.next } rest
      | (line, out, false) =>
          s.shown out false ++ replies modes count { s with line := line } rest

/-- Two streams that answer alike. -/
structure Alike (s s' : TelnetStream) : Prop where
  neg : s.neg = s'.neg
  ttypeRequested : s.ttypeRequested = s'.ttypeRequested
  line : s.line = s'.line

section Alike

variable {s s' : TelnetStream} {modes : Nat -> Echo} {count : Nat}

theorem Alike.shown_eq (h : Alike s s') (out : Bytes) (done : Bool) :
    s.shown out done = s'.shown out done := by
  unfold TelnetStream.shown echoActive
  rw [h.neg]

theorem Alike.negotiated (h : Alike s s') (answer : Negotiator × Bytes × Option Notice) :
    (s.negotiated answer).snd = (s'.negotiated answer).snd ∧
      Alike (s.negotiated answer).fst (s'.negotiated answer).fst := by
  unfold TelnetStream.negotiated
  rw [h.ttypeRequested]
  dsimp only
  split
  all_goals exact ⟨rfl, rfl, rfl, h.line⟩

theorem absorbSubneg_alike (s : TelnetStream) (option : UInt8) (payload : Bytes) :
    Alike (s.absorbSubneg option payload).fst s := by
  unfold absorbSubneg
  cases payload with
  | nil => exact ⟨rfl, rfl, rfl⟩
  | cons first rest =>
      dsimp only
      split
      all_goals
        split
        all_goals exact ⟨rfl, rfl, rfl⟩

theorem Alike.absorb (h : Alike s s') (e : Event) :
    (s.absorb e).snd.fst = (s'.absorb e).snd.fst ∧ Alike (s.absorb e).fst (s'.absorb e).fst := by
  cases e with
  | data bytes | command cmd => exact ⟨rfl, h⟩
  | will option =>
      unfold TelnetStream.absorb
      rw [h.neg]
      exact h.negotiated (s'.neg.onWill option)
  | wont option =>
      unfold TelnetStream.absorb
      rw [h.neg]
      exact h.negotiated (s'.neg.onWont option)
  | «do» option =>
      unfold TelnetStream.absorb
      rw [h.neg]
      exact h.negotiated (s'.neg.onDo option)
  | dont option =>
      unfold TelnetStream.absorb
      rw [h.neg]
      exact h.negotiated (s'.neg.onDont option)
  | subnegotiation option payload =>
      have hs := absorbSubneg_alike s option payload
      have hs' := absorbSubneg_alike s' option payload
      exact ⟨rfl, hs.neg.trans (h.neg.trans hs'.neg.symm),
        hs.ttypeRequested.trans (h.ttypeRequested.trans hs'.ttypeRequested.symm),
        hs.line.trans (h.line.trans hs'.line.symm)⟩

theorem replies_done {b : UInt8} {line : Line} {out : Bytes}
    (hbyte : s.line.byte (modes count) b = (line, out, true)) (rest : List Item) :
    replies modes count s (.byte b :: rest) =
      s.shown out true ++ replies modes (count + 1) { s with line := line.next } rest := by
  rw [replies, hbyte]

theorem replies_more {b : UInt8} {line : Line} {out : Bytes}
    (hbyte : s.line.byte (modes count) b = (line, out, false)) (rest : List Item) :
    replies modes count s (.byte b :: rest) =
      s.shown out false ++ replies modes count { s with line := line } rest := by
  rw [replies, hbyte]

theorem Alike.replies (h : Alike s s') (rest : List Item) :
    TelnetStream.replies modes count s rest = TelnetStream.replies modes count s' rest := by
  induction rest generalizing s s' count with
  | nil => rfl
  | cons item rest ih =>
      cases item with
      | event e =>
          rw [TelnetStream.replies, TelnetStream.replies, (h.absorb e).left, ih (h.absorb e).right]
      | byte b =>
          rcases hbyte : s.line.byte (modes count) b with ⟨line, out, done⟩
          have hbyte' := hbyte
          rw [h.line] at hbyte'
          cases done with
          | true =>
              have hnext : Alike { s with line := line.next } { s' with line := line.next } :=
                ⟨h.neg, h.ttypeRequested, rfl⟩
              rw [replies_done hbyte, replies_done hbyte', h.shown_eq, ih hnext]
          | false =>
              have hnext : Alike { s with line := line } { s' with line := line } :=
                ⟨h.neg, h.ttypeRequested, rfl⟩
              rw [replies_more hbyte, replies_more hbyte', h.shown_eq, ih hnext]

theorem shown_append (s : TelnetStream) (out more : Bytes) (done : Bool) :
    s.shown out false ++ s.shown more done = s.shown (out ++ more) done := by
  unfold shown
  split
  · cases done with
    | true =>
        rw [if_neg Bool.false_ne_true, if_pos rfl, if_pos rfl, ← escapeIac_append,
          append_assoc]
    | false =>
        rw [if_neg Bool.false_ne_true, if_neg Bool.false_ne_true, if_neg Bool.false_ne_true,
          ← escapeIac_append]
  · rfl

theorem replies_bytes (s : TelnetStream) (data : Bytes) (rest : List Item) :
    replies modes count s (data.map Item.byte ++ rest) =
      s.shown (s.line.bytes (modes count) data).snd.fst
          (s.line.bytes (modes count) data).snd.snd.fst ++
        if (s.line.bytes (modes count) data).snd.snd.fst then
          replies modes (count + 1)
            { s with line := (s.line.bytes (modes count) data).fst.next }
            ((s.line.bytes (modes count) data).snd.snd.snd.map Item.byte ++ rest)
        else
          replies modes count { s with line := (s.line.bytes (modes count) data).fst } rest := by
  induction data generalizing s with
  | nil =>
      have hnothing : s.shown [] false = [] := by
        unfold shown
        split
        · rfl
        · rfl
      show replies modes count s rest = s.shown [] false ++ replies modes count s rest
      rw [hnothing, nil_append]
  | cons b data ih =>
      rcases hbyte : s.line.byte (modes count) b with ⟨line, out, done⟩
      rw [map_cons, cons_append]
      cases done with
      | true =>
          rw [replies_done hbyte, Line.bytes_done hbyte]
          rfl
      | false =>
          rw [replies_more hbyte, Line.bytes_more hbyte, ih, ← append_assoc]
          show s.shown out false ++ s.shown _ _ ++ _ = _
          rw [shown_append]

end Alike

end TelnetStream

namespace Terminal

/-- What the call has to write before it goes on. -/
def unsaid (t : Terminal) : Bytes :=
  match t.call with
  | some (_, .replying out) => out
  | some (_, .echoing out _) => out
  | _ => []

def count (t : Terminal) : Nat :=
  (t.lines ++ t.stream.completedLine.toList).length

def output (modes : Nat -> Echo) (t : Terminal) : Bytes :=
  t.written ++ (t.unsaid ++ t.stream.replies modes t.count t.future)

/-- The calls that nobody drops, each with the mode of its line. -/
def Undropped (modes : Nat -> Echo) (t : Terminal) : Move -> Prop
  | .call echo => echo = modes t.lines.length
  | .go => True
  | .drop _ => False

instance (modes : Nat -> Echo) (t : Terminal) (m : Move) : Decidable (Undropped modes t m) := by
  unfold Undropped
  split
  all_goals infer_instance

section Output

variable {t : Terminal} {echo : Echo} {modes : Nat -> Echo}

theorem output_returns (t : Terminal) :
    t.returns.output modes = t.written ++ t.stream.replies modes t.count t.future := by
  have hcount : t.returns.count = t.count := by
    unfold count returns
    simp
  have halike : TelnetStream.Alike t.returns.stream t.stream := ⟨rfl, rfl, rfl⟩
  unfold output
  rw [hcount, halike.replies]
  rfl

theorem output_say (t : Terminal) (out : Bytes) (done : Bool) :
    (t.say echo out done).output modes =
      t.written ++ (out ++ t.stream.replies modes t.count t.future) := by
  unfold say
  split
  · rename_i hempty
    rw [List.isEmpty_iff.mp hempty, nil_append]
    split
    · exact output_returns t
    · rfl
  · rfl

theorem output_edit (hcompleted : t.stream.completedLine = none)
    (hmode : echo = modes t.lines.length) (data : Bytes) :
    (t.edit echo data).output modes =
      t.written ++ t.stream.replies modes t.count (data.map Item.byte ++ t.future) := by
  have hcount : t.count = t.lines.length := by
    unfold count
    rw [hcompleted]
    simp
  rcases hbytes : t.stream.line.bytes echo data with ⟨line, out, done, left⟩
  have hreplies := @TelnetStream.replies_bytes modes t.count t.stream data t.future
  have hleft := @Line.left_of_not_done echo t.stream.line data
  rw [hcount, ← hmode, hbytes] at hreplies
  rw [hbytes] at hleft
  unfold edit
  rw [takeData_eq hbytes, output_say, hcount, hreplies]
  congr 2
  unfold future count
  simp only [items_behind]
  cases done with
  | true =>
      rw [if_pos rfl, append_assoc]
      have halike : TelnetStream.Alike { t.stream with line := line.next }
          { t.stream with
            events := if left.isEmpty then t.stream.events else .data left :: t.stream.events
            line := line.next
            completedLine := some line.text } := ⟨rfl, rfl, rfl⟩
      rw [halike.replies]
      simp
  | false =>
      have hnil : left = [] := hleft rfl
      rw [if_neg Bool.false_ne_true]
      simp [hcompleted, hnil]

theorem output_turn (hcompleted : t.stream.completedLine = none)
    (hmode : echo = modes t.lines.length) :
    (t.turn echo).output modes = t.written ++ t.stream.replies modes t.count t.future := by
  cases hevents : t.stream.events with
  | nil =>
      unfold turn
      rw [hevents]
      rfl
  | cons e rest =>
      rcases turn_cons echo hevents with ⟨data, rfl, hturn⟩ | ⟨s, out, input, hitems, habsorb, hturn⟩
      · have hfuture : t.future = data.map Item.byte ++
            future { t with stream := { t.stream with events := rest } } := by
          unfold future
          rw [hevents, ← append_assoc]
          rfl
        have halike : TelnetStream.Alike { t.stream with events := rest } t.stream :=
          ⟨rfl, rfl, rfl⟩
        have hedit := @output_edit { t with stream := { t.stream with events := rest } } echo modes
          hcompleted hmode data
        rw [hturn, hfuture, ← halike.replies]
        exact hedit
      · have hkeeps := ({ t.stream with events := rest } : TelnetStream).absorb_keeps e
        have halike : TelnetStream.Alike t.stream { t.stream with events := rest } :=
          ⟨rfl, rfl, rfl⟩
        have hreplies := halike.absorb e
        rw [habsorb] at hkeeps hreplies
        have hrest : s.events = rest := hkeeps.right.left
        have hparser : s.parser = t.stream.parser := hkeeps.right.right.left
        have hcomplete : s.completedLine = t.stream.completedLine := hkeeps.right.right.right
        have hfuture : t.future = .event e :: (items rest ++
            t.stream.parser.items t.reads.flatten) := by
          unfold future
          rw [hevents]
          show e.items ++ items rest ++ _ = _
          rw [hitems]
          rfl
        rw [hturn, hfuture, TelnetStream.replies, hreplies.left, hreplies.right.replies]
        unfold output unsaid future count
        simp only [hrest, hparser, hcomplete]
        cases out with
        | nil => rfl
        | cons b out => rfl

theorem output_fill {chunk : Bytes} {rest : List Bytes} (hreads : t.reads = chunk :: rest)
    (hchunk : chunk ≠ []) :
    (t.fill echo).output modes = t.written ++ t.stream.replies modes t.count t.future := by
  have hfuture : (t.fill echo).future = t.future := by
    rw [fill_cons hreads hchunk]
    unfold future
    rw [hreads, flatten_cons, ← Parser.items_feed, items_append, append_assoc]
  have halike : TelnetStream.Alike (t.fill echo).stream t.stream := by
    rw [fill_cons hreads hchunk]
    exact ⟨rfl, rfl, rfl⟩
  unfold output
  rw [hfuture, halike.replies, fill_cons hreads hchunk]
  rfl

end Output

/-!
## Steps without a drop
-/

/-- A call has the mode of its line, and a line that is complete has a call to return it. -/
structure Attended (modes : Nat -> Echo) (t : Terminal) : Prop where
  steady : t.Steady
  mode : forall echo point, t.call = some (echo, point) -> echo = modes t.lines.length
  idle : t.call = none -> t.stream.completedLine = none

/-- The call goes on with its line, or it is over. -/
def GoesOn (echo : Echo) (t t' : Terminal) : Prop :=
  ((exists point, t'.call = some (echo, point)) ∧ t'.lines = t.lines) ∨
    t'.call = none ∧ t'.stream.completedLine = none

section Steps

variable {t t' : Terminal} {echo : Echo} {modes : Nat -> Echo}

theorem goesOn_say (t : Terminal) (out : Bytes) (done : Bool) :
    GoesOn echo t (t.say echo out done) := by
  unfold say
  split
  · split
    · exact Or.inr ⟨rfl, rfl⟩
    · exact Or.inl ⟨⟨_, rfl⟩, rfl⟩
  · exact Or.inl ⟨⟨_, rfl⟩, rfl⟩

theorem goesOn_edit (t : Terminal) (data : Bytes) : GoesOn echo t (t.edit echo data) := by
  rcases hbytes : t.stream.line.bytes echo data with ⟨line, out, done, left⟩
  unfold edit
  rw [takeData_eq hbytes]
  exact goesOn_say _ _ _

theorem goesOn_turn (t : Terminal) : GoesOn echo t (t.turn echo) := by
  cases hevents : t.stream.events with
  | nil =>
      unfold turn
      rw [hevents]
      exact Or.inl ⟨⟨_, rfl⟩, rfl⟩
  | cons e rest =>
      rcases turn_cons echo hevents with ⟨data, rfl, hturn⟩ | ⟨s, out, input, -, -, hturn⟩
      · rw [hturn]
        exact goesOn_edit { t with stream := { t.stream with events := rest } } data
      · rw [hturn]
        exact Or.inl ⟨⟨_, rfl⟩, rfl⟩

theorem goesOn_fill (t : Terminal) : GoesOn echo t (t.fill echo) := by
  unfold fill
  split
  · exact Or.inr ⟨rfl, rfl⟩
  · split
    · exact Or.inr ⟨rfl, rfl⟩
    · exact Or.inl ⟨⟨_, rfl⟩, rfl⟩

theorem attended_of_goesOn (hsteady : t'.Steady) (hmode : echo = modes t.lines.length)
    (h : GoesOn echo t t') : t'.Attended modes := by
  rcases h with ⟨⟨point, hcall⟩, hlines⟩ | ⟨hcall, hcompleted⟩
  · refine ⟨hsteady, ?_, ?_⟩
    · intro echo' point' hcall'
      rw [hcall] at hcall'
      cases hcall'
      rw [hlines]
      exact hmode
    · intro hnone
      rw [hcall] at hnone
      cases hnone
  · refine ⟨hsteady, ?_, fun _ => hcompleted⟩
    intro echo' point' hcall'
    rw [hcall] at hcall'
    cases hcall'

/-- No step changes what a stream has written back, but a drop. -/
theorem output_step (h : t.Attended modes) {m : Move} (hundropped : Undropped modes t m)
    (hstep : t.step m = some t') : t'.Attended modes ∧ t'.output modes = t.output modes := by
  have hsteady := (steady_step h.steady hstep).left
  cases m with
  | call echo =>
      simp only [step] at hstep
      split at hstep
      · cases hstep
      · rename_i hidle
        rw [not_or, Bool.not_eq_true, Option.isSome_eq_false_iff,
          Option.isNone_iff_eq_none] at hidle
        rw [h.idle hidle.left] at hstep
        cases hstep
        refine ⟨attended_of_goesOn hsteady hundropped (Or.inl ⟨⟨_, rfl⟩, rfl⟩), ?_⟩
        unfold output unsaid
        rw [hidle.left]
        rfl
  | go =>
      simp only [step] at hstep
      split at hstep
      · cases hstep
      · rename_i echo hcall
        cases hstep
        have hmode := h.mode echo .turn hcall
        have hcompleted := h.steady.incomplete hcall (fun out hout => by cases hout)
        refine ⟨attended_of_goesOn hsteady hmode (goesOn_turn t), ?_⟩
        rw [output_turn hcompleted hmode]
        unfold output unsaid
        rw [hcall]
        rfl
      · rename_i echo hcall
        cases hstep
        refine ⟨attended_of_goesOn hsteady (h.mode echo .reading hcall) (goesOn_fill t), ?_⟩
        have hunsaid : t.unsaid = [] := by
          unfold unsaid
          rw [hcall]
        cases hreads : t.reads with
        | nil =>
            have hfuture := future_nil (h.steady.reading echo hcall) hreads
            have hfuture' : future { t with
                stream := t.stream.discardLine, call := none, ended := true } = [] := hfuture
            rw [fill_nil hreads]
            unfold output
            rw [hfuture, hfuture', hunsaid]
            rfl
        | cons chunk rest =>
            have hchunk := h.steady.chunks chunk (by rw [hreads]; exact mem_cons_self)
            rw [output_fill hreads hchunk]
            unfold output
            rw [hunsaid]
            rfl
      · rename_i echo out hcall
        cases hstep
        refine ⟨attended_of_goesOn hsteady (h.mode echo _ hcall) (Or.inl ⟨⟨_, rfl⟩, rfl⟩), ?_⟩
        unfold output unsaid
        rw [hcall, append_assoc]
        rfl
      · rename_i echo out done hcall
        have hmode := h.mode echo _ hcall
        cases done with
        | true =>
            cases hstep
            refine ⟨attended_of_goesOn hsteady hmode (Or.inr ⟨rfl, rfl⟩), ?_⟩
            rw [output_returns]
            unfold output unsaid
            rw [hcall, append_assoc]
            rfl
        | false =>
            cases hstep
            refine ⟨attended_of_goesOn hsteady hmode (Or.inl ⟨⟨_, rfl⟩, rfl⟩), ?_⟩
            unfold output unsaid
            rw [hcall, append_assoc]
            rfl
  | drop wrote => exact absurd hundropped id

/-!
## Whole streams
-/

theorem lines_of_run {neg : Negotiator} {encoding : Encoding} {reads : List Bytes}
    (hreads : forall chunk, chunk ∈ reads -> chunk ≠ []) {moves : List Move}
    (hrun : run? step (new neg encoding reads) moves = some t) (hended : t.ended = true) :
    t.lines = (Line.new encoding).lines (Parser.new.items reads.flatten) := by
  have hstep : forall t m t', (Steady t ∧ t.total = (new neg encoding reads).total) ->
      step t m = some t' -> Steady t' ∧ t'.total = (new neg encoding reads).total := by
    intro t m t' h hstep
    rcases steady_step h.left hstep with ⟨hsteady, htotal⟩
    exact ⟨hsteady, htotal.trans h.right⟩
  have hkept := run?_invariant hstep ⟨steady_new neg encoding hreads, rfl⟩ hrun
  rcases hkept.left.ended hended with ⟨-, hcompleted, hfuture⟩
  have hnew : (new neg encoding reads).total =
      (Line.new encoding).lines (Parser.new.items reads.flatten) := rfl
  rw [← hnew, ← hkept.right]
  unfold total
  rw [hcompleted, hfuture]
  exact (append_nil t.lines).symm

theorem written_of_run {neg : Negotiator} {encoding : Encoding} {reads : List Bytes}
    (hreads : forall chunk, chunk ∈ reads -> chunk ≠ []) {moves : List Move}
    (hundropped : Along step (Undropped modes) (new neg encoding reads) moves)
    (hrun : run? step (new neg encoding reads) moves = some t) (hended : t.ended = true) :
    t.written = (TelnetStream.new neg encoding).replies modes 0
      (Parser.new.items reads.flatten) := by
  have hstep : forall t m t',
      (Attended modes t ∧ t.output modes = (new neg encoding reads).output modes) ->
        Undropped modes t m -> step t m = some t' ->
          Attended modes t' ∧ t'.output modes = (new neg encoding reads).output modes := by
    intro t m t' h hcond hstep
    rcases output_step h.left hcond hstep with ⟨hattended, houtput⟩
    exact ⟨hattended, houtput.trans h.right⟩
  have hstart : (new neg encoding reads).Attended modes := by
    refine ⟨steady_new neg encoding hreads, ?_, fun _ => rfl⟩
    intro echo point hcall
    cases hcall
  have hkept := run?_invariant_along hstep ⟨hstart, rfl⟩ hundropped hrun
  rcases hkept.left.steady.ended hended with ⟨hcall, -, hfuture⟩
  have hnew : (new neg encoding reads).output modes =
      (TelnetStream.new neg encoding).replies modes 0 (Parser.new.items reads.flatten) := rfl
  rw [← hnew, ← hkept.right]
  unfold output unsaid
  rw [hfuture, hcall]
  exact (append_nil t.written).symm

/--
However the bytes are cut into reads, and wherever calls are dropped and made again, the same
lines are returned; and where none is dropped, the same bytes are written back.
-/
theorem reads_do_not_show {neg : Negotiator} {encoding : Encoding} {reads reads' : List Bytes}
    (hreads : forall chunk, chunk ∈ reads -> chunk ≠ [])
    (hreads' : forall chunk, chunk ∈ reads' -> chunk ≠ [])
    (hsame : reads.flatten = reads'.flatten) {moves moves' : List Move} {t t' : Terminal}
    (hrun : run? step (new neg encoding reads) moves = some t)
    (hrun' : run? step (new neg encoding reads') moves' = some t')
    (hended : t.ended = true) (hended' : t'.ended = true) :
    t.lines = t'.lines ∧
      forall modes : Nat -> Echo,
        Along step (Undropped modes) (new neg encoding reads) moves ->
        Along step (Undropped modes) (new neg encoding reads') moves' ->
          t.written = t'.written := by
  constructor
  · rw [lines_of_run hreads hrun hended, lines_of_run hreads' hrun' hended', hsame]
  · intro modes hundropped hundropped'
    rw [written_of_run hreads hundropped hrun hended,
      written_of_run hreads' hundropped' hrun' hended', hsame]

end Steps

/-- A character, a request for an unknown option and two lines, cut within the first three. -/
def cutReads : List Bytes :=
  [[0xC3], [0xA9, IAC], [DO, 99, 13], [10, 66, 13]]

def cutMoves : List Move :=
  .call .on :: List.replicate 13 .go ++ .call .on :: List.replicate 4 .go ++ [.call .on, .go, .go]

def wholeMoves : List Move :=
  .call .on :: List.replicate 8 .go ++ [.call .on, .go, .go, .call .on, .go, .go]

theorem reads_do_not_show_cut :
    exists t t', run? step (new Negotiator.new.offerAll.fst .utf8 cutReads) cutMoves = some t ∧
      run? step (new Negotiator.new.offerAll.fst .utf8 [cutReads.flatten]) wholeMoves = some t' ∧
      t.lines = t'.lines ∧ t.written = t'.written := by
  refine ⟨_, _, rfl, rfl, ?_⟩
  have hsame := @reads_do_not_show Negotiator.new.offerAll.fst .utf8 cutReads [cutReads.flatten]
    (by decide) (by decide) (by simp) cutMoves wholeMoves _ _ rfl rfl rfl rfl
  exact ⟨hsame.left, hsame.right (fun _ => .on) (by decide) (by decide)⟩

end Terminal

end Rabbithole.Telnet
