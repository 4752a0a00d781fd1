import Rabbithole.Telnet.Stream

/-!
# Lines whatever the reads

What a line is made of is the bytes of data, one after the other: neither where the reads
cut them, nor where a call was dropped and made again, is seen in it.
-/

namespace Rabbithole.Telnet

open Foundation List

namespace Line

/-!
## The echo
-/

section Echo

variable (echo echo' : Echo) (line : Line) (b : UInt8)

theorem lineChar_echo (bytes : Bytes) :
    (line.lineChar echo bytes).fst = (line.lineChar echo' bytes).fst := by
  unfold lineChar
  split
  · rfl
  · rfl

theorem finishUtf8_echo : (line.finishUtf8 echo).fst = (line.finishUtf8 echo').fst := by
  unfold finishUtf8
  split
  · rfl
  · dsimp only
    rw [lineChar_echo echo echo']

theorem freshByte_echo : (line.freshByte echo b).fst = (line.freshByte echo' b).fst := by
  unfold freshByte
  split
  · exact lineChar_echo echo echo' line _
  · split
    · exact lineChar_echo echo echo' line _
    · split
      · rfl
      · rfl

theorem pendingByte_echo : (line.pendingByte echo b).fst = (line.pendingByte echo' b).fst := by
  unfold pendingByte
  split
  · exact freshByte_echo echo echo' line b
  · dsimp only
    split
    · exact lineChar_echo echo echo' _ _
    · rfl
    · dsimp only
      rw [lineChar_echo echo echo', freshByte_echo echo echo']

theorem lineByte_echo : (line.lineByte echo b).fst = (line.lineByte echo' b).fst := by
  unfold lineByte
  split
  · exact lineChar_echo echo echo' line _
  · split
    · rfl
    · exact pendingByte_echo echo echo' _ b

theorem erase_echo : (line.erase echo).fst = (line.erase echo').fst := by
  unfold erase
  split
  · rfl
  · split
    · rfl
    · rfl

theorem byte_echo : (line.byte echo b).fst = (line.byte echo' b).fst ∧
    (line.byte echo b).snd.snd = (line.byte echo' b).snd.snd := by
  unfold byte
  split
  · exact ⟨rfl, rfl⟩
  · split
    · exact ⟨finishUtf8_echo echo echo' _, rfl⟩
    · split
      · exact ⟨finishUtf8_echo echo echo' _, rfl⟩
      · split
        · exact ⟨erase_echo echo echo' _, rfl⟩
        · split
          · exact ⟨finishUtf8_echo echo echo' _, rfl⟩
          · exact ⟨lineByte_echo echo echo' _ b, rfl⟩

end Echo

/-!
## The lines of a stream
-/

/-- The lines that the rest of a stream completes. -/
def lines : Line -> List Item -> List String
  | _, [] => []
  | line, .event _ :: rest => line.lines rest
  | line, .byte b :: rest =>
      match line.byte .on b with
      | (line, _, true) => line.text :: line.next.lines rest
      | (line, _, false) => line.lines rest

section Byte

variable {echo : Echo} {line line' : Line} {b : UInt8} {out : Bytes}

theorem lines_done (h : line.byte .on b = (line', out, true)) (rest : List Item) :
    line.lines (.byte b :: rest) = line'.text :: line'.next.lines rest := by
  rw [lines, h]

theorem lines_more (h : line.byte .on b = (line', out, false)) (rest : List Item) :
    line.lines (.byte b :: rest) = line'.lines rest := by
  rw [lines, h]

theorem bytes_done (h : line.byte echo b = (line', out, true)) (rest : Bytes) :
    line.bytes echo (b :: rest) = (line', out, true, rest) := by
  rw [bytes, h]

theorem bytes_more (h : line.byte echo b = (line', out, false)) (rest : Bytes) :
    line.bytes echo (b :: rest) = ((line'.bytes echo rest).fst,
      out ++ (line'.bytes echo rest).snd.fst, (line'.bytes echo rest).snd.snd) := by
  rw [bytes, h]

end Byte

theorem left_of_not_done {echo : Echo} {line : Line} {data : Bytes}
    (h : (line.bytes echo data).snd.snd.fst = false) : (line.bytes echo data).snd.snd.snd = [] := by
  induction data generalizing line with
  | nil => rfl
  | cons b data ih =>
      rcases hbyte : line.byte echo b with ⟨line', out, done⟩
      cases done with
      | true =>
          rw [bytes_done hbyte] at h
          cases h
      | false =>
          rw [bytes_more hbyte] at h ⊢
          exact ih h

theorem lines_bytes (echo : Echo) (line : Line) (data : Bytes) (rest : List Item) :
    line.lines (data.map Item.byte ++ rest) =
      if (line.bytes echo data).snd.snd.fst then
        (line.bytes echo data).fst.text :: (line.bytes echo data).fst.next.lines
            ((line.bytes echo data).snd.snd.snd.map Item.byte ++ rest)
      else (line.bytes echo data).fst.lines rest := by
  induction data generalizing line with
  | nil => rfl
  | cons b data ih =>
      rcases hbyte : line.byte echo b with ⟨line', out, done⟩
      rcases hon : line.byte .on b with ⟨line'', out', done'⟩
      have hother := byte_echo .on echo line b
      rw [hbyte, hon] at hother
      rcases hother with ⟨rfl, rfl⟩
      rw [map_cons, cons_append]
      cases done' with
      | true =>
          rw [lines_done hon, bytes_done hbyte]
          rfl
      | false =>
          rw [lines_more hon, bytes_more hbyte]
          exact ih line''

end Line

/-!
## What is still to come
-/

namespace TelnetStream

theorem absorb_keeps (s : TelnetStream) (e : Event) :
    (s.absorb e).fst.line = s.line ∧ (s.absorb e).fst.events = s.events ∧
      (s.absorb e).fst.parser = s.parser ∧
      (s.absorb e).fst.completedLine = s.completedLine := by
  have hnegotiated : forall answer, (s.negotiated answer).fst.line = s.line ∧
      (s.negotiated answer).fst.events = s.events ∧
      (s.negotiated answer).fst.parser = s.parser ∧
      (s.negotiated answer).fst.completedLine = s.completedLine := by
    intro answer
    unfold negotiated
    dsimp only
    split
    all_goals exact ⟨rfl, rfl, rfl, rfl⟩
  cases e with
  | data bytes | command cmd => exact ⟨rfl, rfl, rfl, rfl⟩
  | will option => exact hnegotiated (s.neg.onWill option)
  | wont option => exact hnegotiated (s.neg.onWont option)
  | «do» option => exact hnegotiated (s.neg.onDo option)
  | dont option => exact hnegotiated (s.neg.onDont option)
  | subnegotiation option payload =>
      unfold absorb absorbSubneg
      cases payload with
      | nil => exact ⟨rfl, rfl, rfl, rfl⟩
      | cons first rest =>
          dsimp only
          split
          all_goals
            split
            all_goals exact ⟨rfl, rfl, rfl, rfl⟩

theorem absorb_data {s : TelnetStream} {e : Event} {data : Bytes}
    (h : (s.absorb e).snd.snd = some (.data data)) : e = .data data := by
  cases e with
  | data bytes =>
      cases h
      rfl
  | will option | wont option | «do» option | dont option | command cmd => cases h
  | subnegotiation option payload =>
      unfold absorb absorbSubneg at h
      cases payload with
      | nil => cases h
      | cons first rest =>
          dsimp only at h
          split at h
          all_goals
            split at h
            · cases h
            · cases h

end TelnetStream

namespace Terminal

def future (t : Terminal) : List Item :=
  items t.stream.events ++ t.stream.parser.items t.reads.flatten

/-- The lines that were returned, and those that the rest will complete. -/
def total (t : Terminal) : List String :=
  t.lines ++ (t.stream.completedLine.toList ++ t.stream.line.lines t.future)

theorem items_of_not_data {e : Event} (h : forall data, e ≠ .data data) : e.items = [.event e] := by
  cases e with
  | data bytes => exact absurd rfl (h bytes)
  | _ => rfl

theorem turn_cons {t : Terminal} {e : Event} {rest : List Event} (echo : Echo)
    (h : t.stream.events = e :: rest) :
    (exists data, e = .data data ∧
      t.turn echo = { t with stream := { t.stream with events := rest } }.edit echo data) ∨
    (exists s out input, e.items = [.event e] ∧
      { t.stream with events := rest }.absorb e = (s, out, input) ∧
      t.turn echo = { t with
        stream := s
        call := some (echo, if out.isEmpty then .turn else .replying out) }) := by
  unfold turn
  rw [h]
  dsimp only
  by_cases hdata : exists data, e = .data data
  · rcases hdata with ⟨data, rfl⟩
    exact Or.inl ⟨data, rfl, rfl⟩
  · have hnot : forall data, e ≠ .data data := fun data he => hdata ⟨data, he⟩
    right
    rcases habsorb : ({ t.stream with events := rest } : TelnetStream).absorb e with ⟨s, out, input⟩
    refine ⟨s, out, input, items_of_not_data hnot, rfl, ?_⟩
    dsimp only
    split
    · cases input with
      | none => rfl
      | some found =>
          cases found with
          | data data =>
              have hfound := congrArg (fun answer => answer.snd.snd) habsorb
              exact absurd (TelnetStream.absorb_data hfound) (hnot data)
          | windowSize cols rows => rfl
          | terminalType name => rfl
    · rfl

theorem takeData_eq {s : TelnetStream} {echo : Echo} {data out left : Bytes} {line : Line}
    {done : Bool} (h : s.line.bytes echo data = (line, out, done, left)) :
    s.takeData echo data =
      ({ s with
        line := if done then line.next else line
        completedLine := if done then some line.text else s.completedLine
        events := if left.isEmpty then s.events else .data left :: s.events },
        if s.echoActive then escapeIac (if done then out ++ [0x0D, 0x0A] else out) else [],
        done) := by
  unfold TelnetStream.takeData
  rw [h]
  rfl

theorem items_behind (left : Bytes) (events : List Event) :
    items (if left.isEmpty then events else .data left :: events) =
      left.map Item.byte ++ items events := by
  cases left with
  | nil => rfl
  | cons b left => rfl

section Total

variable {t : Terminal} {echo : Echo}

theorem total_returns (t : Terminal) : t.returns.total = t.total := by
  unfold total returns future
  simp

theorem total_say (t : Terminal) (out : Bytes) (done : Bool) :
    (t.say echo out done).total = t.total := by
  unfold say
  split
  · split
    · exact total_returns t
    · rfl
  · rfl

theorem total_edit (hcompleted : t.stream.completedLine = none) (data : Bytes) :
    (t.edit echo data).total = t.lines ++ t.stream.line.lines (data.map Item.byte ++ t.future) := by
  rcases hbytes : t.stream.line.bytes echo data with ⟨line, out, done, left⟩
  have hlines := Line.lines_bytes echo t.stream.line data t.future
  have hleft := @Line.left_of_not_done echo t.stream.line data
  rw [hbytes] at hlines hleft
  unfold edit
  rw [takeData_eq hbytes, total_say, hlines]
  unfold total future
  simp only [items_behind]
  cases done with
  | true => simp
  | false =>
      have hnil : left = [] := hleft rfl
      simp [hcompleted, hnil]

theorem total_turn (hcompleted : t.stream.completedLine = none) :
    (t.turn echo).total = t.total := by
  cases hevents : t.stream.events with
  | nil =>
      unfold turn
      rw [hevents]
      rfl
  | cons e rest =>
      rcases turn_cons echo hevents with ⟨data, rfl, hturn⟩ | ⟨s, out, input, hitems, habsorb, hturn⟩
      · rw [hturn, total_edit (by exact hcompleted)]
        unfold total future
        rw [hevents, hcompleted]
        show _ = t.lines ++ ([] ++ t.stream.line.lines
          ((data.map Item.byte ++ items rest) ++ t.stream.parser.items t.reads.flatten))
        rw [nil_append, append_assoc]
      · have hkeeps := ({ t.stream with events := rest } : TelnetStream).absorb_keeps e
        rw [habsorb] at hkeeps
        have hline : s.line = t.stream.line := hkeeps.left
        have hrest : s.events = rest := hkeeps.right.left
        have hparser : s.parser = t.stream.parser := hkeeps.right.right.left
        have hcomplete : s.completedLine = t.stream.completedLine := hkeeps.right.right.right
        rw [hturn]
        unfold total future
        simp only [hline, hrest, hparser, hcomplete, hevents]
        show _ = t.lines ++ (_ ++ t.stream.line.lines
          ((e.items ++ items rest) ++ t.stream.parser.items t.reads.flatten))
        rw [hitems]
        rfl

theorem total_fill {chunk : Bytes} {rest : List Bytes} (hreads : t.reads = chunk :: rest)
    (hchunk : chunk ≠ []) : (t.fill echo).total = t.total := by
  unfold fill
  rw [hreads]
  dsimp only
  rw [if_neg (by simpa using hchunk)]
  unfold total future
  rw [hreads, flatten_cons, ← Parser.items_feed, items_append, append_assoc]

end Total

/-!
## Every step keeps the lines
-/

/-- A call that waits for nothing but its echo has its line; a call that reads has no events. -/
structure Steady (t : Terminal) : Prop where
  ended : t.ended = true -> t.call = none ∧ t.stream.completedLine = none ∧ t.future = []
  reading : forall echo, t.call = some (echo, .reading) -> t.stream.events = []
  completed : forall echo point, t.call = some (echo, point) ->
    (t.stream.completedLine.isSome = true <-> exists out, point = .echoing out true)
  chunks : forall chunk, chunk ∈ t.reads -> chunk ≠ []

section Steps

variable {t t' : Terminal} {echo : Echo}

theorem Steady.idle {point : Point} (h : t.Steady) (hcall : t.call = some (echo, point)) :
    t.ended = false := by
  rw [Bool.eq_false_iff]
  intro hended
  cases hcall.symm.trans (h.ended hended).left

theorem Steady.incomplete {point : Point} (h : t.Steady) (hcall : t.call = some (echo, point))
    (hpoint : forall out, point ≠ .echoing out true) : t.stream.completedLine = none := by
  rw [← Option.not_isSome_iff_eq_none]
  intro hsome
  rcases (h.completed echo point hcall).mp hsome with ⟨out, hout⟩
  exact hpoint out hout

theorem steady_returns (hended : t.ended = false)
    (hchunks : forall chunk, chunk ∈ t.reads -> chunk ≠ []) : t.returns.Steady where
  ended := by
    intro htrue
    cases hended.symm.trans htrue
  reading := by
    intro echo hcall
    cases hcall
  completed := by
    intro echo point hcall
    cases hcall
  chunks := hchunks

theorem steady_turning (hended : t.ended = false) (hcompleted : t.stream.completedLine = none)
    (hchunks : forall chunk, chunk ∈ t.reads -> chunk ≠ []) :
    Steady { t with call := some (echo, .turn) } where
  ended := by
    intro htrue
    cases hended.symm.trans htrue
  reading := by
    intro echo hcall
    cases hcall
  completed := by
    intro echo point hcall
    cases hcall
    rw [hcompleted]
    constructor
    · intro hsome
      cases hsome
    · rintro ⟨out, hout⟩
      cases hout
  chunks := hchunks

theorem steady_say {out : Bytes} {done : Bool} (hended : t.ended = false)
    (hcompleted : t.stream.completedLine.isSome = done)
    (hchunks : forall chunk, chunk ∈ t.reads -> chunk ≠ []) : (t.say echo out done).Steady := by
  unfold say
  split
  · split
    · exact steady_returns hended hchunks
    · rename_i hnot
      have hnone : t.stream.completedLine = none := by
        rw [← Option.not_isSome_iff_eq_none, hcompleted]
        exact hnot
      exact steady_turning hended hnone hchunks
  · refine ⟨?_, ?_, ?_, hchunks⟩
    · intro htrue
      cases hended.symm.trans htrue
    · intro echo hcall
      cases hcall
    · intro echo point hcall
      cases hcall
      show t.stream.completedLine.isSome = true <-> _
      rw [hcompleted]
      constructor
      · rintro rfl
        exact ⟨out, rfl⟩
      · rintro ⟨out', hout⟩
        cases hout
        rfl

theorem steady_edit (hended : t.ended = false) (hcompleted : t.stream.completedLine = none)
    (hchunks : forall chunk, chunk ∈ t.reads -> chunk ≠ []) (data : Bytes) :
    (t.edit echo data).Steady := by
  rcases hbytes : t.stream.line.bytes echo data with ⟨line, out, done, left⟩
  unfold edit
  rw [takeData_eq hbytes]
  refine steady_say hended ?_ hchunks
  cases done with
  | true => rfl
  | false =>
      show t.stream.completedLine.isSome = false
      rw [hcompleted]
      rfl

theorem steady_turn (h : t.Steady) (hcall : t.call = some (echo, .turn)) :
    (t.turn echo).Steady := by
  have hended := h.idle hcall
  have hcompleted := h.incomplete hcall (fun out hout => by cases hout)
  cases hevents : t.stream.events with
  | nil =>
      unfold turn
      rw [hevents]
      refine ⟨?_, ?_, ?_, h.chunks⟩
      · intro htrue
        cases hended.symm.trans htrue
      · intro echo hreading
        exact hevents
      · intro echo point hreading
        cases hreading
        show t.stream.completedLine.isSome = true <-> _
        rw [hcompleted]
        constructor
        · intro hsome
          cases hsome
        · rintro ⟨out, hout⟩
          cases hout
  | cons e rest =>
      rcases turn_cons echo hevents with ⟨data, rfl, hturn⟩ | ⟨s, out, input, hitems, habsorb, hturn⟩
      · rw [hturn]
        exact @steady_edit { t with stream := { t.stream with events := rest } } echo hended
          hcompleted h.chunks data
      · have hkeeps := ({ t.stream with events := rest } : TelnetStream).absorb_keeps e
        rw [habsorb] at hkeeps
        have hcomplete : s.completedLine = t.stream.completedLine := hkeeps.right.right.right
        rw [hturn]
        refine ⟨?_, ?_, ?_, h.chunks⟩
        · intro htrue
          cases hended.symm.trans htrue
        · intro echo hreading
          simp only [Option.some.injEq, Prod.mk.injEq] at hreading
          split at hreading
          all_goals cases hreading.right
        · intro echo point hreading
          show s.completedLine.isSome = true <-> _
          rw [hcomplete, hcompleted]
          simp only [Option.some.injEq, Prod.mk.injEq] at hreading
          constructor
          · intro hsome
            cases hsome
          · rintro ⟨out', rfl⟩
            split at hreading
            all_goals cases hreading.right

theorem fill_cons {chunk : Bytes} {rest : List Bytes} (hreads : t.reads = chunk :: rest)
    (hchunk : chunk ≠ []) : t.fill echo = { t with
      stream := { t.stream with
        parser := (t.stream.parser.feed chunk).snd
        events := t.stream.events ++ (t.stream.parser.feed chunk).fst }
      reads := rest
      call := some (echo, .turn) } := by
  unfold fill
  rw [hreads]
  dsimp only
  rw [if_neg (by simpa using hchunk)]

theorem future_nil (hevents : t.stream.events = []) (hreads : t.reads = []) : t.future = [] := by
  unfold future
  rw [hevents, hreads]
  rfl

theorem fill_nil (hreads : t.reads = []) :
    t.fill echo = { t with stream := t.stream.discardLine, call := none, ended := true } := by
  unfold fill
  rw [hreads]

theorem steady_fill (h : t.Steady) (hcall : t.call = some (echo, .reading)) :
    (t.fill echo).Steady ∧ (t.fill echo).total = t.total := by
  have hcompleted := h.incomplete hcall (fun out hout => by cases hout)
  have hevents := h.reading echo hcall
  cases hreads : t.reads with
  | nil =>
      have hfuture := future_nil hevents hreads
      rw [fill_nil hreads]
      refine ⟨⟨?_, ?_, ?_, h.chunks⟩, ?_⟩
      · intro htrue
        exact ⟨rfl, rfl, hfuture⟩
      · intro echo hreading
        cases hreading
      · intro echo point hreading
        cases hreading
      · have hnothing : future { t with
            stream := t.stream.discardLine, call := none, ended := true } = [] := hfuture
        unfold total
        rw [hnothing, hfuture, hcompleted]
        rfl
  | cons chunk rest =>
      have hchunk := h.chunks chunk (by rw [hreads]; exact mem_cons_self)
      refine ⟨?_, total_fill hreads hchunk⟩
      rw [fill_cons hreads hchunk]
      refine @steady_turning { t with
        stream := { t.stream with
          parser := (t.stream.parser.feed chunk).snd
          events := t.stream.events ++ (t.stream.parser.feed chunk).fst }
        reads := rest } echo (h.idle hcall) hcompleted ?_
      intro c hc
      exact h.chunks c (by rw [hreads]; exact mem_cons_of_mem chunk hc)

/-- No step changes the lines that a stream comes to. -/
theorem steady_step (h : t.Steady) {m : Move} (hstep : t.step m = some t') :
    t'.Steady ∧ t'.total = t.total := by
  cases m with
  | call echo =>
      simp only [step] at hstep
      split at hstep
      · cases hstep
      · rename_i hidle
        rw [not_or, Bool.not_eq_true, Bool.not_eq_true] at hidle
        split at hstep
        · cases hstep
          exact ⟨steady_returns hidle.right h.chunks, total_returns t⟩
        · rename_i hnone
          rw [Option.not_isSome_iff_eq_none] at hnone
          cases hstep
          exact ⟨steady_turning hidle.right hnone h.chunks, rfl⟩
  | go =>
      simp only [step] at hstep
      split at hstep
      · cases hstep
      · rename_i echo hcall
        cases hstep
        exact ⟨steady_turn h hcall, total_turn (h.incomplete hcall (fun out hout => by cases hout))⟩
      · rename_i echo hcall
        cases hstep
        exact steady_fill h hcall
      · rename_i echo out hcall
        cases hstep
        have hcompleted := h.incomplete hcall (fun out hout => by cases hout)
        exact ⟨@steady_turning { t with written := t.written ++ out } echo (h.idle hcall) hcompleted
          h.chunks, rfl⟩
      · rename_i echo out done hcall
        cases done with
        | true =>
            cases hstep
            exact ⟨@steady_returns { t with written := t.written ++ out } (h.idle hcall) h.chunks,
              total_returns _⟩
        | false =>
            cases hstep
            have hcompleted := h.incomplete hcall (fun out hout => by cases hout)
            exact ⟨@steady_turning { t with written := t.written ++ out } echo (h.idle hcall)
              hcompleted h.chunks, rfl⟩
  | drop wrote =>
      have hdropped : forall {echo point} (written : Bytes), t.call = some (echo, point) ->
          Steady { t with written := written, call := none } := by
        intro echo point written hcall
        refine ⟨?_, ?_, ?_, h.chunks⟩
        · intro htrue
          cases (h.idle hcall).symm.trans htrue
        · intro echo hnone
          cases hnone
        · intro echo point hnone
          cases hnone
      simp only [step] at hstep
      split at hstep
      · cases hstep
      · cases hstep
      · rename_i echo hcall
        cases hstep
        exact ⟨hdropped t.written hcall, rfl⟩
      · rename_i echo out hcall
        cases hstep
        exact ⟨hdropped _ hcall, rfl⟩
      · rename_i echo out done hcall
        cases hstep
        exact ⟨hdropped _ hcall, rfl⟩

theorem steady_new (neg : Negotiator) (encoding : Encoding) {reads : List Bytes}
    (hreads : forall chunk, chunk ∈ reads -> chunk ≠ []) : (new neg encoding reads).Steady where
  ended := by
    intro htrue
    cases htrue
  reading := by
    intro echo hcall
    cases hcall
  completed := by
    intro echo point hcall
    cases hcall
  chunks := hreads

end Steps

end Terminal
end Rabbithole.Telnet
