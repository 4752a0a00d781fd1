import Rabbithole.Foundation.Text

/-!
# Differences of nodelists

A diff turns last week's list into this week's: a stream of commands over two cursors, one
in the old list and one in the diff itself, behind a new header line.
-/

namespace Rabbithole.Ftn

open Foundation List

abbrev Line : Type := List Char

/-- The lines of a text, each with its terminator. -/
def splitInclusive : List Char -> List Line
  | [] => []
  | c :: s =>
      if c = '\n' then [c] :: splitInclusive s
      else
        match splitInclusive s with
        | [] => [[c]]
        | line :: rest => (c :: line) :: rest

inductive NodediffErrorKind where
  | badCommand (line : Nat)
  | underflow (line : Nat)
  | missingAddLines (line : Nat)
deriving DecidableEq

/-- How a call ends that gives no list. -/
inductive Stop where
  | panic
  | nodediff (reason : NodediffErrorKind)
deriving DecidableEq

inductive DiffOp where
  | add (n : Nat)
  | copy (n : Nat)
  | delete (n : Nat)
deriving DecidableEq

def trimmed (line : Line) : List Char :=
  trimText (line.rdropWhile (fun c => c == '\r' || c == '\n'))

/-- The first byte and the rest; a panic where the first character has more than one. -/
def splitAtOne (c : Char) (rest : List Char) : Except Stop (Char × List Char) :=
  if c.toNat < 128 then .ok (c, rest) else .error .panic

def usizeMax : Nat := 2 ^ 64 - 1

def number (rest : List Char) : Option Nat :=
  parseUnsigned usizeMax (trimText rest)

def letter (c : Char) (n : Nat) : Option DiffOp :=
  if c = 'A' ∨ c = 'a' then some (.add n)
  else if c = 'C' ∨ c = 'c' then some (.copy n)
  else if c = 'D' ∨ c = 'd' then some (.delete n)
  else none

def command (c : Char) (rest : List Char) : Option DiffOp :=
  (number rest).bind (letter c)

def parseOp (line : Line) (diffLine : Nat) : Except Stop (Option DiffOp) :=
  match trimmed line with
  | [] => .ok none
  | c :: rest =>
      match splitAtOne c rest with
      | .error stop => .error stop
      | .ok (c, rest) =>
          match command c rest with
          | none => .error (.nodediff (.badCommand diffLine))
          | some op => .ok (some op)

/-- Commands until the diff is over; `lineNo` lines of it have been read. -/
def run (lineNo : Nat) (diff base : List Line) (out : List Char) : Except Stop (List Char) :=
  match diff with
  | [] => .ok out
  | line :: diff =>
      match parseOp line (lineNo + 1) with
      | .error stop => .error stop
      | .ok none => run (lineNo + 1) diff base out
      | .ok (some (.copy n)) =>
          if n <= base.length then
            run (lineNo + 1) diff (base.drop n) (out ++ (base.take n).flatten)
          else .error (.nodediff (.underflow (lineNo + 1)))
      | .ok (some (.delete n)) =>
          if n <= base.length then run (lineNo + 1) diff (base.drop n) out
          else .error (.nodediff (.underflow (lineNo + 1)))
      | .ok (some (.add n)) =>
          if n <= diff.length then
            run (lineNo + 1 + n) (diff.drop n) base (out ++ (diff.take n).flatten)
          else .error (.nodediff (.missingAddLines (lineNo + 1 + diff.length)))
termination_by diff.length
decreasing_by
  · exact Nat.lt_succ_self _
  · exact Nat.lt_succ_self _
  · exact Nat.lt_succ_self _
  · rw [length_drop]
    exact Nat.lt_succ_of_le (Nat.sub_le _ _)

/-- The first line that is not blank is the new header, unless it is a command. -/
def applyFrom (lineNo : Nat) (diff base : List Line) : Except Stop (List Char) :=
  match diff with
  | [] => .ok []
  | candidate :: diff =>
      match trimmed candidate with
      | [] => applyFrom (lineNo + 1) diff base
      | c :: rest =>
          match splitAtOne c rest with
          | .error stop => .error stop
          | .ok (c, rest) =>
              if (command c rest).isSome then run lineNo (candidate :: diff) base []
              else run (lineNo + 1) diff (base.drop 1) candidate

def applyNodediff (base diff : List Char) : Except Stop (List Char) :=
  applyFrom 0 (splitInclusive diff) (splitInclusive base)

/-!
## What a diff says
-/

/-- The command of a line, if it is one. -/
def commandOf (line : Line) : Option DiffOp :=
  match trimmed line with
  | [] => none
  | c :: rest => command c rest

def Blank (line : Line) : Prop :=
  trimmed line = []

/-- What the commands of a diff make of a list. -/
inductive Edits : List Line -> List Line -> List Line -> Prop where
  | done (base : List Line) : Edits [] base []
  | blank {line : Line} {diff base out : List Line} (hblank : Blank line)
      (h : Edits diff base out) : Edits (line :: diff) base out
  | copy {line : Line} {n : Nat} {diff base out : List Line}
      (hop : commandOf line = some (.copy n)) (hn : n <= base.length)
      (h : Edits diff (base.drop n) out) : Edits (line :: diff) base (base.take n ++ out)
  | delete {line : Line} {n : Nat} {diff base out : List Line}
      (hop : commandOf line = some (.delete n)) (hn : n <= base.length)
      (h : Edits diff (base.drop n) out) : Edits (line :: diff) base out
  | add {line : Line} {n : Nat} {diff base out : List Line}
      (hop : commandOf line = some (.add n)) (hn : n <= diff.length)
      (h : Edits (diff.drop n) base out) : Edits (line :: diff) base (diff.take n ++ out)

/-- The list that a diff makes of another, its header line included. -/
def Patches (diff base out : List Line) : Prop :=
  exists blanks rest, diff = blanks ++ rest ∧ (forall l, l ∈ blanks -> Blank l) ∧
    match rest with
    | [] => out = []
    | first :: after => ¬ Blank first ∧
        if (commandOf first).isSome then Edits rest base out
        else exists edited, Edits after base.tail edited ∧ out = first :: edited

/-- A line of the diff is read as a command, the ones before it having been carried out. -/
inductive Reads : List Line -> List Line -> Line -> Prop where
  | here (line : Line) (diff base : List Line) : Reads (line :: diff) base line
  | blank {line found : Line} {diff base : List Line} (hblank : Blank line)
      (h : Reads diff base found) : Reads (line :: diff) base found
  | copy {line found : Line} {n : Nat} {diff base : List Line}
      (hop : commandOf line = some (.copy n)) (hn : n <= base.length)
      (h : Reads diff (base.drop n) found) : Reads (line :: diff) base found
  | delete {line found : Line} {n : Nat} {diff base : List Line}
      (hop : commandOf line = some (.delete n)) (hn : n <= base.length)
      (h : Reads diff (base.drop n) found) : Reads (line :: diff) base found
  | add {line found : Line} {n : Nat} {diff base : List Line}
      (hop : commandOf line = some (.add n)) (hn : n <= diff.length)
      (h : Reads (diff.drop n) base found) : Reads (line :: diff) base found

/-- A line is looked at as a header or as a command. -/
def Consults (diff base : List Line) (found : Line) : Prop :=
  exists blanks first after, diff = blanks ++ first :: after ∧
    (forall l, l ∈ blanks -> Blank l) ∧ ¬ Blank first ∧
    (found = first ∨
      if (commandOf first).isSome then Reads (first :: after) base found
      else Reads after base.tail found)

/-- Behind its leading white space the line does not begin with a character of more than one
byte. -/
def Plain (line : Line) : Prop :=
  forall c rest, trimmed line = c :: rest -> c.toNat < 128

/-!
## One line of the diff
-/

variable {line found : Line} {diff base : List Line} {lineNo : Nat}

theorem commandOf_of_blank (h : Blank line) : commandOf line = none := by
  unfold commandOf
  rw [show trimmed line = [] from h]

theorem parseOp_of_blank (h : Blank line) (n : Nat) : parseOp line n = .ok none := by
  unfold parseOp
  rw [show trimmed line = [] from h]

theorem parseOp_of_not_plain (h : ¬ Plain line) (n : Nat) : parseOp line n = .error .panic := by
  unfold Plain at h
  push Not at h
  obtain ⟨c, rest, htrimmed, hwide⟩ := h
  have hsplit : splitAtOne c rest = .error .panic := if_neg (Nat.not_lt.mpr hwide)
  simp only [parseOp, htrimmed, hsplit]

theorem parseOp_of_plain (hplain : Plain line) (hblank : ¬ Blank line) (n : Nat) :
    parseOp line n = match commandOf line with
      | none => .error (.nodediff (.badCommand n))
      | some op => .ok (some op) := by
  cases htrimmed : trimmed line with
  | nil => exact absurd htrimmed hblank
  | cons c rest =>
      have hsplit : splitAtOne c rest = .ok (c, rest) := if_pos (hplain c rest htrimmed)
      simp only [parseOp, commandOf, htrimmed, hsplit]

theorem parseOp_error {n : Nat} {stop : Stop} (h : parseOp line n = .error stop) :
    ¬ Blank line ∧ (¬ Plain line ∧ stop = .panic ∨
      Plain line ∧ commandOf line = none ∧ stop = .nodediff (.badCommand n)) := by
  have hblank : ¬ Blank line := by
    intro hblank
    rw [parseOp_of_blank hblank] at h
    contradiction
  refine ⟨hblank, ?_⟩
  by_cases hplain : Plain line
  · rw [parseOp_of_plain hplain hblank] at h
    cases hop : commandOf line with
    | none =>
        rw [hop] at h
        exact Or.inr ⟨hplain, rfl, (Except.error.inj h).symm⟩
    | some op =>
        rw [hop] at h
        contradiction
  · rw [parseOp_of_not_plain hplain] at h
    exact Or.inl ⟨hplain, (Except.error.inj h).symm⟩

theorem parseOp_none {n : Nat} (h : parseOp line n = .ok none) : Blank line := by
  by_contra hblank
  by_cases hplain : Plain line
  · rw [parseOp_of_plain hplain hblank] at h
    cases hop : commandOf line with
    | none =>
        rw [hop] at h
        contradiction
    | some op =>
        rw [hop] at h
        cases h
  · rw [parseOp_of_not_plain hplain] at h
    contradiction

theorem parseOp_some {n : Nat} {op : DiffOp} (h : parseOp line n = .ok (some op)) :
    Plain line ∧ commandOf line = some op := by
  have hblank : ¬ Blank line := by
    intro hblank
    rw [parseOp_of_blank hblank] at h
    cases h
  have hplain : Plain line := by
    by_contra hplain
    rw [parseOp_of_not_plain hplain] at h
    contradiction
  rw [parseOp_of_plain hplain hblank] at h
  cases hop : commandOf line with
  | none =>
      rw [hop] at h
      contradiction
  | some found =>
      rw [hop] at h
      cases h
      exact ⟨hplain, rfl⟩

theorem parseOp_of_command {op : DiffOp} (hplain : Plain line) (hop : commandOf line = some op)
    (n : Nat) : parseOp line n = .ok (some op) := by
  have hblank : ¬ Blank line := by
    intro hblank
    rw [commandOf_of_blank hblank] at hop
    contradiction
  rw [parseOp_of_plain hplain hblank, hop]

/-!
## The commands
-/

theorem reads_of_run_panic {out : List Char} (h : run lineNo diff base out = .error .panic) :
    exists found, Reads diff base found ∧ ¬ Plain found := by
  fun_induction run lineNo diff base out with
  | case1 => contradiction
  | case2 lineNo base out line diff stop hop =>
      cases h
      obtain ⟨-, ⟨hplain, -⟩ | ⟨-, -, hstop⟩⟩ := parseOp_error hop
      · exact ⟨line, .here line diff base, hplain⟩
      · contradiction
  | case3 lineNo base out line diff hop ih =>
      obtain ⟨found, hreads, hplain⟩ := ih h
      exact ⟨found, .blank (parseOp_none hop) hreads, hplain⟩
  | case4 lineNo base out line diff n hop hn ih =>
      obtain ⟨found, hreads, hplain⟩ := ih h
      exact ⟨found, .copy (parseOp_some hop).2 hn hreads, hplain⟩
  | case5 | case7 | case9 => cases h
  | case6 lineNo base out line diff n hop hn ih =>
      obtain ⟨found, hreads, hplain⟩ := ih h
      exact ⟨found, .delete (parseOp_some hop).2 hn hreads, hplain⟩
  | case8 lineNo base out line diff n hop hn ih =>
      obtain ⟨found, hreads, hplain⟩ := ih h
      exact ⟨found, .add (parseOp_some hop).2 hn hreads, hplain⟩

theorem run_panic_of_reads (h : Reads diff base found) (hwide : ¬ Plain found) (lineNo : Nat)
    (out : List Char) : run lineNo diff base out = .error .panic := by
  induction h generalizing lineNo out with
  | here line diff base =>
      rw [run, parseOp_of_not_plain hwide]
  | blank hblank h ih =>
      rw [run, parseOp_of_blank hblank]
      exact ih hwide _ _
  | @copy line found n diff base hop hn h ih | @delete line found n diff base hop hn h ih
  | @add line found n diff base hop hn h ih =>
      by_cases hplain : Plain line
      · rw [run, parseOp_of_command hplain hop]
        simp only [if_pos hn]
        exact ih hwide _ _
      · rw [run, parseOp_of_not_plain hplain]

theorem edits_of_run {out text : List Char} (h : run lineNo diff base out = .ok text) :
    exists edited, Edits diff base edited ∧ text = out ++ edited.flatten := by
  fun_induction run lineNo diff base out with
  | case1 lineNo base out =>
      cases h
      exact ⟨[], .done base, (append_nil _).symm⟩
  | case2 | case5 | case7 | case9 => contradiction
  | case3 lineNo base out line diff hop ih =>
      obtain ⟨edited, hedits, htext⟩ := ih h
      exact ⟨edited, .blank (parseOp_none hop) hedits, htext⟩
  | case4 lineNo base out line diff n hop hn ih =>
      obtain ⟨edited, hedits, htext⟩ := ih h
      refine ⟨_, .copy (parseOp_some hop).2 hn hedits, ?_⟩
      rw [htext, flatten_append, append_assoc]
  | case6 lineNo base out line diff n hop hn ih =>
      obtain ⟨edited, hedits, htext⟩ := ih h
      exact ⟨edited, .delete (parseOp_some hop).2 hn hedits, htext⟩
  | case8 lineNo base out line diff n hop hn ih =>
      obtain ⟨edited, hedits, htext⟩ := ih h
      refine ⟨_, .add (parseOp_some hop).2 hn hedits, ?_⟩
      rw [htext, flatten_append, append_assoc]

theorem run_of_edits {edited : List Line} (h : Edits diff base edited)
    (hplain : forall found, Reads diff base found -> Plain found) (lineNo : Nat) (out : List Char) :
    run lineNo diff base out = .ok (out ++ edited.flatten) := by
  induction h generalizing lineNo out with
  | done base => rw [run, flatten_nil, append_nil]
  | blank hblank h ih =>
      rw [run, parseOp_of_blank hblank]
      exact ih (fun found hfound => hplain found (.blank hblank hfound)) _ _
  | copy hop hn h ih =>
      rw [run, parseOp_of_command (hplain _ (.here _ _ _)) hop]
      simp only [if_pos hn]
      rw [ih (fun found hfound => hplain found (.copy hop hn hfound)), flatten_append, append_assoc]
  | delete hop hn h ih =>
      rw [run, parseOp_of_command (hplain _ (.here _ _ _)) hop]
      simp only [if_pos hn]
      exact ih (fun found hfound => hplain found (.delete hop hn hfound)) _ _
  | add hop hn h ih =>
      rw [run, parseOp_of_command (hplain _ (.here _ _ _)) hop]
      simp only [if_pos hn]
      rw [ih (fun found hfound => hplain found (.add hop hn hfound)), flatten_append, append_assoc]

/-!
## The header line
-/

theorem applyFrom_of_blank (h : Blank line) (lineNo : Nat) (diff base : List Line) :
    applyFrom lineNo (line :: diff) base = applyFrom (lineNo + 1) diff base := by
  rw [applyFrom, show trimmed line = [] from h]

theorem applyFrom_of_not_plain (h : ¬ Plain line) (lineNo : Nat) (diff base : List Line) :
    applyFrom lineNo (line :: diff) base = .error .panic := by
  unfold Plain at h
  push Not at h
  obtain ⟨c, rest, htrimmed, hwide⟩ := h
  have hsplit : splitAtOne c rest = .error .panic := if_neg (Nat.not_lt.mpr hwide)
  simp only [applyFrom, htrimmed, hsplit]

theorem applyFrom_of_plain (hplain : Plain line) (hblank : ¬ Blank line) (lineNo : Nat)
    (diff base : List Line) :
    applyFrom lineNo (line :: diff) base =
      if (commandOf line).isSome then run lineNo (line :: diff) base []
      else run (lineNo + 1) diff base.tail line := by
  cases htrimmed : trimmed line with
  | nil => exact absurd htrimmed hblank
  | cons c rest =>
      have hsplit : splitAtOne c rest = .ok (c, rest) := if_pos (hplain c rest htrimmed)
      simp only [applyFrom, commandOf, htrimmed, hsplit, drop_one]

theorem patches_of_blank (h : Blank line) (diff base out : List Line) :
    Patches (line :: diff) base out ↔ Patches diff base out := by
  constructor
  · rintro ⟨blanks, rest, hdiff, hblanks, hrest⟩
    cases blanks with
    | nil =>
        rw [nil_append] at hdiff
        subst hdiff
        exact absurd h hrest.1
    | cons blank blanks =>
        cases hdiff
        exact ⟨blanks, rest, rfl, fun l hl => hblanks l (mem_cons_of_mem _ hl), hrest⟩
  · rintro ⟨blanks, rest, rfl, hblanks, hrest⟩
    refine ⟨line :: blanks, rest, rfl, ?_, hrest⟩
    intro l hl
    rcases mem_cons.mp hl with rfl | hl
    · exact h
    · exact hblanks l hl

theorem consults_of_blank (h : Blank line) (diff base : List Line) :
    Consults (line :: diff) base found ↔ Consults diff base found := by
  constructor
  · rintro ⟨blanks, first, after, hdiff, hblanks, hfirst, hfound⟩
    cases blanks with
    | nil =>
        cases hdiff
        exact absurd h hfirst
    | cons blank blanks =>
        cases hdiff
        exact ⟨blanks, first, after, rfl, fun l hl => hblanks l (mem_cons_of_mem _ hl),
          hfirst, hfound⟩
  · rintro ⟨blanks, first, after, rfl, hblanks, hfirst, hfound⟩
    refine ⟨line :: blanks, first, after, rfl, ?_, hfirst, hfound⟩
    intro l hl
    rcases mem_cons.mp hl with rfl | hl
    · exact h
    · exact hblanks l hl

theorem patches_of_not_blank (h : ¬ Blank line) (diff base out : List Line) :
    Patches (line :: diff) base out ↔
      if (commandOf line).isSome then Edits (line :: diff) base out
      else exists edited, Edits diff base.tail edited ∧ out = line :: edited := by
  constructor
  · rintro ⟨blanks, rest, hdiff, hblanks, hrest⟩
    cases blanks with
    | nil =>
        rw [nil_append] at hdiff
        subst hdiff
        exact hrest.2
    | cons blank blanks =>
        cases hdiff
        exact absurd (hblanks line mem_cons_self) h
  · intro hout
    exact ⟨[], line :: diff, rfl, fun l hl => absurd hl not_mem_nil, h, hout⟩

theorem consults_of_not_blank {line found : Line} (h : ¬ Blank line) (diff base : List Line) :
    Consults (line :: diff) base found ↔
      (found = line ∨
        if (commandOf line).isSome then Reads (line :: diff) base found
        else Reads diff base.tail found) := by
  constructor
  · rintro ⟨blanks, first, after, hdiff, hblanks, hfirst, hfound⟩
    cases blanks with
    | nil =>
        cases hdiff
        exact hfound
    | cons blank blanks =>
        cases hdiff
        exact absurd (hblanks line mem_cons_self) h
  · intro hfound
    exact ⟨[], line, diff, rfl, fun l hl => absurd hl not_mem_nil, h, hfound⟩

theorem consults_of_applyFrom_panic (h : applyFrom lineNo diff base = .error .panic) :
    exists found, Consults diff base found ∧ ¬ Plain found := by
  induction diff generalizing lineNo with
  | nil =>
      rw [applyFrom] at h
      contradiction
  | cons line diff ih =>
      by_cases hblank : Blank line
      · rw [applyFrom_of_blank hblank] at h
        obtain ⟨found, hfound, hwide⟩ := ih h
        exact ⟨found, (consults_of_blank hblank diff base).mpr hfound, hwide⟩
      · by_cases hplain : Plain line
        · rw [applyFrom_of_plain hplain hblank] at h
          split at h
          · rename_i hcommand
            obtain ⟨found, hreads, hwide⟩ := reads_of_run_panic h
            refine ⟨found, (consults_of_not_blank hblank diff base).mpr (Or.inr ?_), hwide⟩
            rw [if_pos hcommand]
            exact hreads
          · rename_i hcommand
            obtain ⟨found, hreads, hwide⟩ := reads_of_run_panic h
            refine ⟨found, (consults_of_not_blank hblank diff base).mpr (Or.inr ?_), hwide⟩
            rw [if_neg hcommand]
            exact hreads
        · exact ⟨line, (consults_of_not_blank hblank diff base).mpr (Or.inl rfl), hplain⟩

theorem applyFrom_panic_of_consults (h : Consults diff base found) (hwide : ¬ Plain found)
    (lineNo : Nat) : applyFrom lineNo diff base = .error .panic := by
  induction diff generalizing lineNo with
  | nil =>
      obtain ⟨blanks, first, after, hdiff, -⟩ := h
      exact absurd hdiff.symm (append_ne_nil_of_right_ne_nil _ (cons_ne_nil _ _))
  | cons line diff ih =>
      by_cases hblank : Blank line
      · rw [applyFrom_of_blank hblank]
        exact ih ((consults_of_blank hblank diff base).mp h) _
      · by_cases hplain : Plain line
        · rw [applyFrom_of_plain hplain hblank]
          rcases (consults_of_not_blank hblank diff base).mp h with rfl | hreads
          · exact absurd hplain hwide
          · split
            · rename_i hcommand
              rw [if_pos hcommand] at hreads
              exact run_panic_of_reads hreads hwide _ _
            · rename_i hcommand
              rw [if_neg hcommand] at hreads
              exact run_panic_of_reads hreads hwide _ _
        · exact applyFrom_of_not_plain hplain _ _ _

theorem patches_of_applyFrom {text : List Char} (h : applyFrom lineNo diff base = .ok text) :
    exists out, Patches diff base out ∧ text = out.flatten := by
  induction diff generalizing lineNo with
  | nil =>
      rw [applyFrom] at h
      cases h
      exact ⟨[], ⟨[], [], rfl, fun l hl => absurd hl not_mem_nil, rfl⟩, rfl⟩
  | cons line diff ih =>
      by_cases hblank : Blank line
      · rw [applyFrom_of_blank hblank] at h
        obtain ⟨out, hout, htext⟩ := ih h
        exact ⟨out, (patches_of_blank hblank diff base out).mpr hout, htext⟩
      · by_cases hplain : Plain line
        · rw [applyFrom_of_plain hplain hblank] at h
          split at h
          · rename_i hcommand
            obtain ⟨edited, hedits, htext⟩ := edits_of_run h
            refine ⟨edited, (patches_of_not_blank hblank diff base edited).mpr ?_, htext⟩
            rw [if_pos hcommand]
            exact hedits
          · rename_i hcommand
            obtain ⟨edited, hedits, htext⟩ := edits_of_run h
            refine ⟨line :: edited, (patches_of_not_blank hblank diff base _).mpr ?_, htext⟩
            rw [if_neg hcommand]
            exact ⟨edited, hedits, rfl⟩
        · rw [applyFrom_of_not_plain hplain] at h
          contradiction

theorem applyFrom_of_patches {out : List Line} (h : Patches diff base out)
    (hplain : forall found, Consults diff base found -> Plain found) (lineNo : Nat) :
    applyFrom lineNo diff base = .ok out.flatten := by
  induction diff generalizing lineNo with
  | nil =>
      obtain ⟨blanks, rest, hdiff, -, hrest⟩ := h
      obtain ⟨rfl, rfl⟩ := append_eq_nil_iff.mp hdiff.symm
      rw [applyFrom, show out = [] from hrest, flatten_nil]
  | cons line diff ih =>
      by_cases hblank : Blank line
      · rw [applyFrom_of_blank hblank]
        exact ih ((patches_of_blank hblank diff base out).mp h)
          (fun found hfound => hplain found ((consults_of_blank hblank diff base).mpr hfound)) _
      · have hconsults := fun found => (@consults_of_not_blank line found hblank diff base).mpr
        rw [applyFrom_of_plain (hplain line (hconsults line (Or.inl rfl))) hblank]
        have hpatch := (patches_of_not_blank hblank diff base out).mp h
        by_cases hcommand : (commandOf line).isSome
        · rw [if_pos hcommand] at hpatch ⊢
          simp only [if_pos hcommand] at hconsults
          exact run_of_edits hpatch (fun found hfound =>
            hplain found (hconsults found (Or.inr hfound))) _ _
        · rw [if_neg hcommand] at hpatch ⊢
          simp only [if_neg hcommand] at hconsults
          obtain ⟨edited, hedits, rfl⟩ := hpatch
          exact run_of_edits hedits (fun found hfound =>
            hplain found (hconsults found (Or.inr hfound))) _ _

/-!
## The whole diff
-/

/-- The call ends without a panic, and returns the list that the diff makes of the base, exactly
where no line that it looks at begins with a character of more than one byte. -/
theorem applyNodediff_exact (base diff : List Char) :
    (applyNodediff base diff ≠ .error .panic ∧
      forall text, applyNodediff base diff = .ok text ↔
        exists out, Patches (splitInclusive diff) (splitInclusive base) out ∧
          text = out.flatten) ↔
      forall found, Consults (splitInclusive diff) (splitInclusive base) found -> Plain found := by
  constructor
  · rintro ⟨hpanic, -⟩ found hfound
    by_contra hwide
    exact hpanic (applyFrom_panic_of_consults hfound hwide 0)
  · intro hplain
    refine ⟨?_, fun text => ⟨patches_of_applyFrom, ?_⟩⟩
    · intro hpanic
      obtain ⟨found, hfound, hwide⟩ := consults_of_applyFrom_panic hpanic
      exact hwide (hplain found hfound)
    · rintro ⟨out, hout, rfl⟩
      exact applyFrom_of_patches hout hplain 0

/-- A header that begins with an accented letter. -/
theorem not_applyNodediff_exact :
    ¬ (forall base diff : List Char, applyNodediff base diff ≠ .error .panic ∧
      forall text, applyNodediff base diff = .ok text ↔
        exists out, Patches (splitInclusive diff) (splitInclusive base) out ∧
          text = out.flatten) := by
  intro h
  exact (h [] ['é']).1 (by decide)

end Rabbithole.Ftn
