import Rabbithole.Foundation.Text

/-!
# Lines and columns

A text as lines, each closed by a newline, and a line as columns.  What is written line
by line, column by column, is read back, as long as no column has a separator in it.
-/

namespace Rabbithole.Foundation

open List

def stripCarriage (line : List Char) : List Char :=
  if line.getLast? = some '\r' then line.dropLast else line

/-- The lines of a text; what stands behind the last newline is a line if it is there. -/
def lines (s : List Char) : List (List Char) :=
  let parts := s.splitOn '\n'
  let closed := parts.dropLast.map stripCarriage
  match parts.getLast? with
  | none => closed
  | some [] => closed
  | some open_ => closed ++ [open_]

def joined (sep : Char) (columns : List (List Char)) : List Char :=
  [sep].intercalate columns

def closed (ls : List (List Char)) : List Char :=
  ls.flatMap (fun l => l ++ ['\n'])

theorem closed_eq_joined (ls : List (List Char)) : closed ls = joined '\n' (ls ++ [[]]) := by
  unfold joined
  induction ls with
  | nil => rfl
  | cons l rest ih =>
      have hne : rest ++ [[]] ≠ [] := by simp
      rw [cons_append, intercalate_cons_of_ne_nil hne, <- ih]
      show (l ++ ['\n']) ++ closed rest = _
      rw [append_assoc]

theorem splitOn_joined {sep : Char} {columns : List (List Char)} (hne : columns ≠ [])
    (h : forall column, column ∈ columns -> sep ∉ column) :
    (joined sep columns).splitOn sep = columns :=
  splitOn_intercalate sep h hne

theorem lines_closed {ls : List (List Char)} (h : forall l, l ∈ ls -> '\n' ∉ l ∧ '\r' ∉ l) :
    lines (closed ls) = ls := by
  have hsplit : (closed ls).splitOn '\n' = ls ++ [[]] := by
    rw [closed_eq_joined]
    apply splitOn_joined (by simp)
    intro l hl
    rcases mem_append.mp hl with hin | hempty
    · exact (h l hin).left
    · rw [mem_singleton.mp hempty]
      exact not_mem_nil
  have hstrip : forall l, l ∈ ls -> stripCarriage l = l := by
    intro l hl
    unfold stripCarriage
    rw [if_neg]
    intro hlast
    exact (h l hl).right (mem_of_getLast? hlast)
  unfold lines
  simp only [hsplit, dropLast_concat, getLast?_concat]
  rw [map_congr_left hstrip, map_id']

/-- A line is a part between newlines, perhaps without the carriage return at its end. -/
theorem mem_lines {s line : List Char} (h : line ∈ lines s) :
    exists part, part ∈ s.splitOn '\n' ∧ (part = line ∨ part = line ++ ['\r']) := by
  have hstripped : forall l, l ∈ (s.splitOn '\n').dropLast.map stripCarriage ->
      exists part, part ∈ s.splitOn '\n' ∧ (part = l ∨ part = l ++ ['\r']) := by
    intro l hl
    rcases mem_map.mp hl with ⟨part, hmem, rfl⟩
    refine ⟨part, dropLast_subset _ hmem, ?_⟩
    unfold stripCarriage
    split
    · rename_i hlast
      exact Or.inr (dropLast_append_getLast? _ hlast).symm
    · exact Or.inl rfl
  unfold lines at h
  dsimp only at h
  split at h
  · exact hstripped line h
  · exact hstripped line h
  · rename_i last _ hlast
    rcases mem_append.mp h with hfront | hend
    · exact hstripped line hfront
    · rw [mem_singleton.mp hend]
      exact ⟨last, mem_of_getLast? hlast, Or.inl rfl⟩

/-!
## Characters that no listing takes for a separator
-/

def Solid (s : List Char) : Prop :=
  forall c, c ∈ s -> isWhitespace c = false

theorem solid_append {s t : List Char} (hs : Solid s) (ht : Solid t) : Solid (s ++ t) := by
  intro c hc
  rcases mem_append.mp hc with hin | hin
  · exact hs c hin
  · exact ht c hin

theorem solid_joined {sep : Char} (hsep : isWhitespace sep = false)
    {columns : List (List Char)} (h : forall column, column ∈ columns -> Solid column) :
    Solid (joined sep columns) := by
  unfold joined
  induction columns with
  | nil => exact fun c hc => absurd hc not_mem_nil
  | cons column rest ih =>
      cases rest with
      | nil =>
          rw [intercalate_singleton]
          exact h column mem_cons_self
      | cons next rest =>
          rw [intercalate_cons_of_ne_nil (cons_ne_nil next rest), append_assoc]
          apply solid_append (h column mem_cons_self)
          have hrest := ih (fun other hother => h other (mem_cons_of_mem column hother))
          exact solid_append (fun c hc => by rw [mem_singleton.mp hc]; exact hsep) hrest

theorem solid_toDigits {base : Nat} (hbase : 1 < base) (hsmall : base <= 36) (n : Nat) :
    Solid (Nat.toDigits base n) := by
  have hdigit : forall k, k < 36 -> isWhitespace (Nat.digitChar k) = false := by
    have hall : forall k : Fin 36, isWhitespace (Nat.digitChar k.val) = false := by decide
    exact fun k hk => hall ⟨k, hk⟩
  induction n using Nat.strongRecOn with
  | ind n ih =>
      rcases Nat.lt_or_ge n base with hlast | hmore
      · rw [Nat.toDigits_of_lt_base hlast]
        intro c hc
        rw [mem_singleton.mp hc]
        exact hdigit n (Nat.lt_of_lt_of_le hlast hsmall)
      · rw [Nat.toDigits_of_base_le hbase hmore]
        apply solid_append
        · exact ih (n / base) (Nat.div_lt_self (by omega) hbase)
        · intro c hc
          rw [mem_singleton.mp hc]
          exact hdigit _ (Nat.lt_of_lt_of_le (Nat.mod_lt n (by omega)) hsmall)

theorem Solid.not_mem {s : List Char} (h : Solid s) {c : Char} (hc : isWhitespace c = true) :
    c ∉ s := by
  intro hmem
  rw [h c hmem] at hc
  cases hc

theorem Solid.exists_mem {s : List Char} (h : Solid s) (hne : s ≠ []) :
    exists c, c ∈ s ∧ isWhitespace c = false :=
  ⟨s.head hne, head_mem hne, h _ (head_mem hne)⟩

theorem dropWhile_append_cons {p : Char -> Bool} {c : Char} (hc : p c = false)
    (front back : List Char) :
    (front ++ c :: back).dropWhile p = front.dropWhile p ++ c :: back := by
  rw [dropWhile_append]
  split
  · rename_i hnil
    rw [List.isEmpty_iff.mp hnil, dropWhile_cons_of_neg]
    · rfl
    · rw [hc]
      exact Bool.false_ne_true
  · rfl

theorem mem_trimText_between {front mid back : List Char} {c : Char} (hc : c ∈ mid)
    (hfront : exists x, x ∈ front ∧ isWhitespace x = false)
    (hback : exists y, y ∈ back ∧ isWhitespace y = false) :
    c ∈ trimText (front ++ mid ++ back) := by
  rcases hfront with ⟨x, hx, hxws⟩
  rcases hback with ⟨y, hy, hyws⟩
  rcases append_of_mem hx with ⟨before, between, rfl⟩
  rcases append_of_mem hy with ⟨next, behind, rfl⟩
  have hshape : before ++ x :: between ++ mid ++ (next ++ y :: behind) =
      before ++ x :: (between ++ mid ++ next ++ y :: behind) := by simp
  unfold trimText List.rdropWhile
  rw [hshape, dropWhile_append_cons hxws]
  have hreverse : (before.dropWhile isWhitespace
        ++ x :: (between ++ mid ++ next ++ y :: behind)).reverse =
      behind.reverse ++ y :: (before.dropWhile isWhitespace
        ++ x :: (between ++ mid ++ next)).reverse := by simp
  rw [hreverse, dropWhile_append_cons hyws]
  simp [hc]

end Rabbithole.Foundation
