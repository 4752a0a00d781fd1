import Rabbithole.Directory.Listing
import Rabbithole.Tracker.Registry

/-!
# The index on the wire

One line a row, ten columns behind tabs: what the registrant says with the separators
taken out of it, what this tracker has seen, and the whole signed descriptor.
-/

namespace Rabbithole.Tracker

open Foundation Federation Directory Binkp List

def sanitize (s : List Char) : List Char :=
  s.map (fun c => if c = '\t' ∨ c = '\n' ∨ c = '\r' then ' ' else c)

def categoriesStr (entry : ServerEntry) : List Char :=
  if entry.categories.isEmpty then ['-'] else joined ',' entry.categories

def keyPrefix (key : PublicKey) : List Char :=
  toHex (((Codec.array 32).encode key).take 8)

def formatPermille (permille : Nat) : List Char :=
  Nat.toDigits 10 (permille / 10) ++ '.' :: Nat.toDigits 10 (permille % 10)

def intText (n : Int) : List Char :=
  if n < 0 then '-' :: Nat.toDigits 10 n.natAbs else Nat.toDigits 10 n.natAbs

/-- The last four columns. -/
def signedColumns (f : Format) (signed : Option SignedDescriptor) : List (List Char) :=
  match signed with
  | some signed =>
      ["yes".toList, keyPrefix signed.descriptor.serverKey,
        intText signed.descriptor.timestamp.toInt, toHex (signed.toBytes f)]
  | none => ["no".toList, ['-'], ['-'], ['-']]

def indexColumns (f : Format) (row : IndexRow) : List (List Char) :=
  [sanitize row.entry.name, row.entry.addr.display, Nat.toDigits 10 row.entry.usersOnline.toNat,
    sanitize (categoriesStr row.entry), formatPermille row.uptimePermille,
    Nat.toDigits 10 row.lastSeenSecs] ++ signedColumns f row.entry.signed

def indexLine (f : Format) (row : IndexRow) : List Char :=
  joined '\t' (indexColumns f row)

def indexLines (f : Format) (rows : List IndexRow) : List Char :=
  closed (rows.map (indexLine f))

/-!
## No column breaks its line
-/

/-- Neither a tab nor the end of a line. -/
def Unbroken (s : List Char) : Prop :=
  '\t' ∉ s ∧ '\n' ∉ s ∧ '\r' ∉ s

theorem unbroken_of_solid {s : List Char} (h : Solid s) : Unbroken s :=
  ⟨h.not_mem (by decide), h.not_mem (by decide), h.not_mem (by decide)⟩

theorem unbroken_sanitize (s : List Char) : Unbroken (sanitize s) := by
  have hnot : forall sep, (sep = '\t' ∨ sep = '\n' ∨ sep = '\r') -> sep ∉ sanitize s := by
    intro sep hsep hmem
    rcases mem_map.mp hmem with ⟨c, -, hc⟩
    split at hc
    · rw [<- hc] at hsep
      revert hsep
      decide
    · rename_i hother
      rw [hc] at hother
      exact hother hsep
  exact ⟨hnot '\t' (Or.inl rfl), hnot '\n' (Or.inr (Or.inl rfl)), hnot '\r' (Or.inr (Or.inr rfl))⟩

theorem sanitize_eq_self {s : List Char} (h : Unbroken s) : sanitize s = s := by
  unfold sanitize
  have hkept : forall c, c ∈ s -> (if c = '\t' ∨ c = '\n' ∨ c = '\r' then ' ' else c) = id c := by
    intro c hc
    rw [if_neg]
    · rfl
    · rintro (rfl | rfl | rfl)
      · exact h.left hc
      · exact h.right.left hc
      · exact h.right.right hc
  rw [map_congr_left hkept, map_id]

theorem solid_intText (n : Int) : Solid (intText n) := by
  have hdigits : Solid (Nat.toDigits 10 n.natAbs) := solid_toDigits (by decide) (by decide) _
  unfold intText
  split
  · exact solid_append (s := ['-']) (solid_of_all (by decide)) hdigits
  · exact hdigits

theorem solid_formatPermille (permille : Nat) : Solid (formatPermille permille) :=
  solid_append (solid_toDigits (by decide) (by decide) _)
    (solid_append (s := ['.']) (solid_of_all (by decide))
      (solid_toDigits (by decide) (by decide) _))

theorem solid_toHex (bytes : Bytes) : Solid (toHex bytes) :=
  fun _ => not_whitespace_of_mem_toHex

theorem solid_signedColumns (f : Format) (signed : Option SignedDescriptor)
    {column : List Char} (h : column ∈ signedColumns f signed) : Solid column := by
  unfold signedColumns at h
  cases signed with
  | none =>
      simp only [mem_cons, not_mem_nil, or_false] at h
      rcases h with rfl | rfl | rfl | rfl
      all_goals exact solid_of_all (by decide)
  | some signed =>
      simp only [mem_cons, not_mem_nil, or_false] at h
      rcases h with rfl | rfl | rfl | rfl
      · exact solid_of_all (by decide)
      · exact solid_toHex _
      · exact solid_intText _
      · exact solid_toHex _

theorem unbroken_indexColumns (f : Format) (row : IndexRow) {column : List Char}
    (h : column ∈ indexColumns f row) : Unbroken column := by
  rcases mem_append.mp h with hfront | hback
  · simp only [mem_cons, not_mem_nil, or_false] at hfront
    rcases hfront with rfl | rfl | rfl | rfl | rfl | rfl
    · exact unbroken_sanitize _
    · exact unbroken_of_solid (solid_display _)
    · exact unbroken_of_solid (solid_toDigits (by decide) (by decide) _)
    · exact unbroken_sanitize _
    · exact unbroken_of_solid (solid_formatPermille _)
    · exact unbroken_of_solid (solid_toDigits (by decide) (by decide) _)
  · exact unbroken_of_solid (solid_signedColumns f row.entry.signed hback)

theorem splitOn_indexLine (f : Format) (row : IndexRow) :
    (indexLine f row).splitOn '\t' = indexColumns f row :=
  splitOn_joined (cons_ne_nil _ _)
    (fun _ hcolumn => (unbroken_indexColumns f row hcolumn).left)

theorem newline_not_mem_indexLine (f : Format) (row : IndexRow) :
    '\n' ∉ indexLine f row ∧ '\r' ∉ indexLine f row := by
  constructor
  · intro h
    rcases mem_intercalate h with heq | ⟨column, hcolumn, hc⟩
    · revert heq
      decide
    · exact (unbroken_indexColumns f row hcolumn).right.left hc
  · intro h
    rcases mem_intercalate h with heq | ⟨column, hcolumn, hc⟩
    · revert heq
      decide
    · exact (unbroken_indexColumns f row hcolumn).right.right hc

theorem toDigits_ne_nil (n : Nat) : Nat.toDigits 10 n ≠ [] := by
  rcases Nat.lt_or_ge n 10 with hsmall | hbig
  · rw [Nat.toDigits_of_lt_base hsmall]
    exact cons_ne_nil _ _
  · rw [Nat.toDigits_of_base_le (by decide) hbig]
    exact append_ne_nil_of_right_ne_nil _ (cons_ne_nil _ _)

theorem tab_mem_trimText_indexLine (f : Format) (row : IndexRow) :
    '\t' ∈ trimText (indexLine f row) := by
  have hshape : indexLine f row =
      (sanitize row.entry.name ++ '\t' :: row.entry.addr.display) ++ ['\t']
        ++ (Nat.toDigits 10 row.entry.usersOnline.toNat
          ++ '\t' :: joined '\t' ((indexColumns f row).drop 3)) := by
    unfold indexLine joined indexColumns
    rw [cons_append, intercalate_cons_of_ne_nil (by simp), cons_append,
      intercalate_cons_of_ne_nil (by simp), cons_append,
      intercalate_cons_of_ne_nil (by simp)]
    simp only [append_assoc, cons_append, nil_append]
    rfl
  rcases (solid_display row.entry.addr).exists_mem (display_ne_nil _) with ⟨x, hx, hxws⟩
  have husers : Solid (Nat.toDigits 10 row.entry.usersOnline.toNat) :=
    solid_toDigits (by decide) (by decide) _
  rcases husers.exists_mem (toDigits_ne_nil _) with ⟨y, hy, hyws⟩
  rw [hshape]
  apply mem_trimText_between (mem_singleton.mpr rfl)
  · exact ⟨x, mem_append_right _ (mem_cons_of_mem _ hx), hxws⟩
  · exact ⟨y, mem_append_left _ hy, hyws⟩

end Rabbithole.Tracker
