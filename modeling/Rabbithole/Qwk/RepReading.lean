import Rabbithole.Qwk.RepArchive

/-!
# The reader walks what the writer wrote

The record at the end of an archive, the directory and the headers are read as they were
written, whatever the checksums that stand in them.  So the message member is taken out if
its bytes have the checksum that stands for them, and is refused if not.
-/

namespace Rabbithole.Qwk

open Foundation List

theorem ok_bind {value value' : Type} (v : value) (f : value -> Except ArchiveError value') :
    (Except.ok v >>= f) = f v :=
  rfl

theorem require_of {ok : Bool} (why : String) (h : ok = true) : require ok why = .ok () := by
  rw [h]
  rfl

theorem checkedAdd_of {a b : Nat} (why : String) (h : a + b <= usizeMax) :
    checkedAdd a b why = .ok (a + b) :=
  if_pos h

theorem bytesAt_of {b : Bytes} {p n : Nat} (hsmall : b.length <= usizeMax)
    (h : p + n <= b.length) : bytesAt b p n = .ok (fieldAt b p n) := by
  unfold bytesAt
  rw [checkedAdd_of _ (Nat.le_trans h hsmall), ok_bind, require_of _ (decide_eq_true h)]
  rfl

theorem bytesAt_piece {b front piece rest : Bytes} {p n : Nat} (hsmall : b.length <= usizeMax)
    (hb : b = front ++ (piece ++ rest)) (hp : front.length = p) (hn : piece.length = n) :
    bytesAt b p n = .ok piece := by
  subst hb hp hn
  rw [bytesAt_of hsmall (by simp only [length_append]; omega)]
  have hskip := fieldAt_skip front (piece ++ rest) 0 piece.length
  rw [Nat.add_zero] at hskip
  rw [hskip]
  unfold fieldAt
  rw [drop_zero, take_left]

/-- The bytes have a record of such fields at a place. -/
structure Laid (b : Bytes) (p : Nat) (fields : List Bytes) (widths : List Nat) : Prop where
  widths : fields.map List.length = widths
  small : b.length <= usizeMax
  place : exists front rest, b = front ++ (fields.flatten ++ rest) ∧ front.length = p

namespace Laid

variable {b : Bytes} {p : Nat} {fields : List Bytes} {widths : List Nat}

section

variable (h : Laid b p fields widths)
include h

theorem le_length : p + widths.sum <= b.length := by
  rcases h.place with ⟨front, rest, rfl, rfl⟩
  rw [length_append, length_append, length_layout h.widths]
  omega

theorem bytesAt (index offset width : Nat) {field : Bytes} (hfield : fields[index]? = some field)
    (hwidth : widths[index]? = some width) (hoffset : (widths.take index).sum = offset)
    (hlast : offset + width <= widths.sum) : bytesAt b (p + offset) width = .ok field := by
  have hle := h.le_length
  rcases h.place with ⟨front, rest, hb, hp⟩
  rw [bytesAt_of h.small (by omega), hb, ← hp, fieldAt_skip, ← hoffset,
    fieldAt_layout h.widths hfield hwidth rest]

theorem u16At (index offset n : Nat) (hfield : fields[index]? = some (Codec.littleEndian 2 n))
    (hwidth : widths[index]? = some 2) (hoffset : (widths.take index).sum = offset)
    (hlast : offset + 2 <= widths.sum) (hn : n < 256 ^ 2) : u16At b (p + offset) = .ok n := by
  unfold Qwk.u16At
  rw [h.bytesAt index offset 2 hfield hwidth hoffset hlast]
  exact congrArg Except.ok (Codec.ofLittleEndian_littleEndian hn)

theorem u32At (index offset n : Nat) (hfield : fields[index]? = some (Codec.littleEndian 4 n))
    (hwidth : widths[index]? = some 4) (hoffset : (widths.take index).sum = offset)
    (hlast : offset + 4 <= widths.sum) (hn : n < 256 ^ 4) : u32At b (p + offset) = .ok n := by
  unfold Qwk.u32At
  rw [h.bytesAt index offset 4 hfield hwidth hoffset hlast]
  exact congrArg Except.ok (Codec.ofLittleEndian_littleEndian hn)

end

end Laid

/-!
## The members of an archive
-/

/-- What is asked of the members of an archive: their number, safe names, and the size. -/
structure Admissible (ms : List StoredMember) : Prop where
  some : ms ≠ []
  count : ms.length <= maxEntries
  safe : forall m, m ∈ ms -> isSafeName m.name = true
  sized : (archiveOf ms).length <= maxArchiveBytes

theorem Admissible.lengths {ms : List StoredMember} (h : Admissible ms) :
    (locals ms).length + (centrals 0 ms).length + 22 <= 2 ^ 23 ∧
      (archiveOf ms).length <= usizeMax := by
  have hsized := h.sized
  rw [length_archiveOf] at hsized ⊢
  unfold maxArchiveBytes at hsized
  unfold usizeMax
  omega

section Member

variable {pre post : List StoredMember} {m : StoredMember}

theorem length_locals_split (pre post : List StoredMember) (m : StoredMember) :
    (locals (pre ++ m :: post)).length =
      (locals pre).length + (30 + m.name.length + m.data.length) + (locals post).length := by
  rw [locals_append]
  show (locals pre ++ (m.localRecord ++ locals post)).length = _
  rw [length_append, length_append, m.length_localRecord]
  omega

theorem length_centrals_split (pre post : List StoredMember) (m : StoredMember) :
    (centrals 0 (pre ++ [m])).length = (centrals 0 pre).length + (46 + m.name.length) ∧
      (centrals 0 (pre ++ [m])).length <= (centrals 0 (pre ++ m :: post)).length := by
  have hone : forall offset, centrals offset [m] = m.centralRecord offset ++ [] :=
    fun offset => rfl
  have hmore : forall offset, centrals offset (m :: post) =
      m.centralRecord offset ++ centrals (offset + m.localRecord.length) post :=
    fun offset => rfl
  rw [centrals_append, centrals_append, hone, hmore]
  simp only [length_append, length_nil, m.length_centralRecord]
  omega

variable (hms : Admissible (pre ++ m :: post))

include hms

theorem laid_central : Laid (archiveOf (pre ++ m :: post))
      ((locals (pre ++ m :: post)).length + (centrals 0 pre).length)
      (m.centralFields (locals pre).length) centralWidths := by
  rcases archiveOf_central pre post m with ⟨rest, hrest⟩
  constructor
  · exact m.length_centralFields _
  · exact hms.lengths.right
  · exact ⟨_, _, hrest, length_append⟩

theorem laid_local :
    Laid (archiveOf (pre ++ m :: post)) (locals pre).length m.localFields localWidths := by
  rcases archiveOf_local pre post m with ⟨rest, hrest⟩
  constructor
  · exact m.length_localFields
  · exact hms.lengths.right
  · exact ⟨_, _, hrest, rfl⟩

theorem length_name_lt : m.name.length < 256 ^ 2 := by
  have hsafe := hms.safe m (mem_append_right pre mem_cons_self)
  unfold isSafeName at hsafe
  simp only [Bool.and_eq_true, decide_eq_true_eq] at hsafe
  have hname := hsafe.left.left.left.right
  omega

/-- The header of a member of the archive, as the reader sees it. -/
def storedHeader (m : StoredMember) : CentralHeader where
  flags := 0
  method := 0
  crc := m.crc.toNat
  compressed := m.data.length
  size := m.data.length

def storedName (pre : List StoredMember) (m : StoredMember) : CentralName where
  nameLen := m.name.length
  extraLen := 0
  comment := 0
  place := (locals pre).length
  name := m.name

theorem length_data_lt : m.data.length <= maxMemberBytes ∧ (locals pre).length < 256 ^ 4 ∧
    (locals pre).length + (30 + m.name.length + m.data.length) <=
      (locals (pre ++ m :: post)).length := by
  have hlengths := hms.lengths.left
  have hsplit := length_locals_split pre post m
  unfold maxMemberBytes
  omega

theorem readCentral_stored : readCentral (archiveOf (pre ++ m :: post))
      ((locals (pre ++ m :: post)).length + (centrals 0 pre).length) = .ok (storedHeader m) := by
  have hlaid := laid_central hms
  rcases length_data_lt hms with ⟨hmember, -, -⟩
  have hdata : m.data.length < 256 ^ 4 := Nat.lt_of_le_of_lt hmember (by decide)
  have hsum : centralWidths.sum = 46 := rfl
  have hle := hlaid.le_length
  rw [hsum] at hle
  generalize (locals (pre ++ m :: post)).length + (centrals 0 pre).length = p at hlaid hle
  have hsignature : u32At (archiveOf (pre ++ m :: post)) p = .ok 0x02014b50 :=
    hlaid.u32At 0 0 _ rfl rfl rfl (by decide) (by decide)
  have hversion := hlaid.u16At 2 6 20 rfl rfl rfl (by decide) (by decide)
  have hflags := hlaid.u16At 3 8 0 rfl rfl rfl (by decide) (by decide)
  have hmethod := hlaid.u16At 4 10 0 rfl rfl rfl (by decide) (by decide)
  have hcrc := hlaid.u32At 7 16 _ rfl rfl rfl (by decide) m.crc.toNat_lt
  have hcompressed := hlaid.u32At 8 20 _ rfl rfl rfl (by decide) hdata
  have hsize := hlaid.u32At 9 24 _ rfl rfl rfl (by decide) hdata
  have hfits : (decide (m.data.length <= maxArchiveBytes) &&
      decide (m.data.length <= maxMemberBytes)) = true := by
    rw [Bool.and_eq_true, decide_eq_true_iff, decide_eq_true_iff]
    exact ⟨hmember, hmember⟩
  unfold readCentral
  rw [hsignature, ok_bind, require_of _ (by rfl), ok_bind, bytesAt_of hlaid.small hle, ok_bind,
    hversion, ok_bind, require_of _ (by rfl), ok_bind, hflags, ok_bind,
    require_of _ (by rw [Nat.zero_and]; rfl), ok_bind, hmethod, ok_bind, require_of _ (by rfl), ok_bind,
    require_of _ (by rfl), ok_bind, hcrc, ok_bind, hcompressed, ok_bind, hsize, ok_bind,
    require_of _ hfits, ok_bind]
  rfl

theorem readCentralName_stored : readCentralName (archiveOf (pre ++ m :: post))
      ((locals (pre ++ m :: post)).length + (centrals 0 pre).length)
      (locals (pre ++ m :: post)).length = .ok (storedName pre m) := by
  have hlaid := laid_central hms
  have hname := length_name_lt hms
  rcases length_data_lt hms with ⟨-, hplace, hle⟩
  rcases archiveOf_central pre post m with ⟨rest, hrest⟩
  have hpiece : bytesAt (archiveOf (pre ++ m :: post))
      ((locals (pre ++ m :: post)).length + (centrals 0 pre).length + 46) m.name.length =
        .ok m.name := by
    refine bytesAt_piece hlaid.small (hrest.trans (append_assoc _ _ _).symm) ?_ rfl
    rw [length_append, length_append,
      length_layout (m.length_centralFields (locals pre).length)]
    rfl
  generalize (locals (pre ++ m :: post)).length + (centrals 0 pre).length = p at hlaid hpiece
  have hnameLen := hlaid.u16At 10 28 _ rfl rfl rfl (by decide) hname
  have hextra := hlaid.u16At 11 30 0 rfl rfl rfl (by decide) (by decide)
  have hcomment := hlaid.u16At 12 32 0 rfl rfl rfl (by decide) (by decide)
  have hdisk := hlaid.u16At 13 34 0 rfl rfl rfl (by decide) (by decide)
  have hattrs := hlaid.u32At 15 38 0 rfl rfl rfl (by decide) (by decide)
  have hlocal := hlaid.u32At 16 42 _ rfl rfl rfl (by decide) hplace
  have hbefore : decide ((locals pre).length <= (locals (pre ++ m :: post)).length) = true :=
    decide_eq_true (by omega)
  unfold readCentralName
  rw [hnameLen, ok_bind, hextra, ok_bind, hcomment, ok_bind, hdisk, ok_bind, require_of _ (by rfl),
    ok_bind, hattrs, ok_bind, require_of _ (by rfl), ok_bind, hlocal, ok_bind, require_of _ hbefore,
    ok_bind, hpiece, ok_bind,
    require_of _ (hms.safe m (mem_append_right pre mem_cons_self)), ok_bind]
  rfl

theorem readLocal_stored :
    readLocal (archiveOf (pre ++ m :: post)) (storedHeader m) (storedName pre m) =
      .ok (m.data, (locals pre).length + (30 + m.name.length + m.data.length)) := by
  have hlaid := laid_local hms
  have hname := length_name_lt hms
  have hlengths := hms.lengths
  rcases length_data_lt hms with ⟨hmember, hplace, hlocals⟩
  have hdata : m.data.length < 256 ^ 4 := Nat.lt_of_le_of_lt hmember (by decide)
  rcases archiveOf_local pre post m with ⟨rest, hrest⟩
  have hheader := length_layout m.length_localFields
  have hwhole := length_archiveOf (pre ++ m :: post)
  have hnamePiece : bytesAt (archiveOf (pre ++ m :: post)) ((locals pre).length + 30)
      m.name.length = .ok m.name := by
    refine bytesAt_piece hlaid.small (hrest.trans (append_assoc _ _ _).symm) ?_ rfl
    rw [length_append, hheader]
    rfl
  have hdataPiece : bytesAt (archiveOf (pre ++ m :: post))
      ((locals pre).length + (30 + m.name.length + 0)) m.data.length = .ok m.data := by
    have hsplit : archiveOf (pre ++ m :: post) =
        (locals pre ++ (m.localFields.flatten ++ m.name)) ++ (m.data ++ rest) := by
      rw [hrest]
      simp only [append_assoc]
    refine bytesAt_piece hlaid.small hsplit ?_ rfl
    rw [length_append, length_append, hheader]
    rfl
  have hnone : bytesAt (archiveOf (pre ++ m :: post))
      ((locals pre).length + 30 + m.name.length) 0 = .ok [] := by
    rw [bytesAt_of hlaid.small (by omega)]
    rfl
  have hlast : localWidths.sum = 30 := rfl
  have hle := hlaid.le_length
  rw [hlast] at hle
  have hsignature : u32At (archiveOf (pre ++ m :: post)) (locals pre).length = .ok 0x04034b50 :=
    hlaid.u32At 0 0 _ rfl rfl rfl (by decide) (by decide)
  have hversion := hlaid.u16At 1 4 20 rfl rfl rfl (by decide) (by decide)
  have hflags := hlaid.u16At 2 6 0 rfl rfl rfl (by decide) (by decide)
  have hmethod := hlaid.u16At 3 8 0 rfl rfl rfl (by decide) (by decide)
  have hcrc := hlaid.u32At 6 14 _ rfl rfl rfl (by decide) m.crc.toNat_lt
  have hcompressed := hlaid.u32At 7 18 _ rfl rfl rfl (by decide) hdata
  have hsize := hlaid.u32At 8 22 _ rfl rfl rfl (by decide) hdata
  have hnameLen := hlaid.u16At 9 26 _ rfl rfl rfl (by decide) hname
  have hextra := hlaid.u16At 10 28 0 rfl rfl rfl (by decide) (by decide)
  have hsum : checkedAdd (locals pre).length (30 + m.name.length + 0) "offset overflow" =
      .ok ((locals pre).length + (30 + m.name.length + 0)) := by
    apply checkedAdd_of
    have hmax := hlengths.right
    omega
  unfold readLocal storedName storedHeader
  dsimp only
  rw [hsignature, ok_bind, require_of _ (by rfl), ok_bind, bytesAt_of hlaid.small hle, ok_bind,
    hversion, ok_bind, hflags, ok_bind, hmethod, ok_bind, require_of _ (by rfl), ok_bind,
    hnameLen, ok_bind, hextra, ok_bind, hnamePiece, ok_bind, require_of _ (beq_self_eq_true _),
    ok_bind, hnone, ok_bind]
  have hextraNone : extra [] = .ok () := rfl
  have hsame : (m.crc.toNat == m.crc.toNat && m.data.length == m.data.length &&
      m.data.length == m.data.length) = true := by
    rw [beq_self_eq_true, beq_self_eq_true]
    rfl
  have hstop : (locals pre).length + (30 + m.name.length + 0) + m.data.length =
      (locals pre).length + (30 + m.name.length + m.data.length) := by omega
  rw [hextraNone, ok_bind, hsum, ok_bind, hdataPiece, ok_bind, hcrc, ok_bind, hcompressed,
    ok_bind, hsize, ok_bind, if_pos (by rfl), require_of _ hsame, ok_bind, hstop]

end Member

/-!
## Walking along the directory
-/

theorem extract_stored (inflate : Bytes -> Nat -> Option (Bool × Nat × Bytes)) (m : StoredMember) :
    extract inflate (storedHeader m) m.data =
      if crc32 m.data = m.crc then .ok m.data else .error { why := "CRC mismatch" } := by
  have hstored : require (m.data.length == m.data.length) "invalid STORE size" = .ok () :=
    require_of _ (beq_self_eq_true _)
  have hsize : require (m.data.length == m.data.length) "decoded size mismatch" = .ok () :=
    require_of _ (beq_self_eq_true _)
  unfold extract storedHeader
  dsimp only
  rw [if_pos (by rfl), hstored, ok_bind, ok_bind, hsize, ok_bind]
  unfold require
  by_cases hcrc : crc32 m.data = m.crc
  · rw [if_pos hcrc, if_pos (by rw [hcrc]; exact beq_self_eq_true _)]
    rfl
  · rw [if_neg hcrc, if_neg]
    · rfl
    · intro heq
      exact hcrc (UInt32.toNat_inj.mp (eq_of_beq heq))

theorem accounted_append {cursor stop stop' : Nat} {ranges : List (Nat × Nat)}
    (h : accounted cursor ranges = .ok stop) :
    accounted cursor (ranges ++ [(stop, stop')]) = .ok stop' := by
  induction ranges generalizing cursor with
  | nil =>
      cases h
      show (require (stop == stop) _ >>= fun _ => Except.ok stop') = _
      rw [require_of _ (beq_self_eq_true stop)]
      rfl
  | cons r ranges ih =>
      rcases r with ⟨first, last⟩
      have hfirst : accounted cursor ((first, last) :: ranges) =
          (require (first == cursor) "overlapping or unaccounted ZIP data" >>=
            fun _ => accounted last ranges) := rfl
      by_cases heq : (first == cursor) = true
      · rw [hfirst, require_of _ heq, ok_bind] at h
        show (require (first == cursor) _ >>= fun _ => accounted last (ranges ++ _)) = _
        rw [require_of _ heq, ok_bind]
        exact ih h
      · rw [hfirst] at h
        unfold require at h
        rw [if_neg heq] at h
        cases h

/-- What the walk has gathered behind some members, but for the message member. -/
structure Gathered (ms pre : List StoredMember) (s : Scan) : Prop where
  p : s.p = (locals ms).length + (centrals 0 pre).length
  total : s.total <= (locals pre).length
  names : s.names = (pre.map (fun m => lowerName m.name)).reverse
  accounted : accounted 0 s.ranges = .ok (locals pre).length
  ascending : s.ranges.Pairwise (fun r r' => r.fst < r'.fst)
  below : forall r, r ∈ s.ranges -> r.fst < (locals pre).length

section Walk

variable (inflate : Bytes -> Nat -> Option (Bool × Nat × Bytes)) (expected : Bytes)

/-- What the walk takes for the message member at a member. -/
def takenAt (m : StoredMember) (member : Option Bytes) : Except ArchiveError (Option Bytes) :=
  if lowerName m.name = lowerName expected then
    if crc32 m.data = m.crc then .ok (some m.data) else .error { why := "CRC mismatch" }
  else .ok member

theorem memberAt_stored (m : StoredMember) (member : Option Bytes) :
    memberAt inflate expected (storedHeader m) m.name m.data member =
      takenAt expected m member := by
  unfold takenAt memberAt
  by_cases hname : lowerName m.name = lowerName expected
  · rw [if_pos hname, if_pos (beq_iff_eq.mpr hname), extract_stored]
    by_cases hcrc : crc32 m.data = m.crc
    · rw [if_pos hcrc, if_pos hcrc]
      rfl
    · rw [if_neg hcrc, if_neg hcrc]
      rfl
  · rw [if_neg hname, if_neg (fun heq => hname (beq_iff_eq.mp heq))]

/-- The walk's state behind one more member. -/
def behind (pre : List StoredMember) (m : StoredMember) (s : Scan) (member : Option Bytes) :
    Scan where
  p := s.p + (46 + m.name.length)
  total := s.total + m.data.length
  names := lowerName m.name :: s.names
  ranges := s.ranges ++
    [((locals pre).length, (locals pre).length + (30 + m.name.length + m.data.length))]
  member := member

variable {s : Scan} {m : StoredMember} {e : EndRecord}

theorem gathered_behind {ms pre : List StoredMember} (hs : Gathered ms pre s)
    (member : Option Bytes) : Gathered ms (pre ++ [m]) (behind pre m s member) := by
  have hlocals : (locals (pre ++ [m])).length =
      (locals pre).length + (30 + m.name.length + m.data.length) :=
    length_locals_split pre [] m
  have hcentrals := (length_centrals_split pre [] m).left
  constructor
  · show s.p + _ = _
    rw [hs.p, hcentrals, Nat.add_assoc]
  · show s.total + _ <= _
    have htotal := hs.total
    omega
  · show lowerName m.name :: s.names = _
    rw [hs.names, map_append, reverse_append]
    rfl
  · rw [hlocals]
    exact accounted_append hs.accounted
  · show (s.ranges ++ _).Pairwise _
    rw [pairwise_append]
    refine ⟨hs.ascending, pairwise_singleton _ _, ?_⟩
    intro r hr r' hr'
    rw [mem_singleton.mp hr']
    exact hs.below r hr
  · intro r hr
    rw [hlocals]
    rcases mem_append.mp hr with hbefore | hlast
    · have hlt := hs.below r hbefore
      omega
    · rw [mem_singleton.mp hlast]
      show (locals pre).length < _
      omega

def lowerNames (ms : List StoredMember) : List Bytes :=
  ms.map (fun m => lowerName m.name)

/-- The walk passes a stored member whose name is new, and takes it if it has the name of the
message member. -/
theorem scanMember_stored {pre post : List StoredMember} (hms : Admissible (pre ++ m :: post))
    (hcentral : e.central = (locals (pre ++ m :: post)).length)
    (hplace : e.place = e.central + (centrals 0 (pre ++ m :: post)).length)
    (hs : Gathered (pre ++ m :: post) pre s) :
    scanMember inflate (archiveOf (pre ++ m :: post)) expected e s =
      (require (!s.names.contains (lowerName m.name)) "duplicate member name" >>= fun _ =>
        (takenAt expected m s.member).map (behind pre m s)) := by
  have hlengths := hms.lengths
  have hlocals := length_locals_split pre post m
  have hcentrals := length_centrals_split pre post m
  have htotal := hs.total
  have hwhole := length_archiveOf (pre ++ m :: post)
  have hmax : 2 ^ 23 <= usizeMax := by decide
  have hp := hs.p
  have hadd : checkedAdd s.total m.data.length "size overflow" =
      .ok (s.total + m.data.length) := checkedAdd_of _ (by omega)
  have hbound : decide (s.total + m.data.length <= maxTotalBytes) = true := by
    apply decide_eq_true
    unfold maxTotalBytes
    omega
  have hnone : bytesAt (archiveOf (pre ++ m :: post)) (s.p + 46 + m.name.length) 0 = .ok [] := by
    rw [bytesAt_of hlengths.right (by omega)]
    rfl
  have hextraNone : extra [] = .ok () := rfl
  have hnext : checkedAdd s.p (46 + m.name.length + 0 + 0) "offset overflow" =
      .ok (s.p + (46 + m.name.length)) := checkedAdd_of _ (by omega)
  have hwithin : decide (s.p + (46 + m.name.length) <= e.place) = true :=
    decide_eq_true (by omega)
  have hstop : decide ((locals pre).length + (30 + m.name.length + m.data.length) <= e.central) =
      true := decide_eq_true (by omega)
  have hheader := readCentral_stored hms
  have hname := readCentralName_stored hms
  rw [← hp] at hheader hname
  rw [← hcentral] at hname
  unfold scanMember
  rw [hheader, ok_bind]
  show (checkedAdd s.total m.data.length _ >>= _) = _
  rw [hadd, ok_bind, require_of _ hbound, ok_bind, hname, ok_bind]
  show (require (!s.names.contains (lowerName m.name)) _ >>= _) = _
  congr 1
  funext _
  show (bytesAt _ (s.p + 46 + m.name.length) 0 >>= _) = _
  rw [hnone, ok_bind, hextraNone, ok_bind]
  show (checkedAdd s.p (46 + m.name.length + 0 + 0) _ >>= _) = _
  rw [hnext, ok_bind, require_of _ hwithin, ok_bind, readLocal_stored hms, ok_bind]
  dsimp only
  rw [require_of _ hstop, ok_bind]
  show (memberAt inflate expected (storedHeader m) m.name m.data s.member >>= _) = _
  rw [memberAt_stored]
  rfl

def takenFrom : List StoredMember -> Option Bytes -> Except ArchiveError (Option Bytes)
  | [], member => .ok member
  | m :: ms, member => takenAt expected m member >>= takenFrom ms

/-- The walk along the rest of the directory ends with what is taken, or fails as that does,
if no name comes twice. -/
theorem scanMembers_stored (pre post : List StoredMember) (hms : Admissible (pre ++ post))
    (hdistinct : (lowerNames (pre ++ post)).Nodup)
    (hcentral : e.central = (locals (pre ++ post)).length)
    (hplace : e.place = e.central + (centrals 0 (pre ++ post)).length)
    (hs : Gathered (pre ++ post) pre s) :
    match takenFrom expected post s.member with
    | .error err =>
        scanMembers inflate (archiveOf (pre ++ post)) expected e post.length s = .error err
    | .ok member =>
        exists s', scanMembers inflate (archiveOf (pre ++ post)) expected e post.length s = .ok s' ∧
          Gathered (pre ++ post) (pre ++ post) s' ∧ s'.member = member := by
  induction post generalizing pre s with
  | nil =>
      show exists s', _
      refine ⟨s, rfl, ?_, rfl⟩
      rw [append_nil] at hs ⊢
      exact hs
  | cons m post ih =>
      have hstep := scanMember_stored inflate expected hms hcentral hplace hs
      have hnew : (!s.names.contains (lowerName m.name)) = true := by
        unfold lowerNames at hdistinct
        rw [map_append, map_cons, nodup_append] at hdistinct
        rw [Bool.not_eq_true', ← Bool.not_eq_true, contains_iff_mem, hs.names,
          mem_reverse]
        intro hmem
        exact hdistinct.right.right _ hmem _ mem_cons_self rfl
      have hscan : scanMembers inflate (archiveOf (pre ++ m :: post)) expected e
          (m :: post).length s = (scanMember inflate (archiveOf (pre ++ m :: post)) expected e s >>=
            scanMembers inflate (archiveOf (pre ++ m :: post)) expected e post.length) := rfl
      have htaken : takenFrom expected (m :: post) s.member =
          (takenAt expected m s.member >>= takenFrom expected post) := rfl
      rw [hscan, htaken, hstep, require_of _ hnew, ok_bind]
      cases takenAt expected m s.member with
      | error err => rfl
      | ok member =>
          have hnext := gathered_behind (m := m) hs member
          have hsplit : pre ++ m :: post = (pre ++ [m]) ++ post := by
            rw [append_assoc]
            rfl
          rw [hsplit] at hms hdistinct hcentral hplace hnext ⊢
          exact ih (pre ++ [m]) hms hdistinct hcentral hplace hnext

theorem scanMembers_duplicate (pre post : List StoredMember) (hms : Admissible (pre ++ post))
    (hpre : (lowerNames pre).Nodup) (hduplicate : ¬ (lowerNames (pre ++ post)).Nodup)
    (hcentral : e.central = (locals (pre ++ post)).length)
    (hplace : e.place = e.central + (centrals 0 (pre ++ post)).length)
    (hs : Gathered (pre ++ post) pre s) :
    exists err,
      scanMembers inflate (archiveOf (pre ++ post)) expected e post.length s = .error err := by
  induction post generalizing pre s with
  | nil =>
      rw [append_nil] at hduplicate
      exact absurd hpre hduplicate
  | cons m post ih =>
      have hstep := scanMember_stored inflate expected hms hcentral hplace hs
      have hscan : scanMembers inflate (archiveOf (pre ++ m :: post)) expected e
          (m :: post).length s = (scanMember inflate (archiveOf (pre ++ m :: post)) expected e s >>=
            scanMembers inflate (archiveOf (pre ++ m :: post)) expected e post.length) := rfl
      rw [hscan, hstep]
      by_cases hnew : (!s.names.contains (lowerName m.name)) = true
      · rw [require_of _ hnew, ok_bind]
        cases takenAt expected m s.member with
        | error err => exact ⟨err, rfl⟩
        | ok member =>
            have hnext := gathered_behind (m := m) hs member
            have hsplit : pre ++ m :: post = (pre ++ [m]) ++ post := by
              rw [append_assoc]
              rfl
            have hpre' : (lowerNames (pre ++ [m])).Nodup := by
              rw [Bool.not_eq_true', ← Bool.not_eq_true, contains_iff_mem, hs.names,
                mem_reverse] at hnew
              unfold lowerNames
              rw [map_append, nodup_append]
              refine ⟨hpre, pairwise_singleton _ _, ?_⟩
              intro name hname name' hname' heq
              rw [heq, mem_singleton.mp hname'] at hname
              exact hnew hname
            rw [hsplit] at hms hduplicate hcentral hplace hnext ⊢
            exact ih (pre ++ [m]) hms hpre' hduplicate hcentral hplace hnext
      · refine ⟨{ why := "duplicate member name" }, ?_⟩
        unfold require
        rw [if_neg hnew]
        rfl

theorem takenFrom_others {ms : List StoredMember} (member : Option Bytes)
    (h : forall m, m ∈ ms -> lowerName m.name ≠ lowerName expected) :
    takenFrom expected ms member = .ok member := by
  induction ms with
  | nil => rfl
  | cons m ms ih =>
      show (takenAt expected m member >>= takenFrom expected ms) = .ok member
      unfold takenAt
      rw [if_neg (h m mem_cons_self), ok_bind]
      exact ih (fun m' hm' => h m' (mem_cons_of_mem m hm'))

theorem takenFrom_message {before after : List StoredMember}
    (hname : lowerName m.name = lowerName expected)
    (hbefore : forall m', m' ∈ before -> lowerName m'.name ≠ lowerName expected)
    (hafter : forall m', m' ∈ after -> lowerName m'.name ≠ lowerName expected) :
    takenFrom expected (before ++ m :: after) none =
      if crc32 m.data = m.crc then .ok (some m.data) else .error { why := "CRC mismatch" } := by
  induction before with
  | nil =>
      show (takenAt expected m none >>= takenFrom expected after) = _
      unfold takenAt
      rw [if_pos hname]
      by_cases hcrc : crc32 m.data = m.crc
      · rw [if_pos hcrc, ok_bind]
        exact takenFrom_others expected (some m.data) hafter
      · rw [if_neg hcrc]
        rfl
  | cons first before ih =>
      show (takenAt expected first none >>= takenFrom expected (before ++ m :: after)) = _
      unfold takenAt
      rw [if_neg (hbefore first mem_cons_self), ok_bind]
      exact ih (fun m' hm' => hbefore m' (mem_cons_of_mem first hm'))

end Walk

/-!
## The whole archive
-/

theorem find?_reverse_range {p : Nat -> Bool} {last : Nat} (h : p last = true) :
    (List.range (last + 1)).reverse.find? p = some last := by
  rw [range_succ, reverse_append, reverse_singleton]
  exact find?_cons_of_pos h

theorem gathered_start (ms : List StoredMember) : Gathered ms [] { p := (locals ms).length } := by
  constructor
  · rfl
  · exact Nat.le_refl 0
  · rfl
  · rfl
  · exact Pairwise.nil
  · intro r hr
    cases hr

section Archive

variable {ms : List StoredMember} (hms : Admissible ms)

include hms

theorem laid_end : Laid (archiveOf ms) ((locals ms).length + (centrals 0 ms).length)
      (endFields ms.length (centrals 0 ms).length (locals ms).length) endWidths := by
  constructor
  · exact length_endFields _ _ _
  · exact hms.lengths.right
  · refine ⟨locals ms ++ centrals 0 ms, [], ?_, length_append⟩
    rw [append_nil, append_assoc]
    rfl

theorem endPlace_stored :
    endPlace (archiveOf ms) = .ok ((locals ms).length + (centrals 0 ms).length) := by
  have hlaid := laid_end hms
  have hlength := length_archiveOf ms
  have hcomment := hlaid.u16At 7 20 0 rfl rfl rfl (by decide) (by decide)
  have hsignature : bytesAt (archiveOf ms) ((locals ms).length + (centrals 0 ms).length) 4 =
      .ok (Codec.littleEndian 4 0x06054b50) := hlaid.bytesAt 0 0 4 rfl rfl rfl (by decide)
  rw [bytesAt_of hlaid.small (by omega)] at hsignature
  have hend : isEnd (archiveOf ms) ((locals ms).length + (centrals 0 ms).length) = true := by
    unfold isEnd
    rw [hcomment, Bool.and_eq_true]
    constructor
    · rw [Except.ok.inj hsignature]
      decide
    · show ((locals ms).length + (centrals 0 ms).length + 22 + 0 == (archiveOf ms).length) = true
      rw [hlength]
      exact beq_self_eq_true _
  have hmost : 22 <= maxEndBytes := by decide
  have hreach : decide ((archiveOf ms).length <=
      (locals ms).length + (centrals 0 ms).length + maxEndBytes) = true :=
    decide_eq_true (by omega)
  have hrange : (archiveOf ms).length - 21 = (locals ms).length + (centrals 0 ms).length + 1 := by
    omega
  have hfind : findEnd (archiveOf ms) = some ((locals ms).length + (centrals 0 ms).length) := by
    unfold findEnd
    rw [hrange]
    apply find?_reverse_range
    rw [hreach, hend]
    rfl
  unfold endPlace
  rw [hfind]

theorem readEnd_stored :
    readEnd (archiveOf ms) =
      .ok { place := (locals ms).length + (centrals 0 ms).length,
            count := ms.length,
            central := (locals ms).length } := by
  have hlaid := laid_end hms
  have hlengths := hms.lengths.left
  have hcount : ms.length <= 32 := hms.count
  have hpos : 0 < ms.length := length_pos_iff.mpr hms.some
  have hdisk := hlaid.u16At 1 4 0 rfl rfl rfl (by decide) (by decide)
  have hcentralDisk := hlaid.u16At 2 6 0 rfl rfl rfl (by decide) (by decide)
  have hdiskCount := hlaid.u16At 3 8 _ rfl rfl rfl (by decide) (by omega)
  have hall := hlaid.u16At 4 10 _ rfl rfl rfl (by decide) (by omega)
  have hsize := hlaid.u32At 5 12 _ rfl rfl rfl (by decide) (by omega)
  have hplace := hlaid.u32At 6 16 _ rfl rfl rfl (by decide) (by omega)
  have hentries : (decide (0 < ms.length) && decide (ms.length <= maxEntries) &&
      ms.length == ms.length) = true := by
    rw [decide_eq_true hpos, decide_eq_true hms.count, beq_self_eq_true]
    rfl
  have hbounds : (decide ((locals ms).length <= (archiveOf ms).length) &&
      (locals ms).length + (centrals 0 ms).length ==
        (locals ms).length + (centrals 0 ms).length) = true := by
    have hlength := length_archiveOf ms
    rw [decide_eq_true (by omega), beq_self_eq_true]
    rfl
  unfold readEnd
  rw [endPlace_stored hms, ok_bind, hdisk, ok_bind, hcentralDisk, ok_bind, require_of _ (by rfl), ok_bind, hall, ok_bind,
    hdiskCount, ok_bind, require_of _ hentries, ok_bind, hsize, ok_bind, hplace, ok_bind,
    require_of _ hbounds, ok_bind]

variable (inflate : Bytes -> Nat -> Option (Bool × Nat × Bytes)) {bbsId : List Char}
  (hid : isValidId bbsId = true)

include hid

theorem readMember_stored (hdistinct : (lowerNames ms).Nodup) :
    readMember inflate (archiveOf ms) bbsId =
      (takenFrom (utf8 (bbsId ++ ".MSG".toList)) ms none >>= fun member =>
        match member with
        | some member => .ok member
        | none => .error { why := "expected BBS message member missing" }) := by
  have hscan := scanMembers_stored inflate (utf8 (bbsId ++ ".MSG".toList)) [] ms hms hdistinct
    (e := { place := (locals ms).length + (centrals 0 ms).length, count := ms.length,
            central := (locals ms).length }) rfl rfl (gathered_start ms)
  unfold readMember
  rw [require_of _ (decide_eq_true hms.sized), ok_bind, require_of _ hid, ok_bind,
    readEnd_stored hms, ok_bind]
  dsimp only
  rw [nil_append] at hscan
  cases htaken : takenFrom (utf8 (bbsId ++ ".MSG".toList)) ms none with
  | error err =>
      rw [htaken] at hscan
      rw [hscan]
      rfl
  | ok member =>
      rw [htaken] at hscan
      rcases hscan with ⟨s', hs', hgathered, hmember⟩
      have hsorted : sortRanges s'.ranges = s'.ranges := by
        apply mergeSort_of_pairwise
        exact hgathered.ascending.imp (fun hlt => by
          rw [Bool.or_eq_true]
          exact Or.inl (decide_eq_true hlt))
      rw [hs', ok_bind, hgathered.p, require_of _ (beq_self_eq_true _), ok_bind, hsorted,
        hgathered.accounted, ok_bind, require_of _ (beq_self_eq_true _), ok_bind]
      cases member with
      | none | some member => simp only [hmember, ok_bind]

theorem readMember_duplicate (hduplicate : ¬ (lowerNames ms).Nodup) :
    exists err, readMember inflate (archiveOf ms) bbsId = .error err := by
  have hscan := scanMembers_duplicate inflate (utf8 (bbsId ++ ".MSG".toList)) [] ms hms
    nodup_nil hduplicate
    (e := { place := (locals ms).length + (centrals 0 ms).length, count := ms.length,
            central := (locals ms).length }) rfl rfl (gathered_start ms)
  rcases hscan with ⟨err, herr⟩
  refine ⟨err, ?_⟩
  unfold readMember
  rw [require_of _ (decide_eq_true hms.sized), ok_bind, require_of _ hid, ok_bind,
    readEnd_stored hms, ok_bind]
  dsimp only
  rw [nil_append] at herr
  rw [herr]
  rfl

end Archive

end Rabbithole.Qwk
