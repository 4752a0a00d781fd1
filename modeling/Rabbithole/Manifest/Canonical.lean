import Rabbithole.Manifest.Cbor

/-!
# One encoding a manifest

The bytes of a manifest, limits apart.  The writer writes them when they are within the
limits; the reader reads them back, and reads nothing else.
-/

namespace Rabbithole.Manifest

open Foundation List Codec Reading
open Writer (headBytes)

/-!
## Numbers
-/

theorem bigEndian_eq_highFirst (count n : Nat) : bigEndian count n = Codec.highFirst count n := by
  induction count generalizing n with
  | zero => rfl
  | succ count ih =>
      rw [highFirst_succ, <- ih]
      rfl

theorem length_bigEndian (count n : Nat) : (bigEndian count n).length = count := by
  rw [bigEndian_eq_highFirst, length_highFirst]

theorem ofBigEndian_bigEndian {count n : Nat} (h : n < 256 ^ count) :
    ofBigEndian (bigEndian count n) = n := by
  rw [bigEndian_eq_highFirst]
  exact (ofHighFirst_highFirst count n).trans (Nat.mod_eq_of_lt h)

theorem bigEndian_ofBigEndian (bytes : Bytes) :
    bigEndian bytes.length (ofBigEndian bytes) = bytes := by
  rw [bigEndian_eq_highFirst]
  exact highFirst_ofHighFirst bytes

/-!
## The first byte of a head
-/

set_option maxRecDepth 8000 in
theorem initial_split (b : UInt8) : ((b >>> 5) <<< 5) ||| (b &&& 31) = b := by
  have hall : forall n : Fin 256,
      ((UInt8.ofNat n >>> 5) <<< 5) ||| (UInt8.ofNat n &&& 31) = UInt8.ofNat n := by
    decide
  have hb := hall ⟨b.toNat, b.toNat_lt⟩
  rw [UInt8.ofNat_toNat] at hb
  exact hb

theorem initial_parts {major info : UInt8} (hmajor : major.toNat < 8) (hinfo : info.toNat < 32) :
    ((major <<< 5) ||| info) >>> 5 = major ∧ ((major <<< 5) ||| info) &&& 31 = info := by
  have hall : forall (m : Fin 8) (i : Fin 32),
      ((UInt8.ofNat m <<< 5) ||| UInt8.ofNat i) >>> 5 = UInt8.ofNat m ∧
        ((UInt8.ofNat m <<< 5) ||| UInt8.ofNat i) &&& 31 = UInt8.ofNat i := by
    decide
  have hparts := hall ⟨major.toNat, hmajor⟩ ⟨info.toNat, hinfo⟩
  simp only [UInt8.ofNat_toNat] at hparts
  exact hparts

open Reader in
theorem exists_argument {v : Nat} (hbig : 23 < v) (hv : v < 2 ^ 64) :
    exists info length minimum, argument info = some (length, minimum) ∧
      minimum <= v ∧ v < 256 ^ length := by
  rcases Nat.lt_or_ge v 256 with h | h
  · exact ⟨24, 1, 24, rfl, by omega, by omega⟩
  · rcases Nat.lt_or_ge v 65536 with h | h
    · exact ⟨25, 2, 256, rfl, by omega, by omega⟩
    · rcases Nat.lt_or_ge v 4294967296 with h | h
      · exact ⟨26, 4, 65536, rfl, by omega, by omega⟩
      · exact ⟨27, 8, 4294967296, rfl, by omega, by omega⟩

open Reader in
theorem headBytes_of_argument {info : UInt8} {length minimum v : Nat} (major : UInt8)
    (hargument : argument info = some (length, minimum)) (hminimum : minimum <= v)
    (hv : v < 256 ^ length) :
    headBytes major v = ((major <<< 5) ||| info) :: bigEndian length v ∧ info.toNat < 32 ∧
      ¬ info <= 23 ∧ length <= 8 := by
  unfold argument at hargument
  unfold headBytes
  split at hargument
  · rename_i hinfo
    cases hargument
    subst hinfo
    rw [if_neg (by omega), if_pos (by omega)]
    exact ⟨rfl, by decide, by decide, by decide⟩
  · split at hargument
    · rename_i hinfo
      cases hargument
      subst hinfo
      rw [if_neg (by omega), if_neg (by omega), if_pos (by omega)]
      exact ⟨rfl, by decide, by decide, by decide⟩
    · split at hargument
      · rename_i hinfo
        cases hargument
        subst hinfo
        rw [if_neg (by omega), if_neg (by omega), if_neg (by omega), if_pos (by omega)]
        exact ⟨rfl, by decide, by decide, by decide⟩
      · split at hargument
        · rename_i hinfo
          cases hargument
          subst hinfo
          rw [if_neg (by omega), if_neg (by omega), if_neg (by omega), if_neg (by omega)]
          exact ⟨rfl, by decide, by decide, by decide⟩
        · cases hargument

/-!
## What each reader reads
-/

namespace Reader

def rest (s : Reader) : Bytes :=
  s.bytes.drop s.offset

/-- The place is in the input. -/
def Fits (s : Reader) : Prop :=
  s.offset <= s.bytes.length

theorem length_rest (s : Reader) : s.rest.length = s.remaining := by
  unfold rest remaining
  rw [length_drop]

theorem fits_advance {s : Reader} {count : Nat} (h : s.Fits) (henough : ¬ s.remaining < count) :
    (s.advance count).Fits := by
  unfold Fits at h ⊢
  unfold remaining at henough
  unfold advance
  simp only []
  omega

theorem rest_advance (s : Reader) (count : Nat) : (s.advance count).rest = s.rest.drop count := by
  unfold rest advance
  simp only []
  rw [drop_drop]

theorem exact_take (count : Nat) :
    Exact rest Fits (take count) id (fun bytes => bytes.length = count) where
  sound := by
    intro s s' bytes hs h
    have hlength := s.length_rest
    unfold take at h
    split at h
    · cases h
    · rename_i henough
      cases h
      refine ⟨fits_advance hs henough, ?_, ?_⟩
      · have htake : (s.rest.take count).length = count := by
          rw [length_take]
          omega
        exact htake
      · rw [rest_advance]
        exact (take_append_drop count s.rest).symm
  complete := by
    intro s bytes behind hs hlength hrest
    have henough : ¬ s.remaining < count := by
      rw [← length_rest, hrest, length_append]
      simp only [id]
      omega
    refine ⟨s.advance count, ?_, fits_advance hs henough, ?_⟩
    · have htake : s.rest.take count = bytes := by
        rw [hrest, ← hlength]
        exact take_left
      unfold take
      rw [if_neg henough]
      show (Except.ok (s.rest.take count), _) = _
      rw [htake]
    · rw [rest_advance, hrest, ← hlength]
      exact drop_left

theorem exact_argument (length minimum : Nat) : Exact rest Fits
      (Reading.bind (take length) (fun bytes =>
        if ofBigEndian bytes < minimum then Reading.fail (invalid "non-shortest argument")
        else Reading.pure (ofBigEndian bytes)))
      (bigEndian length) (fun v => minimum <= v ∧ v < 256 ^ length) where
  sound := by
    intro s s' v hs h
    rcases bind_ok h with ⟨bytes, mid, htake, hthen⟩
    rcases (exact_take length).sound hs htake with ⟨hmid, hlength, hrest⟩
    split at hthen
    · cases hthen
    · rename_i hminimum
      cases hthen
      have hlt : ofBigEndian bytes < 256 ^ bytes.length := ofHighFirst_lt bytes
      have hback := bigEndian_ofBigEndian bytes
      rw [hlength] at hlt hback
      rw [hback]
      exact ⟨hmid, ⟨Nat.le_of_not_lt hminimum, hlt⟩, hrest⟩
  complete := by
    intro s v behind hs hv hrest
    rcases (exact_take length).complete hs (length_bigEndian length v) hrest with
      ⟨s', htake, hs', hbehind⟩
    refine ⟨s', ?_, hs', hbehind⟩
    rw [bind_of_ok htake, ofBigEndian_bigEndian hv.right,
      if_neg (Nat.not_lt_of_le hv.left)]
    rfl

theorem exact_head {major : UInt8} (hmajor : major.toNat < 8) :
    Exact rest Fits (head major) (headBytes major) (fun v => v < 2 ^ 64) where
  sound := by
    intro s s' v hs h
    rcases bind_ok h with ⟨first, mid, htake, hthen⟩
    rcases (exact_take 1).sound hs htake with ⟨hmid, hlength, hrest⟩
    rcases length_eq_one_iff.mp hlength with ⟨initial, rfl⟩
    replace hthen : headValue major initial mid = (.ok v, s') := hthen
    unfold headValue at hthen
    rcases eq_or_ne (initial >>> 5) major with htype | htype
    · rw [if_neg (not_not.mpr htype)] at hthen
      have hinitial := initial_split initial
      rw [htype] at hinitial
      by_cases hsmall : initial &&& 31 <= 23
      · rw [if_pos hsmall] at hthen
        cases hthen
        have hle : (initial &&& 31).toNat <= 23 := UInt8.le_iff_toNat_le.mp hsmall
        refine ⟨hmid, by omega, ?_⟩
        unfold headBytes
        rw [if_pos hle, UInt8.ofNat_toNat, hinitial, hrest]
        rfl
      · rw [if_neg hsmall] at hthen
        cases hargument : argument (initial &&& 31) with
        | none =>
            rw [hargument] at hthen
            cases hthen
        | some bounds =>
            rcases bounds with ⟨length, minimum⟩
            rw [hargument] at hthen
            rcases (exact_argument length minimum).sound hmid hthen with
              ⟨hs', ⟨hminimum, hlt⟩, hrest'⟩
            rcases headBytes_of_argument major hargument hminimum hlt with
              ⟨hbytes, _, _, hshort⟩
            have hpow : 256 ^ length <= 256 ^ 8 := Nat.pow_le_pow_right (by decide) hshort
            refine ⟨hs', by omega, ?_⟩
            rw [hbytes, hinitial, hrest, hrest']
            rfl
    · rw [if_pos htype] at hthen
      cases hthen
  complete := by
    intro s v behind hs hv hrest
    rcases Nat.lt_or_ge 23 v with hbig | hsmall
    · rcases exists_argument hbig hv with ⟨info, length, minimum, hargument, hminimum, hlt⟩
      rcases headBytes_of_argument major hargument hminimum hlt with ⟨hbytes, hinfo, hlarge, _⟩
      rcases initial_parts hmajor hinfo with ⟨htype, hsame⟩
      rw [hbytes, cons_append] at hrest
      have hone : [(major <<< 5) ||| info].length = 1 := rfl
      rcases (exact_take 1).complete hs hone hrest with ⟨mid, htake, hmid, hrest'⟩
      rcases (exact_argument length minimum).complete hmid ⟨hminimum, hlt⟩ hrest' with
        ⟨s', hthen, hs', hbehind⟩
      refine ⟨s', ?_, hs', hbehind⟩
      show Reading.bind (take 1) _ s = _
      rw [bind_of_ok htake]
      show headValue major ((major <<< 5) ||| info) mid = _
      unfold headValue
      rw [if_neg (not_not.mpr htype), hsame, if_neg hlarge, hargument]
      exact hthen
    · have hlow : (UInt8.ofNat v).toNat = v := by
        rw [UInt8.toNat_ofNat']
        omega
      rcases initial_parts hmajor (by rw [hlow]; omega : (UInt8.ofNat v).toNat < 32) with
        ⟨htype, hsame⟩
      have hle : UInt8.ofNat v <= 23 := by
        rw [UInt8.le_iff_toNat_le, hlow]
        exact hsmall
      unfold headBytes at hrest
      rw [if_pos hsmall] at hrest
      have hone : [(major <<< 5) ||| UInt8.ofNat v].length = 1 := rfl
      rcases (exact_take 1).complete hs hone hrest with ⟨s', htake, hs', hbehind⟩
      refine ⟨s', ?_, hs', hbehind⟩
      show Reading.bind (take 1) _ s = _
      rw [bind_of_ok htake]
      show headValue major ((major <<< 5) ||| UInt8.ofNat v) s' = _
      unfold headValue
      rw [if_neg (not_not.mpr htype), hsame, if_pos hle, hlow]
      rfl

theorem exact_exact {major : UInt8} {expected : Nat} (hmajor : major.toNat < 8)
    (hexpected : expected < 2 ^ 64) :
    Exact rest Fits (exact major expected) (fun _ => headBytes major expected) (fun _ => True) where
  sound := by
    intro s s' u hs h
    rcases bind_ok h with ⟨v, mid, hhead, hthen⟩
    rcases (exact_head hmajor).sound hs hhead with ⟨hmid, _, hrest⟩
    split at hthen
    · cases hthen
    · rename_i hsame
      cases hthen
      rw [← not_not.mp hsame]
      exact ⟨hmid, trivial, hrest⟩
  complete := by
    intro s u behind hs _ hrest
    rcases (exact_head hmajor).complete hs hexpected hrest with ⟨s', hhead, hs', hbehind⟩
    refine ⟨s', ?_, hs', hbehind⟩
    show Reading.bind (head major) _ s = _
    rw [bind_of_ok hhead, if_neg (not_not.mpr rfl)]
    rfl

end Reader

/-!
## The bytes of a manifest
-/

def textBytes (text : String) : Bytes :=
  headBytes 3 (Codec.bytesOf text).length ++ Codec.bytesOf text

def fileBytes (file : ManifestFile) : Bytes :=
  headBytes 4 4 ++ (textBytes file.path ++ (headBytes 0 file.size.toNat ++
    (headBytes 2 32 ++ (file.root.val ++ textBytes file.mime))))

def manifestBytes (manifest : Manifest) : Bytes :=
  headBytes 5 4 ++ (headBytes 0 0 ++ (headBytes 0 manifestCborVersion ++ (headBytes 0 1 ++
    (textBytes manifest.name ++ (headBytes 0 2 ++ (headBytes 0 manifest.chunkSize.toNat ++
      (headBytes 0 3 ++ (headBytes 4 manifest.files.length ++
        manifest.files.flatMap fileBytes))))))))

/-- The length of a text has an argument. -/
def TextFits (text : String) : Prop :=
  (Codec.bytesOf text).length < 2 ^ 64

def FileFits (file : ManifestFile) : Prop :=
  TextFits file.path ∧ TextFits file.mime

def ManifestFits (manifest : Manifest) : Prop :=
  TextFits manifest.name ∧ manifest.files.length <= maxManifestCborFiles ∧
    forall file, file ∈ manifest.files -> FileFits file

theorem length_headBytes_pos (major : UInt8) (value : Nat) :
    1 <= (headBytes major value).length := by
  unfold headBytes
  split
  · exact Nat.le_refl 1
  · split
    · exact Nat.le_add_left 1 _
    · split
      · exact Nat.le_add_left 1 _
      · split
        all_goals exact Nat.le_add_left 1 _

theorem length_textBytes_pos (text : String) : 1 <= (textBytes text).length := by
  have hhead := length_headBytes_pos 3 (Codec.bytesOf text).length
  unfold textBytes
  rw [length_append]
  omega

theorem length_fileBytes (file : ManifestFile) : 38 <= (fileBytes file).length := by
  have hpath := length_textBytes_pos file.path
  have hmime := length_textBytes_pos file.mime
  have hsize := length_headBytes_pos 0 file.size.toNat
  have hrecord : (headBytes 4 4).length = 1 := rfl
  have hroot : (headBytes 2 32).length = 2 := rfl
  unfold fileBytes
  simp only [length_append, hrecord, hroot, file.root.property]
  omega

theorem length_flatMap_fileBytes (files : List ManifestFile) :
    files.length * 38 <= (files.flatMap fileBytes).length := by
  induction files with
  | nil => exact Nat.le_refl 0
  | cons file files ih =>
      have hfile := length_fileBytes file
      rw [flatMap_cons, length_append, length_cons]
      omega

namespace Reader

theorem exact_bytes_text (length : Nat) : Exact rest Fits (Reading.bind (take length) (fun bytes =>
        match Codec.textOf? bytes with
        | none => Reading.fail (invalid "invalid UTF-8")
        | some text => Reading.pure text))
      Codec.bytesOf (fun text => (Codec.bytesOf text).length = length) where
  sound := by
    intro s s' text hs h
    rcases bind_ok h with ⟨bytes, mid, htake, hthen⟩
    rcases (exact_take length).sound hs htake with ⟨hmid, hlength, hrest⟩
    cases htext : Codec.textOf? bytes with
    | none =>
        rw [htext] at hthen
        cases hthen
    | some found =>
        rw [htext] at hthen
        cases hthen
        rw [bytesOf_of_textOf? htext]
        exact ⟨hmid, hlength, hrest⟩
  complete := by
    intro s text behind hs hlength hrest
    rcases (exact_take length).complete hs hlength hrest with ⟨s', htake, hs', hbehind⟩
    refine ⟨s', ?_, hs', hbehind⟩
    rw [bind_of_ok htake, textOf?_bytesOf]
    rfl

theorem exact_text : Exact rest Fits text textBytes TextFits := by
  have hbody : forall length : Nat, length < 2 ^ 64 -> Exact rest Fits
      (Reading.bind
        (Reading.require (fun s => decide (length <= s.remaining)) (invalid "truncated text"))
        (fun _ => Reading.bind (take length) (fun bytes =>
          match Codec.textOf? bytes with
          | none => Reading.fail (invalid "invalid UTF-8")
          | some text => Reading.pure text)))
      Codec.bytesOf (fun text => True ∧ (Codec.bytesOf text).length = length) := by
    intro length _
    apply (exact_bytes_text length).require (fun s => decide (length <= s.remaining))
    · intro s _
      trivial
    · intro s text behind _ _ hlength hrest
      apply decide_eq_true
      rw [← length_rest, hrest, length_append, hlength]
      exact Nat.le_add_right length behind.length
  have hall := (exact_head (by decide : (3 : UInt8).toNat < 8)).bind hbody
    (fun text => (Codec.bytesOf text).length) (fun _ _ _ htext => htext.right)
  apply hall.congr
  · intro text
    constructor
    · intro h
      exact h.left
    · intro h
      exact ⟨h, trivial, rfl⟩
  · intro text _
    rfl

theorem exact_root : Exact rest Fits root Subtype.val (fun _ => True) where
  sound := by
    intro s s' r hs h
    rcases bind_ok h with ⟨bytes, mid, htake, hthen⟩
    rcases (exact_take 32).sound hs htake with ⟨hmid, hlength, hrest⟩
    rw [dif_pos hlength] at hthen
    cases hthen
    exact ⟨hmid, trivial, hrest⟩
  complete := by
    intro s r behind hs _ hrest
    rcases (exact_take 32).complete hs r.property hrest with ⟨s', htake, hs', hbehind⟩
    refine ⟨s', ?_, hs', hbehind⟩
    show Reading.bind (take 32) _ s = _
    rw [bind_of_ok htake, dif_pos r.property]
    rfl

theorem exact_file : Exact rest Fits file fileBytes FileFits := by
  have hmime := fun (path : String) (size : Nat) (root : Root) =>
    exact_text.bind
      (fun mime _ => exact_pure (⟨path, UInt64.ofNat size, root, mime⟩ : ManifestFile))
      ManifestFile.mime (by rintro mime _ _ rfl; rfl)
  have hroot := fun (path : String) (size : Nat) =>
    exact_root.bind (fun root _ => hmime path size root)
      ManifestFile.root (by rintro root file _ ⟨_, heq⟩; rw [heq])
  have hsize := fun (path : String) =>
    (exact_head (by decide : (0 : UInt8).toNat < 8)).bind
      (fun size _ => (exact_exact (by decide : (2 : UInt8).toNat < 8)
        (by decide : 32 < 2 ^ 64)).bind (fun _ _ => hroot path size)
        (fun _ => ()) (fun _ _ _ _ => rfl))
      (fun file => file.size.toNat)
      (by
        rintro size file hsize ⟨_, _, _, heq⟩
        rw [heq]
        exact UInt64.toNat_ofNat_of_lt' hsize)
  have hpath := exact_text.bind (fun path _ => hsize path) ManifestFile.path
    (by rintro path file _ ⟨_, _, _, _, heq⟩; rw [heq])
  have hall := (exact_exact (by decide : (4 : UInt8).toNat < 8)
    (by decide : 4 < 2 ^ 64)).bind (fun _ _ => hpath) (fun _ => ()) (fun _ _ _ _ => rfl)
  apply hall.congr
  · intro file
    constructor
    · rintro ⟨_, hpath, _, _, _, hmime, _⟩
      exact ⟨hpath, hmime⟩
    · rintro ⟨hpath, hmime⟩
      refine ⟨trivial, hpath, file.size.toNat_lt, trivial, trivial, hmime, ?_⟩
      rw [UInt64.ofNat_toNat]
  · intro file _
    simp only [append_nil]
    rfl

/-- The list of files, with the checks on its length. -/
theorem exact_files (name : String) (chunkSize : Nat) : Exact rest Fits
      (Reading.bind (head 4) (fun count =>
        Reading.bind
          (Reading.require (fun _ => decide (count <= maxManifestCborFiles))
            (fun _ => .limit "file count"))
          (fun _ => Reading.bind
            (Reading.require (fun s => decide (count <= s.remaining / 38))
              (invalid "truncated file records"))
            (fun _ => Reading.bind (reserve count)
              (fun _ => Reading.bind (Reading.many file count)
                (fun files => Reading.pure
                  (⟨name, UInt32.ofNat chunkSize, files⟩ : Manifest)))))))
      (fun m => headBytes 4 m.files.length ++ m.files.flatMap fileBytes)
      (fun m => m.files.length <= maxManifestCborFiles ∧
        (forall file, file ∈ m.files -> FileFits file) ∧
        m = ⟨name, UInt32.ofNat chunkSize, m.files⟩) := by
  have hmany := fun count : Nat =>
    ((exact_file.many count).bind
      (fun files _ => exact_pure (⟨name, UInt32.ofNat chunkSize, files⟩ : Manifest))
      Manifest.files (by rintro files _ _ rfl; rfl)).update
      (fun s => { s with reserved := (count, s.remaining) :: s.reserved })
      (fun _ => rfl) (fun _ hs => hs)
  have hroom := fun count : Nat =>
    (hmany count).require (fun s => decide (count <= s.remaining / 38))
      (invalid "truncated file records") (fun _ => trivial)
      (by
        rintro s m behind _ _ ⟨⟨hcount, _⟩, _⟩ hrest
        have hlength := length_flatMap_fileBytes m.files
        apply decide_eq_true
        rw [← length_rest, hrest, Nat.le_div_iff_mul_le (by decide), length_append,
          length_append]
        omega)
  have hlimit := fun count : Nat =>
    (hroom count).require (fun _ => decide (count <= maxManifestCborFiles))
      (fun _ => .limit "file count") of_decide_eq_true (fun h _ _ _ => decide_eq_true h)
  have hall := (exact_head (by decide : (4 : UInt8).toNat < 8)).bind (fun count _ => hlimit count)
    (fun m => m.files.length) (by rintro count m _ ⟨_, _, ⟨hcount, _⟩, _⟩; exact hcount)
  apply hall.congr
  · intro m
    constructor
    · rintro ⟨_, hcount, _, ⟨_, hfiles⟩, heq⟩
      exact ⟨hcount, hfiles, heq⟩
    · rintro ⟨hcount, hfiles, heq⟩
      have hsmall : m.files.length < 2 ^ 64 :=
        Nat.lt_of_le_of_lt hcount (by decide)
      exact ⟨hsmall, hcount, trivial, ⟨rfl, hfiles⟩, heq⟩
  · intro m _
    simp only [append_nil]

theorem exact_manifest : Exact rest Fits manifest manifestBytes ManifestFits := by
  have hkey := fun (key : Nat) (h : key < 2 ^ 64) =>
    exact_exact (by decide : (0 : UInt8).toNat < 8) h
  have hnumber := exact_head (by decide : (0 : UInt8).toNat < 8)
  have hchunks := fun name : String =>
    (hkey 2 (by decide)).bind (fun _ _ =>
      hnumber.bind (fun chunkSize _ =>
        ((hkey 3 (by decide)).bind (fun _ _ => exact_files name chunkSize)
          (fun _ => ()) (fun _ _ _ _ => rfl)).require
          (fun _ => decide (chunkSize < 2 ^ 32)) (invalid "chunk size exceeds u32")
          of_decide_eq_true (fun h _ _ _ => decide_eq_true h))
        (fun m => m.chunkSize.toNat)
        (by
          rintro chunkSize m _ ⟨hsmall, _, _, _, heq⟩
          rw [heq]
          exact UInt32.toNat_ofNat_of_lt' hsmall))
      (fun _ => ()) (fun _ _ _ _ => rfl)
  have hname := (hkey 1 (by decide)).bind (fun _ _ =>
      exact_text.bind (fun name _ => hchunks name) Manifest.name
        (by rintro name m _ ⟨_, _, _, _, _, _, heq⟩; rw [heq]))
    (fun _ => ()) (fun _ _ _ _ => rfl)
  have hversion := hnumber.bind (fun version _ =>
      hname.require (fun _ => decide (version = manifestCborVersion)) (fun _ => .version version)
        of_decide_eq_true (fun h _ _ _ => decide_eq_true h))
    (fun _ => manifestCborVersion) (by rintro version m _ ⟨heq, _⟩; exact heq.symm)
  have hall := (exact_exact (by decide : (5 : UInt8).toNat < 8) (by decide : 4 < 2 ^ 64)).bind
    (fun _ _ => (hkey 0 (by decide)).bind (fun _ _ => hversion)
      (fun _ => ()) (fun _ _ _ _ => rfl))
    (fun _ => ()) (fun _ _ _ _ => rfl)
  apply hall.congr
  · intro m
    constructor
    · rintro ⟨_, _, _, _, _, hname, _, _, _, _, hcount, hfiles, _⟩
      exact ⟨hname, hcount, hfiles⟩
    · rintro ⟨hname, hcount, hfiles⟩
      have hchunk := m.chunkSize.toNat_lt
      refine ⟨trivial, trivial, by decide, rfl, trivial, hname, trivial, by omega, hchunk,
        trivial, hcount, hfiles, ?_⟩
      rw [UInt32.ofNat_toNat]
  · intro m _
    rfl

end Reader

/-!
## What the reader keeps to
-/

namespace Reader

/-- Nothing beyond the input was read, and the room made was for what could be behind. -/
structure Within (input : Bytes) (s : Reader) : Prop where
  bytes : s.bytes = input
  fits : s.offset <= input.length
  taken : forall part, part ∈ s.taken -> part.fst <= part.snd ∧ part.snd <= input.length
  reserved : forall room, room ∈ s.reserved ->
    room.fst * 38 <= room.snd ∧ room.snd <= input.length

variable {input : Bytes}

theorem within_new : Within input (new input) where
  bytes := rfl
  fits := Nat.zero_le _
  taken := fun _ h => nomatch h
  reserved := fun _ h => nomatch h

theorem keeps_take (count : Nat) : Keeps (Within input) (take count) := by
  intro s hs
  unfold take
  split
  · exact hs
  · rename_i henough
    have hend : s.offset + count <= input.length := by
      have hfits := hs.fits
      unfold remaining at henough
      rw [hs.bytes] at henough
      omega
    constructor
    · exact hs.bytes
    · exact hend
    · intro part hpart
      rcases mem_cons.mp hpart with rfl | hbefore
      · exact ⟨Nat.le_add_right s.offset count, hend⟩
      · exact hs.taken part hbefore
    · exact hs.reserved

theorem keeps_head (major : UInt8) : Keeps (Within input) (head major) := by
  apply (keeps_take 1).bind
  intro first
  unfold headValue
  split
  · exact keeps_fail _
  · split
    · exact keeps_pure _
    · split
      · exact keeps_fail _
      · rename_i length minimum _
        apply (keeps_take length).bind
        intro bytes
        split
        · exact keeps_fail _
        · exact keeps_pure _

theorem keeps_exact (major : UInt8) (expected : Nat) :
    Keeps (Within input) (exact major expected) := by
  apply (keeps_head major).bind
  intro value
  split
  · exact keeps_fail _
  · exact keeps_pure _

theorem keeps_text : Keeps (Within input) text := by
  apply (keeps_head 3).bind
  intro length
  apply Keeps.check
  apply (keeps_take length).bind
  intro bytes
  cases Codec.textOf? bytes with
  | none => exact keeps_fail _
  | some text => exact keeps_pure _

theorem keeps_root : Keeps (Within input) root := by
  apply (keeps_take 32).bind
  intro bytes
  split
  · exact keeps_pure _
  · exact keeps_fail _

theorem keeps_file : Keeps (Within input) file := by
  apply (keeps_exact 4 4).bind
  intro _
  apply keeps_text.bind
  intro path
  apply (keeps_head 0).bind
  intro size
  apply (keeps_exact 2 32).bind
  intro _
  apply keeps_root.bind
  intro root
  apply keeps_text.bind
  intro mime
  exact keeps_pure _

theorem within_reserve {s : Reader} {count : Nat} (hs : Within input s)
    (hroom : count <= s.remaining / 38) : Within input (reserve count s).snd where
  bytes := hs.bytes
  fits := hs.fits
  taken := hs.taken
  reserved := by
    intro room h
    rcases mem_cons.mp h with rfl | hbefore
    · have hleft : s.remaining <= input.length := by
        unfold remaining
        rw [hs.bytes]
        exact Nat.sub_le _ _
      exact ⟨(Nat.le_div_iff_mul_le (by decide)).mp hroom, hleft⟩
    · exact hs.reserved room hbefore

theorem keeps_manifest : Keeps (Within input) manifest := by
  apply (keeps_exact 5 4).bind
  intro _
  apply (keeps_exact 0 0).bind
  intro _
  apply (keeps_head 0).bind
  intro version
  apply Keeps.check
  apply (keeps_exact 0 1).bind
  intro _
  apply keeps_text.bind
  intro name
  apply (keeps_exact 0 2).bind
  intro _
  apply (keeps_head 0).bind
  intro chunkSize
  apply Keeps.check
  apply (keeps_exact 0 3).bind
  intro _
  apply (keeps_head 4).bind
  intro count
  apply Keeps.check
  apply Keeps.require
  intro s hs hroom
  have hfiles : Keeps (Within input) (Reading.bind (Reading.many file count)
      (fun files => Reading.pure (⟨name, UInt32.ofNat chunkSize, files⟩ : Manifest))) :=
    (keeps_file.many count).bind (fun _ => keeps_pure _)
  exact hfiles _ (within_reserve hs (of_decide_eq_true hroom))

theorem keeps_document : Keeps (Within input) document := by
  apply keeps_manifest.bind
  intro m
  apply Keeps.check
  exact keeps_pure m

end Reader

/-!
## What the writer writes
-/

/-- So many bytes more, if they are within the limit. -/
def Appends (f : Bytes -> Except ManifestCborError Bytes) (bytes : Bytes) : Prop :=
  forall out, out.length <= maxManifestCborBytes ->
    f out =
      if (out ++ bytes).length <= maxManifestCborBytes then .ok (out ++ bytes)
      else .error (.limit "byte length")

theorem appends_append (bytes : Bytes) : Appends (fun out => Writer.append out bytes) bytes := by
  intro out hout
  show Writer.append out bytes = _
  unfold Writer.append
  rw [length_append]
  rcases Nat.lt_or_ge (maxManifestCborBytes - out.length) bytes.length with hlong | hshort
  · rw [if_pos hlong, if_neg (by omega)]
  · rw [if_neg (Nat.not_lt_of_ge hshort), if_pos (by omega)]

variable {bytes : Bytes} {m : Manifest}

theorem Appends.andThen {f g : Bytes -> Except ManifestCborError Bytes} {bytes' : Bytes}
    (hf : Appends f bytes) (hg : Appends g bytes') :
    Appends (fun out => f out >>= g) (bytes ++ bytes') := by
  intro out hout
  simp only [hf out hout]
  split
  · rename_i hshort
    show g (out ++ bytes) = _
    rw [hg _ hshort, append_assoc]
  · rename_i hlong
    rw [if_neg]
    · rfl
    · intro hshort
      rw [← append_assoc, length_append] at hshort
      omega

theorem appends_head (major : UInt8) (value : Nat) :
    Appends (Writer.head major value) (headBytes major value) :=
  appends_append (headBytes major value)

theorem appends_text (text : String) : Appends (Writer.text text) (textBytes text) := by
  intro out hout
  unfold Writer.text
  split
  · rename_i hlong
    rw [if_neg]
    intro hshort
    unfold textBytes at hshort
    rw [length_append, length_append] at hshort
    omega
  · exact (appends_head 3 _).andThen (appends_append (Codec.bytesOf text)) out hout

theorem appends_file (file : ManifestFile) :
    Appends (fun out => Writer.file out file) (fileBytes file) :=
  (appends_head 4 4).andThen ((appends_text file.path).andThen
    ((appends_head 0 file.size.toNat).andThen ((appends_head 2 32).andThen
      ((appends_append file.root.val).andThen (appends_text file.mime)))))

theorem appends_files (files : List ManifestFile) :
    Appends (fun out => files.foldlM Writer.file out) (files.flatMap fileBytes) := by
  induction files with
  | nil =>
      intro out hout
      show Except.ok out = _
      rw [flatMap_nil, append_nil, if_pos hout]
  | cons file files ih =>
      rw [flatMap_cons]
      exact (appends_file file).andThen ih

theorem encode_eq (m : Manifest) :
    encode m =
      if maxManifestCborFiles < m.files.length then .error (.limit "file count")
      else if (manifestBytes m).length <= maxManifestCborBytes then .ok (manifestBytes m)
      else .error (.limit "byte length") := by
  have hall := (appends_head 5 4).andThen ((appends_head 0 0).andThen
    ((appends_head 0 manifestCborVersion).andThen ((appends_head 0 1).andThen
      ((appends_text m.name).andThen ((appends_head 0 2).andThen
        ((appends_head 0 m.chunkSize.toNat).andThen ((appends_head 0 3).andThen
          ((appends_head 4 m.files.length).andThen (appends_files m.files)))))))))
  have hbytes := hall [] (Nat.zero_le _)
  unfold encode
  split
  · rfl
  · exact hbytes

theorem encode_ok_iff :
    encode m = .ok bytes <->
      m.files.length <= maxManifestCborFiles ∧ bytes.length <= maxManifestCborBytes ∧
        bytes = manifestBytes m := by
  rw [encode_eq]
  constructor
  · intro h
    split at h
    · cases h
    · rename_i hcount
      split at h
      · rename_i hlength
        cases h
        exact ⟨Nat.le_of_not_lt hcount, hlength, rfl⟩
      · cases h
  · rintro ⟨hcount, hlength, rfl⟩
    rw [if_neg (Nat.not_lt_of_le hcount), if_pos hlength]

/-!
## Both directions
-/

theorem textFits_of_length_le {text : String} (hpart : (textBytes text).length <= bytes.length)
    (hbytes : bytes.length <= maxManifestCborBytes) : TextFits text := by
  have hlimit : maxManifestCborBytes < 2 ^ 64 := by decide
  unfold textBytes at hpart
  rw [length_append] at hpart
  unfold TextFits
  omega

theorem fits_of_length_le (hcount : m.files.length <= maxManifestCborFiles)
    (hlength : (manifestBytes m).length <= maxManifestCborBytes) : ManifestFits m := by
  have hsum : (textBytes m.name).length + (m.files.flatMap fileBytes).length <=
      (manifestBytes m).length := by
    unfold manifestBytes
    simp only [length_append]
    omega
  constructor
  · exact textFits_of_length_le (by omega) hlength
  · constructor
    · exact hcount
    · intro file hfile
      have hrecord : (fileBytes file).length <= (m.files.flatMap fileBytes).length :=
        (sublist_flatten_of_mem (mem_map_of_mem hfile)).length_le
      have hparts : (textBytes file.path).length + (textBytes file.mime).length <=
          (fileBytes file).length := by
        unfold fileBytes
        simp only [length_append]
        omega
      constructor
      all_goals exact textFits_of_length_le (by omega) hlength

open Reader in
theorem document_ok_iff :
    (document (new bytes)).fst = .ok m <-> ManifestFits m ∧ bytes = manifestBytes m := by
  have hnew : Fits (new bytes) := Nat.zero_le _
  have hrest : rest (new bytes) = bytes := drop_zero
  constructor
  · intro h
    have hread : document (new bytes) = (.ok m, (document (new bytes)).snd) := by
      rw [← h]
    rcases bind_ok hread with ⟨m', mid, hmanifest, hthen⟩
    rcases bind_ok hthen with ⟨_, mid', hcheck, hlast⟩
    cases hlast
    rcases exact_manifest.sound hnew hmanifest with ⟨_, hm, heq⟩
    unfold Reading.require at hcheck
    split at hcheck
    · rename_i hend
      have hnil : rest mid = [] := by
        apply length_eq_zero_iff.mp
        rw [length_rest]
        exact of_decide_eq_true hend
      rw [hnil, append_nil, hrest] at heq
      exact ⟨hm, heq⟩
    · cases hcheck
  · rintro ⟨hm, heq⟩
    rw [← append_nil (manifestBytes m)] at heq
    rcases exact_manifest.complete hnew hm (hrest.trans heq) with ⟨s', hmanifest, _, hbehind⟩
    have hcheck : Reading.require (fun s => decide (s.remaining = 0))
        (invalid "trailing bytes") s' = (.ok (), s') := by
      apply if_pos
      apply decide_eq_true
      rw [← length_rest, hbehind]
      rfl
    show (Reading.bind manifest _ (new bytes)).fst = _
    rw [bind_of_ok hmanifest]
    show (Reading.bind (Reading.require _ _) _ s').fst = _
    rw [bind_of_ok hcheck]
    rfl

theorem decode_ok_iff : decode bytes = .ok m <-> encode m = .ok bytes := by
  rw [encode_ok_iff]
  unfold decode
  constructor
  · intro h
    split at h
    · cases h
    · rename_i hlength
      rcases document_ok_iff.mp h with ⟨hm, heq⟩
      exact ⟨hm.right.left, Nat.le_of_not_lt hlength, heq⟩
  · rintro ⟨hcount, hlength, rfl⟩
    rw [if_neg (Nat.not_lt_of_le hlength)]
    exact document_ok_iff.mpr ⟨fits_of_length_le hcount hlength, rfl⟩

/-- The smallest record of a file. -/
def smallestFile : ManifestFile where
  path := ""
  size := 0
  root := ⟨List.replicate 32 0, length_replicate⟩
  mime := ""

theorem room_for_records {count left : Nat} (hroom : count * 38 <= left)
    (hleft : left <= maxManifestCborBytes) :
    exists (files : List ManifestFile) (bytes : Bytes), files.length = count ∧
      files.foldlM Writer.file [] = .ok bytes ∧ bytes.length <= left := by
  have hrecord : (fileBytes smallestFile).length = 38 := rfl
  have hlength : ((List.replicate count smallestFile).flatMap fileBytes).length = count * 38 := by
    rw [length_flatMap, map_replicate, sum_replicate_nat, hrecord]
  have hwritten := appends_files (List.replicate count smallestFile) [] (Nat.zero_le _)
  rw [nil_append, if_pos (by omega)] at hwritten
  exact ⟨_, _, length_replicate, hwritten, by omega⟩

/--
A manifest and the bytes it is written as determine each other, whatever the bytes are.
The reader stays in its input, and makes room for no more records than what is left of
the input can hold.
-/
theorem manifest_cbor_canonical (m : Manifest) (bytes : Bytes) :
    (encode m = .ok bytes -> decode bytes = .ok m) ∧
      (decode bytes = .ok m -> encode m = .ok bytes) ∧
      (forall bytes', decode bytes = .ok m -> decode bytes' = .ok m -> bytes' = bytes) ∧
      (forall start stop, (start, stop) ∈ (Reader.document (Reader.new bytes)).snd.taken ->
        start <= stop ∧ stop <= bytes.length) ∧
      (bytes.length <= maxManifestCborBytes -> forall count left,
        (count, left) ∈ (Reader.document (Reader.new bytes)).snd.reserved ->
          left <= bytes.length ∧ exists (files : List ManifestFile) (records : Bytes),
            files.length = count ∧ files.foldlM Writer.file [] = .ok records ∧
              records.length <= left) := by
  have hwithin := Reader.keeps_document (Reader.new bytes) Reader.within_new
  constructor
  · exact decode_ok_iff.mpr
  constructor
  · exact decode_ok_iff.mp
  constructor
  · intro bytes' h h'
    have hsame := (decode_ok_iff.mp h').symm.trans (decode_ok_iff.mp h)
    exact Except.ok.inj hsame
  constructor
  · intro start stop hpart
    exact hwithin.taken (start, stop) hpart
  · intro hlimit count left hreserved
    rcases hwithin.reserved (count, left) hreserved with ⟨hroom, hleft⟩
    exact ⟨hleft, room_for_records hroom (Nat.le_trans hleft hlimit)⟩

def smallestManifest : Manifest where
  name := ""
  chunkSize := 0
  files := [smallestFile]

def smallestDocument : Bytes :=
  [0xa4, 0x00, 0x01, 0x01, 0x60, 0x02, 0x00, 0x03, 0x81] ++
    ([0x84, 0x60, 0x00, 0x58, 0x20] ++ (List.replicate 32 0 ++ [0x60]))

theorem manifest_cbor_canonical_smallest :
    encode smallestManifest = .ok smallestDocument ∧
      decode smallestDocument = .ok smallestManifest := by
  have hwritten : encode smallestManifest = .ok smallestDocument := by rfl
  exact ⟨hwritten, (manifest_cbor_canonical smallestManifest smallestDocument).left hwritten⟩

end Rabbithole.Manifest
