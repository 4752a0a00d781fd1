import Rabbithole.Foundation.Feed
import Rabbithole.Foundation.Text
import Rabbithole.Foundation.Utf8

/-!
# Titles in a stream of audio

A block of metadata is woven into the audio behind every so many bytes of it: its length in
units of sixteen bytes, and the title, filled up with zeros.  Where the title is the one of
the block before, the block is a single zero.
-/

namespace Rabbithole.Icecast

open Foundation List

/-- What reading a block can fail with. -/
inductive IcyError where
  | malformedMetadata
deriving DecidableEq

def maxUnits : Nat := 255

/-- The largest payload whose length the length byte can say. -/
def maxPayload : Nat := maxUnits * 16

def truncateToCharBoundary (buf : Bytes) (max : Nat) : Bytes :=
  buf.take (charBoundary buf max)

def streamTitleKey : List Char := "StreamTitle='".toList

def streamUrlKey : List Char := "StreamUrl='".toList

def attributeEnd : List Char := "';".toList

/-- The text of a block. -/
def attributes (title : List Char) (url : Option (List Char)) : List Char :=
  streamTitleKey ++ title ++ attributeEnd ++
    match url with
    | none => []
    | some url => streamUrlKey ++ url ++ attributeEnd

def payloadOf (text : List Char) : Bytes :=
  let payload := utf8 text
  if maxPayload < payload.length then truncateToCharBoundary payload maxPayload else payload

def encodeStreamTitle (title : List Char) (url : Option (List Char)) : Bytes :=
  let payload := payloadOf (attributes title url)
  let units := (payload.length + 15) / 16
  UInt8.ofNat units :: (payload ++ List.replicate (units * 16 - payload.length) 0)

def formatMetadata (title : List Char) : Bytes :=
  encodeStreamTitle title none

/-!
## Reading a payload
-/

structure StreamTitle where
  title : List Char
  url : Option (List Char)
deriving DecidableEq

def isTerminator (body : List Char) (i : Nat) : Bool :=
  body[i]? == some '\'' && body[i + 1]? == some ';' && (i == 0 || body[i - 1]? != some '\\')

def looksLikeAttrStart (s : List Char) : Bool :=
  let name := s.takeWhile (fun c => isAsciiAlphanumeric c || c == '_')
  !name.isEmpty && "='".toList.isPrefixOf (s.drop name.length)

/-- The value ends here if the payload does, or another attribute begins. -/
def endsValue (body : List Char) (i : Nat) : Bool :=
  let tail := (body.drop (i + 2)).dropWhile isWhitespace
  tail.isEmpty || looksLikeAttrStart tail

def unescapeQuotes : List Char -> List Char
  | '\\' :: '\'' :: s => '\'' :: unescapeQuotes s
  | c :: s => c :: unescapeQuotes s
  | [] => []

/-- The value of an attribute, whose name is given in lower case. -/
def extractAttr (text key : List Char) : Option (List Char) :=
  let lower := text.map Char.toLower
  let needle := key ++ "='".toList
  match findText needle lower with
  | none => none
  | some start =>
      let body := text.drop (start + needle.length)
      let candidates := (List.range (body.length - 1)).filter (isTerminator body)
      let stop := (candidates.find? (endsValue body)).or candidates.getLast?
      let value :=
        match stop with
        | some i => body.take i
        | none => body
      some (unescapeQuotes value)

def parseStreamTitle (payload : Bytes) : Except IcyError StreamTitle :=
  let text := fromUtf8Lossy (payload.rdropWhile (fun b => b == 0))
  match extractAttr text "streamtitle".toList with
  | none => .error .malformedMetadata
  | some title =>
      .ok {
        title := title
        url := (extractAttr text "streamurl".toList).filter (fun u => !u.isEmpty) }

/-!
## Every block has a title
-/

theorem payloadOf_spec (text : List Char) :
    exists front back, text = front ++ back ∧ payloadOf text = utf8 front ∧
      (utf8 front).length <= maxPayload ∧ (back = [] ∨ maxPayload < (utf8 front).length + 4) := by
  unfold payloadOf
  simp only []
  split
  · rename_i hlong
    rcases charBoundary_utf8 text hlong with ⟨front, back, rfl, hboundary, hle, hlt⟩
    refine ⟨front, back, rfl, ?_, hle, Or.inr hlt⟩
    unfold truncateToCharBoundary
    rw [hboundary]
    show (utf8 (front ++ back)).take (utf8 front).length = utf8 front
    unfold utf8
    rw [flatMap_append, take_left]
  · rename_i hshort
    exact ⟨text, [], (append_nil text).symm, rfl, Nat.le_of_not_lt hshort, Or.inl rfl⟩

theorem payloadOf_attributes (title : List Char) (url : Option (List Char)) :
    exists rest, payloadOf (attributes title url) = utf8 streamTitleKey ++ utf8 rest ∧
      (payloadOf (attributes title url)).length <= maxPayload := by
  rcases payloadOf_spec (attributes title url) with ⟨front, back, hsplit, hpayload, hle, hcut⟩
  have hprefix : streamTitleKey <+: front ++ back := by
    rw [← hsplit]
    unfold attributes
    simp only [append_assoc]
    exact prefix_append _ _
  have hfront : streamTitleKey <+: front := by
    rcases prefix_or_prefix_of_prefix hprefix (prefix_append front back) with h | h
    · exact h
    · rcases hcut with rfl | hcut
      · rw [append_nil] at hprefix
        exact hprefix
      · exfalso
        rcases h with ⟨more, hmore⟩
        have hlength := congrArg (fun s => (utf8 s).length) hmore
        have hkey : (utf8 streamTitleKey).length = 13 := by decide
        unfold utf8 at hlength hkey hcut
        rw [flatMap_append, length_append, hkey] at hlength
        unfold maxPayload maxUnits at hcut
        omega
  rcases hfront with ⟨rest, rfl⟩
  refine ⟨rest, ?_, ?_⟩
  · rw [hpayload]
    exact flatMap_append
  · rw [hpayload]
    exact hle

theorem rdropWhile_append_replicate {p : UInt8 -> Bool} (bytes : Bytes) (n : Nat) (h : p 0 = true) :
    (bytes ++ List.replicate n 0).rdropWhile p = bytes.rdropWhile p := by
  induction n with
  | zero => rw [replicate_zero, append_nil]
  | succ n ih =>
      rw [replicate_succ', ← append_assoc, rdropWhile_concat_pos _ _ _ h, ih]

theorem rdropWhile_append_of_kept {p : UInt8 -> Bool} {front : Bytes}
    (hfront : forall b, b ∈ front -> p b = false) (back : Bytes) :
    (front ++ back).rdropWhile p = front ++ back.rdropWhile p := by
  induction back using List.reverseRecOn with
  | nil =>
      rw [append_nil, rdropWhile_nil, append_nil]
      cases hlast : front.reverse with
      | nil =>
          rw [reverse_eq_nil_iff.mp hlast]
          rfl
      | cons b rest =>
          have hsplit : front = rest.reverse ++ [b] := by
            rw [← reverse_reverse front, hlast, reverse_cons]
          have hb := hfront b (by rw [hsplit]; simp)
          rw [hsplit, rdropWhile_concat_neg _ _ _ (by simp [hb])]
  | append_singleton back b ih =>
      rw [← append_assoc]
      by_cases hb : p b = true
      · rw [rdropWhile_concat_pos _ _ _ hb, rdropWhile_concat_pos _ _ _ hb, ih]
      · rw [rdropWhile_concat_neg _ _ _ hb, rdropWhile_concat_neg _ _ _ hb]
        rw [append_assoc]

theorem isSome_extractAttr {rest : List Char} {key lower : List Char}
    (h : lower.map Char.toLower = key ++ "='".toList) :
    (extractAttr (lower ++ rest) key).isSome = true := by
  unfold extractAttr
  rw [map_append, h]
  simp only [findText_append]
  rfl

theorem parseStreamTitle_formatMetadata (title : List Char) :
    exists read, parseStreamTitle (formatMetadata title).tail = .ok read := by
  rcases payloadOf_attributes title none with ⟨rest, hpayload, -⟩
  have hnone : (utf8 streamTitleKey).any (fun b => b == 0) = false := by decide
  have hkept : forall b, b ∈ utf8 streamTitleKey -> (b == 0) = false := by
    intro b hb
    exact Bool.eq_false_iff.mpr (any_eq_false.mp hnone b hb)
  have htext : fromUtf8Lossy ((formatMetadata title).tail.rdropWhile (fun b => b == 0)) =
      streamTitleKey ++ fromUtf8Lossy ((utf8 rest).rdropWhile (fun b => b == 0)) := by
    unfold formatMetadata encodeStreamTitle
    simp only [tail_cons]
    rw [rdropWhile_append_replicate _ _ rfl, hpayload, rdropWhile_append_of_kept hkept,
      fromUtf8Lossy_utf8_append]
  have hsome := @isSome_extractAttr (fromUtf8Lossy ((utf8 rest).rdropWhile (fun b => b == 0)))
    "streamtitle".toList streamTitleKey (by decide)
  rw [← htext] at hsome
  rcases Option.isSome_iff_exists.mp hsome with ⟨value, hvalue⟩
  unfold parseStreamTitle
  simp only []
  rw [hvalue]
  exact ⟨_, rfl⟩

theorem formatMetadata_spec (title : List Char) :
    exists units payload, formatMetadata title = units :: payload ∧ units.toNat ≠ 0 ∧
      payload.length = units.toNat * 16 ∧ payload.any (fun b => b != 0) = true := by
  rcases payloadOf_attributes title none with ⟨rest, hpayload, hle⟩
  have hpos : 0 < (payloadOf (attributes title none)).length := by
    have hkey : (utf8 streamTitleKey).length = 13 := by decide
    rw [hpayload, length_append, hkey]
    omega
  unfold maxPayload maxUnits at hle
  have hunits : (UInt8.ofNat (((payloadOf (attributes title none)).length + 15) / 16)).toNat =
      ((payloadOf (attributes title none)).length + 15) / 16 := by
    rw [UInt8.toNat_ofNat']
    omega
  refine ⟨_, _, rfl, ?_, ?_, ?_⟩
  · rw [hunits]
    omega
  · rw [hunits, length_append, length_replicate]
    omega
  · rw [hpayload, any_append, any_append, Bool.or_assoc]
    have hkey : (utf8 streamTitleKey).any (fun b => b != 0) = true := by decide
    rw [hkey, Bool.true_or]

/-!
## Weaving
-/

structure IcyMetaInterleaver where
  metaint : Nat
  sinceBoundary : Nat
  pending : Option (List Char)
  emitted : Option (List Char)
  inside : sinceBoundary < metaint

namespace IcyMetaInterleaver

def new (metaint : Nat) : IcyMetaInterleaver where
  metaint := max metaint 1
  sinceBoundary := 0
  pending := none
  emitted := none
  inside := (by omega : 1 <= max metaint 1)

def setTitle (w : IcyMetaInterleaver) (title : List Char) : IcyMetaInterleaver :=
  { w with pending := some title }

/-- The block at a boundary, and the count begun again behind it. -/
def boundaryBlock (w : IcyMetaInterleaver) : IcyMetaInterleaver × Bytes :=
  let w := { w with sinceBoundary := 0, inside := Nat.zero_lt_of_lt w.inside }
  if w.pending ≠ w.emitted then
    ({ w with emitted := w.pending }, formatMetadata (w.pending.getD []))
  else (w, [0])

theorem room_lt {since metaint size : Nat} (hinside : since < metaint)
    (h : ¬ since + min (metaint - since) size = metaint) :
    since + min (metaint - since) size < metaint := by
  omega

/-- One turn of the loop: the audio up to the next boundary, or all there is. -/
def turn (w : IcyMetaInterleaver) (audio : Bytes) : IcyMetaInterleaver × Bytes × Bytes :=
  let room := w.metaint - w.sinceBoundary
  let take := min room audio.length
  if h : w.sinceBoundary + take = w.metaint then
    let (w, block) := w.boundaryBlock
    (w, audio.take take ++ block, audio.drop take)
  else
    ({ w with sinceBoundary := w.sinceBoundary + take, inside := room_lt w.inside h },
      audio.take take, audio.drop take)

def pushFrom : Nat -> IcyMetaInterleaver -> Bytes -> IcyMetaInterleaver × Bytes
  | 0, w, _ => (w, [])
  | _ + 1, w, [] => (w, [])
  | fuel + 1, w, b :: audio =>
      let (w, out, rest) := w.turn (b :: audio)
      let (w, outs) := pushFrom fuel w rest
      (w, out ++ outs)

def push (w : IcyMetaInterleaver) (audio : Bytes) : IcyMetaInterleaver × Bytes :=
  w.pushFrom audio.length audio

/-!
## Byte by byte
-/

/-- One byte of audio, and behind it the block where that is a boundary. -/
def byte (w : IcyMetaInterleaver) (b : UInt8) : IcyMetaInterleaver × Bytes :=
  if h : w.sinceBoundary + 1 = w.metaint then
    (w.boundaryBlock.fst, b :: w.boundaryBlock.snd)
  else
    ({ w with
        sinceBoundary := w.sinceBoundary + 1
        inside := Nat.lt_of_le_of_ne w.inside h }, [b])

variable {w : IcyMetaInterleaver} {audio : Bytes}

theorem byte_inside (h : w.sinceBoundary + 1 < w.metaint) (b : UInt8) :
    w.byte b = ({ w with sinceBoundary := w.sinceBoundary + 1, inside := h }, [b]) :=
  dif_neg (Nat.ne_of_lt h)

theorem byte_boundary (h : w.sinceBoundary + 1 = w.metaint) (b : UInt8) :
    w.byte b = (w.boundaryBlock.fst, b :: w.boundaryBlock.snd) :=
  dif_pos h

theorem feed_inside (h : w.sinceBoundary + audio.length < w.metaint) :
    feed byte w audio =
      ({ w with sinceBoundary := w.sinceBoundary + audio.length, inside := h }, audio) := by
  induction audio generalizing w with
  | nil => rfl
  | cons b audio ih =>
      rw [length_cons] at h
      rw [feed_cons, byte_inside (by omega), ih (by dsimp only; omega)]
      simp only [length_cons, singleton_append, Prod.mk.injEq, and_true]
      congr 1
      omega

theorem feed_boundary (h : w.sinceBoundary + audio.length = w.metaint) :
    feed byte w audio = (w.boundaryBlock.fst, audio ++ w.boundaryBlock.snd) := by
  induction audio generalizing w with
  | nil =>
      have hinside := w.inside
      rw [length_nil] at h
      omega
  | cons b audio ih =>
      rw [length_cons] at h
      by_cases hlast : w.sinceBoundary + 1 = w.metaint
      · have hnil : audio = [] := length_eq_zero_iff.mp (by omega)
        rw [hnil, feed_singleton, byte_boundary hlast]
        rfl
      · have hinside := w.inside
        rw [feed_cons, byte_inside (by omega), ih (by dsimp only; omega)]
        rfl

theorem turn_eq (w : IcyMetaInterleaver) (audio : Bytes) :
    exists front, w.turn audio =
        ((feed byte w front).fst, (feed byte w front).snd, audio.drop front.length) ∧
      front = audio.take front.length ∧ (audio ≠ [] -> front ≠ []) := by
  have hinside := w.inside
  refine ⟨audio.take (min (w.metaint - w.sinceBoundary) audio.length), ?_, ?_, ?_⟩
  · have hlength : (audio.take (min (w.metaint - w.sinceBoundary) audio.length)).length =
        min (w.metaint - w.sinceBoundary) audio.length := by
      rw [length_take]
      omega
    unfold turn
    simp only [hlength]
    split
    · rename_i h
      rw [feed_boundary (by rw [hlength]; exact h)]
    · rename_i h
      rw [feed_inside (by rw [hlength]; exact room_lt hinside h)]
      simp only [hlength]
  · rw [length_take, take_eq_take_iff]
    omega
  · intro hne hnil
    have hpos := length_pos_iff.mpr hne
    have hlength := congrArg List.length hnil
    rw [length_take, length_nil] at hlength
    omega

theorem pushFrom_eq {fuel : Nat} (h : audio.length <= fuel) (w : IcyMetaInterleaver) :
    w.pushFrom fuel audio = feed byte w audio := by
  induction fuel generalizing w audio with
  | zero =>
      rw [length_eq_zero_iff.mp (Nat.le_zero.mp h)]
      rfl
  | succ fuel ih =>
      cases audio with
      | nil => rfl
      | cons b audio =>
          rcases w.turn_eq (b :: audio) with ⟨front, hturn, hfront, hne⟩
          have hpos := length_pos_iff.mpr (hne (cons_ne_nil b audio))
          have hrest : ((b :: audio).drop front.length).length <= fuel := by
            rw [length_drop, length_cons]
            rw [length_cons] at h
            omega
          unfold pushFrom
          rw [hturn]
          simp only []
          rw [ih hrest]
          have hwhole : b :: audio = front ++ (b :: audio).drop front.length := by
            rw [hfront, length_take, Nat.min_eq_left, take_append_drop]
            rw [hfront, length_take]
            exact Nat.min_le_right _ _
          conv_rhs => rw [hwhole, feed_append]

theorem push_eq (w : IcyMetaInterleaver) (audio : Bytes) : w.push audio = feed byte w audio :=
  pushFrom_eq (Nat.le_refl _) w

end IcyMetaInterleaver

end Rabbithole.Icecast
