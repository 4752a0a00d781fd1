import Rabbithole.Icecast.Metaint

/-!
# Taking the titles out again

The reader carries across its calls so much audio to the next block, the length byte of one,
or a payload of which part has come.  Fed with what the weaver put out, in any chunks, it gives
back the audio, and a title for each boundary where it changed.
-/

namespace Rabbithole.Icecast

open Foundation List

structure DeinterleavedChunk where
  audio : Bytes
  updates : List StreamTitle
deriving DecidableEq

namespace DeinterleavedChunk

def empty : DeinterleavedChunk where
  audio := []
  updates := []

def append (out more : DeinterleavedChunk) : DeinterleavedChunk where
  audio := out.audio ++ more.audio
  updates := out.updates ++ more.updates

end DeinterleavedChunk

inductive State where
  | audio (remaining : Nat) (pos : 0 < remaining)
  | length
  | payload (need : Nat) (buf : Bytes) (short : buf.length < need)

structure MetaintReader where
  metaint : Nat
  state : State
  malformedBlocks : Nat
  pos : 0 < metaint

namespace MetaintReader

def new (metaint : Nat) : MetaintReader where
  metaint := max metaint 1
  state := .audio (max metaint 1) (by omega)
  malformedBlocks := 0
  pos := by omega

def next (r : MetaintReader) : MetaintReader :=
  { r with state := .audio r.metaint r.pos }

/-- A payload is complete: a title, one that cannot be read, or nothing but zeros. -/
def close (r : MetaintReader) (payload : Bytes) : MetaintReader × List StreamTitle :=
  if payload.any (fun b => b != 0) then
    match parseStreamTitle payload with
    | .ok update => (r.next, [update])
    | .error _ => ({ r.next with malformedBlocks := r.malformedBlocks + 1 }, [])
  else (r.next, [])

def afterAudio (remaining take : Nat) : State :=
  if h : remaining - take = 0 then .length
  else .audio (remaining - take) (Nat.pos_of_ne_zero h)

def afterLength (r : MetaintReader) (units : UInt8) : MetaintReader :=
  if h : units.toNat = 0 then r.next
  else { r with state := .payload (units.toNat * 16) [] (by rw [length_nil]; omega) }

variable {bytes buf : Bytes} {need : Nat} {r : MetaintReader}

theorem short_of_ne (hshort : buf.length < need)
    (h : ¬ (buf ++ bytes.take (min (need - buf.length) bytes.length)).length = need) :
    (buf ++ bytes.take (min (need - buf.length) bytes.length)).length < need := by
  rw [length_append, length_take] at h ⊢
  omega

/-- One turn of the loop, with bytes that are not yet taken: what is left of them. -/
def turn (r : MetaintReader) (first : UInt8) (bytes : Bytes) :
    MetaintReader × DeinterleavedChunk × Bytes :=
  match r.state with
  | .audio remaining _ =>
      let take := min remaining (first :: bytes).length
      ({ r with state := afterAudio remaining take },
        { audio := (first :: bytes).take take, updates := [] }, (first :: bytes).drop take)
  | .length => (r.afterLength first, .empty, bytes)
  | .payload need buf short =>
      let take := min (need - buf.length) (first :: bytes).length
      if h : (buf ++ (first :: bytes).take take).length = need then
        let (r, updates) := r.close (buf ++ (first :: bytes).take take)
        (r, { audio := [], updates := updates }, (first :: bytes).drop take)
      else
        ({ r with state := .payload need (buf ++ (first :: bytes).take take) (short_of_ne short h) },
          .empty, (first :: bytes).drop take)

def pushFrom : Nat -> MetaintReader -> Bytes -> MetaintReader × DeinterleavedChunk
  | 0, r, _ => (r, .empty)
  | _ + 1, r, [] => (r, .empty)
  | fuel + 1, r, b :: bytes =>
      let (r, out, rest) := r.turn b bytes
      let (r, more) := pushFrom fuel r rest
      (r, out.append more)

def push (r : MetaintReader) (bytes : Bytes) : MetaintReader × DeinterleavedChunk :=
  r.pushFrom bytes.length bytes

/-- The chunks of a stream, one call for each. -/
def pushAll (r : MetaintReader) : List Bytes -> MetaintReader × DeinterleavedChunk
  | [] => (r, .empty)
  | chunk :: chunks =>
      let (r, out) := r.push chunk
      let (r, more) := r.pushAll chunks
      (r, out.append more)

/-!
## Byte by byte
-/

/-- What a byte can bring: itself, as audio, or the title of a block that it ends. -/
inductive Recovered where
  | audio (b : UInt8)
  | update (title : StreamTitle)

def chunkOf (items : List Recovered) : DeinterleavedChunk where
  audio := items.filterMap (fun i => match i with
    | .audio b => some b
    | .update _ => none)
  updates := items.filterMap (fun i => match i with
    | .audio _ => none
    | .update title => some title)

theorem chunkOf_append (items more : List Recovered) :
    chunkOf (items ++ more) = (chunkOf items).append (chunkOf more) := by
  unfold chunkOf DeinterleavedChunk.append
  rw [filterMap_append, filterMap_append]

theorem chunkOf_audio (bytes : Bytes) :
    chunkOf (bytes.map .audio) = { audio := bytes, updates := [] } := by
  induction bytes with
  | nil => rfl
  | cons b bytes ih =>
      rw [map_cons, ← singleton_append, chunkOf_append, ih]
      rfl

theorem chunkOf_updates (updates : List StreamTitle) :
    chunkOf (updates.map .update) = { audio := [], updates := updates } := by
  induction updates with
  | nil => rfl
  | cons u updates ih =>
      rw [map_cons, ← singleton_append, chunkOf_append, ih]
      rfl

theorem short_byte {b : UInt8} (hshort : buf.length < need) (h : ¬ buf.length + 1 = need) :
    (buf ++ [b]).length < need := by
  rw [length_append]
  exact Nat.lt_of_le_of_ne hshort h

def byte (r : MetaintReader) (b : UInt8) : MetaintReader × List Recovered :=
  match r.state with
  | .audio remaining _ => ({ r with state := afterAudio remaining 1 }, [.audio b])
  | .length => (r.afterLength b, [])
  | .payload need buf short =>
      if h : buf.length + 1 = need then
        ((r.close (buf ++ [b])).fst, (r.close (buf ++ [b])).snd.map .update)
      else ({ r with state := .payload need (buf ++ [b]) (short_byte short h) }, [])

theorem afterAudio_zero {remaining : Nat} (pos : 0 < remaining) :
    afterAudio remaining 0 = .audio remaining pos := by
  have hmore : ¬ remaining - 0 = 0 := Nat.ne_of_gt pos
  unfold afterAudio
  rw [dif_neg hmore]
  rfl

theorem feed_audio {remaining : Nat} {pos : 0 < remaining} (hstate : r.state = .audio remaining pos)
    (h : bytes.length <= remaining) :
    feed byte r bytes =
      ({ r with state := afterAudio remaining bytes.length }, bytes.map .audio) := by
  induction bytes generalizing r remaining with
  | nil =>
      rw [length_nil, afterAudio_zero pos, ← hstate]
      rfl
  | cons b bytes ih =>
      have hbyte : r.byte b = ({ r with state := afterAudio remaining 1 }, [.audio b]) := by
        unfold byte
        rw [hstate]
      rw [length_cons] at h
      rw [feed_cons, hbyte]
      by_cases hlast : remaining = 1
      · have hnil : bytes = [] := length_eq_zero_iff.mp (by omega)
        rw [hnil]
        rfl
      · have hmore : afterAudio remaining 1 = .audio (remaining - 1) (by omega) :=
          dif_neg (by omega)
        rw [ih (r := { r with state := afterAudio remaining 1 }) hmore (by omega)]
        unfold afterAudio
        simp only [length_cons, Nat.sub_sub, Nat.add_comm 1, map_cons,
          singleton_append]

theorem feed_short {short : buf.length < need} (hstate : r.state = .payload need buf short)
    (h : (buf ++ bytes).length < need) :
    feed byte r bytes = ({ r with state := .payload need (buf ++ bytes) h }, []) := by
  induction bytes generalizing r buf with
  | nil =>
      simp only [append_nil]
      rw [← hstate]
      rfl
  | cons b bytes ih =>
      have hmore : ¬ buf.length + 1 = need := by
        rw [length_append, length_cons] at h
        omega
      have hbyte : r.byte b =
          ({ r with state := .payload need (buf ++ [b]) (short_byte short hmore) }, []) := by
        unfold byte
        rw [hstate]
        exact dif_neg hmore
      have hbuf : buf ++ b :: bytes = buf ++ [b] ++ bytes := by simp
      rw [feed_cons, hbyte,
        ih (r := { r with state := .payload need (buf ++ [b]) (short_byte short hmore) }) rfl
          (by rw [← hbuf]; exact h)]
      simp only [hbuf, nil_append]

theorem feed_complete {short : buf.length < need} (hstate : r.state = .payload need buf short)
    (h : (buf ++ bytes).length = need) :
    feed byte r bytes =
      ((r.close (buf ++ bytes)).fst, (r.close (buf ++ bytes)).snd.map .update) := by
  cases bytes using List.reverseRecOn with
  | nil =>
      rw [append_nil] at h
      exact absurd h (Nat.ne_of_lt short)
  | append_singleton bytes b =>
      have hbefore : (buf ++ bytes).length < need := by
        rw [← append_assoc, length_append, length_singleton] at h
        omega
      have hlast : (buf ++ bytes).length + 1 = need := by
        rw [← h, ← append_assoc, @List.length_append _ _ [b]]
        rfl
      have hclose : forall payload,
          ({ r with state := .payload need (buf ++ bytes) hbefore } : MetaintReader).close payload =
            r.close payload := fun _ => rfl
      rw [feed_append, feed_short hstate hbefore, feed_singleton]
      unfold byte
      simp only [nil_append, dif_pos hlast, hclose, append_assoc]

theorem turn_eq (r : MetaintReader) (b : UInt8) (bytes : Bytes) :
    exists front rest, b :: bytes = front ++ rest ∧ front ≠ [] ∧
      r.turn b bytes = ((feed byte r front).fst, chunkOf (feed byte r front).snd, rest) := by
  have htake : forall n, 0 < n -> (b :: bytes).take n ≠ [] := by
    intro n hn hnil
    have hlength := congrArg List.length hnil
    rw [length_take, length_cons, length_nil] at hlength
    omega
  have hsplit := fun n => (take_append_drop n (b :: bytes)).symm
  cases hstate : r.state with
  | audio remaining pos =>
      refine ⟨_, _, hsplit (min remaining (b :: bytes).length), htake _ ?_, ?_⟩
      · rw [length_cons]
        omega
      · have hlength : ((b :: bytes).take (min remaining (b :: bytes).length)).length =
            min remaining (b :: bytes).length := by
          rw [length_take]
          omega
        rw [feed_audio hstate (by rw [hlength]; omega), hlength, chunkOf_audio]
        unfold turn
        rw [hstate]
  | length =>
      refine ⟨[b], bytes, rfl, cons_ne_nil b [], ?_⟩
      rw [feed_singleton]
      unfold turn byte
      rw [hstate]
      rfl
  | payload need buf short =>
      refine ⟨_, _, hsplit (min (need - buf.length) (b :: bytes).length), htake _ ?_, ?_⟩
      · rw [length_cons]
        omega
      · unfold turn
        rw [hstate]
        simp only []
        split
        · rename_i h
          rw [feed_complete hstate h, chunkOf_updates]
        · rename_i h
          rw [feed_short hstate (short_of_ne short h)]
          rfl

theorem pushFrom_eq {fuel : Nat} (h : bytes.length <= fuel) (r : MetaintReader) :
    r.pushFrom fuel bytes = ((feed byte r bytes).fst, chunkOf (feed byte r bytes).snd) := by
  induction fuel generalizing r bytes with
  | zero =>
      rw [length_eq_zero_iff.mp (Nat.le_zero.mp h)]
      rfl
  | succ fuel ih =>
      cases bytes with
      | nil => rfl
      | cons b bytes =>
          rcases r.turn_eq b bytes with ⟨front, rest, hsplit, hne, hturn⟩
          have hpos := length_pos_iff.mpr hne
          have hrest : rest.length <= fuel := by
            rw [hsplit, length_append] at h
            omega
          unfold pushFrom
          rw [hturn]
          simp only []
          rw [ih hrest, hsplit, feed_append, chunkOf_append]

theorem push_eq (r : MetaintReader) (bytes : Bytes) :
    r.push bytes = ((feed byte r bytes).fst, chunkOf (feed byte r bytes).snd) :=
  pushFrom_eq (Nat.le_refl _) r

theorem pushAll_eq (r : MetaintReader) (chunks : List Bytes) :
    r.pushAll chunks =
      ((feed byte r chunks.flatten).fst, chunkOf (feed byte r chunks.flatten).snd) := by
  induction chunks generalizing r with
  | nil => rfl
  | cons chunk chunks ih =>
      unfold pushAll
      rw [push_eq]
      simp only []
      rw [ih, flatten_cons, feed_append, chunkOf_append]

end MetaintReader

/-!
## Calls of the weaver
-/

inductive Call where
  | setTitle (title : List Char)
  | push (audio : Bytes)
deriving DecidableEq

namespace IcyMetaInterleaver

def call (w : IcyMetaInterleaver) : Call -> IcyMetaInterleaver × Bytes
  | .setTitle title => (w.setTitle title, [])
  | .push audio => w.push audio

end IcyMetaInterleaver

def wire (metaint : Nat) (calls : List Call) : Bytes :=
  (feed IcyMetaInterleaver.call (.new metaint) calls).snd

def pushed (calls : List Call) : Bytes :=
  calls.flatMap (fun call =>
    match call with
    | .setTitle _ => []
    | .push audio => audio)

def crossed (metaint count size : Nat) : Nat :=
  (count + size) / metaint - count / metaint

/-- The title that is pending at each boundary, of the calls behind so much audio. -/
def boundaries (metaint : Nat) : Nat -> Option (List Char) -> List Call -> List (Option (List Char))
  | _, _, [] => []
  | count, _, .setTitle title :: calls => boundaries metaint count (some title) calls
  | count, pending, .push audio :: calls =>
      List.replicate (crossed metaint count audio.length) pending ++
        boundaries metaint (count + audio.length) pending calls

/-- The titles that are not the one of the boundary before. -/
def changes : Option (List Char) -> List (Option (List Char)) -> List (List Char)
  | _, [] => []
  | emitted, pending :: rest =>
      if pending ≠ emitted then pending.getD [] :: changes pending rest else changes emitted rest

theorem changes_cons (emitted pending : Option (List Char)) (rest : List (Option (List Char))) :
    changes emitted (pending :: rest) =
      if pending ≠ emitted then pending.getD [] :: changes pending rest
      else changes emitted rest := rfl

theorem changes_append (emitted : Option (List Char)) (front back : List (Option (List Char))) :
    changes emitted (front ++ back) =
      changes emitted front ++ changes (front.getLastD emitted) back := by
  induction front generalizing emitted with
  | nil => rfl
  | cons pending front ih =>
      rw [cons_append, getLastD_cons, changes_cons, changes_cons]
      split
      · rw [ih, cons_append]
      · rename_i hsame
        rw [ih, Decidable.not_not.mp hsame]

theorem getLastD_append (front back : List (Option (List Char))) (emitted : Option (List Char)) :
    (front ++ back).getLastD emitted = back.getLastD (front.getLastD emitted) := by
  induction front generalizing emitted with
  | nil => rfl
  | cons pending front ih =>
      rw [cons_append, getLastD_cons, ih, getLastD_cons]

theorem crossed_succ {metaint : Nat} (count size : Nat) :
    crossed metaint count (size + 1) =
      crossed metaint count 1 + crossed metaint (count + 1) size := by
  have hfirst := Nat.div_le_div_right (c := metaint) (Nat.le_add_right count 1)
  have hrest := Nat.div_le_div_right (c := metaint) (Nat.le_add_right (count + 1) size)
  have hsum : count + (size + 1) = count + 1 + size := by omega
  unfold crossed
  rw [hsum]
  omega

theorem crossed_one {metaint : Nat} (hpos : 0 < metaint) (count : Nat) :
    crossed metaint count 1 = if count % metaint + 1 = metaint then 1 else 0 := by
  rcases Nat.exists_eq_add_one_of_ne_zero (Nat.ne_of_gt hpos) with ⟨m, rfl⟩
  have hdvd : m + 1 ∣ count + 1 <-> count % (m + 1) + 1 = m + 1 := by
    rw [Nat.dvd_iff_mod_eq_zero, Nat.succ_mod_succ_eq_zero_iff]
    omega
  unfold crossed
  rw [Nat.succ_div]
  simp only [hdvd]
  omega

/-!
## Both together
-/

def titleRead (title : List Char) : Except IcyError StreamTitle :=
  parseStreamTitle (formatMetadata title).tail

/-- The reader has read all that was put out, and is where the weaver is. -/
structure Reads (w : IcyMetaInterleaver) (r : MetaintReader) : Prop where
  metaint : r.metaint = w.metaint
  state : exists pos, r.state = .audio (w.metaint - w.sinceBoundary) pos
  malformed : r.malformedBlocks = 0

/--
The weaver took some audio, behind so much of it, and passed boundaries with these titles; the
reader took what it put out.
-/
structure Undone (count : Nat) (w w' : IcyMetaInterleaver) (r' : MetaintReader) (audio : Bytes)
    (titles : List (Option (List Char))) (out : DeinterleavedChunk) : Prop where
  reads : Reads w' r'
  since : w'.sinceBoundary = (count + audio.length) % w'.metaint
  metaint : w'.metaint = w.metaint
  pending : w'.pending = w.pending
  emitted : w'.emitted = titles.getLastD w.emitted
  audio : out.audio = audio
  updates : out.updates.map .ok = (changes w.emitted titles).map titleRead

variable {r : MetaintReader} {w : IcyMetaInterleaver}

theorem feed_block (hstate : r.state = .length) (title : List Char) :
    exists read, titleRead title = .ok read ∧
      feed MetaintReader.byte r (formatMetadata title) = (r.next, [.update read]) := by
  rcases parseStreamTitle_formatMetadata title with ⟨read, hread⟩
  rcases formatMetadata_spec title with ⟨units, payload, hblock, hunits, hlength, hany⟩
  refine ⟨read, hread, ?_⟩
  have hbyte : r.byte units = (r.afterLength units, []) := by
    unfold MetaintReader.byte
    rw [hstate]
  have hnext : (r.afterLength units).next = r.next := by
    unfold MetaintReader.afterLength
    rw [dif_neg hunits]
    rfl
  have hafter : exists short, (r.afterLength units).state =
      .payload (units.toNat * 16) [] short := by
    unfold MetaintReader.afterLength
    rw [dif_neg hunits]
    exact ⟨_, rfl⟩
  rcases hafter with ⟨short, hafter⟩
  rw [hblock] at hread ⊢
  rw [feed_cons, hbyte, MetaintReader.feed_complete hafter hlength]
  unfold MetaintReader.close
  rw [nil_append, if_pos hany]
  rw [tail_cons] at hread
  simp only [hread, hnext]
  rfl

theorem feed_boundaryBlock (hstate : r.state = .length) :
    exists updates : List StreamTitle,
      feed MetaintReader.byte r w.boundaryBlock.snd = (r.next, updates.map .update) ∧
      updates.map .ok = (changes w.emitted [w.pending]).map titleRead := by
  by_cases hchanged : w.pending ≠ w.emitted
  · have hblock : w.boundaryBlock.snd = formatMetadata (w.pending.getD []) := by
      unfold IcyMetaInterleaver.boundaryBlock
      simp only []
      rw [if_pos hchanged]
    rcases feed_block hstate (w.pending.getD []) with ⟨read, hread, hfeed⟩
    refine ⟨[read], ?_, ?_⟩
    · rw [hblock, hfeed]
      rfl
    · rw [changes_cons, if_pos hchanged]
      show [Except.ok read] = [titleRead (w.pending.getD [])]
      rw [hread]
  · have hblock : w.boundaryBlock.snd = [0] := by
      unfold IcyMetaInterleaver.boundaryBlock
      simp only []
      rw [if_neg hchanged]
    refine ⟨[], ?_, ?_⟩
    · rw [hblock, feed_singleton]
      unfold MetaintReader.byte
      rw [hstate]
      rfl
    · rw [changes_cons, if_neg hchanged]
      rfl

theorem boundaryBlock_fst (w : IcyMetaInterleaver) :
    w.boundaryBlock.fst.sinceBoundary = 0 ∧ w.boundaryBlock.fst.metaint = w.metaint ∧
      w.boundaryBlock.fst.pending = w.pending ∧ w.boundaryBlock.fst.emitted = w.pending := by
  unfold IcyMetaInterleaver.boundaryBlock
  simp only []
  split
  · exact ⟨rfl, rfl, rfl, rfl⟩
  · rename_i hsame
    exact ⟨rfl, rfl, rfl, (Decidable.not_not.mp hsame).symm⟩

theorem undone_byte {count : Nat} (h : Reads w r) (hcount : w.sinceBoundary = count % w.metaint)
    (b : UInt8) : Undone count w (w.byte b).fst (feed MetaintReader.byte r (w.byte b).snd).fst [b]
      (List.replicate (crossed w.metaint count 1) w.pending)
      (MetaintReader.chunkOf (feed MetaintReader.byte r (w.byte b).snd).snd) := by
  have hinside := w.inside
  have hsince : (count + 1) % w.metaint = (w.sinceBoundary + 1) % w.metaint := by
    rw [hcount, Nat.mod_add_mod]
  rcases h with ⟨hmetaint, ⟨pos, hstate⟩, hmalformed⟩
  have hbyte : r.byte b =
      ({ r with state := MetaintReader.afterAudio (w.metaint - w.sinceBoundary) 1 },
        [.audio b]) := by
    unfold MetaintReader.byte
    rw [hstate]
  rw [crossed_one (Nat.zero_lt_of_lt hinside), ← hcount]
  by_cases hlast : w.sinceBoundary + 1 = w.metaint
  · have hlength : MetaintReader.afterAudio (w.metaint - w.sinceBoundary) 1 = .length :=
      dif_pos (by omega)
    rw [hlength] at hbyte
    rcases boundaryBlock_fst w with ⟨hzero, hsame, hpending, hemitted⟩
    rcases feed_boundaryBlock (w := w) (r := { r with state := .length }) rfl with
      ⟨updates, hfeed, hupdates⟩
    rw [IcyMetaInterleaver.byte_boundary hlast, if_pos hlast, feed_cons, hbyte, hfeed,
      MetaintReader.chunkOf_append, MetaintReader.chunkOf_updates]
    constructor
    · refine ⟨hmetaint.trans hsame.symm, ⟨?_, ?_⟩, hmalformed⟩
      · rw [hzero, hsame]
        exact Nat.zero_lt_of_lt hinside
      · show State.audio r.metaint r.pos = _
        simp only [hmetaint, hzero, hsame, Nat.sub_zero]
    · rw [hzero, hsame, length_singleton, hsince, hlast, Nat.mod_self]
    · exact hsame
    · exact hpending
    · exact hemitted
    · rfl
    · exact hupdates
  · have hmore : MetaintReader.afterAudio (w.metaint - w.sinceBoundary) 1 =
        .audio (w.metaint - w.sinceBoundary - 1) (by omega) := dif_neg (by omega)
    rw [hmore] at hbyte
    rw [IcyMetaInterleaver.byte_inside (by omega), if_neg hlast, feed_singleton, hbyte]
    constructor
    · refine ⟨hmetaint, ⟨?_, ?_⟩, hmalformed⟩
      · show 0 < w.metaint - (w.sinceBoundary + 1)
        omega
      · simp only [Nat.sub_sub]
    · show w.sinceBoundary + 1 = (count + 1) % w.metaint
      rw [hsince, Nat.mod_eq_of_lt (by omega)]
    all_goals rfl

theorem Undone.append {count : Nat} {w' w'' : IcyMetaInterleaver} {r' r'' : MetaintReader}
    {audio more : Bytes} {titles rest : List (Option (List Char))} {out outs : DeinterleavedChunk}
    (h : Undone count w w' r' audio titles out)
    (h' : Undone (count + audio.length) w' w'' r'' more rest outs) :
    Undone count w w'' r'' (audio ++ more) (titles ++ rest) (out.append outs) where
  reads := h'.reads
  since := by rw [h'.since, length_append, Nat.add_assoc]
  metaint := h'.metaint.trans h.metaint
  pending := h'.pending.trans h.pending
  emitted := by rw [h'.emitted, h.emitted, getLastD_append]
  audio := by
    show out.audio ++ outs.audio = audio ++ more
    rw [h.audio, h'.audio]
  updates := by
    unfold DeinterleavedChunk.append
    rw [map_append, h.updates, h'.updates, h.emitted, changes_append, map_append]

theorem undone_push {count : Nat} {w : IcyMetaInterleaver} {r : MetaintReader} (h : Reads w r)
    (hcount : w.sinceBoundary = count % w.metaint) (audio : Bytes) :
    Undone count w (w.push audio).fst (feed MetaintReader.byte r (w.push audio).snd).fst audio
      (List.replicate (crossed w.metaint count audio.length) w.pending)
      (MetaintReader.chunkOf (feed MetaintReader.byte r (w.push audio).snd).snd) := by
  rw [IcyMetaInterleaver.push_eq]
  induction audio generalizing count w r with
  | nil =>
      rw [length_nil]
      unfold crossed
      rw [Nat.add_zero, Nat.sub_self]
      exact ⟨h, by rw [length_nil, Nat.add_zero]; exact hcount, rfl, rfl, rfl, rfl, rfl⟩
  | cons b audio ih =>
      have hfirst := undone_byte h hcount b
      have hrest := @ih (count + 1) _ _ hfirst.reads hfirst.since
      rw [hfirst.metaint, hfirst.pending] at hrest
      have hboth := hfirst.append hrest
      rw [feed_cons, feed_append, MetaintReader.chunkOf_append, length_cons, crossed_succ,
        ← replicate_append_replicate]
      exact hboth

theorem undone_calls {count : Nat} {w : IcyMetaInterleaver} {r : MetaintReader} (h : Reads w r)
    (hcount : w.sinceBoundary = count % w.metaint) (calls : List Call) :
    let read := feed MetaintReader.byte r (feed IcyMetaInterleaver.call w calls).snd
    read.fst.malformedBlocks = 0 ∧ (MetaintReader.chunkOf read.snd).audio = pushed calls ∧
      (MetaintReader.chunkOf read.snd).updates.map .ok =
        (changes w.emitted (boundaries w.metaint count w.pending calls)).map titleRead := by
  induction calls generalizing count w r with
  | nil => exact ⟨h.malformed, rfl, rfl⟩
  | cons call calls ih =>
      cases call with
      | setTitle title =>
          have hset : Reads (w.setTitle title) r := ⟨h.metaint, h.state, h.malformed⟩
          exact ih hset hcount
      | push audio =>
          have hfirst := undone_push h hcount audio
          rcases @ih (count + audio.length) _ _ hfirst.reads hfirst.since with
            ⟨hmalformed, haudio, hupdates⟩
          rw [hfirst.metaint, hfirst.pending, hfirst.emitted] at hupdates
          simp only [feed_cons, feed_append, MetaintReader.chunkOf_append]
          refine ⟨hmalformed, ?_, ?_⟩
          · show _ ++ _ = audio ++ pushed calls
            rw [← haudio]
            congr 1
            exact hfirst.audio
          · unfold DeinterleavedChunk.append boundaries
            rw [map_append, changes_append, map_append, ← hupdates, ← hfirst.updates]
            rfl

/--
However the wire is cut into chunks, the reader gives back the audio, finds no malformed
block, and reads the title of each boundary where it was not the one before.
-/
theorem weaving_undone {metaint : Nat} {calls : List Call} {chunks : List Bytes}
    (h : chunks.flatten = wire metaint calls) :
    let read := (MetaintReader.new metaint).pushAll chunks
    read.snd.audio = pushed calls ∧ read.fst.malformedBlocks = 0 ∧
      read.snd.updates.map .ok =
        (changes none (boundaries (max metaint 1) 0 none calls)).map titleRead := by
  have hstart : Reads (.new metaint) (.new metaint) := by
    refine ⟨rfl, ⟨?_, rfl⟩, rfl⟩
    show 0 < max metaint 1 - 0
    omega
  have hcount : (IcyMetaInterleaver.new metaint).sinceBoundary =
      0 % (IcyMetaInterleaver.new metaint).metaint := (Nat.zero_mod _).symm
  rcases undone_calls hstart hcount calls with ⟨hmalformed, haudio, hupdates⟩
  rw [MetaintReader.pushAll_eq, h]
  exact ⟨haudio, hmalformed, hupdates⟩

theorem weaving_undone_retitled :
    let calls := [Call.setTitle ['A'], .push [1, 2, 3], .setTitle ['B'], .push [4, 5]]
    let read := (MetaintReader.new 2).pushAll [(wire 2 calls).take 4, (wire 2 calls).drop 4]
    read.snd.audio = [1, 2, 3, 4, 5] ∧ read.fst.malformedBlocks = 0 ∧
      read.snd.updates.map .ok = [titleRead ['A'], titleRead ['B']] := by
  intro calls
  have hchunks : [(wire 2 calls).take 4, (wire 2 calls).drop 4].flatten = wire 2 calls := by
    rw [flatten_cons, flatten_cons, flatten_nil, append_nil,
      take_append_drop]
  exact weaving_undone hchunks

end Rabbithole.Icecast
