import Rabbithole.Radio.FlacFrames

/-!
# Searching for the end of a frame

The search carries a checksum along that ends two bytes before the probe, and finds what a
search finds that works it out at every place from the frame's first byte.
-/

namespace Rabbithole.Radio
namespace Flac

open Foundation List Option

/-- A search from a place upwards finds the first place of a kind, or there is none. -/
def FirstFrom (lo : Nat) (P : Nat -> Prop) : Option Nat -> Prop
  | some p => lo <= p ∧ P p ∧ forall q, lo <= q -> q < p -> ¬ P q
  | none => forall q, lo <= q -> ¬ P q

theorem firstFrom_here {lo : Nat} {P : Nat -> Prop} (h : P lo) : FirstFrom lo P (some lo) :=
  ⟨Nat.le_refl lo, h, fun _ hlo hlt => absurd hlo (Nat.not_le.mpr hlt)⟩

theorem firstFrom_next {lo : Nat} {P : Nat -> Prop} {found : Option Nat} (h : ¬ P lo)
    (hnext : FirstFrom (lo + 1) P found) : FirstFrom lo P found := by
  have hup : forall q, lo <= q -> P q -> lo + 1 <= q := by
    intro q hq hP
    rcases Nat.eq_or_lt_of_le hq with rfl | hlt
    · exact absurd hP h
    · exact hlt
  cases found with
  | none => exact fun q hq hP => hnext q (hup q hq hP) hP
  | some p =>
      exact ⟨Nat.le_of_succ_le hnext.left, hnext.right.left,
        fun q hq hlt hP => hnext.right.right q (hup q hq hP) hlt hP⟩

variable {bytes : Bytes} {info : Stream} {start limit : Nat}

def span (bytes : Bytes) (start stop : Nat) : Bytes :=
  (bytes.drop start).take (stop - start)

variable {stop fuel : Nat} {head : Head}

theorem slice?_of_le {start : Nat} (h : start <= stop) (hstop : stop <= bytes.length) :
    slice? bytes start stop = some (span bytes start stop) :=
  if_pos ⟨h, hstop⟩

theorem span_append (bytes : Bytes) {start mid : Nat} (h : start <= mid) (h' : mid <= stop) :
    span bytes start mid ++ span bytes mid stop = span bytes start stop := by
  unfold span
  rw [show stop - start = (mid - start) + (stop - mid) by omega, take_add, drop_drop,
    Nat.add_sub_cancel' h]

theorem crc16More_span (bytes : Bytes) {start mid : Nat} (h : start <= mid) (h' : mid <= stop) :
    crc16More (crc16 (span bytes start mid)) (span bytes mid stop) =
      crc16 (span bytes start stop) := by
  rw [← span_append bytes h h']
  unfold crc16 crc16More
  rw [foldl_append]

/-- The last two bytes before a place are the checksum of all before them in the frame. -/
def Checked (bytes : Bytes) (start p : Nat) : Prop :=
  start + 2 <= p ∧ p <= bytes.length ∧
    crc16 (span bytes start (p - 2)) = ofPair (span bytes (p - 2) p)

theorem codedLen_pos {lead : UInt8} {n : Nat} (h : codedLen lead = some n) : 0 < n := by
  unfold codedLen at h
  split_ifs at h
  all_goals
    cases h
    decide

theorem six_le_of_headerAt {place : Nat} (h : headerAt bytes place info = some head) :
    6 <= head.len ∧ place + head.len <= bytes.length := by
  rcases headerAt_eq_some_iff.mp h with ⟨b0, b1, b2, b3, lead, p, hheader⟩
  rcases hheader.length_le with ⟨hp, hlen, hlength⟩
  have hcoded := codedLen_pos hheader.coded
  omega

theorem mayBegin_iff {probe : Nat} (h : start + 6 <= probe) :
    mayBegin bytes start probe info = true <-> (headerAt bytes probe info).isSome = true := by
  unfold mayBegin
  rw [decide_eq_true_eq]
  constructor
  · exact fun hall => hall.right.right
  · intro hsome
    rcases isSome_iff_exists.mp hsome with ⟨head, hhead⟩
    rcases headerAt_eq_some_iff.mp hhead with ⟨b0, b1, b2, b3, lead, p, hheader⟩
    refine ⟨?_, h, hsome⟩
    rw [getD_eq_getElem?_getD, getD_eq_getElem?_getD, hheader.first, hheader.second]
    exact hheader.sync

theorem nextFrameFrom_first {probe : Nat} (hstart : start + 6 <= probe)
    (hlimit : limit <= bytes.length) (hfuel : limit < probe + fuel) : FirstFrom probe
      (fun p => p + 1 < limit ∧ Checked bytes start p ∧ (headerAt bytes p info).isSome = true)
      (nextFrameFrom bytes start info limit fuel probe (probe - 2)
        (crc16 (span bytes start (probe - 2)))) := by
  induction fuel generalizing probe with
  | zero =>
      intro q hq hP
      have hlt := hP.left
      omega
  | succ fuel ih =>
      unfold nextFrameFrom
      by_cases hprobe : probe + 1 < limit
      · -- going on, the checksum takes one byte more
        have hmore : slice? bytes (probe - 2) (probe + 1 - 2) =
            some (span bytes (probe - 2) (probe + 1 - 2)) := slice?_of_le (by omega) (by omega)
        have hon := @ih (probe + 1) (by omega) (by omega)
        rw [← crc16More_span bytes (show start <= probe - 2 by omega)
          (show probe - 2 <= probe + 1 - 2 by omega)] at hon
        simp only [hprobe, if_true, show 2 <= probe + 1 ∧ probe - 2 < probe + 1 - 2 by omega,
          and_self, hmore, bind_some]
        by_cases hbegin : mayBegin bytes start probe info = true
        · have hhead := (mayBegin_iff hstart).mp hbegin
          rw [if_pos hbegin, slice?_of_le (Nat.sub_le probe 2) (by omega), bind_some,
            slice?_of_le (Nat.le_refl _) (by omega), bind_some,
            crc16More_span bytes (by omega) (Nat.le_refl _)]
          by_cases hcrc : crc16 (span bytes start (probe - 2)) =
              ofPair (span bytes (probe - 2) probe)
          · rw [if_pos hcrc]
            exact firstFrom_here ⟨hprobe, ⟨by omega, by omega, hcrc⟩, hhead⟩
          · rw [if_neg hcrc]
            exact firstFrom_next (fun hP => hcrc hP.right.left.right.right) hon
        · rw [if_neg hbegin]
          exact firstFrom_next (fun hP => hbegin ((mayBegin_iff hstart).mpr hP.right.right)) hon
      · simp only [hprobe, if_false]
        intro q hq hP
        have hlt := hP.left
        omega

theorem audioEndFrom_first {covered : Nat} (hstart : start <= covered)
    (hcovered : covered + 2 <= stop) (hlimit : limit <= bytes.length)
    (hfuel : limit < stop + fuel) :
    FirstFrom stop (fun p => p <= limit ∧ start + 6 < p ∧ Checked bytes start p ∧
        tailIsOver (bytes.drop p) = true)
      (audioEndFrom bytes start limit fuel stop covered (crc16 (span bytes start covered))) := by
  induction fuel generalizing stop covered with
  | zero =>
      intro q hq hP
      have hle := hP.left
      omega
  | succ fuel ih =>
      unfold audioEndFrom
      by_cases hstop : stop <= limit
      · rw [if_pos hstop, slice?_of_le (show covered <= stop - 2 by omega) (by omega),
          bind_some, crc16More_span bytes hstart (by omega),
          slice?_of_le (Nat.sub_le stop 2) (by omega), bind_some]
        by_cases hend : start + 6 < stop ∧
            crc16 (span bytes start (stop - 2)) = ofPair (span bytes (stop - 2) stop) ∧
            tailIsOver (bytes.drop stop) = true
        · rw [if_pos hend]
          exact firstFrom_here
            ⟨hstop, hend.left, ⟨by omega, by omega, hend.right.left⟩, hend.right.right⟩
        · rw [if_neg hend]
          exact firstFrom_next
            (fun hP => hend ⟨hP.right.left, hP.right.right.left.right.right, hP.right.right.right⟩)
            (ih (by omega) (by omega) (by omega))
      · rw [if_neg hstop]
        intro q hq hP
        have hle := hP.left
        omega

/-- Where a frame that begins with a header may end before another. -/
def EndsBefore (bytes : Bytes) (start limit : Nat) (info : Stream) (p : Nat) : Prop :=
  p + 1 < limit ∧ Checked bytes start p ∧ (headerAt bytes p info).isSome = true

/-- Where the last frame may end. -/
def EndsLast (bytes : Bytes) (start limit p : Nat) : Prop :=
  p <= limit ∧ start + 6 < p ∧ Checked bytes start p ∧ tailIsOver (bytes.drop p) = true

theorem nextFrame_first (h : headerAt bytes start info = some head)
    (hlimit : limit <= bytes.length) :
    FirstFrom (start + head.len) (EndsBefore bytes start limit info)
      (nextFrame bytes start (start + head.len) info limit) := by
  rcases six_le_of_headerAt h with ⟨hsix, hlength⟩
  unfold nextFrame
  rw [show max (start + head.len - 2) start = start + head.len - 2 by omega]
  simp only []
  rw [slice?_of_le (by omega) (by omega), bind_some]
  exact nextFrameFrom_first (by omega) hlimit (by omega)

theorem audioEnd_first (h : headerAt bytes start info = some head) (limit : Nat) :
    FirstFrom (start + head.len) (EndsLast bytes start limit)
      (audioEnd bytes start (start + head.len) limit) := by
  rcases six_le_of_headerAt h with ⟨hsix, hlength⟩
  unfold audioEnd
  rw [show max (start + head.len - 2) start = start + head.len - 2 by omega]
  simp only []
  rw [slice?_of_le (by omega) (by omega), bind_some,
    show start + head.len - 2 + 2 = start + head.len by omega]
  have hends : EndsLast bytes start limit = fun p => p <= min limit bytes.length ∧
      start + 6 < p ∧ Checked bytes start p ∧ tailIsOver (bytes.drop p) = true := by
    funext p
    unfold EndsLast
    rw [Nat.le_min]
    refine propext ⟨?_, ?_⟩
    · rintro ⟨hle, hsix, hchecked, htail⟩
      exact ⟨⟨hle, hchecked.right.left⟩, hsix, hchecked, htail⟩
    · rintro ⟨hle, hrest⟩
      exact ⟨hle.left, hrest⟩
  rw [hends]
  exact audioEndFrom_first (by omega) (by omega) (Nat.min_le_right _ _) (by omega)

/-!
## Frames
-/

/-- A frame stands in the file, with a header whose checksum is right, and its last two bytes
are the checksum of what is before them. -/
structure Whole (bytes : Bytes) (info : Stream) (f : Frame) : Prop where
  head : headerAt bytes f.offset info = some
    { block := f.samples, rate := f.sampleRate, len := f.header, number := f.number }
  headChecked : bytes[f.offset + f.header - 1]? =
    some (crc8 (span bytes f.offset (f.offset + f.header - 1)))
  header : 6 <= f.header ∧ f.header <= f.len
  inside : f.offset + f.len <= bytes.length
  checked : Checked bytes f.offset (f.offset + f.len)

theorem checked_of_frameEnd (h : headerAt bytes start info = some head)
    (hstop : frameEnd bytes start (start + head.len) info = some stop) :
    Checked bytes start stop := by
  unfold frameEnd at hstop
  split at hstop
  · rename_i found hfound
    cases hstop
    rcases exists_of_findSome?_eq_some hfound with ⟨limit, hmem, hnext⟩
    have hfirst := nextFrame_first h (le_of_mem_bounds hmem)
    rw [hnext] at hfirst
    exact hfirst.right.left.right.left
  · rcases exists_of_findSome?_eq_some hstop with ⟨limit, -, hend⟩
    have hfirst := audioEnd_first h limit
    rw [hend] at hfirst
    exact hfirst.right.left.right.right.left

theorem framesFrom_whole (fuel place : Nat) :
    (framesFrom bytes info fuel place).Pairwise (fun f g => f.offset + f.len <= g.offset) ∧
      forall f, f ∈ framesFrom bytes info fuel place -> place <= f.offset ∧ Whole bytes info f := by
  induction fuel generalizing place with
  | zero => exact ⟨Pairwise.nil, forall_mem_nil _⟩
  | succ fuel ih =>
      unfold framesFrom
      split
      · split
        · rcases ih (place + 1) with ⟨hpairs, hall⟩
          exact ⟨hpairs, fun f hf => ⟨Nat.le_of_succ_le (hall f hf).left, (hall f hf).right⟩⟩
        · rename_i head hhead
          split
          · exact ⟨Pairwise.nil, forall_mem_nil _⟩
          · rename_i stop hstop
            rcases ih stop with ⟨hpairs, hall⟩
            rcases frameEnd_bounds hstop with ⟨hafter, -, hlength⟩
            have hend : place + (stop - place) = stop := by omega
            refine ⟨pairwise_cons.mpr ⟨?_, hpairs⟩, ?_⟩
            · intro g hg
              show place + (stop - place) <= g.offset
              rw [hend]
              exact (hall g hg).left
            · intro f hf
              rcases mem_cons.mp hf with rfl | hf
              · refine ⟨Nat.le_refl _, ?_⟩
                rcases headerAt_eq_some_iff.mp hhead with ⟨b0, b1, b2, b3, lead, p, hheader⟩
                rcases hheader.covered with ⟨part, hpart, hcrc⟩
                rw [(slice?_eq_some hpart).right.right] at hcrc
                exact
                  { head := hhead
                    headChecked := hcrc
                    header := ⟨(six_le_of_headerAt hhead).left, by
                      show head.len <= stop - place
                      omega⟩
                    inside := by
                      show place + (stop - place) <= bytes.length
                      omega
                    checked := by
                      show Checked bytes place (place + (stop - place))
                      rw [hend]
                      exact checked_of_frameEnd hhead hstop }
              · exact ⟨by have hle := (hall f hf).left; omega, (hall f hf).right⟩
      · exact ⟨Pairwise.nil, forall_mem_nil _⟩

/-- The frames of a file, and what the two searches find. -/
structure Searched (bytes : Bytes) : Prop where
  blocks : forall fuel place found, bytes.length < place + fuel ->
    blocksFrom bytes (fuel + 1) place found = blocksFrom bytes fuel place found
  ends : forall info fuel, streaminfo bytes = some info -> bytes.length < fuel ->
    framesFrom bytes info fuel info.audioAt = frames bytes
  apart : (frames bytes).Pairwise (fun f g => f.offset + f.len <= g.offset)
  whole : forall f, f ∈ frames bytes ->
    exists info, streaminfo bytes = some info ∧ Whole bytes info f
  next : forall start info head limit, headerAt bytes start info = some head ->
    limit <= bytes.length -> FirstFrom (start + head.len) (EndsBefore bytes start limit info)
      (nextFrame bytes start (start + head.len) info limit)
  last : forall start info head limit, headerAt bytes start info = some head ->
    FirstFrom (start + head.len) (EndsLast bytes start limit)
      (audioEnd bytes start (start + head.len) limit)

theorem framesFrom_of_le {fuel' place : Nat} (h : bytes.length < place + fuel)
    (hle : fuel <= fuel') :
    framesFrom bytes info fuel' place = framesFrom bytes info fuel place := by
  induction fuel', hle using Nat.le_induction with
  | base => rfl
  | succ fuel' hle ih => rw [framesFrom_enough (by omega), ih]

theorem searched (bytes : Bytes) : Searched bytes := by
  have hframes : forall info, streaminfo bytes = some info ->
      frames bytes = framesFrom bytes info (bytes.length + 1) info.audioAt := by
    intro info hinfo
    unfold frames
    rw [hinfo]
  refine
    { blocks := fun _ _ _ h => blocksFrom_enough h
      ends := ?_
      apart := ?_
      whole := ?_
      next := fun _ _ _ _ h hlimit => nextFrame_first h hlimit
      last := fun _ _ _ limit h => audioEnd_first h limit }
  · intro info fuel hinfo hfuel
    rw [hframes info hinfo]
    exact framesFrom_of_le (by omega) hfuel
  · cases hinfo : streaminfo bytes with
    | none =>
        unfold frames
        rw [hinfo]
        exact Pairwise.nil
    | some info =>
        rw [hframes info hinfo]
        exact (framesFrom_whole _ _).left
  · intro f hf
    rcases of_mem_frames hf with ⟨info, hinfo, -⟩
    rw [hframes info hinfo] at hf
    exact ⟨info, hinfo, ((framesFrom_whole _ _).right f hf).right⟩

end Flac
end Rabbithole.Radio
