import Rabbithole.Tracker.IndexLines
import Rabbithole.Tracker.Policy

/-!
# What a tracker publishes

The index that a tracker writes is read back one row an entry.  The row of a signed entry
verifies, on the client's side, with the entry's key and its timestamp; the row of any other
entry claims nothing.
-/

namespace Rabbithole.Tracker

open Foundation Federation Directory Binkp List

/-- What a client reads from the line of a row. -/
def rowOf (percent : PercentText) (f : Format) (row : IndexRow) : DirectoryServer where
  name := trimText (sanitize row.entry.name)
  endpoint := Verifier.wsScheme ++ row.entry.addr.display
  description := []
  usersOnline :=
    parseUnsigned (2 ^ 32 - 1) (trimText (Nat.toDigits 10 row.entry.usersOnline.toNat))
  listeners := []
  uptimePct := percent.read (trimEndPercent (trimText (formatPermille row.uptimePermille)))
  reachable := true
  proof := row.entry.signed.map (fun signed => DirectoryProof.ofGossip (toHex (signed.toBytes f)))

theorem toHex_ne_dash (bytes : Bytes) : toHex bytes ≠ ['-'] := by
  intro h
  have hread := fromHex_toHex bytes
  rw [h] at hread
  cases hread

theorem readRow_indexLine (percent : PercentText) (f : Format) (row : IndexRow) :
    readRow percent (indexLine f row) = some (rowOf percent f row) := by
  have haddr : trimText row.entry.addr.display = row.entry.addr.display :=
    trimText_eq_self (solid_display row.entry.addr)
  have hne : row.entry.addr.display.isEmpty = false :=
    isEmpty_eq_false_iff.mpr (display_ne_nil _)
  unfold readRow
  rw [splitOn_indexLine]
  unfold indexColumns signedColumns rowOf
  cases row.entry.signed with
  | none => simp [haddr, hne]
  | some signed => simp [haddr, hne, toHex_ne_dash]

theorem parse_indexLines (percent : PercentText) {f : Format} {rows : List IndexRow}
    (hsize : textLen (indexLines f rows) <= maxListingBytes) :
    parseTrackerIndex percent (indexLines f rows) = .ok (rows.map (rowOf percent f)) := by
  apply parseTrackerIndex_rows hsize
  · intro l hl
    rcases mem_map.mp hl with ⟨row, -, rfl⟩
    exact newline_not_mem_indexLine f row
  · intro l hl
    rcases mem_map.mp hl with ⟨row, -, rfl⟩
    exact tab_mem_trimText_indexLine f row
  · rw [map_map, map_map]
    exact map_congr_left (fun row _ => readRow_indexLine percent f row)

/-!
## Proofs
-/

set_option maxRecDepth 8000 in
theorem utf8_toHex (bytes : Bytes) : textLen (toHex bytes) = 2 * bytes.length := by
  unfold textLen
  induction bytes with
  | nil => rfl
  | cons b bytes ih =>
      have hall : (List.range 256).all (fun n =>
          decide ((utf8 (hexPair (UInt8.ofNat n))).length = 2)) = true := by
        decide
      have hb := all_eq_true.mp hall b.toNat (mem_range.mpr b.toNat_lt)
      rw [UInt8.ofNat_toNat, decide_eq_true_eq] at hb
      have hcons : utf8 (toHex (b :: bytes)) = utf8 (hexPair b) ++ utf8 (toHex bytes) := by
        unfold utf8 toHex
        rw [flatMap_cons, flatMap_append]
      rw [hcons, length_append, hb, ih, length_cons]
      omega

variable {scheme : Scheme} {json : JsonText} {percent : PercentText}

/-- A client that has the signature scheme and the binary format of the trackers. -/
def client (scheme : Scheme) (json : JsonText) : Verifier where
  scheme := scheme
  format := Format.wire
  json := json

/-- A registry over the documented format. -/
def overWire (scheme : Scheme) (ttl : Nat) : Registry where
  ttl := ttl
  scheme := scheme
  format := Format.wire

/-- A name that neither the writer nor the reader changes. -/
def Readable (name : List Char) : Prop :=
  Unbroken name ∧ trimText name = name

theorem readable_iff {name : List Char} (h : Readable name) : trimText (sanitize name) = name := by
  rw [sanitize_eq_self h.left, h.right]

variable {signed : SignedDescriptor}

theorem length_toBytes_small {ttl : Nat} {entry : ServerEntry}
    (hvouched : (overWire scheme ttl).Vouched signed entry) :
    textLen (toHex (signed.toBytes Format.wire)) <= maxProofBytes * 2 := by
  have hlimits := (SignedDescriptor.verify_eq_ok_iff.mp hvouched.verifies).left
  have hlength := SignedDescriptor.length_toBytes_le hlimits
  rw [utf8_toHex]
  unfold maxProofBytes
  omega

theorem verifiedClaim_rowOf {ttl : Nat} {row : IndexRow}
    (hvouched : (overWire scheme ttl).Vouched signed row.entry)
    (hreadable : Readable row.entry.name) :
    (client scheme json).verifiedClaim (rowOf percent Format.wire row) =
      some (⟨hexOfKey signed.descriptor.serverKey, signed.descriptor.timestamp, .address⟩,
        gossipMaxAgeMs) := by
  have hsmall := length_toBytes_small hvouched
  have hproof : (rowOf percent Format.wire row).proof =
      some (.gossip (toHex (signed.toBytes Format.wire))) := by
    unfold rowOf DirectoryProof.ofGossip
    simp only [hvouched.carried, Option.map_some]
    rw [if_pos hsmall]
  have hname : (rowOf percent Format.wire row).name = signed.descriptor.name := by
    rw [<- hvouched.name]
    exact readable_iff hreadable
  have hendpoint : (rowOf percent Format.wire row).endpoint =
      Verifier.wsScheme ++ signed.descriptor.addr.display := by
    rw [<- hvouched.addr]
    rfl
  have hverifies : signed.verify (client scheme json).scheme (client scheme json).format = .ok () :=
    hvouched.verifies
  have hcanonical : signed.toBytes (client scheme json).format = signed.toBytes Format.wire := rfl
  unfold Verifier.verifiedClaim
  rw [hproof]
  show (client scheme json).verifyGossip _ _ = _
  unfold Verifier.verifyGossip
  rw [if_neg (Nat.not_lt.mpr hsmall), fromHex_toHex, Option.bind_some]
  show (SignedDescriptor.ofBytes Format.wire (signed.toBytes Format.wire)).bind _ = _
  rw [SignedDescriptor.ofBytes_toBytes, Option.bind_some, if_neg (not_not.mpr hverifies),
    if_neg (not_not.mpr hcanonical), if_neg]
  rw [hname, hendpoint]
  simp

theorem verify_of_claim {v : Verifier} {row : DirectoryServer} {claim : VerifiedDescriptor}
    (hclaim : v.verifiedClaim row = some (claim, gossipMaxAgeMs))
    (hstamp : 0 <= claim.issuedAtMs.toInt) {now : Int64}
    (hafter : claim.issuedAtMs.toInt <= now.toInt)
    (hbefore : now.toInt < claim.issuedAtMs.toInt + gossipMaxAgeMs) :
    v.verify row now = .verified claim := by
  have hproof : row.proof.isNone = false := by
    cases hnone : row.proof with
    | some proof => rfl
    | none =>
        unfold Verifier.verifiedClaim at hclaim
        rw [hnone] at hclaim
        cases hclaim
  have hhigh := Int64.toInt_lt now
  have hnow : ¬ now < 0 := by
    rw [Int64.lt_iff_toInt_lt]
    show ¬ now.toInt < 0
    omega
  have hissued : ¬ claim.issuedAtMs < 0 := by
    rw [Int64.lt_iff_toInt_lt]
    show ¬ claim.issuedAtMs.toInt < 0
    omega
  have hskew : ¬ Verifier.saturate (now.toInt + futureSkewMs) < claim.issuedAtMs.toInt := by
    unfold Verifier.saturate futureSkewMs
    omega
  have hage : ¬ gossipMaxAgeMs <= Verifier.saturate (now.toInt - claim.issuedAtMs.toInt) := by
    unfold Verifier.saturate gossipMaxAgeMs at *
    omega
  unfold Verifier.verify
  rw [hproof, hclaim]
  simp [hnow, hissued, hskew, hage]

/-!
## The listing
-/

/-- The row of a signed entry verifies for a day from its timestamp on; that of another
entry claims nothing. -/
def Shows (v : Verifier) (signed : Option SignedDescriptor) (server : DirectoryServer) : Prop :=
  match signed with
  | none => forall now, v.verify server now = .unverified
  | some signed =>
      forall now : Int64, signed.descriptor.timestamp.toInt <= now.toInt ->
        now.toInt < signed.descriptor.timestamp.toInt + gossipMaxAgeMs ->
        v.verify server now = .verified
          ⟨hexOfKey signed.descriptor.serverKey, signed.descriptor.timestamp, .address⟩

/-- The reader gives one row an entry, in order: its endpoint is the entry's address, its
proof the entry's descriptor. -/
def Corresponds (f : Format) (row : IndexRow) (server : DirectoryServer) : Prop :=
  server.endpoint = Verifier.wsScheme ++ row.entry.addr.display ∧
    server.proof =
      row.entry.signed.map (fun signed => DirectoryProof.ofGossip (toHex (signed.toBytes f)))

/-- A reply of no more than the limit is read one row an entry, in order.  The row of a signed
entry is verified with its key and timestamp, at any time in the day after it, when that is
not negative and the name is one that neither side changes; the others are unverified. -/
theorem published_rows_verify {ttl : Nat} {rows : List IndexRow}
    (hvouched : forall row, row ∈ rows -> forall signed, row.entry.signed = some signed ->
      (overWire scheme ttl).Vouched signed row.entry)
    (hsize : textLen (indexLines Format.wire rows) <= maxListingBytes) :
    exists servers, parseTrackerIndex percent (indexLines Format.wire rows) = .ok servers ∧
      Forall₂ (fun row server => Corresponds Format.wire row server ∧
        ((forall signed, row.entry.signed = some signed ->
            0 <= signed.descriptor.timestamp.toInt ∧ Readable row.entry.name) ->
          Shows (client scheme json) row.entry.signed server)) rows servers := by
  refine ⟨_, parse_indexLines percent hsize, ?_⟩
  rw [forall₂_map_right_iff, forall₂_same]
  intro row hrow
  refine ⟨⟨rfl, rfl⟩, ?_⟩
  intro hplain
  unfold Shows
  cases hsigned : row.entry.signed with
  | none =>
      intro now
      unfold Verifier.verify rowOf
      simp [hsigned]
  | some signed =>
      rcases hplain signed hsigned with ⟨hstamp, hreadable⟩
      intro now hafter hbefore
      have hclaim : (client scheme json).verifiedClaim (rowOf percent Format.wire row) = _ :=
        verifiedClaim_rowOf (hvouched row hrow signed hsigned) hreadable
      exact verify_of_claim hclaim hstamp hafter hbefore

/-- Every signed entry is a vouched one, and then every row shows what it should. -/
def Publishes (v : Verifier) (r : Registry) (percent : PercentText) (rows : List IndexRow) : Prop :=
  (forall row, row ∈ rows -> forall signed, row.entry.signed = some signed ->
    r.Vouched signed row.entry) ->
  exists servers, parseTrackerIndex percent (indexLines r.format rows) = .ok servers ∧
    Forall₂ (fun row server => Corresponds r.format row server ∧
      Shows v row.entry.signed server) rows servers

def listed (signed : SignedDescriptor) : IndexRow where
  entry := ServerEntry.fromSigned signed none 0
  uptimePermille := 1000
  lastSeenSecs := 0

def unlisted : IndexRow where
  entry := Registry.plain
  uptimePermille := 1000
  lastSeenSecs := 0

def believing : Verifier :=
  client Registry.sampled.scheme ⟨fun _ => none, id⟩

def noPercent : PercentText where
  read := fun _ => none

theorem vouched_listed
    (h : signed.verify Registry.sampled.scheme Registry.sampled.format = .ok ()) :
    forall row, row ∈ [listed signed] -> forall signed', row.entry.signed = some signed' ->
      Registry.sampled.Vouched signed' row.entry := by
  intro row hrow signed' hsigned
  rw [mem_singleton.mp hrow] at hsigned ⊢
  cases hsigned
  exact Registry.sampled.vouched_fromSigned h none 0

set_option maxRecDepth 8000 in
theorem published_rows_verify_two :
    exists servers, parseTrackerIndex noPercent
          (indexLines Format.wire [listed (Registry.wonderland 1 100), unlisted]) = .ok servers ∧
        Forall₂ (fun row server => Shows believing row.entry.signed server)
          [listed (Registry.wonderland 1 100), unlisted] servers := by
  have hvouched : forall row, row ∈ [listed (Registry.wonderland 1 100), unlisted] ->
      forall signed, row.entry.signed = some signed ->
        (overWire Registry.sampled.scheme (seconds 360)).Vouched signed row.entry := by
    intro row hrow signed hsigned
    rcases mem_cons.mp hrow with hfirst | hsecond
    · exact vouched_listed rfl row (mem_singleton.mpr hfirst) signed hsigned
    · rw [mem_singleton.mp hsecond] at hsigned
      cases hsigned
  have hplain : forall row, row ∈ [listed (Registry.wonderland 1 100), unlisted] ->
      forall signed, row.entry.signed = some signed ->
        0 <= signed.descriptor.timestamp.toInt ∧ Readable row.entry.name := by
    intro row hrow signed hsigned
    rcases mem_cons.mp hrow with hfirst | hsecond
    · rw [hfirst] at hsigned ⊢
      cases hsigned
      unfold Readable Unbroken
      decide
    · rw [mem_singleton.mp hsecond] at hsigned
      cases hsigned
  rcases published_rows_verify hvouched (by decide) with ⟨servers, hparse, hrows⟩
  refine ⟨servers, hparse, ?_⟩
  exact ((forall₂_and_left _ _).mpr ⟨hplain, hrows⟩).imp
    (fun row server h => h.right.right h.left)

/-!
Three ways in which an entry does not come through: it was issued before 1970, its name
ends in a blank, or there are too many entries for one reply.
-/

def padded : SignedDescriptor :=
  { Registry.wonderland 1 100 with
    descriptor := { (Registry.wonderland 1 100).descriptor with name := "Wonderland ".toList } }

theorem length_closed_replicate (n : Nat) (l : List Char) :
    (closed (List.replicate n l)).length = n * (l.length + 1) := by
  induction n with
  | zero => rw [Nat.zero_mul]; rfl
  | succ n ih =>
      rw [replicate_succ, Nat.succ_mul]
      unfold closed at *
      rw [flatMap_cons, length_append, ih, length_append, length_singleton, Nat.add_comm]

theorem length_le_textLen (s : List Char) : s.length <= textLen s := by
  unfold textLen utf8
  induction s with
  | nil => exact Nat.le_refl 0
  | cons c s ih =>
      rw [flatMap_cons, length_append, length_cons, String.length_utf8EncodeChar]
      have hpos := Char.utf8Size_pos c
      omega

def isVerified (verification : DirectoryVerification) : Bool :=
  match verification with
  | .verified _ => true
  | _ => false

theorem not_publishes_listed (now : Int64)
    (hverify : signed.verify Registry.sampled.scheme Registry.sampled.format = .ok ())
    (hsize : textLen (indexLines Format.wire [listed signed]) <= maxListingBytes)
    (hafter : signed.descriptor.timestamp.toInt <= now.toInt)
    (hbefore : now.toInt < signed.descriptor.timestamp.toInt + gossipMaxAgeMs) (hnot : isVerified
      (believing.verify (rowOf noPercent Format.wire (listed signed)) now) = false) :
    ¬ Publishes believing Registry.sampled noPercent [listed signed] := by
  intro hpublishes
  rcases hpublishes (vouched_listed hverify) with ⟨servers, hparse, hrows⟩
  have hread := parse_indexLines noPercent hsize
  have hservers : servers = [rowOf noPercent Format.wire (listed signed)] :=
    Except.ok.inj (hparse.symm.trans hread)
  rw [hservers] at hrows
  have hshows := (forall₂_cons.mp hrows).left.right now hafter hbefore
  rw [hshows] at hnot
  cases hnot

set_option maxRecDepth 8000 in
theorem not_every_entry_comes_through :
    ¬ Publishes believing Registry.sampled noPercent [listed (Registry.wonderland 1 (-1))] ∧
    ¬ Publishes believing Registry.sampled noPercent [listed padded] ∧
    ¬ Publishes believing Registry.sampled noPercent (List.replicate 40000 unlisted) := by
  refine ⟨?_, ?_, ?_⟩
  · exact not_publishes_listed 0 rfl (by decide) (by decide) (by decide)
      (by decide)
  · exact not_publishes_listed 100 rfl (by decide) (by decide) (by decide)
      (by decide)
  · intro hpublishes
    have hnone : forall row, row ∈ List.replicate 40000 unlisted ->
        forall signed, row.entry.signed = some signed ->
          Registry.sampled.Vouched signed row.entry := by
      intro row hrow signed hsigned
      rw [eq_of_mem_replicate hrow] at hsigned
      cases hsigned
    rcases hpublishes hnone with ⟨servers, hparse, -⟩
    have hline : (indexLine Registry.sampled.format unlisted).length = 40 := by decide
    have hlong : maxListingBytes <
        textLen (indexLines Registry.sampled.format (List.replicate 40000 unlisted)) := by
      apply Nat.lt_of_lt_of_le _ (length_le_textLen _)
      unfold indexLines
      rw [map_replicate, length_closed_replicate, hline]
      decide
    rw [parseTrackerIndex_tooLong hlong] at hparse
    cases hparse

end Rabbithole.Tracker
