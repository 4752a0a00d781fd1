import Rabbithole.Foundation.Utf8

/-!
# Listings

A listing says how many bytes follow and how many servers they are.  How long a server's
record is gets worked out in one place, and the record is written in another.
-/

namespace Rabbithole.Tracker

open Foundation List Codec

inductive HtrkError where
  | truncated
  | badMessageType (type : Nat)
deriving DecidableEq

structure ListedServer where
  ip : BitVec 32
  port : BitVec 16
  usersOnline : BitVec 16
  name : List Char
  description : List Char
deriving DecidableEq

def msgServerList : Nat := 1

def u16Max : Nat := 2 ^ 16 - 1

def cut (s : List Char) : Bytes :=
  (utf8 s).take (charBoundary (utf8 s) (min (utf8 s).length 255))

def writePascal (s : List Char) : Bytes :=
  UInt8.ofNat (cut s).length :: cut s

def readPascal : Bytes -> Except HtrkError (List Char × Bytes)
  | [] => .error .truncated
  | len :: rest =>
      if rest.length < len.toNat then .error .truncated
      else .ok (fromUtf8Lossy (rest.take len.toNat), rest.drop len.toNat)

def ListedServer.encodedLen (server : ListedServer) : Nat :=
  4 + 2 + 2 + 2 + 1 + min (utf8 server.name).length 255 + 1 +
    min (utf8 server.description).length 255

/-- The length and the number of the records that are taken. -/
def takeRecords : Nat -> Nat -> List ListedServer -> Nat × Nat
  | bodyLen, count, [] => (bodyLen, count)
  | bodyLen, count, server :: rest =>
      if bodyLen + server.encodedLen > u16Max ∨ count = u16Max then (bodyLen, count)
      else takeRecords (bodyLen + server.encodedLen) (count + 1) rest

def ListedServer.record (server : ListedServer) : Bytes :=
  Codec.highFirst 4 server.ip.toNat ++ Codec.highFirst 2 server.port.toNat ++
    Codec.highFirst 2 server.usersOnline.toNat ++ [0, 0] ++ writePascal server.name ++
    writePascal server.description

def encodeListing (servers : List ListedServer) : Bytes :=
  let taken := takeRecords 4 0 servers
  Codec.highFirst 2 msgServerList ++ Codec.highFirst 2 taken.fst ++
    Codec.highFirst 2 taken.snd ++ Codec.highFirst 2 taken.snd ++
    (servers.take taken.snd).flatMap ListedServer.record

def decodeRecords : Nat -> Bytes -> Except HtrkError (List ListedServer)
  | 0, _ => .ok []
  | count + 1, rest =>
      if rest.length < 10 then .error .truncated
      else do
        let (name, after) <- readPascal (rest.drop 10)
        let (description, after) <- readPascal after
        let servers <- decodeRecords count after
        .ok
          ({ ip := BitVec.ofNat 32 (Codec.ofHighFirst (rest.take 4))
             port := BitVec.ofNat 16 (Codec.ofHighFirst ((rest.drop 4).take 2))
             usersOnline := BitVec.ofNat 16 (Codec.ofHighFirst ((rest.drop 6).take 2))
             name := name
             description := description } :: servers)

/-- The size is passed over: the records are read as many as there are said to be. -/
def decodeListing (buf : Bytes) : Except HtrkError (List ListedServer) :=
  if buf.length < 8 then .error .truncated
  else
    let type := Codec.ofHighFirst (buf.take 2)
    if type ≠ msgServerList then .error (.badMessageType type)
    else decodeRecords (Codec.ofHighFirst ((buf.drop 4).take 2)) (buf.drop 8)

/-!
## Texts
-/

/-- All of a text counts, or a character of it begins at the last byte that there is room
for. -/
def Even (s : List Char) : Prop :=
  (utf8 s).length <= 255 ∨ isCharBoundary s 255 = true

/-- A text is cut behind a character, and only where it is too long. -/
structure IsCut (s s' : List Char) : Prop where
  front : IsPrefix s' s
  short : (utf8 s').length <= 255
  whole : (utf8 s).length <= 255 -> s' = s
  long : 255 < (utf8 s).length -> 252 <= (utf8 s').length

theorem cut_of_short {s : List Char} (h : (utf8 s).length <= 255) : cut s = utf8 s := by
  unfold cut
  rw [Nat.min_eq_left h]
  cases hlength : (utf8 s).length with
  | zero => rw [length_eq_zero_iff.mp hlength, take_nil]
  | succ place =>
      have hend : (utf8 s).getD (place + 1) 0 = 0 := by
        rw [getD_eq_getElem?_getD, getElem?_eq_none (Nat.le_of_eq hlength)]
        rfl
      unfold charBoundary
      rw [hend, if_neg (by decide), ← hlength, take_length]

theorem cut_of_long {s : List Char} (h : 255 < (utf8 s).length) :
    exists front, IsPrefix front s ∧ cut s = utf8 front ∧
      (utf8 front).length = charBoundary (utf8 s) 255 ∧ (utf8 front).length <= 255 ∧
      252 <= (utf8 front).length := by
  rcases charBoundary_utf8 s h with ⟨front, back, hs, hplace, hle, hlt⟩
  refine ⟨front, ⟨back, hs.symm⟩, ?_, hplace.symm, hle, by omega⟩
  unfold cut
  rw [Nat.min_eq_right (Nat.le_of_lt h), hplace, hs, utf8_append, take_left]

theorem exists_cut (s : List Char) : exists s', IsCut s s' ∧ cut s = utf8 s' := by
  by_cases h : (utf8 s).length <= 255
  · refine ⟨s, ⟨prefix_refl s, h, fun _ => rfl, ?_⟩, cut_of_short h⟩
    exact fun hlong => absurd h (Nat.not_le.mpr hlong)
  · rcases cut_of_long (Nat.lt_of_not_le h) with ⟨front, hstart, hcut, -, hle, hlong⟩
    exact ⟨front, ⟨hstart, hle, fun hshort => absurd hshort h, fun _ => hlong⟩, hcut⟩

theorem length_cut_le (s : List Char) : (cut s).length <= min (utf8 s).length 255 := by
  rcases exists_cut s with ⟨s', hs', hcut⟩
  have hfront := hs'.front
  rcases hfront with ⟨back, hback⟩
  rw [hcut, ← hback, utf8_append, length_append]
  exact Nat.le_min.mpr ⟨Nat.le_add_right _ _, hs'.short⟩

theorem length_cut_eq_iff (s : List Char) :
    (cut s).length = min (utf8 s).length 255 <-> Even s := by
  unfold Even
  by_cases h : (utf8 s).length <= 255
  · rw [cut_of_short h, Nat.min_eq_left h]
    exact ⟨fun _ => .inl h, fun _ => rfl⟩
  · have hlong := Nat.lt_of_not_le h
    rcases cut_of_long hlong with ⟨front, -, hcut, hplace, -, -⟩
    rw [hcut, hplace, Nat.min_eq_right (Nat.le_of_lt hlong), or_iff_right h]
    have hbyte : (utf8 s).getD 255 0 = (utf8 s)[255] := by
      rw [getD_eq_getElem?_getD, getElem?_eq_getElem hlong]
      rfl
    unfold isCharBoundary
    rw [getElem?_eq_getElem hlong]
    cases hcont : isContinuation (utf8 s)[255] with
    | false =>
        unfold charBoundary
        rw [hbyte, hcont]
        simp [hcont]
    | true =>
        have hback : charBoundary (utf8 s) 255 <= 254 := by
          rcases charBoundary_utf8 s (show 254 < (utf8 s).length by omega) with
            ⟨front', -, -, hplace', hle', -⟩
          unfold charBoundary
          rw [hbyte, hcont, if_pos rfl, hplace']
          exact hle'
        simp only [Option.any_some, hcont, Bool.not_true, Bool.or_false, Bool.or_eq_true,
          beq_iff_eq]
        omega

/-!
## Records
-/

def total (servers : List ListedServer) : Nat :=
  (servers.flatMap ListedServer.record).length

def claimed (servers : List ListedServer) : Nat :=
  (servers.map ListedServer.encodedLen).sum

def EvenServer (server : ListedServer) : Prop :=
  Even server.name ∧ Even server.description

theorem length_record (server : ListedServer) :
    server.record.length = 12 + (cut server.name).length + (cut server.description).length := by
  unfold ListedServer.record writePascal
  simp only [length_append, length_cons, length_highFirst, length_nil]
  omega

theorem length_record_le (server : ListedServer) :
    server.record.length <= server.encodedLen ∧
      (server.record.length = server.encodedLen <-> EvenServer server) := by
  have hname := length_cut_le server.name
  have hdescription := length_cut_le server.description
  unfold ListedServer.encodedLen EvenServer
  rw [length_record, ← length_cut_eq_iff, ← length_cut_eq_iff]
  omega

theorem total_le_claimed (servers : List ListedServer) :
    total servers <= claimed servers ∧
      (total servers = claimed servers <-> forall s, s ∈ servers -> EvenServer s) := by
  induction servers with
  | nil => exact ⟨Nat.le_refl 0, ⟨fun _ => nofun, fun _ => rfl⟩⟩
  | cons server rest ih =>
      have hrecord := length_record_le server
      have htotal : total (server :: rest) = server.record.length + total rest := by
        unfold total
        rw [flatMap_cons, length_append]
      have hclaimed : claimed (server :: rest) = server.encodedLen + claimed rest :=
        sum_cons
      rw [htotal, hclaimed, forall_mem_cons, ← ih.right, ← hrecord.right]
      omega

theorem takeRecords_spec (bodyLen count : Nat) (servers : List ListedServer)
    (hlen : bodyLen <= u16Max) (hcount : 4 + 12 * count <= bodyLen) :
    exists front back, servers = front ++ back ∧
      takeRecords bodyLen count servers = (bodyLen + claimed front, count + front.length) ∧
      bodyLen + claimed front <= u16Max ∧
      forall server rest, back = server :: rest ->
        u16Max < bodyLen + claimed (front ++ [server]) := by
  induction servers generalizing bodyLen count with
  | nil => exact ⟨[], [], rfl, rfl, hlen, nofun⟩
  | cons server rest ih =>
      have htwelve : 12 <= server.encodedLen := by
        unfold ListedServer.encodedLen
        omega
      unfold takeRecords
      split
      · rename_i hstop
        refine ⟨[], server :: rest, rfl, rfl, hlen, ?_⟩
        intro server' rest' hback
        cases hback
        show u16Max < bodyLen + (server.encodedLen + 0)
        unfold u16Max at *
        omega
      · rename_i hgo
        rcases ih (bodyLen + server.encodedLen) (count + 1) (by omega) (by omega) with
          ⟨front, back, hrest, htake, hfits, hnext⟩
        have hclaimed : forall l, claimed (server :: l) = server.encodedLen + claimed l :=
          fun _ => sum_cons
        refine ⟨server :: front, back, by rw [hrest, cons_append], ?_, ?_, ?_⟩
        · rw [htake, hclaimed, length_cons, Nat.add_assoc, Nat.add_right_comm count,
            Nat.add_assoc count]
        · rw [hclaimed]
          omega
        · intro server' rest' hback
          have hmore := hnext server' rest' hback
          rw [cons_append, hclaimed]
          omega

theorem readPascal_writePascal (s : List Char) (rest : Bytes) :
    readPascal (writePascal s ++ rest) = .ok (fromUtf8Lossy (cut s), rest) := by
  have hlength : (UInt8.ofNat (cut s).length).toNat = (cut s).length := by
    have hle := length_cut_le s
    rw [UInt8.toNat_ofNat', Nat.mod_eq_of_lt (by omega)]
  unfold writePascal readPascal
  rw [cons_append]
  simp only [hlength, take_left, drop_left]
  rw [if_neg (by rw [length_append]; omega)]

def ListedServer.cut (server : ListedServer) : ListedServer :=
  { server with
    name := fromUtf8Lossy (Tracker.cut server.name)
    description := fromUtf8Lossy (Tracker.cut server.description) }

theorem ofNat_highFirst {width : Nat} (count : Nat) (v : BitVec width) (h : 2 ^ width = 256 ^ count) :
    BitVec.ofNat width (Codec.ofHighFirst (Codec.highFirst count v.toNat)) = v := by
  rw [ofHighFirst_highFirst, ← h, Nat.mod_eq_of_lt v.isLt, BitVec.ofNat_toNat,
    BitVec.setWidth_eq]

theorem decodeRecords_flatMap (servers : List ListedServer) :
    decodeRecords servers.length (servers.flatMap ListedServer.record) =
      .ok (servers.map ListedServer.cut) := by
  induction servers with
  | nil => rfl
  | cons server rest ih =>
      have hip := length_highFirst 4 server.ip.toNat
      have hport := length_highFirst 2 server.port.toNat
      have husers := length_highFirst 2 server.usersOnline.toNat
      have hip' := ofNat_highFirst 4 server.ip rfl
      have hport' := ofNat_highFirst 2 server.port rfl
      have husers' := ofNat_highFirst 2 server.usersOnline rfl
      have hrecord : server.record ++ rest.flatMap ListedServer.record =
          Codec.highFirst 4 server.ip.toNat ++ (Codec.highFirst 2 server.port.toNat ++
            (Codec.highFirst 2 server.usersOnline.toNat ++ ([0, 0] ++ (writePascal server.name ++
              (writePascal server.description ++ rest.flatMap ListedServer.record))))) := by
        unfold ListedServer.record
        simp only [append_assoc]
      rw [flatMap_cons, length_cons, map_cons, hrecord]
      generalize Codec.highFirst 4 server.ip.toNat = ip at hip hip' ⊢
      generalize Codec.highFirst 2 server.port.toNat = port at hport hport' ⊢
      generalize Codec.highFirst 2 server.usersOnline.toNat = users at husers husers' ⊢
      generalize hstrings : writePascal server.name ++ (writePascal server.description ++
        rest.flatMap ListedServer.record) = strings
      have hafter4 : (ip ++ (port ++ (users ++ ([0, 0] ++ strings)))).drop 4 =
          port ++ (users ++ ([0, 0] ++ strings)) := drop_left' hip
      have hafter6 : (ip ++ (port ++ (users ++ ([0, 0] ++ strings)))).drop 6 =
          users ++ ([0, 0] ++ strings) := by
        rw [show 6 = 4 + 2 from rfl, ← drop_drop, hafter4, drop_left' hport]
      have hafter10 : (ip ++ (port ++ (users ++ ([0, 0] ++ strings)))).drop 10 = strings := by
        rw [show 10 = 6 + 2 + 2 from rfl, ← drop_drop, ← drop_drop, hafter6,
          drop_left' husers]
        rfl
      have hlong : ¬ (ip ++ (port ++ (users ++ ([0, 0] ++ strings)))).length < 10 := by
        simp only [length_append, hip, hport, husers, length_cons, length_nil]
        omega
      unfold decodeRecords
      rw [if_neg hlong, hafter10, hafter6, hafter4, take_left' hip, take_left' hport,
        take_left' husers, hip', hport', husers', ← hstrings, readPascal_writePascal]
      show (readPascal (writePascal server.description ++ _) >>= _) = _
      rw [readPascal_writePascal]
      show (decodeRecords rest.length (rest.flatMap ListedServer.record) >>= _) = _
      rw [ih]
      rfl

/-!
## Listings
-/

/-- A listing says how many bytes follow and how many records they are; these are the most
servers that there is room for, and they are read back with their texts cut. -/
structure Honest (servers : List ListedServer) (listing : Bytes) : Prop where
  size : Codec.ofHighFirst ((listing.drop 2).take 2) = (listing.drop 4).length
  counts : Codec.ofHighFirst ((listing.drop 6).take 2) =
    Codec.ofHighFirst ((listing.drop 4).take 2)
  fits : 4 + total (servers.take (Codec.ofHighFirst ((listing.drop 4).take 2))) <= u16Max
  longest : forall front back, servers = front ++ back -> 4 + total front <= u16Max ->
    front.length <= Codec.ofHighFirst ((listing.drop 4).take 2)
  decoded : decodeListing listing = .ok
    ((servers.take (Codec.ofHighFirst ((listing.drop 4).take 2))).map ListedServer.cut)
  cuts : forall s, s ∈ servers -> IsCut s.name s.cut.name ∧ IsCut s.description s.cut.description

theorem twelve_le_total (servers : List ListedServer) : 12 * servers.length <= total servers := by
  induction servers with
  | nil => exact Nat.le_refl 0
  | cons server rest ih =>
      have hrecord := length_record server
      have htotal : total (server :: rest) = server.record.length + total rest := by
        unfold total
        rw [flatMap_cons, length_append]
      rw [htotal, length_cons]
      omega

theorem isCut_fromUtf8Lossy (s : List Char) : IsCut s (fromUtf8Lossy (cut s)) := by
  rcases exists_cut s with ⟨s', hs', hcut⟩
  rw [hcut, fromUtf8Lossy_utf8]
  exact hs'

theorem total_append (front back : List ListedServer) :
    total (front ++ back) = total front + total back := by
  unfold total
  rw [flatMap_append, length_append]

/-- A listing is honest where every text, in whatever servers there is room for, is cut at
the last byte if it is cut at all. -/
theorem honest_iff (servers : List ListedServer) :
    Honest servers (encodeListing servers) <->
      forall front back, servers = front ++ back -> 4 + total front <= u16Max ->
        forall s, s ∈ front -> Even s.name ∧ Even s.description := by
  rcases takeRecords_spec 4 0 servers (by decide) (by decide) with
    ⟨front, back, hservers, htake, hfits, hnext⟩
  have hsum := total_le_claimed front
  have hrecords : servers.take front.length = front := by
    rw [hservers, take_left]
  have hcount : front.length < 256 ^ 2 := by
    have htwelve := twelve_le_total front
    unfold u16Max at hfits
    omega
  generalize hlisting : encodeListing servers = listing
  have hparts : listing = Codec.highFirst 2 msgServerList ++
      (Codec.highFirst 2 (4 + claimed front) ++ (Codec.highFirst 2 front.length ++
        (Codec.highFirst 2 front.length ++ front.flatMap ListedServer.record))) := by
    rw [← hlisting]
    unfold encodeListing
    rw [htake]
    simp only [Nat.zero_add, hrecords, append_assoc]
  have hwidth := length_highFirst 2
  have hafter2 : listing.drop 2 = Codec.highFirst 2 (4 + claimed front) ++
      (Codec.highFirst 2 front.length ++
        (Codec.highFirst 2 front.length ++ front.flatMap ListedServer.record)) := by
    rw [hparts, drop_left' (hwidth _)]
  have hafter4 : listing.drop 4 = Codec.highFirst 2 front.length ++
      (Codec.highFirst 2 front.length ++ front.flatMap ListedServer.record) := by
    rw [show 4 = 2 + 2 from rfl, ← drop_drop, hafter2, drop_left' (hwidth _)]
  have hafter6 : listing.drop 6 =
      Codec.highFirst 2 front.length ++ front.flatMap ListedServer.record := by
    rw [show 6 = 4 + 2 from rfl, ← drop_drop, hafter4, drop_left' (hwidth _)]
  have hafter8 : listing.drop 8 = front.flatMap ListedServer.record := by
    rw [show 8 = 6 + 2 from rfl, ← drop_drop, hafter6, drop_left' (hwidth _)]
  have hsize : Codec.ofHighFirst ((listing.drop 2).take 2) = 4 + claimed front := by
    rw [hafter2, take_left' (hwidth _), ofHighFirst_highFirst,
      Nat.mod_eq_of_lt (by unfold u16Max at hfits; omega)]
  have hcount4 : Codec.ofHighFirst ((listing.drop 4).take 2) = front.length := by
    rw [hafter4, take_left' (hwidth _), ofHighFirst_highFirst,
      Nat.mod_eq_of_lt hcount]
  have hcount6 : Codec.ofHighFirst ((listing.drop 6).take 2) = front.length := by
    rw [hafter6, take_left' (hwidth _), ofHighFirst_highFirst,
      Nat.mod_eq_of_lt hcount]
  have hbehind : (listing.drop 4).length = 4 + total front := by
    rw [hafter4]
    simp only [length_append, hwidth]
    unfold total
    omega
  have hdecoded : decodeListing listing = .ok (front.map ListedServer.cut) := by
    have hlong : ¬ listing.length < 8 := by
      have hlength := congrArg List.length hparts
      simp only [length_append, hwidth] at hlength
      omega
    have htype : Codec.ofHighFirst (listing.take 2) = msgServerList := by
      rw [hparts, take_left' (hwidth _)]
      decide
    unfold decodeListing
    rw [if_neg hlong]
    simp only [htype, hcount4, hafter8]
    rw [if_neg (fun hne => hne rfl), decodeRecords_flatMap]
  constructor
  · intro h front' back' hservers' hfits'
    have hlonger := h.longest front' back' hservers' hfits'
    have hexact := h.size
    rw [hsize, hbehind] at hexact
    rw [hcount4] at hlonger
    have hstart : front' <+: front := by
      refine prefix_of_prefix_length_le ⟨back', hservers'.symm⟩ ⟨back, hservers.symm⟩ hlonger
    intro s hs
    exact hsum.right.mp (by omega) s (hstart.subset hs)
  · intro h
    have hexact : total front = claimed front :=
      hsum.right.mpr (h front back hservers (by omega))
    refine
      { size := by rw [hsize, hbehind, hexact]
        counts := by rw [hcount6, hcount4]
        fits := by rw [hcount4, hrecords, hexact]; exact hfits
        longest := ?_
        decoded := by rw [hdecoded, hcount4, hrecords]
        cuts := fun s _ => ⟨isCut_fromUtf8Lossy s.name, isCut_fromUtf8Lossy s.description⟩ }
    intro front' back' hservers' hfits'
    rw [hcount4]
    by_contra hlonger
    -- one server more would have fit and have been taken
    rcases @List.prefix_of_prefix_length_le _ front front' _ ⟨back, hservers.symm⟩
      ⟨back', hservers'.symm⟩ (by omega) with ⟨more, hmore⟩
    cases more with
    | nil =>
        rw [append_nil] at hmore
        rw [hmore] at hlonger
        exact hlonger (Nat.le_refl _)
    | cons server more =>
        have hback : back = server :: (more ++ back') := by
          rw [hservers', ← hmore, append_assoc] at hservers
          exact (append_cancel_left hservers).symm
        have hmoreFits : 4 + total (front ++ [server]) <= u16Max := by
          have happend := total_append (front ++ [server]) more
          rw [append_assoc, singleton_append, hmore] at happend
          omega
        have heven := h (front ++ [server]) (more ++ back')
          (by rw [hservers, hback, append_assoc]; rfl) hmoreFits
        have hover := hnext server _ hback
        have hsame := (total_le_claimed (front ++ [server])).right.mpr heven
        omega

/-- A name of two bytes a character, one byte too long. -/
def accented : ListedServer where
  ip := 0
  port := 5500
  usersOnline := 0
  name := List.replicate 128 'é'
  description := []

set_option maxRecDepth 8000 in
theorem accented_not_honest : ¬ Honest [accented] (encodeListing [accented]) := by
  intro h
  have hsize := h.size
  revert hsize
  decide

end Rabbithole.Tracker
