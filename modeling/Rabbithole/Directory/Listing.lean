import Rabbithole.Directory.Verification

/-!
# Tracker listings

What a client reads from a tracker's reply: one row a line, columns behind tabs.  Lines
that are too short are passed over, so that a tracker may add a column.
-/

namespace Rabbithole.Directory

open Foundation Federation List

/-- Uptime as a percentage, read as a floating point number and rounded. -/
structure PercentText where
  read : List Char -> Option Nat

def errPrefix : List Char := "ERR".toList

/-- Leave a prefix away as often as it is there. -/
def trimStartMatches (needle : List Char) (s : List Char) : Nat -> List Char
  | 0 => s
  | fuel + 1 =>
      match needle.isPrefixOf? s with
      | some rest => if needle.isEmpty then s else trimStartMatches needle rest fuel
      | none => s

def tooLong : List Char := "That directory reply exceeds the size limit.".toList

def noServers : List Char := "The tracker returned no servers.".toList

/-- The error that a reply's first line says. -/
def trackerError (text : List Char) : Option (List Char) :=
  match (lines text).head? with
  | none => none
  | some first =>
      let first := trimText first
      if '\t' ∉ first ∧ errPrefix.isPrefixOf first then
        let msg := trimText (trimStartMatches errPrefix first first.length)
        some (if msg.isEmpty then "tracker error".toList else "tracker: ".toList ++ msg)
      else none

def trimEndPercent (s : List Char) : List Char :=
  s.rdropWhile (fun c => c == '%')

/-- One row, if the line has the columns and the address for one. -/
def readRow (percent : PercentText) (line : List Char) : Option DirectoryServer :=
  let columns := line.splitOn '\t'
  if columns.length < 6 then none
  else
    let addr := trimText (columns.getD 1 [])
    if addr.isEmpty then none
    else
      some
        { name := trimText (columns.getD 0 [])
          endpoint := Verifier.wsScheme ++ addr
          description := []
          usersOnline := parseUnsigned (2 ^ 32 - 1) (trimText (columns.getD 2 []))
          listeners := []
          uptimePct := percent.read (trimEndPercent (trimText (columns.getD 4 [])))
          reachable := true
          proof :=
            match columns[9]? with
            | none => none
            | some proof => if proof = ['-'] then none else some (DirectoryProof.ofGossip proof) }

def isBlank (line : List Char) : Bool :=
  (trimText line).isEmpty

def parseTrackerIndex (percent : PercentText) (text : List Char) :
    Except (List Char) (List DirectoryServer) :=
  if maxListingBytes < textLen text then .error tooLong
  else
    match trackerError text with
    | some msg => .error msg
    | none =>
        let out := ((lines text).filter (fun l => !isBlank l)).filterMap (readRow percent)
        if out.isEmpty then
          if (lines text).all isBlank then .ok [] else .error noServers
        else .ok out

theorem parseTrackerIndex_tooLong {percent : PercentText} {text : List Char}
    (h : maxListingBytes < textLen text) : parseTrackerIndex percent text = .error tooLong := by
  unfold parseTrackerIndex
  rw [if_pos h]

theorem parseTrackerIndex_rows {percent : PercentText} {ls : List (List Char)}
    {servers : List DirectoryServer} (hsize : textLen (closed ls) <= maxListingBytes)
    (hlines : forall l, l ∈ ls -> '\n' ∉ l ∧ '\r' ∉ l) (htab : forall l, l ∈ ls -> '\t' ∈ trimText l)
    (hrows : ls.map (readRow percent) = servers.map some) :
    parseTrackerIndex percent (closed ls) = .ok servers := by
  have hread := lines_closed hlines
  have hnoError : trackerError (closed ls) = none := by
    unfold trackerError
    rw [hread]
    cases ls with
    | nil => rfl
    | cons first rest =>
        have hfirst := htab first mem_cons_self
        show (if '\t' ∉ trimText first ∧ _ then _ else none) = none
        rw [if_neg (fun h => h.left hfirst)]
  have hkept : ls.filter (fun l => !isBlank l) = ls := by
    apply filter_eq_self.mpr
    intro l hl
    unfold isBlank
    rw [Bool.not_eq_true', isEmpty_eq_false_iff]
    exact ne_nil_of_mem (htab l hl)
  have hout : ls.filterMap (readRow percent) = servers := by
    have hboth := congrArg (List.filterMap id) hrows
    rw [filterMap_map, filterMap_map] at hboth
    simpa using hboth
  unfold parseTrackerIndex
  rw [if_neg (Nat.not_lt.mpr hsize), hnoError]
  simp only [hread, hkept, hout]
  cases servers with
  | nil =>
      have hnil : ls = [] := map_eq_nil_iff.mp hrows
      rw [hnil]
      rfl
  | cons server rest => rfl

/-!
# The size of a descriptor

A descriptor within the limits takes less than a thousand bytes on the wire, so that its
proof is always small enough to be looked at.
-/

theorem length_varintBytes_le (fuel n k : Nat) (h : n < 128 ^ (k + 1)) :
    (Codec.varintBytes fuel n).length <= k + 1 := by
  induction fuel generalizing n k with
  | zero =>
      unfold Codec.varintBytes
      rw [length_singleton]
      omega
  | succ fuel ih =>
      unfold Codec.varintBytes
      split
      · rw [length_singleton]
        omega
      · rename_i hlarge
        cases k with
        | zero =>
            rw [Nat.zero_add, Nat.pow_one] at h
            exact absurd h hlarge
        | succ k =>
            rw [length_cons]
            have hrest := ih (n / 128) k (by
              rw [Nat.pow_succ] at h
              exact Nat.div_lt_of_lt_mul (by rwa [Nat.mul_comm] at h))
            omega

theorem length_varint_le {n k : Nat} (h : n < 128 ^ (k + 1)) :
    (Codec.varint.encode n).length <= k + 1 :=
  length_varintBytes_le n n k h

namespace Format

theorem length_u16_le (n : UInt16) : (wire.u16.encode n).length <= 3 := by
  have hn := n.toNat_lt
  exact length_varint_le (k := 2) (Nat.lt_of_lt_of_le hn (by decide))

theorem length_i64_le (n : Int64) : (wire.i64.encode n).length <= 10 := by
  have hlow := Int64.le_toInt n
  have hhigh := Int64.toInt_lt n
  apply length_varint_le (k := 9)
  show Postcard.zigzag n.toInt < 128 ^ 10
  unfold Postcard.zigzag
  split
  · omega
  · omega

theorem length_chars_le {s : List Char} {k : Nat} (h : textLen s < 128 ^ (k + 1)) :
    (wire.chars.encode s).length <= k + 1 + textLen s := by
  show (Codec.varint.encode (Codec.bytesOf (String.ofList s)).length
    ++ Codec.bytesOf (String.ofList s)).length <= _
  rw [bytesOf_ofList, length_append]
  exact Nat.add_le_add_right (length_varint_le h) _

theorem length_socketAddr_le (addr : SocketAddr) : (wire.socketAddr.encode addr).length <= 20 := by
  have hversion : forall version : UInt32, version < 2 -> (wire.u32.encode version).length <= 1 := by
    intro version h
    apply length_varint_le (k := 0)
    have hnat := UInt32.lt_iff_toNat_lt.mp h
    exact Nat.lt_trans hnat (by decide)
  rcases addr with ⟨ip, port⟩
  have hport := length_u16_le port
  cases ip with
  | v4 bits =>
      show (wire.u32.encode 0 ++ (Codec.highFirst 4 bits.toNat ++ wire.u16.encode port)).length <= 20
      rw [length_append, length_append, Codec.length_highFirst]
      have h0 := hversion 0 (by decide)
      omega
  | v6 bits =>
      show (wire.u32.encode 1 ++ (Codec.highFirst 16 bits.toNat ++ wire.u16.encode port)).length <= 20
      rw [length_append, length_append, Codec.length_highFirst]
      have h1 := hversion 1 (by decide)
      omega

theorem length_flatMap_le {item : Type} {f : item -> Bytes} {bound : Nat} {items : List item}
    (h : forall i, i ∈ items -> (f i).length <= bound) :
    (items.flatMap f).length <= items.length * bound := by
  induction items with
  | nil => exact Nat.zero_le _
  | cons i rest ih =>
      rw [flatMap_cons, length_append, length_cons, Nat.succ_mul]
      have hfirst := h i mem_cons_self
      have hrest := ih (fun j hj => h j (mem_cons_of_mem i hj))
      omega

theorem length_categories_le {categories : List (List Char)}
    (hcount : categories.length <= maxCategories)
    (heach : forall c, c ∈ categories -> textLen c <= maxCategoryLen) :
    ((Codec.list wire.length wire.chars).encode categories).length <= 265 := by
  show (Codec.varint.encode categories.length ++ categories.flatMap wire.chars.encode).length <= _
  unfold maxCategories at hcount
  unfold maxCategoryLen at heach
  rw [length_append]
  have hlength : (Codec.varint.encode categories.length).length <= 1 :=
    length_varint_le (k := 0) (by omega)
  have hitems : (categories.flatMap wire.chars.encode).length <= categories.length * 33 := by
    apply length_flatMap_le
    intro c hc
    have hsmall := heach c hc
    have hchars := length_chars_le (k := 0) (s := c) (by omega)
    omega
  omega

end Format

theorem SignedDescriptor.length_toBytes_le {signed : SignedDescriptor}
    (h : signed.descriptor.withinLimits = true) : (signed.toBytes Format.wire).length <= 1000 := by
  rcases signed with ⟨d, sig⟩
  unfold Descriptor.withinLimits at h
  simp only [Bool.and_eq_true, decide_eq_true_eq, all_eq_true] at h
  rcases h with ⟨⟨⟨⟨hname, hdescription⟩, hsoftware⟩, hcount⟩, heach⟩
  unfold maxNameLen at hname
  unfold maxDescriptionLen at hdescription
  unfold maxSoftwareLen at hsoftware
  have hn := Format.length_chars_le (k := 1) (s := d.name) (by unfold textLen; omega)
  have hd := Format.length_chars_le (k := 1) (s := d.description) (by unfold textLen; omega)
  have hs := Format.length_chars_le (k := 0) (s := d.software) (by unfold textLen; omega)
  have hc := Format.length_categories_le hcount (fun c hc => (heach c hc).right)
  have ha := Format.length_socketAddr_le d.addr
  have hu := Format.length_u16_le d.usersOnline
  have hp := Format.length_u16_le d.capacity
  have ht := Format.length_i64_le d.timestamp
  have hk : (Format.wire.array 32).encode d.serverKey = Codec.littleEndian 32 d.serverKey.toNat :=
    rfl
  unfold textLen at hn hd hs
  show ((Codec.littleEndian 32 d.serverKey.toNat ++ (Format.wire.chars.encode d.name
    ++ (Format.wire.chars.encode d.description ++ (Format.wire.socketAddr.encode d.addr
    ++ ((Codec.list Format.wire.length Format.wire.chars).encode d.categories
    ++ (Format.wire.u16.encode d.usersOnline ++ (Format.wire.u16.encode d.capacity
    ++ (Format.wire.chars.encode d.software ++ Format.wire.i64.encode d.timestamp))))))))
    ++ (Codec.varint.encode 64 ++ Codec.littleEndian 64 sig.toNat)).length <= 1000
  have hl : (Codec.varint.encode 64).length = 1 := rfl
  simp only [length_append, Codec.length_littleEndian]
  omega

end Rabbithole.Directory
