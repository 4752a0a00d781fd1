import Rabbithole.Directory.Listing
import Rabbithole.Foundation.Paging
import Rabbithole.Tracker.Gossip

/-!
# Nobody starves in the rotation

A call works off a front of the order that its bookmark gives, and the next order has that
front at its end.  So consecutive calls work off the whole order, however they share it out.
-/

namespace Rabbithole.Tracker

open Foundation Federation Directory List

section Rounds

variable {cursor page item : Type*}

/-- What so many consecutive calls give, each from where the one before it ended. -/
def pages (call : cursor -> page × cursor) : Nat -> cursor -> List page
  | 0, _ => []
  | count + 1, bookmark => (call bookmark).fst :: pages call count (call bookmark).snd

variable {call : cursor -> page × cursor}

theorem forall_pages {P : page -> Prop} (h : forall bookmark, P (call bookmark).fst) (count : Nat)
    (bookmark : cursor) : forall shown, shown ∈ pages call count bookmark -> P shown := by
  induction count generalizing bookmark with
  | zero =>
      intro shown hshown
      exact absurd hshown not_mem_nil
  | succ count ih =>
      intro shown hshown
      rcases mem_cons.mp hshown with hfirst | hlater
      · rw [hfirst]
        exact h bookmark
      · exact ih (call bookmark).snd shown hlater

/-- A call takes at least so many items, or all there are, from the front of its order to
its end, and does for each of them what is to be done. -/
def TakesTurns (order : cursor -> List item) (call : cursor -> page × cursor)
    (Done : page -> item -> Prop) (least : Nat) : Prop :=
  forall bookmark, exists front back,
    order bookmark = front ++ back ∧ order (call bookmark).snd = back ++ front ∧
      (back = [] ∨ least <= front.length) ∧
        forall x, x ∈ front -> Done (call bookmark).fst x

theorem TakesTurns.rest {order : cursor -> List item} {Done : page -> item -> Prop} {least : Nat}
    (h : TakesTurns order call Done least) {count : Nat} {bookmark : cursor} {rest old : List item}
    (horder : order bookmark = rest ++ old) (hcount : rest.length <= least * count) :
    forall x, x ∈ rest -> exists shown, shown ∈ pages call count bookmark ∧ Done shown x := by
  induction count generalizing bookmark rest old with
  | zero =>
      intro x hx
      rw [eq_nil_of_length_eq_zero (Nat.le_zero.mp hcount)] at hx
      exact absurd hx not_mem_nil
  | succ count ih =>
      intro x hx
      rcases h bookmark with ⟨front, back, hsplit, hnext, hleast, hdone⟩
      have hhere : x ∈ front -> exists shown,
          shown ∈ pages call (count + 1) bookmark ∧ Done shown x :=
        fun hfront => ⟨(call bookmark).fst, mem_cons_self, hdone x hfront⟩
      rw [hsplit] at horder
      rcases append_eq_append_iff.mp horder with ⟨later, hrest, hback⟩ | ⟨more, hfront, -⟩
      · rw [hrest] at hx
        rcases mem_append.mp hx with hfront | hlater
        · exact hhere hfront
        · have hfull : least <= front.length := by
            apply hleast.resolve_left
            rw [hback]
            exact append_ne_nil_of_left_ne_nil (ne_nil_of_mem hlater) old
          have hless : later.length <= least * count := by
            rw [hrest, length_append, Nat.mul_succ] at hcount
            omega
          have horder' : order (call bookmark).snd = later ++ (old ++ front) := by
            rw [hnext, hback, append_assoc]
          rcases ih horder' hless x hlater with ⟨shown, hshown, hdone'⟩
          exact ⟨shown, mem_cons_of_mem _ hshown, hdone'⟩
      · apply hhere
        rw [hfront]
        exact mem_append_left more hx

theorem TakesTurns.all {order : cursor -> List item} {Done : page -> item -> Prop} {least : Nat}
    (h : TakesTurns order call Done least) {count : Nat} {bookmark : cursor}
    (hcount : (order bookmark).length <= least * count) {x : item} (hx : x ∈ order bookmark) :
    exists shown, shown ∈ pages call count bookmark ∧ Done shown x :=
  h.rest (append_nil (order bookmark)).symm hcount x hx

end Rounds

namespace GossipCursor

/-- Where the bookmark is after entries were worked off. -/
def past (cursor : GossipCursor) (front : List (ServerEntry × SignedDescriptor)) : GossipCursor :=
  match front.getLast? with
  | none => cursor
  | some held => ⟨some held.fst.addr⟩

theorem past_cons (cursor : GossipCursor) (held : ServerEntry × SignedDescriptor)
    (rest : List (ServerEntry × SignedDescriptor)) :
    past cursor (held :: rest) = past ⟨some held.fst.addr⟩ rest := by
  unfold past
  rw [getLast?_cons]
  cases rest.getLast? with
  | none => rfl
  | some last => rfl

theorem past_append (cursor : GossipCursor) (head : List (ServerEntry × SignedDescriptor))
    {front : List (ServerEntry × SignedDescriptor)} (h : front ≠ []) :
    past cursor (head ++ front) = past cursor front := by
  unfold past
  rw [getLast?_append_of_ne_nil head h]

/-!
## The order from a bookmark
-/

section Order

variable {entries : List ServerEntry}

theorem perm_ordered (cursor : GossipCursor) (entries : List ServerEntry) :
    (cursor.ordered entries).Perm (entries.filterMap signedOf) := by
  have hrotated : forall start (signed : List (ServerEntry × SignedDescriptor)),
      (signed.drop start ++ signed.take start).Perm signed := by
    intro start signed
    have hsplit := take_append_drop start signed
    exact perm_append_comm.trans (Perm.of_eq hsplit)
  exact (hrotated _ _).trans (perm_listBy _ _)

variable (hdistinct : ((entries.filterMap signedOf).map (fun held => held.fst.addr)).Nodup)
include hdistinct

theorem nodup_ordered (cursor : GossipCursor) :
    ((cursor.ordered entries).map (fun held => held.fst.addr)).Nodup :=
  ((perm_ordered cursor entries).map _).nodup_iff.mpr hdistinct

theorem strict_signed :
    (listBy (fun held => held.fst.addr.rank) (entries.filterMap signedOf)).Pairwise
      (fun x y => x.fst.addr.rank < y.fst.addr.rank) := by
  apply strict_listBy
  have hranks := hdistinct.map SocketAddr.rank_injective
  rwa [map_map] at hranks

/-- From the bookmark on an entry, the order is what is behind it and then what is up to
it. -/
theorem ordered_after (front back : List (ServerEntry × SignedDescriptor))
    (hsplit : listBy (fun held => held.fst.addr.rank) (entries.filterMap signedOf) =
      front ++ back) (hfront : front ≠ []) (cursor : GossipCursor) :
    (past cursor front).ordered entries = back ++ front := by
  rcases eq_nil_or_concat front with hnil | ⟨before, last, hlast⟩
  · exact absurd hnil hfront
  rw [concat_eq_append] at hlast
  have hstrict := strict_signed hdistinct
  rw [hsplit] at hstrict
  have hpast : past cursor front = ⟨some last.fst.addr⟩ := by
    unfold past
    rw [hlast, getLast?_concat]
  have hnone : front.findIdx? (fun held => decide (last.fst.addr.rank < held.fst.addr.rank)) =
      none := by
    rw [findIdx?_eq_none_iff]
    intro held hheld
    rw [decide_eq_false_iff_not]
    have hordered := (pairwise_append.mp hstrict).left
    rw [hlast] at hheld hordered
    rcases mem_append.mp hheld with hbefore | hsame
    · exact Nat.lt_asymm
        ((pairwise_append.mp hordered).right.right held hbefore last mem_cons_self)
    · rw [mem_singleton.mp hsame]
      exact Nat.lt_irrefl _
  rw [hpast]
  unfold ordered
  dsimp only
  rw [hsplit, findIdx?_append, hnone, Option.none_or]
  cases back with
  | nil =>
      rw [findIdx?_nil, Option.map_none, Option.getD_none, drop_zero,
        take_zero, append_nil, append_nil, nil_append]
  | cons next back =>
      have hlater : last.fst.addr.rank < next.fst.addr.rank := by
        apply (pairwise_append.mp hstrict).right.right last _ next mem_cons_self
        rw [hlast]
        exact mem_append_right before mem_cons_self
      rw [findIdx?_cons, if_pos (decide_eq_true hlater), Option.map_some,
        Option.getD_some, Nat.zero_add, drop_left, take_left]

theorem ordered_past {cursor : GossipCursor}
    {front back : List (ServerEntry × SignedDescriptor)}
    (hsplit : cursor.ordered entries = front ++ back) :
    (past cursor front).ordered entries = back ++ front := by
  cases hfront : front with
  | nil =>
      rw [hfront, nil_append] at hsplit
      rw [append_nil]
      exact hsplit
  | cons first others =>
      rw [<- hfront]
      have hsome : front ≠ [] := by
        rw [hfront]
        exact cons_ne_nil first others
      -- the rotation is undone, and the front lies before or across the end
      have hrotated : exists tail head,
          listBy (fun held => held.fst.addr.rank) (entries.filterMap signedOf) = head ++ tail ∧
            tail ++ head = front ++ back :=
        ⟨_, _, (take_append_drop _ _).symm, hsplit⟩
      rcases hrotated with ⟨tail, head, hsorted, heq⟩
      rcases append_eq_append_iff.mp heq with ⟨more, hacross, hhead⟩ | ⟨rest, htail, hback⟩
      · cases hmore : more with
        | nil =>
            rw [hmore, append_nil] at hacross
            rw [hmore, nil_append] at hhead
            have hwhole := ordered_after hdistinct (head ++ tail) []
              (by rw [hsorted, append_nil])
              (append_ne_nil_of_right_ne_nil head (hacross ▸ hsome)) cursor
            rw [past_append cursor head (hacross ▸ hsome)] at hwhole
            rw [hacross, hwhole, nil_append, hhead]
        | cons item items =>
            have hne : more ≠ [] := hmore ▸ cons_ne_nil item items
            have hinside := ordered_after hdistinct more (back ++ tail)
              (by rw [hsorted, hhead, append_assoc]) hne cursor
            rw [hacross, past_append cursor tail hne, hinside, append_assoc]
      · have hinside := ordered_after hdistinct (head ++ front) rest
          (by rw [hsorted, htail, append_assoc])
          (append_ne_nil_of_right_ne_nil head hsome) cursor
        rw [<- past_append cursor head hsome, hinside, hback, append_assoc]

end Order

/-!
## Digests

Sixteen entries of a digest always fit a datagram, so only the count cuts the page.
-/

def entryOf (held : ServerEntry × SignedDescriptor) : DigestEntry :=
  ⟨held.fst.addr, held.snd.descriptor.serverKey, held.snd.descriptor.timestamp⟩

theorem length_digestEntry_le (e : DigestEntry) :
    ((GossipMessage.digestEntry Format.wire).encode e).length <= 62 := by
  show (Format.wire.socketAddr.encode e.addr ++
    (Codec.littleEndian 32 e.serverKey.toNat ++ Format.wire.i64.encode e.timestamp)).length <= 62
  rw [length_append, length_append, Codec.length_littleEndian]
  have haddr := Format.length_socketAddr_le e.addr
  have htimestamp := Format.length_i64_le e.timestamp
  omega

theorem length_digest_le {es : List DigestEntry} (h : es.length <= maxDigestEntries) :
    (GossipMessage.encode Format.wire (.digest es)).length <= maxGossipDatagram := by
  show (gossipMagic ++ gossipVersion :: (Format.wire.u32.encode 0 ++
    (Codec.varint.encode es.length ++
      es.flatMap (GossipMessage.digestEntry Format.wire).encode))).length <= 1200
  unfold maxDigestEntries at h
  have hmagic : gossipMagic.length = 4 := rfl
  have hkind : (Format.wire.u32.encode 0).length <= 1 := by
    apply length_varint_le (k := 0)
    decide
  have hcount : (Codec.varint.encode es.length).length <= 1 := by
    apply length_varint_le (k := 0)
    omega
  have hentries : (es.flatMap _).length <= es.length * _ :=
    Format.length_flatMap_le (fun e _ => length_digestEntry_le e)
  rw [length_append, length_cons, length_append, length_append, hmagic]
  omega

theorem digestLoop_eq {page : List (ServerEntry × SignedDescriptor)} {shown : List DigestEntry}
    {cursor : GossipCursor} (h : shown.length + page.length <= maxDigestEntries) :
    digestLoop Format.wire page shown cursor = (shown ++ page.map entryOf, past cursor page) := by
  induction page generalizing shown cursor with
  | nil =>
      rw [map_nil, append_nil]
      rfl
  | cons held rest ih =>
      rcases held with ⟨entry, signed⟩
      rw [length_cons] at h
      have hlonger : (shown ++ [entryOf (entry, signed)]).length + rest.length <=
          maxDigestEntries := by
        rw [length_append, length_singleton]
        omega
      have hfits : (GossipMessage.encode Format.wire
          (.digest (shown ++ [entryOf (entry, signed)]))).length <= maxGossipDatagram :=
        length_digest_le (by omega)
      have hshown : shown ++ ((entry, signed) :: rest).map entryOf =
          shown ++ [entryOf (entry, signed)] ++ rest.map entryOf := by
        rw [map_cons, append_assoc, singleton_append]
      unfold digestLoop
      rw [past_cons, hshown, <- ih hlonger]
      exact if_neg (Nat.not_lt.mpr hfits)

theorem digest_eq (cursor : GossipCursor) (entries : List ServerEntry) :
    cursor.digest Format.wire entries =
      (((cursor.ordered entries).take maxDigestEntries).map entryOf,
        past cursor ((cursor.ordered entries).take maxDigestEntries)) := by
  unfold digest
  rw [digestLoop_eq, nil_append]
  rw [length_nil, Nat.zero_add]
  exact length_take_le _ _

/-!
## Pushes
-/

section Push

variable (theirs : List DigestEntry) (peer : SocketAddr) (maxBytes : Nat)

def Fits (batch : List SignedDescriptor) : Prop :=
  (GossipMessage.encode Format.wire (.batch batch)).length <= min maxBytes maxGossipDatagram

/-- An entry that the peer did not send, does not have, and can be sent. -/
structure Due (held : ServerEntry × SignedDescriptor) : Prop where
  notVia : held.fst.via ≠ some peer
  notHeld : holdsSince (GossipDigest.stamps theirs) held.fst.addr
    held.snd.descriptor.timestamp = false
  fits : Fits maxBytes [held.snd]

variable {theirs peer maxBytes}

theorem subset_pushLoop {page : List (ServerEntry × SignedDescriptor)}
    {batch : List SignedDescriptor} {cursor : GossipCursor} :
    batch ⊆ (pushLoop Format.wire theirs peer maxBytes page batch cursor).fst := by
  induction page generalizing batch cursor with
  | nil => exact Subset.refl batch
  | cons held rest ih =>
      rcases held with ⟨entry, signed⟩
      unfold pushLoop
      split
      · split
        · split
          · exact ih
          · exact Subset.refl batch
        · exact fun sent hsent => ih (mem_append_left [signed] hsent)
      · exact ih

theorem fits_pushLoop {page : List (ServerEntry × SignedDescriptor)}
    {batch : List SignedDescriptor} {cursor : GossipCursor} (h : batch = [] ∨ Fits maxBytes batch) :
    (pushLoop Format.wire theirs peer maxBytes page batch cursor).fst = [] ∨
      Fits maxBytes (pushLoop Format.wire theirs peer maxBytes page batch cursor).fst := by
  induction page generalizing batch cursor with
  | nil => exact h
  | cons held rest ih =>
      rcases held with ⟨entry, signed⟩
      unfold pushLoop
      split
      · split
        · split
          · exact ih h
          · exact h
        · rename_i hfits
          exact ih (Or.inr (Nat.le_of_not_lt hfits))
      · exact ih h

/-- A call works off some front of its page, the first entry at least, and sends what of it
is due: an entry that fits by itself is only put off when others go first. -/
theorem pushLoop_split (page : List (ServerEntry × SignedDescriptor))
    (batch : List SignedDescriptor) (cursor : GossipCursor) :
    exists front back, page = front ++ back ∧
      (pushLoop Format.wire theirs peer maxBytes page batch cursor).snd = past cursor front ∧
        (back = [] ∨ batch ≠ [] ∨ 1 <= front.length) ∧
          forall held, held ∈ front -> Due theirs peer maxBytes held ->
            held.snd ∈ (pushLoop Format.wire theirs peer maxBytes page batch cursor).fst := by
  induction page generalizing batch cursor with
  | nil =>
      exact ⟨[], [], rfl, rfl, Or.inl rfl, fun _ hheld => absurd hheld not_mem_nil⟩
  | cons held rest ih =>
      rcases held with ⟨entry, signed⟩
      -- the loop goes on, with or without the entry in the batch
      have hgo : forall batch', (Due theirs peer maxBytes (entry, signed) -> signed ∈ batch') ->
          exists front back, (entry, signed) :: rest = front ++ back ∧
            (pushLoop Format.wire theirs peer maxBytes rest batch' ⟨some entry.addr⟩).snd =
              past cursor front ∧ (back = [] ∨ batch ≠ [] ∨ 1 <= front.length) ∧
                forall held, held ∈ front -> Due theirs peer maxBytes held ->
                  held.snd ∈ (pushLoop Format.wire theirs peer maxBytes rest batch'
                    ⟨some entry.addr⟩).fst := by
        intro batch' hsent
        rcases ih batch' ⟨some entry.addr⟩ with ⟨front, back, hsplit, hnext, -, hdone⟩
        refine ⟨(entry, signed) :: front, back, ?_, ?_, Or.inr (Or.inr (Nat.succ_pos _)), ?_⟩
        · rw [hsplit, cons_append]
        · rw [hnext, past_cons]
        · intro held hheld hdue
          rcases mem_cons.mp hheld with hfirst | hlater
          · rw [hfirst] at hdue ⊢
            exact subset_pushLoop (hsent hdue)
          · exact hdone held hlater hdue
      unfold pushLoop
      split
      · split
        · rename_i hlarge
          split
          · rename_i hempty
            apply hgo batch
            intro hdue
            rw [List.isEmpty_iff.mp hempty, nil_append] at hlarge
            exact absurd hdue.fits (Nat.not_le.mpr hlarge)
          · rename_i hsome
            exact ⟨[], (entry, signed) :: rest, rfl, rfl,
              Or.inr (Or.inl (fun hnil => hsome (List.isEmpty_iff.mpr hnil))),
              fun _ hheld => absurd hheld not_mem_nil⟩
        · exact hgo (batch ++ [signed]) (fun _ => mem_append_right batch mem_cons_self)
      · rename_i hskipped
        exact hgo batch (fun hdue => absurd ⟨hdue.notVia, hdue.notHeld⟩ hskipped)

end Push

/-!
## Turns
-/

section Turns

variable {entries : List ServerEntry}
  (hdistinct : ((entries.filterMap signedOf).map (fun held => held.fst.addr)).Nodup)
include hdistinct

theorem takesTurns_digest : TakesTurns (fun cursor => ordered cursor entries)
      (fun cursor => cursor.digest Format.wire entries)
      (fun shown held => entryOf held ∈ shown) maxDigestEntries := by
  intro cursor
  have hsplit := (take_append_drop maxDigestEntries (cursor.ordered entries)).symm
  refine ⟨_, _, hsplit, ?_, ?_, ?_⟩
  · dsimp only
    rw [digest_eq]
    exact ordered_past hdistinct hsplit
  · rcases Nat.le_total maxDigestEntries (cursor.ordered entries).length with hlong | hshort
    · right
      rw [length_take, Nat.min_eq_left hlong]
    · left
      exact drop_eq_nil_of_le hshort
  · intro held hheld
    dsimp only
    rw [digest_eq]
    exact mem_map_of_mem hheld

theorem takesTurns_pushBatch (theirs : List DigestEntry) (peer : SocketAddr) (maxBytes : Nat) :
    TakesTurns (fun cursor => ordered cursor entries)
      (fun cursor => cursor.pushBatch Format.wire entries theirs peer maxBytes)
      (fun batch held => Due theirs peer maxBytes held -> held.snd ∈ batch) 1 := by
  intro cursor
  rcases @pushLoop_split theirs peer maxBytes
    ((cursor.ordered entries).take maxWantEntries) [] cursor with
    ⟨front, back, hpage, hnext, hleast, hdone⟩
  have hsplit : cursor.ordered entries =
      front ++ (back ++ (cursor.ordered entries).drop maxWantEntries) := by
    rw [<- append_assoc, <- hpage, take_append_drop]
  refine ⟨front, _, hsplit, ?_, ?_, hdone⟩
  · exact (congrArg (fun c => ordered c entries) hnext).trans (ordered_past hdistinct hsplit)
  · cases hfront : front with
    | cons first others =>
        right
        exact Nat.succ_pos _
    | nil =>
        -- no entry was worked off, so the page was empty
        left
        rw [hfront] at hleast hpage
        have hback : back = [] := by
          rcases hleast with hnil | hsome | hone
          · exact hnil
          · exact absurd rfl hsome
          · exact absurd hone (Nat.not_succ_le_zero 0)
        rw [hback, nil_append, take_eq_nil_iff] at hpage
        rw [hback, hpage.resolve_left (by decide), drop_nil, append_nil]

end Turns

/-- While the signed entries stay as they are, enough consecutive digests show every
address, none of them twice on a page, and as many pushes to one peer as there are entries
send it everything that is due to it, in batches within the budget. -/
theorem everybody_has_a_turn {entries : List ServerEntry}
    (hdistinct : ((entries.filterMap signedOf).map (fun held => held.fst.addr)).Nodup)
    (cursor : GossipCursor) (count : Nat) :
    (forall shown, shown ∈ pages (fun c => c.digest Format.wire entries) count cursor ->
        (shown.map DigestEntry.addr).Nodup) ∧
      ((entries.filterMap signedOf).length <= maxDigestEntries * count ->
        forall held, held ∈ entries.filterMap signedOf ->
          exists shown, shown ∈ pages (fun c => c.digest Format.wire entries) count cursor ∧
            held.fst.addr ∈ shown.map DigestEntry.addr) ∧
      forall theirs peer maxBytes,
        (forall batch, batch ∈ pages (fun c => c.pushBatch Format.wire entries theirs peer maxBytes)
            count cursor -> batch = [] ∨ Fits maxBytes batch) ∧
        ((entries.filterMap signedOf).length <= count ->
          forall held, held ∈ entries.filterMap signedOf -> Due theirs peer maxBytes held ->
            exists batch,
              batch ∈ pages (fun c => c.pushBatch Format.wire entries theirs peer maxBytes)
                count cursor ∧ held.snd ∈ batch) := by
  have hall := perm_ordered cursor entries
  refine ⟨?_, ?_, ?_⟩
  · apply forall_pages
    intro bookmark
    rw [digest_eq, map_map]
    exact (nodup_ordered hdistinct bookmark).sublist ((take_sublist _ _).map _)
  · intro hcount held hheld
    rcases (takesTurns_digest hdistinct).all (hall.length_eq ▸ hcount) (hall.mem_iff.mpr hheld)
      with ⟨shown, hshown, hentry⟩
    exact ⟨shown, hshown, mem_map_of_mem hentry⟩
  · intro theirs peer maxBytes
    constructor
    · apply forall_pages
      intro bookmark
      exact fits_pushLoop (Or.inl rfl)
    · intro hcount held hheld hdue
      have hless : (cursor.ordered entries).length <= 1 * count := by
        rw [Nat.one_mul, hall.length_eq]
        exact hcount
      rcases (takesTurns_pushBatch hdistinct theirs peer maxBytes).all hless
        (hall.mem_iff.mpr hheld) with ⟨batch, hbatch, hsent⟩
      exact ⟨batch, hbatch, hsent hdue⟩

def burrow (port : UInt16) : SignedDescriptor where
  descriptor := ⟨7, [], [], ⟨.v4 0xcb007107, port⟩, [], 12, 0, [], 100⟩
  sig := 0

def burrows : List ServerEntry :=
  [ServerEntry.fromSigned (burrow 5501) none 0, ServerEntry.fromSigned (burrow 5500) none 0]

theorem everybody_has_a_turn_burrows :
    (exists shown, shown ∈ pages (fun c => c.digest Format.wire burrows) 1 default ∧
        (burrow 5501).descriptor.addr ∈ shown.map DigestEntry.addr) ∧
      exists batch,
        batch ∈ pages (fun c => c.pushBatch Format.wire burrows [] ⟨.v4 0x7f000001, 4656⟩ 200)
          2 default ∧ burrow 5501 ∈ batch := by
  have hmem : (ServerEntry.fromSigned (burrow 5501) none 0, burrow 5501) ∈
      burrows.filterMap signedOf :=
    mem_cons_self
  constructor
  · exact (everybody_has_a_turn (by decide) default 1).right.left (by decide) _ hmem
  · apply ((everybody_has_a_turn (by decide) default 2).right.right [] _ 200).right
      (by decide) _ hmem
    exact ⟨by decide, rfl, by unfold Fits; decide +kernel⟩

end GossipCursor
end Rabbithole.Tracker
