import Rabbithole.Boards.Store
import Rabbithole.Federation.HistoryTurns
import Rabbithole.Foundation.Paging

/-!
# Offering the history

A pass reads a page of the stored posts and follow-ups behind the link's cursor and offers
the eligible ones, one frame a board.  Content ids are numbers here: a blob is compared as the
number that it is, with its first byte the highest.
-/

namespace Rabbithole.Federation
namespace History

open Foundation List

open Boards (EventId BoardRow PostRow FollowupRow Store foldCase)

def scanLimit : Nat := 256

def offerIds : Nat := 128

def offerFrames : Nat := 8

/-!
## Pages
-/

/-- A position in the union of the stored posts, of kind 0, and the follow-ups, of kind 1. -/
structure HistoryCursor where
  eventId : EventId
  kind : Nat
deriving DecidableEq

structure HistoryEntry where
  cursor : HistoryCursor
  board : String
  postable : Bool
  rootId : EventId
  targetId : EventId
deriving DecidableEq

namespace HistoryCursor

def rank (c : HistoryCursor) : Nat ×ₗ Nat :=
  toLex (c.eventId.toNat, c.kind)

/-- Whether a row of one of the tables is behind the cursor. -/
def before (after : Option HistoryCursor) (id : EventId) (kind : Nat) : Bool :=
  match after with
  | none => true
  | some c => decide (c.eventId.toNat <= id.toNat ∧ (id ≠ c.eventId ∨ c.kind < kind))

end HistoryCursor

namespace HistoryEntry

def ofPost (s : Store) (row : PostRow) : HistoryEntry where
  cursor := { eventId := row.eventId, kind := 0 }
  board := ((s.bySlug row.boardSlug).map BoardRow.slug).getD row.boardSlug
  postable := ((s.bySlug row.boardSlug).map (fun b => decide (b.kind = 2))).getD false
  rootId := row.rootId.getD row.eventId
  targetId := row.eventId

def ofFollowup (s : Store) (row : FollowupRow) : HistoryEntry where
  cursor := { eventId := row.eventId, kind := 1 }
  board := ((s.bySlug row.boardSlug).map BoardRow.slug).getD row.boardSlug
  postable := ((s.bySlug row.boardSlug).map (fun b => decide (b.kind = 2))).getD false
  rootId := row.rootId
  targetId := row.targetId

end HistoryEntry

/-- At most 256 rows: each table's first ones behind the cursor, and the first of both. -/
def historyPage (s : Store) (after : Option HistoryCursor) (limit : Nat) : List HistoryEntry :=
  let limit := min limit 256
  let posts := (listBy (fun row => row.eventId.toNat)
    (s.posts.rows.filter (fun row => HistoryCursor.before after row.eventId 0))).take limit
  let followups := (listBy (fun row => row.eventId.toNat)
    (s.followups.rows.filter (fun row => HistoryCursor.before after row.eventId 1))).take limit
  (listBy (fun entry => entry.cursor.rank)
    (posts.map (HistoryEntry.ofPost s) ++ followups.map (HistoryEntry.ofFollowup s))).take limit

/-!
## Interests
-/

inductive Interest where
  | none
  | all
  | boards (slugs : List String)

namespace Interest

def covers (interest : Interest) (board : String) : Bool :=
  match interest with
  | none => false
  | all => true
  | boards slugs => slugs.any (fun slug => decide (foldCase slug = foldCase board))

end Interest

def maxSubscribeBoards : Nat := 256

def localInterest (wanted : List String) : Interest :=
  if wanted.any (fun board => decide (board = "*" ∨ board = "all")) then .all
  else if wanted.isEmpty then .none
  else .boards (wanted.take maxSubscribeBoards)

def hasInterest (interest : Interest) : Bool :=
  match interest with
  | .none => false
  | .all => true
  | .boards slugs => !slugs.isEmpty

/-- What a pass looks at: the store, the configuration, the posts that are held back, and
whether the peer is approved under its origin. -/
structure Shared where
  store : Store
  subscribe : List String
  reofferSecs : Nat
  quarantined : EventId -> Bool
  approved : Bool

/-- A peer's session: its registration, and the boards it wants. -/
structure Edge (key : Type) where
  history : Option (Handle key)
  interest : Interest

def eligible (shared : Shared) (ours theirs : Interest) (entry : HistoryEntry) : Bool :=
  entry.postable && ours.covers entry.board && theirs.covers entry.board &&
    !shared.quarantined entry.targetId && !shared.quarantined entry.rootId

/-!
## One pass
-/

structure IHave where
  board : String
  eventIds : List EventId
deriving DecidableEq

/-- The entries to offer on one board. -/
abbrev Batch := String × List HistoryEntry

/-- Put an entry behind the others of its board. -/
def addTo (entry : HistoryEntry) : List Batch -> List Batch
  | [] => [(entry.board, [entry])]
  | batch :: rest =>
      if batch.fst = entry.board then (batch.fst, batch.snd ++ [entry]) :: rest
      else batch :: addTo entry rest

structure Scan where
  completePage : Bool
  cursor : Option HistoryCursor
  batches : List Batch
  offered : Nat

/-- Walk the page.  An entry that is not offered does not stop the cursor; one that there
is no room for stops the walk before it. -/
def scan (chosen : HistoryEntry -> Bool) : List HistoryEntry -> Scan -> Scan
  | [], s => s
  | entry :: rest, s =>
      if chosen entry then
        if s.offered = offerIds ∨
            (s.batches.any (fun batch => batch.fst = entry.board) = false ∧
              s.batches.length = offerFrames) then
          { s with completePage := false }
        else
          scan chosen rest { s with
            cursor := some entry.cursor
            batches := addTo entry s.batches
            offered := s.offered + 1 }
      else
        scan chosen rest { s with cursor := some entry.cursor }

/-- What may go wrong in a pass: reading the page, reading a board, sending a frame. -/
structure Faults where
  page : Bool
  board : Nat -> Bool
  send : Nat -> Bool

inductive Ending where
  | idle
  | unavailable
  | revoked
  | lost
  | completed
deriving DecidableEq

/-- Send the batches; the boards and the entries are looked at again. -/
def sendBatches (shared : Shared) (theirs : Interest) (faults : Faults) :
    Nat -> List Batch -> List IHave -> List IHave × Ending
  | _, [], sent => (sent, .completed)
  | i, (board, entries) :: rest, sent =>
      if faults.board i then (sent, .unavailable)
      else
        match shared.store.bySlug board with
        | none => sendBatches shared theirs faults (i + 1) rest sent
        | some row =>
            if row.kind ≠ 2 then sendBatches shared theirs faults (i + 1) rest sent
            else
              let ids := (entries.filter
                (eligible shared (localInterest shared.subscribe) theirs)).map
                  (fun entry => entry.cursor.eventId)
              if ids.isEmpty then sendBatches shared theirs faults (i + 1) rest sent
              else if shared.approved = false then (sent, .revoked)
              else if faults.send i then (sent, .lost)
              else
                sendBatches shared theirs faults (i + 1) rest
                  (sent ++ [{ board := row.slug, eventIds := ids }])

structure Offered (key : Type) where
  state : State key HistoryCursor
  sent : List IHave
  ending : Ending

variable {key : Type} [DecidableEq key]

/-- The pass that a link was granted. -/
def offerPass (shared : Shared) (interest : Interest) (faults : Faults) (r : Handle key)
    (after : Option HistoryCursor) (s : State key HistoryCursor) : Offered key :=
  if faults.page then ⟨s.dropPass r.peer r.link, [], .unavailable⟩
  else
    let rows := historyPage shared.store after scanLimit
    let atEnd := decide (rows.length < scanLimit)
    let walked := scan (eligible shared (localInterest shared.subscribe) interest) rows
      { completePage := true, cursor := after, batches := [], offered := 0 }
    match sendBatches shared interest faults 0 walked.batches [] with
    | (sent, .completed) =>
        ⟨s.finish r.peer r.link (if walked.completePage && atEnd then none else walked.cursor),
          sent, .completed⟩
    | (sent, ending) => ⟨s.dropPass r.peer r.link, sent, ending⟩

def offerAt (shared : Shared) (edge : Edge key) (periodic : Bool) (now : Nat) (faults : Faults)
    (s : State key HistoryCursor) : Offered key :=
  match edge.history with
  | none => ⟨s, [], .idle⟩
  | some r =>
      let s := s.active r.peer r.link
        (hasInterest (localInterest shared.subscribe) && hasInterest edge.interest)
      if periodic && shared.reofferSecs == 0 then ⟨s, [], .idle⟩
      else if shared.approved = false then ⟨s, [], .revoked⟩
      else
        match s.begin r.peer r.link now shared.reofferSecs with
        | (none, s) => ⟨s, [], .idle⟩
        | (some after, s) => offerPass shared edge.interest faults r after s

/-!
## Pass after pass
-/

structure OfferCall where
  periodic : Bool
  now : Nat
  faults : Faults

/-- A pass that was completed, with the link's cursor before and after it. -/
structure Completed where
  after : Option HistoryCursor
  sent : List IHave
  next : Option HistoryCursor

def State.cursor? (s : State key HistoryCursor) (r : Handle key) : Option HistoryCursor :=
  (s.link? r.peer r.link).bind Link.cursor

/-- A link's calls, one after another, and the passes completed. -/
def offers (shared : Shared) (edge : Edge key) (r : Handle key) :
    State key HistoryCursor -> List OfferCall -> State key HistoryCursor × List Completed
  | s, [] => (s, [])
  | s, call :: rest =>
      let offered := offerAt shared edge call.periodic call.now call.faults s
      let later := offers shared edge r offered.state rest
      (later.fst,
        if offered.ending = .completed then
          ⟨s.cursor? r, offered.sent, offered.state.cursor? r⟩ :: later.snd
        else later.snd)

def entries (s : Store) : List HistoryEntry :=
  listBy (fun entry => entry.cursor.rank)
    (s.posts.rows.map (HistoryEntry.ofPost s) ++ s.followups.rows.map (HistoryEntry.ofFollowup s))

/-- What the frames offer: ids, and the boards they are offered on. -/
def IHave.ids (sent : List IHave) : List (String × EventId) :=
  sent.flatMap (fun frame => frame.eventIds.map (fun id => (frame.board, id)))

/-!
# What one pass offers

The pages of the two tables are pages of all entries in the order of the cursors, and a pass
offers what is eligible in a front part of what is behind its cursor, which it leaves at the
end of that.
-/

open Boards (EventId BoardRow PostRow FollowupRow Store foldCase)

/-!
## The order of the entries
-/

/-- Whether a position is behind the cursor. -/
def past (after : Option HistoryCursor) (c : HistoryCursor) : Bool :=
  match after with
  | none => true
  | some a => decide (a.rank < c.rank)

theorem before_eq_past (after : Option HistoryCursor) (id : EventId) (kind : Nat) :
    HistoryCursor.before after id kind = past after ⟨id, kind⟩ := by
  cases after with
  | none => rfl
  | some a =>
      unfold HistoryCursor.before past HistoryCursor.rank
      simp only []
      rw [decide_eq_decide, Prod.Lex.toLex_lt_toLex]
      simp only []
      constructor
      · rintro ⟨hle, hne | hkind⟩
        · left
          apply Nat.lt_of_le_of_ne hle
          intro heq
          exact hne (BitVec.toNat_inj.mp heq.symm)
        · rcases Nat.lt_or_eq_of_le hle with hlt | heq
          · exact Or.inl hlt
          · exact Or.inr ⟨heq, hkind⟩
      · rintro (hlt | ⟨heq, hkind⟩)
        · refine ⟨Nat.le_of_lt hlt, Or.inl ?_⟩
          rintro rfl
          exact Nat.lt_irrefl _ hlt
        · exact ⟨Nat.le_of_eq heq, Or.inr hkind⟩

variable {s : Store}

theorem nodup_cursors (s : Store) : ((s.posts.rows.map (HistoryEntry.ofPost s) ++
      s.followups.rows.map (HistoryEntry.ofFollowup s)).map
        (fun entry => entry.cursor.rank)).Nodup := by
  rw [map_append, map_map, map_map]
  have hpost : ((fun entry : HistoryEntry => entry.cursor.rank) ∘ HistoryEntry.ofPost s) =
      (fun id : EventId => toLex (id.toNat, 0)) ∘ PostRow.eventId := rfl
  have hfollowup : ((fun entry : HistoryEntry => entry.cursor.rank) ∘ HistoryEntry.ofFollowup s) =
      (fun id : EventId => toLex (id.toNat, 1)) ∘ FollowupRow.eventId := rfl
  have hinj : forall kind : Nat,
      Function.Injective (fun id : EventId => toLex (id.toNat, kind)) := by
    intro kind a b hab
    simp only [toLex_inj, Prod.mk.injEq, BitVec.toNat_inj] at hab
    exact hab.left
  rw [hpost, hfollowup, <- map_map, <- map_map]
  apply nodup_append.mpr ⟨s.posts.nodup.map (hinj 0), s.followups.nodup.map (hinj 1), ?_⟩
  intro a ha b hb hab
  rcases mem_map.mp ha with ⟨id, -, rfl⟩
  rcases mem_map.mp hb with ⟨id', -, rfl⟩
  rw [toLex_inj, Prod.mk.injEq] at hab
  exact absurd hab.right (by decide)

theorem strict_entries (s : Store) :
    (entries s).Pairwise (fun x y => x.cursor.rank < y.cursor.rank) :=
  strict_listBy (nodup_cursors s)

theorem length_entries (s : Store) :
    (entries s).length = s.posts.rows.length + s.followups.rows.length := by
  unfold entries
  rw [(perm_listBy _ _).length_eq, length_append, length_map, length_map]

def remaining (s : Store) (after : Option HistoryCursor) : List HistoryEntry :=
  (entries s).filter (fun entry => past after entry.cursor)

theorem remaining_none (s : Store) : remaining s none = entries s :=
  filter_eq_self.mpr (fun _ _ => rfl)

theorem map_page {row : Type} {id : row -> EventId} {rows : List row}
    (hnodup : (rows.map id).Nodup) {entry : row -> HistoryEntry} {kind : Nat}
    (hentry : forall r, (entry r).cursor = ⟨id r, kind⟩) (after : Option HistoryCursor) (n : Nat) :
    ((listBy (fun r => (id r).toNat)
      (rows.filter (fun r => HistoryCursor.before after (id r) kind))).take n).map entry =
    (listBy (fun e => e.cursor.rank)
      ((rows.map entry).filter (fun e => past after e.cursor))).take n := by
  rw [map_take]
  congr 1
  symm
  apply listBy_eq_of_strict
  · rw [pairwise_map]
    have hids : (((rows.filter (fun r => HistoryCursor.before after (id r) kind)).map
        (fun r => (id r).toNat))).Nodup := by
      have hinj : Function.Injective (BitVec.toNat : EventId -> Nat) :=
        fun a b hab => BitVec.toNat_inj.mp hab
      have hall := (hnodup.map hinj).sublist ((filter_sublist (p := fun r =>
        HistoryCursor.before after (id r) kind) (l := rows)).map id |>.map BitVec.toNat)
      rw [map_map] at hall
      exact hall
    apply (strict_listBy hids).imp
    intro a b hab
    rw [hentry, hentry]
    exact Prod.Lex.toLex_lt_toLex.mpr (Or.inl hab)
  · have hpred : (fun e => past after e.cursor) ∘ entry =
        fun r => HistoryCursor.before after (id r) kind := by
      funext r
      show past after (entry r).cursor = _
      rw [hentry, before_eq_past]
    rw [filter_map, hpred]
    exact ((perm_listBy _ _).symm).map entry

theorem historyPage_eq (s : Store) (after : Option HistoryCursor) (limit : Nat) :
    historyPage s after limit = (remaining s after).take (min limit 256) := by
  unfold historyPage
  simp only []
  rw [map_page s.posts.nodup (fun r => rfl), map_page s.followups.nodup (fun r => rfl)]
  have hnodup := nodup_cursors s
  have hfiltered := hnodup.sublist ((filter_sublist
    (p := fun entry : HistoryEntry => past after entry.cursor)).map _)
  rw [filter_append] at hfiltered
  rw [take_listBy_append hfiltered, <- filter_append, listBy_filter hnodup]
  rfl

theorem remaining_after {after : Option HistoryCursor} {front back : List HistoryEntry}
    {entry : HistoryEntry} (h : remaining s after = front ++ entry :: back) :
    remaining s (some entry.cursor) = back ∧ past after entry.cursor = true := by
  have hmem : entry ∈ remaining s after := by
    rw [h]
    exact mem_append_right _ mem_cons_self
  have hpast : past after entry.cursor = true := (mem_filter.mp hmem).right
  refine ⟨?_, hpast⟩
  have hlater : forall e : HistoryEntry, past (some entry.cursor) e.cursor = true ->
      past after e.cursor = true := by
    intro e he
    cases after with
    | none => rfl
    | some a =>
        unfold past at *
        simp only [decide_eq_true_eq] at *
        exact lt_trans hpast he
  have hsame : remaining s (some entry.cursor) =
      (remaining s after).filter (fun e => past (some entry.cursor) e.cursor) := by
    unfold remaining
    rw [List.filter_filter]
    apply filter_congr
    intro e _
    cases he : past (some entry.cursor) e.cursor with
    | false => rfl
    | true =>
        rw [hlater e he]
        rfl
  have hstrict : (remaining s after).Pairwise (fun x y => x.cursor.rank < y.cursor.rank) :=
    (strict_entries s).filter _
  rw [h] at hstrict
  rcases pairwise_append.mp hstrict with ⟨-, hback, hcross⟩
  have hfront : front.filter (fun e => past (some entry.cursor) e.cursor) = [] := by
    rw [filter_eq_nil_iff]
    intro e he
    have hlt := hcross e he entry mem_cons_self
    unfold past
    simp only [decide_eq_true_eq]
    exact lt_asymm hlt
  have hself : past (some entry.cursor) entry.cursor = false := by
    unfold past
    simp only [decide_eq_false_iff_not]
    exact lt_irrefl _
  have hrest : back.filter (fun e => past (some entry.cursor) e.cursor) = back := by
    rw [filter_eq_self]
    intro e he
    unfold past
    simp only [decide_eq_true_eq]
    exact (pairwise_cons.mp hback).left e he
  rw [hsame, h, filter_append, hfront, nil_append,
    filter_cons_of_neg (by rw [hself]; exact Bool.false_ne_true), hrest]

/-!
## Walking the page
-/

/-- The batches a pass may send: on each board entries of that board, all chosen. -/
structure Fits (chosen : HistoryEntry -> Bool) (walk : Scan) : Prop where
  frames : walk.batches.length <= offerFrames
  ids : (walk.batches.flatMap Prod.snd).length = walk.offered
  room : walk.offered <= offerIds
  batch : forall batch, batch ∈ walk.batches -> batch.snd ≠ [] ∧
    forall entry, entry ∈ batch.snd -> entry.board = batch.fst ∧ chosen entry = true

theorem addTo_perm (entry : HistoryEntry) (batches : List Batch) :
    ((addTo entry batches).flatMap Prod.snd).Perm (batches.flatMap Prod.snd ++ [entry]) := by
  induction batches with
  | nil => exact Perm.refl _
  | cons batch rest ih =>
      unfold addTo
      split
      · rw [flatMap_cons, flatMap_cons, append_assoc, append_assoc]
        exact perm_append_comm.append_left _
      · rw [flatMap_cons, flatMap_cons, append_assoc]
        exact ih.append_left _

theorem length_addTo (entry : HistoryEntry) (batches : List Batch) :
    (addTo entry batches).length = batches.length +
      if batches.any (fun batch => batch.fst = entry.board) then 0 else 1 := by
  induction batches with
  | nil => rfl
  | cons batch rest ih =>
      unfold addTo
      by_cases hboard : batch.fst = entry.board
      · simp [hboard]
      · rw [if_neg hboard, length_cons, ih, any_cons, decide_eq_false hboard,
          Bool.false_or, length_cons]
        omega

theorem mem_addTo {entry : HistoryEntry} {batches : List Batch} {batch : Batch}
    (h : batch ∈ addTo entry batches) :
    batch ∈ batches ∨ (batch.fst = entry.board ∧ exists before,
      batch.snd = before ++ [entry] ∧ (before = [] ∨ (entry.board, before) ∈ batches)) := by
  induction batches with
  | nil =>
      rw [mem_singleton.mp h]
      exact Or.inr ⟨rfl, [], rfl, Or.inl rfl⟩
  | cons first rest ih =>
      unfold addTo at h
      split at h
      · rename_i hboard
        rcases mem_cons.mp h with rfl | hrest
        · refine Or.inr ⟨hboard, first.snd, rfl, Or.inr ?_⟩
          rw [<- hboard]
          exact mem_cons_self
        · exact Or.inl (mem_cons_of_mem _ hrest)
      · rcases mem_cons.mp h with rfl | hrest
        · exact Or.inl mem_cons_self
        · rcases ih hrest with hold | ⟨hboard, before, hsnd, hbefore⟩
          · exact Or.inl (mem_cons_of_mem _ hold)
          · exact Or.inr ⟨hboard, before, hsnd, hbefore.imp id (mem_cons_of_mem _)⟩

theorem Fits.add {chosen : HistoryEntry -> Bool} {walk : Scan} (h : Fits chosen walk)
    {entry : HistoryEntry} (hchosen : chosen entry = true)
    (hroom : ¬ (walk.offered = offerIds ∨
      (walk.batches.any (fun batch => batch.fst = entry.board) = false ∧
        walk.batches.length = offerFrames))) : Fits chosen { walk with
      cursor := some entry.cursor
      batches := addTo entry walk.batches
      offered := walk.offered + 1 } := by
  rw [not_or, not_and] at hroom
  rcases hroom with ⟨hids, hframes⟩
  constructor
  · show (addTo entry walk.batches).length <= offerFrames
    rw [length_addTo]
    have hlength := h.frames
    split
    · exact hlength
    · rename_i hnew
      have hne := hframes (Bool.eq_false_iff.mpr hnew)
      omega
  · show ((addTo entry walk.batches).flatMap Prod.snd).length = walk.offered + 1
    rw [(addTo_perm entry walk.batches).length_eq, length_append, length_singleton, h.ids]
  · show walk.offered + 1 <= offerIds
    have hroom := h.room
    omega
  · intro batch hbatch
    rcases mem_addTo hbatch with hold | ⟨hboard, before, hsnd, hbefore⟩
    · exact h.batch batch hold
    · rw [hsnd, hboard]
      refine ⟨append_ne_nil_of_right_ne_nil _ (cons_ne_nil _ _), ?_⟩
      intro e he
      rcases mem_append.mp he with hfront | hlast
      · rcases hbefore with rfl | hbefore
        · exact absurd hfront not_mem_nil
        · exact (h.batch _ hbefore).right e hfront
      · rw [mem_singleton.mp hlast]
        exact ⟨rfl, hchosen⟩

/-- What a walk has done: it went over a front part of the page, collected what is chosen
there, and stands at its end. -/
structure Walked (chosen : HistoryEntry -> Bool) (rows : List HistoryEntry) (start walk : Scan)
    (done left : List HistoryEntry) : Prop where
  split : rows = done ++ left
  cursor : walk.cursor = (done.getLast?.map HistoryEntry.cursor).or start.cursor
  complete : walk.completePage = true -> left = []
  moved : rows ≠ [] -> start.offered = 0 -> start.batches = [] -> done ≠ []
  collected : (walk.batches.flatMap Prod.snd).Perm
    (start.batches.flatMap Prod.snd ++ done.filter chosen)
  fits : Fits chosen walk

theorem getLast?_map_or {α β : Type} (f : α -> β) (a : α) (rest : List α) (b? : Option β) :
    (((a :: rest).getLast?.map f).or b?) = (rest.getLast?.map f).or (some (f a)) := by
  rw [getLast?_cons]
  cases rest.getLast? with
  | none => rfl
  | some last => rfl

theorem scan_walked (chosen : HistoryEntry -> Bool) (rows : List HistoryEntry) (start : Scan)
    (h : Fits chosen start) :
    exists done left, Walked chosen rows start (scan chosen rows start) done left := by
  induction rows generalizing start with
  | nil =>
      refine ⟨[], [], rfl, rfl, fun _ => rfl, fun hrows => absurd rfl hrows, ?_, h⟩
      rw [filter_nil, append_nil]
      exact Perm.refl _
  | cons entry rest ih =>
      unfold scan
      by_cases hchosen : chosen entry = true
      · rw [if_pos hchosen]
        split
        · rename_i hfull
          refine ⟨[], entry :: rest, rfl, rfl, fun hcomplete => absurd hcomplete Bool.false_ne_true,
            ?_, ?_, ?_⟩
          · intro _ hoffered hbatches
            rw [hoffered, hbatches] at hfull
            rcases hfull with hids | ⟨-, hframes⟩
            · exact absurd hids (by decide)
            · exact absurd hframes (by decide)
          · rw [filter_nil, append_nil]
          · exact ⟨h.frames, h.ids, h.room, h.batch⟩
        · rename_i hroom
          rcases ih _ (h.add hchosen hroom) with ⟨done, left, hwalked⟩
          refine ⟨entry :: done, left, ?_, ?_, hwalked.complete,
            fun _ _ _ => cons_ne_nil _ _, ?_, hwalked.fits⟩
          · rw [hwalked.split, cons_append]
          · rw [hwalked.cursor, getLast?_map_or]
          · apply hwalked.collected.trans
            rw [filter_cons_of_pos hchosen, append_cons]
            exact (addTo_perm entry start.batches).append_right _
      · rw [if_neg hchosen]
        rcases ih { start with cursor := some entry.cursor }
          ⟨h.frames, h.ids, h.room, h.batch⟩ with ⟨done, left, hwalked⟩
        refine ⟨entry :: done, left, ?_, ?_, hwalked.complete,
            fun _ _ _ => cons_ne_nil _ _, ?_, hwalked.fits⟩
        · rw [hwalked.split, cons_append]
        · rw [hwalked.cursor, getLast?_map_or]
        · rw [filter_cons_of_neg hchosen]
          exact hwalked.collected

/-- The walk of a pass starts with nothing to offer. -/
def Scan.start (after : Option HistoryCursor) : Scan where
  completePage := true
  cursor := after
  batches := []
  offered := 0

theorem fits_start (chosen : HistoryEntry -> Bool) (after : Option HistoryCursor) :
    Fits chosen (Scan.start after) where
  frames := Nat.zero_le _
  ids := rfl
  room := Nat.zero_le _
  batch := fun _ h => absurd h not_mem_nil

/-!
## Sending
-/

def frameOf (batch : Batch) : IHave where
  board := batch.fst
  eventIds := batch.snd.map (fun entry => entry.cursor.eventId)

theorem bySlug_of_postable {entry : HistoryEntry} (hentry : entry ∈ entries s)
    (hpostable : entry.postable = true) :
    exists row, s.bySlug entry.board = some row ∧ row.slug = entry.board ∧ row.kind = 2 := by
  have hfound : forall slug : String,
      ((s.bySlug slug).map (fun b => decide (b.kind = 2))).getD false = true ->
      exists row, s.bySlug (((s.bySlug slug).map BoardRow.slug).getD slug) = some row ∧
        row.slug = ((s.bySlug slug).map BoardRow.slug).getD slug ∧ row.kind = 2 := by
    intro slug hkind
    cases hboard : s.bySlug slug with
    | none =>
        rw [hboard] at hkind
        cases hkind
    | some row =>
        rw [hboard] at hkind
        refine ⟨row, ?_, rfl, of_decide_eq_true hkind⟩
        exact Table.find?_eq_some_iff.mpr ⟨(Table.find?_eq_some_iff.mp hboard).left, rfl⟩
  rcases mem_append.mp (mem_listBy.mp hentry) with hpost | hfollowup
  · rcases mem_map.mp hpost with ⟨row, -, rfl⟩
    exact hfound row.boardSlug hpostable
  · rcases mem_map.mp hfollowup with ⟨row, -, rfl⟩
    exact hfound row.boardSlug hpostable

/-- A batch as a pass collects it. -/
structure Sendable (shared : Shared) (theirs : Interest) (batch : Batch) : Prop where
  some : batch.snd ≠ []
  entry : forall entry, entry ∈ batch.snd -> entry.board = batch.fst ∧
    eligible shared (localInterest shared.subscribe) theirs entry = true ∧
    entry ∈ entries shared.store

theorem Sendable.board {shared : Shared} {theirs : Interest} {batch : Batch}
    (h : Sendable shared theirs batch) :
    exists row, shared.store.bySlug batch.fst = .some row ∧ row.slug = batch.fst ∧
      row.kind = 2 := by
  rcases exists_mem_of_ne_nil _ h.some with ⟨entry, hentry⟩
  rcases h.entry entry hentry with ⟨hboard, heligible, hmem⟩
  rw [<- hboard]
  apply bySlug_of_postable hmem
  unfold eligible at heligible
  simp only [Bool.and_eq_true] at heligible
  exact heligible.left.left.left.left

theorem sendBatches_completed {shared : Shared} {theirs : Interest} {faults : Faults} (i : Nat)
    (batches : List Batch) (sent sent' : List IHave)
    (h : forall batch, batch ∈ batches -> Sendable shared theirs batch)
    (hsend : sendBatches shared theirs faults i batches sent = (sent', .completed)) :
    sent' = sent ++ batches.map frameOf := by
  induction batches generalizing i sent with
  | nil =>
      cases hsend
      rw [map_nil, append_nil]
  | cons batch rest ih =>
      rcases batch with ⟨board, found⟩
      have hbatch := h _ mem_cons_self
      rcases hbatch.board with ⟨row, hrow, hslug, hkind⟩
      have hall : found.filter (eligible shared (localInterest shared.subscribe) theirs) = found :=
        filter_eq_self.mpr (fun entry hentry => (hbatch.entry entry hentry).right.left)
      have hids : (found.map (fun entry => entry.cursor.eventId)).isEmpty = false := by
        rw [isEmpty_eq_false_iff]
        exact fun hnil => hbatch.some (map_eq_nil_iff.mp hnil)
      unfold sendBatches at hsend
      split at hsend
      · cases hsend
      · simp only [hrow, hkind, ne_eq, not_true_eq_false, if_false, hall, hids] at hsend
        split at hsend
        · rename_i hno
          cases hno
        · split at hsend
          · cases hsend
          · split at hsend
            · cases hsend
            · rw [ih _ _ (fun b hb => h b (mem_cons_of_mem _ hb)) hsend, append_assoc, hslug]
              rfl

end History
end Rabbithole.Federation
