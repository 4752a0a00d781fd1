import Rabbithole.Federation.HistoryScan

/-!
# The passes skip nothing

From a reset of a link's cursor to the next one the completed passes go over all entries,
one front part after the other.
-/

namespace Rabbithole.Federation
namespace History

open Foundation List
open Boards (EventId Store)

variable {key : Type} [DecidableEq key] {shared : Shared} {edge : Edge key} {r : Handle key}
  {interest : Interest} {s : State key HistoryCursor}

/-!
## One call
-/

def idsOf (found : List HistoryEntry) : List (String × EventId) :=
  found.map (fun entry => (entry.board, entry.cursor.eventId))

def eligibleFor (shared : Shared) (interest : Interest) (found : List HistoryEntry) :
    List HistoryEntry :=
  found.filter (eligible shared (localInterest shared.subscribe) interest)

/-- A completed pass went over a front part of what was left, and offered what is
eligible there. -/
structure Covers (shared : Shared) (interest : Interest) (pass : Completed)
    (done left : List HistoryEntry) : Prop where
  split : remaining shared.store pass.after = done ++ left
  offered : (IHave.ids pass.sent).Perm (idsOf (eligibleFor shared interest done))
  frames : pass.sent.length <= offerFrames
  ids : (IHave.ids pass.sent).length <= offerIds
  next : (pass.next = none ∧ left = []) ∨
    exists front last, done = front ++ [last] ∧ pass.next = some last.cursor

theorem ids_frameOf {batches : List Batch}
    (h : forall batch, batch ∈ batches -> forall entry, entry ∈ batch.snd ->
      entry.board = batch.fst) :
    IHave.ids (batches.map frameOf) = idsOf (batches.flatMap Prod.snd) := by
  induction batches with
  | nil => rfl
  | cons batch rest ih =>
      have hrest := ih (fun b hb => h b (mem_cons_of_mem _ hb))
      unfold IHave.ids idsOf at *
      rw [map_cons, flatMap_cons, flatMap_cons, map_append, hrest]
      congr 1
      unfold frameOf
      rw [map_map]
      apply map_congr_left
      intro entry hentry
      show (batch.fst, entry.cursor.eventId) = _
      rw [h batch mem_cons_self entry hentry]

theorem Fits.sendable {walk : Scan} {found : List HistoryEntry}
    (h : Fits (eligible shared (localInterest shared.subscribe) interest) walk)
    (hfound : walk.batches.flatMap Prod.snd ⊆ found) (hentries : found ⊆ entries shared.store) :
    forall batch, batch ∈ walk.batches -> Sendable shared interest batch := by
  intro batch hbatch
  rcases h.batch batch hbatch with ⟨hsome, hentry⟩
  constructor
  · exact hsome
  · intro entry hmem
    rcases hentry entry hmem with ⟨hboard, heligible⟩
    exact ⟨hboard, heligible, hentries (hfound (mem_flatMap.mpr ⟨batch, hbatch, hmem⟩))⟩

theorem cursor?_dropPass (r : Handle key) : (s.dropPass r.peer r.link).cursor? r = s.cursor? r := by
  unfold State.cursor? State.dropPass
  rw [link?_changeLink]
  cases s.link? r.peer r.link with
  | none => rfl
  | some l => simp

theorem cursor?_finish (r : Handle key) (next : Option HistoryCursor) {l : Link HistoryCursor}
    (hlink : s.link? r.peer r.link = some l) : (s.finish r.peer r.link next).cursor? r = next := by
  unfold State.finish
  rw [cursor?_dropPass]
  unfold State.cursor?
  rw [link?_changeLink, hlink]
  simp

def walkOf (shared : Shared) (interest : Interest) (after : Option HistoryCursor) : Scan :=
  scan (eligible shared (localInterest shared.subscribe) interest)
    (historyPage shared.store after scanLimit) (Scan.start after)

def nextOf (shared : Shared) (interest : Interest) (after : Option HistoryCursor) :
    Option HistoryCursor :=
  if (walkOf shared interest after).completePage &&
      decide ((historyPage shared.store after scanLimit).length < scanLimit) then none
  else (walkOf shared interest after).cursor

/-- A pass that sends all its batches covers a front part of what was left. -/
theorem covers_of_sent (after : Option HistoryCursor) {faults : Faults} {sent : List IHave}
    (hsend : sendBatches shared interest faults 0 (walkOf shared interest after).batches [] =
      (sent, .completed)) :
    exists done left,
      Covers shared interest ⟨after, sent, nextOf shared interest after⟩ done left := by
  have hpage := historyPage_eq shared.store after scanLimit
  have hlimit : min scanLimit 256 = 256 := rfl
  rw [hlimit] at hpage
  have hsplit := take_append_drop 256 (remaining shared.store after)
  rw [<- hpage] at hsplit
  rcases scan_walked (eligible shared (localInterest shared.subscribe) interest)
    (historyPage shared.store after scanLimit) (Scan.start after) (fits_start _ after)
    with ⟨done, left, hwalked⟩
  have hcollected := hwalked.collected
  rw [show (Scan.start after).batches.flatMap Prod.snd = [] from rfl, nil_append] at hcollected
  have hsent : sent = (walkOf shared interest after).batches.map frameOf := by
    have hfound : (walkOf shared interest after).batches.flatMap Prod.snd ⊆
        remaining shared.store after := by
      intro entry hentry
      rw [<- hsplit, hwalked.split]
      exact mem_append_left _ (mem_append_left _
        (mem_of_mem_filter (hcollected.subset hentry)))
    apply sendBatches_completed 0 _ [] sent _ hsend
    exact hwalked.fits.sendable hfound (fun _ hentry => mem_of_mem_filter hentry)
  have hids : IHave.ids sent =
      idsOf ((walkOf shared interest after).batches.flatMap Prod.snd) := by
    rw [hsent]
    exact ids_frameOf (fun batch hbatch entry hentry =>
      ((hwalked.fits.batch batch hbatch).right entry hentry).left)
  refine ⟨done, left ++ (remaining shared.store after).drop 256, ?_, ?_, ?_, ?_, ?_⟩
  · show remaining shared.store after = _
    rw [<- append_assoc, <- hwalked.split, hsplit]
  · show (IHave.ids sent).Perm _
    rw [hids]
    exact hcollected.map _
  · show sent.length <= _
    rw [hsent, length_map]
    exact hwalked.fits.frames
  · show (IHave.ids sent).length <= _
    rw [hids]
    unfold idsOf
    rw [length_map]
    exact hwalked.fits.ids.trans_le hwalked.fits.room
  · show (nextOf shared interest after = none ∧ _) ∨ _
    unfold nextOf
    split
    · rename_i hend
      rw [Bool.and_eq_true, decide_eq_true_eq] at hend
      refine Or.inl ⟨rfl, ?_⟩
      have hshort := hend.right
      rw [hpage, length_take] at hshort
      have hscan : scanLimit = 256 := rfl
      rw [hwalked.complete hend.left, nil_append]
      apply drop_eq_nil_of_le
      omega
    · rename_i hmore
      right
      have hrows : historyPage shared.store after scanLimit ≠ [] := by
        intro hnil
        apply hmore
        unfold walkOf
        rw [hnil]
        rfl
      have hmoved := hwalked.moved hrows rfl rfl
      refine ⟨done.dropLast, done.getLast hmoved, (dropLast_append_getLast hmoved).symm, ?_⟩
      show (walkOf shared interest after).cursor = _
      unfold walkOf
      rw [hwalked.cursor, getLast?_eq_some_getLast hmoved]
      rfl

theorem offerPass_cases (shared : Shared) (interest : Interest) (faults : Faults)
    (after : Option HistoryCursor) (r : Handle key) (s : State key HistoryCursor) :
    ((offerPass shared interest faults r after s).ending ≠ .completed ∧
      (offerPass shared interest faults r after s).state = s.dropPass r.peer r.link) ∨
    ((offerPass shared interest faults r after s).ending = .completed ∧
      exists next done left,
        (offerPass shared interest faults r after s).state = s.finish r.peer r.link next ∧
        Covers shared interest
          ⟨after, (offerPass shared interest faults r after s).sent, next⟩ done left) := by
  unfold offerPass
  split
  · exact Or.inl ⟨by simp, rfl⟩
  · simp only []
    split
    · rename_i sent hsend
      rcases covers_of_sent after hsend with ⟨done, left, hcovers⟩
      exact Or.inr ⟨rfl, _, done, left, rfl, hcovers⟩
    · rename_i hnot _
      exact Or.inl ⟨hnot, rfl⟩

theorem cursor?_active (r : Handle key) (active : Bool) :
    (s.active r.peer r.link active).cursor? r = s.cursor? r := by
  unfold State.cursor? State.active
  rw [link?_changeLink]
  cases s.link? r.peer r.link with
  | none => rfl
  | some l => simp

theorem cursor?_of_begins {now cadenceSecs : Nat} {entry : Peer HistoryCursor}
    {l : Link HistoryCursor} (h : Begins s r.peer r.link now cadenceSecs entry l) :
    s.link? r.peer r.link = some l ∧ s.cursor? r = l.cursor := by
  have hlink : s.link? r.peer r.link = some l := by
    unfold State.link?
    rw [h.found]
    exact h.link
  refine ⟨hlink, ?_⟩
  unfold State.cursor?
  rw [hlink]
  rfl

/-- A call keeps the link's cursor, or completes a pass from it. -/
theorem offerAt_cases (shared : Shared) (hedge : edge.history = some r) (periodic : Bool)
    (now : Nat) (faults : Faults) (s : State key HistoryCursor) :
    ((offerAt shared edge periodic now faults s).ending ≠ .completed ∧
      (offerAt shared edge periodic now faults s).state.cursor? r = s.cursor? r) ∨
    ((offerAt shared edge periodic now faults s).ending = .completed ∧
      exists done left, Covers shared edge.interest
        ⟨s.cursor? r, (offerAt shared edge periodic now faults s).sent,
          (offerAt shared edge periodic now faults s).state.cursor? r⟩ done left) := by
  unfold offerAt
  rw [hedge]
  simp only []
  have hactive := cursor?_active (s := s) r
    (hasInterest (localInterest shared.subscribe) && hasInterest edge.interest)
  split
  · exact Or.inl ⟨by simp, hactive⟩
  · split
    · exact Or.inl ⟨by simp, hactive⟩
    · rcases begin_cases (s.active r.peer r.link
        (hasInterest (localInterest shared.subscribe) && hasInterest edge.interest)) r.peer r.link
        now shared.reofferSecs with hrefused | ⟨entry, l, hbegins, hbegun⟩
      · rw [hrefused]
        exact Or.inl ⟨by simp, hactive⟩
      · rw [hbegun]
        simp only []
        rcases cursor?_of_begins hbegins with ⟨hlink, hcursor⟩
        have hlink' := link?_begunState (s.active r.peer r.link
          (hasInterest (localInterest shared.subscribe) && hasInterest edge.interest))
          r.peer r.peer r.link now r.link
        rw [hlink, Option.map_some, if_pos ⟨rfl, rfl⟩] at hlink'
        have hbefore : s.cursor? r = l.cursor := hactive.symm.trans hcursor
        rcases offerPass_cases shared edge.interest faults l.cursor r
          (begunState (s.active r.peer r.link
            (hasInterest (localInterest shared.subscribe) && hasInterest edge.interest))
            r.peer r.link now) with ⟨hnot, hstate⟩ | ⟨hcompleted, next, done, left, hstate, hcovers⟩
        · refine Or.inl ⟨hnot, ?_⟩
          rw [hstate, cursor?_dropPass, hbefore]
          unfold State.cursor?
          rw [hlink']
          rfl
        · refine Or.inr ⟨hcompleted, done, left, ?_⟩
          rw [hstate, cursor?_finish r next hlink', hbefore]
          exact hcovers

/-!
## Pass after pass
-/

/-- Each pass goes on from where the one before it left the cursor. -/
def Chained (shared : Shared) (interest : Interest) : Option HistoryCursor -> List Completed -> Prop
  | _, [] => True
  | after, pass :: rest =>
      pass.after = after ∧ (exists done left, Covers shared interest pass done left) ∧
        Chained shared interest pass.next rest

theorem offers_chained (shared : Shared) (hedge : edge.history = some r)
    (calls : List OfferCall) (s : State key HistoryCursor) :
    Chained shared edge.interest (s.cursor? r) (offers shared edge r s calls).snd := by
  induction calls generalizing s with
  | nil => trivial
  | cons call rest ih =>
      unfold offers
      simp only []
      have hlater := ih (offerAt shared edge call.periodic call.now call.faults s).state
      rcases offerAt_cases shared hedge call.periodic call.now call.faults s with
        ⟨hnot, hkept⟩ | ⟨hcompleted, hcovers⟩
      · rw [if_neg hnot, <- hkept]
        exact hlater
      · rw [if_pos hcompleted]
        exact ⟨rfl, hcovers, hlater⟩

variable {after : Option HistoryCursor} {log : List Completed}

theorem Chained.split {front back : List Completed}
    (h : Chained shared interest after (front ++ back)) :
    Chained shared interest after front ∧
      Chained shared interest ((front.getLast?.map Completed.next).getD after) back := by
  induction front generalizing after with
  | nil => exact ⟨trivial, h⟩
  | cons pass rest ih =>
      rcases h with ⟨hafter, hcovers, hrest⟩
      rcases ih hrest with ⟨hfront, hback⟩
      refine ⟨⟨hafter, hcovers, hfront⟩, ?_⟩
      rw [getLast?_cons]
      cases hlast : rest.getLast? with
      | none | some last =>
          rw [hlast] at hback
          exact hback

theorem Chained.covers {mid : List Completed} {last : Completed}
    (h : Chained shared interest after (mid ++ [last]))
    (hmid : forall pass, pass ∈ mid -> pass.next ≠ none) (hlast : last.next = none) :
    ((mid ++ [last]).flatMap (fun pass => IHave.ids pass.sent)).Perm
      (idsOf (eligibleFor shared interest (remaining shared.store after))) := by
  induction mid generalizing after with
  | nil =>
      rcases h with ⟨rfl, ⟨done, left, hcovers⟩, -⟩
      rcases hcovers.next with ⟨-, hleft⟩ | ⟨front, e, -, hnext⟩
      · rw [hcovers.split, hleft, append_nil]
        rw [nil_append, flatMap_singleton]
        exact hcovers.offered
      · rw [hlast] at hnext
        cases hnext
  | cons pass rest ih =>
      rcases h with ⟨rfl, ⟨done, left, hcovers⟩, hrest⟩
      have hlater := ih hrest (fun p hp => hmid p (mem_cons_of_mem _ hp))
      rcases hcovers.next with ⟨hnone, -⟩ | ⟨front, e, hdone, hnext⟩
      · exact absurd hnone (hmid pass mem_cons_self)
      · have hsplit := hcovers.split
        have hthrough := hsplit
        rw [hdone, append_assoc, singleton_append] at hthrough
        rw [hnext, (remaining_after hthrough).left] at hlater
        rw [hsplit]
        unfold eligibleFor idsOf
        rw [filter_append, map_append, cons_append, flatMap_cons]
        exact hcovers.offered.append hlater

theorem Chained.length_le {mid : List Completed} (h : Chained shared interest after mid)
    (hmid : forall pass, pass ∈ mid -> pass.next ≠ none) :
    mid.length <= (remaining shared.store after).length := by
  induction mid generalizing after with
  | nil => exact Nat.zero_le _
  | cons pass rest ih =>
      rcases h with ⟨rfl, ⟨done, left, hcovers⟩, hrest⟩
      have hlater := ih hrest (fun p hp => hmid p (mem_cons_of_mem _ hp))
      rcases hcovers.next with ⟨hnone, -⟩ | ⟨front, e, hdone, hnext⟩
      · exact absurd hnone (hmid pass mem_cons_self)
      · have hsplit := hcovers.split
        rw [hdone, append_assoc, singleton_append] at hsplit
        rw [hnext, (remaining_after hsplit).left] at hlater
        rw [hsplit, length_append, length_cons, length_cons]
        omega

theorem length_remaining_le (s : Store) (after : Option HistoryCursor) :
    (remaining s after).length <= s.posts.rows.length + s.followups.rows.length := by
  rw [<- length_entries]
  exact length_filter_le _ _

section

variable (h : Chained shared interest after log)
include h

theorem Chained.resets
    (hlong : shared.store.posts.rows.length + shared.store.followups.rows.length < log.length) :
    exists mid last back, log = mid ++ [last] ++ back ∧
      (forall pass, pass ∈ mid -> pass.next ≠ none) ∧ last.next = none ∧
      mid.length <= shared.store.posts.rows.length + shared.store.followups.rows.length := by
  cases hfind : log.find? (fun pass => pass.next.isNone) with
  | none =>
      have hall : forall pass, pass ∈ log -> pass.next ≠ none := by
        intro pass hpass hnone
        have hno := find?_eq_none.mp hfind pass hpass
        rw [hnone] at hno
        exact hno rfl
      have hle := (h.length_le hall).trans (length_remaining_le _ _)
      omega
  | some last =>
      rcases find?_eq_some_iff_append.mp hfind with ⟨hlast, mid, back, hlog, hbefore⟩
      have hmid : forall pass, pass ∈ mid -> pass.next ≠ none := by
        intro pass hpass hnone
        have hno := hbefore pass hpass
        rw [hnone] at hno
        cases hno
      refine ⟨mid, last, back, ?_, hmid, Option.isNone_iff_eq_none.mp hlast, ?_⟩
      · rw [hlog, append_assoc, singleton_append]
      · rw [hlog] at h
        exact (h.split.left.length_le hmid).trans (length_remaining_le _ _)

theorem Chained.offers_all
    (hlong : 2 * (shared.store.posts.rows.length + shared.store.followups.rows.length + 1) <=
      log.length) :
    forall x, x ∈ idsOf (eligibleFor shared interest (entries shared.store)) ->
      exists pass, pass ∈ log ∧ x ∈ IHave.ids pass.sent := by
  intro x hx
  rcases h.resets (by omega) with ⟨mid, last, back, rfl, hmid, hlast, hlength⟩
  rw [length_append, length_append, length_singleton] at hlong
  have hback := h.split.right
  rw [getLast?_concat, Option.map_some, Option.getD_some, hlast] at hback
  rcases hback.resets (by omega) with ⟨mid', last', back', rfl, hmid', hlast', -⟩
  have hcovers := hback.split.left.covers hmid' hlast'
  rw [remaining_none] at hcovers
  rcases mem_flatMap.mp (hcovers.symm.subset hx) with ⟨pass, hpass, hoffered⟩
  exact ⟨pass, mem_append_right _ (mem_append_left _ hpass), hoffered⟩

theorem Chained.pass :
    forall pass, pass ∈ log -> exists done left, Covers shared interest pass done left := by
  induction log generalizing after with
  | nil => exact fun _ hpass => absurd hpass not_mem_nil
  | cons first rest ih =>
      intro pass hpass
      rcases h with ⟨-, hcovers, hrest⟩
      rcases mem_cons.mp hpass with rfl | hlater
      · exact hcovers
      · exact ih hrest pass hlater

end

theorem Covers.forward {pass : Completed} {done left : List HistoryEntry}
    (h : Covers shared interest pass done left) :
    forall c, pass.next = some c -> past pass.after c = true := by
  intro c hc
  rcases h.next with ⟨hnone, -⟩ | ⟨front, e, hdone, hnext⟩
  · rw [hnone] at hc
    cases hc
  · rw [hnext] at hc
    cases hc
    have hsplit := h.split
    rw [hdone, append_assoc, singleton_append] at hsplit
    exact (remaining_after hsplit).right

/-- Whatever fails: a call that completes no pass leaves the link's cursor; a completed pass
offers at most 128 ids in at most 8 frames and moves the cursor forward or resets it; between
two resets every eligible entry is offered once; and so many passes offer all of them. -/
theorem passes_skip_nothing (shared : Shared) (interest : Interest) (r : Handle key)
    (s : State key HistoryCursor) (calls : List OfferCall) :
    (forall call : OfferCall, forall s : State key HistoryCursor,
      (offerAt shared ⟨some r, interest⟩ call.periodic call.now call.faults s).ending ≠
        .completed ->
      (offerAt shared ⟨some r, interest⟩ call.periodic call.now call.faults s).state.cursor? r =
        s.cursor? r) ∧
    (forall pass, pass ∈ (offers shared ⟨some r, interest⟩ r s calls).snd ->
      (IHave.ids pass.sent).length <= 128 ∧ pass.sent.length <= 8 ∧
      forall c, pass.next = some c -> past pass.after c = true) ∧
    (forall front mid last back,
      (offers shared ⟨some r, interest⟩ r s calls).snd = front ++ (mid ++ [last] ++ back) ->
      ((front = [] ∧ s.cursor? r = none) ∨
        exists before reset, front = before ++ [reset] ∧ reset.next = none) ->
      (forall pass, pass ∈ mid -> pass.next ≠ none) -> last.next = none ->
      ((mid ++ [last]).flatMap (fun pass => IHave.ids pass.sent)).Perm
        (idsOf (eligibleFor shared interest (entries shared.store)))) ∧
    (2 * (shared.store.posts.rows.length + shared.store.followups.rows.length + 1) <=
        (offers shared ⟨some r, interest⟩ r s calls).snd.length ->
      forall x, x ∈ idsOf (eligibleFor shared interest (entries shared.store)) ->
        exists pass, pass ∈ (offers shared ⟨some r, interest⟩ r s calls).snd ∧
          x ∈ IHave.ids pass.sent) := by
  have hedge : (Edge.mk (some r) interest).history = some r := rfl
  have hchained := offers_chained shared hedge calls s
  refine ⟨?_, ?_, ?_, hchained.offers_all⟩
  · intro call s hnot
    rcases offerAt_cases shared hedge call.periodic call.now call.faults s with
      ⟨-, hkept⟩ | ⟨hcompleted, -⟩
    · exact hkept
    · exact absurd hcompleted hnot
  · intro pass hpass
    rcases hchained.pass pass hpass with ⟨done, left, hcovers⟩
    exact ⟨hcovers.ids, hcovers.frames, hcovers.forward⟩
  · intro front mid last back hlog hreset hmid hlast
    rw [hlog] at hchained
    have hback := hchained.split.right
    have hstart : (front.getLast?.map Completed.next).getD (s.cursor? r) = none := by
      rcases hreset with ⟨rfl, hnone⟩ | ⟨before, reset, rfl, hnone⟩
      · exact hnone
      · rw [getLast?_concat, Option.map_some, Option.getD_some, hnone]
    rw [hstart] at hback
    have hcovers := hback.split.left.covers hmid hlast
    rw [remaining_none] at hcovers
    exact hcovers

end History
end Rabbithole.Federation
