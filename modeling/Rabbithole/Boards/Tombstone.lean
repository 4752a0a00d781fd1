import Rabbithole.Boards.Effects

/-!
# Retracted posts

A tombstone empties a post's text and marks it.  Nothing in the store keeps a later
edit from writing text back, so a retracted post stays empty along the runs in which
no such edit reaches it, and only along those.
-/

namespace Rabbithole.Boards

open Foundation Option BoardService

/-- Marked as retracted, with no text left. -/
def PostRow.Buried (row : PostRow) : Prop :=
  row.tombstoned = true ∧ row.subject = "" ∧ row.body = ""

def EventBody.Quiet (id : EventId) : EventBody -> Prop
  | .edit target subject body _ => target = id -> subject = "" ∧ body = ""
  | _ => True

namespace EventBody

variable {followup : EventBody} {row : PostRow}

theorem quiet_of_other {target id : EventId} {kind : FollowupKind}
    (h : followup.followup? = some (target, kind)) (hother : target ≠ id) : followup.Quiet id := by
  cases followup with
  | post board root parent subject body mime =>
      trivial
  | edit named subject body mime =>
      cases h
      intro heq
      exact absurd heq hother
  | tombstone named =>
      trivial

theorem buried_touch (hquiet : followup.Quiet row.eventId) (h : row.Buried) :
    (followup.touch row).Buried := by
  cases followup with
  | post board root parent subject body mime =>
      exact h
  | edit target subject body mime =>
      simp only [touch]
      split
      · rename_i htarget
        have htext := hquiet htarget.symm
        exact ⟨h.left, htext.left, htext.right⟩
      · exact h
  | tombstone target =>
      simp only [touch]
      split
      · exact ⟨rfl, rfl, rfl⟩
      · exact h

theorem tombstoned_touch (followup : EventBody) (h : row.tombstoned = true) :
    (followup.touch row).tombstoned = true := by
  cases followup with
  | post board root parent subject body mime =>
      exact h
  | edit target subject body mime =>
      simp only [touch]
      split
      · exact h
      · exact h
  | tombstone target =>
      simp only [touch]
      split
      · rfl
      · exact h

theorem textless_touch {kind : FollowupKind} (h : followup.followup? = some (row.eventId, kind))
    (hquiet : followup.Quiet row.eventId) :
    (followup.touch row).subject = "" ∧ (followup.touch row).body = "" := by
  cases followup with
  | post board root parent subject body mime =>
      cases h
  | edit target subject body mime =>
      cases h
      simp only [touch, if_true]
      exact hquiet rfl
  | tombstone target =>
      cases h
      simp [touch]

end EventBody

variable {s s' : Store} {id : EventId} {svc : BoardService} {row : PostRow} {call : Call}

theorem PostRow.tombstoned_touchAll {followups : List EventBody}
    (h : row.tombstoned = true ∨ EventBody.tombstone row.eventId ∈ followups) :
    (row.touchAll followups).tombstoned = true := by
  induction followups generalizing row with
  | nil =>
      rcases h with hmarked | hmem
      · exact hmarked
      · cases hmem
  | cons followup rest ih =>
      rw [PostRow.touchAll_cons]
      apply ih
      rw [PostRow.eventId_of_bare (followup.touch_bare row)]
      rcases h with hmarked | hmem
      · exact Or.inl (followup.tombstoned_touch hmarked)
      · rcases List.mem_cons.mp hmem with heq | hrest
        · rw [← heq]
          simp [EventBody.touch]
        · exact Or.inr hrest

theorem PostRow.buried_touchAll {followups : List EventBody}
    (hall : forall a, a ∈ followups -> exists kind, a.followup? = some (row.eventId, kind))
    (hlast : forall last, followups.getLast? = some last -> last.Quiet row.eventId)
    (h : row.Buried ∨ EventBody.tombstone row.eventId ∈ followups) :
    (row.touchAll followups).Buried := by
  constructor
  · apply PostRow.tombstoned_touchAll
    exact h.imp (fun hburied => hburied.left) id
  · rcases List.eq_nil_or_concat followups with hnil | ⟨front, last, heq⟩
    · subst hnil
      rcases h with hburied | hmem
      · exact hburied.right
      · cases hmem
    · rw [List.concat_eq_append] at heq
      subst heq
      rw [PostRow.touchAll_append]
      have hid : (row.touchAll front).eventId = row.eventId :=
        PostRow.eventId_of_bare (row.touchAll_bare front)
      rcases hall last (by simp) with ⟨kind, hkind⟩
      have hquiet := hlast last (by simp)
      rw [← hid] at hkind hquiet
      exact EventBody.textless_touch hkind hquiet

/-!
## What a call may write on a retracted post
-/

/-- The call applies a tombstone to the post. -/
def Buries (svc : BoardService) (id : EventId) (s : Store) : Call -> Prop
  | .tombstone target _ _ _ => target = id ∧ s.postById id ≠ none
  | .ingest event _ _ =>
      (event.body = .tombstone id ∧ exists row, s.postById id = some row ∧
        followupAuthorized event row.event = true) ∨
      (event.id = id ∧ exists row, BoardService.projectPost s event = .ok row ∧
        exists followup, followup ∈ svc.admitted s row ∧
          followup.event.body = .tombstone id)
  | _ => False

/--
The call writes no text on the post: a local edit of it is empty, so is a remote one
that passes the gate, and so is, when its event arrives, the last follow-up parked for
it that passes.
-/
def KeepsQuiet (svc : BoardService) (id : EventId) (s : Store) : Call -> Prop
  | .edit target _ _ subject body _ _ => target = id -> subject = "" ∧ body = ""
  | .ingest event _ _ =>
      (forall row, s.postById id = some row -> followupAuthorized event row.event = true ->
        event.body.Quiet id) ∧
      (event.id = id -> forall row, BoardService.projectPost s event = .ok row ->
        forall last, (svc.admitted s row).getLast? = some last -> last.event.body.Quiet id)
  | _ => True

/-- A post's row is there and buried. -/
def Store.Buried (s : Store) (id : EventId) : Prop :=
  exists row, s.postById id = some row ∧ row.Buried

theorem Store.Buried.touch {followup : EventBody} (h : s.Buried id) (hquiet : followup.Quiet id)
    (hrow' : s'.postById id = (s.postById id).map followup.touch) : s'.Buried id := by
  rcases h with ⟨row, hrow, hburied⟩
  have hid : row.eventId = id := Table.keyOf_of_find? hrow
  rw [hrow] at hrow'
  rw [← hid] at hquiet
  exact ⟨_, hrow', EventBody.buried_touch hquiet hburied⟩

theorem buried_of_taken {event : SignedEvent} {maxThreads : Int} (hcoherent : s.Coherent)
    (hrow : BoardService.projectPost s event = .ok row)
    (hquiet : event.id = id -> forall last, (svc.admitted s row).getLast? = some last ->
      last.event.body.Quiet id)
    (hkept : (svc.reconcileFollowups (svc.retain (s.insertPost row) row maxThreads)
      row).postById id ≠ none)
    (h : s.Buried id ∨ event.id = id ∧ exists followup, followup ∈ svc.admitted s row ∧
      followup.event.body = .tombstone id) :
    (svc.reconcileFollowups (svc.retain (s.insertPost row) row maxThreads) row).Buried id := by
  have hid : row.eventId = event.id := (projectPost_ok hrow).left
  rcases postById_of_taken hcoherent hrow hkept with ⟨before, hbefore, hafter⟩
  have hbeforeId : before.eventId = id := Table.keyOf_of_find? hbefore
  have hburied : s.Buried id -> before.Buried := by
    rintro ⟨old, hold, hburied⟩
    rw [postById_insertPost, hold] at hbefore
    cases hbefore
    exact hburied
  refine ⟨_, hafter, ?_⟩
  split
  · rename_i heq
    apply PostRow.buried_touchAll
    · intro a ha
      rcases named_of_admitted hcoherent ha with ⟨kind, hkind⟩
      refine ⟨kind, ?_⟩
      rw [hkind, hbeforeId, hid, heq]
    · intro last hlast
      rw [List.getLast?_map, map_eq_some_iff] at hlast
      rcases hlast with ⟨followup, hlast, hbody⟩
      rw [hbeforeId, ← hbody]
      exact hquiet heq followup hlast
    · rcases h with hold | ⟨_, followup, hmem, hbody⟩
      · exact Or.inl (hburied hold)
      · refine Or.inr (List.mem_map.mpr ⟨followup, hmem, ?_⟩)
        rw [hbody, hbeforeId]
  · rename_i hne
    rcases h with hold | hnew
    · exact hburied hold
    · exact absurd hnew.left hne

/-- A call that writes no text on a retracted post leaves it retracted. -/
theorem Store.Buried.of_wrote (hcoherent : s.Coherent) (h : s.Buried id)
    (hquiet : KeepsQuiet svc id s call) (hkept : s'.postById id ≠ none)
    (hwrote : Wrote svc s call s') : s'.Buried id := by
  cases hwrote with
  | nothing =>
      exact h
  | posted hprepared hrow =>
      rename_i maxThreads event row
      rcases retain_eq_dropThreads svc (s.insertPost row) row maxThreads with
        ⟨olds, hretain, _⟩
      rw [hretain] at hkept ⊢
      cases hleft : (BoardService.dropThreads (s.insertPost row) olds).postById id with
      | none =>
          exact absurd hleft hkept
      | some left =>
          rcases h with ⟨old, hold, hburied⟩
          have hbefore := (postById_dropThreads.mp hleft).left
          rw [postById_insertPost, hold] at hbefore
          cases hbefore
          exact ⟨_, hleft, hburied⟩
  | edited hrow =>
      refine h.touch ?_ (postById_storeLocalFollowup _ _ _ _ _ _ _)
      exact hquiet
  | tombstoned hrow =>
      refine h.touch ?_ (postById_storeLocalFollowup _ _ _ _ _ _ _)
      trivial
  | took htook =>
      rename_i event board maxThreads
      cases htook with
      | post hrow =>
          exact buried_of_taken hcoherent hrow (fun heq => hquiet.right heq _ hrow) hkept
            (Or.inl h)
      | applied hfollowup hrow hauthorized =>
          rename_i target kind row
          have hrow' : (BoardService.applyFollowup
              (BoardService.storeFollowup s event row.boardSlug target row.thread kind true)
              event.body).postById id = (s.postById id).map event.body.touch := by
            rw [postById_applyFollowup, postById_storeFollowup]
          refine h.touch ?_ hrow'
          by_cases heq : target = id
          · rw [heq] at hrow
            exact hquiet.left row hrow hauthorized
          · exact EventBody.quiet_of_other hfollowup heq
      | parked hfollowup habsent hboard =>
          exact h

/-- A call that applies a tombstone, and no text after it, buries the post. -/
theorem buried_of_buries (hcoherent : s.Coherent) (hburies : Buries svc id s call)
    (hquiet : KeepsQuiet svc id s call) (hkept : (call.run svc s).postById id ≠ none) :
    (call.run svc s).Buried id := by
  have htouched : forall row : PostRow, row.eventId = id ->
      ((EventBody.tombstone id).touch row).Buried := by
    intro row hid
    simp [EventBody.touch, hid, PostRow.Buried]
  cases call with
  | post board parent author seed subject body mime now
  | edit target editor seed subject body mime now =>
      cases hburies
  | tombstone target actor seed now =>
      rcases hburies with ⟨rfl, hpresent⟩
      cases hrow : s.postById target with
      | none =>
          exact absurd hrow hpresent
      | some row =>
          have hrun : (Call.tombstone target actor seed now).run svc s =
              BoardService.storeLocalFollowup s
                (mint svc.keys actor seed svc.origin svc.originSeed now (.tombstone target))
                row.boardSlug target row.thread .tombstone := by
            simp only [Call.run, BoardService.tombstone, hrow]
            rfl
          refine ⟨(EventBody.tombstone target).touch row, ?_,
            htouched row (Table.keyOf_of_find? hrow)⟩
          rw [hrun, postById_storeLocalFollowup, hrow]
          rfl
  | ingest event board maxThreads =>
      rcases hburies with ⟨hbody, row, hrow, hgate⟩ | ⟨hid, row, hrow, htombstone⟩
      · have hfollowup : event.body.followup? = some (id, .tombstone) := by
          rw [hbody]
          rfl
        refine ⟨(EventBody.tombstone id).touch row, ?_, htouched row (Table.keyOf_of_find? hrow)⟩
        rw [run_ingest_of_authorized hfollowup hrow hgate,
          postById_applyFollowup, postById_storeFollowup, hrow,
          hbody]
        rfl
      · rw [run_ingest_of_post hrow] at hkept ⊢
        exact buried_of_taken hcoherent hrow (fun heq => hquiet.right heq row hrow) hkept
          (Or.inr ⟨hid, htombstone⟩)

/-- The post's row is there after the call. -/
def Stays (svc : BoardService) (id : EventId) (s : Store) (call : Call) : Prop :=
  (call.run svc s).postById id ≠ none

/-- The follow-ups are coherent, and the post is there and buried. -/
def AtRest (id : EventId) (s : Store) : Prop :=
  s.Coherent ∧ s.Buried id

theorem AtRest.step (h : AtRest id s) (hquiet : KeepsQuiet svc id s call ∧ Stays svc id s call)
    (hstep : step svc s call = some s') : AtRest id s' := by
  have hwrote := wrote_of_step hstep
  cases hstep
  exact ⟨h.left.of_wrote hwrote, h.right.of_wrote h.left hquiet.left hquiet.right hwrote⟩

/--
Once a tombstone is applied to a post, in any reachable store, the post stays marked
and without text for as long as its row exists, along every run of calls none of which
writes text on it.
-/
theorem tombstone_terminal {svc : BoardService}
    {boards : Table (fun board : BoardRow => foldCase board.slug)}
    {before after : List Call} {call : Call} {s t : Store} {id : EventId}
    (hbefore : run? (step svc) (Store.opened boards) before = some s)
    (hburies : Buries svc id s call)
    (hquiet : Along (step svc) (fun s call => KeepsQuiet svc id s call ∧ Stays svc id s call)
      s (call :: after)) (hrun : run? (step svc) s (call :: after) = some t) :
    exists row, t.postById id = some row ∧ row.tombstoned = true ∧ row.subject = "" ∧
      row.body = "" := by
  have hcoherent : s.Coherent :=
    run?_invariant (fun s call s' h hstep => h.of_wrote (wrote_of_step hstep))
      (Store.Coherent.opened boards) hbefore
  rcases run?_cons_some hrun with ⟨s', hfirst, hrest⟩
  cases hfirst
  have hstart : AtRest id (call.run svc s) :=
    ⟨hcoherent.of_wrote (call.wrote svc s),
      buried_of_buries hcoherent hburies hquiet.left.left hquiet.left.right⟩
  have hend : AtRest id t :=
    run?_invariant_along (fun _ _ _ => AtRest.step) hstart (hquiet.right _ rfl) hrest
  exact hend.right

def emptyEdit : SignedEvent :=
  mint Keys.clock "ann" 1 "warren" 8 6 (.edit 1 "" "" "text/plain")

/-- Retracted on its own server, then edited to nothing by its author from another. -/
theorem tombstone_terminal_empty_edit :
    exists s t row, run? (step (clockService "burrow" 9)) (Store.opened oneBoard)
        [.ingest shortPost "general" 0] = some s ∧
      run? (step (clockService "burrow" 9)) s
        [.tombstone 1 "mod" 3 4, .ingest emptyEdit "general" 0] = some t ∧
      t.postById 1 = some row ∧ row.tombstoned = true ∧ row.subject = "" ∧
        row.body = "" := by
  have hquiet : Along (step (clockService "burrow" 9))
      (fun s call => KeepsQuiet (clockService "burrow" 9) 1 s call ∧
        Stays (clockService "burrow" 9) 1 s call)
      ((Call.ingest shortPost "general" 0).run (clockService "burrow" 9)
        (Store.opened oneBoard))
      [.tombstone 1 "mod" 3 4, .ingest emptyEdit "general" 0] := by
    refine along_cons ⟨trivial, isSome_iff_ne_none.mp rfl⟩ rfl ?_
    refine along_cons ⟨⟨?_, ?_⟩, isSome_iff_ne_none.mp rfl⟩ rfl trivial
    · intro row hrow hgate htarget
      exact ⟨rfl, rfl⟩
    · intro hid
      exact absurd hid (by decide)
  have hburies : Buries (clockService "burrow" 9) 1
      ((Call.ingest shortPost "general" 0).run (clockService "burrow" 9)
        (Store.opened oneBoard)) (.tombstone 1 "mod" 3 4) :=
    ⟨rfl, isSome_iff_ne_none.mp rfl⟩
  have hbefore : run? (step (clockService "burrow" 9)) (Store.opened oneBoard)
      [.ingest shortPost "general" 0] =
        some ((Call.ingest shortPost "general" 0).run (clockService "burrow" 9)
          (Store.opened oneBoard)) := rfl
  rcases tombstone_terminal hbefore hburies hquiet rfl with ⟨row, hrow⟩
  exact ⟨_, _, row, rfl, rfl, hrow⟩

/-- An edit by the author that arrives after the retraction brings text back. -/
theorem tombstone_undone_by_late_edit :
    exists s t row, run? (step (clockService "burrow" 9)) (Store.opened oneBoard)
        [.ingest shortPost "general" 0] = some s ∧
      Buries (clockService "burrow" 9) 1 s (.tombstone 1 "mod" 3 4) ∧
      Along (step (clockService "burrow" 9)) (Stays (clockService "burrow" 9) 1) s
        [.tombstone 1 "mod" 3 4, .ingest firstEdit "general" 0] ∧
      run? (step (clockService "burrow" 9)) s
        [.tombstone 1 "mod" 3 4, .ingest firstEdit "general" 0] = some t ∧
      t.postById 1 = some row ∧ row.tombstoned = true ∧ row.subject = "first" ∧
        row.body = "text" := by
  refine ⟨_, _, _, rfl, ⟨rfl, isSome_iff_ne_none.mp rfl⟩, ?_, rfl, rfl, rfl, rfl, rfl⟩
  refine along_cons (isSome_iff_ne_none.mp rfl) rfl ?_
  exact along_cons (isSome_iff_ne_none.mp rfl) rfl trivial

end Rabbithole.Boards
