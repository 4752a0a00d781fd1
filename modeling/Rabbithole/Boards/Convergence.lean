import Rabbithole.Boards.Effects
import Rabbithole.Foundation.Unordered

/-!
# Convergence of follow-ups

Two servers are brought the same post and follow-ups, each in its own order.  What each
shows is decided by the order in which it applied those that passed the gate: of arrival, or
at reconciliation of their times.  So they agree whatever the orders exactly when these
follow-ups do not contradict each other.
-/

namespace Rabbithole.Boards

open Foundation List BoardService

/-- One event brought to a server. -/
structure Delivery where
  event : SignedEvent
  board : String
  maxThreads : Int

def Delivery.call (d : Delivery) : Call :=
  .ingest d.event d.board d.maxThreads

def deliver (svc : BoardService) (s : Store) (d : Delivery) : Option Store :=
  step svc s d.call

/-- The projected values that follow-ups write. -/
structure Shown where
  subject : String
  body : String
  mime : String
  edited : Bool
  tombstoned : Bool
deriving DecidableEq

def PostRow.shown (row : PostRow) : Shown :=
  { subject := row.subject
    body := row.body
    mime := row.mime
    edited := row.edited
    tombstoned := row.tombstoned }

/-- What a server shows of a post once it has been brought some events. -/
def shownAfter (svc : BoardService) (s : Store) (ds : List Delivery) (id : EventId) :
    Option Shown :=
  (run? (deliver svc) s ds).bind (fun t => (t.postById id).map PostRow.shown)

/-!
## Follow-ups that agree
-/

namespace EventBody

/-- Two follow-ups leave the same text, whichever comes last. -/
def Agree : EventBody -> EventBody -> Prop
  | .edit _ subject body mime, .edit _ subject' body' mime' =>
      subject = subject' ∧ body = body' ∧ mime = mime'
  | .edit _ subject body _, .tombstone _ => subject = "" ∧ body = ""
  | .tombstone _, .edit _ subject body _ => subject = "" ∧ body = ""
  | _, _ => True

theorem touch_comm {a b : EventBody} {target : EventId} {ka kb : FollowupKind}
    (ha : a.followup? = some (target, ka)) (hb : b.followup? = some (target, kb))
    (h : a.Agree b) (row : PostRow) : a.touch (b.touch row) = b.touch (a.touch row) := by
  cases a with
  | post board root parent subject body mime =>
      cases ha
  | edit named subject body mime =>
      cases ha
      cases b with
      | post board root parent subject body mime =>
          cases hb
      | edit named subject' body' mime' =>
          cases hb
          rcases h with ⟨rfl, rfl, rfl⟩
          rfl
      | tombstone named =>
          cases hb
          rcases h with ⟨rfl, rfl⟩
          simp only [touch]
          split
          · rfl
          · rfl
  | tombstone named =>
      cases ha
      cases b with
      | post board root parent subject body mime =>
          cases hb
      | edit named subject body mime =>
          cases hb
          rcases h with ⟨rfl, rfl⟩
          simp only [touch]
          split
          · rfl
          · rfl
      | tombstone named =>
          cases hb
          rfl

theorem touch_again (a : EventBody) (row : PostRow) : a.touch (a.touch row) = a.touch row := by
  cases a with
  | post board root parent subject body mime =>
      rfl
  | edit target subject body mime | tombstone target =>
      simp only [touch]
      split
      · simp
      · simp

theorem shown_touch_congr (a : EventBody) {row row' : PostRow}
    (hid : row.eventId = row'.eventId) (h : row.shown = row'.shown) :
    (a.touch row).shown = (a.touch row').shown := by
  simp only [PostRow.shown, Shown.mk.injEq] at h
  cases a with
  | post board root parent subject body mime =>
      simp [touch, PostRow.shown, h]
  | edit target subject body mime | tombstone target =>
      simp only [touch, hid]
      split
      all_goals simp [PostRow.shown, h]

theorem agree_of_shown {a b : EventBody} {target : EventId} {ka kb : FollowupKind}
    (ha : a.followup? = some (target, ka)) (hb : b.followup? = some (target, kb))
    {row row' : PostRow} (hrow : row.eventId = target) (hrow' : row'.eventId = target)
    (h : (a.touch row).shown = (b.touch row').shown) : a.Agree b := by
  cases a with
  | post board root parent subject body mime =>
      cases ha
  | edit named subject body mime =>
      cases ha
      cases b with
      | post board root parent subject body mime =>
          cases hb
      | edit named subject' body' mime' =>
          cases hb
          simp only [touch, hrow, hrow', if_true, PostRow.shown, Shown.mk.injEq] at h
          exact ⟨h.left, h.right.left, h.right.right.left⟩
      | tombstone named =>
          cases hb
          simp only [touch, hrow, hrow', if_true, PostRow.shown, Shown.mk.injEq] at h
          exact ⟨h.left, h.right.left⟩
  | tombstone named =>
      cases ha
      cases b with
      | post board root parent subject body mime =>
          cases hb
      | edit named subject body mime =>
          cases hb
          simp only [touch, hrow, hrow', if_true, PostRow.shown, Shown.mk.injEq] at h
          exact ⟨h.left.symm, h.right.left.symm⟩
      | tombstone named =>
          trivial

end EventBody

theorem PostRow.eventId_touchAll (row : PostRow) (followups : List EventBody) :
    (row.touchAll followups).eventId = row.eventId :=
  PostRow.eventId_of_bare (row.touchAll_bare followups)

theorem PostRow.shown_touchAll_congr {row row' : PostRow} (followups : List EventBody)
    (hid : row.eventId = row'.eventId) (h : row.shown = row'.shown) :
    (row.touchAll followups).shown = (row'.touchAll followups).shown := by
  induction followups generalizing row row' with
  | nil =>
      exact h
  | cons followup rest ih =>
      rw [PostRow.touchAll_cons, PostRow.touchAll_cons]
      apply ih
      · rw [PostRow.eventId_of_bare (followup.touch_bare row),
          PostRow.eventId_of_bare (followup.touch_bare row'), hid]
      · exact followup.shown_touch_congr hid h

/-- The follow-ups of a post that pass the gate do not contradict each other. -/
def SameText (post : SignedEvent) (followups : List SignedEvent) : Prop :=
  forall f, f ∈ followups -> followupAuthorized f post = true ->
    forall g, g ∈ followups -> followupAuthorized g post = true -> f.body.Agree g.body

/-!
## Servers that are brought a post and its follow-ups
-/

/-- A server that knows nothing of the post yet, and carries its board. -/
structure Fresh (s : Store) (post : SignedEvent) (followups : List SignedEvent) : Prop where
  absent : s.postById post.id = none
  unnamed : forall id row, s.followupById id = some row ->
    row.targetId ≠ post.id ∧ forall f, f ∈ followups -> id ≠ f.id
  carried : exists row, BoardService.projectPost s post = .ok row

/-- The post and its follow-ups, each at least once, under boards the server has. -/
structure Brings (s : Store) (post : SignedEvent) (followups : List SignedEvent)
    (ds : List Delivery) : Prop where
  every : forall event, event ∈ post :: followups -> exists d, d ∈ ds ∧ d.event = event
  only : forall d, d ∈ ds -> d.event ∈ post :: followups
  named : forall d, d ∈ ds -> exists row, s.bySlug d.board = some row

/-- A delivery after which the post is still there: retention did not drop it. -/
def Retained (svc : BoardService) (post : SignedEvent) (s : Store) (d : Delivery) : Prop :=
  d.event = post ∨ s.postById post.id ≠ none -> (d.call.run svc s).postById post.id ≠ none

/-- Along the deliveries, retention never drops the post. -/
def Keeps (svc : BoardService) (s : Store) (post : SignedEvent) (ds : List Delivery) : Prop :=
  Along (deliver svc) (Retained svc post) s ds

variable {s s' : Store}

theorem projectPost_congr (h : s.boards = s'.boards) (event : SignedEvent) :
    BoardService.projectPost s event = BoardService.projectPost s' event := by
  unfold BoardService.projectPost Store.bySlug
  rw [h]

theorem bySlug_congr (h : s.boards = s'.boards) (slug : String) :
    s.bySlug slug = s'.bySlug slug := by
  unfold Store.bySlug
  rw [h]

theorem boards_of_wrote {svc : BoardService} {call : Call} (h : Wrote svc s call s') :
    s'.boards = s.boards := by
  have hretain : forall (t : Store) (row : PostRow) (maxThreads : Int),
      (svc.retain t row maxThreads).boards = t.boards := by
    intro t row maxThreads
    rcases retain_eq_dropThreads svc t row maxThreads with ⟨olds, heq, _⟩
    rw [heq, boards_dropThreads]
  cases h with
  | nothing | edited hrow | tombstoned hrow =>
      rfl
  | posted hprepared hrow =>
      rw [hretain]
      rfl
  | took htook =>
      cases htook with
      | post hrow =>
          unfold BoardService.reconcileFollowups
          rw [boards_foldl_reconcileOne, hretain]
          rfl
      | applied hfollowup hrow hauthorized =>
          rw [boards_applyFollowup]
          rfl
      | parked hfollowup habsent hboard =>
          rfl

theorem run?_deliver (svc : BoardService) (s : Store) (ds : List Delivery) :
    exists t, run? (deliver svc) s ds = some t := by
  induction ds generalizing s with
  | nil =>
      exact ⟨s, rfl⟩
  | cons d rest ih =>
      exact ih (d.call.run svc s)

theorem postById_ingest_of_unlimited {svc : BoardService} {event : SignedEvent} {board : String}
    {maxThreads : Int} {id : EventId} {row : PostRow} (hlimit : maxThreads <= 0)
    (hrow : s.postById id = some row) (h : Wrote svc s (.ingest event board maxThreads) s') :
    exists touches, s'.postById id = some (row.touchAll touches) := by
  cases h with
  | nothing =>
      exact ⟨[], hrow⟩
  | took htook =>
      cases htook with
      | post hprojected =>
          rw [retain_of_unlimited hlimit, postById_reconcileFollowups, postById_insertPost, hrow]
          exact ⟨_, rfl⟩
      | applied hfollowup hfound hauthorized =>
          refine ⟨[event.body], ?_⟩
          rw [postById_applyFollowup, postById_storeFollowup, hrow]
          rfl
      | parked hfollowup habsent hboard =>
          exact ⟨[], hrow⟩

/-!
## Before and after the post arrives
-/

/-- A follow-up that waits for the post, as one of the deliveries brought it. -/
structure Parked (post : SignedEvent) (past : List Delivery) (id : EventId)
    (row : FollowupRow) : Prop where
  brought : exists d, d ∈ past ∧ d.event = row.event
  eventId : row.event.id = id
  targetId : row.targetId = post.id
  rootId : row.rootId = post.id
  applied : row.applied = false

/-- Before the post: every follow-up brought so far waits for it. -/
structure Waiting (post : SignedEvent) (followups : List SignedEvent)
    (past : List Delivery) (s : Store) : Prop where
  absent : s.postById post.id = none
  only : forall d, d ∈ past -> d.event ∈ followups
  stored : forall d, d ∈ past -> exists row, s.followupById d.event.id = some row
  rows : forall id row, s.followupById id = some row ->
    (row.targetId ≠ post.id ∧ forall f, f ∈ followups -> id ≠ f.id) ∨
      Parked post past id row

/--
After the post: its row is the post as projected, touched by follow-ups that passed
the gate, every one of those brought so far among them, and none is waiting.
-/
structure Standing (post : SignedEvent) (followups : List SignedEvent) (row0 : PostRow)
    (past : List Delivery) (s : Store) (touches : List EventBody) : Prop where
  row : s.postById post.id = some (row0.touchAll touches)
  sound : forall a, a ∈ touches ->
    exists f, f ∈ followups ∧ followupAuthorized f post = true ∧ f.body = a
  complete : forall d, d ∈ past -> d.event ∈ followups ->
    followupAuthorized d.event post = true -> d.event.body ∈ touches
  settled : forall id row, s.followupById id = some row -> row.targetId = post.id ->
    row.applied = true

def Reached (s0 : Store) (post : SignedEvent) (followups : List SignedEvent)
    (row0 : PostRow) (past : List Delivery) (s : Store) : Prop :=
  s.boards = s0.boards ∧
    (Waiting post followups past s ∨
      exists touches, Standing post followups row0 past s touches)

/-- A delivery of the post or of one of its follow-ups that retention survives. -/
def Brought (svc : BoardService) (s0 : Store) (post : SignedEvent)
    (followups : List SignedEvent) (s : Store) (d : Delivery) : Prop :=
  (d.event ∈ post :: followups ∧ exists row, s0.bySlug d.board = some row) ∧
    Retained svc post s d

section Delivered

variable {post : SignedEvent} {followups : List SignedEvent} {svc : BoardService}
  {s : Store} {row0 : PostRow} {past : List Delivery} {d : Delivery}

theorem Parked.mono {id : EventId} {row : FollowupRow} (h : Parked post past id row) :
    Parked post (past ++ [d]) id row := by
  rcases h.brought with ⟨d', hmem, hevent⟩
  exact
    { brought := ⟨d', mem_append_left _ hmem, hevent⟩
      eventId := h.eventId
      targetId := h.targetId
      rootId := h.rootId
      applied := h.applied }

theorem Waiting.park {kind : FollowupKind} {board : String}
    (h : Waiting post followups past s) (hmem : d.event ∈ followups) :
    Waiting post followups (past ++ [d])
      (BoardService.storeFollowup s d.event board post.id post.id kind false) where
  absent := h.absent
  only := by
    intro d' hd'
    rcases mem_append.mp hd' with hpast | hnew
    · exact h.only d' hpast
    · rw [mem_singleton.mp hnew]
      exact hmem
  stored := by
    intro d' hd'
    rw [followupById_storeFollowup]
    rcases mem_append.mp hd' with hpast | hnew
    · rcases h.stored d' hpast with ⟨row, hrow⟩
      rw [hrow]
      exact ⟨row, rfl⟩
    · rw [mem_singleton.mp hnew]
      cases s.followupById d.event.id with
      | some row =>
          exact ⟨row, rfl⟩
      | none =>
          simp
  rows := by
    intro id row hrow
    rw [followupById_storeFollowup] at hrow
    cases hold : s.followupById id with
    | some old =>
        rw [hold] at hrow
        cases hrow
        rcases h.rows id row hold with hother | hparked
        · exact Or.inl hother
        · exact Or.inr hparked.mono
    | none =>
        rw [hold] at hrow
        simp only [] at hrow
        split at hrow
        · rename_i hid
          cases hrow
          exact Or.inr
            { brought := ⟨d, by simp, rfl⟩
              eventId := hid
              targetId := rfl
              rootId := rfl
              applied := rfl }
        · cases hrow

theorem dropThreads_of_kept {olds : List EventId} {row : PostRow}
    (hrow : s.postById post.id = some row)
    (hkept : (BoardService.dropThreads s olds).postById post.id ≠ none) :
    (BoardService.dropThreads s olds).postById post.id = some row ∧ post.id ∉ olds := by
  cases hleft : (BoardService.dropThreads s olds).postById post.id with
  | none =>
      exact absurd hleft hkept
  | some left =>
      rcases postById_dropThreads.mp hleft with ⟨hold, hnot⟩
      rw [hrow] at hold
      cases hold
      constructor
      · rfl
      · intro hmem
        have hid : row.eventId = post.id := Table.keyOf_of_find? hrow
        exact (hnot post.id hmem).left hid

section

variable (h : Waiting post followups past s)
  (hcores : forall f, f ∈ followups -> forall g, g ∈ followups -> f.id = g.id -> f.core = g.core)
include h hcores

theorem Waiting.admits {olds : List EventId} {d' : Delivery} (hid : row0.eventId = post.id)
    (hevent : row0.event = post) (hnot : post.id ∉ olds) (hpast : d' ∈ past)
    (hmem : d'.event ∈ followups) (hgate : followupAuthorized d'.event post = true) :
    d'.event.body ∈ (svc.admitted (BoardService.dropThreads (s.insertPost row0) olds) row0).map
        (fun followup => followup.event.body) := by
  rcases h.stored d' hpast with ⟨row, hfound⟩
  rcases h.rows _ row hfound with hother | hparked
  · exact absurd rfl (hother.right d'.event hmem)
  · rcases hparked.brought with ⟨d'', hd'', heq⟩
    have hcore : row.event.core = d'.event.core := by
      rw [← heq]
      apply hcores _ (h.only d'' hd'') _ hmem
      rw [heq]
      exact hparked.eventId
    have hkey : row.eventId = d'.event.id := Table.keyOf_of_find? hfound
    have hgate' : followupAuthorized row.event row0.event = true := by
      unfold followupAuthorized SignedEvent.authorKey SignedEvent.origin at hgate ⊢
      rw [hevent, hcore]
      exact hgate
    have hbody : row.event.body = d'.event.body := by
      unfold SignedEvent.body
      rw [hcore]
    apply mem_map.mpr
    refine ⟨row, mem_filter.mpr ⟨?_, hgate'⟩, hbody⟩
    rw [mem_pendingFor, hid, hkey]
    refine ⟨?_, hparked.targetId, hparked.applied⟩
    rw [followupById_dropThreads]
    refine ⟨hfound, ?_⟩
    rw [hparked.rootId]
    exact hnot

theorem Waiting.arrive {maxThreads : Int} (hrow0 : BoardService.projectPost s post = .ok row0)
    (hd : d.event = post) (hpost : post ∉ followups)
    (hkept : (svc.reconcileFollowups (svc.retain (s.insertPost row0) row0 maxThreads)
      row0).postById post.id ≠ none) : exists touches, Standing post followups row0 (past ++ [d])
      (svc.reconcileFollowups (svc.retain (s.insertPost row0) row0 maxThreads) row0) touches := by
  rcases projectPost_ok hrow0 with ⟨hid, hevent, _⟩
  rcases retain_eq_dropThreads svc (s.insertPost row0) row0 maxThreads with
    ⟨olds, hretain, _⟩
  rw [hretain] at hkept ⊢
  have hinsert : (s.insertPost row0).postById post.id = some row0 := by
    rw [postById_insertPost, h.absent]
    simp [hid]
  have hleft : (BoardService.dropThreads (s.insertPost row0) olds).postById post.id ≠ none := by
    intro hnone
    apply hkept
    rw [postById_reconcileFollowups, hnone]
    rfl
  rcases dropThreads_of_kept hinsert hleft with ⟨hrow, hnot⟩
  refine ⟨(svc.admitted (BoardService.dropThreads (s.insertPost row0) olds) row0).map
    (fun followup => followup.event.body), ?_⟩
  exact
    { row := by
        rw [postById_reconcileFollowups, hrow]
        rfl
      sound := by
        intro a ha
        rcases mem_map.mp ha with ⟨followup, hmem, hbody⟩
        rcases mem_filter.mp hmem with ⟨hpending, hgate⟩
        rcases mem_pendingFor.mp hpending with ⟨hfound, htarget, _⟩
        rcases followupById_dropThreads.mp hfound with ⟨hfound, _⟩
        rcases h.rows _ followup hfound with hother | hparked
        · exact absurd (htarget.trans hid) hother.left
        · rcases hparked.brought with ⟨d', hd', heq⟩
          refine ⟨followup.event, ?_, ?_, hbody⟩
          · rw [← heq]
            exact h.only d' hd'
          · rw [← hevent]
            exact hgate
      complete := by
        intro d' hd' hmem hgate
        rcases mem_append.mp hd' with hpast | hnew
        · exact h.admits hcores hid hevent hnot hpast hmem hgate
        · rw [mem_singleton.mp hnew, hd] at hmem
          exact absurd hmem hpost
      settled := by
        rw [← hid]
        exact pendingFor_eq_nil_iff.mp
          (svc.pendingFor_reconcileFollowups _ row0 svc.rank) }

end

theorem Standing.touch {touches : List EventBody} {kind : FollowupKind} {board : String}
    {root : EventId} (h : Standing post followups row0 past s touches)
    (hmem : d.event ∈ followups) (hgate : followupAuthorized d.event post = true) :
    Standing post followups row0 (past ++ [d]) (BoardService.applyFollowup
        (BoardService.storeFollowup s d.event board post.id root kind true) d.event.body)
      (touches ++ [d.event.body]) where
  row := by
    rw [postById_applyFollowup, postById_storeFollowup, h.row,
      PostRow.touchAll_append]
    rfl
  sound := by
    intro a ha
    rcases mem_append.mp ha with hold | hnew
    · exact h.sound a hold
    · exact ⟨d.event, hmem, hgate, (mem_singleton.mp hnew).symm⟩
  complete := by
    intro d' hd' hmem' hgate'
    rcases mem_append.mp hd' with hpast | hnew
    · exact mem_append_left _ (h.complete d' hpast hmem' hgate')
    · rw [mem_singleton.mp hnew]
      simp
  settled := by
    intro id row hrow htarget
    rw [followupById_applyFollowup,
      followupById_storeFollowup] at hrow
    cases hold : s.followupById id with
    | some old =>
        rw [hold] at hrow
        cases hrow
        exact h.settled id row hold htarget
    | none =>
        rw [hold] at hrow
        simp only [] at hrow
        split at hrow
        · cases hrow
          rfl
        · cases hrow

theorem Standing.ignore {touches : List EventBody} {s' : Store}
    (h : Standing post followups row0 past s touches)
    (hd : d.event ∈ followups -> followupAuthorized d.event post = false)
    (hrow : s'.postById post.id = s.postById post.id)
    (hsub : forall id row, s'.followupById id = some row -> s.followupById id = some row) :
    Standing post followups row0 (past ++ [d]) s' touches where
  row := by
    rw [hrow]
    exact h.row
  sound := h.sound
  complete := by
    intro d' hd' hmem hgate
    rcases mem_append.mp hd' with hpast | hnew
    · exact h.complete d' hpast hmem hgate
    · rw [mem_singleton.mp hnew] at hmem hgate
      rw [hd hmem] at hgate
      cases hgate
  settled := by
    intro id row hfound
    exact h.settled id row (hsub id row hfound)

theorem Standing.again {touches : List EventBody} {maxThreads : Int}
    (h : Standing post followups row0 past s touches)
    (hrow0 : BoardService.projectPost s post = .ok row0) (hd : d.event ∉ followups)
    (hkept : (svc.reconcileFollowups (svc.retain (s.insertPost row0) row0 maxThreads)
      row0).postById post.id ≠ none) : Standing post followups row0 (past ++ [d])
      (svc.reconcileFollowups (svc.retain (s.insertPost row0) row0 maxThreads) row0) touches := by
  have hid : row0.eventId = post.id := (projectPost_ok hrow0).left
  rcases retain_eq_dropThreads svc (s.insertPost row0) row0 maxThreads with
    ⟨olds, hretain, _⟩
  rw [hretain] at hkept ⊢
  have hnone : (BoardService.dropThreads (s.insertPost row0) olds).pendingFor svc.rank
      row0.eventId = [] := by
    rw [pendingFor_eq_nil_iff, hid]
    intro id row hfound
    exact h.settled id row (followupById_dropThreads.mp hfound).left
  rw [reconcileFollowups_of_none hnone] at hkept ⊢
  have hinsert : (s.insertPost row0).postById post.id = some (row0.touchAll touches) := by
    rw [postById_insertPost, h.row]
  have hrow := (dropThreads_of_kept hinsert hkept).left
  apply h.ignore
  · intro hmem
    exact absurd hmem hd
  · rw [hrow, h.row]
  · intro id row hfound
    exact (followupById_dropThreads.mp hfound).left

variable {s0 s' : Store}

/-- One delivery takes a server from one side of the post's arrival to the next. -/
theorem Reached.deliver
    (hcores : forall f, f ∈ followups -> forall g, g ∈ followups -> f.id = g.id ->
      f.core = g.core)
    (hfollowups : forall f, f ∈ followups ->
      exists kind, f.body.followup? = some (post.id, kind))
    (hrow0 : BoardService.projectPost s0 post = .ok row0)
    (h : Reached s0 post followups row0 past s)
    (hd : Brought svc s0 post followups s d) (hstep : deliver svc s d = some s') :
    Reached s0 post followups row0 (past ++ [d]) s' := by
  rcases h with ⟨hboards, hphase⟩
  rcases hd with ⟨⟨hevent, boardRow, hboard⟩, hretained⟩
  cases hstep
  refine ⟨?_, ?_⟩
  · rw [boards_of_wrote (d.call.wrote svc s), hboards]
  rw [← projectPost_congr hboards] at hrow0
  rw [← bySlug_congr hboards] at hboard
  have hpost : post.body.followup? = none :=
    (projectPost_ok hrow0).right.right.right.right
  have hnot : post ∉ followups := by
    intro hmem
    rcases hfollowups post hmem with ⟨kind, hkind⟩
    rw [hpost] at hkind
    cases hkind
  rcases mem_cons.mp hevent with hevent | hmem
  · have hrun : d.call.run svc s =
        svc.reconcileFollowups (svc.retain (s.insertPost row0) row0 d.maxThreads) row0 := by
      unfold Delivery.call
      rw [hevent]
      exact run_ingest_of_post hrow0
    have hkept := hretained (Or.inl hevent)
    rw [hrun] at hkept ⊢
    rcases hphase with hwaiting | ⟨touches, hstanding⟩
    · exact Or.inr (hwaiting.arrive hcores hrow0 hevent hnot hkept)
    · refine Or.inr ⟨touches, hstanding.again hrow0 ?_ hkept⟩
      rw [hevent]
      exact hnot
  · rcases hfollowups d.event hmem with ⟨kind, hkind⟩
    rcases hphase with hwaiting | ⟨touches, hstanding⟩
    · have hrun : d.call.run svc s = _ :=
        run_ingest_of_absent hkind hwaiting.absent hboard
      rw [hrun]
      exact Or.inl (hwaiting.park hmem)
    · have horigin : (row0.touchAll touches).event = post := by
        rw [PostRow.event_of_bare (row0.touchAll_bare touches)]
        exact (projectPost_ok hrow0).right.left
      cases hgate : followupAuthorized d.event post with
      | true =>
          have hrun : d.call.run svc s = _ :=
            run_ingest_of_authorized hkind hstanding.row (by rw [horigin, hgate])
          rw [hrun]
          exact Or.inr ⟨_, hstanding.touch hmem hgate⟩
      | false =>
          have hrun : d.call.run svc s = s :=
            run_ingest_of_refused hkind hstanding.row (by rw [horigin, hgate])
          rw [hrun]
          exact Or.inr ⟨touches, hstanding.ignore (fun _ => hgate) rfl (fun _ _ hrow => hrow)⟩

end Delivered

variable {post : SignedEvent} {followups : List SignedEvent} {s0 : Store} {row0 : PostRow}
  {svc : BoardService} {ds : List Delivery} {board : String} {boardRow : BoardRow}

section

variable
  (hcores : forall f, f ∈ followups -> forall g, g ∈ followups -> f.id = g.id -> f.core = g.core)
  (hfollowups : forall f, f ∈ followups -> exists kind, f.body.followup? = some (post.id, kind))
  (hfresh : Fresh s0 post followups) (hrow0 : BoardService.projectPost s0 post = .ok row0)
include hcores hfollowups hfresh hrow0

theorem reached_of_brings {t : Store}
    (hbrought : Along (deliver svc) (Brought svc s0 post followups) s0 ds)
    (hrun : run? (deliver svc) s0 ds = some t) : Reached s0 post followups row0 ds t := by
  have hstart : Reached s0 post followups row0 [] s0 := by
    refine ⟨rfl, Or.inl ?_⟩
    exact
      { absent := hfresh.absent
        only := by simp
        stored := by simp
        rows := fun id row hrow => Or.inl (hfresh.unnamed id row hrow) }
  have hreached := run?_history_along (Reached s0 post followups row0)
    (fun past s d s' h hd hstep => Reached.deliver hcores hfollowups hrow0 h hd hstep)
    hstart hbrought hrun
  simpa using hreached

theorem standing_of_brings (hbrings : Brings s0 post followups ds) (hkeeps : Keeps svc s0 post ds) :
    exists t touches, run? (deliver svc) s0 ds = some t ∧ t.boards = s0.boards ∧
      Standing post followups row0 ds t touches ∧
      forall a, a ∈ touches <->
        a ∈ (followups.filter (fun f => followupAuthorized f post)).map SignedEvent.body := by
  rcases run?_deliver svc s0 ds with ⟨t, hrun⟩
  have hbrought : Along (deliver svc) (Brought svc s0 post followups) s0 ds :=
    along_of_forall (fun d hd => ⟨hbrings.only d hd, hbrings.named d hd⟩) hkeeps
  rcases reached_of_brings hcores hfollowups hfresh hrow0 hbrought hrun with
    ⟨hboards, hphase⟩
  rcases hphase with hwaiting | ⟨touches, hstanding⟩
  · exfalso
    rcases hbrings.every post mem_cons_self with ⟨d, hd, hevent⟩
    have hmem := hwaiting.only d hd
    rw [hevent] at hmem
    rcases hfollowups post hmem with ⟨kind, hkind⟩
    rw [(projectPost_ok hrow0).right.right.right.right] at hkind
    cases hkind
  · refine ⟨t, touches, hrun, hboards, hstanding, ?_⟩
    intro a
    rw [mem_map]
    constructor
    · intro ha
      rcases hstanding.sound a ha with ⟨f, hmem, hgate, hbody⟩
      exact ⟨f, mem_filter.mpr ⟨hmem, hgate⟩, hbody⟩
    · intro ha
      rcases ha with ⟨f, hf, hbody⟩
      rcases mem_filter.mp hf with ⟨hmem, hgate⟩
      rcases hbrings.every f (mem_cons_of_mem _ hmem) with ⟨d, hd, hevent⟩
      rw [← hbody, ← hevent]
      apply hstanding.complete d hd
      · rw [hevent]
        exact hmem
      · rw [hevent]
        exact hgate

end

theorem unordered_of_sameText (hfollowups : forall f, f ∈ followups ->
      exists kind, f.body.followup? = some (post.id, kind)) (h : SameText post followups) :
    Unordered EventBody.touch
      ((followups.filter (fun f => followupAuthorized f post)).map SignedEvent.body) where
  comm := by
    intro a ha b hb row
    rcases mem_map.mp ha with ⟨f, hf, rfl⟩
    rcases mem_map.mp hb with ⟨g, hg, rfl⟩
    rcases mem_filter.mp hf with ⟨hf, hfgate⟩
    rcases mem_filter.mp hg with ⟨hg, hggate⟩
    rcases hfollowups f hf with ⟨kf, hkf⟩
    rcases hfollowups g hg with ⟨kg, hkg⟩
    exact EventBody.touch_comm hkf hkg (h f hf hfgate g hg hggate) row
  again := by
    intro a _ row
    exact a.touch_again row

/-- Some events, one after the other, under one board and with no limit on threads. -/
def plainly (board : String) (events : List SignedEvent) : List Delivery :=
  events.map (fun event => { event := event, board := board, maxThreads := 0 })

theorem brings_plainly {s : Store} {events : List SignedEvent}
    (hboard : s.bySlug board = some boardRow) (hevery : post :: followups ⊆ events)
    (honly : events ⊆ post :: followups) : Brings s post followups (plainly board events) where
  every := by
    intro event hmem
    refine ⟨{ event := event, board := board, maxThreads := 0 }, ?_, rfl⟩
    exact mem_map_of_mem (hevery hmem)
  only := by
    intro d hd
    rcases mem_map.mp hd with ⟨event, hmem, rfl⟩
    exact honly hmem
  named := by
    intro d hd
    rcases mem_map.mp hd with ⟨event, _, rfl⟩
    exact ⟨boardRow, hboard⟩

theorem brings_plainly_last {s : Store} {x : SignedEvent} (hboard : s.bySlug board = some boardRow)
    (hx : x ∈ followups) : Brings s post followups (plainly board (post :: followups ++ [x])) := by
  apply brings_plainly hboard
  · exact subset_append_left _ _
  · intro event hmem
    rcases mem_append.mp hmem with hmem | hmem
    · exact hmem
    · rw [mem_singleton.mp hmem]
      exact mem_cons_of_mem _ hx

theorem keeps_plainly (svc : BoardService) (hrow0 : BoardService.projectPost s0 post = .ok row0)
    (board : String) (events : List SignedEvent) : Keeps svc s0 post (plainly board events) := by
  apply along_of_invariant (fun s => s.boards = s0.boards)
  · intro s d s' hboards hstep
    rw [boards_of_wrote (wrote_of_step hstep), hboards]
  · intro s d hd hboards hpresent
    rcases mem_map.mp hd with ⟨event, _, rfl⟩
    cases hfound : s.postById post.id with
    | some row =>
        rcases postById_ingest_of_unlimited (le_refl 0) hfound
          ((Delivery.mk event board 0).call.wrote svc s) with ⟨touches, hrow⟩
        rw [hrow]
        simp
    | none =>
        rcases hpresent with hevent | hpresent
        · have hevent : event = post := hevent
          rw [← projectPost_congr hboards] at hrow0
          subst hevent
          have hrun : (Delivery.mk event board 0).call.run svc s = _ :=
            run_ingest_of_post hrow0
          rw [hrun, retain_of_unlimited (le_refl 0),
            postById_reconcileFollowups, postById_insertPost, hfound]
          simp [(projectPost_ok hrow0).left]
        · exact absurd hfound hpresent
  · rfl

theorem shownAfter_plainly_last {x : SignedEvent}
    (hcores : forall f, f ∈ followups -> forall g, g ∈ followups -> f.id = g.id ->
      f.core = g.core) (hfollowups : forall f, f ∈ followups ->
      exists kind, f.body.followup? = some (post.id, kind)) (hfresh : Fresh s0 post followups)
    (hrow0 : BoardService.projectPost s0 post = .ok row0) (hboard : s0.bySlug board = some boardRow)
    (hx : x ∈ followups) (hgate : followupAuthorized x post = true) :
    exists row, row.eventId = post.id ∧
      shownAfter svc s0 (plainly board (post :: followups ++ [x])) post.id =
        some (x.body.touch row).shown := by
  have hbrings : Brings s0 post followups (plainly board (post :: followups)) :=
    brings_plainly hboard (Subset.refl _) (Subset.refl _)
  rcases standing_of_brings hcores hfollowups hfresh hrow0 hbrings
    (keeps_plainly svc hrow0 board (post :: followups)) with
    ⟨t, touches, hrun, _, hstanding, _⟩
  rcases projectPost_ok hrow0 with ⟨hid, hevent, _⟩
  refine ⟨row0.touchAll touches, ?_, ?_⟩
  · rw [PostRow.eventId_touchAll, hid]
  · rcases hfollowups x hx with ⟨kind, hkind⟩
    have hgate' : followupAuthorized x (row0.touchAll touches).event = true := by
      rw [PostRow.event_of_bare (row0.touchAll_bare touches), hevent, hgate]
    have hlast : (Call.ingest x board 0).run svc t = _ :=
      run_ingest_of_authorized hkind hstanding.row hgate'
    have hsplit : plainly board (post :: followups ++ [x]) =
        plainly board (post :: followups) ++ plainly board [x] :=
      map_append
    have hend : run? (deliver svc) t (plainly board [x]) =
        some ((Call.ingest x board 0).run svc t) := rfl
    unfold shownAfter
    rw [hsplit, run?_append, hrun]
    simp only [hend, Option.bind_some]
    rw [hlast, postById_applyFollowup, postById_storeFollowup, hstanding.row]
    rfl

/-!
## When two servers agree
-/

/-- Whatever the orders in which two servers are brought the events, they show the same. -/
def Converge (svc1 : BoardService) (s1 : Store) (svc2 : BoardService) (s2 : Store)
    (post : SignedEvent) (followups : List SignedEvent) : Prop :=
  forall ds1 ds2, Brings s1 post followups ds1 -> Brings s2 post followups ds2 ->
    Keeps svc1 s1 post ds1 -> Keeps svc2 s2 post ds2 ->
      exists shown, shownAfter svc1 s1 ds1 post.id = some shown ∧
        shownAfter svc2 s2 ds2 post.id = some shown

theorem shown_of_projected {s1 s2 : Store} {row1 row2 : PostRow}
    (h1 : BoardService.projectPost s1 post = .ok row1)
    (h2 : BoardService.projectPost s2 post = .ok row2) : row1.shown = row2.shown := by
  unfold BoardService.projectPost at h1 h2
  cases hbody : post.body with
  | post board root parent subject body mime =>
      rw [hbody] at h1 h2
      simp only [] at h1 h2
      split at h1
      · cases h1
      · split at h2
        · cases h2
        · cases h1
          cases h2
          rfl
  | edit target subject body mime | tombstone target =>
      rw [hbody] at h1
      cases h1

theorem board_of_projected {s : Store} {row : PostRow}
    (h : BoardService.projectPost s post = .ok row) :
    exists board boardRow, s.bySlug board = some boardRow := by
  unfold BoardService.projectPost at h
  split at h
  · split at h
    · cases h
    · rename_i hboard
      exact ⟨_, _, hboard⟩
  · cases h

theorem shownAfter_of_standing {t : Store} {touches : List EventBody}
    (hrun : run? (deliver svc) s0 ds = some t) (h : Standing post followups row0 ds t touches) :
    shownAfter svc s0 ds post.id = some (row0.touchAll touches).shown := by
  unfold shownAfter
  rw [hrun, Option.bind_some, h.row]
  rfl

/--
Two servers that are brought a post and its follow-ups agree on what they show,
whatever the orders, exactly when the follow-ups that pass the gate do not
contradict each other.
-/
theorem followups_converge_iff {keys : Keys} {post : SignedEvent}
    {followups : List SignedEvent}
    (hfollowups : forall f, f ∈ followups ->
      exists kind, f.body.followup? = some (post.id, kind))
    (hverified : forall f, f ∈ followups -> exists key, f.verify keys key = .ok ())
    (hhash : forall f, f ∈ followups -> forall g, g ∈ followups ->
      keys.hash f.core = keys.hash g.core -> f.core = g.core)
    {svc1 svc2 : BoardService} {s1 s2 : Store} (hfresh1 : Fresh s1 post followups)
    (hfresh2 : Fresh s2 post followups) :
    Converge svc1 s1 svc2 s2 post followups <-> SameText post followups := by
  have hcores : forall f, f ∈ followups -> forall g, g ∈ followups -> f.id = g.id ->
      f.core = g.core := by
    intro f hf g hg hid
    rcases hverified f hf with ⟨fkey, hfkey⟩
    rcases hverified g hg with ⟨gkey, hgkey⟩
    apply hhash f hf g hg
    rw [← SignedEvent.id_of_verify hfkey, ← SignedEvent.id_of_verify hgkey, hid]
  rcases hfresh1.carried with ⟨row1, hrow1⟩
  rcases hfresh2.carried with ⟨row2, hrow2⟩
  constructor
  · intro h f hf hfgate g hg hggate
    rcases board_of_projected hrow1 with ⟨board1, boardRow1, hboard1⟩
    rcases board_of_projected hrow2 with ⟨board2, boardRow2, hboard2⟩
    rcases shownAfter_plainly_last hcores hfollowups hfresh1 hrow1 hboard1 hf hfgate with
      ⟨last1, hid1, hshown1⟩
    rcases shownAfter_plainly_last hcores hfollowups hfresh2 hrow2 hboard2 hg hggate with
      ⟨last2, hid2, hshown2⟩
    rcases h _ _ (brings_plainly_last hboard1 hf) (brings_plainly_last hboard2 hg)
      (keeps_plainly svc1 hrow1 board1 _) (keeps_plainly svc2 hrow2 board2 _) with
      ⟨shown, heq1, heq2⟩
    rw [hshown1] at heq1
    rw [hshown2] at heq2
    rcases hfollowups f hf with ⟨kf, hkf⟩
    rcases hfollowups g hg with ⟨kg, hkg⟩
    apply EventBody.agree_of_shown hkf hkg hid1 hid2
    exact Option.some.inj (heq1.trans heq2.symm)
  · intro h ds1 ds2 hbrings1 hbrings2 hkeeps1 hkeeps2
    rcases standing_of_brings hcores hfollowups hfresh1 hrow1 hbrings1 hkeeps1 with
      ⟨t1, touches1, hrun1, _, hstanding1, hmem1⟩
    rcases standing_of_brings hcores hfollowups hfresh2 hrow2 hbrings2 hkeeps2 with
      ⟨t2, touches2, hrun2, _, hstanding2, hmem2⟩
    refine ⟨_, shownAfter_of_standing hrun1 hstanding1, ?_⟩
    rw [shownAfter_of_standing hrun2 hstanding2]
    have hsame : row2.touchAll touches2 = row2.touchAll touches1 := by
      apply (unordered_of_sameText hfollowups h).applyAll_eq_of_same
      · intro a ha
        exact (hmem2 a).mp ha
      · intro a ha
        exact (hmem1 a).mpr ((hmem2 a).mp ha)
      · intro a ha
        exact (hmem2 a).mpr ((hmem1 a).mp ha)
    rw [hsame]
    have hid : row2.eventId = row1.eventId := by
      rw [(projectPost_ok hrow1).left, (projectPost_ok hrow2).left]
    rw [PostRow.shown_touchAll_congr touches1 hid (shown_of_projected hrow2 hrow1)]

theorem fresh_opened (followups : List SignedEvent) :
    Fresh (Store.opened oneBoard) shortPost followups where
  absent := rfl
  unnamed := by
    intro id row hrow
    cases hrow
  carried := ⟨_, rfl⟩

theorem followups_converge_refused :
    Converge (clockService "burrow" 9) (Store.opened oneBoard) (clockService "warren" 8)
      (Store.opened oneBoard) shortPost [firstEdit, strangerTombstone] := by
  have hsame : SameText shortPost [firstEdit, strangerTombstone] := by
    intro f hf hfgate g hg hggate
    have honly : forall e, e ∈ [firstEdit, strangerTombstone] ->
        followupAuthorized e shortPost = true -> e = firstEdit := by
      decide
    rw [honly f hf hfgate, honly g hg hggate]
    exact ⟨rfl, rfl, rfl⟩
  have hverified : forall f, f ∈ [firstEdit, strangerTombstone] ->
      exists key, f.verify Keys.clock key = .ok () := by
    intro f hf
    refine ⟨8, ?_⟩
    revert f hf
    decide
  refine (followups_converge_iff ?_ hverified ?_ (fresh_opened _) (fresh_opened _)).mpr hsame
  · intro f hf
    rcases mem_pair.mp hf with rfl | rfl
    · exact ⟨.edit, rfl⟩
    · exact ⟨.tombstone, rfl⟩
  · decide

/-- Two edits of one post, brought in two orders, leave two texts. -/
theorem two_edits_diverge :
    (forall f, f ∈ [firstEdit, secondEdit] ->
      f.body.followup? = some (shortPost.id, .edit) ∧ f.verify Keys.clock 8 = .ok ()) ∧
    ¬ Converge (clockService "burrow" 9) (Store.opened oneBoard) (clockService "warren" 8)
      (Store.opened oneBoard) shortPost [firstEdit, secondEdit] := by
  constructor
  · decide
  · intro h
    have hboard : (Store.opened oneBoard).bySlug "general" =
        some { slug := "general", kind := 2, maxThreads := 0 } := rfl
    rcases (fresh_opened []).carried with ⟨row0, hrow0⟩
    have hbrings1 : Brings (Store.opened oneBoard) shortPost [firstEdit, secondEdit]
        (plainly "general" [shortPost, firstEdit, secondEdit]) :=
      brings_plainly hboard (by decide) (by decide)
    have hbrings2 : Brings (Store.opened oneBoard) shortPost [firstEdit, secondEdit]
        (plainly "general" [shortPost, secondEdit, firstEdit]) :=
      brings_plainly hboard (by decide) (by decide)
    rcases h _ _ hbrings1 hbrings2 (keeps_plainly _ hrow0 "general" _)
      (keeps_plainly _ hrow0 "general" _) with ⟨shown, hshown1, hshown2⟩
    have hsecond : shownAfter (clockService "burrow" 9) (Store.opened oneBoard)
        (plainly "general" [shortPost, firstEdit, secondEdit]) shortPost.id =
          some
            { subject := "second"
              body := "text"
              mime := "text/plain"
              edited := true
              tombstoned := false } := rfl
    have hfirst : shownAfter (clockService "warren" 8) (Store.opened oneBoard)
        (plainly "general" [shortPost, secondEdit, firstEdit]) shortPost.id =
          some
            { subject := "first"
              body := "text"
              mime := "text/plain"
              edited := true
              tombstoned := false } := rfl
    rw [hsecond] at hshown1
    rw [hfirst, ← hshown1] at hshown2
    revert hshown2
    decide

end Rabbithole.Boards
