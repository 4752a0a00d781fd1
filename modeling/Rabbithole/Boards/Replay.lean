import Rabbithole.Boards.Convergence

/-!
# Events delivered again

The inserts ignore an event that is stored, but a follow-up's effect is written again at every
delivery.  So an event delivered once more changes nothing exactly when it is a post, or a
follow-up that does not reach its post, or one whose text its post still shows.
-/

namespace Rabbithole.Boards

open Foundation List BoardService

/-- The events that the deliveries got taken in. -/
def accepted (svc : BoardService) : Store -> List Delivery -> List SignedEvent
  | _, [] => []
  | s, d :: rest =>
      match svc.ingestEvent s d.event d.board d.maxThreads with
      | .error _ => accepted svc s rest
      | .ok (_, s') => d.event :: accepted svc s' rest

def PostRow.Marked (row : PostRow) : FollowupKind -> Prop
  | .edit => row.edited = true
  | .tombstone => row.tombstoned = true

/-- A row shows the text that a follow-up writes. -/
def PostRow.Shows (row : PostRow) : EventBody -> Prop
  | .post _ _ _ _ _ _ => True
  | .edit _ subject body mime => row.subject = subject ∧ row.body = body ∧ row.mime = mime
  | .tombstone _ => row.subject = "" ∧ row.body = ""

/-- An event that its post, if it is stored and the gate opens, still shows. -/
def StillShown (s : Store) (event : SignedEvent) : Prop :=
  forall target kind row, event.body.followup? = some (target, kind) ->
    s.postById target = some row -> followupAuthorized event row.event = true ->
      row.Shows event.body

namespace PostRow

variable {row : PostRow} {kind : FollowupKind} {a : EventBody}

theorem Marked.touch (h : row.Marked kind) (a : EventBody) : (a.touch row).Marked kind := by
  cases a with
  | post board root parent subject body mime =>
      exact h
  | edit target subject body mime =>
      simp only [EventBody.touch]
      split
      · cases kind with
        | edit =>
            rfl
        | tombstone =>
            exact h
      · exact h
  | tombstone target =>
      simp only [EventBody.touch]
      split
      · cases kind with
        | edit =>
            exact h
        | tombstone =>
            rfl
      · exact h

theorem marked_touch_self (h : a.followup? = some (row.eventId, kind)) :
    (a.touch row).Marked kind := by
  cases a with
  | post board root parent subject body mime =>
      cases h
  | edit target subject body mime | tombstone target =>
      cases h
      simp [EventBody.touch, Marked]

theorem Marked.touchAll (h : row.Marked kind) (followups : List EventBody) :
    (row.touchAll followups).Marked kind := by
  induction followups generalizing row with
  | nil =>
      exact h
  | cons a rest ih =>
      exact ih (h.touch a)

theorem marked_touchAll_of_mem {followups : List EventBody}
    (h : a.followup? = some (row.eventId, kind)) (hmem : a ∈ followups) :
    (row.touchAll followups).Marked kind := by
  induction followups generalizing row with
  | nil =>
      cases hmem
  | cons b rest ih =>
      rw [PostRow.touchAll_cons]
      rcases mem_cons.mp hmem with rfl | hrest
      · exact (marked_touch_self h).touchAll rest
      · apply ih _ hrest
        rw [PostRow.eventId_of_bare (b.touch_bare row)]
        exact h

theorem touch_eq_self_iff (h : a.followup? = some (row.eventId, kind)) (hmarked : row.Marked kind) :
    a.touch row = row <-> row.Shows a := by
  cases row with
  | mk eventId boardSlug rootId parentId author subject body mime createdAt edited
      tombstoned event =>
      cases a with
      | post board root parent subject body mime =>
          cases h
      | edit target subject' body' mime' =>
          cases h
          have hedited : edited = true := hmarked
          simp only [EventBody.touch, Shows, if_true, PostRow.mk.injEq, hedited]
          tauto
      | tombstone target =>
          cases h
          have htombstoned : tombstoned = true := hmarked
          simp only [EventBody.touch, Shows, if_true, PostRow.mk.injEq, htombstoned]
          tauto

end PostRow

/-!
## What is known of the events taken in
-/

/--
Between deliveries, with no limit on threads: a follow-up is stored as applied exactly when
its post is stored; a post taken in is stored; a follow-up taken in is stored as long as its
post is not, and once its post is there, if it passes, it has left its mark.
-/
structure Known (events taken : List SignedEvent) (s : Store) : Prop where
  only : taken ⊆ events
  coherent : s.Coherent
  rows : forall id row, s.followupById id = some row ->
    row.event ∈ events ∧ row.applied = (s.postById row.targetId).isSome
  posts : forall e, e ∈ taken -> e.body.followup? = none -> s.postById e.id ≠ none
  parked : forall e, e ∈ taken -> forall target kind,
    e.body.followup? = some (target, kind) -> s.postById target = none ->
      exists row, s.followupById e.id = some row
  applied : forall e, e ∈ taken -> forall target kind row,
    e.body.followup? = some (target, kind) -> s.postById target = some row ->
      followupAuthorized e row.event = true ->
        row.Marked kind ∧ exists stored, s.followupById e.id = some stored

section Known

variable {events taken : List SignedEvent} {s : Store}

theorem Known.opened (events : List SignedEvent)
    (boards : Table (fun board : BoardRow => foldCase board.slug)) :
    Known events [] (Store.opened boards) where
  only := by simp
  coherent := Store.Coherent.opened boards
  rows := by
    intro id row hrow
    cases hrow
  posts := by simp
  parked := by simp
  applied := by simp

variable {event : SignedEvent} {svc : BoardService} {row : PostRow} {kind : FollowupKind}
  {board : String} {target id root : EventId} {maxThreads : Int}

theorem Known.pendingFor_of_present (h : Known events taken s) (hrow : s.postById id = some row)
    (rank : Rank) : s.pendingFor rank id = [] := by
  rw [pendingFor_eq_nil_iff]
  intro followupId followup hfound htarget
  rw [(h.rows followupId followup hfound).right, htarget, hrow]
  rfl

theorem Known.row_of_stored (h : Known events taken s)
    (hcores : forall e, e ∈ events -> forall e', e' ∈ events -> e.id = e'.id ->
      e.core = e'.core) {e : SignedEvent} (he : e ∈ events) {row : FollowupRow}
    (hrow : s.followupById e.id = some row) (hfollowup : e.body.followup? = some (target, kind)) :
    row.event.core = e.core ∧ row.targetId = target := by
  have hcoherent := h.coherent e.id row hrow
  have hcore : row.event.core = e.core :=
    hcores row.event (h.rows e.id row hrow).left e he hcoherent.eventId
  refine ⟨hcore, ?_⟩
  have hnamed := hcoherent.named
  unfold SignedEvent.body at hnamed hfollowup
  rw [hcore, hfollowup] at hnamed
  cases hnamed
  rfl

theorem Known.run_post_again (h : Known events taken s) {old : PostRow} (hlimit : maxThreads <= 0)
    (hrow : BoardService.projectPost s event = .ok row) (hold : s.postById event.id = some old) :
    svc.reconcileFollowups (svc.retain (s.insertPost row) row maxThreads) row = s := by
  have hid : row.eventId = event.id := (projectPost_ok hrow).left
  have hinsert : s.insertPost row = s := by
    have hfound : s.posts.find? row.eventId = some old := by
      rw [hid]
      exact hold
    unfold Store.insertPost
    rw [Table.insert_of_present hfound]
  rw [retain_of_unlimited hlimit, hinsert]
  apply reconcileFollowups_of_none
  rw [hid]
  exact h.pendingFor_of_present hold svc.rank

theorem forall_mem_snoc {p : SignedEvent -> Prop} (h : forall e, e ∈ taken -> p e)
    (hlast : p event) : forall e, e ∈ taken ++ [event] -> p e := by
  intro e he
  rcases mem_append.mp he with he | he
  · exact h e he
  · rw [mem_singleton.mp he]
    exact hlast

theorem Known.take_again (h : Known events taken s) (hevent : event ∈ events)
    (hpost : event.body.followup? = none) (hstored : s.postById event.id ≠ none) :
    Known events (taken ++ [event]) s where
  only := forall_mem_snoc h.only hevent
  coherent := h.coherent
  rows := h.rows
  posts := forall_mem_snoc h.posts (fun _ => hstored)
  parked := by
    apply forall_mem_snoc h.parked
    intro target kind hfollowup
    rw [hpost] at hfollowup
    cases hfollowup
  applied := by
    apply forall_mem_snoc h.applied
    intro target kind row hfollowup
    rw [hpost] at hfollowup
    cases hfollowup

theorem stored_storeFollowup {applied : Bool} (h : exists row, s.followupById id = some row) :
    exists row, (BoardService.storeFollowup s event board target root kind
      applied).followupById id = some row := by
  rcases h with ⟨row, hrow⟩
  rw [followupById_storeFollowup, hrow]
  exact ⟨row, rfl⟩

theorem stored_storeFollowup_self {applied : Bool} :
    exists row, (BoardService.storeFollowup s event board target root kind
      applied).followupById event.id = some row := by
  rw [followupById_storeFollowup]
  cases s.followupById event.id with
  | some row =>
      exact ⟨row, rfl⟩
  | none =>
      simp

theorem rows_storeFollowup (board : String) (target root : EventId) (kind : FollowupKind)
    (h : forall id row, s.followupById id = some row ->
      row.event ∈ events ∧ row.applied = (s.postById row.targetId).isSome) (hevent : event ∈ events)
    (id : EventId) (row : FollowupRow)
    (hrow : (BoardService.storeFollowup s event board target root kind
      (s.postById target).isSome).followupById id = some row) :
    row.event ∈ events ∧ row.applied = (s.postById row.targetId).isSome := by
  rw [followupById_storeFollowup] at hrow
  cases hold : s.followupById id with
  | some old =>
      rw [hold] at hrow
      cases hrow
      exact h id row hold
  | none =>
      rw [hold] at hrow
      simp only [] at hrow
      split at hrow
      · cases hrow
        exact ⟨hevent, rfl⟩
      · cases hrow

section

variable (h : Known events taken s) (hevent : event ∈ events)
  (hfollowup : event.body.followup? = some (target, kind))
include h hevent hfollowup

theorem Known.take_parked (habsent : s.postById target = none) : Known events (taken ++ [event])
      (BoardService.storeFollowup s event board target target kind false) where
  only := forall_mem_snoc h.only hevent
  coherent := h.coherent.storeFollowup hfollowup (fun _ => rfl)
  rows := by
    have hrows := rows_storeFollowup board target target kind h.rows hevent
    rw [habsent] at hrows
    exact hrows
  posts := by
    apply forall_mem_snoc h.posts
    intro hpost
    rw [hfollowup] at hpost
    cases hpost
  parked := by
    apply forall_mem_snoc
    · intro e he target kind hfollowup habsent
      exact stored_storeFollowup (h.parked e he target kind hfollowup habsent)
    · intro target kind hfollowup habsent
      exact stored_storeFollowup_self
  applied := by
    apply forall_mem_snoc
    · intro e he target kind row hfollowup hrow hgate
      rcases h.applied e he target kind row hfollowup hrow hgate with ⟨hmarked, hstored⟩
      exact ⟨hmarked, stored_storeFollowup hstored⟩
    · intro other kind' row hother hrow hgate
      rw [hfollowup] at hother
      cases hother
      rw [postById_storeFollowup, habsent] at hrow
      cases hrow

theorem Known.take_applied (hrow : s.postById target = some row) : Known events (taken ++ [event])
      (BoardService.applyFollowup
        (BoardService.storeFollowup s event board target root kind true) event.body) := by
  have hposts : forall id, (BoardService.applyFollowup
      (BoardService.storeFollowup s event board target root kind true)
      event.body).postById id = (s.postById id).map event.body.touch := by
    intro id
    rw [postById_applyFollowup, postById_storeFollowup]
  exact
    { only := forall_mem_snoc h.only hevent
      coherent := (h.coherent.storeFollowup hfollowup (by simp)).applyFollowup _
      rows := by
        intro id followup hfound
        rw [followupById_applyFollowup] at hfound
        rw [hposts, Option.isSome_map]
        have hrows := rows_storeFollowup board target root kind h.rows hevent
        rw [hrow] at hrows
        exact hrows id followup hfound
      posts := by
        apply forall_mem_snoc
        · intro e he hpost hnone
          rw [hposts, Option.map_eq_none_iff] at hnone
          exact h.posts e he hpost hnone
        · intro hpost
          rw [hfollowup] at hpost
          cases hpost
      parked := by
        apply forall_mem_snoc
        · intro e he target kind hfollowup habsent
          rw [hposts, Option.map_eq_none_iff] at habsent
          rw [followupById_applyFollowup]
          exact stored_storeFollowup (h.parked e he target kind hfollowup habsent)
        · intro target kind hfollowup habsent
          rw [followupById_applyFollowup]
          exact stored_storeFollowup_self
      applied := by
        apply forall_mem_snoc
        · intro e he target kind touched hfollowup htouched hgate
          rw [hposts, Option.map_eq_some_iff] at htouched
          rcases htouched with ⟨before, hbefore, rfl⟩
          rw [PostRow.event_of_bare (event.body.touch_bare before)] at hgate
          rcases h.applied e he target kind before hfollowup hbefore hgate with
            ⟨hmarked, hstored⟩
          rw [followupById_applyFollowup]
          exact ⟨hmarked.touch event.body, stored_storeFollowup hstored⟩
        · intro other kind' touched hother htouched hgate
          rw [hfollowup] at hother
          cases hother
          rw [hposts, hrow] at htouched
          cases htouched
          rw [followupById_applyFollowup]
          refine ⟨PostRow.marked_touch_self ?_, stored_storeFollowup_self⟩
          have hid : row.eventId = target := Table.keyOf_of_find? hrow
          rw [hid]
          exact hfollowup }

end

theorem postById_of_new_post (hcoherent : s.Coherent) (hlimit : maxThreads <= 0)
    (hrow : BoardService.projectPost s event = .ok row) (habsent : s.postById event.id = none)
    (id : EventId) :
    (svc.reconcileFollowups (svc.retain (s.insertPost row) row maxThreads) row).postById id =
      if event.id = id then
        some (row.touchAll ((svc.admitted s row).map (fun followup => followup.event.body))) else
        s.postById id := by
  have hid : row.eventId = event.id := (projectPost_ok hrow).left
  rw [retain_of_unlimited hlimit, postById_reconcileFollowups,
    postById_insertPost]
  by_cases heq : event.id = id
  · rw [if_pos heq, ← heq, habsent]
    simp only [hid, if_true, Option.map_some]
    rfl
  · rw [if_neg heq]
    cases hfound : s.postById id with
    | none =>
        simp [hid, heq]
    | some before =>
        simp only [Option.map_some]
        rw [PostRow.touchAll_of_other]
        intro a ha
        rcases named_of_admitted (hcoherent.insertPost row) ha with ⟨kind, hkind⟩
        refine ⟨row.eventId, kind, hkind, ?_⟩
        have hbefore : before.eventId = id := Table.keyOf_of_find? hfound
        rw [hbefore, hid]
        exact fun hsame => heq hsame.symm

theorem Known.reconciled (h : Known events taken s)
    (hcores : forall e, e ∈ events -> forall e', e' ∈ events -> e.id = e'.id ->
      e.core = e'.core) {e : SignedEvent} {followup : FollowupRow} (he : e ∈ events)
    (hid : row.eventId = event.id) (hblob : row.event = event)
    (habsent : s.postById event.id = none) (hfollowup : e.body.followup? = some (event.id, kind))
    (hfound : s.followupById e.id = some followup) (hgate : followupAuthorized e event = true) :
    (row.touchAll ((svc.admitted s row).map
      (fun followup => followup.event.body))).Marked kind ∧
    exists stored, (svc.reconcileFollowups (s.insertPost row) row).followupById e.id =
      some stored := by
  rcases h.row_of_stored hcores he hfound hfollowup with ⟨hcore, htarget⟩
  have hkey : followup.eventId = e.id := Table.keyOf_of_find? hfound
  have hgate' : followupAuthorized followup.event row.event = true := by
    unfold followupAuthorized SignedEvent.authorKey SignedEvent.origin at hgate ⊢
    rw [hblob, hcore]
    exact hgate
  have hbody : followup.event.body = e.body := by
    unfold SignedEvent.body
    rw [hcore]
  constructor
  · apply PostRow.marked_touchAll_of_mem (a := e.body)
    · rw [hid]
      exact hfollowup
    · apply mem_map.mpr
      refine ⟨followup, mem_filter.mpr ⟨?_, hgate'⟩, hbody⟩
      rw [mem_pendingFor, hkey, hid]
      refine ⟨hfound, htarget, ?_⟩
      rw [(h.rows e.id followup hfound).right, htarget, habsent]
      rfl
  · have hfound' : (s.insertPost row).followupById e.id = some followup := hfound
    apply followupById_foldl_reconcileOne_of_authorized hfound'
    intro other hother hsame
    have hstored : s.followupById other.eventId = some other :=
      (mem_pendingFor.mp hother).left
    rw [hsame, hfound] at hstored
    cases hstored
    exact hgate'

theorem followupById_reconcile_of_other {followup : FollowupRow}
    (hfound : s.followupById id = some followup) (htarget : followup.targetId ≠ row.eventId) :
    (svc.reconcileFollowups (s.insertPost row) row).followupById id = some followup := by
  rw [← hfound]
  apply followupById_foldl_reconcileOne_of_not_mem
  intro hmem
  rcases mem_map.mp hmem with ⟨pending, hpending, hkey⟩
  rcases mem_pendingFor.mp hpending with ⟨hstored, hnamed, _⟩
  have hsame : s.followupById id = some pending := by
    rw [← hkey]
    exact hstored
  rw [hfound] at hsame
  cases hsame
  exact htarget hnamed

theorem Known.rows_of_new_post (h : Known events taken s) (habsent : s.postById row.eventId = none)
    {followup' : FollowupRow}
    (hfound' : (svc.reconcileFollowups (s.insertPost row) row).followupById id = some followup') :
    followup'.event ∈ events ∧
      followup'.applied = (if row.eventId = followup'.targetId then true
        else (s.postById followup'.targetId).isSome) := by
  rcases followupById_of_foldl_reconcileOne hfound' with
    ⟨followup, hfound, hsigned, htarget, _, hcase⟩
  have hfound : s.followupById id = some followup := hfound
  have hrows := h.rows id followup hfound
  rw [hsigned]
  refine ⟨hrows.left, ?_⟩
  split
  · rename_i heq
    rcases hcase with ⟨rfl, hnot⟩ | happlied
    · exfalso
      have hkey : followup'.eventId = id := Table.keyOf_of_find? hfound
      have hwaiting : followup'.applied = false := by
        rw [hrows.right, ← heq, habsent]
        rfl
      rw [← hkey] at hnot
      apply hnot
      apply mem_map_of_mem
      rw [mem_pendingFor, hkey]
      exact ⟨hfound, heq.symm, hwaiting⟩
    · exact happlied
  · rename_i hne
    rw [htarget] at hne ⊢
    have hstays : (svc.reconcileFollowups (s.insertPost row) row).followupById id = _ :=
      followupById_reconcile_of_other hfound (fun heq => hne heq.symm)
    rw [hfound'] at hstays
    cases hstays
    exact hrows.right

theorem Known.take_post (h : Known events taken s)
    (hcores : forall e, e ∈ events -> forall e', e' ∈ events -> e.id = e'.id ->
      e.core = e'.core) (hevent : event ∈ events) (hlimit : maxThreads <= 0)
    (hrow : BoardService.projectPost s event = .ok row) (habsent : s.postById event.id = none) :
    Known events (taken ++ [event])
      (svc.reconcileFollowups (svc.retain (s.insertPost row) row maxThreads) row) := by
  rcases projectPost_ok hrow with ⟨hid, hblob, _, _, hpost⟩
  have hposts : forall id, (svc.reconcileFollowups
      (svc.retain (s.insertPost row) row maxThreads) row).postById id = _ :=
    postById_of_new_post h.coherent hlimit hrow habsent
  have hcoherent' : (svc.reconcileFollowups (svc.retain (s.insertPost row) row maxThreads)
      row).Coherent := (h.coherent.insertPost row).retain.reconcileFollowups
  rw [retain_of_unlimited hlimit] at hposts hcoherent' ⊢
  have hother : forall id followup, s.followupById id = some followup ->
      followup.targetId ≠ event.id ->
        (svc.reconcileFollowups (s.insertPost row) row).followupById id = some followup := by
    intro id followup hfound htarget
    rw [← hid] at htarget
    exact followupById_reconcile_of_other hfound htarget
  exact
    { only := forall_mem_snoc h.only hevent
      coherent := hcoherent'
      rows := by
        intro id followup hfound
        rcases h.rows_of_new_post (hid ▸ habsent) hfound with ⟨hmem, happlied⟩
        refine ⟨hmem, happlied.trans ?_⟩
        rw [hposts, hid]
        split
        · rfl
        · rfl
      posts := by
        apply forall_mem_snoc
        · intro e he hpost hnone
          rw [hposts] at hnone
          split at hnone
          · cases hnone
          · exact h.posts e he hpost hnone
        · intro _ hnone
          rw [hposts, if_pos rfl] at hnone
          cases hnone
      parked := by
        apply forall_mem_snoc
        · intro e he target kind hfollowup habsent'
          rw [hposts] at habsent'
          split at habsent'
          · cases habsent'
          · rename_i hne
            rcases h.parked e he target kind hfollowup habsent' with ⟨followup, hfound⟩
            have htarget := (h.row_of_stored hcores (h.only he) hfound hfollowup).right
            refine ⟨followup, hother e.id followup hfound ?_⟩
            rw [htarget]
            exact fun heq => hne heq.symm
        · intro target kind hfollowup
          rw [hpost] at hfollowup
          cases hfollowup
      applied := by
        apply forall_mem_snoc
        · intro e he target kind touched hfollowup htouched hgate
          rw [hposts] at htouched
          split at htouched
          · rename_i heq
            cases htouched
            rw [PostRow.event_of_bare (row.touchAll_bare _), hblob] at hgate
            rw [← heq] at hfollowup
            rcases h.parked e he _ kind hfollowup habsent with ⟨followup, hfound⟩
            exact h.reconciled hcores (h.only he) hid hblob habsent hfollowup hfound hgate
          · rename_i hne
            rcases h.applied e he target kind touched hfollowup htouched hgate with
              ⟨hmarked, followup, hfound⟩
            have htarget := (h.row_of_stored hcores (h.only he) hfound hfollowup).right
            refine ⟨hmarked, followup, hother e.id followup hfound ?_⟩
            rw [htarget]
            exact fun heq => hne heq.symm
        · intro target kind touched hfollowup
          rw [hpost] at hfollowup
          cases hfollowup }

theorem Known.took (h : Known events taken s)
    (hcores : forall e, e ∈ events -> forall e', e' ∈ events -> e.id = e'.id ->
      e.core = e'.core) {s' : Store} (hevent : event ∈ events) (hlimit : maxThreads <= 0)
    (htook : Took svc s event board maxThreads s') : Known events (taken ++ [event]) s' := by
  cases htook with
  | post hrow =>
      cases hold : s.postById event.id with
      | none =>
          exact h.take_post hcores hevent hlimit hrow hold
      | some old =>
          rw [h.run_post_again hlimit hrow hold]
          apply h.take_again hevent (projectPost_ok hrow).right.right.right.right
          rw [hold]
          simp
  | applied hfollowup hrow hauthorized =>
      exact h.take_applied hevent hfollowup hrow
  | parked hfollowup habsent hboard =>
      exact h.take_parked hevent hfollowup habsent

theorem Known.run (hcores : forall e, e ∈ events -> forall e', e' ∈ events -> e.id = e'.id ->
      e.core = e'.core) {ds : List Delivery} {t : Store} (h : Known events taken s)
    (hds : forall d, d ∈ ds -> d.event ∈ events ∧ d.maxThreads <= 0)
    (hrun : run? (deliver svc) s ds = some t) : Known events (taken ++ accepted svc s ds) t := by
  induction ds generalizing s taken with
  | nil =>
      cases hrun
      simpa [accepted] using h
  | cons d rest ih =>
      rcases run?_cons_some hrun with ⟨s', hfirst, hrest⟩
      have hstep : s' = settled s (svc.ingestEvent s d.event d.board d.maxThreads) :=
        (Option.some.inj hfirst).symm
      have hd := hds d mem_cons_self
      have hds' : forall d, d ∈ rest -> d.event ∈ events ∧ d.maxThreads <= 0 :=
        fun d' hd' => hds d' (mem_cons_of_mem _ hd')
      unfold accepted
      cases hresult : svc.ingestEvent s d.event d.board d.maxThreads with
      | error e =>
          rw [hresult] at hstep
          subst hstep
          exact ih h hds' hrest
      | ok result =>
          rcases result with ⟨outcome, after⟩
          rw [hresult] at hstep
          subst hstep
          have htook := took_of_ingestEvent hresult
          have hnext := ih (h.took hcores hd.left hd.right htook) hds' hrest
          simpa using hnext

/-- An event delivered again: what it changes is decided by what its post shows. -/
theorem Known.again_iff (h : Known events taken s) (htaken : event ∈ taken)
    (hlimit : maxThreads <= 0) :
    (Call.ingest event board maxThreads).run svc s = s <-> StillShown s event := by
  cases hfollowup : event.body.followup? with
  | none =>
      constructor
      · intro _ target kind row hother
        rw [hfollowup] at hother
        cases hother
      · intro _
        cases hrow : BoardService.projectPost s event with
        | error e =>
            exact run_ingest_of_post_error hfollowup hrow
        | ok row =>
            rw [run_ingest_of_post hrow]
            cases hold : s.postById event.id with
            | none =>
                exact absurd hold (h.posts event htaken hfollowup)
            | some old =>
                exact h.run_post_again hlimit hrow hold
  | some named =>
      rcases named with ⟨target, kind⟩
      cases hrow : s.postById target with
      | none =>
          constructor
          · intro _ other kind' row hother hfound
            rw [hfollowup] at hother
            cases hother
            rw [hrow] at hfound
            cases hfound
          · intro _
            cases hboard : s.bySlug board with
            | none =>
                exact run_ingest_of_unknown_board hfollowup hrow hboard
            | some boardRow =>
                rw [run_ingest_of_absent hfollowup hrow hboard]
                rcases h.parked event htaken target kind hfollowup hrow with ⟨stored, hstored⟩
                exact storeFollowup_of_present hstored
      | some row =>
          cases hgate : followupAuthorized event row.event with
          | false =>
              constructor
              · intro _ other kind' found hother hfound hopen
                rw [hfollowup] at hother
                cases hother
                rw [hrow] at hfound
                cases hfound
                rw [hgate] at hopen
                cases hopen
              · intro _
                exact run_ingest_of_refused hfollowup hrow hgate
          | true =>
              rcases h.applied event htaken target kind row hfollowup hrow hgate with
                ⟨hmarked, stored, hstored⟩
              have hid : row.eventId = target := Table.keyOf_of_find? hrow
              have htouch : event.body.touch row = row <-> row.Shows event.body := by
                apply PostRow.touch_eq_self_iff _ hmarked
                rw [hid]
                exact hfollowup
              rw [run_ingest_of_authorized hfollowup hrow hgate, storeFollowup_of_present hstored]
              constructor
              · intro hsame other kind' found hother hfound _
                rw [hfollowup] at hother
                cases hother
                rw [hrow] at hfound
                cases hfound
                apply htouch.mp
                have hpost := postById_applyFollowup s event.body target
                rw [hsame, hrow] at hpost
                exact (Option.some.inj hpost).symm
              · intro hshown
                apply applyFollowup_eq_self hfollowup
                intro found hfound
                rw [hrow] at hfound
                cases hfound
                exact htouch.mpr (hshown target kind row hfollowup hrow hgate)

end Known

theorem run_eq_self_iff {svc : BoardService} {s : Store} {call : Call} :
    (call.run svc s).posts = s.posts ∧ (call.run svc s).followups = s.followups <->
      call.run svc s = s := by
  have hboards := boards_of_wrote (call.wrote svc s)
  constructor
  · intro h
    cases hrun : call.run svc s with
    | mk boards posts followups =>
        rw [hrun] at h hboards
        cases s with
        | mk boards' posts' followups' =>
            simp only [] at h hboards
            rw [h.left, h.right, hboards]
  · intro h
    rw [h]
    exact ⟨rfl, rfl⟩

/--
After every run of deliveries with no limit on threads, an event taken in before and
delivered again leaves every row as it is exactly when its post, if it reaches it,
still shows its text.
-/
theorem redelivery_changes_nothing_iff {keys : Keys} {svc : BoardService}
    {boards : Table (fun board : BoardRow => foldCase board.slug)} {ds : List Delivery}
    {s : Store} {event : SignedEvent} {board : String} {maxThreads : Int}
    (hverified : forall d, d ∈ ds -> exists key, d.event.verify keys key = .ok ())
    (hhash : forall d, d ∈ ds -> forall d', d' ∈ ds ->
      keys.hash d.event.core = keys.hash d'.event.core -> d.event.core = d'.event.core)
    (hunlimited : forall d, d ∈ ds -> d.maxThreads <= 0)
    (hrun : run? (deliver svc) (Store.opened boards) ds = some s)
    (htaken : event ∈ accepted svc (Store.opened boards) ds) (hlimit : maxThreads <= 0) :
    ((Call.ingest event board maxThreads).run svc s).posts = s.posts ∧
      ((Call.ingest event board maxThreads).run svc s).followups = s.followups <->
    StillShown s event := by
  have hcores : forall e, e ∈ ds.map Delivery.event -> forall e', e' ∈ ds.map Delivery.event ->
      e.id = e'.id -> e.core = e'.core := by
    intro e he e' he' hid
    rcases mem_map.mp he with ⟨d, hd, rfl⟩
    rcases mem_map.mp he' with ⟨d', hd', rfl⟩
    rcases hverified d hd with ⟨key, hkey⟩
    rcases hverified d' hd' with ⟨key', hkey'⟩
    apply hhash d hd d' hd'
    rw [← SignedEvent.id_of_verify hkey, ← SignedEvent.id_of_verify hkey', hid]
  have hds : forall d, d ∈ ds -> d.event ∈ ds.map Delivery.event ∧ d.maxThreads <= 0 :=
    fun d hd => ⟨mem_map_of_mem hd, hunlimited d hd⟩
  have hknown := (Known.opened (ds.map Delivery.event) boards).run hcores hds hrun
  rw [run_eq_self_iff]
  exact hknown.again_iff (by simpa using htaken) hlimit

/-- The last edit of a post, delivered twice, changes nothing the second time. -/
theorem redelivery_of_last_edit :
    exists s, run? (deliver (clockService "burrow" 9)) (Store.opened oneBoard)
        (plainly "general" [firstEdit, shortPost, secondEdit]) = some s ∧
      ((Call.ingest secondEdit "general" 0).run (clockService "burrow" 9) s).posts =
        s.posts ∧
      ((Call.ingest secondEdit "general" 0).run (clockService "burrow" 9) s).followups =
        s.followups := by
  have hverified : forall d, d ∈ plainly "general" [firstEdit, shortPost, secondEdit] ->
      exists key, d.event.verify Keys.clock key = .ok () := by
    intro d hd
    rcases mem_map.mp hd with ⟨event, hevent, rfl⟩
    have hkeys : forall e, e ∈ [firstEdit, shortPost, secondEdit] ->
        e.verify Keys.clock 8 = .ok () ∨ e.verify Keys.clock 9 = .ok () := by
      decide
    rcases hkeys event hevent with hkey | hkey
    · exact ⟨8, hkey⟩
    · exact ⟨9, hkey⟩
  have hhash : forall d, d ∈ plainly "general" [firstEdit, shortPost, secondEdit] ->
      forall d', d' ∈ plainly "general" [firstEdit, shortPost, secondEdit] ->
        Keys.clock.hash d.event.core = Keys.clock.hash d'.event.core ->
          d.event.core = d'.event.core := by
    intro d hd d' hd'
    rcases mem_map.mp hd with ⟨event, hevent, rfl⟩
    rcases mem_map.mp hd' with ⟨event', hevent', rfl⟩
    have hcores : forall e, e ∈ [firstEdit, shortPost, secondEdit] ->
        forall e', e' ∈ [firstEdit, shortPost, secondEdit] ->
          Keys.clock.hash e.core = Keys.clock.hash e'.core -> e.core = e'.core := by
      decide
    exact hcores event hevent event' hevent'
  have hunlimited : forall d, d ∈ plainly "general" [firstEdit, shortPost, secondEdit] ->
      d.maxThreads <= 0 := by
    intro d hd
    rcases mem_map.mp hd with ⟨event, _, rfl⟩
    exact le_refl 0
  have htaken : secondEdit ∈ accepted (clockService "burrow" 9) (Store.opened oneBoard)
      (plainly "general" [firstEdit, shortPost, secondEdit]) := by
    have haccepted : accepted (clockService "burrow" 9) (Store.opened oneBoard)
        (plainly "general" [firstEdit, shortPost, secondEdit]) =
          [firstEdit, shortPost, secondEdit] := rfl
    rw [haccepted]
    decide
  refine ⟨_, rfl, ?_⟩
  refine (redelivery_changes_nothing_iff hverified hhash hunlimited rfl htaken
    (le_refl 0)).mpr ?_
  intro target kind row hfollowup hrow hgate
  cases hfollowup
  have hrow : some _ = some row := hrow
  cases hrow
  exact ⟨rfl, rfl, rfl⟩

/-- An edit delivered again after a later one takes the later one's text away. -/
theorem redelivery_undoes_later_edit :
    exists s, run? (deliver (clockService "burrow" 9)) (Store.opened oneBoard)
        (plainly "general" [shortPost, firstEdit, secondEdit]) = some s ∧
      firstEdit ∈ accepted (clockService "burrow" 9) (Store.opened oneBoard)
        (plainly "general" [shortPost, firstEdit, secondEdit]) ∧
      ((Call.ingest firstEdit "general" 0).run (clockService "burrow" 9) s).posts ≠ s.posts := by
  refine ⟨_, rfl, ?_, ?_⟩
  · have haccepted : accepted (clockService "burrow" 9) (Store.opened oneBoard)
        (plainly "general" [shortPost, firstEdit, secondEdit]) =
          [shortPost, firstEdit, secondEdit] := rfl
    rw [haccepted]
    decide
  · intro h
    have hsubject := congrArg (fun posts => (posts.find? 1).map PostRow.subject) h
    have hsubject : some "first" = some "second" := hsubject
    revert hsubject
    decide

end Rabbithole.Boards
