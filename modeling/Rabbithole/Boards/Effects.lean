import Rabbithole.Boards.Service

/-!
# What a call does to the tables

A follow-up touches the row of the post it names and no other; a reconciliation touches it
once for every parked follow-up the gate lets through; retention only takes rows away.
-/

namespace Rabbithole.Boards

open Foundation List Option

/-!
## Touching a row
-/

namespace EventBody

/-- The post a follow-up is about, and what kind of follow-up it is. -/
def followup? : EventBody -> Option (EventId × FollowupKind)
  | .post _ _ _ _ _ _ => none
  | .edit target _ _ _ => some (target, .edit)
  | .tombstone target => some (target, .tombstone)

/-- The effect of a follow-up on a row of the projection. -/
def touch (followup : EventBody) (row : PostRow) : PostRow :=
  match followup with
  | .post _ _ _ _ _ _ => row
  | .edit target subject body mime =>
      if row.eventId = target then
        { row with subject := subject, body := body, mime := mime, edited := true }
      else
        row
  | .tombstone target =>
      if row.eventId = target then
        { row with tombstoned := true, subject := "", body := "" }
      else
        row

end EventBody

def PostRow.bare (row : PostRow) : PostRow :=
  { row with subject := "", body := "", mime := "", edited := false, tombstoned := false }

theorem EventBody.touch_bare (followup : EventBody) (row : PostRow) :
    (followup.touch row).bare = row.bare := by
  cases followup with
  | post board root parent subject body mime =>
      rfl
  | edit target subject body mime | tombstone target =>
      simp only [EventBody.touch]
      split
      · rfl
      · rfl

variable {row : PostRow}

theorem EventBody.touch_of_other {followup : EventBody} {target : EventId} {kind : FollowupKind}
    (h : followup.followup? = some (target, kind)) (hother : row.eventId ≠ target) :
    followup.touch row = row := by
  cases followup with
  | post board root parent subject body mime =>
      rfl
  | edit named subject body mime | tombstone named =>
      cases h
      exact if_neg hother

def PostRow.touchAll (row : PostRow) (followups : List EventBody) : PostRow :=
  followups.foldl (fun row followup => followup.touch row) row

theorem PostRow.touchAll_cons (row : PostRow) (followup : EventBody) (rest : List EventBody) :
    row.touchAll (followup :: rest) = (followup.touch row).touchAll rest := rfl

theorem PostRow.touchAll_append (row : PostRow) (front back : List EventBody) :
    row.touchAll (front ++ back) = (row.touchAll front).touchAll back :=
  foldl_append

theorem PostRow.touchAll_bare (row : PostRow) (followups : List EventBody) :
    (row.touchAll followups).bare = row.bare := by
  induction followups generalizing row with
  | nil =>
      rfl
  | cons followup rest ih =>
      rw [PostRow.touchAll_cons, ih, EventBody.touch_bare]

theorem PostRow.touchAll_of_other {followups : List EventBody}
    (h : forall a, a ∈ followups -> exists target kind,
      a.followup? = some (target, kind) ∧ row.eventId ≠ target) : row.touchAll followups = row := by
  induction followups with
  | nil =>
      rfl
  | cons followup rest ih =>
      rcases h followup mem_cons_self with ⟨target, kind, hfollowup, hother⟩
      rw [PostRow.touchAll_cons, EventBody.touch_of_other hfollowup hother]
      exact ih (fun a ha => h a (mem_cons_of_mem _ ha))

theorem PostRow.event_of_bare {row' : PostRow} (h : row.bare = row'.bare) :
    row.event = row'.event := by
  have hsame := congrArg PostRow.event h
  exact hsame

theorem PostRow.eventId_of_bare {row' : PostRow} (h : row.bare = row'.bare) :
    row.eventId = row'.eventId := by
  have hsame := congrArg PostRow.eventId h
  exact hsame

/-!
## Follow-ups against the projection
-/

namespace BoardService

theorem postById_applyFollowup (s : Store) (followup : EventBody) (id : EventId) :
    (applyFollowup s followup).postById id = (s.postById id).map followup.touch := by
  cases hfound : s.postById id with
  | none =>
      cases followup with
      | post board root parent subject body mime =>
          exact hfound
      | edit target subject body mime =>
          unfold Store.postById at hfound
          simp [applyFollowup, Store.applyEdit, Store.postById, Table.find?_update, hfound]
      | tombstone target =>
          unfold Store.postById at hfound
          simp [applyFollowup, Store.applyTombstone, Store.postById, Table.find?_update, hfound]
  | some row =>
      have hid : row.eventId = id := Table.keyOf_of_find? hfound
      unfold Store.postById at hfound
      cases followup with
      | post board root parent subject body mime =>
          exact hfound
      | edit target subject body mime =>
          simp [applyFollowup, Store.applyEdit, Store.postById, Table.find?_update, hfound,
            EventBody.touch, hid]
      | tombstone target =>
          simp [applyFollowup, Store.applyTombstone, Store.postById, Table.find?_update, hfound,
            EventBody.touch, hid]

theorem followupById_applyFollowup (s : Store) (followup : EventBody) (id : EventId) :
    (applyFollowup s followup).followupById id = s.followupById id := by
  cases followup <;> rfl

theorem boards_applyFollowup (s : Store) (followup : EventBody) :
    (applyFollowup s followup).boards = s.boards := by
  cases followup <;> rfl

variable {s : Store} {id target : EventId} {event : SignedEvent} {post row : PostRow}
  {svc : BoardService} {kind : FollowupKind} {board : String} {pending : List FollowupRow}
  {maxThreads : Int}

theorem applyFollowup_eq_self {followup : EventBody}
    (hfollowup : followup.followup? = some (target, kind))
    (h : forall row, s.postById target = some row -> followup.touch row = row) :
    applyFollowup s followup = s := by
  cases followup with
  | post board root parent subject body mime =>
      rfl
  | edit named subject body mime =>
      cases hfollowup
      have hsame : s.posts.update target
          (fun row =>
            { row with subject := subject, body := body, mime := mime, edited := true })
          (fun _ => rfl) = s.posts := by
        apply Table.update_eq_self
        intro row hrow
        have htouch := h row hrow
        rwa [EventBody.touch, if_pos (Table.keyOf_of_find? hrow)] at htouch
      simp only [applyFollowup, Store.applyEdit]
      rw [hsame]
  | tombstone named =>
      cases hfollowup
      have hsame : s.posts.update target
          (fun row => { row with tombstoned := true, subject := "", body := "" })
          (fun _ => rfl) = s.posts := by
        apply Table.update_eq_self
        intro row hrow
        have htouch := h row hrow
        rwa [EventBody.touch, if_pos (Table.keyOf_of_find? hrow)] at htouch
      simp only [applyFollowup, Store.applyTombstone]
      rw [hsame]

theorem postById_storeFollowup (s : Store) (event : SignedEvent) (board : String)
    (target root : EventId) (kind : FollowupKind) (applied : Bool) (id : EventId) :
    (storeFollowup s event board target root kind applied).postById id = s.postById id := rfl

theorem followupById_storeFollowup (s : Store) (event : SignedEvent) (board : String)
    (target root : EventId) (kind : FollowupKind) (applied : Bool) (id : EventId) :
    (storeFollowup s event board target root kind applied).followupById id =
      match s.followupById id with
      | some old => some old
      | none =>
          if event.id = id then
            some
              { eventId := event.id
                targetId := target
                rootId := root
                boardSlug := board
                kind := kind
                origin := event.origin
                applied := applied
                createdAt := event.createdAt
                event := event }
          else
            none := by
  unfold storeFollowup Store.followupById Store.insertFollowup
  rw [Table.find?_insert]
  cases s.followups.find? id with
  | none =>
      rfl
  | some old =>
      rfl

theorem storeFollowup_of_present {root : EventId} {applied : Bool} {old : FollowupRow}
    (h : s.followupById event.id = some old) :
    storeFollowup s event board target root kind applied = s := by
  have hsame : s.followups.insert
      { eventId := event.id
        targetId := target
        rootId := root
        boardSlug := board
        kind := kind
        origin := event.origin
        applied := applied
        createdAt := event.createdAt
        event := event } = s.followups :=
    Table.insert_of_present h
  unfold storeFollowup Store.insertFollowup
  rw [hsame]

/-!
## Reconciliation
-/

/-- The parked follow-ups of a post that the gate lets through, in their order. -/
def admitted (svc : BoardService) (s : Store) (post : PostRow) : List FollowupRow :=
  (s.pendingFor svc.rank post.eventId).filter
    (fun followup => followupAuthorized followup.event post.event)

theorem mem_pendingFor {rank : Rank} {row : FollowupRow} :
    row ∈ s.pendingFor rank target <->
      s.followupById row.eventId = some row ∧ row.targetId = target ∧
        row.applied = false := by
  unfold Store.pendingFor Store.followupById
  rw [mem_insertionSort, mem_filter, Table.find?_eq_some_iff]
  simp

theorem pendingFor_eq_nil_iff {rank : Rank} :
    s.pendingFor rank target = [] <->
      forall id row, s.followupById id = some row -> row.targetId = target ->
        row.applied = true := by
  rw [eq_nil_iff_forall_not_mem]
  constructor
  · intro h id row hrow htarget
    cases happlied : row.applied with
    | true =>
        rfl
    | false =>
        have hid : row.eventId = id := Table.keyOf_of_find? hrow
        rw [← hid] at hrow
        exact absurd (mem_pendingFor.mpr ⟨hrow, htarget, happlied⟩) (h row)
  · intro h row hmem
    rcases mem_pendingFor.mp hmem with ⟨hrow, htarget, hpending⟩
    rw [h _ _ hrow htarget] at hpending
    cases hpending

theorem postById_reconcileOne (post : PostRow) (s : Store) (followup : FollowupRow) (id : EventId) :
    (reconcileOne post s followup).postById id =
      if followupAuthorized followup.event post.event then
        (s.postById id).map followup.event.body.touch else
        s.postById id := by
  unfold reconcileOne
  split
  · exact postById_applyFollowup s followup.event.body id
  · rfl

theorem postById_foldl_reconcileOne (post : PostRow) (pending : List FollowupRow)
    (s : Store) (id : EventId) :
    (pending.foldl (reconcileOne post) s).postById id =
      (s.postById id).map (fun row => row.touchAll
        ((pending.filter (fun followup => followupAuthorized followup.event post.event)).map
          (fun followup => followup.event.body))) := by
  induction pending generalizing s with
  | nil =>
      exact map_id'.symm
  | cons followup rest ih =>
      rw [foldl_cons, ih, postById_reconcileOne, filter_cons]
      split
      · rw [Option.map_map, map_cons]
        rfl
      · rfl

theorem postById_reconcileFollowups (svc : BoardService) (s : Store) (post : PostRow)
    (id : EventId) :
    (svc.reconcileFollowups s post).postById id =
      (s.postById id).map (fun row => row.touchAll
        ((svc.admitted s post).map (fun followup => followup.event.body))) :=
  postById_foldl_reconcileOne post _ s id

theorem followupById_markApplied (s : Store) (id : EventId) (board : String) (root id' : EventId) :
    (s.markApplied id board root).followupById id' = (s.followupById id').map (fun row =>
        if id' = id then { row with applied := true, boardSlug := board, rootId := root }
        else row) := by
  unfold Store.markApplied Store.followupById
  rw [Table.find?_update]

theorem followupById_deleteOne (s : Store) (id id' : EventId) :
    (s.deleteOne id).followupById id' = if id' = id then none else s.followupById id' := by
  unfold Store.deleteOne Store.followupById
  rw [Table.find?_delete]
  cases hfound : s.followups.find? id' with
  | none =>
      simp
  | some row =>
      have hid : row.eventId = id' := Table.keyOf_of_find? hfound
      rw [filter_some, hid]
      by_cases heq : id' = id
      · simp [heq]
      · simp [heq]

theorem followupById_reconcileOne (post : PostRow) (s : Store) (followup : FollowupRow)
    (id : EventId) :
    (reconcileOne post s followup).followupById id =
      if id = followup.eventId then
        if followupAuthorized followup.event post.event then
          (s.followupById id).map (fun row =>
            { row with applied := true, boardSlug := post.boardSlug, rootId := post.thread })
        else
          none
      else
        s.followupById id := by
  unfold reconcileOne
  split
  · rw [followupById_markApplied]
    rw [followupById_applyFollowup]
    split
    · rfl
    · exact map_id'
  · rw [followupById_deleteOne]

/--
Every follow-up after a reconciliation was there before; it is as it was, and was
not reconciled, or it is applied.
-/
theorem followupById_of_foldl_reconcileOne {row' : FollowupRow}
    (h : (pending.foldl (reconcileOne post) s).followupById id = some row') :
    exists row, s.followupById id = some row ∧ row'.event = row.event ∧
      row'.targetId = row.targetId ∧ row'.kind = row.kind ∧
      (row' = row ∧ id ∉ pending.map FollowupRow.eventId ∨ row'.applied = true) := by
  induction pending generalizing s with
  | nil =>
      exact ⟨row', h, rfl, rfl, rfl, Or.inl ⟨rfl, not_mem_nil⟩⟩
  | cons followup rest ih =>
      rcases ih h with ⟨mid, hmid, hevent, htarget, hkind, hcase⟩
      rw [followupById_reconcileOne] at hmid
      split at hmid
      · split at hmid
        · rcases map_eq_some_iff.mp hmid with ⟨row, hrow, heq⟩
          subst heq
          refine ⟨row, hrow, hevent, htarget, hkind, Or.inr ?_⟩
          cases hcase with
          | inl hsame =>
              rw [hsame.left]
          | inr happlied =>
              exact happlied
        · cases hmid
      · rename_i hne
        refine ⟨mid, hmid, hevent, htarget, hkind, ?_⟩
        cases hcase with
        | inl hsame =>
            refine Or.inl ⟨hsame.left, ?_⟩
            rw [map_cons, mem_cons]
            intro hmem
            cases hmem with
            | inl heq =>
                exact hne heq
            | inr hrest =>
                exact hsame.right hrest
        | inr happlied =>
            exact Or.inr happlied

theorem followupById_foldl_reconcileOne_of_not_mem (h : id ∉ pending.map FollowupRow.eventId) :
    (pending.foldl (reconcileOne post) s).followupById id = s.followupById id := by
  induction pending generalizing s with
  | nil =>
      rfl
  | cons followup rest ih =>
      rw [map_cons, mem_cons, not_or] at h
      rw [foldl_cons, ih h.right, followupById_reconcileOne, if_neg h.left]

theorem followupById_foldl_reconcileOne_of_authorized {row : FollowupRow}
    (hrow : s.followupById id = some row)
    (hauthorized : forall followup, followup ∈ pending -> followup.eventId = id ->
      followupAuthorized followup.event post.event = true) :
    exists row', (pending.foldl (reconcileOne post) s).followupById id = some row' := by
  induction pending generalizing s row with
  | nil =>
      exact ⟨row, hrow⟩
  | cons followup rest ih =>
      have hrest : forall other, other ∈ rest -> other.eventId = id ->
          followupAuthorized other.event post.event = true := by
        intro other hmem
        exact hauthorized other (mem_cons_of_mem _ hmem)
      rw [foldl_cons]
      cases hnext : (reconcileOne post s followup).followupById id with
      | some mid =>
          exact ih hnext hrest
      | none =>
          exfalso
          rw [followupById_reconcileOne, hrow] at hnext
          split at hnext
          · rename_i hid
            rw [if_pos (hauthorized followup mem_cons_self hid.symm)] at hnext
            cases hnext
          · cases hnext

theorem pendingFor_reconcileFollowups (svc : BoardService) (s : Store) (post : PostRow)
    (rank : Rank) : (svc.reconcileFollowups s post).pendingFor rank post.eventId = [] := by
  rw [pendingFor_eq_nil_iff]
  intro id row' hrow' htarget'
  rcases followupById_of_foldl_reconcileOne hrow' with
    ⟨row, hrow, _, htarget, _, hcase⟩
  cases hcase with
  | inr happlied =>
      exact happlied
  | inl hsame =>
      rcases hsame with ⟨rfl, hnot⟩
      cases happlied : row'.applied with
      | true =>
          rfl
      | false =>
          have hid : row'.eventId = id := Table.keyOf_of_find? hrow
          have hmem : row' ∈ s.pendingFor svc.rank post.eventId := by
            rw [mem_pendingFor, hid]
            exact ⟨hrow, htarget', happlied⟩
          rw [← hid] at hnot
          exact absurd (mem_map_of_mem hmem) hnot

theorem reconcileFollowups_of_none (h : s.pendingFor svc.rank post.eventId = []) :
    svc.reconcileFollowups s post = s := by
  unfold reconcileFollowups
  rw [h]
  rfl

theorem boards_foldl_reconcileOne (post : PostRow) (pending : List FollowupRow)
    (s : Store) : (pending.foldl (reconcileOne post) s).boards = s.boards := by
  induction pending generalizing s with
  | nil =>
      rfl
  | cons followup rest ih =>
      rw [foldl_cons, ih]
      unfold reconcileOne
      split
      · exact boards_applyFollowup s followup.event.body
      · rfl

/-!
## Retention
-/

def dropThreads (s : Store) (olds : List EventId) : Store :=
  olds.foldl (fun s old => (s.deleteThread old).deleteForRoot old) s

theorem postById_dropThreads {olds : List EventId} :
    (dropThreads s olds).postById id = some row <->
      s.postById id = some row ∧
        forall old, old ∈ olds -> row.eventId ≠ old ∧ row.rootId ≠ some old := by
  induction olds generalizing s with
  | nil =>
      simp [dropThreads]
  | cons old rest ih =>
      have hdelete : ((s.deleteThread old).deleteForRoot old).postById id = some row <->
          s.postById id = some row ∧ row.eventId ≠ old ∧ row.rootId ≠ some old := by
        show (s.posts.delete _).find? id = some row <-> _
        rw [Table.find?_delete, filter_eq_some_iff]
        simp [Store.postById]
      show (dropThreads ((s.deleteThread old).deleteForRoot old) rest).postById id =
        some row <-> _
      rw [ih, hdelete, forall_mem_cons]
      tauto

theorem followupById_dropThreads {olds : List EventId} {row : FollowupRow} :
    (dropThreads s olds).followupById id = some row <->
      s.followupById id = some row ∧ row.rootId ∉ olds := by
  induction olds generalizing s with
  | nil =>
      simp [dropThreads]
  | cons old rest ih =>
      have hdelete : ((s.deleteThread old).deleteForRoot old).followupById id = some row <->
          s.followupById id = some row ∧ row.rootId ≠ old := by
        show (s.followups.delete _).find? id = some row <-> _
        rw [Table.find?_delete, filter_eq_some_iff]
        simp [Store.followupById]
      show (dropThreads ((s.deleteThread old).deleteForRoot old) rest).followupById id =
        some row <-> _
      rw [ih, hdelete, mem_cons]
      tauto

theorem boards_dropThreads (s : Store) (olds : List EventId) :
    (dropThreads s olds).boards = s.boards := by
  induction olds generalizing s with
  | nil =>
      rfl
  | cons old rest ih =>
      exact ih _

theorem retain_eq_dropThreads (svc : BoardService) (s : Store) (row : PostRow) (maxThreads : Int) :
    exists olds, svc.retain s row maxThreads = dropThreads s olds ∧
      (maxThreads <= 0 -> olds = []) := by
  unfold retain
  split
  · rename_i hlimit
    refine ⟨_, rfl, ?_⟩
    intro hnone
    exact absurd hlimit.right (not_lt.mpr hnone)
  · exact ⟨[], rfl, fun _ => rfl⟩

theorem retain_of_unlimited (h : maxThreads <= 0) : svc.retain s row maxThreads = s := by
  rcases retain_eq_dropThreads svc s row maxThreads with ⟨olds, heq, hnone⟩
  rw [heq, hnone h]
  rfl

/-!
## Taking in one event
-/

theorem projectPost_ok (h : projectPost s event = .ok row) :
    row.eventId = event.id ∧ row.event = event ∧ row.edited = false ∧
      row.tombstoned = false ∧ event.body.followup? = none := by
  unfold projectPost at h
  split at h
  · rename_i hbody
    split at h
    · cases h
    · cases h
      rw [hbody]
      exact ⟨rfl, rfl, rfl, rfl, rfl⟩
  · cases h

theorem postById_insertPost (s : Store) (row : PostRow) (id : EventId) :
    (s.insertPost row).postById id =
      match s.postById id with
      | some old => some old
      | none => if row.eventId = id then some row else none := by
  unfold Store.insertPost Store.postById
  rw [Table.find?_insert]
  cases s.posts.find? id with
  | none =>
      rfl
  | some old =>
      rfl

theorem postById_insertPost_some {stored : PostRow}
    (h : (s.insertPost row).postById id = some stored) :
    s.postById id = some stored ∨
      s.postById row.eventId = none ∧ row.eventId = id ∧ stored = row := by
  rw [postById_insertPost] at h
  cases hold : s.postById id with
  | some old =>
      rw [hold] at h
      cases h
      exact Or.inl rfl
  | none =>
      rw [hold] at h
      simp only [] at h
      split at h
      · rename_i heq
        cases h
        rw [heq]
        exact Or.inr ⟨hold, rfl, rfl⟩
      · cases h

theorem ingestEvent_of_followup (h : event.body.followup? = some (target, kind)) :
    svc.ingestEvent s event board maxThreads = ingestFollowup s event board target kind := by
  unfold ingestEvent
  cases hbody : event.body with
  | post slug root parent subject body mime =>
      rw [hbody] at h
      cases h
  | edit named subject body mime | tombstone named =>
      rw [hbody] at h
      cases h
      rfl

theorem ingestEvent_of_post (h : event.body.followup? = none) :
    svc.ingestEvent s event board maxThreads =
      match svc.ingest s event maxThreads with
      | .error e => .error e
      | .ok (row, s) => .ok (.posted row, svc.reconcileFollowups s row) := by
  unfold ingestEvent
  cases hbody : event.body with
  | post slug root parent subject body mime =>
      rfl
  | edit named subject body mime | tombstone named =>
      rw [hbody] at h
      cases h

end BoardService

open BoardService in
/-- What an event that is taken in writes. -/
inductive Took (svc : BoardService) (s : Store) (event : SignedEvent) (board : String)
    (maxThreads : Int) : Store -> Prop
  | post {row : PostRow} (hrow : projectPost s event = .ok row) :
      Took svc s event board maxThreads
        (svc.reconcileFollowups (svc.retain (s.insertPost row) row maxThreads) row)
  | applied {target : EventId} {kind : FollowupKind} {row : PostRow}
      (hfollowup : event.body.followup? = some (target, kind))
      (hrow : s.postById target = some row)
      (hauthorized : followupAuthorized event row.event = true) :
      Took svc s event board maxThreads
        (applyFollowup (storeFollowup s event row.boardSlug target row.thread kind true)
          event.body)
  | parked {target : EventId} {kind : FollowupKind} {boardRow : BoardRow}
      (hfollowup : event.body.followup? = some (target, kind))
      (habsent : s.postById target = none)
      (hboard : s.bySlug board = some boardRow) :
      Took svc s event board maxThreads
        (storeFollowup s event boardRow.slug target target kind false)

open BoardService in
/-- Everything a call can write. -/
inductive Wrote (svc : BoardService) (s : Store) : Call -> Store -> Prop
  | nothing {call : Call} : Wrote svc s call s
  | posted {board : String} {parent : Option EventId} {author : String} {seed : Seed}
      {subject body mime : String} {now maxThreads : Int} {event : SignedEvent}
      {row : PostRow}
      (hprepared : svc.preparePost s board parent author seed subject body mime now =
        .ok (event, maxThreads))
      (hrow : projectPost s event = .ok row) :
      Wrote svc s (.post board parent author seed subject body mime now)
        (svc.retain (s.insertPost row) row maxThreads)
  | edited {target : EventId} {editor : String} {seed : Seed} {subject body mime : String}
      {now : Int} {row : PostRow} (hrow : s.postById target = some row) :
      Wrote svc s (.edit target editor seed subject body mime now)
        (storeLocalFollowup s
          (mint svc.keys editor seed svc.origin svc.originSeed now
            (.edit target subject body mime))
          row.boardSlug target row.thread .edit)
  | tombstoned {target : EventId} {actor : String} {seed : Seed} {now : Int} {row : PostRow}
      (hrow : s.postById target = some row) :
      Wrote svc s (.tombstone target actor seed now)
        (storeLocalFollowup s
          (mint svc.keys actor seed svc.origin svc.originSeed now (.tombstone target))
          row.boardSlug target row.thread .tombstone)
  | took {event : SignedEvent} {board : String} {maxThreads : Int} {s' : Store}
      (h : Took svc s event board maxThreads s') :
      Wrote svc s (.ingest event board maxThreads) s'

namespace BoardService

section Ingest

variable {svc : BoardService} {s : Store} {event : SignedEvent} {board : String}
  {maxThreads : Int} {target : EventId} {kind : FollowupKind} {row : PostRow}

theorem run_ingest_of_post (h : projectPost s event = .ok row) :
    (Call.ingest event board maxThreads).run svc s =
      svc.reconcileFollowups (svc.retain (s.insertPost row) row maxThreads) row := by
  show settled s (svc.ingestEvent s event board maxThreads) = _
  rw [ingestEvent_of_post (projectPost_ok h).right.right.right.right]
  unfold ingest
  rw [h]
  rfl

theorem run_ingest_of_post_error {e : BoardError} (hpost : event.body.followup? = none)
    (h : projectPost s event = .error e) : (Call.ingest event board maxThreads).run svc s = s := by
  show settled s (svc.ingestEvent s event board maxThreads) = _
  rw [ingestEvent_of_post hpost]
  unfold ingest
  rw [h]
  rfl

variable (hfollowup : event.body.followup? = some (target, kind))
include hfollowup

theorem run_ingest_of_followup :
    (Call.ingest event board maxThreads).run svc s =
      settled s (ingestFollowup s event board target kind) := by
  show settled s (svc.ingestEvent s event board maxThreads) = _
  rw [ingestEvent_of_followup hfollowup]

theorem run_ingest_of_authorized (hrow : s.postById target = some row)
    (hauthorized : followupAuthorized event row.event = true) :
    (Call.ingest event board maxThreads).run svc s =
      applyFollowup (storeFollowup s event row.boardSlug target row.thread kind true)
        event.body := by
  rw [run_ingest_of_followup hfollowup]
  unfold ingestFollowup
  rw [hrow]
  simp only [hauthorized, if_true]
  rfl

theorem run_ingest_of_refused (hrow : s.postById target = some row)
    (hrefused : followupAuthorized event row.event = false) :
    (Call.ingest event board maxThreads).run svc s = s := by
  rw [run_ingest_of_followup hfollowup]
  unfold ingestFollowup
  rw [hrow]
  simp only [hrefused]
  rfl

theorem run_ingest_of_absent {boardRow : BoardRow} (habsent : s.postById target = none)
    (hboard : s.bySlug board = some boardRow) :
    (Call.ingest event board maxThreads).run svc s =
      storeFollowup s event boardRow.slug target target kind false := by
  rw [run_ingest_of_followup hfollowup]
  unfold ingestFollowup
  rw [habsent, hboard]
  rfl

theorem run_ingest_of_unknown_board (habsent : s.postById target = none)
    (hboard : s.bySlug board = none) : (Call.ingest event board maxThreads).run svc s = s := by
  rw [run_ingest_of_followup hfollowup]
  unfold ingestFollowup
  rw [habsent, hboard]
  rfl

end Ingest

theorem took_of_ingestEvent {svc : BoardService} {s : Store} {event : SignedEvent}
    {board : String} {maxThreads : Int} {result : IngestOutcome × Store}
    (h : svc.ingestEvent s event board maxThreads = .ok result) :
    Took svc s event board maxThreads result.snd := by
  cases hfollowup : event.body.followup? with
  | none =>
      rw [ingestEvent_of_post hfollowup] at h
      unfold ingest at h
      cases hrow : projectPost s event with
      | error e =>
          rw [hrow] at h
          cases h
      | ok row =>
          rw [hrow] at h
          cases h
          exact Took.post hrow
  | some named =>
      rcases named with ⟨target, kind⟩
      rw [ingestEvent_of_followup hfollowup] at h
      unfold ingestFollowup at h
      cases hrow : s.postById target with
      | none =>
          rw [hrow] at h
          cases hboard : s.bySlug board with
          | none =>
              rw [hboard] at h
              cases h
          | some boardRow =>
              rw [hboard] at h
              cases h
              exact Took.parked hfollowup hrow hboard
      | some row =>
          rw [hrow] at h
          simp only [] at h
          split at h
          · rename_i hauthorized
            cases h
            exact Took.applied hfollowup hrow hauthorized
          · cases h

theorem postById_storeLocalFollowup (s : Store) (event : SignedEvent) (board : String)
    (target root : EventId) (kind : FollowupKind) (id : EventId) :
    (storeLocalFollowup s event board target root kind).postById id =
      (s.postById id).map event.body.touch := by
  unfold storeLocalFollowup
  rw [postById_applyFollowup]
  rfl

end BoardService

theorem Call.wrote (svc : BoardService) (s : Store) (call : Call) :
    Wrote svc s call (call.run svc s) := by
  cases call with
  | post board parent author seed subject body mime now =>
      simp only [Call.run, BoardService.post]
      cases hprepared : svc.preparePost s board parent author seed subject body mime now with
      | error e =>
          exact Wrote.nothing
      | ok prepared =>
          rcases prepared with ⟨event, maxThreads⟩
          simp only [BoardService.ingest]
          cases hrow : BoardService.projectPost s event with
          | error e =>
              exact Wrote.nothing
          | ok row =>
              exact Wrote.posted hprepared hrow
  | edit target editor seed subject body mime now =>
      simp only [Call.run, BoardService.edit]
      cases hrow : s.postById target with
      | none =>
          exact Wrote.nothing
      | some row =>
          simp only [BoardService.postById_storeLocalFollowup, hrow, map_some]
          exact Wrote.edited hrow
  | tombstone target actor seed now =>
      simp only [Call.run, BoardService.tombstone]
      cases hrow : s.postById target with
      | none =>
          exact Wrote.nothing
      | some row =>
          exact Wrote.tombstoned hrow
  | ingest event board maxThreads =>
      show Wrote svc s _ (settled s (svc.ingestEvent s event board maxThreads))
      cases hresult : svc.ingestEvent s event board maxThreads with
      | error e =>
          exact Wrote.nothing
      | ok result =>
          exact Wrote.took (BoardService.took_of_ingestEvent hresult)

theorem wrote_of_step {svc : BoardService} {s s' : Store} {call : Call}
    (h : step svc s call = some s') : Wrote svc s call s' := by
  cases h
  exact call.wrote svc s

/-!
## Coherent follow-ups

A stored follow-up stands under its event's id and names its event's target, and
while it waits it is filed under the post it waits for.
-/

structure FollowupRow.Coherent (row : FollowupRow) (id : EventId) : Prop where
  eventId : row.event.id = id
  named : row.event.body.followup? = some (row.targetId, row.kind)
  waits : row.applied = false -> row.rootId = row.targetId

def Store.Coherent (s : Store) : Prop :=
  forall id row, s.followupById id = some row -> row.Coherent id

namespace Store.Coherent

variable {s s' : Store}

theorem opened (boards : Table (fun board : BoardRow => foldCase board.slug)) :
    (Store.opened boards).Coherent := by
  intro id row hrow
  cases hrow

theorem mono (h : s.Coherent)
    (hsub : forall id row, s'.followupById id = some row -> s.followupById id = some row) :
    s'.Coherent := by
  intro id row hrow
  exact h id row (hsub id row hrow)

theorem storeFollowup {event : SignedEvent} {board : String} {target root : EventId}
    {kind : FollowupKind} {applied : Bool} (h : s.Coherent)
    (hfollowup : event.body.followup? = some (target, kind))
    (hroot : applied = false -> root = target) :
    (BoardService.storeFollowup s event board target root kind applied).Coherent := by
  intro id row hrow
  rw [BoardService.followupById_storeFollowup] at hrow
  cases hold : s.followupById id with
  | some old =>
      rw [hold] at hrow
      cases hrow
      exact h id row hold
  | none =>
      rw [hold] at hrow
      simp only [] at hrow
      split at hrow
      · rename_i hid
        cases hrow
        exact { eventId := hid, named := hfollowup, waits := hroot }
      · cases hrow

theorem applyFollowup (h : s.Coherent) (followup : EventBody) :
    (BoardService.applyFollowup s followup).Coherent := by
  apply h.mono
  intro id row hrow
  rw [BoardService.followupById_applyFollowup] at hrow
  exact hrow

theorem insertPost (h : s.Coherent) (row : PostRow) : (s.insertPost row).Coherent := h

variable {svc : BoardService}

theorem retain {row : PostRow} {maxThreads : Int} (h : s.Coherent) :
    (svc.retain s row maxThreads).Coherent := by
  rcases BoardService.retain_eq_dropThreads svc s row maxThreads with ⟨olds, heq, _⟩
  rw [heq]
  apply h.mono
  intro id followup hrow
  exact (BoardService.followupById_dropThreads.mp hrow).left

theorem reconcileFollowups {post : PostRow} (h : s.Coherent) :
    (svc.reconcileFollowups s post).Coherent := by
  intro id row' hrow'
  rcases BoardService.followupById_of_foldl_reconcileOne hrow' with
    ⟨row, hrow, hevent, htarget, hkind, hcase⟩
  have hcoherent := h id row hrow
  refine ⟨?_, ?_, ?_⟩
  · rw [hevent]
    exact hcoherent.eventId
  · rw [hevent, htarget, hkind]
    exact hcoherent.named
  · intro hwaiting
    rcases hcase with hsame | happlied
    · rw [hsame.left] at hwaiting ⊢
      exact hcoherent.waits hwaiting
    · rw [happlied] at hwaiting
      cases hwaiting

theorem of_wrote {call : Call} (h : s.Coherent) (hwrote : Wrote svc s call s') : s'.Coherent := by
  cases hwrote with
  | nothing =>
      exact h
  | posted hprepared hrow =>
      exact (h.insertPost _).retain
  | edited hrow | tombstoned hrow =>
      exact (storeFollowup h rfl (by simp)).applyFollowup _
  | took htook =>
      cases htook with
      | post hrow =>
          exact (h.insertPost _).retain.reconcileFollowups
      | applied hfollowup hrow hauthorized =>
          exact (storeFollowup h hfollowup (by simp)).applyFollowup _
      | parked hfollowup habsent hboard =>
          exact storeFollowup h hfollowup (fun _ => rfl)

end Store.Coherent

/-!
## Taking in a post
-/

variable {s : Store} {svc : BoardService} {row : PostRow}

theorem pendingFor_dropThreads {olds : List EventId} {rank : Rank} {target : EventId}
    (h : forall id row, s.followupById id = some row -> row.targetId = target ->
      row.applied = false -> row.rootId ∉ olds) :
    (BoardService.dropThreads s olds).pendingFor rank target = s.pendingFor rank target := by
  induction olds generalizing s with
  | nil =>
      rfl
  | cons old rest ih =>
      have hfirst : ((s.deleteThread old).deleteForRoot old).pendingFor rank target =
          s.pendingFor rank target := by
        unfold Store.pendingFor
        apply congrArg
        show ((s.followups.rows.filter _).filter _) = _
        rw [List.filter_filter]
        apply filter_congr
        intro row hrow
        have hfound : s.followupById row.eventId = some row :=
          Table.find?_eq_some_iff.mpr ⟨hrow, rfl⟩
        have hroot := h row.eventId row hfound
        simp only [mem_cons, not_or] at hroot
        by_cases hpending : row.targetId = target ∧ row.applied = false
        · simp [hpending, (hroot hpending.left hpending.right).left]
        · simp [hpending]
      show (BoardService.dropThreads ((s.deleteThread old).deleteForRoot old) rest).pendingFor
        rank target = _
      rw [ih, hfirst]
      intro id row hrow htarget hwaiting hmem
      have hkept : (BoardService.dropThreads s [old]).followupById id = some row := hrow
      rw [BoardService.followupById_dropThreads] at hkept
      exact h id row hkept.left htarget hwaiting (mem_cons_of_mem _ hmem)

theorem admitted_retain {maxThreads : Int} (hcoherent : s.Coherent)
    (hkept : (svc.retain s row maxThreads).postById row.eventId ≠ none) :
    svc.admitted (svc.retain s row maxThreads) row = svc.admitted s row := by
  rcases BoardService.retain_eq_dropThreads svc s row maxThreads with ⟨olds, hretain, _⟩
  rw [hretain] at hkept ⊢
  unfold BoardService.admitted
  rw [pendingFor_dropThreads]
  intro id followup hfound htarget hwaiting hmem
  rw [(hcoherent id followup hfound).waits hwaiting, htarget] at hmem
  cases hleft : (BoardService.dropThreads s olds).postById row.eventId with
  | none =>
      exact hkept hleft
  | some left =>
      have hid : left.eventId = row.eventId := Table.keyOf_of_find? hleft
      exact ((BoardService.postById_dropThreads.mp hleft).right _ hmem).left hid

theorem named_of_admitted (hcoherent : s.Coherent) {a : EventBody}
    (ha : a ∈ (svc.admitted s row).map (fun followup => followup.event.body)) :
    exists kind, a.followup? = some (row.eventId, kind) := by
  rcases mem_map.mp ha with ⟨followup, hmem, rfl⟩
  rcases BoardService.mem_pendingFor.mp (mem_filter.mp hmem).left with
    ⟨hfound, htarget, _⟩
  refine ⟨followup.kind, ?_⟩
  rw [(hcoherent _ followup hfound).named, htarget]

theorem postById_of_taken {event : SignedEvent} {maxThreads : Int} {id : EventId}
    (hcoherent : s.Coherent) (hrow : BoardService.projectPost s event = .ok row)
    (hkept : (svc.reconcileFollowups (svc.retain (s.insertPost row) row maxThreads)
      row).postById id ≠ none) :
    exists before, (s.insertPost row).postById id = some before ∧
      (svc.reconcileFollowups (svc.retain (s.insertPost row) row maxThreads)
        row).postById id =
        some (before.touchAll (if event.id = id then
            (svc.admitted s row).map (fun followup => followup.event.body) else [])) := by
  have hid : row.eventId = event.id := (BoardService.projectPost_ok hrow).left
  rw [BoardService.postById_reconcileFollowups] at hkept ⊢
  cases hleft : (svc.retain (s.insertPost row) row maxThreads).postById id with
  | none =>
      rw [hleft] at hkept
      exact absurd rfl hkept
  | some before =>
      rcases BoardService.retain_eq_dropThreads svc (s.insertPost row) row maxThreads with
        ⟨olds, hretain, _⟩
      have hbefore : (s.insertPost row).postById id = some before := by
        rw [hretain] at hleft
        exact (BoardService.postById_dropThreads.mp hleft).left
      refine ⟨before, hbefore, ?_⟩
      rw [map_some]
      apply congrArg
      split
      · rename_i heq
        rw [admitted_retain (hcoherent.insertPost row)]
        · rfl
        · rw [hid, heq, hleft]
          simp
      · rename_i hne
        apply PostRow.touchAll_of_other
        intro a ha
        rcases named_of_admitted (hcoherent.insertPost row).retain ha with ⟨kind, hkind⟩
        refine ⟨row.eventId, kind, hkind, ?_⟩
        have hbeforeId : before.eventId = id := Table.keyOf_of_find? hleft
        rw [hbeforeId, hid]
        exact fun heq => hne heq.symm

end Rabbithole.Boards
