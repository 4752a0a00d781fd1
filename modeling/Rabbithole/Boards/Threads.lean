import Rabbithole.Boards.Effects

/-!
# Threads

A reply should stand on its parent's board and in its parent's thread.  A local post takes
its root from its parent but its board from the caller; one from another server brings both.
So the posts stay linked along the runs in which every post fits the posts around it.
-/

namespace Rabbithole.Boards

open Foundation BoardService

/-- A reply on the board and in the thread of its parent. -/
def PostRow.LinkedTo (row parent : PostRow) : Prop :=
  row.boardSlug = parent.boardSlug ∧ row.rootId = some parent.thread

/-- Every stored post whose parent is stored is linked to it. -/
def Store.Linked (s : Store) : Prop :=
  forall id row, s.postById id = some row -> forall pid, row.parentId = some pid ->
    forall parent, s.postById pid = some parent -> row.LinkedTo parent

/--
A post that is about to be stored, with its local board, its root and its parent, fits
the posts that are stored: the parent it names, and the posts that name it.
-/
structure Fits (s : Store) (id : EventId) (board : String) (root parent : Option EventId) :
    Prop where
  toParent : forall pid row, parent = some pid -> s.postById pid = some row ->
    board = row.boardSlug ∧ root = some row.thread
  toReplies : forall rid row, s.postById rid = some row -> row.parentId = some id ->
    row.boardSlug = board ∧ row.rootId = some (root.getD id)
  toItself : parent = some id -> root ≠ none

/-- The root a local post takes: its parent's thread. -/
def Store.rootFor (s : Store) (parent : Option EventId) : Option EventId :=
  parent.bind (fun pid => (s.postById pid).map PostRow.thread)

/-- The id a local post gets. -/
def BoardService.idFor (svc : BoardService) (s : Store) (board : String)
    (parent : Option EventId) (author : String) (seed : Seed) (subject body mime : String)
    (now : Int) : EventId :=
  (mint svc.keys author seed svc.origin svc.originSeed now
    (.post board (s.rootFor parent) parent subject body mime)).id

/-- A call that stores a post stores one that fits, if it is not stored already. -/
def FitsThreads (svc : BoardService) (s : Store) : Call -> Prop
  | .post board parent author seed subject body mime now =>
      (exists prepared,
        svc.preparePost s board parent author seed subject body mime now = .ok prepared) ->
      forall boardRow, s.bySlug board = some boardRow ->
        s.postById (svc.idFor s boardRow.slug parent author seed subject body mime now) =
          none ->
        Fits s (svc.idFor s boardRow.slug parent author seed subject body mime now)
          boardRow.slug (s.rootFor parent) parent
  | .ingest event _ _ =>
      forall board root parent subject body mime boardRow,
        event.body = .post board root parent subject body mime ->
        s.bySlug board = some boardRow -> s.postById event.id = none ->
        Fits s event.id boardRow.slug root parent
  | _ => True

namespace PostRow

theorem LinkedTo.of_bare {row row' parent parent' : PostRow} (h : row.LinkedTo parent)
    (hrow : row'.bare = row.bare) (hparent : parent'.bare = parent.bare) :
    row'.LinkedTo parent' := by
  have hboard : row'.boardSlug = row.boardSlug := congrArg (fun r => r.boardSlug) hrow
  have hroot : row'.rootId = row.rootId := congrArg (fun r => r.rootId) hrow
  have hboard' : parent'.boardSlug = parent.boardSlug :=
    congrArg (fun r => r.boardSlug) hparent
  have hroot' : parent'.rootId = parent.rootId := congrArg (fun r => r.rootId) hparent
  have hid' : parent'.eventId = parent.eventId := PostRow.eventId_of_bare hparent
  unfold LinkedTo PostRow.thread
  rw [hboard, hroot, hboard', hroot', hid']
  exact h

end PostRow

theorem Store.Linked.opened (boards : Table (fun board : BoardRow => foldCase board.slug)) :
    (Store.opened boards).Linked := by
  intro id row hrow
  cases hrow

variable {s s' : Store} {row : PostRow} {board : String} {svc : BoardService}

theorem Store.Linked.of_bare (h : s.Linked) (hrows : forall id row', s'.postById id = some row' ->
      exists row, s.postById id = some row ∧ row'.bare = row.bare) : s'.Linked := by
  intro id row' hrow' pid hpid parent' hparent'
  rcases hrows id row' hrow' with ⟨row, hrow, hbare⟩
  rcases hrows pid parent' hparent' with ⟨parent, hparent, hbare'⟩
  have hsame : row'.parentId = row.parentId := congrArg (fun r => r.parentId) hbare
  rw [hsame] at hpid
  exact (h id row hrow pid hpid parent hparent).of_bare hbare hbare'

/-- A row as a post is projected to: its thread, and its root when the event has one. -/
structure PostRow.Projects (row : PostRow) (board : String) (root parent : Option EventId) :
    Prop where
  boardSlug : row.boardSlug = board
  rootId : forall id, root = some id -> row.rootId = some id
  parentId : row.parentId = parent
  thread : row.thread = root.getD row.eventId

theorem projects_of_projectPost {event : SignedEvent}
    (h : BoardService.projectPost s event = .ok row) :
    exists board root parent subject body mime boardRow,
      event.body = .post board root parent subject body mime ∧
        s.bySlug board = some boardRow ∧ row.Projects boardRow.slug root parent := by
  unfold BoardService.projectPost at h
  split at h
  · rename_i board root parent subject body mime hbody
    split at h
    · cases h
    · rename_i boardRow hboard
      cases h
      refine ⟨board, root, parent, subject, body, mime, boardRow, hbody, hboard, ?_⟩
      cases root with
      | some id =>
          exact
            { boardSlug := rfl, rootId := fun _ heq => heq, parentId := rfl, thread := rfl }
      | none =>
          refine { boardSlug := rfl, rootId := ?_, parentId := rfl, thread := ?_ }
          · intro id heq
            cases heq
          · cases parent with
            | none | some pid =>
                rfl
  · cases h

theorem Store.Linked.insertPost {root parent : Option EventId} (h : s.Linked)
    (hprojects : row.Projects board root parent)
    (hfits : s.postById row.eventId = none -> Fits s row.eventId board root parent) :
    (s.insertPost row).Linked := by
  intro id reply hreply pid hpid above habove
  rcases postById_insertPost_some hreply with hold | ⟨hnew, hid, rfl⟩
  · rcases postById_insertPost_some habove with hold' | ⟨hnew, hid, rfl⟩
    · exact h id reply hold pid hpid above hold'
    · rw [← hid] at hpid
      have hagree := (hfits hnew).toReplies id reply hold hpid
      constructor
      · rw [hagree.left, hprojects.boardSlug]
      · rw [hagree.right, hprojects.thread]
  · rw [hprojects.parentId] at hpid
    rcases postById_insertPost_some habove with hold' | ⟨_, hid', rfl⟩
    · have hagree := (hfits hnew).toParent pid above hpid hold'
      constructor
      · rw [hprojects.boardSlug, hagree.left]
      · exact hprojects.rootId _ hagree.right
    · rw [← hid'] at hpid
      constructor
      · rfl
      · cases hroot : root with
        | none =>
            exact absurd hroot ((hfits hnew).toItself hpid)
        | some rid =>
            rw [hprojects.rootId rid hroot, hprojects.thread, hroot]
            rfl

theorem Store.Linked.retain {maxThreads : Int} (h : s.Linked) :
    (svc.retain s row maxThreads).Linked := by
  rcases retain_eq_dropThreads svc s row maxThreads with ⟨olds, heq, _⟩
  rw [heq]
  apply h.of_bare
  intro id stored hstored
  exact ⟨stored, (postById_dropThreads.mp hstored).left, rfl⟩

theorem Store.Linked.touchAll (h : s.Linked) (touches : List EventBody)
    (hrows : forall id, s'.postById id = (s.postById id).map (fun row => row.touchAll touches)) :
    s'.Linked := by
  apply h.of_bare
  intro id stored hstored
  rw [hrows, Option.map_eq_some_iff] at hstored
  rcases hstored with ⟨row, hrow, rfl⟩
  exact ⟨row, hrow, row.touchAll_bare touches⟩

theorem Store.Linked.touch {a : EventBody} (h : s.Linked)
    (hrows : forall id, s'.postById id = (s.postById id).map a.touch) : s'.Linked :=
  h.touchAll [a] hrows

theorem preparePost_ok {parent : Option EventId} {author : String} {seed : Seed}
    {subject body mime : String} {now maxThreads : Int} {event : SignedEvent}
    (h : svc.preparePost s board parent author seed subject body mime now =
      .ok (event, maxThreads)) :
    exists boardRow, s.bySlug board = some boardRow ∧
      event = mint svc.keys author seed svc.origin svc.originSeed now
        (.post boardRow.slug (s.rootFor parent) parent subject body mime) := by
  unfold BoardService.preparePost at h
  cases hboard : s.bySlug board with
  | none =>
      rw [hboard] at h
      cases h
  | some boardRow =>
      rw [hboard] at h
      simp only [] at h
      refine ⟨boardRow, rfl, ?_⟩
      split at h
      · cases h
      · split at h
        · cases h
        · cases parent with
          | none =>
              cases h
              rfl
          | some pid =>
              cases hparent : s.postById pid with
              | none =>
                  simp only [hparent] at h
                  cases h
              | some parentRow =>
                  simp only [hparent] at h
                  cases h
                  simp [Store.rootFor, hparent]

theorem bySlug_of_slug {boardRow : BoardRow} (h : s.bySlug board = some boardRow) :
    s.bySlug boardRow.slug = some boardRow := by
  unfold Store.bySlug at h ⊢
  have hkey := Table.keyOf_of_find? h
  rw [hkey]
  exact h

theorem Store.Linked.of_wrote {call : Call} (h : s.Linked) (hfits : FitsThreads svc s call)
    (hwrote : Wrote svc s call s') : s'.Linked := by
  cases hwrote with
  | nothing =>
      exact h
  | posted hprepared hrow =>
      rcases preparePost_ok hprepared with ⟨boardRow, hboard, rfl⟩
      rcases projects_of_projectPost hrow with
        ⟨board', root, parent', subject', body', mime', boardRow', hbody, hboard', hprojects⟩
      cases hbody
      rw [bySlug_of_slug hboard] at hboard'
      cases hboard'
      have hid := (projectPost_ok hrow).left
      apply Store.Linked.retain
      apply h.insertPost hprojects
      rw [hid]
      exact hfits ⟨_, hprepared⟩ boardRow hboard
  | edited hrow | tombstoned hrow =>
      exact h.touch (postById_storeLocalFollowup _ _ _ _ _ _)
  | took htook =>
      rename_i event board maxThreads
      cases htook with
      | post hrow =>
          rcases projects_of_projectPost hrow with
            ⟨board', root, parent, subject, body, mime, boardRow, hbody, hboard, hprojects⟩
          have hid := (projectPost_ok hrow).left
          refine Store.Linked.touchAll ?_ _ (svc.postById_reconcileFollowups _ _)
          apply Store.Linked.retain
          apply h.insertPost hprojects
          rw [hid]
          exact hfits board' root parent subject body mime boardRow hbody hboard
      | applied hfollowup hrow hauthorized =>
          apply h.touch (a := event.body)
          intro id
          rw [postById_applyFollowup, postById_storeFollowup]
      | parked hfollowup habsent hboard =>
          exact h

/--
Along every run in which each post that is stored fits the posts around it, a stored
post whose parent is stored is on its parent's board and in its parent's thread.
-/
theorem threads_stay_linked {svc : BoardService}
    {boards : Table (fun board : BoardRow => foldCase board.slug)} {calls : List Call}
    {t : Store} (hfits : Along (step svc) (FitsThreads svc) (Store.opened boards) calls)
    (hrun : run? (step svc) (Store.opened boards) calls = some t) :
    forall id row, t.postById id = some row -> forall pid, row.parentId = some pid ->
      forall parent, t.postById pid = some parent ->
        row.boardSlug = parent.boardSlug ∧
          row.rootId = some (parent.rootId.getD parent.eventId) :=
  run?_invariant_along
    (fun _ _ _ h hfits hstep => Store.Linked.of_wrote h hfits (wrote_of_step hstep))
    (Store.Linked.opened boards) hfits hrun

/-- A post and a reply to it on the same board, found under another spelling. -/
def replyOnBoard : List Call :=
  [.post "general" none "ann" 1 "hello" "text" "text/plain" 1,
    .post "General" (some 1) "bob" 2 "re: hello" "text" "text/plain" 2]

theorem threads_stay_linked_reply :
    exists t, run? (step (clockService "burrow" 9)) (Store.opened oneBoard) replyOnBoard =
      some t ∧
    forall id row, t.postById id = some row -> forall pid, row.parentId = some pid ->
      forall parent, t.postById pid = some parent ->
        row.boardSlug = parent.boardSlug ∧
          row.rootId = some (parent.rootId.getD parent.eventId) := by
  have hfits : Along (step (clockService "burrow" 9)) (FitsThreads (clockService "burrow" 9))
      (Store.opened oneBoard) replyOnBoard := by
    refine along_cons ?_ rfl (along_cons ?_ rfl trivial)
    · intro _ boardRow hboard hnew
      refine { toParent := ?_, toReplies := ?_, toItself := ?_ }
      · intro pid row hparent
        cases hparent
      · intro rid row hrow
        cases hrow
      · intro hparent
        cases hparent
    · intro _ boardRow hboard hnew
      have hboard : some _ = some boardRow := hboard
      cases hboard
      refine { toParent := ?_, toReplies := ?_, toItself := ?_ }
      · intro pid row hparent hrow
        cases hparent
        have hrow : some _ = some row := hrow
        cases hrow
        exact ⟨rfl, rfl⟩
      · intro rid row hrow hreply
        have hmem := (Table.find?_eq_some_iff.mp hrow).left
        have hmem : row ∈ [_] := hmem
        rw [List.mem_singleton.mp hmem] at hreply
        cases hreply
      · intro hparent
        exact absurd hparent (by decide)
  exact ⟨_, rfl, threads_stay_linked hfits rfl⟩

/-- The boards of a server that has two. -/
def twoBoards : Table (fun board : BoardRow => foldCase board.slug) where
  rows :=
    [{ slug := "general", kind := 2, maxThreads := 0 },
      { slug := "garden", kind := 2, maxThreads := 0 }]
  nodup := by decide

/-- A reply posted to another board than its parent's is stored there. -/
theorem reply_on_another_board :
    exists t row parent, run? (step (clockService "burrow" 9)) (Store.opened twoBoards)
        [.post "general" none "ann" 1 "hello" "text" "text/plain" 1,
          .post "garden" (some 1) "bob" 2 "re: hello" "text" "text/plain" 2] = some t ∧
      t.postById 2 = some row ∧ row.parentId = some 1 ∧ t.postById 1 = some parent ∧
        row.boardSlug ≠ parent.boardSlug := by
  refine ⟨_, _, _, rfl, rfl, rfl, rfl, ?_⟩
  show "garden" ≠ "general"
  decide

end Rabbithole.Boards
