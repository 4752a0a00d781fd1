import Rabbithole.Files.Derived
import Rabbithole.Files.Sessions

/-!
# Moves that cross

What a move read may have changed when its relocation runs.  The tree is kept where the
folder is still at the path that was read and not inside of the node, and whatever is below
the node is below the path that was read.
-/

namespace Rabbithole.Files

open Foundation Foundation.Paths List FilesRepo

/-- Nothing in the area is below the path. -/
def Bare (db : Db) (areaId : Int) (path : List Char) : Prop :=
  forall m, m ∈ db.nodes.rows -> m.areaId = areaId -> ¬ Below '/' path m.path

/-- A relocation of the node, as it was read, fits the row it has now. -/
structure Fits (db : Db) (node now : FileNodeRow) (parentId : Option Int)
    (name path : List Char) : Prop where
  /-- The folder is where it was read. -/
  seat : Seat db.nodes.rows now.areaId name parentId path
  /-- It is not the node, nor inside of it. -/
  outside : ¬ Below '/' now.path path
  /-- The new path is not below the one that was read. -/
  apart : ¬ Below '/' node.path path
  /-- What has to follow the node is what is below the path that was read. -/
  follows : now.path = node.path ∨
    (now.path = path ∨ Bare db now.areaId now.path) ∧
      (node.path = path ∨ Bare db now.areaId node.path)
  plain : Plain db node

/-- Another row of the area is at the path. -/
def Taken (db : Db) (now : FileNodeRow) (path : List Char) : Prop :=
  exists m, m ∈ db.nodes.rows ∧ m.id ≠ now.id ∧ m.areaId = now.areaId ∧ m.path = path

/-- The store refuses the relocation, or it fits the node's row. -/
def StillFits (db : Db) (node : FileNodeRow) (parentId : Option Int) (name path : List Char) :
    Prop :=
  forall now, now ∈ db.nodes.rows -> now.id = node.id -> now.areaId = node.areaId ->
    Taken db now path ∨ Fits db node now parentId name path

section Decidable

variable (db : Db) (node now : FileNodeRow) (parentId : Option Int) (name path : List Char)

instance (nodes : List FileNodeRow) (areaId : Int) :
    Decidable (Seat nodes areaId name parentId path) :=
  match parentId with
  | none => decidable_of_iff (path = name) ⟨fun h => h ▸ .root, fun h => (by cases h; rfl)⟩
  | some id =>
      decidable_of_iff (exists folder, folder ∈ nodes ∧ folder.id = id ∧ folder.areaId = areaId ∧
          folder.kind = .kindFolder ∧ path = folder.path ++ '/' :: name)
        ⟨fun ⟨folder, hmem, hid, harea, hkind, hpath⟩ =>
            hid ▸ hpath ▸ .inside folder hmem harea hkind,
          fun h => (by
            cases h with
            | inside folder hmem harea hkind => exact ⟨folder, hmem, rfl, harea, hkind, rfl⟩)⟩

instance (areaId : Int) : Decidable (Bare db areaId path) :=
  inferInstanceAs (Decidable (forall m, m ∈ db.nodes.rows -> _))

instance : Decidable (Taken db now path) :=
  inferInstanceAs (Decidable (exists m, m ∈ db.nodes.rows ∧ _))

instance : Decidable (Fits db node now parentId name path) :=
  decidable_of_iff (Seat db.nodes.rows now.areaId name parentId path ∧
      (¬ Below '/' now.path path ∧ ¬ Below '/' node.path path) ∧
        (now.path = node.path ∨ (now.path = path ∨ Bare db now.areaId now.path) ∧
          (node.path = path ∨ Bare db now.areaId node.path)) ∧ Plain db node)
    ⟨fun ⟨hseat, hout, hfollows, hplain⟩ => ⟨hseat, hout.left, hout.right, hfollows, hplain⟩,
      fun h => ⟨h.seat, ⟨h.outside, h.apart⟩, h.follows, h.plain⟩⟩

instance : Decidable (StillFits db node parentId name path) :=
  inferInstanceAs (Decidable (forall now, now ∈ db.nodes.rows -> _))

end Decidable

/-- Every relocation fits what it finds. -/
def Sound (s : Shared) : Event -> Prop
  | .call _ _ => True
  | .goOn session =>
      match s.sessions.get? session with
      | some (.free node parentId name path) => StillFits s.db node parentId name path
      | _ => True

instance (s : Shared) (e : Event) : Decidable (Sound s e) := by
  unfold Sound
  split
  · infer_instance
  · split
    · infer_instance
    · infer_instance

/-- The names that a call goes on with are names. -/
def Progress.Named : Progress -> Prop
  | .called _ => True
  | .found node _ => node.name ≠ [] ∧ '/' ∉ node.name
  | .inArea node _ _ => node.name ≠ [] ∧ '/' ∉ node.name
  | .placed _ _ name _ => name ≠ [] ∧ '/' ∉ name
  | .free _ _ name _ => name ≠ [] ∧ '/' ∉ name
  | .relocated _ => True

/-!
## One relocation
-/

section Relocation

variable {db : Db} {node now : FileNodeRow} {parentId : Option Int} {name path : List Char}

theorem Tree.seat_unique (h : Tree db) {areaId : Int} {name' : List Char}
    {parentId' : Option Int} (hname : '/' ∉ name) (hname' : '/' ∉ name')
    (hseat : Seat db.nodes.rows areaId name parentId path)
    (hseat' : Seat db.nodes.rows areaId name' parentId' path) :
    parentId = parentId' ∧ name = name' := by
  generalize hpath : path = path' at hseat'
  cases hseat with
  | root =>
      cases hseat' with
      | root => exact ⟨rfl, hpath⟩
      | inside folder hmem harea hkind =>
          rw [hpath] at hname
          simp at hname
  | inside folder hmem harea hkind =>
      cases hseat' with
      | root =>
          rw [← hpath] at hname'
          simp at hname'
      | inside folder' hmem' harea' hkind' =>
          rcases join_inj hname hname' hpath with ⟨hfolder, hsame⟩
          rw [h.apart folder folder' hmem hmem' (harea.trans harea'.symm) hfolder]
          exact ⟨rfl, hsame⟩

theorem FilesRepo.setPaths_same {change : FileNodeRow -> List Char} {nodes : Table FileNodeRow.id}
    (hapart : forall n m, n ∈ nodes.rows -> m ∈ nodes.rows -> n.areaId = m.areaId ->
      n.path = m.path -> n = m) (todo : List FileNodeRow) (hmem : todo ⊆ nodes.rows)
    (hsame : forall n, n ∈ todo -> change n = n.path) :
    FilesRepo.setPaths change nodes todo = .ok nodes := by
  induction todo with
  | nil => rfl
  | cons n rest ih =>
      have hn := hmem mem_cons_self
      have hset : FilesRepo.setPath nodes n (change n) = .ok nodes := by
        rw [hsame n mem_cons_self, setPath_ok]
        · congr 1
          apply Table.ext_rows
          show nodes.rows.map _ = nodes.rows
          conv_rhs => rw [← map_id nodes.rows]
          apply map_congr_left
          intro m hm
          split
          · rename_i hid
            rw [eq_of_id hm hn hid]
            rfl
          · rfl
        · intro m hm hid harea hpath
          exact hid (congrArg FileNodeRow.id (hapart m n hm hn harea hpath))
      unfold FilesRepo.setPaths
      rw [hset]
      exact ih (fun m hm => hmem (mem_cons_of_mem n hm))
        (fun m hm => hsame m (mem_cons_of_mem n hm))

theorem rebase_self (old p : List Char) : rebase '/' old old p = p := by
  by_cases hbelow : Below '/' old p
  · rcases below_iff.mp hbelow with ⟨rest, rfl⟩
    exact rebase_below old old rest
  · exact rebase_of_not_below hbelow

/-- The second statement leaves a tree as it is where nothing is below the old path, or where
that is the new one. -/
theorem Tree.setBelow (h : Tree db) {areaId : Int} {old : List Char}
    (hstill : old = path ∨ Bare db areaId old)
    (hplain : forall m, m ∈ db.nodes.rows -> m.areaId = areaId -> Below '/' old m.path ->
      Char.ofNat 0 ∉ m.path) : FilesRepo.setBelow db.nodes areaId old path = .ok db.nodes := by
  unfold FilesRepo.setBelow
  apply setPaths_same h.apart
  · exact filter_subset_self _
  · intro n hn
    rcases mem_filter.mp hn with ⟨hmem, hmet⟩
    rcases of_decide_eq_true hmet with ⟨harea, hleft⟩
    have hbelow : Below '/' old n.path :=
      (substrLeft_iff (fun hbelow => hplain n hmem harea hbelow)).mp hleft
    rcases hstill with rfl | hbare
    · have hchange := substrFrom_eq old hbelow (hplain n hmem harea hbelow)
      rw [rebase_self] at hchange
      exact hchange
    · exact absurd hbelow (hbare n hmem harea)

theorem Tree.ownMoved_same (h : Tree db) (hnow : now ∈ db.nodes.rows) (hname : '/' ∉ name)
    (hseat : Seat db.nodes.rows now.areaId name parentId path) (hpath : now.path = path) :
    db.nodes.rows.map (ownMoved now parentId name path) = db.nodes.rows := by
  rw [← hpath] at hseat ⊢
  rcases h.seat_unique hname (h.named now hnow).right hseat (h.seated now hnow) with ⟨rfl, rfl⟩
  conv_rhs => rw [← map_id db.nodes.rows]
  apply map_congr_left
  intro m hm
  unfold ownMoved
  split
  · rename_i hid
    rw [eq_of_id hm hnow hid]
    rfl
  · rfl

theorem ownMoved_bare (hbare : Bare db now.areaId now.path) :
    db.nodes.rows.map (ownMoved now parentId name path) =
      db.nodes.rows.map (moved now parentId name path) := by
  apply map_congr_left
  intro m hm
  unfold ownMoved
  split
  · rename_i hid
    exact (if_pos hid).symm
  · rename_i hid
    rw [moved_other hid]
    unfold movedPath
    split
    · rename_i harea
      rw [rebase_of_not_below (hbare m hm harea)]
    · rfl

theorem Fits.movable (hfits : Fits db node now parentId name path) (hnow : now ∈ db.nodes.rows)
    (hname : name ≠ [] ∧ '/' ∉ name) (hfree : ¬ Taken db now path) (hpath : now.path ≠ path) :
    Movable db now parentId name path := by
  refine ⟨hnow, hname, hfits.seat, ?_, hfits.outside⟩
  rw [nodeByPath_eq_none_iff]
  intro m hm harea hmpath
  by_cases hid : m.id = now.id
  · exact hpath (eq_of_id hm hnow hid ▸ hmpath)
  · exact hfree ⟨m, hm, hid, harea, hmpath⟩

theorem Tree.own_of_fits (h : Tree db) (hnow : now ∈ db.nodes.rows)
    (hname : name ≠ [] ∧ '/' ∉ name) (hfits : Fits db node now parentId name path)
    (hfree : ¬ Taken db now path)
    (hbare : now.path = path ∨ Bare db now.areaId now.path) {own : Table FileNodeRow.id}
    (hown : own.rows = db.nodes.rows.map (ownMoved now parentId name path)) :
    Tree { db with nodes := own } := by
  by_cases hpath : now.path = path
  · rw [h.ownMoved_same hnow hname.right hfits.seat hpath] at hown
    rw [Table.ext_rows hown]
    exact h
  · rcases hbare with hsame | hbare
    · exact absurd hsame hpath
    · rw [ownMoved_bare hbare] at hown
      exact h.moved (hfits.movable hnow hname hfree hpath) hown

theorem FilesRepo.setOwn_taken (htaken : Taken db now path) :
    exists e, FilesRepo.setOwn db now parentId name path = .error e := by
  rcases htaken with ⟨m, hm, hid, harea, hpath⟩
  have hset : FilesRepo.setPath db.nodes now path = .error .unique := by
    unfold FilesRepo.setPath
    rw [if_pos]
    exact any_eq_true.mpr ⟨m, hm, decide_eq_true ⟨hid, harea, hpath⟩⟩
  unfold FilesRepo.setOwn
  rw [hset]
  split
  · exact ⟨_, rfl⟩
  · exact ⟨_, rfl⟩

theorem Fits.below_of_own (hfits : Fits db node now parentId name path) {m : FileNodeRow}
    (hm : m ∈ db.nodes.rows.map (ownMoved now parentId name path))
    (hbelow : Below '/' node.path m.path) : m ∈ db.nodes.rows := by
  rcases mem_map.mp hm with ⟨old, hold, rfl⟩
  unfold ownMoved at hbelow ⊢
  split at hbelow
  · exact absurd hbelow hfits.apart
  · rename_i hid
    rw [if_neg hid]
    exact hold

theorem Tree.relocate_following (h : Tree db) (hnow : now ∈ db.nodes.rows)
    (hname : name ≠ [] ∧ '/' ∉ name) (hfits : Fits db node now parentId name path)
    (hfree : ¬ Taken db now path) (hread : now.path = node.path) (harea : now.areaId = node.areaId)
    (hpath : now.path ≠ path) :
    Tree (FilesRepo.relocateNode db now.id now.areaId parentId name now.path path).fst := by
  have hmove := hfits.movable hnow hname hfree hpath
  have hplain : Plain db now := by
    intro m hm hmarea hbelow
    rw [hread] at hbelow
    exact hfits.plain m hm (hmarea.trans harea) hbelow
  rcases h.relocateNode hmove hplain with ⟨nodes, hrun, hrows⟩
  rw [hrun]
  exact h.moved hmove hrows

theorem Tree.relocate_alone (h : Tree db) (hnow : now ∈ db.nodes.rows)
    (hname : name ≠ [] ∧ '/' ∉ name) (hfits : Fits db node now parentId name path)
    (hfree : ¬ Taken db now path) (harea : now.areaId = node.areaId)
    (hbare : now.path = path ∨ Bare db now.areaId now.path)
    (hstill : node.path = path ∨ Bare db now.areaId node.path) :
    Tree (FilesRepo.relocateNode db now.id now.areaId parentId name node.path path).fst := by
  rcases setOwn_ok hfits.seat (fun m hm hid hmarea hmpath =>
    hfree ⟨m, hm, hid, hmarea, hmpath⟩) with ⟨own, hown, hrows⟩
  have htree := h.own_of_fits hnow hname hfits hfree hbare hrows
  have hbelow : FilesRepo.setBelow own now.areaId node.path path = .ok own := by
    apply htree.setBelow
    · rcases hstill with hpath | hstill
      · exact Or.inl hpath
      · right
        intro m hm hmarea hbelow
        exact hstill m (hfits.below_of_own (hrows ▸ hm) hbelow) hmarea hbelow
    · intro m hm hmarea hbelow
      exact hfits.plain m (hfits.below_of_own (hrows ▸ hm) hbelow) (hmarea.trans harea) hbelow
  unfold FilesRepo.relocateNode
  rw [find?_own hnow]
  simp only [hown, hbelow]
  exact htree

theorem Tree.relocate (h : Tree db) (hname : name ≠ [] ∧ '/' ∉ name)
    (hstill : StillFits db node parentId name path) :
    Tree (FilesRepo.relocateNode db node.id node.areaId parentId name node.path path).fst := by
  cases hfound : db.nodes.rows.find?
      (fun row => decide (row.id = node.id ∧ row.areaId = node.areaId)) with
  | none =>
      unfold FilesRepo.relocateNode
      rw [hfound]
      exact h
  | some now =>
      have hnow := mem_of_find?_eq_some hfound
      have hsame := of_decide_eq_true (find?_some (p := fun row : FileNodeRow =>
        decide (row.id = node.id ∧ row.areaId = node.areaId)) hfound)
      have hcases := hstill now hnow hsame.left hsame.right
      rw [← hsame.left, ← hsame.right]
      by_cases htaken : Taken db now path
      · rcases @FilesRepo.setOwn_taken _ _ parentId name _ htaken with ⟨e, he⟩
        unfold FilesRepo.relocateNode
        rw [find?_own hnow]
        simp only [he]
        exact h
      · have hfits := hcases.resolve_left htaken
        rcases hfits.follows with hread | ⟨hbare, hstill⟩
        · by_cases hpath : now.path = path
          · exact h.relocate_alone hnow hname hfits htaken hsame.right (Or.inl hpath)
              (Or.inl (hread ▸ hpath))
          · rw [← hread]
            exact h.relocate_following hnow hname hfits htaken hread hsame.right hpath
        · exact h.relocate_alone hnow hname hfits htaken hsame.right hbare hstill

end Relocation

/-!
## Steps
-/

section Steps

variable {db : Db} {progress progress' : Progress}

/-- A call to the repository keeps the tree, if it is no relocation or one that fits. -/
theorem Tree.advance (h : Tree db) (hnamed : progress.Named)
    (hstill : forall node parentId name path, progress = .free node parentId name path ->
      StillFits db node parentId name path) : Tree (advance db progress).fst := by
  unfold Files.advance
  split
  · split
    · exact h
    · split
      · exact h
      · split
        · exact h
        · exact h
  · split
    · exact h
    · exact h
  · split
    · exact h
    · simp only
      split
      · exact h
      · exact h
  · split
    · exact h
    · split
      · exact h
      · exact h
  · split
    · exact h
    · exact h
  · rename_i node parentId name path
    have hafter := h.relocate hnamed (hstill node parentId name path rfl)
    rw [← FileService.stored_fst] at hafter
    split
    all_goals
      rename_i hstored
      rw [hstored] at hafter
      exact hafter
  · split
    · exact h
    · exact h

/-- What a call goes on with is what it had, or a name that was just cleaned or read. -/
theorem Tree.named_advance (h : Tree db) (hnamed : progress.Named)
    (hnext : (Files.advance db progress).snd = .goesOn progress') : progress'.Named := by
  unfold Files.advance at hnext
  split at hnext
  · split at hnext
    · cases hnext
    · rename_i hclean
      split at hnext
      · cases hnext
      · split at hnext
        · cases hnext
        · cases hnext
          exact cleanName_ok hclean
  · split at hnext
    · cases hnext
    · rename_i hnode
      cases hnext
      exact h.named _ (nodeById_eq_some_iff.mp hnode).left
  · split at hnext
    · cases hnext
    · simp only at hnext
      split at hnext
      · cases hnext
      · cases hnext
        exact hnamed
  · split at hnext
    · cases hnext
    · split at hnext
      · cases hnext
      · cases hnext
        exact hnamed
  · split at hnext
    · cases hnext
    · cases hnext
      exact hnamed
  · split at hnext
    · cases hnext
    · cases hnext
      trivial
  · split at hnext
    · cases hnext
    · cases hnext

/-- The tables are a tree, and the sessions go on with names. -/
structure Kept (s : Shared) : Prop where
  tree : Tree s.db
  named : forall session progress, s.sessions.get? session = some progress -> progress.Named

theorem Kept.start (h : Tree db) : Kept (Shared.start db) where
  tree := h
  named := fun _ _ hnone => (by cases hnone)

theorem Kept.step {s s' : Shared} {e : Event} (h : Kept s) (hsound : Sound s e)
    (hstep : Files.step s e = some s') : Kept s' := by
  cases e with
  | call session move =>
      simp only [Files.step] at hstep
      split at hstep
      · cases hstep
      · cases hstep
        refine ⟨h.tree, ?_⟩
        intro other progress hother
        rw [Dict.get?_insert] at hother
        split at hother
        · cases hother
          trivial
        · exact h.named other progress hother
  | goOn session =>
      simp only [Files.step] at hstep
      rcases Option.map_eq_some_iff.mp hstep with ⟨progress, hprogress, rfl⟩
      have hnamed := h.named session progress hprogress
      have htree : Tree (advance s.db progress).fst := by
        apply h.tree.advance hnamed
        rintro node parentId name path rfl
        simp only [Sound] at hsound
        rw [hprogress] at hsound
        exact hsound
      have hgoesOn := fun progress' => @Tree.named_advance _ _ progress' h.tree hnamed
      rcases hnext : advance s.db progress with ⟨db', progress' | answer⟩
      · rw [hnext] at htree hgoesOn
        refine ⟨htree, ?_⟩
        intro other found hother
        have hother' : (s.sessions.insert session progress').get? other = some found := hother
        rw [Dict.get?_insert] at hother'
        split at hother'
        · cases hother'
          exact hgoesOn _ rfl
        · exact h.named other found hother'
      · rw [hnext] at htree
        refine ⟨htree, ?_⟩
        intro other found hother
        have hother' : (s.sessions.erase session).get? other = some found := hother
        rw [Dict.get?_erase] at hother'
        split at hother'
        · cases hother'
        · exact h.named other found hother'

end Steps

/-!
## Runs
-/

/-- The folder is the node's parent. -/
def Inside (db : Db) (n folder : FileNodeRow) : Prop :=
  folder ∈ db.nodes.rows ∧ n.parentId = some folder.id

theorem Tree.shorter_of_inside {db : Db} (h : Tree db) {n folder : FileNodeRow}
    (hn : n ∈ db.nodes.rows) (hinside : Inside db n folder) :
    folder.path.length < n.path.length := by
  have hseat := h.seated n hn
  rw [hinside.right] at hseat
  generalize hpath : n.path = path at hseat
  generalize hid : folder.id = id at hseat
  cases hseat with
  | inside parent hmem =>
      rw [eq_of_id hinside.left hmem hid]
      simp

theorem Tree.not_above_itself {db : Db} (h : Tree db) {n : FileNodeRow}
    (hn : n ∈ db.nodes.rows) : ¬ Relation.TransGen (Inside db) n n := by
  have habove : forall {top}, Relation.TransGen (Inside db) n top ->
      top ∈ db.nodes.rows ∧ top.path.length < n.path.length := by
    intro top htop
    induction htop with
    | single hinside => exact ⟨hinside.left, h.shorter_of_inside hn hinside⟩
    | tail _ hinside ih =>
        exact ⟨hinside.left, (h.shorter_of_inside ih.left hinside).trans ih.right⟩
  intro hself
  exact Nat.lt_irrefl _ (habove hself).right

/--
However the moves and renames of any sessions cross: where every relocation fits what it
finds, no folder comes to be above itself, and every path is the parent's and the name.
-/
theorem crossing_moves_keep_tree {db : Db} (h : Tree db) {events : List Event} {s : Shared}
    (hsound : Along step Sound (Shared.start db) events)
    (hrun : run? step (Shared.start db) events = some s) :
    (forall n, n ∈ s.db.nodes.rows -> ¬ Relation.TransGen (Inside s.db) n n) ∧
      forall n, n ∈ s.db.nodes.rows ->
        Seat s.db.nodes.rows n.areaId n.name n.parentId n.path := by
  have hkept : Kept s :=
    run?_invariant_along (fun _ _ _ hbefore hcond hstep => hbefore.step hcond hstep)
      (Kept.start h) hsound hrun
  exact ⟨fun n hn => hkept.tree.not_above_itself hn, hkept.tree.seated⟩

def twoFolders : List Call :=
  [.createArea ['w'] ['W'] [], .mkdir ['w'] none ['a'] false, .mkdir ['w'] none ['b'] false,
    .addFile ['w'] (some ['a']) ['f'] anyContent]

theorem twoFolders_tree : Tree (runAll twoFolders) :=
  (Run.call _ (.addFile ['w'] (some ['a']) ['f'] anyContent)
    (.call _ (.mkdir ['w'] none ['b'] false) (.call _ (.mkdir ['w'] none ['a'] false)
      (.call _ (.createArea ['w'] ['W'] []) .opened trivial) trivial) trivial) trivial).tree

/-- The file is read in its folder, and goes out of it when the folder has another name. -/
def fileOut : List Event :=
  [.call 0 (.rename 1 ['c']), .call 1 (.moveTo 3 (some ['b'])), .goOn 1, .goOn 0, .goOn 0, .goOn 0,
    .goOn 1, .goOn 1, .goOn 1, .goOn 1, .goOn 0, .goOn 1]

theorem crossing_moves_keep_tree_fileOut :
    exists s, run? step (Shared.start (runAll twoFolders)) fileOut = some s ∧
      s.db.nodes.rows.map FileNodeRow.path = [['c'], ['b'], ['b', '/', 'f']] ∧
      forall n, n ∈ s.db.nodes.rows -> Seat s.db.nodes.rows n.areaId n.name n.parentId n.path := by
  refine ⟨_, rfl, by decide, ?_⟩
  exact (@crossing_moves_keep_tree _ twoFolders_tree fileOut _ (by decide) rfl).right

def intoEachOther : List Event :=
  [.call 0 (.moveTo 1 (some ['b'])), .call 1 (.moveTo 2 (some ['a'])), .goOn 0, .goOn 1, .goOn 0,
    .goOn 1, .goOn 0, .goOn 1, .goOn 0, .goOn 1, .goOn 0, .goOn 1, .goOn 0, .goOn 1]

/-- Both see that the folder they go to is not inside of them, and then each goes. -/
theorem folders_into_each_other :
    ¬ (forall (db : Db) (events : List Event) (s : Shared), Tree db ->
      run? step (Shared.start db) events = some s ->
      (forall n, n ∈ s.db.nodes.rows -> ¬ Relation.TransGen (Inside s.db) n n) ∧
        forall n, n ∈ s.db.nodes.rows ->
          Seat s.db.nodes.rows n.areaId n.name n.parentId n.path) := by
  intro hall
  have hcycle : exists s, run? step (Shared.start (runAll twoFolders)) intoEachOther = some s ∧
      exists n, n ∈ s.db.nodes.rows ∧ exists m, m ∈ s.db.nodes.rows ∧
        n.parentId = some m.id ∧ m.parentId = some n.id :=
    ⟨_, rfl, by decide⟩
  rcases hcycle with ⟨s, hrun, n, hn, m, hm, hparent, hback⟩
  apply (hall _ _ s twoFolders_tree hrun).left n hn
  exact .tail (.single ⟨hm, hparent⟩) ⟨hn, hback⟩

end Rabbithole.Files
