import Rabbithole.Files.Tree

/-!
# Moving a subtree

One statement puts a node in its new place, a second one rewrites the paths of what is below
it by their text.  Where no such path has a NUL in it, every path is rebased, no two rows
meet on the way, and the tree is kept.
-/

namespace Rabbithole.Files

open Foundation Foundation.Paths List FilesRepo

/-- No path below the node's has a NUL in it. -/
def Plain (db : Db) (node : FileNodeRow) : Prop :=
  forall m, m ∈ db.nodes.rows -> m.areaId = node.areaId -> Below '/' node.path m.path ->
    Char.ofNat 0 ∉ m.path

instance (db : Db) (node : FileNodeRow) : Decidable (Plain db node) :=
  inferInstanceAs (Decidable (forall m, m ∈ db.nodes.rows -> _))

theorem cText_of_not_mem {s : List Char} (h : Char.ofNat 0 ∉ s) : cText s = s := by
  unfold cText
  rw [takeWhile_eq_self_iff]
  intro c hc
  simp only [bne_iff_ne, ne_eq]
  rintro rfl
  exact h hc

theorem substrLeft_iff {old path : List Char} (hplain : Below '/' old path -> Char.ofNat 0 ∉ path) :
    substrLeft path (old ++ ['/']).length = old ++ ['/'] <-> Below '/' old path := by
  unfold substrLeft
  constructor
  · intro h
    have hpre : old ++ ['/'] <+: cText path := by
      rw [← h]
      exact take_prefix _ _
    exact hpre.trans ( takeWhile_prefix _)
  · intro h
    rw [cText_of_not_mem (hplain h)]
    exact prefix_iff_eq_take.mp h |>.symm

theorem substrFrom_eq {old path : List Char} (new : List Char) (h : Below '/' old path)
    (hplain : Char.ofNat 0 ∉ path) :
    new ++ ['/'] ++ substrFrom path ((old ++ ['/']).length + 1) = rebase '/' old new path := by
  unfold substrFrom
  rw [cText_of_not_mem hplain]
  rcases below_iff.mp h with ⟨rest, rfl⟩
  have hsplit : old ++ '/' :: rest = (old ++ ['/']) ++ rest := by simp
  rw [rebase_below, hsplit, Nat.add_sub_cancel, drop_left, append_assoc, singleton_append]

/-!
## The statements
-/

theorem FilesRepo.setPath_ok {nodes : Table FileNodeRow.id} {node : FileNodeRow}
    {path : List Char} (hfree : forall m, m ∈ nodes.rows -> m.id ≠ node.id ->
      m.areaId = node.areaId -> m.path ≠ path) :
    FilesRepo.setPath nodes node path =
      .ok (nodes.update node.id (fun row => { row with path := path }) (fun _ => rfl)) := by
  unfold FilesRepo.setPath
  rw [if_neg]
  intro hany
  rcases any_eq_true.mp hany with ⟨m, hm, hdec⟩
  have hthree := of_decide_eq_true hdec
  exact hfree m hm hthree.left hthree.right.left hthree.right.right

/-- Rows whose new paths are nobody's are changed one by one. -/
theorem FilesRepo.setPaths_ok (change : FileNodeRow -> List Char) (todo : List FileNodeRow)
    (nodes : Table FileNodeRow.id) (hnodup : (todo.map FileNodeRow.id).Nodup)
    (hmem : forall n, n ∈ todo -> n ∈ nodes.rows)
    (hfree : forall n, n ∈ todo -> forall m, m ∈ nodes.rows -> m.areaId = n.areaId ->
      m.path ≠ change n)
    (hinj : forall n m, n ∈ todo -> m ∈ todo -> n.areaId = m.areaId -> change n = change m ->
      n = m) :
    exists nodes', FilesRepo.setPaths change nodes todo = .ok nodes' ∧
      nodes'.rows = nodes.rows.map
        (fun m => if m ∈ todo then { m with path := change m } else m) := by
  induction todo generalizing nodes with
  | nil =>
      refine ⟨nodes, rfl, ?_⟩
      simp
  | cons node rest ih =>
      rw [map_cons, nodup_cons] at hnodup
      have hnode := hmem node mem_cons_self
      have hset := @FilesRepo.setPath_ok nodes node (change node)
        (fun m hm _ harea => hfree node mem_cons_self m hm harea)
      have hother : forall n, n ∈ rest -> n.id ≠ node.id := by
        intro n hn heq
        exact hnodup.left (heq ▸ mem_map_of_mem hn)
      rcases ih (nodes.update node.id (fun row => { row with path := change node }) (fun _ => rfl))
        hnodup.right (by
          intro n hn
          refine mem_map.mpr ⟨n, hmem n (mem_cons_of_mem _ hn), ?_⟩
          rw [if_neg (hother n hn)]) (by
          intro n hn m hm harea
          have hin := mem_cons_of_mem node hn
          rcases mem_map.mp hm with ⟨old, hold, rfl⟩
          by_cases hid : old.id = node.id
          · rw [if_pos hid] at harea ⊢
            intro heq
            have hsame := eq_of_id hold hnode hid
            rw [hsame] at harea
            have hnn := hinj node n mem_cons_self hin harea heq
            exact hother n hn (by rw [hnn])
          · rw [if_neg hid] at harea ⊢
            exact hfree n hin old hold harea)
        (fun n m hn hm => hinj n m (mem_cons_of_mem _ hn) (mem_cons_of_mem _ hm))
        with ⟨nodes', hrest, hrows⟩
      refine ⟨nodes', ?_, ?_⟩
      · unfold FilesRepo.setPaths
        rw [hset]
        exact hrest
      · rw [hrows]
        show List.map _ (List.map _ nodes.rows) = _
        rw [map_map]
        apply map_congr_left
        intro m hm
        by_cases hid : m.id = node.id
        · have hsame := eq_of_id hm hnode hid
          subst hsame
          simp only [Function.comp_apply, if_true, mem_cons_self]
          rw [if_neg]
          intro hin
          exact hother _ hin rfl
        · have hne : m ≠ node := fun heq => hid (by rw [heq])
          simp only [Function.comp_apply, if_neg hid, mem_cons, or_iff_right hne]

/-!
## The rows behind a move
-/

def movedPath (node : FileNodeRow) (new : List Char) (m : FileNodeRow) : List Char :=
  if m.areaId = node.areaId then rebase '/' node.path new m.path else m.path

/-- What becomes of a row. -/
def moved (node : FileNodeRow) (parentId : Option Int) (name new : List Char)
    (m : FileNodeRow) : FileNodeRow :=
  if m.id = node.id then { m with parentId := parentId, name := name, path := new }
  else { m with path := movedPath node new m }

section Moved

variable {db : Db} {node : FileNodeRow} {parentId : Option Int} {name new : List Char}

theorem moved_self : moved node parentId name new node =
    { node with parentId := parentId, name := name, path := new } :=
  if_pos rfl

variable {m : FileNodeRow}

theorem moved_other (hid : m.id ≠ node.id) :
    moved node parentId name new m = { m with path := movedPath node new m } :=
  if_neg hid

theorem id_moved (m : FileNodeRow) : (moved node parentId name new m).id = m.id := by
  unfold moved
  split
  · rfl
  · rfl

theorem areaId_moved (m : FileNodeRow) : (moved node parentId name new m).areaId = m.areaId := by
  unfold moved
  split
  · rfl
  · rfl

theorem movedPath_of_not_below (h : ¬ Below '/' node.path m.path) :
    movedPath node new m = m.path := by
  unfold movedPath
  split
  · exact rebase_of_not_below h
  · rfl

/-- The new place is outside of the old one. -/
structure Movable (db : Db) (node : FileNodeRow) (parentId : Option Int) (name new : List Char) :
    Prop where
  hmem : node ∈ db.nodes.rows
  hname : name ≠ [] ∧ '/' ∉ name
  hseat : Seat db.nodes.rows node.areaId name parentId new
  hfree : FilesRepo.nodeByPath db node.areaId new = none
  hout : ¬ Below '/' node.path new

theorem Tree.not_below_free (h : Tree db) {areaId : Int}
    (hfree : FilesRepo.nodeByPath db areaId new = none) (hm : m ∈ db.nodes.rows)
    (harea : m.areaId = areaId) : ¬ Below '/' new m.path := by
  intro hbelow
  rcases h.folder_of_below hm hbelow with ⟨folder, hfolder, hfarea, -, hpath⟩
  exact nodeByPath_eq_none_iff.mp hfree folder hfolder (hfarea.trans harea) hpath

theorem Movable.folder_stays (h : Movable db node parentId name new) {folder : FileNodeRow}
    (hfolder : folder ∈ db.nodes.rows) (hpath : new = folder.path ++ '/' :: name) :
    moved node parentId name new folder = folder := by
  have hout := h.hout
  rw [hpath, below_child_iff h.hname.right, not_or] at hout
  have hid : folder.id ≠ node.id := by
    intro heq
    exact hout.left (by rw [eq_of_id hfolder h.hmem heq])
  rw [moved_other hid, movedPath_of_not_below hout.right]

section

variable (h : Tree db) (hmove : Movable db node parentId name new) (hm : m ∈ db.nodes.rows)
include h hmove hm

theorem Tree.seat_moved :
    Seat (db.nodes.rows.map (moved node parentId name new)) m.areaId m.name m.parentId
      (movedPath node new m) := by
  have hname := (h.named m hm).right
  have hseat := h.seated m hm
  generalize hpid : m.parentId = pid at hseat
  generalize hpath : m.path = path at hseat
  cases hseat with
  | root =>
      rw [movedPath_of_not_below (hpath ▸ not_below_name hname), hpath]
      exact .root
  | inside folder hfolder harea hkind =>
      have hin := mem_map_of_mem (f := moved node parentId name new) hfolder
      have hplace : movedPath node new m = (moved node parentId name new folder).path ++
          '/' :: m.name := by
        unfold movedPath
        rw [hpath]
        by_cases hself : folder.id = node.id
        · have hsame := eq_of_id hfolder hmove.hmem hself
          rw [hsame, moved_self, if_pos (by rw [← harea, hsame])]
          exact rebase_below node.path new m.name
        · rw [moved_other hself]
          unfold movedPath
          rw [harea]
          split
          · rename_i hsamearea
            apply rebase_child hname
            intro heq
            exact hself (by rw [h.apart folder node hfolder hmove.hmem (harea.trans hsamearea)
              heq.symm])
          · rfl
      have hkept : (moved node parentId name new folder).kind = .kindFolder := by
        unfold moved
        split
        · exact hkind
        · exact hkind
      have hseat := @Seat.inside _ _ m.name (moved node parentId name new folder) hin
        ((areaId_moved folder).trans harea) hkept
      rw [hplace]
      rw [id_moved] at hseat
      exact hseat

theorem Tree.apart_moved {m' : FileNodeRow} (hm' : m' ∈ db.nodes.rows)
    (harea : m.areaId = m'.areaId)
    (hpath : (moved node parentId name new m).path = (moved node parentId name new m').path) :
    m = m' := by
  have hself : forall r, r ∈ db.nodes.rows -> r.areaId = node.areaId ->
      movedPath node new r ≠ new := by
    intro r hr hrarea heq
    by_cases hbelow : Below '/' node.path r.path
    · have hnew := @below_rebase _ '/' _ node.path new _ hbelow
      unfold movedPath at heq
      rw [if_pos hrarea] at heq
      rw [heq] at hnew
      exact not_below_self new hnew
    · rw [movedPath_of_not_below hbelow] at heq
      exact nodeByPath_eq_none_iff.mp hmove.hfree r hr hrarea heq
  by_cases hid : m.id = node.id
  · have hsame := eq_of_id hm hmove.hmem hid
    subst hsame
    by_cases hid' : m'.id = m.id
    · exact (eq_of_id hm' hm hid').symm
    · rw [moved_self, moved_other hid'] at hpath
      exact absurd hpath.symm (hself m' hm' harea.symm)
  · by_cases hid' : m'.id = node.id
    · have hsame := eq_of_id hm' hmove.hmem hid'
      subst hsame
      rw [moved_self, moved_other hid] at hpath
      exact absurd hpath (hself m hm harea)
    · rw [moved_other hid, moved_other hid'] at hpath
      unfold movedPath at hpath
      simp only at hpath
      rw [← harea] at hpath
      split at hpath
      · rename_i hin
        have hnot : forall r, r ∈ db.nodes.rows -> r.areaId = node.areaId ->
            ¬ Below '/' new r.path := fun r hr hrarea => h.not_below_free hmove.hfree hr hrarea
        by_cases hbelow : Below '/' node.path m.path
        · by_cases hbelow' : Below '/' node.path m'.path
          · exact h.apart m m' hm hm' harea (rebase_inj_of_below hbelow hbelow' hpath)
          · have hnew := @below_rebase _ '/' _ node.path new _ hbelow
            rw [hpath, rebase_of_not_below hbelow'] at hnew
            exact absurd hnew (hnot m' hm' (harea.symm.trans hin))
        · by_cases hbelow' : Below '/' node.path m'.path
          · have hnew := @below_rebase _ '/' _ node.path new _ hbelow'
            rw [← hpath, rebase_of_not_below hbelow] at hnew
            exact absurd hnew (hnot m hm hin)
          · rw [rebase_of_not_below hbelow, rebase_of_not_below hbelow'] at hpath
            exact h.apart m m' hm hm' harea hpath
      · exact h.apart m m' hm hm' harea hpath

end

theorem Tree.moved (h : Tree db) (hmove : Movable db node parentId name new)
    {nodes : Table FileNodeRow.id}
    (hrows : nodes.rows = db.nodes.rows.map (moved node parentId name new)) :
    Tree { db with nodes := nodes } := by
  constructor
  · intro n hn
    show Seat nodes.rows _ _ _ _
    rw [hrows]
    rcases mem_map.mp (hrows ▸ hn) with ⟨m, hm, rfl⟩
    by_cases hid : m.id = node.id
    · rw [eq_of_id hm hmove.hmem hid, moved_self]
      show Seat _ node.areaId name parentId new
      have hseat := hmove.hseat
      cases hseat with
      | root => exact .root
      | inside folder hfolder harea hkind =>
          have hin := mem_map_of_mem (f := Files.moved node (some folder.id) name
            (folder.path ++ '/' :: name)) hfolder
          rw [hmove.folder_stays hfolder rfl] at hin
          exact .inside folder hin harea hkind
    · rw [moved_other hid]
      exact h.seat_moved hmove hm
  · intro n hn
    rcases mem_map.mp (hrows ▸ hn) with ⟨m, hm, rfl⟩
    unfold Files.moved
    split
    · exact hmove.hname
    · exact h.named m hm
  · intro n m hn hm harea hpath
    rcases mem_map.mp (hrows ▸ hn) with ⟨r, hr, rfl⟩
    rcases mem_map.mp (hrows ▸ hm) with ⟨r', hr', rfl⟩
    rw [areaId_moved, areaId_moved] at harea
    rw [h.apart_moved hmove hr hr' harea hpath]
  · intro n hn
    rcases mem_map.mp (hrows ▸ hn) with ⟨m, hm, rfl⟩
    rw [id_moved]
    exact h.numbered m hm

def ownMoved (node : FileNodeRow) (parentId : Option Int) (name new : List Char)
    (m : FileNodeRow) : FileNodeRow :=
  if m.id = node.id then { m with parentId := parentId, name := name, path := new } else m

theorem FilesRepo.find?_own (hnode : node ∈ db.nodes.rows) :
    db.nodes.rows.find? (fun row => decide (row.id = node.id ∧ row.areaId = node.areaId)) =
      some node := by
  cases hfound : db.nodes.rows.find?
      (fun row => decide (row.id = node.id ∧ row.areaId = node.areaId)) with
  | none =>
      have hnot := find?_eq_none.mp hfound node hnode
      simp at hnot
  | some other =>
      have hid := of_decide_eq_true (find?_some (p := fun row : FileNodeRow =>
        decide (row.id = node.id ∧ row.areaId = node.areaId)) hfound)
      rw [eq_of_id (mem_of_find?_eq_some hfound) hnode hid.left]

theorem FilesRepo.setOwn_ok (hseat : Seat db.nodes.rows node.areaId name parentId new)
    (hfree : forall m, m ∈ db.nodes.rows -> m.id ≠ node.id -> m.areaId = node.areaId ->
      m.path ≠ new) :
    exists nodes, FilesRepo.setOwn db node parentId name new = .ok nodes ∧
      nodes.rows = db.nodes.rows.map (ownMoved node parentId name new) := by
  have hparent : parentId.all (fun id => (FilesRepo.nodeById db id).isSome) = true := by
    cases hseat with
    | root => rfl
    | inside folder hfolder harea hkind =>
        have hthere := nodeById_eq_some_iff.mpr ⟨hfolder, rfl⟩
        show (FilesRepo.nodeById db folder.id).isSome = true
        rw [hthere]
        rfl
  have hset := @FilesRepo.setPath_ok db.nodes node new hfree
  unfold FilesRepo.setOwn
  rw [if_pos hparent, hset]
  refine ⟨_, rfl, ?_⟩
  show List.map _ (List.map _ db.nodes.rows) = _
  rw [map_map]
  apply map_congr_left
  intro m _
  unfold ownMoved
  by_cases hid : m.id = node.id
  · simp [hid]
  · simp [hid]

theorem Movable.setOwn (h : Movable db node parentId name new) :
    exists nodes, FilesRepo.setOwn db node parentId name new = .ok nodes ∧
      nodes.rows = db.nodes.rows.map (ownMoved node parentId name new) := by
  have hfree := nodeByPath_eq_none_iff.mp h.hfree
  exact setOwn_ok h.hseat (fun m hm _ harea => hfree m hm harea)

theorem Movable.below_iff (h : Movable db node parentId name new) (hplain : Plain db node)
    (hm : m ∈ db.nodes.rows.map (ownMoved node parentId name new)) :
    (m.areaId = node.areaId ∧
        substrLeft m.path (node.path ++ ['/']).length = node.path ++ ['/']) <->
      m ∈ db.nodes.rows ∧ m.id ≠ node.id ∧ m.areaId = node.areaId ∧ Below '/' node.path m.path := by
  rcases mem_map.mp hm with ⟨old, hold, rfl⟩
  unfold ownMoved
  by_cases hid : old.id = node.id
  · rw [if_pos hid]
    have hsubstr := @substrLeft_iff node.path new (fun hbelow => absurd hbelow h.hout)
    constructor
    · intro hboth
      exact absurd (hsubstr.mp hboth.right) h.hout
    · intro hall
      exact absurd hid hall.right.left
  · rw [if_neg hid]
    constructor
    · rintro ⟨harea, heq⟩
      have hbelow := (substrLeft_iff (fun hbelow => hplain old hold harea hbelow)).mp heq
      exact ⟨hold, hid, harea, hbelow⟩
    · rintro ⟨-, -, harea, hbelow⟩
      exact ⟨harea, (substrLeft_iff (fun hbelow => hplain old hold harea hbelow)).mpr hbelow⟩

/-- Where the paths below are plain, both statements go through and every row is moved. -/
theorem Tree.relocateNode (h : Tree db) (hmove : Movable db node parentId name new)
    (hplain : Plain db node) :
    exists nodes, FilesRepo.relocateNode db node.id node.areaId parentId name node.path new =
        ({ db with nodes := nodes }, .ok true) ∧
      nodes.rows = db.nodes.rows.map (Files.moved node parentId name new) := by
  have hfind := find?_own hmove.hmem
  rcases hmove.setOwn with ⟨own, hown, hrows⟩
  let todo := own.rows.filter (fun row => decide (row.areaId = node.areaId ∧
    substrLeft row.path (node.path ++ ['/']).length = node.path ++ ['/']))
  let change := fun row : FileNodeRow =>
    new ++ ['/'] ++ substrFrom row.path ((node.path ++ ['/']).length + 1)
  have htodo : forall n, n ∈ own.rows -> (n ∈ todo <-> n ∈ db.nodes.rows ∧ n.id ≠ node.id ∧
      n.areaId = node.areaId ∧ Below '/' node.path n.path) := by
    intro n hn
    rw [mem_filter, decide_eq_true_iff, and_iff_right hn]
    exact hmove.below_iff hplain (hrows ▸ hn)
  have hchange : forall n, n ∈ todo -> change n = rebase '/' node.path new n.path := by
    intro n hn
    rcases (htodo n (mem_of_mem_filter hn)).mp hn with ⟨hmem, -, harea, hbelow⟩
    exact substrFrom_eq new hbelow (hplain n hmem harea hbelow)
  rcases setPaths_ok change todo own (own.nodup.sublist (filter_sublist.map _))
    (fun n hn => mem_of_mem_filter hn) (by
      intro n hn m hm harea heq
      rcases (htodo n (mem_of_mem_filter hn)).mp hn with ⟨hmem, -, hnarea, hbelow⟩
      have hnew := @below_rebase _ '/' _ node.path new _ hbelow
      rw [← hchange n hn, ← heq] at hnew
      rcases mem_map.mp (hrows ▸ hm) with ⟨old, hold, rfl⟩
      unfold ownMoved at hnew harea
      split at hnew
      · exact not_below_self new hnew
      · rename_i hid
        rw [if_neg hid] at harea
        exact h.not_below_free hmove.hfree hold (harea.trans hnarea) hnew) (by
      intro n m hn hm harea heq
      rcases (htodo n (mem_of_mem_filter hn)).mp hn with ⟨hmem, -, -, hbelow⟩
      rcases (htodo m (mem_of_mem_filter hm)).mp hm with ⟨hmem', -, -, hbelow'⟩
      rw [hchange n hn, hchange m hm] at heq
      exact h.apart n m hmem hmem' harea (rebase_inj_of_below hbelow hbelow' heq))
    with ⟨nodes, hset, hfinal⟩
  refine ⟨nodes, ?_, ?_⟩
  · unfold FilesRepo.relocateNode FilesRepo.setBelow
    rw [hfind]
    simp only [hown]
    rw [hset]
  · rw [hfinal, hrows, map_map]
    apply map_congr_left
    intro m hm
    have hin : ownMoved node parentId name new m ∈ own.rows := by
      rw [hrows]
      exact mem_map_of_mem hm
    have hiff := htodo _ hin
    show (if ownMoved node parentId name new m ∈ todo then _ else _) = _
    by_cases hid : m.id = node.id
    · rw [if_neg]
      · unfold ownMoved Files.moved
        rw [if_pos hid, if_pos hid]
      · intro hmem
        have hne := (hiff.mp hmem).right.left
        unfold ownMoved at hne
        rw [if_pos hid] at hne
        exact hne hid
    · have hsame : ownMoved node parentId name new m = m := if_neg hid
      rw [hsame] at hiff hin ⊢
      rw [moved_other hid]
      split
      · rename_i hmem
        rw [hchange m hmem]
        unfold movedPath
        rw [if_pos (hiff.mp hmem).right.right.left]
      · rename_i hnot
        unfold movedPath
        split
        · rename_i harea
          rw [rebase_of_not_below]
          intro hbelow
          exact hnot (hiff.mpr ⟨hm, hid, harea, hbelow⟩)
        · rfl

end Moved

end Rabbithole.Files
