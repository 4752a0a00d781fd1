import Rabbithole.Files.Hidden
import Rabbithole.Files.Relocation

/-!
# Calls one after another

A call adds a seated node, moves one to a seat outside of itself, takes one away with all
that hangs on it, or leaves the tables as they are.
-/

namespace Rabbithole.Files

open Foundation Foundation.Paths FilesRepo

theorem cleanName_ok {name name' : List Char} (h : cleanName name = .ok name') :
    name' ≠ [] ∧ '/' ∉ name' := by
  unfold cleanName at h
  simp only at h
  split at h
  · cases h
  · rename_i hnot
    cases h
    rw [not_or, not_or, not_or] at hnot
    exact ⟨hnot.left, hnot.right.right.left⟩

namespace FileService

variable {db : Db}

theorem resolveParent_seat {row : FileAreaRow} {folder : Option (List Char)}
    {parentId : Option Int} (hok : resolveParent db row folder = .ok parentId)
    (name : List Char) : Seat db.nodes.rows row.id name parentId (childPath folder name) := by
  unfold resolveParent at hok
  cases folder with
  | none =>
      cases hok
      exact .root
  | some p =>
      simp only at hok
      unfold childPath
      simp only
      split at hok
      · rename_i hempty
        cases hok
        rw [if_pos hempty]
        exact .root
      · rename_i hempty
        rw [if_neg hempty]
        cases hfound : FilesRepo.nodeByPath db row.id p with
        | none =>
            rw [hfound] at hok
            cases hok
        | some node =>
            rw [hfound] at hok
            simp only at hok
            split at hok
            · rename_i hkind
              cases hok
              rcases mem_of_nodeByPath hfound with ⟨hmem, harea, rfl⟩
              exact .inside node hmem harea hkind
            · cases hok

theorem newPlace_seat {row : FileAreaRow} {parentPath : Option (List Char)}
    {name path : List Char} {parentId : Option Int}
    (hok : newPlace db row parentPath name = .ok (parentId, path)) :
    Seat db.nodes.rows row.id name parentId path := by
  unfold newPlace at hok
  cases hparent : resolveParent db row parentPath with
  | error e =>
      rw [hparent] at hok
      cases hok
  | ok pid =>
      rw [hparent] at hok
      simp only at hok
      split at hok
      · cases hok
      · cases hok
        exact resolveParent_seat hparent name

end FileService

/-!
## New nodes
-/

variable {db : Db} {nodes : Table FileNodeRow.id}

theorem FilesRepo.insertNode_keeps (h : Tree db) {row : Int -> FileNodeRow}
    (hid : forall id, (row id).id = id)
    (hname : forall id, (row id).name ≠ [] ∧ '/' ∉ (row id).name)
    (hseat : forall id, Seat db.nodes.rows (row id).areaId (row id).name (row id).parentId
      (row id).path) : Tree (FilesRepo.insertNode db row).fst := by
  unfold FilesRepo.insertNode
  simp only
  split
  · exact h
  · rename_i hfree
    split
    · exact h.insert (hid _) (hname _) (hseat _) (by simpa using hfree)
    · exact h

theorem FilesRepo.insertNode_failed {row : Int -> FileNodeRow} {e : StoreError}
    (h : (FilesRepo.insertNode db row).snd = .error e) :
    (FilesRepo.insertNode db row).fst = db := by
  unfold FilesRepo.insertNode at h ⊢
  simp only at h ⊢
  split
  · rfl
  · split
    · rename_i hfree hrefers
      rw [if_neg hfree, if_pos hrefers] at h
      cases h
    · rfl

theorem FilesRepo.isTarget_seat (h : Tree db) {areaId : Int} {parentId : Option Int}
    {areaSlug : List Char} {parentPath : Option (List Char)}
    (hne : forall p, parentPath = some p -> p ≠ [])
    (htarget : FilesRepo.isTarget db areaId parentId areaSlug (parentPath.getD []) = true)
    (name : List Char) : Seat db.nodes.rows areaId name parentId (childPath parentPath name) := by
  unfold FilesRepo.isTarget at htarget
  rw [Bool.and_eq_true, Bool.or_eq_true, decide_eq_true_iff] at htarget
  rcases htarget with ⟨-, ⟨rfl, hroot⟩ | hfolder⟩
  · cases parentPath with
    | none => exact .root
    | some p => exact absurd hroot (hne p rfl)
  · rcases List.any_eq_true.mp hfolder with ⟨node, hmem, hdec⟩
    rcases of_decide_eq_true hdec with ⟨rfl, harea, hkind, hpath⟩
    cases parentPath with
    | none => exact absurd hpath (h.path_ne_nil hmem)
    | some p =>
        unfold childPath
        simp only
        rw [if_neg (hne p rfl), show p = node.path from hpath.symm]
        exact .inside node hmem harea hkind

theorem FilesRepo.createFileIfTarget_fst {db : Db} {areaId : Int} {parentId : Option Int}
    {areaSlug parentPath name path : List Char} {content : FileContent} :
    (FilesRepo.createFileIfTarget db areaId parentId areaSlug parentPath name path content).fst =
        db ∨
      FilesRepo.isTarget db areaId parentId areaSlug parentPath = true ∧
        (FilesRepo.createFileIfTarget db areaId parentId areaSlug parentPath name path
            content).fst =
          (FilesRepo.insertNode db (FilesRepo.fileRow areaId parentId name path content)).fst ∧
        exists id, (FilesRepo.createFileIfTarget db areaId parentId areaSlug parentPath name path
          content).snd = .ok (some id) := by
  unfold FilesRepo.createFileIfTarget
  split
  · rename_i htarget
    rcases hinsert : FilesRepo.insertNode db
      (FilesRepo.fileRow areaId parentId name path content) with ⟨db', node | e⟩
    · cases node with
      | unique | foreignKey => exact Or.inl rfl
    · exact Or.inr ⟨htarget, rfl, _, rfl⟩
  · exact Or.inl rfl

/-!
## Moves
-/

theorem FilesRepo.ids_setPath {nodes' : Table FileNodeRow.id} {node : FileNodeRow}
    {path : List Char} (h : FilesRepo.setPath nodes node path = .ok nodes') :
    nodes'.rows.map FileNodeRow.id = nodes.rows.map FileNodeRow.id := by
  unfold FilesRepo.setPath at h
  split at h
  · cases h
  · cases h
    exact Table.keys_update _ _ _ _

theorem FilesRepo.ids_setPaths {change : FileNodeRow -> List Char} {todo : List FileNodeRow}
    {nodes' : Table FileNodeRow.id} (h : FilesRepo.setPaths change nodes todo = .ok nodes') :
    nodes'.rows.map FileNodeRow.id = nodes.rows.map FileNodeRow.id := by
  induction todo generalizing nodes with
  | nil =>
      cases h
      rfl
  | cons node rest ih =>
      unfold FilesRepo.setPaths at h
      cases hset : FilesRepo.setPath nodes node (change node) with
      | error e =>
          rw [hset] at h
          cases h
      | ok mid =>
          rw [hset] at h
          rw [ih h, ids_setPath hset]

theorem FilesRepo.ids_setOwn {node : FileNodeRow} {parentId : Option Int} {name newPath : List Char}
    (h : FilesRepo.setOwn db node parentId name newPath = .ok nodes) :
    nodes.rows.map FileNodeRow.id = db.nodes.rows.map FileNodeRow.id := by
  unfold FilesRepo.setOwn at h
  split at h
  · cases hset : FilesRepo.setPath db.nodes node newPath with
    | error e =>
        rw [hset] at h
        cases h
    | ok mid =>
        rw [hset] at h
        cases h
        rw [Table.keys_update, ids_setPath hset]
  · cases h

theorem FilesRepo.relocateNode_cases (db : Db) (id areaId : Int) (parentId : Option Int)
    (name oldPath newPath : List Char) :
    (FilesRepo.relocateNode db id areaId parentId name oldPath newPath).fst = db ∨
      exists moved, (FilesRepo.relocateNode db id areaId parentId name oldPath newPath).snd =
          .ok moved ∧
        (FilesRepo.relocateNode db id areaId parentId name oldPath newPath).fst.nodes.rows.map
          FileNodeRow.id = db.nodes.rows.map FileNodeRow.id := by
  unfold FilesRepo.relocateNode
  split
  · exact Or.inl rfl
  · rename_i node _
    cases hown : FilesRepo.setOwn db node parentId name newPath with
    | error e => exact Or.inl rfl
    | ok own =>
        simp only
        cases hbelow : FilesRepo.setBelow own areaId oldPath newPath with
        | error e => exact Or.inl rfl
        | ok nodes =>
            right
            refine ⟨true, rfl, ?_⟩
            show nodes.rows.map FileNodeRow.id = _
            rw [ids_setPaths hbelow, ids_setOwn hown]

theorem FilesRepo.nodeById_isSome_iff {id : Int} :
    (FilesRepo.nodeById db id).isSome = true <-> id ∈ db.nodes.rows.map FileNodeRow.id := by
  rw [Option.isSome_iff_exists, List.mem_map]
  constructor
  · rintro ⟨n, hn⟩
    exact ⟨n, nodeById_eq_some_iff.mp hn⟩
  · rintro ⟨n, hn⟩
    exact ⟨n, nodeById_eq_some_iff.mpr hn⟩

namespace FileService

variable {db : Db}

theorem stored_fst {answer : Type} (out : Db × Except StoreError answer) :
    (stored out).fst = out.fst := by
  rcases out with ⟨db', e | a⟩
  · rfl
  · rfl

theorem stored_error {answer : Type} {out : Db × Except StoreError answer} {e : FileError}
    (h : (stored out).snd = .error e) : exists e', out.snd = .error e' := by
  rcases out with ⟨db', e' | a⟩
  · exact ⟨e', rfl⟩
  · cases h

theorem stored_ok {answer : Type} {out : Db × Except StoreError answer} {a : answer}
    (h : out.snd = .ok a) : (stored out).snd = .ok a := by
  rcases out with ⟨db', e | a'⟩
  · cases h
  · cases h
    rfl

theorem relocated_failed {node : FileNodeRow} (hnode : node ∈ db.nodes.rows)
    {parentId : Option Int} {name path : List Char} {e : FileError}
    (h : (relocated db node parentId name path).snd = .error e) :
    (relocated db node parentId name path).fst = db := by
  unfold relocated at h ⊢
  split
  · rfl
  · rename_i htaken
    rw [if_neg htaken] at h
    have hcases := relocateNode_cases db node.id node.areaId parentId name node.path path
    rcases hrun : FilesRepo.relocateNode db node.id node.areaId parentId name node.path path
      with ⟨db', e' | moved⟩
    · rw [hrun] at hcases
      rcases hcases with hsame | ⟨moved, hok, -⟩
      · exact hsame
      · cases hok
    · rw [hrun] at hcases h
      simp only [stored] at h ⊢
      rcases hcases with hsame | ⟨_, -, hids⟩
      · have hsame' : db' = db := hsame
        subst hsame'
        split
        · rfl
        · rfl
      · have hthere : (FilesRepo.nodeById db' node.id).isSome = true := by
          rw [nodeById_isSome_iff]
          have hids' : db'.nodes.rows.map FileNodeRow.id = db.nodes.rows.map FileNodeRow.id := hids
          rw [hids']
          exact List.mem_map_of_mem hnode
        rcases Option.isSome_iff_exists.mp hthere with ⟨found, hfound⟩
        rw [hfound] at h
        cases h

theorem relocated_keeps (h : Tree db) {node : FileNodeRow} (hnode : node ∈ db.nodes.rows)
    {parentId : Option Int} {name path : List Char} (hname : name ≠ [] ∧ '/' ∉ name)
    (hseat : Seat db.nodes.rows node.areaId name parentId path) (hout : ¬ Below '/' node.path path)
    (hplain : FilesRepo.nodeByPath db node.areaId path = none -> Plain db node) :
    Tree (relocated db node parentId name path).fst := by
  unfold relocated
  split
  · exact h
  · rename_i htaken
    have hfree : FilesRepo.nodeByPath db node.areaId path = none := by simpa using htaken
    have hmove : Movable db node parentId name path := ⟨hnode, hname, hseat, hfree, hout⟩
    rcases h.relocateNode hmove (hplain hfree) with ⟨nodes, hrun, hrows⟩
    have hmoved := h.moved hmove hrows
    rw [hrun]
    simp only [stored]
    split
    · exact hmoved
    · exact hmoved

end FileService

end Rabbithole.Files
