import Rabbithole.Files.Calls

/-!
# Paths derive from parents

Over every run, as long as nothing below a folder that is moved has a NUL in its path: the
database would cut such a path there, and the folder's name would be all that moves.
-/

namespace Rabbithole.Files

open Foundation Foundation.Paths FilesRepo FileService

/-- Behind a rename or a move that is carried out, what is below has plain paths. -/
def Call.Clean (db : Db) : Call -> Prop
  | .rename id name => forall node name', FilesRepo.nodeById db id = some node ->
      cleanName name = .ok name' -> node.name ≠ name' ->
      FilesRepo.nodeByPath db node.areaId (childPath (parentOf node.path) name') = none ->
      Plain db node
  | .moveTo id folder => forall node area parentId, FilesRepo.nodeById db id = some node ->
      FilesRepo.areaById db node.areaId = some area ->
      FileService.isIntoItself node (folder.filter (fun f => f ≠ [])) = false ->
      FileService.resolveParent db area (folder.filter (fun f => f ≠ [])) = .ok parentId ->
      parentId ≠ node.parentId ->
      FilesRepo.nodeByPath db node.areaId
        (childPath (folder.filter (fun f => f ≠ [])) node.name) = none ->
      Plain db node
  | _ => True

/-- What a run of such calls comes to. -/
inductive Run : Db -> Prop where
  | opened : Run Db.opened
  | call (db : Db) (c : Call) (h : Run db) (hclean : c.Clean db) : Run (c.run db).fst

namespace FileService

variable {db : Db}

section

variable (h : Tree db)
include h

theorem createArea_keeps (slug title description : List Char) :
    Tree (createArea db slug title description).fst := by
  unfold createArea
  split
  · exact h
  · split
    · exact h
    · split
      · exact h
      · rw [stored_fst]
        unfold FilesRepo.createArea
        split
        · exact h
        · exact ⟨h.seated, h.named, h.apart, h.numbered⟩

section

variable (areaSlug : List Char) (parentPath : Option (List Char))
include areaSlug parentPath

theorem mkdir_keeps (name : List Char) (isDropbox : Bool) :
    Tree (mkdir db areaSlug parentPath name isDropbox).fst := by
  unfold mkdir
  split
  · exact h
  · rename_i name' hname
    split
    · exact h
    · split
      · exact h
      · rename_i hplace
        rw [stored_fst]
        exact insertNode_keeps h (fun _ => rfl) (fun _ => cleanName_ok hname)
          (fun _ => newPlace_seat hplace)

theorem addFile_keeps (name : List Char) (content : FileContent) :
    Tree (addFile db areaSlug parentPath name content).fst := by
  unfold addFile
  split
  · exact h
  · rename_i name' hname
    split
    · exact h
    · split
      · exact h
      · rename_i hplace
        rw [stored_fst]
        exact insertNode_keeps h (fun _ => rfl) (fun _ => cleanName_ok hname)
          (fun _ => newPlace_seat hplace)

theorem addAlias_keeps (name targetPath : List Char) :
    Tree (addAlias db areaSlug parentPath name targetPath).fst := by
  unfold addAlias
  split
  · exact h
  · rename_i name' hname
    split
    · exact h
    · split
      · exact h
      · split
        · exact h
        · rename_i hplace
          rw [stored_fst]
          exact insertNode_keeps h (fun _ => rfl) (fun _ => cleanName_ok hname)
            (fun _ => newPlace_seat hplace)

theorem addFileIfTarget_keeps (expectedAreaId : Int) (expectedParentId : Option Int)
    (name : List Char) (content : FileContent) :
    Tree (addFileIfTarget db areaSlug parentPath expectedAreaId expectedParentId name
      content).fst := by
  unfold addFileIfTarget
  split
  · exact h
  · rename_i name' hname
    simp only
    rw [stored_fst]
    rcases @FilesRepo.createFileIfTarget_fst db expectedAreaId _ _ _ _ _ _ with
      hsame | ⟨htarget, hinsert, -⟩
    · rw [hsame]
      exact h
    · rw [hinsert]
      apply insertNode_keeps h (fun _ => rfl) (fun _ => cleanName_ok hname)
      intro id
      refine isTarget_seat h ?_ htarget name'
      intro p hp
      simpa using (Option.filter_eq_some_iff.mp hp).right

end

theorem delete_keeps (id : Int) : Tree (delete db id).fst := by
  have hdelete := h.deleteNode id
  unfold delete
  rw [← stored_fst] at hdelete
  split
  all_goals
    rename_i heq
    rw [heq] at hdelete
    exact hdelete

theorem rename_seat {node : FileNodeRow} (hnode : node ∈ db.nodes.rows) {name : List Char}
    (hname : '/' ∉ name) :
    Seat db.nodes.rows node.areaId name node.parentId (childPath (parentOf node.path) name) ∧
      ¬ Below '/' node.path (childPath (parentOf node.path) name) := by
  have hseat := h.seated node hnode
  have hold := (h.named node hnode).right
  generalize node.parentId = parentId at hseat ⊢
  generalize node.path = path at hseat ⊢
  unfold parentOf
  cases hseat with
  | root =>
      have hnone : rsplitOnce '/' node.name = none := by
        unfold rsplitOnce
        rw [splitOnce_eq_none.mpr (fun hin => hold (List.mem_reverse.mp hin))]
        rfl
      rw [hnone]
      exact ⟨.root, not_below_name hname⟩
  | inside folder hfolder harea hkind =>
      rw [rsplitOnce_append folder.path hold]
      simp only [Option.map_some, childPath]
      rw [if_neg (h.path_ne_nil hfolder)]
      refine ⟨.inside folder hfolder harea hkind, ?_⟩
      intro hbelow
      rcases (below_child_iff hname).mp hbelow with heq | hbelow'
      · have hlen := congrArg List.length heq
        rw [List.length_append, List.length_cons] at hlen
        omega
      · have hlen := hbelow'.length_lt
        rw [List.length_append, List.length_cons] at hlen
        omega

theorem rename_keeps (id : Int) (name : List Char) (hclean : (Call.rename id name).Clean db) :
    Tree (rename db id name).fst := by
  unfold rename
  split
  · exact h
  · rename_i name' hname
    split
    · exact h
    · rename_i node hnode
      split
      · exact h
      · rename_i hother
        have hmem := (nodeById_eq_some_iff.mp hnode).left
        have hgood := cleanName_ok hname
        rcases rename_seat h hmem hgood.right with ⟨hseat, hout⟩
        exact relocated_keeps h hmem hgood hseat hout (hclean node name' hnode hname hother)

theorem moveTo_outside {node : FileNodeRow} (hnode : node ∈ db.nodes.rows) {row : FileAreaRow}
    (hrow : row.id = node.areaId) {folder : Option (List Char)} {parentId : Option Int}
    (hinto : isIntoItself node folder = false) (hok : resolveParent db row folder = .ok parentId) :
    ¬ Below '/' node.path (childPath folder node.name) := by
  have hname := (h.named node hnode).right
  have hseat := resolveParent_seat hok node.name
  unfold resolveParent at hok
  cases folder with
  | none => exact not_below_name hname
  | some dest =>
      unfold childPath
      simp only at hok ⊢
      split
      · exact not_below_name hname
      · rename_i hne
        rw [if_neg hne] at hok
        cases hfound : FilesRepo.nodeByPath db row.id dest with
        | none =>
            rw [hfound] at hok
            cases hok
        | some target =>
            rw [hfound] at hok
            rcases mem_of_nodeByPath hfound with ⟨htarget, htarea, rfl⟩
            have hkind : target.kind = .kindFolder := by
              by_contra hnot
              simp only at hok
              rw [if_neg hnot] at hok
              cases hok
            -- whatever is below the node makes a folder of it
            have hfolder : node.path = target.path ∨ Below '/' node.path target.path ->
                node.kind = .kindFolder := by
              rintro (heq | hbelow)
              · rw [h.apart node target hnode htarget (hrow.symm.trans htarea.symm) heq]
                exact hkind
              · rcases h.folder_of_below htarget hbelow with ⟨top, htop, htoparea, htopkind, htoppath⟩
                rw [h.apart node top hnode htop
                  (hrow.symm.trans (htarea.symm.trans htoparea.symm)) htoppath.symm]
                exact htopkind
            intro hbelow
            have hwhere := (below_child_iff hname).mp hbelow
            unfold isIntoItself at hinto
            have hnot := of_decide_eq_false hinto
            apply hnot
            refine ⟨hfolder hwhere, ?_⟩
            rcases hwhere with heq | hbelow'
            · exact Or.inl heq.symm
            · exact Or.inr hbelow'

theorem moveTo_keeps (id : Int) (folder : Option (List Char))
    (hclean : (Call.moveTo id folder).Clean db) : Tree (moveTo db id folder).fst := by
  unfold moveTo
  split
  · exact h
  · rename_i node hnode
    split
    · exact h
    · rename_i row hrow
      simp only
      split
      · exact h
      · rename_i hinto
        rw [Bool.not_eq_true] at hinto
        split
        · exact h
        · rename_i parentId hparent
          split
          · exact h
          · rename_i hother
            have hmem := (nodeById_eq_some_iff.mp hnode).left
            have hid : row.id = node.areaId := Table.keyOf_of_find? hrow
            have hseat := resolveParent_seat hparent node.name
            rw [hid] at hseat
            exact relocated_keeps h hmem (h.named node hmem) hseat
              (moveTo_outside h hmem hid hinto hparent)
              (hclean node row parentId hnode hrow hinto hparent hother)

end

end FileService

theorem Call.keeps {db : Db} (h : Tree db) (c : Call) (hclean : c.Clean db) :
    Tree (c.run db).fst := by
  cases c with
  | createArea slug title description => exact createArea_keeps h slug title description
  | mkdir areaSlug parentPath name isDropbox =>
      exact mkdir_keeps h areaSlug parentPath name isDropbox
  | addFile areaSlug parentPath name content =>
      exact addFile_keeps h areaSlug parentPath name content
  | addFileIfTarget areaSlug parentPath expectedAreaId expectedParentId name content =>
      exact addFileIfTarget_keeps h areaSlug parentPath expectedAreaId expectedParentId
        name content
  | addAlias areaSlug parentPath name targetPath =>
      exact addAlias_keeps h areaSlug parentPath name targetPath
  | rename id name => exact rename_keeps h id name hclean
  | moveTo id folder => exact moveTo_keeps h id folder hclean
  | delete id => exact delete_keeps h id

theorem Run.tree {db : Db} (h : Run db) : Tree db := by
  induction h with
  | opened => exact Tree.opened
  | call db c _ hclean ih => exact Call.keeps ih c hclean

/-!
## Failures
-/

namespace FileService

variable {db : Db}

variable {e : FileError} {name areaSlug : List Char} {parentPath : Option (List Char)}

theorem createArea_failed {slug title description : List Char}
    (h : (createArea db slug title description).snd = .error e) :
    (createArea db slug title description).fst = db := by
  unfold createArea at h ⊢
  split
  · rfl
  · rename_i slug' hslug
    rw [hslug] at h
    simp only at h
    split
    · rfl
    · rename_i htitle
      rw [if_neg htitle] at h
      split
      · rfl
      · rename_i hnew
        rw [if_neg hnew] at h
        rcases stored_error h with ⟨e', he⟩
        rw [stored_fst]
        unfold FilesRepo.createArea at he ⊢
        simp only at he ⊢
        split
        · rfl
        · rename_i hfree
          rw [if_neg hfree] at he
          cases he

theorem mkdir_failed {isDropbox : Bool}
    (h : (mkdir db areaSlug parentPath name isDropbox).snd = .error e) :
    (mkdir db areaSlug parentPath name isDropbox).fst = db := by
  unfold mkdir at h ⊢
  split
  · rfl
  · rename_i name' hname
    rw [hname] at h
    split
    · rfl
    · rename_i row harea
      simp only [harea] at h
      split
      · rfl
      · rename_i hplace
        rw [hplace] at h
        rcases stored_error h with ⟨e', he⟩
        rw [stored_fst]
        exact insertNode_failed he

theorem addFile_failed {content : FileContent}
    (h : (addFile db areaSlug parentPath name content).snd = .error e) :
    (addFile db areaSlug parentPath name content).fst = db := by
  unfold addFile at h ⊢
  split
  · rfl
  · rename_i name' hname
    rw [hname] at h
    split
    · rfl
    · rename_i row harea
      simp only [harea] at h
      split
      · rfl
      · rename_i hplace
        rw [hplace] at h
        rcases stored_error h with ⟨e', he⟩
        rw [stored_fst]
        exact insertNode_failed he

theorem addAlias_failed {targetPath : List Char}
    (h : (addAlias db areaSlug parentPath name targetPath).snd = .error e) :
    (addAlias db areaSlug parentPath name targetPath).fst = db := by
  unfold addAlias at h ⊢
  split
  · rfl
  · rename_i name' hname
    rw [hname] at h
    split
    · rfl
    · rename_i row harea
      simp only [harea] at h
      split
      · rfl
      · rename_i target htarget
        simp only [htarget] at h
        split
        · rfl
        · rename_i hplace
          rw [hplace] at h
          rcases stored_error h with ⟨e', he⟩
          rw [stored_fst]
          exact insertNode_failed he

theorem addFileIfTarget_failed {expectedAreaId : Int} {expectedParentId : Option Int}
    {content : FileContent}
    (h : forall id, (addFileIfTarget db areaSlug parentPath expectedAreaId expectedParentId name
      content).snd ≠ .ok (some id)) :
    (addFileIfTarget db areaSlug parentPath expectedAreaId expectedParentId name
      content).fst = db := by
  unfold addFileIfTarget at h ⊢
  split
  · rfl
  · rename_i name' hname
    rw [hname] at h
    simp only at h ⊢
    rw [stored_fst]
    rcases @FilesRepo.createFileIfTarget_fst db expectedAreaId expectedParentId _ _ _ _ _ with hsame | ⟨-, -, id, hid⟩
    · exact hsame
    · exfalso
      exact h id (stored_ok hid)

theorem delete_failed {id : Int} (h : (delete db id).snd = .error e) : (delete db id).fst = db := by
  unfold delete FilesRepo.deleteNode at h ⊢
  by_cases hthere : (FilesRepo.nodeById db id).isSome = true
  · rw [if_pos hthere] at h
    cases h
  · rw [if_neg hthere]
    rfl

theorem rename_failed {id : Int} (h : (rename db id name).snd = .error e) :
    (rename db id name).fst = db := by
  unfold rename at h ⊢
  split
  · rfl
  · rename_i name' hname
    rw [hname] at h
    split
    · rfl
    · rename_i node hnode
      simp only [hnode] at h
      split
      · rfl
      · rename_i hother
        rw [if_neg hother] at h
        exact relocated_failed (nodeById_eq_some_iff.mp hnode).left h

theorem moveTo_failed {id : Int} {folder : Option (List Char)}
    (h : (moveTo db id folder).snd = .error e) : (moveTo db id folder).fst = db := by
  unfold moveTo at h ⊢
  split
  · rfl
  · rename_i node hnode
    rw [hnode] at h
    split
    · rfl
    · rename_i row hrow
      simp only [hrow] at h ⊢
      split
      · rfl
      · rename_i hinto
        rw [if_neg hinto] at h
        split
        · rfl
        · rename_i parentId hparent
          simp only [hparent] at h
          split
          · rfl
          · rename_i hother
            rw [if_neg hother] at h
            exact relocated_failed (nodeById_eq_some_iff.mp hnode).left h

end FileService

theorem answered_error {answer : Type} {wrap : answer -> Answer}
    {out : Db × Except FileError answer} (h : Answer.Failed (answered wrap out).snd)
    (hwrap : forall a, ¬ Answer.Failed (.ok (wrap a))) : exists e, out.snd = .error e := by
  rcases out with ⟨db', e | a⟩
  · exact ⟨e, rfl⟩
  · exact absurd h (hwrap a)

theorem Call.failed {db : Db} (c : Call) (h : Answer.Failed (c.run db).snd) :
    (c.run db).fst = db := by
  cases c with
  | createArea slug title description =>
      rcases answered_error h (fun _ hfailed => hfailed) with ⟨e, he⟩
      exact createArea_failed he
  | mkdir areaSlug parentPath name isDropbox =>
      rcases answered_error h (fun _ hfailed => hfailed) with ⟨e, he⟩
      exact mkdir_failed he
  | addFile areaSlug parentPath name content =>
      rcases answered_error h (fun _ hfailed => hfailed) with ⟨e, he⟩
      exact addFile_failed he
  | addFileIfTarget areaSlug parentPath expectedAreaId expectedParentId name content =>
      apply addFileIfTarget_failed
      intro id hid
      unfold Call.run answered at h
      simp only [hid, Except.map] at h
      exact h
  | addAlias areaSlug parentPath name targetPath =>
      rcases answered_error h (fun _ hfailed => hfailed) with ⟨e, he⟩
      exact addAlias_failed he
  | rename id name =>
      rcases answered_error h (fun _ hfailed => hfailed) with ⟨e, he⟩
      exact rename_failed he
  | moveTo id folder =>
      rcases answered_error h (fun _ hfailed => hfailed) with ⟨e, he⟩
      exact moveTo_failed he
  | delete id =>
      rcases answered_error h (fun _ hfailed => hfailed) with ⟨e, he⟩
      exact delete_failed he

/-- In every run that cuts no path: each node sits at a root or in a folder of its area and
its path says so, the parents come to a root, paths are apart, failures change nothing, and the
manifest of an area is the files no drop box is above of. -/
theorem paths_derive_from_parents {db : Db} (h : Run db) :
    (forall n, n ∈ db.nodes.rows ->
      Seat db.nodes.rows n.areaId n.name n.parentId n.path) ∧
    (forall n, n ∈ db.nodes.rows -> exists above, Climb db.nodes.rows n.parentId above) ∧
    (forall n m, n ∈ db.nodes.rows -> m ∈ db.nodes.rows -> n.areaId = m.areaId ->
      n.path = m.path -> n = m) ∧
    (forall c : Call, Answer.Failed (c.run db).snd -> (c.run db).fst = db) ∧
    forall slug row fuel, FileService.area db slug = .ok row ->
      db.nodes.rows.length + 1 < fuel ->
      exists out, FileService.manifest db fuel slug none = some (.ok out) ∧
        (out.map Prod.fst).Perm (FileService.shown db row.id) := by
  have htree := h.tree
  refine ⟨htree.seated, ?_, htree.apart, fun c hfailed => c.failed hfailed, ?_⟩
  · intro n hn
    rcases htree.climbs hn with ⟨above, hclimb, -, -⟩
    exact ⟨above, hclimb⟩
  · intro slug row fuel harea hfuel
    exact manifest_shown htree harea hfuel

def runAll (calls : List Call) : Db :=
  calls.foldl (fun db c => (c.run db).fst) Db.opened

/-- Nothing in particular. -/
def anyContent : FileContent where
  blobId := []
  size := 0
  mime := []
  icon := []
  comment := []
  uploader := []
  uploaderId := 0

def renamed (folder : List Char) : List Call :=
  [.createArea ['a'] ['A'] [], .mkdir ['a'] none folder false,
    .addFile ['a'] (some folder) ['f'] anyContent, .rename 1 ['z']]

theorem paths_derive_from_parents_renamed :
    (runAll (renamed ['x'])).nodes.rows.map FileNodeRow.path = [['z'], ['z', '/', 'f']] ∧
    forall n, n ∈ (runAll (renamed ['x'])).nodes.rows ->
      Seat (runAll (renamed ['x'])).nodes.rows n.areaId n.name n.parentId n.path := by
  refine ⟨by decide, ?_⟩
  refine (@paths_derive_from_parents (runAll (renamed ['x'])) ?_).left
  refine .call _ (.rename 1 ['z']) (.call _ (.addFile ['a'] (some ['x']) ['f'] anyContent)
    (.call _ (.mkdir ['a'] none ['x'] false) (.call _ (.createArea ['a'] ['A'] []) .opened trivial)
      trivial) trivial) ?_
  have hplain : forall m, m ∈ (runAll ((renamed ['x']).take 3)).nodes.rows ->
      Char.ofNat 0 ∉ m.path := by
    decide
  intro node name' _ _ _ _ m hm _ _
  exact hplain m hm

/-- The database reads a folder's name up to a NUL: renamed, it leaves its files behind. -/
theorem not_paths_derive_from_parents :
    ¬ forall calls n folder, n ∈ (runAll calls).nodes.rows -> folder ∈ (runAll calls).nodes.rows ->
      n.parentId = some folder.id -> n.path = folder.path ++ '/' :: n.name := by
  intro h
  have hbroken : exists n, n ∈ (runAll (renamed ['x', Char.ofNat 0, 'y'])).nodes.rows ∧
      exists folder, folder ∈ (runAll (renamed ['x', Char.ofNat 0, 'y'])).nodes.rows ∧
        n.parentId = some folder.id ∧ n.path ≠ folder.path ++ '/' :: n.name := by
    decide
  rcases hbroken with ⟨n, hn, folder, hfolder, hparent, hpath⟩
  exact hpath (h _ n folder hn hfolder hparent)

end Rabbithole.Files
