import Mathlib.Data.List.Sort
import Rabbithole.Foundation.Table
import Rabbithole.Foundation.Text
import Rabbithole.Foundation.Utf8

/-!
# The file libraries' tables

Areas, and the tree of folders, files and aliases.  A statement that breaks a constraint is
undone; a transaction is undone whole.  The text functions of the database read a text up to
its first NUL, comparison of plain columns reads it whole.
-/

namespace Rabbithole.Files

open Foundation

def cText (s : List Char) : List Char :=
  s.takeWhile (fun c => c != Char.ofNat 0)

/-- `substr(s, start)`, counted from one. -/
def substrFrom (s : List Char) (start : Nat) : List Char :=
  (cText s).drop (start - 1)

/-- `substr(s, 1, len)`. -/
def substrLeft (s : List Char) (len : Nat) : List Char :=
  (cText s).take len

/-- The key of a `NOCASE` column. -/
def noCase (s : List Char) : Nat × List Char :=
  ((utf8 s).length, (cText s).map Char.toLower)

structure FileAreaRow where
  id : Int
  slug : List Char
  title : List Char
  description : List Char
deriving DecidableEq

inductive Kind where
  | kindFolder
  | kindFile
  | kindAlias
deriving DecidableEq

/-- What an upload says of a file. -/
structure FileContent where
  blobId : Bytes
  size : Int
  mime : List Char
  icon : List Char
  comment : List Char
  uploader : List Char
  uploaderId : Int
deriving DecidableEq

structure FileNodeRow where
  id : Int
  areaId : Int
  parentId : Option Int
  kind : Kind
  name : List Char
  /-- The virtual path within the area. -/
  path : List Char
  isDropbox : Bool
  content : Option FileContent
  targetId : Option Int
deriving DecidableEq

inductive StoreError where
  | unique
  | foreignKey
deriving DecidableEq

/-- The tables, and the last number each has given out. -/
structure Db where
  areas : Table FileAreaRow.id
  nodes : Table FileNodeRow.id
  lastArea : Int
  lastNode : Int

def Db.opened : Db where
  areas := Table.empty FileAreaRow.id
  nodes := Table.empty FileNodeRow.id
  lastArea := 0
  lastNode := 0

namespace FilesRepo

variable (db : Db)

/-!
## Areas
-/

def areaBySlug (slug : List Char) : Option FileAreaRow :=
  db.areas.rows.find? (fun area => decide (noCase area.slug = noCase slug))

def areaById (id : Int) : Option FileAreaRow :=
  db.areas.find? id

def createArea (slug title description : List Char) : Db × Except StoreError FileAreaRow :=
  let area : FileAreaRow :=
    { id := db.lastArea + 1, slug := slug, title := title, description := description }
  if (areaBySlug db slug).isSome then (db, .error .unique)
  else ({ db with areas := db.areas.insert area, lastArea := area.id }, .ok area)

/-!
## Nodes
-/

def nodeById (id : Int) : Option FileNodeRow :=
  db.nodes.find? id

def nodeByPath (areaId : Int) (path : List Char) : Option FileNodeRow :=
  db.nodes.rows.find? (fun node => decide (node.areaId = areaId ∧ node.path = path))

/-- What a row refers to is there. -/
def refersRight (node : FileNodeRow) : Bool :=
  (areaById db node.areaId).isSome &&
    node.parentId.all (fun id => (nodeById db id).isSome) &&
      node.targetId.all (fun id => (nodeById db id).isSome)

/-- A row goes in under the next number. -/
def insertNode (row : Int -> FileNodeRow) : Db × Except StoreError FileNodeRow :=
  let node := row (db.lastNode + 1)
  if (nodeByPath db node.areaId node.path).isSome then (db, .error .unique)
  else if refersRight db node then
    ({ db with nodes := db.nodes.insert node, lastNode := db.lastNode + 1 }, .ok node)
  else (db, .error .foreignKey)

def createFolder (areaId : Int) (parentId : Option Int) (name path : List Char)
    (isDropbox : Bool) : Db × Except StoreError FileNodeRow :=
  insertNode db (fun id => {
    id := id, areaId := areaId, parentId := parentId, kind := .kindFolder, name := name,
    path := path, isDropbox := isDropbox, content := none, targetId := none })

def fileRow (areaId : Int) (parentId : Option Int) (name path : List Char)
    (content : FileContent) (id : Int) : FileNodeRow where
  id := id
  areaId := areaId
  parentId := parentId
  kind := .kindFile
  name := name
  path := path
  isDropbox := false
  content := some content
  targetId := none

def createFile (areaId : Int) (parentId : Option Int) (name path : List Char)
    (content : FileContent) : Db × Except StoreError FileNodeRow :=
  insertNode db (fileRow areaId parentId name path content)

/-- The area and the folder of an upload are still what they were. -/
def isTarget (areaId : Int) (parentId : Option Int) (areaSlug parentPath : List Char) : Bool :=
  db.areas.rows.any (fun area =>
      decide (area.id = areaId ∧ noCase area.slug = noCase areaSlug)) &&
    (decide (parentId = none ∧ parentPath = []) ||
      db.nodes.rows.any (fun node => decide (some node.id = parentId ∧ node.areaId = areaId ∧
        node.kind = .kindFolder ∧ node.path = parentPath)))

def createFileIfTarget (areaId : Int) (parentId : Option Int) (areaSlug parentPath name : List Char)
    (path : List Char) (content : FileContent) : Db × Except StoreError (Option Int) :=
  if isTarget db areaId parentId areaSlug parentPath then
    match insertNode db (fileRow areaId parentId name path content) with
    | (db', .ok node) => (db', .ok (some node.id))
    -- the conflict on area and path does nothing
    | (_, .error .unique) => (db, .ok none)
    | (_, .error .foreignKey) => (db, .error .foreignKey)
  else (db, .ok none)

def createAlias (areaId : Int) (parentId : Option Int) (name path : List Char)
    (targetId : Int) : Db × Except StoreError FileNodeRow :=
  insertNode db (fun id => {
    id := id, areaId := areaId, parentId := parentId, kind := .kindAlias, name := name,
    path := path, isDropbox := false, content := none, targetId := some targetId })

/-- Folders first, each kind by name in any case. -/
def listedBefore (a b : FileNodeRow) : Bool :=
  if (a.kind = .kindFolder) = (b.kind = .kindFolder) then
    decide ((noCase a.name).snd <= (noCase b.name).snd)
  else decide (a.kind = .kindFolder)

def children (areaId : Int) (parentId : Option Int) : List FileNodeRow :=
  (db.nodes.rows.filter
    (fun node => decide (node.areaId = areaId ∧ node.parentId = parentId))).mergeSort listedBefore

/-!
## Deletion
-/

def hangsOn (gone : List Int) (node : FileNodeRow) : Bool :=
  node.parentId.any (fun id => decide (id ∈ gone)) ||
    node.targetId.any (fun id => decide (id ∈ gone))

def hanging (nodes : Table FileNodeRow.id) (gone : List Int) : List Int :=
  (nodes.rows.filter (hangsOn gone)).map FileNodeRow.id

/-- Rows that hang on deleted ones go with them, and so on. -/
def cascade (nodes : Table FileNodeRow.id) (gone : List Int) : Table FileNodeRow.id :=
  if nodes.rows.any (hangsOn gone) then
    cascade (nodes.delete (hangsOn gone)) (hanging nodes gone)
  else nodes
termination_by nodes.rows.length
decreasing_by
  rename_i h
  rcases List.any_eq_true.mp h with ⟨node, hmem, hhang⟩
  unfold Table.delete
  apply List.length_filter_lt_length_iff_exists.mpr
  exact ⟨node, hmem, by rw [hhang]; simp⟩

def deleteNode (id : Int) : Db × Except StoreError Bool :=
  if (nodeById db id).isSome then
    let nodes := db.nodes.delete (fun node => decide (node.id = id))
    ({ db with nodes := cascade nodes [id] }, .ok true)
  else (db, .ok false)

/-!
## Moving and renaming
-/

/-- A row's path is changed, unless another row of the area has the new one. -/
def setPath (nodes : Table FileNodeRow.id) (node : FileNodeRow) (path : List Char) :
    Except StoreError (Table FileNodeRow.id) :=
  if nodes.rows.any (fun other =>
      decide (other.id ≠ node.id ∧ other.areaId = node.areaId ∧ other.path = path)) then
    .error .unique
  else .ok (nodes.update node.id (fun row => { row with path := path }) (fun _ => rfl))

/-- The rows of a statement, one after the other. -/
def setPaths (change : FileNodeRow -> List Char) (nodes : Table FileNodeRow.id) :
    List FileNodeRow -> Except StoreError (Table FileNodeRow.id)
  | [] => .ok nodes
  | node :: rest =>
      match setPath nodes node (change node) with
      | .error e => .error e
      | .ok nodes' => setPaths change nodes' rest

/-- The first statement of the transaction: the node's own row. -/
def setOwn (node : FileNodeRow) (parentId : Option Int) (name newPath : List Char) :
    Except StoreError (Table FileNodeRow.id) :=
  if parentId.all (fun id => (nodeById db id).isSome) then
    match setPath db.nodes node newPath with
    | .error e => .error e
    | .ok nodes => .ok (nodes.update node.id
        (fun row => { row with parentId := parentId, name := name }) (fun _ => rfl))
  else .error .foreignKey

/-- The second: the paths of everything below it. -/
def setBelow (nodes : Table FileNodeRow.id) (areaId : Int) (oldPath newPath : List Char) :
    Except StoreError (Table FileNodeRow.id) :=
  let oldPrefix := oldPath ++ ['/']
  let newPrefix := newPath ++ ['/']
  let chars := oldPrefix.length
  setPaths (fun node => newPrefix ++ substrFrom node.path (chars + 1)) nodes
    (nodes.rows.filter
      (fun node => decide (node.areaId = areaId ∧ substrLeft node.path chars = oldPrefix)))

def relocateNode (id areaId : Int) (parentId : Option Int) (name oldPath newPath : List Char) :
    Db × Except StoreError Bool :=
  match db.nodes.rows.find? (fun node => decide (node.id = id ∧ node.areaId = areaId)) with
  | none => (db, .ok false)
  | some node =>
      match setOwn db node parentId name newPath with
      | .error e => (db, .error e)
      | .ok nodes =>
          match setBelow nodes areaId oldPath newPath with
          | .error e => (db, .error e)
          | .ok nodes' => ({ db with nodes := nodes' }, .ok true)

/-!
## Drop boxes
-/

/-- The rows above, each once. -/
def parentsOf (seen : List FileNodeRow) (parentId : Option Int) : List FileNodeRow :=
  match parentId with
  | none => seen
  | some id =>
      match _hfound : nodeById db id with
      | none => seen
      | some parent =>
          if parent ∈ seen then seen else parentsOf (parent :: seen) parent.parentId
termination_by (db.nodes.rows.filter (fun row => decide (row ∉ seen))).length
decreasing_by
  rename_i hseen
  have hmem := (Table.find?_eq_some_iff.mp _hfound).left
  have hsub : db.nodes.rows.filter (fun row => decide (row ∉ parent :: seen)) =
      (db.nodes.rows.filter (fun row => decide (row ∉ seen))).filter
        (fun row => decide (row ≠ parent)) := by
    rw [List.filter_filter]
    apply List.filter_congr
    intro row _
    by_cases hrow : row = parent
    · simp [hrow]
    · simp [hrow]
  rw [hsub]
  apply List.length_filter_lt_length_iff_exists.mpr
  refine ⟨parent, List.mem_filter.mpr ⟨hmem, by simp [hseen]⟩, by simp⟩

/-- Whether a folder above is a drop box; no answer for a missing row, or for rows that do not
come to a root. -/
def hasDropboxAncestor (id : Int) : Option Bool :=
  match nodeById db id with
  | none => none
  | some node =>
      let parents := parentsOf db [] node.parentId
      if node.parentId = none ∨ parents.any (fun row => decide (row.parentId = none)) then
        some (parents.any FileNodeRow.isDropbox)
      else none

end FilesRepo

/-!
# The file library service

It cleans names, derives a path from the path of the folder, and refuses what would break
the tree.
-/

inductive FileError where
  | noSuchArea
  | noSuchNode
  | notAFolder
  | alreadyExists
  | badName
  | intoItself
  | store (e : StoreError)
deriving DecidableEq

/-- One path component, without separators and not too long. -/
def cleanName (name : List Char) : Except FileError (List Char) :=
  let name := trimText name
  if name = [] ∨ 128 < (utf8 name).length ∨ '/' ∈ name ∨ name = ['.'] ∨ name = ['.', '.'] then
    .error .badName
  else .ok name

def parentOf (path : List Char) : Option (List Char) :=
  (rsplitOnce '/' path).map Prod.fst

def childPath (parentPath : Option (List Char)) (name : List Char) : List Char :=
  match parentPath with
  | some p => if p = [] then name else p ++ '/' :: name
  | none => name

namespace FileService

variable (db : Db)

/-- What the store says, as the service passes it on. -/
def stored {answer : Type} (out : Db × Except StoreError answer) : Db × Except FileError answer :=
  match out with
  | (db', .ok a) => (db', .ok a)
  | (db', .error e) => (db', .error (.store e))

def createArea (slug title description : List Char) : Db × Except FileError FileAreaRow :=
  match cleanName slug with
  | .error e => (db, .error e)
  | .ok slug =>
      if trimText title = [] then (db, .error .badName)
      else if (FilesRepo.areaBySlug db slug).isSome then (db, .error .alreadyExists)
      else stored (FilesRepo.createArea db slug title description)

def area (slug : List Char) : Except FileError FileAreaRow :=
  match FilesRepo.areaBySlug db slug with
  | none => .error .noSuchArea
  | some area => .ok area

/-- The folder at a path; the root for none, or for the empty one. -/
def resolveParent (area : FileAreaRow) (folderPath : Option (List Char)) :
    Except FileError (Option Int) :=
  match folderPath with
  | none => .ok none
  | some p =>
      if p = [] then .ok none
      else
        match FilesRepo.nodeByPath db area.id p with
        | none => .error .noSuchNode
        | some node => if node.kind = .kindFolder then .ok (some node.id) else .error .notAFolder

/-- Where a new node goes: the folder, and a path that is free. -/
def newPlace (area : FileAreaRow) (parentPath : Option (List Char)) (name : List Char) :
    Except FileError (Option Int × List Char) :=
  match resolveParent db area parentPath with
  | .error e => .error e
  | .ok parentId =>
      let path := childPath parentPath name
      if (FilesRepo.nodeByPath db area.id path).isSome then .error .alreadyExists
      else .ok (parentId, path)

def mkdir (areaSlug : List Char) (parentPath : Option (List Char)) (name : List Char)
    (isDropbox : Bool) : Db × Except FileError FileNodeRow :=
  match cleanName name with
  | .error e => (db, .error e)
  | .ok name =>
      match area db areaSlug with
      | .error e => (db, .error e)
      | .ok area =>
          match newPlace db area parentPath name with
          | .error e => (db, .error e)
          | .ok (parentId, path) =>
              stored (FilesRepo.createFolder db area.id parentId name path isDropbox)

def addFile (areaSlug : List Char) (parentPath : Option (List Char)) (name : List Char)
    (content : FileContent) : Db × Except FileError FileNodeRow :=
  match cleanName name with
  | .error e => (db, .error e)
  | .ok name =>
      match area db areaSlug with
      | .error e => (db, .error e)
      | .ok area =>
          match newPlace db area parentPath name with
          | .error e => (db, .error e)
          | .ok (parentId, path) =>
              stored (FilesRepo.createFile db area.id parentId name path content)

/-- An upload is filed where it was offered, or nowhere. -/
def addFileIfTarget (areaSlug : List Char) (parentPath : Option (List Char))
    (expectedAreaId : Int) (expectedParentId : Option Int) (name : List Char)
    (content : FileContent) : Db × Except FileError (Option Int) :=
  match cleanName name with
  | .error e => (db, .error e)
  | .ok name =>
      let parentPath := parentPath.filter (fun path => path ≠ [])
      let path := childPath parentPath name
      stored (FilesRepo.createFileIfTarget db expectedAreaId expectedParentId areaSlug
        (parentPath.getD []) name path content)

def addAlias (areaSlug : List Char) (parentPath : Option (List Char)) (name : List Char)
    (targetPath : List Char) : Db × Except FileError FileNodeRow :=
  match cleanName name with
  | .error e => (db, .error e)
  | .ok name =>
      match area db areaSlug with
      | .error e => (db, .error e)
      | .ok area =>
          match FilesRepo.nodeByPath db area.id targetPath with
          | none => (db, .error .noSuchNode)
          | some target =>
              match newPlace db area parentPath name with
              | .error e => (db, .error e)
              | .ok (parentId, path) =>
                  stored (FilesRepo.createAlias db area.id parentId name path target.id)

def delete (id : Int) : Db × Except FileError Unit :=
  match stored (FilesRepo.deleteNode db id) with
  | (db', .error e) => (db', .error e)
  | (db', .ok false) => (db', .error .noSuchNode)
  | (db', .ok true) => (db', .ok ())

/-- The node is put at its new path, and read again. -/
def relocated (node : FileNodeRow) (parentId : Option Int) (name path : List Char) :
    Db × Except FileError FileNodeRow :=
  if (FilesRepo.nodeByPath db node.areaId path).isSome then (db, .error .alreadyExists)
  else
    match stored (FilesRepo.relocateNode db node.id node.areaId parentId name node.path path) with
    | (db', .error e) => (db', .error e)
    | (db', .ok _) =>
        match FilesRepo.nodeById db' node.id with
        | none => (db', .error .noSuchNode)
        | some node => (db', .ok node)

def rename (id : Int) (name : List Char) : Db × Except FileError FileNodeRow :=
  match cleanName name with
  | .error e => (db, .error e)
  | .ok name =>
      match FilesRepo.nodeById db id with
      | none => (db, .error .noSuchNode)
      | some node =>
          if node.name = name then (db, .ok node)
          else relocated db node node.parentId name (childPath (parentOf node.path) name)

/-- The folder is the node itself, or inside it. -/
def isIntoItself (node : FileNodeRow) (folder : Option (List Char)) : Bool :=
  match folder with
  | none => false
  | some dest =>
      decide (node.kind = .kindFolder ∧ (dest = node.path ∨ (node.path ++ ['/']) <+: dest))

def moveTo (id : Int) (folder : Option (List Char)) : Db × Except FileError FileNodeRow :=
  match FilesRepo.nodeById db id with
  | none => (db, .error .noSuchNode)
  | some node =>
      match FilesRepo.areaById db node.areaId with
      | none => (db, .error .noSuchArea)
      | some area =>
          let folder := folder.filter (fun f => f ≠ [])
          if isIntoItself node folder then (db, .error .intoItself)
          else
            match resolveParent db area folder with
            | .error e => (db, .error e)
            | .ok parentId =>
                if parentId = node.parentId then (db, .ok node)
                else relocated db node parentId node.name (childPath folder node.name)

/-!
## The manifest
-/

def relPath (base : List Char) (node : FileNodeRow) : List Char :=
  if base = [] then node.path
  else ((base ++ ['/']).isPrefixOf? node.path).getD node.path

/-- Folders still to be read, the last one first. -/
def manifestFrom (areaId : Int) (base : List Char) :
    Nat -> List (Option Int) -> List (FileNodeRow × List Char) ->
      Option (List (FileNodeRow × List Char))
  | 0, _, _ => none
  | _ + 1, [], out => some out
  | fuel + 1, parentId :: stack, out =>
      let nodes := FilesRepo.children db areaId parentId
      let pushed := (nodes.filter (fun node =>
        decide (node.kind = .kindFolder) && !node.isDropbox)).map (fun node => some node.id)
      let files := (nodes.filter (fun node => decide (node.kind = .kindFile))).map
        (fun node => (node, relPath base node))
      manifestFrom areaId base fuel (pushed.reverse ++ stack) (out ++ files)

/-- Every file at or below a folder, without the drop boxes. -/
def manifest (fuel : Nat) (areaSlug : List Char) (folderPath : Option (List Char)) :
    Option (Except FileError (List (FileNodeRow × List Char))) :=
  match area db areaSlug with
  | .error e => some (.error e)
  | .ok area =>
      match resolveParent db area folderPath with
      | .error e => some (.error e)
      | .ok start =>
          (manifestFrom db area.id (folderPath.getD []) fuel [start] []).map Except.ok

end FileService

/-!
## Calls
-/

inductive Call where
  | createArea (slug title description : List Char)
  | mkdir (areaSlug : List Char) (parentPath : Option (List Char)) (name : List Char)
      (isDropbox : Bool)
  | addFile (areaSlug : List Char) (parentPath : Option (List Char)) (name : List Char)
      (content : FileContent)
  | addFileIfTarget (areaSlug : List Char) (parentPath : Option (List Char))
      (expectedAreaId : Int) (expectedParentId : Option Int) (name : List Char)
      (content : FileContent)
  | addAlias (areaSlug : List Char) (parentPath : Option (List Char)) (name : List Char)
      (targetPath : List Char)
  | rename (id : Int) (name : List Char)
  | moveTo (id : Int) (folder : Option (List Char))
  | delete (id : Int)

inductive Answer where
  | area (row : FileAreaRow)
  | node (row : FileNodeRow)
  | published (id : Option Int)
  | deleted

def answered {answer : Type} (wrap : answer -> Answer) (out : Db × Except FileError answer) :
    Db × Except FileError Answer :=
  (out.fst, out.snd.map wrap)

/-- The state behind a call, and what it answers. -/
def Call.run (db : Db) : Call -> Db × Except FileError Answer
  | .createArea slug title description =>
      answered .area (FileService.createArea db slug title description)
  | .mkdir areaSlug parentPath name isDropbox =>
      answered .node (FileService.mkdir db areaSlug parentPath name isDropbox)
  | .addFile areaSlug parentPath name content =>
      answered .node (FileService.addFile db areaSlug parentPath name content)
  | .addFileIfTarget areaSlug parentPath expectedAreaId expectedParentId name content =>
      answered .published (FileService.addFileIfTarget db areaSlug parentPath expectedAreaId
        expectedParentId name content)
  | .addAlias areaSlug parentPath name targetPath =>
      answered .node (FileService.addAlias db areaSlug parentPath name targetPath)
  | .rename id name => answered .node (FileService.rename db id name)
  | .moveTo id folder => answered .node (FileService.moveTo db id folder)
  | .delete id => answered (fun _ => .deleted) (FileService.delete db id)

/-- An error, or an upload whose place is not there any more. -/
def Answer.Failed : Except FileError Answer -> Prop
  | .error _ => True
  | .ok (.published none) => True
  | .ok _ => False

end Rabbithole.Files
