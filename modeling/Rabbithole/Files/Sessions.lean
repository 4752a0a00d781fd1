import Rabbithole.Files.Service
import Rabbithole.Foundation.Dict
import Rabbithole.Foundation.Run

/-!
# Moves of many sessions

A rename or a move reads the node, where it is to go, and whether the name is free there, and
then has the store relocate it; calls of other sessions run in between.  Alone, a call is what
the service does at once.
-/

namespace Rabbithole.Files

open Foundation

inductive Move where
  | rename (id : Int) (name : List Char)
  | moveTo (id : Int) (folder : Option (List Char))

/-- Where a move stands between two calls to the repository. -/
inductive Progress where
  | called (move : Move)
  | found (node : FileNodeRow) (folder : Option (List Char))
  | inArea (node : FileNodeRow) (area : FileAreaRow) (folder : Option (List Char))
  | placed (node : FileNodeRow) (parentId : Option Int) (name path : List Char)
  | free (node : FileNodeRow) (parentId : Option Int) (name path : List Char)
  | relocated (id : Int)

inductive Next where
  | goesOn (progress : Progress)
  | answers (answer : Except FileError FileNodeRow)

/-- The next call to the repository, and what is decided on it. -/
def advance (db : Db) : Progress -> Db × Next
  | .called (.rename id name) =>
      match cleanName name with
      | .error e => (db, .answers (.error e))
      | .ok name =>
          match FilesRepo.nodeById db id with
          | none => (db, .answers (.error .noSuchNode))
          | some node =>
              if node.name = name then (db, .answers (.ok node))
              else (db, .goesOn (.placed node node.parentId name
                (childPath (parentOf node.path) name)))
  | .called (.moveTo id folder) =>
      match FilesRepo.nodeById db id with
      | none => (db, .answers (.error .noSuchNode))
      | some node => (db, .goesOn (.found node folder))
  | .found node folder =>
      match FilesRepo.areaById db node.areaId with
      | none => (db, .answers (.error .noSuchArea))
      | some area =>
          let folder := folder.filter (fun f => f ≠ [])
          if FileService.isIntoItself node folder then (db, .answers (.error .intoItself))
          else (db, .goesOn (.inArea node area folder))
  | .inArea node area folder =>
      match FileService.resolveParent db area folder with
      | .error e => (db, .answers (.error e))
      | .ok parentId =>
          if parentId = node.parentId then (db, .answers (.ok node))
          else (db, .goesOn (.placed node parentId node.name (childPath folder node.name)))
  | .placed node parentId name path =>
      if (FilesRepo.nodeByPath db node.areaId path).isSome then
        (db, .answers (.error .alreadyExists))
      else (db, .goesOn (.free node parentId name path))
  | .free node parentId name path =>
      match FileService.stored
        (FilesRepo.relocateNode db node.id node.areaId parentId name node.path path) with
      | (db', .error e) => (db', .answers (.error e))
      | (db', .ok _) => (db', .goesOn (.relocated node.id))
  | .relocated id =>
      match FilesRepo.nodeById db id with
      | none => (db, .answers (.error .noSuchNode))
      | some node => (db, .answers (.ok node))

/-!
## One call alone
-/

/-- What comes behind a call to the repository. -/
def Next.resume (goOn : Db -> Progress -> Option (Db × Except FileError FileNodeRow)) :
    Db × Next -> Option (Db × Except FileError FileNodeRow)
  | (db, .answers answer) => some (db, answer)
  | (db, .goesOn progress) => goOn db progress

/-- A call that nobody crosses. -/
def alone (db : Db) : Nat -> Progress -> Option (Db × Except FileError FileNodeRow)
  | 0, _ => none
  | fuel + 1, progress =>
      Next.resume (fun db' progress' => alone db' fuel progress') (advance db progress)

def Move.run (db : Db) : Move -> Db × Except FileError FileNodeRow
  | .rename id name => FileService.rename db id name
  | .moveTo id folder => FileService.moveTo db id folder

theorem alone_relocated (db : Db) (fuel : Nat) (id : Int) :
    alone db (fuel + 1) (.relocated id) =
      some (match FilesRepo.nodeById db id with
        | none => (db, .error .noSuchNode)
        | some node => (db, .ok node)) := by
  simp only [alone, advance]
  cases FilesRepo.nodeById db id with
  | none => rfl
  | some node => rfl

theorem alone_placed (db : Db) (fuel : Nat) (node : FileNodeRow) (parentId : Option Int)
    (name path : List Char) :
    alone db (fuel + 3) (.placed node parentId name path) =
      some (FileService.relocated db node parentId name path) := by
  unfold FileService.relocated
  rw [alone, advance]
  split
  · rfl
  · simp only [Next.resume]
    rw [alone, advance]
    rcases FileService.stored
      (FilesRepo.relocateNode db node.id node.areaId parentId name node.path path)
      with ⟨db', e | moved⟩
    · rfl
    · exact alone_relocated db' fuel node.id

theorem alone_called (db : Db) (move : Move) : alone db 6 (.called move) = some (move.run db) := by
  cases move with
  | rename id name =>
      show _ = some (FileService.rename db id name)
      unfold FileService.rename
      rw [alone, advance]
      cases cleanName name with
      | error e => rfl
      | ok name =>
          simp only
          cases FilesRepo.nodeById db id with
          | none => rfl
          | some node =>
              simp only
              split
              · rfl
              · exact alone_placed db 2 _ _ _ _
  | moveTo id folder =>
      show _ = some (FileService.moveTo db id folder)
      unfold FileService.moveTo
      rw [alone, advance]
      cases FilesRepo.nodeById db id with
      | none => rfl
      | some node =>
          simp only [Next.resume]
          rw [alone, advance]
          cases FilesRepo.areaById db node.areaId with
          | none => rfl
          | some area =>
              simp only
              split
              · rfl
              · simp only [Next.resume]
                rw [alone, advance]
                cases FileService.resolveParent db area (folder.filter (fun f => f ≠ [])) with
                | error e => rfl
                | ok parentId =>
                    simp only
                    split
                    · rfl
                    · exact alone_placed db 0 _ _ _ _

/-!
## Many sessions
-/

structure Shared where
  db : Db
  sessions : Dict Nat Progress
  answers : List (Nat × Except FileError FileNodeRow)

namespace Shared

def start (db : Db) : Shared where
  db := db
  sessions := Dict.empty
  answers := []

/-- A session is at its next point, or has its answer. -/
def next (s : Shared) (session : Nat) : Db × Next -> Shared
  | (db, .goesOn progress) =>
      { s with db := db, sessions := s.sessions.insert session progress }
  | (db, .answers answer) =>
      { db := db
        sessions := s.sessions.erase session
        answers := s.answers ++ [(session, answer)] }

end Shared

/-- A session calls, or its call goes on by one call to the repository. -/
inductive Event where
  | call (session : Nat) (move : Move)
  | goOn (session : Nat)

def step (s : Shared) : Event -> Option Shared
  | .call session move =>
      if (s.sessions.get? session).isSome then none
      else some { s with sessions := s.sessions.insert session (.called move) }
  | .goOn session =>
      (s.sessions.get? session).map (fun progress => s.next session (advance s.db progress))

end Rabbithole.Files
