import Rabbithole.Files.Tree
import Rabbithole.Foundation.Walk

/-!
# What drop boxes hide

The walk upwards through a node's parents and the walk downwards through an area's folders
agree: a file is listed when no folder above it is a drop box.
-/

namespace Rabbithole.Files

open Foundation Foundation.Walk List FilesRepo

/-!
## Upwards
-/

variable {above : List FileNodeRow}

theorem FilesRepo.parentsOf_climb {db : Db} {pid : Option Int}
    (hclimb : Climb db.nodes.rows pid above) (seen : List FileNodeRow)
    (hlens : Pairwise (fun a b => b.path.length < a.path.length) above)
    (hseen : forall s, s ∈ seen -> forall a, a ∈ above -> a.path.length < s.path.length) :
    FilesRepo.parentsOf db seen pid = above.reverse ++ seen := by
  induction hclimb generalizing seen with
  | root =>
      rw [FilesRepo.parentsOf]
      rfl
  | up folder above hmem _ ih =>
      rw [pairwise_cons] at hlens
      have hfound := nodeById_eq_some_iff.mpr ⟨hmem, rfl⟩
      have hnew : folder ∉ seen := fun hin => Nat.lt_irrefl _ (hseen folder hin folder
        mem_cons_self)
      rw [FilesRepo.parentsOf]
      split
      · rename_i hnone
        rw [hfound] at hnone
        cases hnone
      · rename_i parent hsome
        rw [hfound] at hsome
        cases hsome
        rw [if_neg hnew, ih (folder :: seen) hlens.right (by
          intro s hs a ha
          rcases mem_cons.mp hs with rfl | hs
          · exact hlens.left a ha
          · exact hseen s hs a (mem_cons_of_mem _ ha))]
        rw [reverse_cons, append_assoc, singleton_append]

theorem Climb.ends {nodes : List FileNodeRow} {pid : Option Int} (h : Climb nodes pid above) :
    pid = none ∨
      above.any (fun row => decide (row.parentId = none)) = true := by
  induction h with
  | root => exact Or.inl rfl
  | up folder above _ _ ih =>
      right
      rw [any_cons]
      rcases ih with hroot | hany
      · rw [hroot]
        rfl
      · rw [hany, Bool.or_true]

theorem FilesRepo.hasDropboxAncestor_eq {db : Db} {n : FileNodeRow} (hn : n ∈ db.nodes.rows)
    (hclimb : Climb db.nodes.rows n.parentId above)
    (hlens : Pairwise (fun a b => b.path.length < a.path.length) (n :: above)) :
    FilesRepo.hasDropboxAncestor db n.id = some (above.any FileNodeRow.isDropbox) := by
  have hfound := nodeById_eq_some_iff.mpr ⟨hn, rfl⟩
  have hparents := parentsOf_climb hclimb [] (pairwise_cons.mp hlens).right
    (fun _ hs => absurd hs not_mem_nil)
  unfold FilesRepo.hasDropboxAncestor
  rw [hfound]
  simp only [hparents, append_nil, any_reverse]
  rw [if_pos hclimb.ends]

/-!
## Downwards
-/

namespace FileService

def opened (db : Db) (areaId : Int) (parentId : Option Int) : List (Option Int) :=
  ((FilesRepo.children db areaId parentId).filter (fun node =>
    decide (node.kind = .kindFolder) && !node.isDropbox)).map (fun node => some node.id)

def filesOf (db : Db) (areaId : Int) (parentId : Option Int) : List FileNodeRow :=
  (FilesRepo.children db areaId parentId).filter (fun node => decide (node.kind = .kindFile))

variable {db : Db} {areaId : Int} {parentId : Option Int} {n : FileNodeRow}

theorem mem_children :
    n ∈ FilesRepo.children db areaId parentId <->
      n ∈ db.nodes.rows ∧ n.areaId = areaId ∧ n.parentId = parentId := by
  unfold FilesRepo.children
  rw [mem_mergeSort, mem_filter, decide_eq_true_iff]

theorem nodup_children (db : Db) (areaId : Int) (parentId : Option Int) :
    (FilesRepo.children db areaId parentId).Nodup := by
  unfold FilesRepo.children
  rw [(mergeSort_perm _ _).nodup_iff]
  exact (Nodup.of_map _ db.nodes.nodup).filter _

theorem mem_opened {q : Option Int} :
    q ∈ opened db areaId parentId <-> exists n, n ∈ db.nodes.rows ∧ n.areaId = areaId ∧
      n.parentId = parentId ∧ n.kind = .kindFolder ∧ n.isDropbox = false ∧ q = some n.id := by
  unfold opened
  rw [mem_map]
  constructor
  · rintro ⟨n, hn, rfl⟩
    rcases mem_filter.mp hn with ⟨hchild, hboth⟩
    rcases mem_children.mp hchild with ⟨hmem, harea, hparent⟩
    rw [Bool.and_eq_true, decide_eq_true_iff, Bool.not_eq_true'] at hboth
    exact ⟨n, hmem, harea, hparent, hboth.left, hboth.right, rfl⟩
  · rintro ⟨n, hmem, harea, hparent, hkind, hbox, rfl⟩
    refine ⟨n, mem_filter.mpr ⟨mem_children.mpr ⟨hmem, harea, hparent⟩, ?_⟩, rfl⟩
    rw [hkind, hbox]
    rfl

theorem mem_filesOf :
    n ∈ filesOf db areaId parentId <->
      n ∈ db.nodes.rows ∧ n.areaId = areaId ∧ n.parentId = parentId ∧ n.kind = .kindFile := by
  unfold filesOf
  rw [mem_filter, mem_children, decide_eq_true_iff, and_assoc, and_assoc]

theorem opened_forest (db : Db) (areaId : Int) : Forest (opened db areaId) none where
  nodup := by
    intro p
    unfold opened
    have hnodup := (nodup_children db areaId p).filter (fun node =>
      decide (node.kind = .kindFolder) && !node.isDropbox)
    refine Nodup.map_on ?_ hnodup
    intro n hn m hm heq
    have hn' := (mem_children.mp (mem_of_mem_filter hn)).left
    have hm' := (mem_children.mp (mem_of_mem_filter hm)).left
    exact eq_of_id hn' hm' (Option.some.inj heq)
  apart := by
    intro p q r hp hq
    rcases mem_opened.mp hp with ⟨n, hn, -, hparent, -, -, rfl⟩
    rcases mem_opened.mp hq with ⟨m, hm, -, hparent', -, -, heq⟩
    rw [← hparent, ← hparent', eq_of_id hn hm (Option.some.inj heq)]
  top := by
    intro p hp
    rcases mem_opened.mp hp with ⟨n, -, -, -, -, -, heq⟩
    cases heq

theorem reached_iff {pid : Option Int} {above : List FileNodeRow}
    (hclimb : Climb db.nodes.rows pid above)
    (hfolders : forall a, a ∈ above -> a.areaId = areaId ∧ a.kind = .kindFolder) :
    Reached (opened db areaId) none pid <-> above.any FileNodeRow.isDropbox = false := by
  induction hclimb with
  | root => exact ⟨fun _ => rfl, fun _ => .start⟩
  | up folder above hmem _ ih =>
      have hrest := ih (fun a ha => hfolders a (mem_cons_of_mem _ ha))
      rcases hfolders folder mem_cons_self with ⟨harea, hkind⟩
      rw [any_cons, Bool.or_eq_false_iff]
      constructor
      · intro hreached
        cases hreached with
        | step p q hp hq =>
            rcases mem_opened.mp hq with ⟨n, hn, -, hparent, -, hbox, heq⟩
            have hsame := eq_of_id hmem hn (Option.some.inj heq)
            rw [← hsame] at hparent hbox
            rw [← hparent] at hp
            exact ⟨hbox, hrest.mp hp⟩
      · rintro ⟨hbox, habove⟩
        exact .step folder.parentId (some folder.id) (hrest.mpr habove)
          (mem_opened.mpr ⟨folder, hmem, harea, rfl, hkind, hbox, rfl⟩)

theorem manifestFrom_eq (db : Db) (areaId : Int) (base : List Char) (fuel : Nat)
    (stack visited : List (Option Int)) : manifestFrom db areaId base fuel stack
        ((visited.flatMap (filesOf db areaId)).map (fun node => (node, relPath base node))) =
      (walk (opened db areaId) fuel stack visited).map (fun whole =>
        (whole.flatMap (filesOf db areaId)).map (fun node => (node, relPath base node))) := by
  induction fuel generalizing stack visited with
  | zero => rfl
  | succ fuel ih =>
      cases stack with
      | nil => rfl
      | cons p stack =>
          have hstep := ih ((opened db areaId p).reverse ++ stack) (visited ++ [p])
          rw [flatMap_append, map_append, flatMap_singleton] at hstep
          exact hstep

def shown (db : Db) (areaId : Int) : List FileNodeRow :=
  db.nodes.rows.filter (fun node => decide (node.areaId = areaId ∧ node.kind = .kindFile ∧
    FilesRepo.hasDropboxAncestor db node.id = some false))

theorem mem_shown (h : Tree db) :
    n ∈ shown db areaId <-> n ∈ db.nodes.rows ∧ n.areaId = areaId ∧ n.kind = .kindFile ∧
      Reached (opened db areaId) none n.parentId := by
  unfold shown
  rw [mem_filter, decide_eq_true_iff]
  constructor
  · rintro ⟨hn, harea, hkind, hhidden⟩
    rcases h.climbs hn with ⟨above, hclimb, hlens, hfolders⟩
    rw [hasDropboxAncestor_eq hn hclimb hlens] at hhidden
    refine ⟨hn, harea, hkind, (reached_iff hclimb ?_).mpr (Option.some.inj hhidden)⟩
    exact fun a ha => ⟨(hfolders a ha).right.left.trans harea, (hfolders a ha).right.right⟩
  · rintro ⟨hn, harea, hkind, hreached⟩
    rcases h.climbs hn with ⟨above, hclimb, hlens, hfolders⟩
    refine ⟨hn, harea, hkind, ?_⟩
    rw [hasDropboxAncestor_eq hn hclimb hlens]
    rw [(reached_iff hclimb ?_).mp hreached]
    exact fun a ha => ⟨(hfolders a ha).right.left.trans harea, (hfolders a ha).right.right⟩

/-- The manifest of an area is the files shown, each once. -/
theorem manifest_shown (h : Tree db) {slug : List Char} {row : FileAreaRow}
    (harea : area db slug = .ok row) {fuel : Nat} (hfuel : db.nodes.rows.length + 1 < fuel) :
    exists out, manifest db fuel slug none = some (.ok out) ∧
      (out.map Prod.fst).Perm (shown db row.id) := by
  have hall : forall p, Reached (opened db row.id) none p ->
      p ∈ none :: db.nodes.rows.map (fun n => some n.id) := by
    intro p hp
    cases hp with
    | start => exact mem_cons_self
    | step q p _ hq =>
        rcases mem_opened.mp hq with ⟨n, hn, -, -, -, -, rfl⟩
        exact mem_cons_of_mem _ (mem_map.mpr ⟨n, hn, rfl⟩)
  have hlength : (none :: db.nodes.rows.map (fun n => some n.id)).length < fuel := by
    rw [length_cons, length_map]
    exact hfuel
  rcases walk_visits (opened_forest db row.id) hall hlength with ⟨whole, hwalk, hnodup, hmem⟩
  have hmanifest := manifestFrom_eq db row.id [] fuel [none] []
  rw [hwalk] at hmanifest
  refine ⟨(whole.flatMap (filesOf db row.id)).map (fun node => (node, relPath [] node)), ?_, ?_⟩
  · unfold manifest resolveParent
    rw [harea]
    show (manifestFrom db row.id [] fuel [none] []).map Except.ok = _
    rw [show manifestFrom db row.id [] fuel [none] [] = _ from hmanifest]
    rfl
  · rw [map_map]
    show ((whole.flatMap (filesOf db row.id)).map id).Perm _
    rw [map_id]
    apply (perm_ext_iff_of_nodup ?_ ?_).mpr
    · intro n
      rw [mem_shown h, mem_flatMap]
      constructor
      · rintro ⟨p, hp, hn⟩
        rcases mem_filesOf.mp hn with ⟨hrow, hnarea, hparent, hkind⟩
        exact ⟨hrow, hnarea, hkind, hparent ▸ (hmem p).mp hp⟩
      · rintro ⟨hrow, hnarea, hkind, hreached⟩
        exact ⟨n.parentId, (hmem _).mpr hreached, mem_filesOf.mpr ⟨hrow, hnarea, rfl, hkind⟩⟩
    · rw [nodup_flatMap]
      constructor
      · intro p _
        exact (nodup_children db row.id p).filter _
      · apply hnodup.imp
        intro p q hne n hn hn'
        exact hne ((mem_filesOf.mp hn).right.right.left.symm.trans
          (mem_filesOf.mp hn').right.right.left)
    · exact (Nodup.of_map _ db.nodes.nodup).filter _

end FileService

end Rabbithole.Files
