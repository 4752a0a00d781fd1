import Rabbithole.Files.Service
import Rabbithole.Foundation.Paths

/-!
# The tree in the tables

A node sits at the root of its area or in a folder of it, and its path is that folder's
path with its name behind.  New nodes that are seated keep the tree, and so does a deletion
with all that hangs on the node.
-/

namespace Rabbithole.Files

open Foundation Foundation.Paths List

/-- The places of a name, and the path at each. -/
inductive Seat (nodes : List FileNodeRow) (areaId : Int) (name : List Char) :
    Option Int -> List Char -> Prop where
  | root : Seat nodes areaId name none name
  | inside (folder : FileNodeRow) (hmem : folder ∈ nodes) (harea : folder.areaId = areaId)
      (hkind : folder.kind = .kindFolder) :
      Seat nodes areaId name (some folder.id) (folder.path ++ '/' :: name)

structure Tree (db : Db) : Prop where
  seated : forall n, n ∈ db.nodes.rows -> Seat db.nodes.rows n.areaId n.name n.parentId n.path
  named : forall n, n ∈ db.nodes.rows -> n.name ≠ [] ∧ '/' ∉ n.name
  apart : forall n m, n ∈ db.nodes.rows -> m ∈ db.nodes.rows -> n.areaId = m.areaId ->
    n.path = m.path -> n = m
  numbered : forall n, n ∈ db.nodes.rows -> n.id <= db.lastNode

/-- The parents from a node to a root. -/
inductive Climb (nodes : List FileNodeRow) : Option Int -> List FileNodeRow -> Prop where
  | root : Climb nodes none []
  | up (folder : FileNodeRow) (above : List FileNodeRow) (hmem : folder ∈ nodes)
      (habove : Climb nodes folder.parentId above) :
      Climb nodes (some folder.id) (folder :: above)

variable {areaId : Int} {path : List Char} {n : FileNodeRow}

theorem eq_of_id {nodes : Table FileNodeRow.id} {m : FileNodeRow} (hn : n ∈ nodes.rows)
    (hm : m ∈ nodes.rows) (h : n.id = m.id) : n = m :=
  inj_on_of_nodup_map nodes.nodup hn hm h

theorem FilesRepo.nodeById_eq_some_iff {db : Db} {id : Int} :
    FilesRepo.nodeById db id = some n <-> n ∈ db.nodes.rows ∧ n.id = id :=
  Table.find?_eq_some_iff

theorem FilesRepo.mem_of_nodeByPath {db : Db} (h : FilesRepo.nodeByPath db areaId path = some n) :
    n ∈ db.nodes.rows ∧ n.areaId = areaId ∧ n.path = path := by
  unfold FilesRepo.nodeByPath at h
  exact ⟨mem_of_find?_eq_some h, by simpa using find?_some h⟩

theorem FilesRepo.nodeByPath_eq_none_iff {db : Db} :
    FilesRepo.nodeByPath db areaId path = none <->
      forall n, n ∈ db.nodes.rows -> n.areaId = areaId -> n.path ≠ path := by
  unfold FilesRepo.nodeByPath
  rw [find?_eq_none]
  constructor
  · intro h n hn harea hpath
    exact h n hn (decide_eq_true ⟨harea, hpath⟩)
  · intro h n hn hdec
    have hboth := of_decide_eq_true hdec
    exact h n hn hboth.left hboth.right

theorem Seat.mono {nodes nodes' : List FileNodeRow} {name : List Char} {parentId : Option Int}
    (h : Seat nodes areaId name parentId path) (hsub : nodes ⊆ nodes') :
    Seat nodes' areaId name parentId path := by
  cases h with
  | root => exact .root
  | inside folder hmem harea hkind => exact .inside folder (hsub hmem) harea hkind

theorem Seat.path_ne_nil {nodes : List FileNodeRow} {name : List Char} {parentId : Option Int}
    (h : Seat nodes areaId name parentId path) (hname : name ≠ []) : path ≠ [] := by
  cases h with
  | root => exact hname
  | inside folder => simp

namespace Tree

variable {db : Db}

theorem opened : Tree Db.opened where
  seated := fun _ hn => absurd hn not_mem_nil
  named := fun _ hn => absurd hn not_mem_nil
  apart := fun _ _ hn => absurd hn not_mem_nil
  numbered := fun _ hn => absurd hn not_mem_nil

variable {n : FileNodeRow}

section

variable (h : Tree db) (hn : n ∈ db.nodes.rows)
include h hn

theorem path_ne_nil : n.path ≠ [] :=
  (h.seated n hn).path_ne_nil (h.named n hn).left

/-- Where a path goes on behind another, there is a folder at that one: by the text, a node
is below exactly the folders it is in. -/
theorem folder_of_below {p : List Char} (hbelow : Below '/' p n.path) :
    exists folder, folder ∈ db.nodes.rows ∧ folder.areaId = n.areaId ∧
      folder.kind = .kindFolder ∧ folder.path = p := by
  generalize hlen : n.path.length = len
  induction len using Nat.strong_induction_on generalizing n with
  | _ len ih =>
      have hseat := h.seated n hn
      have hname := (h.named n hn).right
      generalize hpid : n.parentId = parentId at hseat
      generalize hpath : n.path = path at hseat
      cases hseat with
      | root => exact absurd (hpath ▸ hbelow) (not_below_name hname)
      | inside folder hmem harea hkind =>
          rw [hpath] at hbelow
          rcases (below_child_iff hname).mp hbelow with heq | habove
          · exact ⟨folder, hmem, harea, hkind, heq.symm⟩
          · have hshort : folder.path.length < len := by
              rw [← hlen, hpath]
              simp
            rcases ih _ hshort hmem habove rfl with ⟨top, htop, htoparea, htopkind, htoppath⟩
            exact ⟨top, htop, htoparea.trans harea, htopkind, htoppath⟩

theorem climbs :
    exists above, Climb db.nodes.rows n.parentId above ∧
      Pairwise (fun a b => b.path.length < a.path.length) (n :: above) ∧
      forall a, a ∈ above -> a ∈ db.nodes.rows ∧ a.areaId = n.areaId ∧ a.kind = .kindFolder := by
  generalize hlen : n.path.length = len
  induction len using Nat.strong_induction_on generalizing n with
  | _ len ih =>
      have hseat := h.seated n hn
      generalize n.parentId = parentId at hseat
      generalize hpath : n.path = path at hseat
      cases hseat with
      | root => exact ⟨[], .root, pairwise_singleton _ _, fun _ ha => absurd ha not_mem_nil⟩
      | inside folder hmem harea hkind =>
          have hshort : folder.path.length < n.path.length := by
            rw [hpath]
            simp
          rcases ih _ (hlen ▸ hshort) hmem rfl with ⟨above, hclimb, hlens, hfolders⟩
          refine ⟨folder :: above, .up folder above hmem hclimb, ?_, ?_⟩
          · refine pairwise_cons.mpr ⟨?_, hlens⟩
            intro a ha
            rcases mem_cons.mp ha with rfl | ha
            · exact hshort
            · exact ((pairwise_cons.mp hlens).left a ha).trans hshort
          · intro a ha
            rcases mem_cons.mp ha with rfl | ha
            · exact ⟨hmem, harea, hkind⟩
            · rcases hfolders a ha with ⟨hamem, haarea, hakind⟩
              exact ⟨hamem, haarea.trans harea, hakind⟩

end

/-!
## New nodes
-/

theorem insert (h : Tree db) {node : FileNodeRow} (hid : node.id = db.lastNode + 1)
    (hname : node.name ≠ [] ∧ '/' ∉ node.name)
    (hseat : Seat db.nodes.rows node.areaId node.name node.parentId node.path)
    (hfree : FilesRepo.nodeByPath db node.areaId node.path = none) :
    Tree { db with nodes := db.nodes.insert node, lastNode := db.lastNode + 1 } := by
  have habsent : db.nodes.find? node.id = none := by
    rw [Table.find?_eq_none_iff]
    intro n hn heq
    have hle := h.numbered n hn
    omega
  have hrows := Table.rows_insert_of_absent habsent
  have hfree' := FilesRepo.nodeByPath_eq_none_iff.mp hfree
  have hcases : forall n, n ∈ (db.nodes.insert node).rows -> n ∈ db.nodes.rows ∨ n = node := by
    intro n hn
    rw [hrows] at hn
    rcases mem_append.mp hn with hold | hnew
    · exact Or.inl hold
    · exact Or.inr (mem_singleton.mp hnew)
  have hsub : db.nodes.rows ⊆ (db.nodes.insert node).rows := by
    rw [hrows]
    exact subset_append_left _ _
  constructor
  · intro n hn
    rcases hcases n hn with hold | rfl
    · exact (h.seated n hold).mono hsub
    · exact hseat.mono hsub
  · intro n hn
    rcases hcases n hn with hold | rfl
    · exact h.named n hold
    · exact hname
  · intro n m hn hm harea hpath
    rcases hcases n hn with hold | rfl
    · rcases hcases m hm with hold' | rfl
      · exact h.apart n m hold hold' harea hpath
      · exact absurd hpath (hfree' n hold harea)
    · rcases hcases m hm with hold' | rfl
      · exact absurd hpath.symm (hfree' m hold' harea.symm)
      · rfl
  · intro n hn
    show n.id <= db.lastNode + 1
    rcases hcases n hn with hold | rfl
    · have hle := h.numbered n hold
      omega
    · omega

/-!
## Deletion
-/

theorem sublist (h : Tree db) {nodes : Table FileNodeRow.id} (hsub : nodes.rows ⊆ db.nodes.rows)
    (hparent : forall n, n ∈ nodes.rows -> forall id, n.parentId = some id ->
      exists p, p ∈ nodes.rows ∧ p.id = id) : Tree { db with nodes := nodes } := by
  constructor
  · intro n hn
    have hseat := h.seated n (hsub hn)
    have hkept := hparent n hn
    generalize n.parentId = parentId at hseat hkept
    generalize n.path = path at hseat
    cases hseat with
    | root => exact .root
    | inside folder hmem harea hkind =>
        rcases hkept folder.id rfl with ⟨p, hp, hid⟩
        have hsame := eq_of_id (hsub hp) hmem hid
        rw [hsame] at hp
        exact .inside folder hp harea hkind
  · exact fun n hn => h.named n (hsub hn)
  · exact fun n m hn hm => h.apart n m (hsub hn) (hsub hm)
  · exact fun n hn => h.numbered n (hsub hn)

end Tree

theorem FilesRepo.cascade_parents (nodes : Table FileNodeRow.id) (gone : List Int)
    (h : forall n, n ∈ nodes.rows -> forall id, n.parentId = some id ->
      id ∈ gone ∨ exists p, p ∈ nodes.rows ∧ p.id = id) :
    (FilesRepo.cascade nodes gone).rows ⊆ nodes.rows ∧
      forall n, n ∈ (FilesRepo.cascade nodes gone).rows -> forall id, n.parentId = some id ->
        exists p, p ∈ (FilesRepo.cascade nodes gone).rows ∧ p.id = id := by
  induction nodes, gone using FilesRepo.cascade.induct with
  | case1 nodes gone hany ih =>
      rw [FilesRepo.cascade, if_pos hany]
      have hkept : forall n, n ∈ (nodes.delete (FilesRepo.hangsOn gone)).rows ->
          n ∈ nodes.rows ∧ FilesRepo.hangsOn gone n = false := by
        intro n hn
        rcases mem_filter.mp hn with ⟨hmem, hnot⟩
        exact ⟨hmem, by simpa using hnot⟩
      have hstep := ih (by
        intro n hn id hid
        rcases hkept n hn with ⟨hmem, hnot⟩
        have hin : id ∉ gone := by
          intro hgone
          unfold FilesRepo.hangsOn at hnot
          rw [hid] at hnot
          simp [hgone] at hnot
        rcases h n hmem id hid with hgone | ⟨p, hp, hpid⟩
        · exact absurd hgone hin
        · by_cases hhang : FilesRepo.hangsOn gone p = true
          · left
            exact mem_map.mpr ⟨p, mem_filter.mpr ⟨hp, hhang⟩, hpid⟩
          · right
            exact ⟨p, mem_filter.mpr ⟨hp, by simp [hhang]⟩, hpid⟩)
      exact ⟨fun n hn => (hkept n (hstep.left hn)).left, hstep.right⟩
  | case2 nodes gone hany =>
      rw [FilesRepo.cascade, if_neg hany]
      refine ⟨fun _ hn => hn, ?_⟩
      intro n hn id hid
      rcases h n hn id hid with hgone | hp
      · exfalso
        apply hany
        rw [any_eq_true]
        refine ⟨n, hn, ?_⟩
        unfold FilesRepo.hangsOn
        rw [hid]
        simp [hgone]
      · exact hp

theorem Tree.deleteNode {db : Db} (h : Tree db) (id : Int) :
    Tree (FilesRepo.deleteNode db id).fst := by
  unfold FilesRepo.deleteNode
  split
  · have hcascade := FilesRepo.cascade_parents
      (db.nodes.delete (fun node => decide (node.id = id))) [id] (by
        intro n hn pid hpid
        have hmem := mem_of_mem_filter hn
        by_cases hgone : pid = id
        · exact Or.inl (mem_singleton.mpr hgone)
        · right
          have hseat := h.seated n hmem
          rw [hpid] at hseat
          generalize n.path = path at hseat
          cases hseat with
          | inside folder hfolder =>
              exact ⟨folder, mem_filter.mpr ⟨hfolder, by simpa using hgone⟩, rfl⟩)
    exact h.sublist (fun n hn => mem_of_mem_filter (hcascade.left hn)) hcascade.right
  · exact h

end Rabbithole.Files
