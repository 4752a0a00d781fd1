import Rabbithole.Blobs.Store
import Rabbithole.Foundation.Paging

/-!
# Referenced blobs stay

A blob is removed only where its count is read as zero, and the count that is read is the
count of what has happened.
-/

namespace Rabbithole.Blobs

open Foundation List

variable {hash : Bytes -> BlobId} {s s' : BlobStore} {id : BlobId} {stuck : BlobId -> Bool}

namespace BlobStore

/-!
## Counts
-/

theorem readRefs_le (s : BlobStore) (id : BlobId) : s.readRefs id <= 2 ^ 64 - 1 := by
  unfold readRefs
  cases s.refs.get? id with
  | none => exact Nat.zero_le _
  | some text =>
      simp only []
      cases hparse : parseUnsigned (2 ^ 64 - 1) (trimText text) with
      | none => exact Nat.zero_le _
      | some n => exact le_of_parseUnsigned hparse

theorem readRefs_of_write {n : Nat} (h : s.writeRefs id n = .ok s') (hn : n <= 2 ^ 64 - 1)
    (k : BlobId) : s'.readRefs k = if k = id then n else s.readRefs k := by
  unfold writeRefs at h
  split at h
  · cases h
    unfold readRefs
    rw [Dict.get?_insert]
    by_cases hk : k = id
    · rw [if_pos hk, if_pos hk]
      simp only []
      rw [trimText_toDigits, parseUnsigned_toDigits hn, Option.getD_some]
    · rw [if_neg hk, if_neg hk]
  · cases h

theorem blobs_of_write {n : Nat} (h : s.writeRefs id n = .ok s') : s'.blobs = s.blobs := by
  unfold writeRefs at h
  split at h
  · cases h
    rfl
  · cases h

theorem readRefs_congr (h : s'.refs = s.refs) (k : BlobId) : s'.readRefs k = s.readRefs k := by
  unfold readRefs
  rw [h]

/-!
## Removals
-/

theorem get?_remove (stuck : BlobId -> Bool) (s : BlobStore) (id k : BlobId) :
    (s.remove stuck id).blobs.get? k = if k = id then none else s.blobs.get? k :=
  Dict.get?_erase _ _ _

theorem readRefs_remove (stuck : BlobId -> Bool) (hzero : s.readRefs id = 0) (k : BlobId) :
    (s.remove stuck id).readRefs k = s.readRefs k := by
  cases hstuck : stuck id with
  | true =>
      apply readRefs_congr
      unfold remove
      rw [hstuck]
      rfl
  | false =>
      by_cases hk : k = id
      · rw [hk, hzero]
        unfold readRefs remove
        rw [hstuck]
        simp
      · unfold readRefs remove
        rw [hstuck]
        simp [hk]

theorem readRefs_sweepSidecars (now : Nat) (s : BlobStore) (k : BlobId) :
    (s.sweepSidecars now).readRefs k = s.readRefs k :=
  readRefs_congr rfl k

/-- What a removal of some blobs with a zero count does. -/
structure Removed (ids : List BlobId) (s s' : BlobStore) : Prop where
  zero : forall k, k ∈ ids -> s.readRefs k = 0
  refs : forall k, s'.readRefs k = s.readRefs k
  blobs : forall k, s'.blobs.get? k = if k ∈ ids then none else s.blobs.get? k

theorem removed_nil (s : BlobStore) : Removed [] s s where
  zero := fun _ h => absurd h not_mem_nil
  refs := fun _ => rfl
  blobs := fun _ => (if_neg not_mem_nil).symm

theorem Removed.cons {ids : List BlobId} (hzero : s.readRefs id = 0)
    (h : Removed ids (s.remove stuck id) s') : Removed (id :: ids) s s' where
  zero := by
    intro k hk
    rcases mem_cons.mp hk with rfl | hrest
    · exact hzero
    · rw [<- readRefs_remove stuck hzero]
      exact h.zero k hrest
  refs := fun k => (h.refs k).trans (readRefs_remove stuck hzero k)
  blobs := by
    intro k
    rw [h.blobs k, get?_remove]
    by_cases hk : k = id
    · simp [hk]
    · simp [hk]

theorem Removed.sweep {ids : List BlobId} (h : Removed ids s s') (now : Nat) :
    Removed ids s (s'.sweepSidecars now) where
  zero := h.zero
  refs := fun k => (readRefs_sweepSidecars now s' k).trans (h.refs k)
  blobs := h.blobs

theorem collect_removed (stuck : BlobId -> Bool) (l : List (BlobId × File)) (s : BlobStore) :
    (collect stuck l s).fst = (l.filter (fun entry => decide (s.readRefs entry.fst = 0))).map
        Prod.fst ∧
      Removed (collect stuck l s).fst s (collect stuck l s).snd := by
  induction l generalizing s with
  | nil => exact ⟨rfl, removed_nil s⟩
  | cons entry rest ih =>
      rcases entry with ⟨id, file⟩
      unfold collect
      split
      · rename_i hzero
        rcases ih (s.remove stuck id) with ⟨hids, hremoved⟩
        refine ⟨?_, hremoved.cons hzero⟩
        show id :: (collect stuck rest (s.remove stuck id)).fst = _
        have hsame : rest.filter (fun entry =>
            decide ((s.remove stuck id).readRefs entry.fst = 0)) =
              rest.filter (fun entry => decide (s.readRefs entry.fst = 0)) := by
          apply filter_congr
          intro other _
          rw [readRefs_remove stuck hzero]
        rw [hids, hsame, filter_cons_of_pos (by simpa using hzero), map_cons]
      · rename_i hne
        rcases ih s with ⟨hids, hremoved⟩
        refine ⟨?_, hremoved⟩
        rw [hids, filter_cons_of_neg (by simpa using hne)]

def sizeOf (l : List (BlobId × File)) : Nat :=
  (l.map (fun entry => entry.snd.len)).sum

theorem evict_removed (stuck : BlobId -> Bool) (maxBytes : Nat) (l : List (BlobId × File))
    (s : BlobStore) (hzero : forall entry, entry ∈ l -> s.readRefs entry.fst = 0) :
    exists k, (evict stuck maxBytes l (sizeOf l) s).fst = (l.take k).map Prod.fst ∧
      Removed (evict stuck maxBytes l (sizeOf l) s).fst s
        (evict stuck maxBytes l (sizeOf l) s).snd ∧
      sizeOf (l.drop k) <= maxBytes ∧ forall j, j < k -> maxBytes < sizeOf (l.drop j) := by
  induction l generalizing s with
  | nil => exact ⟨0, rfl, removed_nil s, Nat.zero_le _, fun j hj => absurd hj (Nat.not_lt_zero j)⟩
  | cons entry rest ih =>
      rcases entry with ⟨id, file⟩
      unfold evict
      split
      · rename_i hfits
        exact ⟨0, rfl, removed_nil s, hfits, fun j hj => absurd hj (Nat.not_lt_zero j)⟩
      · rename_i hover
        have hfirst : s.readRefs id = 0 := hzero (id, file) mem_cons_self
        have hsize : sizeOf ((id, file) :: rest) - file.len = sizeOf rest := by
          unfold sizeOf
          rw [map_cons, sum_cons]
          exact Nat.add_sub_cancel_left file.len _
        rw [hsize]
        rcases ih (s.remove stuck id) (fun other hother => by
          rw [readRefs_remove stuck hfirst]
          exact hzero other (mem_cons_of_mem _ hother)) with
          ⟨k, hids, hremoved, hrest, hless⟩
        refine ⟨k + 1, ?_, hremoved.cons hfirst, hrest, ?_⟩
        · show id :: _ = _
          rw [hids, take_succ_cons, map_cons]
        · intro j hj
          cases j with
          | zero => exact Nat.not_le.mp hover
          | succ j => exact hless j (Nat.lt_of_succ_lt_succ hj)

/-!
## Collecting and evicting
-/

theorem mem_walk {order : BlobId -> Nat} {entry : BlobId × File} :
    entry ∈ s.walk order <-> s.blobs.get? entry.fst = some entry.snd := by
  unfold walk
  rw [mem_listBy]
  exact Dict.get?_eq_some_iff.symm

theorem gc_removed (stuck : BlobId -> Bool) (order : BlobId -> Nat) (now : Nat) (s : BlobStore) :
    Removed (s.gc stuck order now).fst s (s.gc stuck order now).snd ∧
      forall k, k ∈ (s.gc stuck order now).fst <->
        s.readRefs k = 0 ∧ s.blobs.get? k ≠ none := by
  rcases collect_removed stuck (s.walk order) s with ⟨hids, hremoved⟩
  refine ⟨hremoved.sweep now, ?_⟩
  intro k
  show k ∈ (collect stuck (s.walk order) s).fst <-> _
  rw [hids, mem_map]
  constructor
  · rintro ⟨entry, hentry, rfl⟩
    rw [mem_filter, mem_walk, decide_eq_true_eq] at hentry
    refine ⟨hentry.right, ?_⟩
    rw [hentry.left]
    exact Option.some_ne_none _
  · rintro ⟨hzero, hsome⟩
    rcases Option.ne_none_iff_exists'.mp hsome with ⟨file, hfile⟩
    refine ⟨(k, file), ?_, rfl⟩
    rw [mem_filter, mem_walk, decide_eq_true_eq]
    exact ⟨hfile, hzero⟩

def unreferenced (order : BlobId -> Nat) (s : BlobStore) : List (BlobId × File) :=
  listBy (fun entry => entry.snd.modified)
    ((s.walk order).filter (fun entry => decide (s.readRefs entry.fst = 0)))

theorem mem_unreferenced {order : BlobId -> Nat} {entry : BlobId × File} :
    entry ∈ s.unreferenced order <->
      s.blobs.get? entry.fst = some entry.snd ∧ s.readRefs entry.fst = 0 := by
  unfold unreferenced
  rw [mem_listBy, mem_filter, mem_walk, decide_eq_true_eq]

/-- An eviction removes the shortest front part of the unreferenced blobs, the oldest
first, that leaves no more than is allowed. -/
theorem evictUnreferencedOver_removed (stuck : BlobId -> Bool) (order : BlobId -> Nat)
    (now maxBytes : Nat) (s : BlobStore) :
    exists k,
      (s.evictUnreferencedOver stuck order now maxBytes).fst =
        ((s.unreferenced order).take k).map Prod.fst ∧
      Removed (s.evictUnreferencedOver stuck order now maxBytes).fst s
        (s.evictUnreferencedOver stuck order now maxBytes).snd ∧
      sizeOf ((s.unreferenced order).drop k) <= maxBytes ∧
      forall j, j < k -> maxBytes < sizeOf ((s.unreferenced order).drop j) := by
  have htotal : (((s.walk order).filter (fun entry => decide (s.readRefs entry.fst = 0))).map
      (fun entry => entry.snd.len)).sum = sizeOf (s.unreferenced order) :=
    (((perm_listBy _ _).map _).sum_eq).symm
  unfold evictUnreferencedOver
  simp only []
  rw [htotal]
  split
  · rename_i hfits
    exact ⟨0, rfl, removed_nil s, hfits, fun j hj => absurd hj (Nat.not_lt_zero j)⟩
  · rcases evict_removed stuck maxBytes (s.unreferenced order) s
      (fun entry hentry => (mem_unreferenced.mp hentry).right) with
      ⟨k, hids, hremoved, hrest, hless⟩
    exact ⟨k, hids, hremoved.sweep now, hrest, hless⟩

theorem nodup_unreferenced (order : BlobId -> Nat) (s : BlobStore) :
    ((s.unreferenced order).map Prod.fst).Nodup := by
  have hwalk : ((s.walk order).map Prod.fst).Nodup :=
    ((perm_listBy _ _).map Prod.fst).nodup_iff.mpr s.blobs.nodup
  have hfiltered := hwalk.sublist ((filter_sublist
    (p := fun entry : BlobId × File => decide (s.readRefs entry.fst = 0))).map Prod.fst)
  exact ((perm_listBy _ _).map Prod.fst).nodup_iff.mpr hfiltered

theorem unreferenced_perm {order order' : BlobId -> Nat} {k : Nat}
    (h : Removed (((s.unreferenced order).take k).map Prod.fst) s s') :
    (s'.unreferenced order').Perm ((s.unreferenced order).drop k) := by
  have hnodup := nodup_unreferenced order s
  have hsplit := hnodup
  rw [<- take_append_drop k (s.unreferenced order), map_append] at hsplit
  have hapart := (nodup_append.mp hsplit).right.right
  apply (perm_ext_iff_of_nodup (Nodup.of_map _ (nodup_unreferenced order' s'))
    ((Nodup.of_map _ hnodup).sublist (drop_sublist k _))).mpr
  intro entry
  rw [mem_unreferenced, h.blobs, h.refs]
  constructor
  · rintro ⟨hblob, hzero⟩
    split at hblob
    · cases hblob
    · rename_i hkept
      have hmem : entry ∈ s.unreferenced order := mem_unreferenced.mpr ⟨hblob, hzero⟩
      rw [<- take_append_drop k (s.unreferenced order)] at hmem
      exact (mem_append.mp hmem).resolve_left
        (fun htake => hkept (mem_map_of_mem htake))
  · intro hdrop
    rcases mem_unreferenced.mp (mem_of_mem_drop hdrop) with ⟨hblob, hzero⟩
    refine ⟨?_, hzero⟩
    rw [if_neg, hblob]
    intro htaken
    exact hapart entry.fst htaken entry.fst (mem_map_of_mem hdrop) rfl

end BlobStore

/-!
## Every run
-/

/-- A blob has its hash for a name, and the count that is read is that of what happened;
what is not there has none. -/
structure Sound (hash : Bytes -> BlobId) (w : World) : Prop where
  hashed : forall id file, w.store.blobs.get? id = some file -> hash file.content = id
  counted : forall id, w.store.readRefs id = count id w.log
  absent : forall id, w.store.blobs.get? id = none -> count id w.log = 0

theorem sound_new (hash : Bytes -> BlobId) : Sound hash World.new where
  hashed := fun _ _ h => by cases h
  counted := fun _ => rfl
  absent := fun _ _ => rfl

variable {w w' : World}

theorem World.stored_self (w : World) (id : BlobId) : w.stored w.store id = w := by
  unfold World.stored
  cases w.store.blobs.contains id with
  | true => rfl
  | false => rfl

theorem contains_of_get? {file : File} (h : s.blobs.get? id = some file) :
    s.blobs.contains id = true := by
  unfold Dict.contains
  rw [h]
  rfl

theorem get?_of_not_contains (h : ¬ s.blobs.contains id = true) : s.blobs.get? id = none := by
  cases hget : s.blobs.get? id with
  | none => rfl
  | some file => exact absurd (contains_of_get? hget) h

theorem Sound.stored (h : Sound hash w) (file : File) (habsent : w.store.blobs.get? id = none)
    (hhash : hash file.content = id) (hblobs : s'.blobs = w.store.blobs.insert id file)
    (hrefs : s'.refs = w.store.refs) : Sound hash (w.stored s' id) := by
  have hthere : s'.blobs.contains id = true := by
    have hget : s'.blobs.get? id = some file := by
      rw [hblobs, Dict.get?_insert, if_pos rfl]
    exact contains_of_get? hget
  have hbefore : w.store.blobs.contains id = false := by
    unfold Dict.contains
    rw [habsent]
    rfl
  have hlog : (w.stored s' id).log = .stored id :: w.log := by
    unfold World.stored
    rw [hthere, hbefore]
    rfl
  constructor
  · intro k f hk
    have hget : s'.blobs.get? k = some f := hk
    rw [hblobs, Dict.get?_insert] at hget
    split at hget
    · rename_i heq
      cases hget
      rw [hhash, heq]
    · exact h.hashed k f hget
  · intro k
    rw [hlog]
    show s'.readRefs k = if id = k then 0 else count k w.log
    rw [BlobStore.readRefs_congr hrefs, h.counted]
    split
    · rename_i heq
      rw [<- heq]
      exact h.absent id habsent
    · rfl
  · intro k hk
    have hget : s'.blobs.get? k = none := hk
    rw [hlog]
    show (if id = k then 0 else count k w.log) = 0
    rw [hblobs, Dict.get?_insert] at hget
    split at hget
    · cases hget
    · split
      · rfl
      · exact h.absent k hget

theorem Sound.sidecars (h : Sound hash w) (hblobs : s'.blobs = w.store.blobs)
    (hrefs : s'.refs = w.store.refs) : Sound hash { w with store := s' } where
  hashed := by
    intro k f hk
    apply h.hashed k f
    rw [<- hblobs]
    exact hk
  counted := fun k => (BlobStore.readRefs_congr hrefs k).trans (h.counted k)
  absent := by
    intro k hk
    apply h.absent k
    rw [<- hblobs]
    exact hk

theorem Sound.removed (h : Sound hash w) {ids : List BlobId}
    (hremoved : BlobStore.Removed ids w.store s') : Sound hash { w with store := s' } where
  hashed := by
    intro k f hk
    have hget : s'.blobs.get? k = some f := hk
    rw [hremoved.blobs] at hget
    split at hget
    · cases hget
    · exact h.hashed k f hget
  counted := fun k => (hremoved.refs k).trans (h.counted k)
  absent := by
    intro k hk
    have hget : s'.blobs.get? k = none := hk
    rw [hremoved.blobs] at hget
    split at hget
    · rename_i hmem
      show count k w.log = 0
      rw [<- h.counted k]
      exact hremoved.zero k hmem
    · exact h.absent k hget

theorem Sound.there (h : Sound hash w) (hcount : 0 < count id w.log) :
    exists file, w.store.blobs.get? id = some file := by
  cases hget : w.store.blobs.get? id with
  | none =>
      rw [h.absent id hget] at hcount
      exact absurd hcount (Nat.lt_irrefl 0)
  | some file => exact ⟨file, rfl⟩

/-- What every step keeps: the invariant, and the blobs that are referenced. -/
structure Keeps (hash : Bytes -> BlobId) (w w' : World) : Prop where
  sound : Sound hash w'
  referenced : forall id, 0 < count id w.log ->
    w'.store.blobs.get? id = w.store.blobs.get? id

section

variable (h : Sound hash w)
include h

theorem Sound.keeps_stored (file : File) (habsent : w.store.blobs.get? id = none)
    (hhash : hash file.content = id) (hblobs : s'.blobs = w.store.blobs.insert id file)
    (hrefs : s'.refs = w.store.refs) : Keeps hash w (w.stored s' id) where
  sound := h.stored file habsent hhash hblobs hrefs
  referenced := by
    intro k hcount
    rcases h.there hcount with ⟨f, hf⟩
    show s'.blobs.get? k = _
    rw [hblobs, Dict.get?_insert, if_neg]
    rintro rfl
    rw [habsent] at hf
    cases hf

theorem Sound.keeps_removed {ids : List BlobId} (hremoved : BlobStore.Removed ids w.store s') :
    Keeps hash w { w with store := s' } where
  sound := h.removed hremoved
  referenced := by
    intro k hcount
    show s'.blobs.get? k = _
    rw [hremoved.blobs, if_neg]
    intro hmem
    rw [<- h.counted k, hremoved.zero k hmem] at hcount
    exact Nat.lt_irrefl 0 hcount

theorem Sound.keeps_self : Keeps hash w w where
  sound := h
  referenced := fun _ _ => rfl

theorem Sound.keeps_sidecars (hblobs : s'.blobs = w.store.blobs) (hrefs : s'.refs = w.store.refs) :
    Keeps hash w { w with store := s' } where
  sound := h.sidecars hblobs hrefs
  referenced := by
    intro k _
    show s'.blobs.get? k = _
    rw [hblobs]

theorem Sound.addRef (hthere : w.store.blobs.contains id = true)
    (hroom : w.store.readRefs id + 1 < 2 ^ 64)
    (hwrite : w.store.writeRefs id (w.store.readRefs id + 1) = .ok s') :
    Keeps hash w { store := s', log := .added id :: w.log } := by
  have hblobs := BlobStore.blobs_of_write hwrite
  constructor
  · constructor
    · intro k f hk
      apply h.hashed k f
      rw [<- hblobs]
      exact hk
    · intro k
      show s'.readRefs k = if id = k then count k w.log + 1 else count k w.log
      rw [BlobStore.readRefs_of_write hwrite (Nat.le_sub_one_of_lt hroom)]
      by_cases hk : k = id
      · rw [if_pos hk, if_pos hk.symm, h.counted, hk]
      · rw [if_neg hk, if_neg (fun heq => hk heq.symm), h.counted]
    · intro k hk
      have hget : w.store.blobs.get? k = none := by
        rw [<- hblobs]
        exact hk
      show (if id = k then count k w.log + 1 else count k w.log) = 0
      rw [if_neg, h.absent k hget]
      rintro rfl
      unfold Dict.contains at hthere
      rw [hget] at hthere
      cases hthere
  · intro k _
    show s'.blobs.get? k = _
    rw [hblobs]

theorem Sound.release (hwrite : w.store.writeRefs id (w.store.readRefs id - 1) = .ok s') :
    Keeps hash w { store := s', log := .released id :: w.log } := by
  have hblobs := BlobStore.blobs_of_write hwrite
  have hle := (Nat.sub_le _ 1).trans (BlobStore.readRefs_le w.store id)
  constructor
  · constructor
    · intro k f hk
      apply h.hashed k f
      rw [<- hblobs]
      exact hk
    · intro k
      show s'.readRefs k = if id = k then count k w.log - 1 else count k w.log
      rw [BlobStore.readRefs_of_write hwrite hle]
      by_cases hk : k = id
      · rw [if_pos hk, if_pos hk.symm, h.counted, hk]
      · rw [if_neg hk, if_neg (fun heq => hk heq.symm), h.counted]
    · intro k hk
      have hget : w.store.blobs.get? k = none := by
        rw [<- hblobs]
        exact hk
      show (if id = k then count k w.log - 1 else count k w.log) = 0
      rw [h.absent k hget]
      split
      · rfl
      · rfl
  · intro k _
    show s'.blobs.get? k = _
    rw [hblobs]

theorem Sound.step {a : Action} (hstep : w.step hash a = some w') : Keeps hash w w' := by
  cases a with
  | put now bytes =>
      cases hstep
      unfold BlobStore.put
      simp only []
      split
      · rw [World.stored_self]
        exact h.keeps_self
      · rename_i hnew
        exact h.keeps_stored { content := bytes, modified := now }
          (get?_of_not_contains hnew) rfl rfl rfl
  | putInterrupted now bytes =>
      cases hstep
      unfold BlobStore.putInterrupted
      simp only []
      split
      · exact h.keeps_self
      · exact h.keeps_sidecars rfl rfl
  | putVerified staged expected =>
      cases hstep
      unfold BlobStore.putVerified
      cases staged with
      | none =>
          rw [World.stored_self]
          exact h.keeps_self
      | some file =>
          simp only []
          split
          · rw [World.stored_self]
            exact h.keeps_self
          · rename_i hhash
            split
            · rw [World.stored_self]
              exact h.keeps_self
            · rename_i hnew
              exact h.keeps_stored file (get?_of_not_contains hnew)
                (not_not.mp hhash) rfl rfl
  | writeOutboard id proofs =>
      unfold World.step at hstep
      simp only [] at hstep
      split at hstep
      · cases hstep
        exact h.keeps_sidecars rfl rfl
      · cases hstep
  | addRef id =>
      rcases Option.map_eq_some_iff.mp hstep with ⟨⟨outcome, s'⟩, hadd, rfl⟩
      unfold BlobStore.addRef at hadd
      split at hadd
      · cases hadd
        exact h.keeps_self
      · rename_i hthere
        split at hadd
        · cases hadd
        · rename_i hroom
          cases hwrite : w.store.writeRefs id (w.store.readRefs id + 1) with
          | error e =>
              rw [hwrite] at hadd
              cases hadd
              exact h.keeps_self
          | ok s'' =>
              rw [hwrite] at hadd
              cases hadd
              exact h.addRef (Bool.eq_true_of_not_eq_false hthere) (Nat.not_le.mp hroom) hwrite
  | release id =>
      unfold World.step BlobStore.release at hstep
      simp only [] at hstep
      cases hwrite : w.store.writeRefs id (w.store.readRefs id - 1) with
      | error e =>
          rw [hwrite] at hstep
          cases hstep
          exact h.keeps_self
      | ok s' =>
          rw [hwrite] at hstep
          cases hstep
          exact h.release hwrite
  | gc stuck order now =>
      cases hstep
      exact h.keeps_removed (BlobStore.gc_removed stuck order now w.store).left
  | evictUnreferencedOver stuck order now maxBytes =>
      cases hstep
      rcases BlobStore.evictUnreferencedOver_removed stuck order now maxBytes w.store with
        ⟨k, -, hremoved, -, -⟩
      exact h.keeps_removed hremoved

end

/-- Whatever is done to a store: a blob is read as the content that its hash says, its count
is that of the references added and released since it was stored, and with references every
step keeps it; a collection removes exactly the blobs without any; and an eviction removes
no more of them, the oldest first, than it has to. -/
theorem referenced_blobs_survive (hash : Bytes -> BlobId) {acts : List Action} {w : World}
    (hrun : run? (World.step hash) World.new acts = some w) :
    (forall id file, w.store.blobs.get? id = some file ->
      w.store.get hash id = .ok file.content ∧ hash file.content = id) ∧
    (forall id, w.store.readRefs id = count id w.log) ∧
    (forall id, 0 < count id w.log -> (exists file, w.store.blobs.get? id = some file) ∧
      forall a w', w.step hash a = some w' ->
        w'.store.blobs.get? id = w.store.blobs.get? id) ∧
    (forall stuck order now,
      (forall id, id ∈ (w.store.gc stuck order now).fst <->
        count id w.log = 0 ∧ w.store.blobs.get? id ≠ none) ∧
      forall id, (w.store.gc stuck order now).snd.blobs.get? id =
        if 0 < count id w.log then w.store.blobs.get? id else none) ∧
    (forall stuck order now maxBytes, exists k,
      (w.store.evictUnreferencedOver stuck order now maxBytes).fst =
        ((w.store.unreferenced order).take k).map Prod.fst ∧
      (forall id, (w.store.evictUnreferencedOver stuck order now maxBytes).snd.blobs.get? id =
        if id ∈ (w.store.evictUnreferencedOver stuck order now maxBytes).fst then none
        else w.store.blobs.get? id) ∧
      BlobStore.sizeOf
        ((w.store.evictUnreferencedOver stuck order now maxBytes).snd.unreferenced order) <=
          maxBytes ∧
      forall j, j < k -> maxBytes < BlobStore.sizeOf ((w.store.unreferenced order).drop j)) := by
  have h : Sound hash w :=
    run?_invariant (fun _ _ _ h hstep => (Sound.step h hstep).sound) (sound_new hash) hrun
  refine ⟨?_, h.counted, ?_, ?_, ?_⟩
  · intro id file hfile
    have hhash := h.hashed id file hfile
    refine ⟨?_, hhash⟩
    unfold BlobStore.get
    rw [hfile]
    simp only []
    rw [if_neg (not_not.mpr hhash)]
  · intro id hcount
    refine ⟨h.there hcount, ?_⟩
    intro a w' hstep
    exact (Sound.step h hstep).referenced id hcount
  · intro stuck order now
    rcases BlobStore.gc_removed stuck order now w.store with ⟨hremoved, hmem⟩
    constructor
    · intro id
      rw [hmem, h.counted]
    · intro id
      rw [hremoved.blobs]
      by_cases hgone : id ∈ (w.store.gc stuck order now).fst
      · have hzero := hremoved.zero id hgone
        rw [h.counted] at hzero
        rw [if_pos hgone, if_neg (by omega)]
      · rw [if_neg hgone]
        split
        · rfl
        · rename_i hzero
          cases hget : w.store.blobs.get? id with
          | none => rfl
          | some file =>
              apply absurd _ hgone
              rw [hmem, h.counted, hget]
              exact ⟨Nat.eq_zero_of_not_pos hzero, Option.some_ne_none _⟩
  · intro stuck order now maxBytes
    rcases BlobStore.evictUnreferencedOver_removed stuck order now maxBytes w.store with
      ⟨k, hids, hremoved, hrest, hless⟩
    refine ⟨k, hids, hremoved.blobs, ?_, hless⟩
    rw [hids] at hremoved
    have hperm : ((w.store.evictUnreferencedOver stuck order now maxBytes).snd.unreferenced
        order).Perm ((w.store.unreferenced order).drop k) := BlobStore.unreferenced_perm hremoved
    exact ((hperm.map (fun entry => entry.snd.len)).sum_eq).trans_le hrest

/-- A hash for a small example. -/
def lengthHash (bytes : Bytes) : BlobId :=
  BitVec.ofNat 256 bytes.length

def keepOne : List Action :=
  [.put 0 [1, 2], .addRef 2, .put 5 [3], .release 1]

theorem referenced_blobs_survive_one :
    exists w, run? (World.step lengthHash) World.new keepOne = some w ∧
      (w.store.gc (fun _ => false) (fun _ => 0) 9).snd.blobs.get? 2 = some ⟨[1, 2], 0⟩ ∧
      (w.store.gc (fun _ => false) (fun _ => 0) 9).snd.blobs.get? 1 = none := by
  have hlog : (run? (World.step lengthHash) World.new keepOne).map World.log =
      some [.released 1, .stored 1, .added 2, .stored 2] := by decide
  have hblob : (run? (World.step lengthHash) World.new keepOne).bind
      (fun w => w.store.blobs.get? 2) = some ⟨[1, 2], 0⟩ := by decide
  cases hrun : run? (World.step lengthHash) World.new keepOne with
  | none =>
      rw [hrun] at hlog
      cases hlog
  | some w =>
      rw [hrun] at hlog hblob
      have hcounts := Option.some.inj hlog
      have hgc := ((referenced_blobs_survive lengthHash hrun).right.right.right.left
        (fun _ => false) (fun _ => 0) 9).right
      refine ⟨w, rfl, ?_, ?_⟩
      · rw [hgc 2, hcounts, if_pos (by decide)]
        exact hblob
      · rw [hgc 1, hcounts, if_neg (by decide)]

end Rabbithole.Blobs
