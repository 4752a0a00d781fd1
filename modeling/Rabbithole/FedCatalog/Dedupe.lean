import Mathlib.Data.String.Basic
import Rabbithole.FedCatalog.Cache
import Rabbithole.Foundation.Keyed
import Rabbithole.Foundation.Paging

/-!
# One file of many servers

The answers of several servers to a search are put together by the hash of a file.  A
server is a source of a hash once, with the first of its paths and names.
-/

namespace Rabbithole.FedCatalog

open Foundation Federation List

structure Match where
  entry : CatalogEntry
deriving DecidableEq

structure SearchResult where
  serverKey : ServerKey
  generation : UInt64
  matches_ : List Match
deriving DecidableEq

structure ServerRef where
  serverKey : ServerKey
  generation : UInt64
  area : String
  path : String
  name : String
deriving DecidableEq

structure DedupedMatch where
  hash : BitVec (8 * 32)
  size : UInt64
  sources : List ServerRef
deriving DecidableEq

/-- The bytes of a key or a hash, as they are compared. -/
def keyBytes (k : BitVec (8 * 32)) : List Nat :=
  ((Codec.array 32).encode k).map UInt8.toNat

def ServerRef.locator (s : ServerRef) : String ×ₗ String :=
  toLex (s.path, s.name)

def ServerRef.rank (s : ServerRef) : List Nat ×ₗ Nat :=
  toLex (keyBytes s.serverKey, s.generation.toNat)

/-- A server that is a source already keeps the better place. -/
def insertSource (sources : List ServerRef) (candidate : ServerRef) : List ServerRef :=
  upsert ServerRef.serverKey candidate.serverKey (lower ServerRef.locator candidate) sources

/-- Where a match is to be found. -/
def SearchResult.source (result : SearchResult) (m : Match) : ServerRef where
  serverKey := result.serverKey
  generation := result.generation
  area := m.entry.area
  path := m.entry.path
  name := m.entry.name

/-- The entry of the hash takes the source, or is new with it. -/
def addSource (hash : BitVec (8 * 32)) (size : UInt64) (candidate : ServerRef)
    (out : List DedupedMatch) : List DedupedMatch :=
  upsert DedupedMatch.hash hash (fun found =>
    match found with
    | some existing => { existing with sources := insertSource existing.sources candidate }
    | none => ⟨hash, size, [candidate]⟩) out

def DedupedMatch.sorted (d : DedupedMatch) : DedupedMatch :=
  { d with sources := listBy ServerRef.rank d.sources }

def dedupeByHash (results : List SearchResult) : List DedupedMatch :=
  let out := results.foldl (fun out result =>
    result.matches_.foldl (fun out m =>
      addSource m.entry.hash m.entry.size (result.source m) out) out) []
  listBy (fun d => keyBytes d.hash) (out.map DedupedMatch.sorted)

/-!
## One match at a time
-/

structure Candidate where
  hash : BitVec (8 * 32)
  size : UInt64
  source : ServerRef

def candidatesOf (result : SearchResult) : List Candidate :=
  result.matches_.map (fun m => ⟨m.entry.hash, m.entry.size, result.source m⟩)

def candidates (results : List SearchResult) : List Candidate :=
  results.flatMap candidatesOf

def collect (cs : List Candidate) : List DedupedMatch :=
  cs.foldl (fun out c => addSource c.hash c.size c.source out) []

def finish (out : List DedupedMatch) : List DedupedMatch :=
  listBy (fun d => keyBytes d.hash) (out.map DedupedMatch.sorted)

theorem dedupeByHash_eq (results : List SearchResult) :
    dedupeByHash results = finish (collect (candidates results)) := by
  unfold dedupeByHash finish collect candidates candidatesOf
  rw [foldl_flatMap]
  simp only [foldl_map]

theorem collect_concat (cs : List Candidate) (c : Candidate) :
    collect (cs ++ [c]) = addSource c.hash c.size c.source (collect cs) := by
  unfold collect
  rw [foldl_append]
  rfl

theorem keyBytes_injective : Function.Injective keyBytes := by
  have htoNat : Function.Injective UInt8.toNat := fun _ _ heq => UInt8.toNat_inj.mp heq
  exact (map_injective_iff.mpr htoNat).comp (Codec.array 32).encode_injective

theorem atKey_insertSource (candidate : ServerRef) :
    AtKey ServerRef.serverKey candidate.serverKey (lower ServerRef.locator candidate) where
  new := rfl
  old := by
    intro s hkey
    unfold lower
    simp only
    split
    · rfl
    · exact hkey

theorem atKey_addSource (hash : BitVec (8 * 32)) (size : UInt64) (candidate : ServerRef) :
    AtKey DedupedMatch.hash hash (fun found =>
      match found with
      | some existing => { existing with sources := insertSource existing.sources candidate }
      | none => ⟨hash, size, [candidate]⟩) where
  new := rfl
  old := fun _ hhash => hhash

/-- Hashes are apart, and the servers of each. -/
structure Apart (out : List DedupedMatch) : Prop where
  hashes : (out.map DedupedMatch.hash).Nodup
  servers : forall d, d ∈ out -> (d.sources.map ServerRef.serverKey).Nodup

theorem apart_collect (cs : List Candidate) : Apart (collect cs) := by
  induction cs using List.reverseRecOn with
  | nil => exact ⟨nodup_nil, fun _ hd => nomatch hd⟩
  | append_singleton cs c ih =>
      rw [collect_concat]
      refine ⟨nodup_upsert (atKey_addSource _ _ _) ih.hashes, ?_⟩
      intro d hd
      rcases mem_upsert hd with hold | rfl | ⟨d', hd', rfl⟩
      · exact ih.servers d hold
      · exact nodup_singleton _
      · exact nodup_upsert (atKey_insertSource _) (ih.servers d' hd')

/-- The source that a server is of a hash. -/
def look (out : List DedupedMatch) (hash : BitVec (8 * 32)) (key : ServerKey) : Option ServerRef :=
  (findKey DedupedMatch.hash out hash).bind (fun d => findKey ServerRef.serverKey d.sources key)

theorem look_addSource (hash : BitVec (8 * 32)) (size : UInt64) (candidate : ServerRef)
    (out : List DedupedMatch) (h : BitVec (8 * 32)) (k : ServerKey) :
    look (addSource hash size candidate out) h k =
      if h = hash ∧ k = candidate.serverKey then
        some (lower ServerRef.locator candidate (look out h k)) else look out h k := by
  unfold look addSource
  rw [findKey_upsert (atKey_addSource hash size candidate)]
  by_cases hhash : h = hash
  · rw [if_pos hhash, hhash]
    cases findKey DedupedMatch.hash out hash with
    | none =>
        simp only [Option.bind_some, Option.bind_none, true_and]
        rw [findKey_cons]
        by_cases hkey : k = candidate.serverKey
        · rw [if_pos hkey.symm, if_pos hkey]
          rfl
        · rw [if_neg (fun heq => hkey heq.symm), if_neg hkey]
          rfl
    | some d =>
        simp only [Option.bind_some, true_and]
        unfold insertSource
        rw [findKey_upsert (atKey_insertSource candidate)]
        by_cases hkey : k = candidate.serverKey
        · rw [if_pos hkey, if_pos hkey, hkey]
        · rw [if_neg hkey, if_neg hkey]
  · rw [if_neg hhash, if_neg (fun hboth => hhash hboth.left)]

def sourcesAt (cs : List Candidate) (h : BitVec (8 * 32)) (k : ServerKey) : List ServerRef :=
  (cs.filter (fun c => decide (c.hash = h ∧ c.source.serverKey = k))).map Candidate.source

theorem look_collect (cs : List Candidate) (h : BitVec (8 * 32)) (k : ServerKey) :
    look (collect cs) h k = firstLeast ServerRef.locator (sourcesAt cs h k) := by
  induction cs using List.reverseRecOn with
  | nil => rfl
  | append_singleton cs c ih =>
      rw [collect_concat, look_addSource, ih]
      unfold sourcesAt
      rw [filter_append, map_append]
      by_cases hat : h = c.hash ∧ k = c.source.serverKey
      · rw [if_pos hat, filter_cons, if_pos (decide_eq_true ⟨hat.left.symm, hat.right.symm⟩)]
        exact (firstLeast_concat _ _ _).symm
      · rw [if_neg hat, filter_cons, if_neg, filter_nil, map_nil, append_nil]
        intro heq
        have hboth := of_decide_eq_true heq
        exact hat ⟨hboth.left.symm, hboth.right.symm⟩

theorem size_collect (cs : List Candidate) (h : BitVec (8 * 32)) :
    (findKey DedupedMatch.hash (collect cs) h).map DedupedMatch.size =
      (findKey Candidate.hash cs h).map Candidate.size := by
  induction cs using List.reverseRecOn with
  | nil => rfl
  | append_singleton cs c ih =>
      rw [collect_concat]
      unfold addSource
      rw [findKey_upsert (atKey_addSource c.hash c.size c.source)]
      have hconcat : findKey Candidate.hash (cs ++ [c]) h =
          (findKey Candidate.hash cs h).or (findKey Candidate.hash [c] h) := find?_append
      rw [hconcat, findKey_cons]
      by_cases hhash : h = c.hash
      · rw [if_pos hhash, if_pos hhash.symm, <- hhash]
        cases hold : findKey DedupedMatch.hash (collect cs) h with
        | none =>
            rw [hold, Option.map_none] at ih
            rw [Option.map_eq_none_iff.mp ih.symm]
            rfl
        | some d =>
            rw [hold, Option.map_some] at ih
            rcases Option.map_eq_some_iff.mp ih.symm with ⟨c', hc', hsize⟩
            rw [hc']
            exact congrArg some hsize.symm
      · rw [if_neg hhash, if_neg (fun heq => hhash heq.symm), ih]
        cases findKey Candidate.hash cs h with
        | none => rfl
        | some c' => rfl

/-!
## Sorting
-/

/-- A server offers a hash somewhere. -/
def Offers (out : List DedupedMatch) (h : BitVec (8 * 32)) (s : ServerRef) : Prop :=
  exists d, d ∈ out ∧ d.hash = h ∧ s ∈ d.sources

variable {results results' : List SearchResult} {s : ServerRef} {h : BitVec (8 * 32)}
  {out : List DedupedMatch}

theorem look_eq_some_iff (hapart : Apart out) {k : ServerKey} :
    look out h k = some s <-> Offers out h s ∧ s.serverKey = k := by
  unfold look Offers
  constructor
  · intro hlook
    rcases Option.bind_eq_some_iff.mp hlook with ⟨d, hd, hs⟩
    rcases key_of_findKey hd with ⟨hmem, hhash⟩
    rcases key_of_findKey hs with ⟨hsource, hkey⟩
    exact ⟨⟨d, hmem, hhash, hsource⟩, hkey⟩
  · rintro ⟨⟨d, hmem, hhash, hsource⟩, hkey⟩
    rw [(findKey_eq_some_iff hapart.hashes).mpr ⟨hmem, hhash⟩, Option.bind_some]
    exact (findKey_eq_some_iff (hapart.servers d hmem)).mpr ⟨hsource, hkey⟩

theorem offers_finish : Offers (finish out) h s <-> Offers out h s := by
  unfold Offers finish
  constructor
  · rintro ⟨d, hd, hhash, hs⟩
    rw [mem_listBy] at hd
    rcases mem_map.mp hd with ⟨d', hd', rfl⟩
    exact ⟨d', hd', hhash, mem_listBy.mp hs⟩
  · rintro ⟨d, hd, hhash, hs⟩
    exact ⟨d.sorted, mem_listBy.mpr (mem_map_of_mem hd), hhash, mem_listBy.mpr hs⟩

theorem map_hash_sorted (out : List DedupedMatch) :
    (out.map DedupedMatch.sorted).map DedupedMatch.hash = out.map DedupedMatch.hash := by
  rw [map_map]
  rfl

theorem sorted_eq {out' : List DedupedMatch} (hapart : Apart out) (hapart' : Apart out')
    (hsize : forall h, (findKey DedupedMatch.hash out h).map DedupedMatch.size =
      (findKey DedupedMatch.hash out' h).map DedupedMatch.size)
    (hlook : forall h k, look out h k = look out' h k) {d : DedupedMatch} (hd : d ∈ out) :
    exists d', d' ∈ out' ∧ d'.sorted = d.sorted := by
  have hfound := (findKey_eq_some_iff hapart.hashes).mpr ⟨hd, rfl⟩
  have hboth := hsize d.hash
  rw [hfound, Option.map_some] at hboth
  rcases Option.map_eq_some_iff.mp hboth.symm with ⟨d', hd', hsizes⟩
  rcases key_of_findKey hd' with ⟨hmem', hhash⟩
  refine ⟨d', hmem', ?_⟩
  have hsame : forall s, s ∈ d'.sources <-> s ∈ d.sources := by
    intro s
    have hat := hlook d.hash s.serverKey
    unfold look at hat
    rw [hfound, hd', Option.bind_some, Option.bind_some] at hat
    have hfirst := @findKey_eq_some_iff _ _ _ _ _ (hapart.servers d hd) s.serverKey s
    have hsecond := @findKey_eq_some_iff _ _ _ _ _ (hapart'.servers d' hmem') s.serverKey s
    rw [hat, hsecond] at hfirst
    simp only [and_true] at hfirst
    exact hfirst
  have hperm : d'.sources.Perm d.sources := by
    have hnodup := Nodup.of_map _ (hapart.servers d hd)
    have hnodup' := Nodup.of_map _ (hapart'.servers d' hmem')
    exact (perm_ext_iff_of_nodup hnodup' hnodup).mpr hsame
  have hlist : listBy ServerRef.rank d'.sources = listBy ServerRef.rank d.sources := by
    apply listBy_perm hperm
    intro a b ha hb hrank
    have hkeys := congrArg (fun r => (ofLex r).fst) hrank
    exact inj_on_of_nodup_map (hapart'.servers d' hmem') ha hb (keyBytes_injective hkeys)
  unfold DedupedMatch.sorted
  rw [hlist, hhash, hsizes]

theorem nodup_sorted (hapart : Apart out) : (out.map DedupedMatch.sorted).Nodup := by
  apply Nodup.of_map DedupedMatch.hash
  rw [map_hash_sorted]
  exact hapart.hashes

theorem finish_eq {out' : List DedupedMatch} (hapart : Apart out) (hapart' : Apart out')
    (hsize : forall h, (findKey DedupedMatch.hash out h).map DedupedMatch.size =
      (findKey DedupedMatch.hash out' h).map DedupedMatch.size)
    (hlook : forall h k, look out h k = look out' h k) : finish out = finish out' := by
  unfold finish
  have hperm : (out.map DedupedMatch.sorted).Perm (out'.map DedupedMatch.sorted) := by
    refine (perm_ext_iff_of_nodup (nodup_sorted hapart) (nodup_sorted hapart')).mpr ?_
    intro e
    constructor
    · intro he
      rcases mem_map.mp he with ⟨d, hd, rfl⟩
      rcases sorted_eq hapart hapart' hsize hlook hd with ⟨d', hd', heq⟩
      exact mem_map.mpr ⟨d', hd', heq⟩
    · intro he
      rcases mem_map.mp he with ⟨d, hd, rfl⟩
      rcases sorted_eq hapart' hapart (fun h => (hsize h).symm) (fun h k => (hlook h k).symm) hd
        with ⟨d', hd', heq⟩
      exact mem_map.mpr ⟨d', hd', heq⟩
  apply listBy_perm hperm
  intro a b ha hb hrank
  have hnodup : ((out.map DedupedMatch.sorted).map DedupedMatch.hash).Nodup := by
    rw [map_hash_sorted]
    exact hapart.hashes
  exact inj_on_of_nodup_map hnodup ha hb (keyBytes_injective hrank)

/-!
## Any order of the answers
-/

/-- The answers in another order, and the matches of each. -/
def Shuffled (results results' : List SearchResult) : Prop :=
  exists mid, results.Perm mid ∧ Forall₂ (fun r r' => r.serverKey = r'.serverKey ∧
    r.generation = r'.generation ∧ r.matches_.Perm r'.matches_) mid results'

/-- A server lists a hash at a place. -/
def Listed (results : List SearchResult) (h : BitVec (8 * 32)) (s : ServerRef) : Prop :=
  exists r m, r ∈ results ∧ m ∈ r.matches_ ∧ m.entry.hash = h ∧ s = r.source m

theorem candidates_perm (h : Shuffled results results') :
    (candidates results).Perm (candidates results') := by
  rcases h with ⟨mid, hperm, hall⟩
  refine (hperm.flatMap_right candidatesOf).trans ?_
  clear hperm
  induction hall with
  | nil => exact Perm.refl _
  | @cons r r' rest rest' hfirst _ ih =>
      rw [flatMap_cons]
      refine Perm.append ?_ ih
      rcases hfirst with ⟨hkey, hgeneration, hmatches⟩
      unfold candidatesOf SearchResult.source
      rw [hkey, hgeneration]
      exact hmatches.map _

theorem mem_candidates {c : Candidate} (h : c ∈ candidates results) :
    exists r m, r ∈ results ∧ m ∈ r.matches_ ∧
      c = ⟨m.entry.hash, m.entry.size, r.source m⟩ := by
  rcases mem_flatMap.mp h with ⟨r, hr, hc⟩
  rcases mem_map.mp hc with ⟨m, hm, heq⟩
  exact ⟨r, m, hr, hm, heq.symm⟩

theorem mem_sourcesAt {k : ServerKey} :
    s ∈ sourcesAt (candidates results) h k <-> Listed results h s ∧ s.serverKey = k := by
  unfold sourcesAt Listed
  constructor
  · intro hmem
    rcases mem_map.mp hmem with ⟨c, hc, rfl⟩
    rcases mem_filter.mp hc with ⟨hin, hat⟩
    rcases of_decide_eq_true hat with ⟨hhash, hkey⟩
    rcases mem_candidates hin with ⟨r, m, hr, hm, rfl⟩
    exact ⟨⟨r, m, hr, hm, hhash, rfl⟩, hkey⟩
  · rintro ⟨⟨r, m, hr, hm, hhash, rfl⟩, hkey⟩
    refine mem_map.mpr ⟨⟨m.entry.hash, m.entry.size, r.source m⟩, ?_, rfl⟩
    refine mem_filter.mpr ⟨?_, decide_eq_true ⟨hhash, hkey⟩⟩
    exact mem_flatMap.mpr ⟨r, hr, mem_map.mpr ⟨m, hm, rfl⟩⟩

/-- One entry for each hash that is listed, with each server that lists it once. -/
structure Deduped (results : List SearchResult) (out : List DedupedMatch) : Prop where
  hashes : out.Pairwise (fun d d' => keyBytes d.hash < keyBytes d'.hash)
  listed : forall h, (exists d, d ∈ out ∧ d.hash = h) <-> exists s, Listed results h s
  sorted : forall d, d ∈ out -> d.sources.Pairwise (fun s s' => s.rank < s'.rank)
  servers : forall d, d ∈ out -> (d.sources.map ServerRef.serverKey).Nodup
  offered : forall d, d ∈ out -> forall k, (exists s, s ∈ d.sources ∧ s.serverKey = k) <->
    exists s, Listed results d.hash s ∧ s.serverKey = k
  sources : forall d, d ∈ out -> forall s, s ∈ d.sources -> Listed results d.hash s

theorem apart_finish (hapart : Apart out) : Apart (finish out) := by
  have hperm : (finish out).Perm (out.map DedupedMatch.sorted) := perm_listBy _ _
  constructor
  · refine ((hperm.map DedupedMatch.hash).nodup_iff).mpr ?_
    rw [map_hash_sorted]
    exact hapart.hashes
  · intro d hd
    rcases mem_map.mp (hperm.mem_iff.mp hd) with ⟨d', hd', rfl⟩
    exact ((perm_listBy _ _).map _).nodup_iff.mpr (hapart.servers d' hd')

theorem offers_iff :
    Offers (dedupeByHash results) h s <->
      firstLeast ServerRef.locator (sourcesAt (candidates results) h s.serverKey) = some s := by
  rw [dedupeByHash_eq, offers_finish, <- look_collect, look_eq_some_iff (apart_collect _)]
  exact (and_iff_left rfl).symm

theorem listed_of_offers (hoffers : Offers (dedupeByHash results) h s) : Listed results h s :=
  (mem_sourcesAt.mp (firstLeast_spec (offers_iff.mp hoffers)).left).left

theorem offers_of_listed (hlisted : Listed results h s) :
    exists s', Offers (dedupeByHash results) h s' ∧ s'.serverKey = s.serverKey := by
  have hmem := mem_sourcesAt.mpr ⟨hlisted, rfl⟩
  cases hfirst : firstLeast ServerRef.locator
      (sourcesAt (candidates results) h s.serverKey) with
  | none =>
      rw [firstLeast_eq_none_iff.mp hfirst] at hmem
      cases hmem
  | some s' =>
      have hkey := (mem_sourcesAt.mp (firstLeast_spec hfirst).left).right
      refine ⟨s', offers_iff.mpr ?_, hkey⟩
      rw [hkey]
      exact hfirst

theorem deduped_dedupeByHash (results : List SearchResult) :
    Deduped results (dedupeByHash results) := by
  have hcollected := apart_collect (candidates results)
  have hapart : Apart (dedupeByHash results) := by
    rw [dedupeByHash_eq]
    exact apart_finish hcollected
  have hsources : forall d, d ∈ dedupeByHash results -> forall s, s ∈ d.sources ->
      Listed results d.hash s := fun d hd s hs => listed_of_offers ⟨d, hd, rfl, hs⟩
  have hsorted : forall d, d ∈ dedupeByHash results ->
      exists d', d' ∈ collect (candidates results) ∧ d = d'.sorted := by
    intro d hd
    rw [dedupeByHash_eq] at hd
    unfold finish at hd
    rw [mem_listBy] at hd
    rcases mem_map.mp hd with ⟨d', hd', rfl⟩
    exact ⟨d', hd', rfl⟩
  constructor
  · rw [dedupeByHash_eq]
    apply strict_listBy
    have hnodup := hcollected.hashes.map keyBytes_injective
    rw [<- map_hash_sorted, map_map] at hnodup
    exact hnodup
  · intro h
    constructor
    · rintro ⟨d, hd, rfl⟩
      rcases hsorted d hd with ⟨d', hd', rfl⟩
      -- The entry was made of a candidate.
      have hsize := size_collect (candidates results) d'.hash
      rw [(findKey_eq_some_iff hcollected.hashes).mpr ⟨hd', rfl⟩, Option.map_some] at hsize
      rcases Option.map_eq_some_iff.mp hsize.symm with ⟨c, hc, _⟩
      rcases key_of_findKey hc with ⟨hmem, hhash⟩
      rcases mem_candidates hmem with ⟨r, m, hr, hm, rfl⟩
      exact ⟨r.source m, r, m, hr, hm, hhash, rfl⟩
    · rintro ⟨s, hlisted⟩
      rcases offers_of_listed hlisted with ⟨s', ⟨d, hd, hhash, _⟩, _⟩
      exact ⟨d, hd, hhash⟩
  · intro d hd
    rcases hsorted d hd with ⟨d', hd', rfl⟩
    apply strict_listBy
    have hnodup := (hcollected.servers d' hd').map keyBytes_injective
    rw [map_map] at hnodup
    apply Nodup.of_map (fun r : List Nat ×ₗ Nat => (ofLex r).fst)
    rw [map_map]
    exact hnodup
  · exact hapart.servers
  · intro d hd k
    constructor
    · rintro ⟨s, hs, hkey⟩
      exact ⟨s, hsources d hd s hs, hkey⟩
    · rintro ⟨s, hlisted, rfl⟩
      rcases offers_of_listed hlisted with ⟨s', ⟨d', hd', hhash, hs'⟩, hkey⟩
      rw [inj_on_of_nodup_map hapart.hashes hd' hd hhash] at hs'
      exact ⟨s', hs', hkey⟩
  · exact hsources

/-- Where a server lists a hash more than once at its first path and name, it is in one
area. -/
def OneArea (results : List SearchResult) : Prop :=
  forall h s s', Listed results h s -> Listed results h s' -> s'.serverKey = s.serverKey ->
    s'.locator = s.locator ->
    (forall t, Listed results h t -> t.serverKey = s.serverKey -> s.locator <= t.locator) ->
    s.area = s'.area

theorem listed_shuffled (h : Shuffled results results') {hash : BitVec (8 * 32)} :
    Listed results' hash s <-> Listed results hash s := by
  have hsame : s ∈ sourcesAt (candidates results) hash s.serverKey <->
      s ∈ sourcesAt (candidates results') hash s.serverKey := by
    unfold sourcesAt
    exact (((candidates_perm h).filter _).map _).mem_iff
  rw [mem_sourcesAt, mem_sourcesAt] at hsame
  simp only [and_true] at hsame
  exact hsame.symm

theorem exists_shuffled {r : SearchResult} {m : Match} (hr : r ∈ results) (hm : m ∈ r.matches_) :
    exists results' rest, Shuffled results results' ∧
      candidates results' = ⟨m.entry.hash, m.entry.size, r.source m⟩ :: rest := by
  rcases append_of_mem hr with ⟨front, back, rfl⟩
  rcases append_of_mem hm with ⟨before, after, hmatches⟩
  refine ⟨{ r with matches_ := m :: (before ++ after) } :: (front ++ back), _, ?_, rfl⟩
  refine ⟨r :: (front ++ back), perm_middle, Forall₂.cons ⟨rfl, rfl, ?_⟩ ?_⟩
  · rw [hmatches]
    exact perm_middle
  · exact forall₂_same.mpr (fun _ _ => ⟨rfl, rfl, Perm.refl _⟩)

theorem offers_first (hshuffled : Shuffled results results') {size : UInt64} {rest : List Candidate}
    (hfirst : candidates results' = ⟨h, size, s⟩ :: rest)
    (hleast : forall t, Listed results h t -> t.serverKey = s.serverKey ->
      s.locator <= t.locator) : Offers (dedupeByHash results') h s := by
  rw [offers_iff]
  have hall : forall t, t ∈ sourcesAt (candidates results') h s.serverKey ->
      s.locator <= t.locator := by
    intro t ht
    rcases mem_sourcesAt.mp ht with ⟨hlisted, hkey⟩
    exact hleast t ((listed_shuffled hshuffled).mp hlisted) hkey
  have hcons : sourcesAt (candidates results') h s.serverKey =
      s :: sourcesAt rest h s.serverKey := by
    rw [hfirst]
    unfold sourcesAt
    rw [filter_cons, if_pos (decide_eq_true ⟨rfl, rfl⟩)]
    rfl
  rw [hcons] at hall ⊢
  exact firstLeast_cons (fun t ht => hall t (mem_cons_of_mem _ ht))

/-- The answers may come in any order just where ties are in one area. -/
theorem dedupe_order_free (results : List SearchResult)
    (hsize : forall r r' m m', r ∈ results -> r' ∈ results -> m ∈ r.matches_ ->
      m' ∈ r'.matches_ -> m.entry.hash = m'.entry.hash -> m.entry.size = m'.entry.size)
    (hgeneration : forall r r', r ∈ results -> r' ∈ results -> r.serverKey = r'.serverKey ->
      r.generation = r'.generation) :
    ((forall results', Shuffled results results' ->
        dedupeByHash results' = dedupeByHash results) ∧
      Deduped results (dedupeByHash results)) <-> OneArea results := by
  constructor
  · rintro ⟨hfree, _⟩ h s s' ⟨r, m, hr, hm, hhash, rfl⟩ ⟨r', m', hr', hm', hhash', rfl⟩ hkey
      hlocator hleast
    subst hhash
    rcases exists_shuffled hr hm with ⟨first, rest, hfirst, hcandidates⟩
    rcases exists_shuffled hr' hm' with ⟨second, rest', hsecond, hcandidates'⟩
    rw [hhash'] at hcandidates'
    have hoffers := offers_first hfirst hcandidates hleast
    have hoffers' := offers_first hsecond hcandidates' (by
      intro t ht htkey
      rw [hlocator]
      exact hleast t ht (htkey.trans hkey))
    rw [hfree first hfirst, offers_iff] at hoffers
    rw [hfree second hsecond, offers_iff, hkey, hoffers] at hoffers'
    exact congrArg ServerRef.area (Option.some.inj hoffers')
  · intro harea
    refine ⟨?_, deduped_dedupeByHash results⟩
    intro results' hshuffled
    have hperm := candidates_perm hshuffled
    rw [dedupeByHash_eq, dedupeByHash_eq]
    apply finish_eq (apart_collect _) (apart_collect _)
    · intro h
      rw [size_collect, size_collect]
      cases hnew : findKey Candidate.hash (candidates results') h with
      | none =>
          have hold : findKey Candidate.hash (candidates results) h = none := by
            rw [findKey_eq_none_iff] at hnew ⊢
            exact fun c hc => hnew c (hperm.mem_iff.mp hc)
          rw [hold]
      | some c' =>
          rcases key_of_findKey hnew with ⟨hmem', hhash'⟩
          cases hold : findKey Candidate.hash (candidates results) h with
          | none => exact absurd hhash' (findKey_eq_none_iff.mp hold c' (hperm.mem_iff.mpr hmem'))
          | some c =>
              rcases key_of_findKey hold with ⟨hmem, hhash⟩
              rcases mem_candidates hmem with ⟨r, m, hr, hm, rfl⟩
              rcases mem_candidates (hperm.mem_iff.mpr hmem') with ⟨r', m', hr', hm', rfl⟩
              exact congrArg some (hsize r' r m' m hr' hr hm' hm (hhash'.trans hhash.symm))
    · intro h k
      rw [look_collect, look_collect]
      apply firstLeast_perm
      · unfold sourcesAt
        exact ((hperm.symm.filter _).map _)
      · -- Two lowest places are of one server, generation, path, name and area.
        intro s s' hs hs' hleast hlocator
        rcases mem_sourcesAt.mp hs with ⟨hlisted, hkey⟩
        rcases mem_sourcesAt.mp hs' with ⟨hlisted', hkey'⟩
        rw [listed_shuffled hshuffled] at hlisted hlisted'
        have hsame := harea h s s' hlisted hlisted' (hkey'.trans hkey.symm) hlocator.symm (by
          intro t ht htkey
          apply hleast t
          exact mem_sourcesAt.mpr ⟨(listed_shuffled hshuffled).mpr ht, htkey.trans hkey⟩)
        have hpath := congrArg (fun l => (ofLex l).fst) hlocator
        have hname := congrArg (fun l => (ofLex l).snd) hlocator
        rcases hlisted with ⟨r, m, hr, _, _, rfl⟩
        rcases hlisted' with ⟨r', m', hr', _, _, rfl⟩
        have hservers : r.serverKey = r'.serverKey := hkey.trans hkey'.symm
        have hgenerations := hgeneration r r' hr hr' hservers
        unfold SearchResult.source at hsame hpath hname ⊢
        unfold ServerRef.locator at hpath hname
        simp only [ofLex_toLex] at hsame hpath hname
        rw [hservers, hgenerations, hsame, hpath, hname]

def rootMatch (area : String) : Match :=
  ⟨⟨"game.zip", 1000, 42, area, "", "", 0⟩⟩

/-- Two servers have the same file, each in one place. -/
def twoServers : List SearchResult :=
  [⟨3, 1, [rootMatch "warez"]⟩, ⟨1, 4, [rootMatch "warez"]⟩]

theorem mem_twoServers {r : SearchResult} (h : r ∈ twoServers) :
    r.matches_ = [rootMatch "warez"] ∧
      (r.serverKey = 3 ∧ r.generation = 1 ∨ r.serverKey = 1 ∧ r.generation = 4) := by
  unfold twoServers at h
  simp only [mem_cons, not_mem_nil, or_false] at h
  rcases h with rfl | rfl
  · exact ⟨rfl, Or.inl ⟨rfl, rfl⟩⟩
  · exact ⟨rfl, Or.inr ⟨rfl, rfl⟩⟩

theorem dedupe_order_free_twoServers :
    (forall results', Shuffled twoServers results' ->
        dedupeByHash results' = dedupeByHash twoServers) ∧
      Deduped twoServers (dedupeByHash twoServers) := by
  refine (dedupe_order_free twoServers ?_ ?_).mpr ?_
  · intro r r' m m' hr hr' hm hm' _
    rw [(mem_twoServers hr).left, mem_singleton] at hm
    rw [(mem_twoServers hr').left, mem_singleton] at hm'
    rw [hm, hm']
  · intro r r' hr hr' hkey
    rcases (mem_twoServers hr).right with ⟨hk, hg⟩ | ⟨hk, hg⟩
    · rcases (mem_twoServers hr').right with ⟨_, hg'⟩ | ⟨hk', _⟩
      · rw [hg, hg']
      · rw [hk, hk'] at hkey
        exact absurd hkey (by decide)
    · rcases (mem_twoServers hr').right with ⟨hk', _⟩ | ⟨_, hg'⟩
      · rw [hk, hk'] at hkey
        exact absurd hkey (by decide)
      · rw [hg, hg']
  · rintro h s s' ⟨r, m, hr, hm, _, rfl⟩ ⟨r', m', hr', hm', _, rfl⟩ _ _ _
    rw [(mem_twoServers hr).left, mem_singleton] at hm
    rw [(mem_twoServers hr').left, mem_singleton] at hm'
    rw [hm, hm']
    rfl

/-- One server has the same bytes under one name in two areas. -/
theorem not_dedupe_order_free :
    ¬ forall results results' : List SearchResult,
      (forall r r' m m', r ∈ results -> r' ∈ results -> m ∈ r.matches_ ->
        m' ∈ r'.matches_ -> m.entry.hash = m'.entry.hash -> m.entry.size = m'.entry.size) ->
      (forall r r', r ∈ results -> r' ∈ results -> r.serverKey = r'.serverKey ->
        r.generation = r'.generation) ->
      Shuffled results results' -> dedupeByHash results' = dedupeByHash results := by
  intro h
  have hsame := h [⟨1, 1, [rootMatch "warez", rootMatch "pub"]⟩]
    [⟨1, 1, [rootMatch "pub", rootMatch "warez"]⟩] (by
      intro r r' m m' hr hr' hm hm' _
      rw [mem_singleton] at hr hr'
      subst hr
      subst hr'
      simp only [mem_cons, not_mem_nil, or_false] at hm hm'
      rcases hm with rfl | rfl
      · rcases hm' with rfl | rfl
        · rfl
        · rfl
      · rcases hm' with rfl | rfl
        · rfl
        · rfl) (by
      intro r r' hr hr' _
      rw [mem_singleton] at hr hr'
      rw [hr, hr']) ⟨_, Perm.refl _, Forall₂.cons ⟨rfl, rfl, Perm.swap _ _ _⟩
        Forall₂.nil⟩
  revert hsame
  decide

end Rabbithole.FedCatalog
