import Mathlib
import Rabbithole.Radio.Playlist

/-!
# Requests

Listeners ask for tracks and vote for what others asked for.  The queue is shown sorted with
one comparison and played by taking the largest by another.
-/

namespace Rabbithole.Radio

open List

structure QueuedRequest where
  track : Track
  voters : Finset String
  /-- Who asked for it, as opposed to who joined in. -/
  requester : String
  seq : Nat
deriving DecidableEq

def QueuedRequest.votes (r : QueuedRequest) : Nat :=
  r.voters.card % 2 ^ 32

inductive RadioError where
  | trackAlreadyQueued (id : UInt64)
  | trackNotQueued (id : UInt64)
deriving DecidableEq

structure RequestQueue where
  requests : List QueuedRequest
  nextSeq : Nat
deriving DecidableEq

def maxBy {value : Type} (cmp : value -> value -> Ordering) : List value -> Option value
  | [] => none
  | v :: rest => some (rest.foldl (fun best v => if cmp best v = .gt then best else v) v)

namespace RequestQueue

def empty : RequestQueue :=
  { requests := [], nextSeq := 0 }

def contains (q : RequestQueue) (id : UInt64) : Bool :=
  q.requests.any (fun r => r.track.id == id)

def enqueue (q : RequestQueue) (track : Track) (listener : String) :
    Except RadioError RequestQueue :=
  if q.contains track.id then .error (.trackAlreadyQueued track.id)
  else
    .ok
      { requests := q.requests ++
          [{ track := track, voters := {listener}, requester := listener, seq := q.nextSeq }]
        nextSeq := (q.nextSeq + 1) % 2 ^ 64 }

def playsBefore (a b : QueuedRequest) : Ordering :=
  (compare b.votes a.votes).then (compare a.seq b.seq)

def inPlayOrder (q : RequestQueue) : List QueuedRequest :=
  q.requests.mergeSort (fun a b => (playsBefore a b).isLE)

/-- A vote for the first request for a track, and how many it has then. -/
def backFirst (id : UInt64) (listener : String) :
    List QueuedRequest -> Option (Nat × List QueuedRequest)
  | [] => none
  | r :: rest =>
      if r.track.id = id then
        let r' := { r with voters := insert listener r.voters }
        some (r'.votes, r' :: rest)
      else (backFirst id listener rest).map (fun backed => (backed.fst, r :: backed.snd))

def upvote (q : RequestQueue) (id : UInt64) (listener : String) :
    Except RadioError (Nat × RequestQueue) :=
  match backFirst id listener q.requests with
  | none => .error (.trackNotQueued id)
  | some (votes, requests) => .ok (votes, { q with requests := requests })

def wins (a b : QueuedRequest) : Ordering :=
  (compare a.votes b.votes).then (compare b.seq a.seq)

def winnerIndex (q : RequestQueue) : Option Nat :=
  (maxBy (fun a b : QueuedRequest × Nat => wins a.fst b.fst) q.requests.zipIdx).map Prod.snd

def keepOnly (q : RequestQueue) (tracks : List Track) : Nat × RequestQueue :=
  let kept := q.requests.filterMap (fun r =>
    (tracks.find? (fun t => t.id == r.track.id)).map (fun t => { r with track := t }))
  (q.requests.length - kept.length, { q with requests := kept })

def popNext (q : RequestQueue) : Option (QueuedRequest × RequestQueue) :=
  q.winnerIndex.bind (fun i =>
    (q.requests[i]?).map (fun r => (r, { q with requests := q.requests.eraseIdx i })))

end RequestQueue

structure NowPlaying where
  title : String
  artist : String
  dj : String
deriving DecidableEq

structure StationController where
  playlist : Playlist
  queue : RequestQueue
  dj : String
  current : Option Track
  currentRequested : Bool
  startedAtMs : Nat
  /-- What the station was last told to show. -/
  shown : Option NowPlaying
deriving DecidableEq

namespace StationController

def replaceRotation (c : StationController) (tracks : List Track) : Nat × StationController :=
  let (dropped, queue) := c.queue.keepOnly tracks
  (dropped, { c with queue := queue, playlist := c.playlist.replace tracks })

def onTrackFinished (c : StationController) (nowMs : Nat) : Option Track × StationController :=
  let popped := c.queue.popNext
  let queue := (popped.map Prod.snd).getD c.queue
  let (next, playlist) :=
    match popped with
    | some (request, _) => (some request.track, c.playlist)
    | none => c.playlist.advance
  (next,
    { c with
      queue := queue
      playlist := playlist
      currentRequested := popped.isSome
      current := next
      startedAtMs := nowMs
      shown := (next.map (fun t => ⟨t.title, t.artist, c.dj⟩)).or c.shown })

end StationController

/-!
## The two comparisons
-/

namespace RequestQueue

variable {q q' : RequestQueue} {r r' : QueuedRequest}

theorem playsBefore_isLE (a b : QueuedRequest) :
    (playsBefore a b).isLE = true <-> b.votes < a.votes ∨ a.votes = b.votes ∧ a.seq <= b.seq := by
  unfold playsBefore
  rw [Ordering.isLE_then_iff_or, Nat.compare_eq_lt, Nat.compare_eq_eq, Nat.isLE_compare]
  exact or_congr_right (and_congr_left' eq_comm)

theorem playsBefore_total (a b : QueuedRequest) :
    (playsBefore a b).isLE || (playsBefore b a).isLE := by
  rw [Bool.or_eq_true, playsBefore_isLE, playsBefore_isLE]
  omega

theorem playsBefore_trans (a b c : QueuedRequest) (hab : (playsBefore a b).isLE)
    (hbc : (playsBefore b c).isLE) : (playsBefore a c).isLE := by
  rw [playsBefore_isLE] at *
  omega

theorem maxBy_spec {value : Type} {cmp : value -> value -> Ordering} (le : value -> value -> Prop)
    (hle : forall a b, cmp a b = .gt -> le a b) (hge : forall a b, cmp a b ≠ .gt -> le b a)
    (htrans : forall a b c, le a b -> le b c -> le a c) (hrefl : forall a, le a a)
    {l : List value} {v : value} (h : maxBy cmp l = some v) :
    v ∈ l ∧ forall w, w ∈ l -> le v w := by
  cases l with
  | nil => cases h
  | cons first rest =>
      have hv := Option.some.inj h
      clear h
      induction rest generalizing first with
      | nil =>
          subst hv
          refine ⟨mem_cons_self, ?_⟩
          intro w hw
          rw [mem_singleton.mp hw]
          exact hrefl first
      | cons second rest ih =>
          rw [foldl_cons] at hv
          rcases ih _ hv with ⟨hmem, hall⟩
          by_cases hcmp : cmp first second = .gt
          · rw [if_pos hcmp] at hmem hall
            refine ⟨?_, ?_⟩
            · rcases mem_cons.mp hmem with rfl | hrest
              · exact mem_cons_self
              · exact mem_cons_of_mem _ (mem_cons_of_mem _ hrest)
            · intro w hw
              rcases mem_cons.mp hw with rfl | hw
              · exact hall w mem_cons_self
              · rcases mem_cons.mp hw with rfl | hw
                · exact htrans _ _ _ (hall first mem_cons_self) (hle _ _ hcmp)
                · exact hall w (mem_cons_of_mem _ hw)
          · rw [if_neg hcmp] at hmem hall
            refine ⟨mem_cons_of_mem _ hmem, ?_⟩
            intro w hw
            rcases mem_cons.mp hw with rfl | hw
            · exact htrans _ _ _ (hall second mem_cons_self) (hge _ _ hcmp)
            · exact hall w hw

theorem winnerIndex_spec {i : Nat} (h : q.winnerIndex = some i) :
    exists r, q.requests[i]? = some r ∧
      forall w, w ∈ q.requests -> (playsBefore r w).isLE = true := by
  rcases Option.map_eq_some_iff.mp h with ⟨⟨winner, place⟩, hmax, hplace⟩
  have hflip : forall a b : QueuedRequest,
      wins a b = .gt <-> (playsBefore b a).isLE = false := by
    intro a b
    unfold wins playsBefore
    cases (compare a.votes b.votes).then (compare b.seq a.seq) <;> decide
  have hspec := maxBy_spec (fun a b => (playsBefore a.fst b.fst).isLE = true)
    (fun a b hgt => by
      have htotal := playsBefore_total a.fst b.fst
      rw [(hflip _ _).mp hgt, Bool.or_false] at htotal
      exact htotal)
    (fun a b hne => by
      by_contra hnot
      exact hne ((hflip _ _).mpr (Bool.eq_false_iff.mpr hnot)))
    (fun a b c => playsBefore_trans a.fst b.fst c.fst)
    (fun a => (playsBefore_isLE a.fst a.fst).mpr (.inr ⟨rfl, Nat.le_refl _⟩)) hmax
  refine ⟨winner, ?_, ?_⟩
  · rw [← hplace]
    exact mk_mem_zipIdx_iff_getElem?.mp hspec.left
  · intro w hw
    rcases getElem?_of_mem hw with ⟨j, hj⟩
    exact hspec.right (w, j) (mk_mem_zipIdx_iff_getElem?.mpr hj)

theorem popNext_spec (h : q.popNext = some (r, q')) :
    Perm q.requests (r :: q'.requests) ∧ Sublist q'.requests q.requests ∧
      (forall w, w ∈ q.requests -> (playsBefore r w).isLE = true) ∧ q'.nextSeq = q.nextSeq := by
  rcases Option.bind_eq_some_iff.mp h with ⟨i, hi, h⟩
  rcases Option.map_eq_some_iff.mp h with ⟨r, hr, hpair⟩
  rcases winnerIndex_spec hi with ⟨winner, hwinner, hall⟩
  cases hpair
  have hsame : r = winner := Option.some.inj (hr.symm.trans hwinner)
  subst hsame
  rcases List.getElem?_eq_some_iff.mp hr with ⟨hlt, hat⟩
  refine ⟨?_, List.eraseIdx_sublist _ _, hall, rfl⟩
  rw [← hat]
  exact (getElem_cons_eraseIdx_perm hlt).symm

theorem requests_of_popNext_none (h : q.popNext = none) : q.requests = [] := by
  cases hwinner : q.winnerIndex with
  | none =>
      cases hrequests : q.requests with
      | nil => rfl
      | cons first rest =>
          unfold winnerIndex at hwinner
          rw [hrequests] at hwinner
          cases hwinner
  | some i =>
      rcases winnerIndex_spec hwinner with ⟨r, hr, -⟩
      unfold popNext at h
      rw [hwinner, Option.bind_some, hr] at h
      cases h

/-!
## Runs
-/

inductive Op where
  | enqueue (track : Track) (listener : String)
  | upvote (id : UInt64) (listener : String)
  | keepOnly (tracks : List Track)
  | popNext

/-- What an error leaves is what was there before. -/
def step (q : RequestQueue) : Op -> RequestQueue
  | .enqueue track listener => (q.enqueue track listener).toOption.getD q
  | .upvote id listener => ((q.upvote id listener).toOption.map Prod.snd).getD q
  | .keepOnly tracks => (q.keepOnly tracks).snd
  | .popNext => (q.popNext.map Prod.snd).getD q

def run (ops : List Op) : RequestQueue :=
  ops.foldl step empty

theorem run_snoc (ops : List Op) (op : Op) : run (ops ++ [op]) = (run ops).step op := by
  unfold run
  rw [foldl_append]
  rfl

/-- Neither the votes for a track nor the number that the next request gets runs over. -/
def Fits (q : RequestQueue) : Op -> Prop
  | .enqueue _ _ => q.nextSeq + 1 < 2 ^ 64
  | .upvote id listener =>
      forall r, r ∈ q.requests -> r.track.id = id -> (insert listener r.voters).card < 2 ^ 32
  | _ => True

inductive Fitting : List Op -> Prop where
  | nil : Fitting []
  | snoc {ops : List Op} {op : Op} (h : Fitting ops) (fits : Fits (run ops) op) :
      Fitting (ops ++ [op])

def voteFor (id : UInt64) : Op -> Option String
  | .upvote id' listener => if id' = id then some listener else none
  | _ => none

def votersIn (id : UInt64) (ops : List Op) : Finset String :=
  (ops.filterMap (voteFor id)).toFinset

/-- A request was taken up at some step, has waited since, and its voters are whoever asked
for it and whoever has voted for it since. -/
def Backed (ops : List Op) (r : QueuedRequest) : Prop :=
  exists before track after, ops = before ++ .enqueue track r.requester :: after ∧
    track.id = r.track.id ∧ (run before).contains track.id = false ∧
    (forall front back, after = front ++ back ->
      (run (before ++ .enqueue track r.requester :: front)).contains track.id = true) ∧
    r.voters = insert r.requester (votersIn track.id after)

/-- What every fitting run keeps. -/
structure Kept (ops : List Op) (q : RequestQueue) : Prop where
  once : (q.requests.map (fun r => r.track.id)).Nodup
  seqs : q.requests.Pairwise (fun a b => a.seq < b.seq)
  below : forall r, r ∈ q.requests -> r.seq < q.nextSeq
  few : forall r, r ∈ q.requests -> r.voters.card < 2 ^ 32
  backed : forall r, r ∈ q.requests -> Backed ops r

theorem contains_iff (id : UInt64) :
    q.contains id = true <-> id ∈ q.requests.map (fun r => r.track.id) := by
  unfold contains
  rw [any_eq_true, mem_map]
  exact exists_congr fun r => and_congr_right fun _ => beq_iff_eq

theorem votersIn_append (id : UInt64) (ops more : List Op) :
    votersIn id (ops ++ more) = votersIn id ops ∪ votersIn id more := by
  unfold votersIn
  rw [filterMap_append, toFinset_append]

theorem Backed.step {ops : List Op} {op : Op} (h : Backed ops r)
    (hin : r' ∈ ((run ops).step op).requests) (hid : r'.track.id = r.track.id)
    (hrequester : r'.requester = r.requester)
    (hvoters : r'.voters = r.voters ∪ votersIn r.track.id [op]) : Backed (ops ++ [op]) r' := by
  rcases h with ⟨before, track, after, hops, htrack, hnew, hstays, hbacked⟩
  have hall : ops ++ [op] = before ++ .enqueue track r'.requester :: (after ++ [op]) := by
    rw [hops, hrequester, append_assoc, cons_append]
  refine ⟨before, track, after ++ [op], hall, htrack.trans hid.symm, hnew, ?_, ?_⟩
  · intro front back hsplit
    rw [hrequester]
    rcases append_eq_append_iff.mp hsplit with ⟨more, hfront, hrest⟩ | ⟨more, hafter, -⟩
    · cases more with
      | nil =>
          rw [append_nil] at hfront
          exact hstays front [] (by rw [hfront, append_nil])
      | cons first more =>
          rw [cons_append, List.cons.injEq, nil_eq_append_iff] at hrest
          rw [hfront, hrest.right.left, ← hrest.left, ← hrequester, ← hall, run_snoc, contains_iff,
            htrack, ← hid]
          exact mem_map_of_mem hin
    · exact hstays front more hafter
  · rw [hvoters, hbacked, htrack, hrequester, votersIn_append, Finset.insert_union]

/-- The step that takes up no request: some go, and the others have the votes that the step
gives them. -/
theorem kept_of_map {ops : List Op} {op : Op} {sub : List QueuedRequest}
    {f : QueuedRequest -> QueuedRequest} (h : Kept ops (run ops))
    (hstep : (run ops).step op = { run ops with requests := sub.map f })
    (hsub : Sublist sub (run ops).requests)
    (hf : forall r, r ∈ sub -> (f r).track.id = r.track.id ∧ (f r).seq = r.seq ∧
      (f r).requester = r.requester ∧ (f r).voters = r.voters ∪ votersIn r.track.id [op] ∧
      (f r).voters.card < 2 ^ 32) :
    Kept (ops ++ [op]) ((run ops).step op) := by
  have hmem : forall r', r' ∈ ((run ops).step op).requests -> exists r, r ∈ sub ∧ f r = r' := by
    intro r' hr'
    rw [hstep] at hr'
    exact mem_map.mp hr'
  refine ⟨?_, ?_, ?_, ?_, ?_⟩
  · have hids : (sub.map f).map (fun r => r.track.id) = sub.map (fun r => r.track.id) := by
      rw [map_map]
      exact map_congr_left (fun r hr => (hf r hr).left)
    rw [hstep, hids]
    exact h.once.sublist (hsub.map _)
  · rw [hstep]
    refine pairwise_map.mpr ((h.seqs.sublist hsub).imp_of_mem ?_)
    intro a b ha hb hlt
    rw [(hf a ha).right.left, (hf b hb).right.left]
    exact hlt
  · intro r' hr'
    rcases hmem r' hr' with ⟨r, hr, rfl⟩
    rw [hstep, (hf r hr).right.left]
    exact h.below r (hsub.subset hr)
  · intro r' hr'
    rcases hmem r' hr' with ⟨r, hr, rfl⟩
    exact (hf r hr).right.right.right.right
  · intro r' hr'
    rcases hmem r' hr' with ⟨r, hr, rfl⟩
    rcases hf r hr with ⟨hid, -, hrequester, hvoters, -⟩
    exact (h.backed r (hsub.subset hr)).step hr' hid hrequester hvoters

theorem kept_of_sublist {ops : List Op} {op : Op} (h : Kept ops (run ops))
    (hsub : Sublist ((run ops).step op).requests (run ops).requests)
    (hnext : ((run ops).step op).nextSeq = (run ops).nextSeq)
    (hnone : forall id, votersIn id [op] = ∅) : Kept (ops ++ [op]) ((run ops).step op) := by
  refine kept_of_map (f := id) h ?_ hsub ?_
  · rw [map_id]
    exact congrArg (fun n => ({ requests := ((run ops).step op).requests, nextSeq := n } :
      RequestQueue)) hnext
  · intro r hr
    refine ⟨rfl, rfl, rfl, ?_, h.few r (hsub.subset hr)⟩
    rw [hnone, Finset.union_empty]
    rfl

theorem kept_enqueue {ops : List Op} {track : Track} {listener : String}
    (h : Kept ops (run ops)) (hfits : Fits (run ops) (.enqueue track listener)) :
    Kept (ops ++ [.enqueue track listener]) ((run ops).step (.enqueue track listener)) := by
  cases hin : (run ops).contains track.id with
  | true =>
      have hstep : (run ops).step (.enqueue track listener) = run ops := by
        simp only [RequestQueue.step, enqueue, hin]
        rfl
      exact kept_of_sublist h (by rw [hstep]) (by rw [hstep]) (fun _ => rfl)
  | false =>
      have hstep : (run ops).step (.enqueue track listener) =
          { requests := (run ops).requests ++
              [{ track := track, voters := {listener}, requester := listener,
                 seq := (run ops).nextSeq }]
            nextSeq := (run ops).nextSeq + 1 } := by
        simp only [RequestQueue.step, enqueue, hin, Nat.mod_eq_of_lt hfits]
        rfl
      have hnew : track.id ∉ (run ops).requests.map (fun r => r.track.id) := by
        rw [← contains_iff, hin]
        decide
      refine ⟨?_, ?_, ?_, ?_, ?_⟩
      · rw [hstep, map_append]
        exact nodup_append_comm.mp (nodup_cons.mpr ⟨hnew, h.once⟩)
      · rw [hstep]
        refine pairwise_append.mpr ⟨h.seqs, pairwise_singleton _ _, ?_⟩
        intro a ha b hb
        rw [mem_singleton.mp hb]
        exact h.below a ha
      · intro r hr
        rw [hstep] at hr ⊢
        rcases mem_append.mp hr with hr | hr
        · exact Nat.lt_succ_of_lt (h.below r hr)
        · rw [mem_singleton.mp hr]
          exact Nat.lt_succ_self _
      · intro r hr
        rw [hstep] at hr
        rcases mem_append.mp hr with hr | hr
        · exact h.few r hr
        · rw [mem_singleton.mp hr, Finset.card_singleton]
          decide
      · intro r hr
        have hr' := hr
        rw [hstep] at hr'
        rcases mem_append.mp hr' with hold | hnew'
        · exact (h.backed r hold).step hr rfl rfl (Finset.union_empty _).symm
        · rw [mem_singleton.mp hnew']
          refine ⟨ops, track, [], rfl, rfl, hin, ?_, rfl⟩
          intro front back hsplit
          rw [(nil_eq_append_iff.mp hsplit).left, run_snoc, contains_iff, hstep]
          exact mem_map_of_mem (mem_append_right _ (mem_singleton_self _))

theorem backFirst_eq {id : UInt64} {listener : String} {requests : List QueuedRequest}
    (h : (requests.map (fun r => r.track.id)).Nodup) :
    ((backFirst id listener requests).map Prod.snd).getD requests = requests.map (fun r =>
      if r.track.id = id then { r with voters := insert listener r.voters } else r) := by
  induction requests with
  | nil => rfl
  | cons first rest ih =>
      rw [map_cons, nodup_cons] at h
      unfold backFirst
      by_cases hid : first.track.id = id
      · have hrest : rest.map (fun r : QueuedRequest =>
            if r.track.id = id then { r with voters := insert listener r.voters } else r) = rest := by
          refine (map_congr_left fun r hr => if_neg ?_).trans (map_id _)
          intro hsame
          exact h.left (mem_map.mpr ⟨r, hr, hsame.trans hid.symm⟩)
        rw [map_cons, if_pos hid, if_pos hid, hrest]
        rfl
      · rw [map_cons, if_neg hid, if_neg hid, ← ih h.right]
        cases backFirst id listener rest <;> rfl

theorem kept_upvote {ops : List Op} {id : UInt64} {listener : String} (h : Kept ops (run ops))
    (hfits : Fits (run ops) (.upvote id listener)) :
    Kept (ops ++ [.upvote id listener]) ((run ops).step (.upvote id listener)) := by
  refine kept_of_map h ?_ (Sublist.refl _) ?_ (f := fun r =>
    if r.track.id = id then { r with voters := insert listener r.voters } else r)
  · rw [← backFirst_eq h.once]
    simp only [RequestQueue.step, upvote]
    cases backFirst id listener (run ops).requests <;> rfl
  · intro r hr
    by_cases hid : r.track.id = id
    · rw [if_pos hid]
      refine ⟨rfl, rfl, rfl, ?_, hfits r hr hid⟩
      have hvote : voteFor r.track.id (.upvote id listener) = some listener := if_pos hid.symm
      unfold votersIn
      rw [filterMap_cons_some hvote, Finset.union_comm]
      rfl
    · rw [if_neg hid]
      refine ⟨rfl, rfl, rfl, ?_, h.few r hr⟩
      have hvote : voteFor r.track.id (.upvote id listener) = none := if_neg (Ne.symm hid)
      unfold votersIn
      rw [filterMap_cons_none hvote]
      exact (Finset.union_empty _).symm

theorem kept_keepOnly {ops : List Op} {tracks : List Track} (h : Kept ops (run ops)) :
    Kept (ops ++ [.keepOnly tracks]) ((run ops).step (.keepOnly tracks)) := by
  let found := fun r : QueuedRequest => tracks.find? (fun t => t.id == r.track.id)
  refine kept_of_map h ?_ (filter_sublist (p := fun r => (found r).isSome)) ?_
    (f := fun r => { r with track := (found r).getD r.track })
  · have hmap : forall l : List QueuedRequest,
        l.filterMap (fun r => (found r).map (fun t => { r with track := t })) =
          (l.filter (fun r => (found r).isSome)).map
            (fun r => { r with track := (found r).getD r.track }) := by
      intro l
      induction l with
      | nil => rfl
      | cons r l ih =>
          rw [filterMap_cons, filter_cons]
          cases hfound : found r with
          | none => exact ih
          | some t =>
              simp only [Option.map_some, Option.isSome_some, if_true, map_cons, hfound,
                Option.getD_some, ih]
    exact congrArg (fun l => ({ run ops with requests := l } : RequestQueue)) (hmap _)
  · intro r hr
    refine ⟨?_, rfl, rfl, (Finset.union_empty _).symm, h.few r (mem_filter.mp hr).left⟩
    rcases Option.isSome_iff_exists.mp (mem_filter.mp hr).right with ⟨t, ht⟩
    show ((found r).getD r.track).id = r.track.id
    rw [ht]
    exact eq_of_beq (find?_some (p := fun t : Track => t.id == r.track.id) ht)

theorem kept_popNext {ops : List Op} (h : Kept ops (run ops)) :
    Kept (ops ++ [.popNext]) ((run ops).step .popNext) := by
  cases hpop : (run ops).popNext with
  | none =>
      have hstep : (run ops).step .popNext = run ops := by
        simp only [RequestQueue.step, hpop]
        rfl
      exact kept_of_sublist h (by rw [hstep]) (by rw [hstep]) (fun _ => rfl)
  | some popped =>
      have hstep : (run ops).step .popNext = popped.snd := by
        simp only [RequestQueue.step, hpop]
        rfl
      rcases popNext_spec hpop with ⟨-, hsub, -, hnext⟩
      exact kept_of_sublist h (by rw [hstep]; exact hsub) (by rw [hstep]; exact hnext)
        (fun _ => rfl)

theorem Fitting.kept {ops : List Op} (h : Fitting ops) : Kept ops (run ops) := by
  induction h with
  | nil => exact ⟨nodup_nil, Pairwise.nil, nofun, nofun, nofun⟩
  | @snoc ops op _ hfits ih =>
      rw [run_snoc]
      cases op with
      | enqueue track listener => exact kept_enqueue ih hfits
      | upvote id listener => exact kept_upvote ih hfits
      | keepOnly tracks => exact kept_keepOnly ih
      | popNext => exact kept_popNext ih

/-!
## What is shown and what is played
-/

/-- What so many pops return. -/
def pops : Nat -> RequestQueue -> List QueuedRequest
  | 0, _ => []
  | n + 1, q =>
      match q.popNext with
      | none => []
      | some (r, q') => r :: pops n q'

section

variable (hseqs : (q.requests.map QueuedRequest.seq).Nodup) (h : q.popNext = some (r, q'))
include hseqs h

theorem inPlayOrder_of_popNext : q.inPlayOrder = r :: q'.inPlayOrder := by
  rcases popNext_spec h with ⟨hperm, -, hall, -⟩
  have hsorted := fun q : RequestQueue =>
    pairwise_mergeSort playsBefore_trans playsBefore_total q.requests
  have hsame := (mergeSort_perm q.requests (fun a b => (playsBefore a b).isLE)).trans
    (hperm.trans ((mergeSort_perm q'.requests
      (fun a b => (playsBefore a b).isLE)).cons r).symm)
  refine Perm.eq_of_pairwise ?_ (hsorted q) (pairwise_cons.mpr ⟨?_, hsorted q'⟩) hsame
  · -- no two requests came at once
    intro a b ha hb hab hba
    rw [playsBefore_isLE] at hab hba
    have hb' : b ∈ q.requests := by
      rw [← (mergeSort_perm q.requests (fun a b => (playsBefore a b).isLE)).mem_iff]
      exact hsame.mem_iff.mpr hb
    exact inj_on_of_nodup_map hseqs (mem_mergeSort.mp ha) hb' (by omega)
  · intro w hw
    exact hall w (hperm.mem_iff.mpr (mem_cons_of_mem r (mem_mergeSort.mp hw)))

theorem nodup_seqs_of_popNext : (q'.requests.map QueuedRequest.seq).Nodup :=
  hseqs.sublist ((popNext_spec h).right.left.map _)

end

theorem pops_eq (n : Nat) (hseqs : (q.requests.map QueuedRequest.seq).Nodup) :
    pops n q = q.inPlayOrder.take n := by
  induction n generalizing q with
  | zero => rfl
  | succ n ih =>
      unfold pops
      cases hpop : q.popNext with
      | none =>
          unfold inPlayOrder
          rw [requests_of_popNext_none hpop, mergeSort_nil]
          rfl
      | some popped =>
          rw [inPlayOrder_of_popNext hseqs hpop, take_succ_cons,
            ← ih (nodup_seqs_of_popNext hseqs hpop)]

/-- What a station plays as its tracks finish at some times. -/
def finishAll : List Nat -> StationController -> List (Option Track) × StationController
  | [], c => ([], c)
  | nowMs :: times, c =>
      let rest := finishAll times (c.onTrackFinished nowMs).snd
      ((c.onTrackFinished nowMs).fst :: rest.fst, rest.snd)

/-- While requests wait, the station plays them in the order shown, and its rotation stays
where it is. -/
theorem finishAll_eq (times : List Nat) (c : StationController)
    (hseqs : (c.queue.requests.map QueuedRequest.seq).Nodup)
    (hlength : times.length <= c.queue.requests.length) :
    (finishAll times c).fst =
        (c.queue.inPlayOrder.take times.length).map (fun r => some r.track) ∧
      (finishAll times c).snd.playlist = c.playlist ∧
      (finishAll times c).snd.queue.requests.length + times.length = c.queue.requests.length := by
  induction times generalizing c with
  | nil => exact ⟨rfl, rfl, rfl⟩
  | cons nowMs times ih =>
      cases hpop : c.queue.popNext with
      | none =>
          rw [requests_of_popNext_none hpop] at hlength
          exact absurd hlength (Nat.not_succ_le_zero _)
      | some popped =>
          have hfst : (c.onTrackFinished nowMs).fst = some popped.fst.track := by
            simp only [StationController.onTrackFinished, hpop]
          have hqueue : (c.onTrackFinished nowMs).snd.queue = popped.snd := by
            simp only [StationController.onTrackFinished, hpop]
            rfl
          have hplaylist : (c.onTrackFinished nowMs).snd.playlist = c.playlist := by
            simp only [StationController.onTrackFinished, hpop]
          have hcount := (popNext_spec hpop).left.length_eq
          rw [length_cons] at hcount hlength
          rcases ih (c.onTrackFinished nowMs).snd
            (by rw [hqueue]; exact nodup_seqs_of_popNext hseqs hpop)
            (by rw [hqueue]; omega) with ⟨htracks, hrotation, hleft⟩
          rw [hqueue] at htracks hleft
          refine ⟨?_, hrotation.trans hplaylist, ?_⟩
          · show (c.onTrackFinished nowMs).fst ::
              (finishAll times (c.onTrackFinished nowMs).snd).fst = _
            rw [hfst, htracks, inPlayOrder_of_popNext hseqs hpop]
            rfl
          · show (finishAll times (c.onTrackFinished nowMs).snd).snd.queue.requests.length +
              (times.length + 1) = _
            omega

/-- The queue that is shown is the queue that is played. -/
structure Shown (ops : List Op) : Prop where
  once : ((run ops).requests.map (fun r => r.track.id)).Nodup
  votes : forall r, r ∈ (run ops).requests ->
    Backed ops r ∧ r.votes = r.voters.card
  pops : forall n, pops n (run ops) = (run ops).inPlayOrder.take n
  complete : Perm (run ops).inPlayOrder (run ops).requests
  drained : forall (c : StationController) (times : List Nat) (nowMs : Nat),
    c.queue = run ops -> times.length = (run ops).requests.length ->
    (finishAll times c).fst = (run ops).inPlayOrder.map (fun r => some r.track) ∧
      (finishAll times c).snd.playlist = c.playlist ∧
      ((finishAll times c).snd.onTrackFinished nowMs).fst = c.playlist.advance.fst

theorem Fitting.shown {ops : List Op} (h : Fitting ops) : Shown ops := by
  have hkept := h.kept
  have hseqs : ((run ops).requests.map QueuedRequest.seq).Nodup :=
    pairwise_map.mpr (hkept.seqs.imp (fun hlt => Nat.ne_of_lt hlt))
  have hperm := mergeSort_perm (run ops).requests (fun a b => (playsBefore a b).isLE)
  refine ⟨hkept.once, ?_, fun n => pops_eq n hseqs, hperm, ?_⟩
  · intro r hr
    exact ⟨hkept.backed r hr, Nat.mod_eq_of_lt (hkept.few r hr)⟩
  · intro c times nowMs hqueue hlength
    rw [← hqueue] at hseqs hlength hperm ⊢
    rcases finishAll_eq times c hseqs (Nat.le_of_eq hlength) with ⟨htracks, hrotation, hleft⟩
    have hall : c.queue.inPlayOrder.take times.length = c.queue.inPlayOrder :=
      take_of_length_le (by rw [hlength]; exact Nat.le_of_eq hperm.length_eq)
    rw [hall] at htracks
    refine ⟨htracks, hrotation, ?_⟩
    have hempty : (finishAll times c).snd.queue.requests = [] :=
      length_eq_zero_iff.mp (by omega)
    have hpop : (finishAll times c).snd.queue.popNext = none := by
      unfold popNext winnerIndex
      rw [hempty]
      rfl
    simp only [StationController.onTrackFinished, hpop, hrotation]

theorem fitting_pair : Shown ([] ++ [.enqueue (Playlist.song 1) "mopsy"] ++ [.upvote 1 "flopsy"]) :=
  Fitting.shown (.snoc (.snoc .nil (by unfold Fits; decide)) (by
    intro r hr _
    exact lt_of_le_of_lt (Finset.card_insert_le _ _) (by
      rw [mem_singleton.mp hr]
      decide)))

def listener (i : Nat) : String :=
  String.ofList (List.replicate i 'a')

def crowd (n : Nat) : List Op :=
  .enqueue (Playlist.song 1) (listener 0) ::
    (List.range n).map (fun i => .upvote 1 (listener (i + 1)))

theorem run_crowd (n : Nat) :
    (run (crowd n)).requests =
      [{ track := Playlist.song 1, voters := (Finset.range (n + 1)).image listener,
         requester := listener 0, seq := 0 }] := by
  induction n with
  | zero => rfl
  | succ n ih =>
      have hsnoc : crowd (n + 1) = crowd n ++ [.upvote 1 (listener (n + 1))] := by
        unfold crowd
        rw [range_succ, map_append]
        rfl
      rw [hsnoc, run_snoc, Finset.range_add_one, Finset.image_insert]
      simp only [RequestQueue.step, upvote, ih]
      rfl

theorem not_shown_of_crowd {n : Nat} (hn : n + 1 = 2 ^ 32) : ¬ Shown (crowd n) := by
  intro h
  have hinj : Function.Injective listener := by
    intro i j hij
    have hlength := congrArg (fun s : String => s.toList.length) hij
    simp only [listener, String.toList_ofList, length_replicate] at hlength
    exact hlength
  have hmem := mem_singleton_self (⟨Playlist.song 1, (Finset.range (n + 1)).image listener,
    listener 0, 0⟩ : QueuedRequest)
  rw [← run_crowd n] at hmem
  have hvotes := (h.votes _ hmem).right
  unfold QueuedRequest.votes at hvotes
  rw [Finset.card_image_of_injective _ hinj, Finset.card_range, hn, Nat.mod_self] at hvotes
  exact absurd hvotes (by decide)

/-- As many listeners as there are numbers of 32 bits are no votes. -/
theorem not_shown_crowd : ¬ Shown (crowd (2 ^ 32 - 1)) :=
  not_shown_of_crowd (by decide)

end RequestQueue
end Rabbithole.Radio
