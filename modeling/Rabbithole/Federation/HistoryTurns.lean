import Rabbithole.Federation.HistoryState

/-!
# Passes are spaced

What one step can do to the table, and what every step keeps of it: who holds what, and
how long ago the last pass to a peer began.
-/

namespace Rabbithole.Federation
namespace History

open Foundation List Dict

variable {key cursor : Type} [DecidableEq key] {s : State key cursor} {peer p : key}
  {link id now cadenceSecs : Nat}

/-!
## Links and cooldowns
-/

theorem isEmpty_eq_false {value : Type} {d : Dict Nat value} {v : value}
    (h : d.get? id = some v) : d.isEmpty = false := by
  cases hempty : d.isEmpty with
  | false => rfl
  | true =>
      rw [isEmpty_iff.mp hempty id] at h
      cases h

theorem get?_pruned (s : State key cursor) (now : Nat) (p : key) :
    (s.pruned now).peers.get? p = (s.peers.get? p).filter (fun entry =>
      !entry.links.isEmpty || entry.lastPass.any (fun last => decide (now - last < seconds 3600))) :=
  get?_retain _ _ _

@[simp] theorem link?_pruned (s : State key cursor) (now : Nat) (p : key) (id : Nat) :
    (s.pruned now).link? p id = s.link? p id := by
  unfold State.link?
  rw [get?_pruned]
  cases hentry : s.peers.get? p with
  | none => rfl
  | some entry =>
      rw [Option.filter_some]
      split
      · rfl
      · rename_i hdropped
        cases hlink : entry.links.get? id with
        | none => exact hlink.symm
        | some l =>
            rw [isEmpty_eq_false hlink] at hdropped
            exact absurd rfl hdropped

theorem lastPass?_pruned {last : Nat} (h : s.lastPass? p = some last) (now : Nat) :
    (s.pruned now).lastPass? p = some last ∨ last + seconds 3600 <= now := by
  unfold State.lastPass? at *
  rw [get?_pruned]
  rcases Option.bind_eq_some_iff.mp h with ⟨entry, hentry, hlast⟩
  rw [hentry, Option.filter_some]
  split
  · exact Or.inl hlast
  · rename_i hdropped
    rw [hlast, Bool.or_eq_true, not_or] at hdropped
    have hover := hdropped.right
    simp only [Option.any_some, decide_eq_true_eq] at hover
    right
    unfold seconds at *
    omega

theorem lastPass?_of_pruned {last : Nat} (h : (s.pruned now).lastPass? p = some last) :
    s.lastPass? p = some last := by
  unfold State.lastPass? at *
  rw [get?_pruned] at h
  rcases Option.bind_eq_some_iff.mp h with ⟨entry, hentry, hlast⟩
  rw [(Option.filter_eq_some_iff.mp hentry).left]
  exact hlast

@[simp] theorem get?_change (s : State key cursor) (peer p : key)
    (f : Peer cursor -> Peer cursor) :
    (s.change peer f).peers.get? p =
      (s.peers.get? p).map (fun entry => if p = peer then f entry else entry) :=
  get?_modify _ _ _ _

theorem link?_changeLink (s : State key cursor) (peer p : key) (link id : Nat)
    (f : Link cursor -> Link cursor) :
    (s.changeLink peer link f).link? p id =
      (s.link? p id).map (fun l => if p = peer ∧ id = link then f l else l) := by
  unfold State.link? State.changeLink
  rw [get?_change]
  cases s.peers.get? p with
  | none => rfl
  | some entry =>
      by_cases hpeer : p = peer
      · simp [hpeer]
      · simp [hpeer]

theorem lastPass?_changeLink (s : State key cursor) (peer p : key) (link : Nat)
    (f : Link cursor -> Link cursor) : (s.changeLink peer link f).lastPass? p = s.lastPass? p := by
  unfold State.lastPass? State.changeLink
  rw [get?_change]
  cases s.peers.get? p with
  | none => rfl
  | some entry =>
      by_cases hpeer : p = peer
      · simp [hpeer]
      · simp [hpeer]

/-- The entries behind a table, by their bounds. -/
structure Sized (s : State key cursor) : Prop where
  peers : s.peers.size <= peerLimit
  links : forall p entry, s.peers.get? p = some entry -> entry.links.size <= linkLimit

theorem size_modify_le {value : Type} (d : Dict Nat value) (k : Nat) (f : value -> value) :
    (d.modify k f).size <= d.size :=
  size_filterMap_le _ d

theorem Sized.pruned (h : Sized s) (now : Nat) : Sized (s.pruned now) where
  peers := Nat.le_trans (size_filterMap_le _ _) h.peers
  links := by
    intro p entry hentry
    rw [get?_pruned] at hentry
    exact h.links p entry (Option.filter_eq_some_iff.mp hentry).left

theorem Sized.change (h : Sized s) (peer : key) {f : Peer cursor -> Peer cursor}
    (hf : forall entry, (f entry).links.size <= entry.links.size) : Sized (s.change peer f) where
  peers := Nat.le_trans (size_filterMap_le _ _) h.peers
  links := by
    intro p entry hentry
    rw [get?_change] at hentry
    rcases Option.map_eq_some_iff.mp hentry with ⟨old, hold, rfl⟩
    have hle := h.links p old hold
    split
    · exact Nat.le_trans (hf old) hle
    · exact hle

theorem Sized.changeLink (h : Sized s) (peer : key) (link : Nat) (f : Link cursor -> Link cursor) :
    Sized (s.changeLink peer link f) :=
  h.change peer (fun entry => size_modify_le entry.links link f)

/-!
## Registering
-/

/-- Whose last pass it was. -/
def lastLink? (s : State key cursor) (p : key) : Option Nat :=
  (s.peers.get? p).map Peer.lastLink

/-- A new link changes neither the other links nor the cooldowns. -/
structure Registered (s : State key cursor) (peer : key) (now : Nat) (link? : Option Nat)
    (s' : State key cursor) : Prop where
  lastPass : forall p, s'.lastPass? p = (s.pruned now).lastPass? p
  link : forall p id, s'.link? p id =
    if p = peer ∧ link? = some id then some Link.new else s.link? p id
  lastLink : forall p id l, s.link? p id = some l -> lastLink? s' p = lastLink? s p
  next : s.nextLink <= s'.nextLink
  fresh : forall id, link? = some id -> id = s.nextLink + 1 ∧ id <= s'.nextLink
  sized : Sized s -> Sized s'

theorem lastLink?_pruned {l : Link cursor} (h : s.link? p id = some l) (now : Nat) :
    lastLink? (s.pruned now) p = lastLink? s p := by
  rcases Option.bind_eq_some_iff.mp h with ⟨entry, hentry, hl⟩
  unfold lastLink?
  rw [get?_pruned, hentry, Option.filter_some, isEmpty_eq_false hl]
  rfl

theorem registered_pruned (s : State key cursor) (peer : key) (now : Nat) :
    Registered s peer now none (s.pruned now) where
  lastPass := fun _ => rfl
  link := by
    intro p id
    rw [link?_pruned, if_neg (by simp)]
  lastLink := fun p id l h => lastLink?_pruned h now
  next := Nat.le_refl _
  fresh := fun id h => by cases h
  sized := fun h => h.pruned now

theorem registered_insert (s : State key cursor) (peer : key) (now : Nat) (link? : Option Nat)
    (hroom : (s.pruned now).peers.contains peer = true ∨
      (s.pruned now).peers.size < peerLimit)
    {links : Dict Nat (Link cursor)}
    (hlinks : forall id, links.get? id =
      if link? = some id then some Link.new
      else (((s.pruned now).peers.get? peer).getD Peer.new).links.get? id)
    (hfresh : forall id, link? = some id -> id = s.nextLink + 1)
    (hsize : Sized s -> links.size <= linkLimit) : Registered s peer now link?
      { nextLink := s.nextLink + 1
        peers := (s.pruned now).peers.insert peer
          { ((s.pruned now).peers.get? peer).getD Peer.new with links := links } } where
  lastPass := by
    intro p
    unfold State.lastPass?
    rw [get?_insert]
    split
    · rename_i hp
      rw [hp]
      cases (s.pruned now).peers.get? peer with
      | none => rfl
      | some entry => rfl
    · rfl
  link := by
    intro p id
    rw [<- link?_pruned s now]
    unfold State.link?
    rw [get?_insert]
    by_cases hp : p = peer
    · rw [if_pos hp, Option.bind_some]
      show links.get? id = _
      rw [hlinks id]
      by_cases hid : link? = some id
      · rw [if_pos hid, if_pos ⟨hp, hid⟩]
      · rw [if_neg hid, if_neg (fun h => hid h.right), hp]
        cases (s.pruned now).peers.get? peer with
        | none => rfl
        | some entry => rfl
    · rw [if_neg hp, if_neg (fun h => hp h.left)]
  lastLink := by
    intro p id l h
    rw [<- lastLink?_pruned h now]
    have hthere := h
    rw [<- link?_pruned s now] at hthere
    rcases Option.bind_eq_some_iff.mp hthere with ⟨entry, hentry, -⟩
    unfold lastLink?
    rw [get?_insert]
    split
    · rename_i hp
      rw [<- hp, hentry]
      rfl
    · rfl
  next := Nat.le_succ _
  fresh := fun id hid => ⟨hfresh id hid, by rw [hfresh id hid]⟩
  sized := by
    intro h
    have hpruned := h.pruned now
    constructor
    · have hcount := size_insert (s.pruned now).peers peer
        { ((s.pruned now).peers.get? peer).getD Peer.new with links := links }
      have hpeers := hpruned.peers
      show ((s.pruned now).peers.insert peer _).size <= peerLimit
      rcases hroom with hthere | hroom
      · rw [if_pos hthere] at hcount
        omega
      · split at hcount
        · omega
        · omega
    · intro p entry hentry
      rw [get?_insert] at hentry
      split at hentry
      · cases hentry
        exact hsize h
      · exact hpruned.links p entry hentry

theorem register_registered (s : State key cursor) (peer : key) (now : Nat) :
    Registered s peer now (s.register peer now).fst (s.register peer now).snd := by
  unfold State.register
  simp only []
  split
  · exact registered_pruned s peer now
  · rename_i hroom
    have hroom' : (s.pruned now).peers.contains peer = true ∨
        (s.pruned now).peers.size < peerLimit := by
      cases hcontains : (s.pruned now).peers.contains peer with
      | true => exact Or.inl rfl
      | false => exact Or.inr (Nat.not_le.mp (fun hle => hroom ⟨hcontains, hle⟩))
    split
    · exact registered_pruned s peer now
    · split
      · apply registered_insert s peer now none hroom'
        · intro id
          rw [if_neg (by simp)]
          rfl
        · intro id hid
          cases hid
        · intro h
          cases hentry : (s.pruned now).peers.get? peer with
          | none => exact Nat.zero_le _
          | some entry => exact (h.pruned now).links peer entry hentry
      · rename_i hlinks
        apply registered_insert s peer now (some (s.nextLink + 1)) hroom'
        · intro id
          rw [get?_insert]
          show (if id = s.nextLink + 1 then _ else _) = _
          by_cases hid : id = s.nextLink + 1
          · rw [if_pos hid, if_pos (by rw [hid])]
          · rw [if_neg hid, if_neg (fun h => hid (Option.some.inj h).symm)]
        · intro id hid
          cases hid
          rfl
        · intro h
          have hcount := size_insert
            (((s.pruned now).peers.get? peer).getD Peer.new).links ((s.pruned now).nextLink + 1)
            (Link.new : Link cursor)
          omega

/-!
## Beginning
-/

theorem interval_le (cadenceSecs : Nat) :
    0 < interval cadenceSecs ∧ interval cadenceSecs <= seconds 3600 := by
  unfold interval seconds
  split
  · decide
  · omega

/-- What it takes to begin: no pass within the interval, none under way, and the turn. -/
structure Begins (s : State key cursor) (peer : key) (link now cadenceSecs : Nat)
    (entry : Peer cursor) (l : Link cursor) : Prop where
  found : s.peers.get? peer = some entry
  rested : forall last, entry.lastPass = some last -> last + interval cadenceSecs <= now
  idle : forall id l, entry.links.get? id = some l -> l.busy = false
  turn : entry.turn = some link
  link : entry.links.get? link = some l

theorem mayBegin_eq_some {found : Option cursor}
    (h : s.mayBegin peer link now cadenceSecs = some found) :
    exists entry l, Begins s peer link now cadenceSecs entry l ∧ l.cursor = found := by
  unfold State.mayBegin at h
  rcases Option.bind_eq_some_iff.mp h with ⟨entry, hentry, h⟩
  split at h
  · cases h
  · rename_i hfree
    rw [not_or] at hfree
    split at h
    · cases h
    · rename_i hturn
      rcases Option.map_eq_some_iff.mp h with ⟨l, hl, hfound⟩
      refine ⟨entry, l, ⟨hentry, ?_, ?_, not_not.mp hturn, hl⟩, hfound⟩
      · intro last hlast
        have hover := hfree.left
        rw [hlast, Option.any_some, decide_eq_true_eq] at hover
        have hpos := (interval_le cadenceSecs).left
        omega
      · intro id other hother
        have hnone := hfree.right
        rw [Bool.not_eq_true, any_eq_false] at hnone
        have hone := hnone (id, other) (get?_eq_some_iff.mp hother)
        exact Bool.not_eq_true _ ▸ hone

variable {entry : Peer cursor}

theorem mem_ring :
    id ∈ entry.ring <-> exists l, entry.links.get? id = some l ∧ l.active = true := by
  unfold Peer.ring
  rw [mem_map]
  constructor
  · rintro ⟨⟨id', l⟩, hmem, rfl⟩
    rw [mem_listBy, mem_filter] at hmem
    exact ⟨l, get?_eq_some_iff.mpr hmem.left, hmem.right⟩
  · rintro ⟨l, hl, hactive⟩
    refine ⟨(id, l), ?_, rfl⟩
    rw [mem_listBy, mem_filter]
    exact ⟨get?_eq_some_iff.mp hl, hactive⟩

theorem pairwise_ring (entry : Peer cursor) : entry.ring.Pairwise (fun a b => a <= b) := by
  unfold Peer.ring
  rw [pairwise_map]
  exact pairwise_listBy _ _

/-- An active link is not passed over: the turn goes on behind the last one and not
beyond it, or starts again and not beyond it. -/
theorem turn_before {other : Nat} (hturn : entry.turn = some id) (hother : other ∈ entry.ring) :
    (entry.lastLink < id ∧ (entry.lastLink < other -> id <= other)) ∨
      (other <= entry.lastLink ∧ id <= other) := by
  have hsorted := pairwise_ring entry
  unfold Peer.turn at hturn
  cases hfind : entry.ring.find? (fun id => entry.lastLink < id) with
  | some found =>
      rw [hfind, Option.some_or] at hturn
      cases hturn
      left
      have hlt := find?_some hfind
      rw [decide_eq_true_eq] at hlt
      refine ⟨hlt, ?_⟩
      intro hbehind
      rcases find?_eq_some_iff_append.mp hfind with ⟨-, before, after, hsplit, hbefore⟩
      rw [hsplit] at hother hsorted
      rcases mem_append.mp hother with hfirst | hrest
      · have hno := hbefore other hfirst
        rw [Bool.not_eq_true', decide_eq_false_iff_not] at hno
        exact absurd hbehind hno
      · rcases mem_cons.mp hrest with rfl | hafter
        · exact Nat.le_refl _
        · exact (pairwise_cons.mp (pairwise_append.mp hsorted).right.left).left _ hafter
  | none =>
      rw [hfind, Option.none_or] at hturn
      right
      have hnone := find?_eq_none.mp hfind other hother
      rw [decide_eq_true_eq] at hnone
      refine ⟨Nat.not_lt.mp hnone, ?_⟩
      cases hring : entry.ring with
      | nil =>
          rw [hring] at hturn
          cases hturn
      | cons first rest =>
          rw [hring] at hturn hother hsorted
          cases hturn
          rcases mem_cons.mp hother with rfl | hrest
          · exact Nat.le_refl _
          · exact (pairwise_cons.mp hsorted).left _ hrest

/-- The table after a link has begun. -/
def begunState (s : State key cursor) (peer : key) (link now : Nat) : State key cursor :=
  s.change peer (fun entry =>
    { lastPass := some now
      lastLink := link
      links := entry.links.modify link (fun l => { l with busy := true }) })

theorem begin_cases (s : State key cursor) (peer : key) (link now cadenceSecs : Nat) :
    s.begin peer link now cadenceSecs = (none, s) ∨
      exists entry l, Begins s peer link now cadenceSecs entry l ∧
        s.begin peer link now cadenceSecs = (some l.cursor, begunState s peer link now) := by
  unfold State.begin
  cases hmay : s.mayBegin peer link now cadenceSecs with
  | none => exact Or.inl rfl
  | some found =>
      rcases mayBegin_eq_some hmay with ⟨entry, l, hbegins, rfl⟩
      exact Or.inr ⟨entry, l, hbegins, rfl⟩

theorem link?_begunState (s : State key cursor) (peer p : key) (link now id : Nat) :
    (begunState s peer link now).link? p id =
      (s.link? p id).map (fun l => if p = peer ∧ id = link then { l with busy := true } else l) := by
  have hsame := link?_changeLink s peer p link id (fun l => { l with busy := true })
  rw [<- hsame]
  unfold State.link? State.changeLink begunState
  rw [get?_change, get?_change]
  cases s.peers.get? p with
  | none => rfl
  | some entry =>
      by_cases hp : p = peer
      · simp [hp]
      · simp [hp]

theorem lastPass?_begunState (hentry : s.peers.get? peer = some entry) (link now : Nat) (p : key) :
    (begunState s peer link now).lastPass? p =
      if p = peer then some now else s.lastPass? p := by
  unfold State.lastPass? begunState
  rw [get?_change]
  by_cases hp : p = peer
  · rw [hp, hentry, if_pos rfl, Option.map_some, if_pos rfl]
    rfl
  · rw [if_neg hp]
    cases s.peers.get? p with
    | none => rfl
    | some other =>
        rw [Option.map_some, if_neg hp]

theorem lastLink?_begunState (hentry : s.peers.get? peer = some entry) (link now : Nat) (p : key) :
    lastLink? (begunState s peer link now) p =
      if p = peer then some link else lastLink? s p := by
  unfold lastLink? begunState
  rw [get?_change]
  by_cases hp : p = peer
  · rw [hp, hentry, if_pos rfl, Option.map_some, if_pos rfl]
    rfl
  · rw [if_neg hp]
    cases s.peers.get? p with
    | none => rfl
    | some other =>
        rw [Option.map_some, if_neg hp]

theorem lastLink?_changeLink (s : State key cursor) (peer p : key) (link : Nat)
    (f : Link cursor -> Link cursor) : lastLink? (s.changeLink peer link f) p = lastLink? s p := by
  unfold lastLink? State.changeLink
  rw [get?_change]
  cases s.peers.get? p with
  | none => rfl
  | some entry =>
      by_cases hpeer : p = peer
      · simp [hpeer]
      · simp [hpeer]

theorem link?_dropRegistration (s : State key cursor) (peer p : key) (link id : Nat) :
    (s.dropRegistration peer link).link? p id =
      if p = peer ∧ id = link then none else s.link? p id := by
  unfold State.link? State.dropRegistration
  rw [get?_change]
  cases s.peers.get? p with
  | none => simp
  | some entry =>
      by_cases hp : p = peer
      · by_cases hid : id = link
        · simp [hp, hid]
        · simp [hp, hid]
      · simp [hp]

theorem lastPass?_dropRegistration (s : State key cursor) (peer p : key) (link : Nat) :
    (s.dropRegistration peer link).lastPass? p = s.lastPass? p := by
  unfold State.lastPass? State.dropRegistration
  rw [get?_change]
  cases s.peers.get? p with
  | none => rfl
  | some entry =>
      by_cases hp : p = peer
      · simp [hp]
      · simp [hp]

theorem lastLink?_dropRegistration (s : State key cursor) (peer p : key) (link : Nat) :
    lastLink? (s.dropRegistration peer link) p = lastLink? s p := by
  unfold lastLink? State.dropRegistration
  rw [get?_change]
  cases s.peers.get? p with
  | none => rfl
  | some entry =>
      by_cases hp : p = peer
      · simp [hp]
      · simp [hp]

/-!
## What is held
-/

variable {w w' : World key cursor} {a : Action key cursor}

/-- Whoever is registered has a link of its own; passes are busy links, one a peer. -/
structure Holding (w : World key cursor) : Prop where
  held : forall r, r ∈ w.registrations -> exists l, w.state.link? r.peer r.link = some l
  fresh : forall r, r ∈ w.registrations -> r.link <= w.state.nextLink
  nodup : w.registrations.Nodup
  registered : forall r, r ∈ w.passes -> r ∈ w.registrations
  busy : forall r, r ∈ w.passes ->
    exists l, w.state.link? r.peer r.link = some l ∧ l.busy = true
  single : (w.passes.map Handle.peer).Nodup

theorem holding_new : Holding (World.new : World key cursor) where
  held := fun _ h => absurd h not_mem_nil
  fresh := fun _ h => absurd h not_mem_nil
  nodup := nodup_nil
  registered := fun _ h => absurd h not_mem_nil
  busy := fun _ h => absurd h not_mem_nil
  single := nodup_nil

theorem Holding.keep (h : Holding w) (hregistrations : w'.registrations.Sublist w.registrations)
    (hpasses : w'.passes.Sublist w.passes)
    (hregistered : forall r, r ∈ w'.passes -> r ∈ w'.registrations)
    (hnext : w.state.nextLink <= w'.state.nextLink)
    (hheld : forall r l, r ∈ w'.registrations -> w.state.link? r.peer r.link = some l ->
      exists l', w'.state.link? r.peer r.link = some l')
    (hbusy : forall r l, r ∈ w'.passes -> w.state.link? r.peer r.link = some l ->
      l.busy = true -> exists l', w'.state.link? r.peer r.link = some l' ∧ l'.busy = true) :
    Holding w' where
  held := by
    intro r hr
    rcases h.held r (hregistrations.subset hr) with ⟨l, hl⟩
    exact hheld r l hr hl
  fresh := fun r hr => Nat.le_trans (h.fresh r (hregistrations.subset hr)) hnext
  nodup := h.nodup.sublist hregistrations
  registered := hregistered
  busy := by
    intro r hr
    rcases h.busy r (hpasses.subset hr) with ⟨l, hl, hlBusy⟩
    exact hbusy r l hr hl hlBusy
  single := h.single.sublist (hpasses.map _)

theorem Holding.register (h : Holding w) (peer : key) (now clock : Nat) : Holding { w with
      state := (w.state.register peer now).snd
      registrations :=
        match (w.state.register peer now).fst with
        | none => w.registrations
        | some link => ⟨peer, link⟩ :: w.registrations
      clock := clock } := by
  have hregistered := register_registered w.state peer now
  -- the links that were there are there as before
  have hlinks : forall r l, r ∈ w.registrations -> w.state.link? r.peer r.link = some l ->
      (w.state.register peer now).snd.link? r.peer r.link = some l := by
    intro r l hr hl
    rw [hregistered.link, if_neg, hl]
    rintro ⟨-, hid⟩
    have hnew := (hregistered.fresh r.link hid).left
    have hold := h.fresh r hr
    omega
  cases hid : (w.state.register peer now).fst with
  | none =>
      refine h.keep (Sublist.refl _) (Sublist.refl _) h.registered hregistered.next ?_ ?_
      · exact fun r l hr hl => ⟨l, hlinks r l hr hl⟩
      · exact fun r l hr hl hbusy => ⟨l, hlinks r l (h.registered r hr) hl, hbusy⟩
  | some id =>
      rcases hregistered.fresh id hid with ⟨hnew, hnext⟩
      constructor
      · intro r hr
        rcases mem_cons.mp hr with rfl | hrest
        · refine ⟨Link.new, ?_⟩
          show (w.state.register peer now).snd.link? peer id = _
          rw [hregistered.link, if_pos ⟨rfl, hid⟩]
        · rcases h.held r hrest with ⟨l, hl⟩
          exact ⟨l, hlinks r l hrest hl⟩
      · intro r hr
        rcases mem_cons.mp hr with rfl | hrest
        · exact hnext
        · exact Nat.le_trans (h.fresh r hrest) hregistered.next
      · apply nodup_cons.mpr ⟨?_, h.nodup⟩
        intro hmem
        have hold : id <= w.state.nextLink := h.fresh _ hmem
        omega
      · exact fun r hr => mem_cons_of_mem _ (h.registered r hr)
      · intro r hr
        rcases h.busy r hr with ⟨l, hl, hbusy⟩
        exact ⟨l, hlinks r l (h.registered r hr) hl, hbusy⟩
      · exact h.single

theorem Holding.mark (h : Holding w) (peer : key) (link : Nat) {f : Link cursor -> Link cursor}
    (hf : forall l, (f l).busy = l.busy) :
    Holding { w with state := w.state.changeLink peer link f } := by
  refine h.keep (Sublist.refl _) (Sublist.refl _) h.registered (Nat.le_refl _) ?_ ?_
  · intro r l hr hl
    rw [link?_changeLink, hl]
    exact ⟨_, rfl⟩
  · intro r l hr hl hbusy
    rw [link?_changeLink, hl]
    refine ⟨_, rfl, ?_⟩
    split
    · rw [hf, hbusy]
    · exact hbusy

variable {r : Handle key}

theorem Holding.begin (h : Holding w) (hr : r ∈ w.registrations) {now : Nat} {entry : Peer cursor}
    {l : Link cursor} (hbegins : Begins w.state r.peer r.link now cadenceSecs entry l) (clock : Nat)
    (begun : List (Begun key)) : Holding { w with
      state := begunState w.state r.peer r.link now
      passes := r :: w.passes
      begun := begun
      clock := clock } := by
  have hmark : forall p id l, w.state.link? p id = some l ->
      exists l', (begunState w.state r.peer r.link now).link? p id = some l' ∧
        (l.busy = true -> l'.busy = true) := by
    intro p id l hl
    rw [link?_begunState, hl]
    refine ⟨_, rfl, ?_⟩
    intro hbusy
    split
    · rfl
    · exact hbusy
  constructor
  · intro r' hr'
    rcases h.held r' hr' with ⟨l', hl'⟩
    rcases hmark r'.peer r'.link l' hl' with ⟨l'', hl'', -⟩
    exact ⟨l'', hl''⟩
  · exact h.fresh
  · exact h.nodup
  · intro r' hr'
    rcases mem_cons.mp hr' with rfl | hrest
    · exact hr
    · exact h.registered r' hrest
  · intro r' hr'
    rcases mem_cons.mp hr' with rfl | hrest
    · rcases h.held r' hr with ⟨l', hl'⟩
      refine ⟨{ l' with busy := true }, ?_, rfl⟩
      show (begunState w.state r'.peer r'.link now).link? r'.peer r'.link = _
      rw [link?_begunState, hl', Option.map_some, if_pos ⟨rfl, rfl⟩]
    · rcases h.busy r' hrest with ⟨l', hl', hbusy⟩
      rcases hmark r'.peer r'.link l' hl' with ⟨l'', hl'', hkeep⟩
      exact ⟨l'', hl'', hkeep hbusy⟩
  · rw [map_cons]
    apply nodup_cons.mpr ⟨?_, h.single⟩
    intro hmem
    rcases mem_map.mp hmem with ⟨r', hr', hpeer⟩
    rcases h.busy r' hr' with ⟨l', hl', hbusy⟩
    have hthere : entry.links.get? r'.link = some l' := by
      unfold State.link? at hl'
      rw [hpeer, hbegins.found] at hl'
      exact hl'
    rw [hbegins.idle r'.link l' hthere] at hbusy
    cases hbusy

theorem Holding.over (h : Holding w) (hr : r ∈ w.passes) (f : Link cursor -> Link cursor) :
    Holding { w with
      state := w.state.changeLink r.peer r.link f
      passes := w.passes.erase r } := by
  have hsub : (w.passes.erase r).Sublist w.passes := erase_sublist
  refine h.keep (Sublist.refl _) hsub
    (fun r' hr' => h.registered r' (hsub.subset hr')) (Nat.le_refl _) ?_ ?_
  · intro r' l hr' hl
    rw [link?_changeLink, hl]
    exact ⟨_, rfl⟩
  · intro r' l hr' hl hbusy
    have hperm := (perm_cons_erase hr).map Handle.peer
    have hnodup := hperm.nodup_iff.mp h.single
    rw [map_cons, nodup_cons] at hnodup
    have hother : ¬ (r'.peer = r.peer ∧ r'.link = r.link) := by
      rintro ⟨hpeer, -⟩
      apply hnodup.left
      rw [<- hpeer]
      exact mem_map_of_mem hr'
    rw [link?_changeLink, hl, Option.map_some, if_neg hother]
    exact ⟨l, rfl, hbusy⟩

theorem Holding.dropRegistration (h : Holding w) (hr : r ∉ w.passes) : Holding { w with
      state := w.state.dropRegistration r.peer r.link
      registrations := w.registrations.erase r } := by
  have hdiffer : forall r', r' ≠ r -> ¬ (r'.peer = r.peer ∧ r'.link = r.link) := by
    rintro r' hne ⟨hpeer, hlink⟩
    apply hne
    cases r
    cases r'
    cases hpeer
    cases hlink
    rfl
  refine h.keep erase_sublist (Sublist.refl _) ?_ ?_ ?_ ?_
  · intro r' hr'
    have hne : r' ≠ r := fun heq => hr (heq ▸ hr')
    exact (mem_erase_of_ne hne).mpr (h.registered r' hr')
  · exact Nat.le_refl _
  · intro r' l hr' hl
    have hne : r' ≠ r := fun heq => by
      rw [heq] at hr'
      exact h.nodup.not_mem_erase hr'
    refine ⟨l, ?_⟩
    show (w.state.dropRegistration r.peer r.link).link? r'.peer r'.link = some l
    rw [link?_dropRegistration, if_neg (hdiffer r' hne), hl]
  · intro r' l hr' hl hbusy
    have hne : r' ≠ r := fun heq => hr (heq ▸ hr')
    refine ⟨l, ?_, hbusy⟩
    show (w.state.dropRegistration r.peer r.link).link? r'.peer r'.link = some l
    rw [link?_dropRegistration, if_neg (hdiffer r' hne), hl]

/-!
## What has begun
-/

/-- Passes to one peer are an interval apart, and the table knows of the last one as long
as it may matter. -/
structure Cooling (cadenceSecs : Nat) (w : World key cursor) : Prop where
  past : forall p last, w.state.lastPass? p = some last -> last <= w.clock
  cool : forall b, b ∈ w.begun -> b.instant <= w.clock ∧
    ((exists last, w.state.lastPass? b.peer = some last ∧ b.instant <= last) ∨
      b.instant + seconds 3600 <= w.clock)
  spaced : w.begun.Pairwise (fun b b' =>
    b.peer = b'.peer -> b.instant + interval cadenceSecs <= b'.instant)

theorem cooling_new (cadenceSecs : Nat) : Cooling cadenceSecs (World.new : World key cursor) where
  past := fun p last h => by cases h
  cool := fun b h => absurd h not_mem_nil
  spaced := Pairwise.nil

theorem Cooling.keep (h : Cooling cadenceSecs w) (hbegun : w'.begun = w.begun)
    (hclock : w.clock <= w'.clock)
    (hold : forall p last, w'.state.lastPass? p = some last -> w.state.lastPass? p = some last)
    (hkeep : forall p last, w.state.lastPass? p = some last ->
      w'.state.lastPass? p = some last ∨ last + seconds 3600 <= w'.clock) :
    Cooling cadenceSecs w' where
  past := fun p last hlast => Nat.le_trans (h.past p last (hold p last hlast)) hclock
  cool := by
    intro b hb
    rw [hbegun] at hb
    rcases h.cool b hb with ⟨hinstant, ⟨last, hlast, hle⟩ | hover⟩
    · refine ⟨Nat.le_trans hinstant hclock, ?_⟩
      rcases hkeep b.peer last hlast with hlast' | hlater
      · exact Or.inl ⟨last, hlast', hle⟩
      · right
        omega
    · exact ⟨Nat.le_trans hinstant hclock, Or.inr (Nat.le_trans hover hclock)⟩
  spaced := by
    rw [hbegun]
    exact h.spaced

theorem Cooling.same (h : Cooling cadenceSecs w) (hbegun : w'.begun = w.begun)
    (hclock : w.clock <= w'.clock)
    (hsame : forall p, w'.state.lastPass? p = w.state.lastPass? p) : Cooling cadenceSecs w' :=
  h.keep hbegun hclock (fun p _ hlast => (hsame p).symm.trans hlast)
    (fun p _ hlast => Or.inl ((hsame p).trans hlast))

theorem Cooling.begin (h : Cooling cadenceSecs w) {now : Nat} (hnow : w.clock <= now)
    {entry : Peer cursor} {l : Link cursor}
    (hbegins : Begins w.state r.peer r.link now cadenceSecs entry l) (passes : List (Handle key)) :
    Cooling cadenceSecs { w with
      state := begunState w.state r.peer r.link now
      passes := passes
      begun := w.begun ++ [⟨r.peer, r.link, now⟩]
      clock := now } := by
  have hlast : forall p, (begunState w.state r.peer r.link now).lastPass? p =
      if p = r.peer then some now else w.state.lastPass? p :=
    lastPass?_begunState hbegins.found r.link now
  constructor
  · intro p last hp
    rw [hlast p] at hp
    split at hp
    · cases hp
      exact Nat.le_refl _
    · exact Nat.le_trans (h.past p last hp) hnow
  · intro b hb
    rcases mem_append.mp hb with hfront | hnew
    · rcases h.cool b hfront with ⟨hinstant, hcool⟩
      refine ⟨Nat.le_trans hinstant hnow, ?_⟩
      by_cases hpeer : b.peer = r.peer
      · left
        refine ⟨now, ?_, Nat.le_trans hinstant hnow⟩
        rw [hlast, if_pos hpeer]
      · rcases hcool with ⟨last, hold, hle⟩ | hover
        · left
          refine ⟨last, ?_, hle⟩
          rw [hlast, if_neg hpeer, hold]
        · exact Or.inr (Nat.le_trans hover hnow)
    · rw [mem_singleton.mp hnew]
      refine ⟨Nat.le_refl _, Or.inl ⟨now, ?_, Nat.le_refl _⟩⟩
      rw [hlast, if_pos rfl]
  · apply pairwise_append.mpr ⟨h.spaced, pairwise_singleton _ _, ?_⟩
    intro b hb b' hb' hpeer
    rw [mem_singleton.mp hb'] at hpeer ⊢
    rcases (h.cool b hb).right with ⟨last, hold, hle⟩ | hover
    · have hentry : entry.lastPass = some last := by
        unfold State.lastPass? at hold
        rw [hpeer, hbegins.found] at hold
        exact hold
      have hrested := hbegins.rested last hentry
      exact Nat.le_trans (Nat.add_le_add_right hle _) hrested
    · have hinterval := (interval_le cadenceSecs).right
      show b.instant + interval cadenceSecs <= now
      omega

/-!
## Every step
-/

structure Sound (cadenceSecs : Nat) (w : World key cursor) : Prop where
  holding : Holding w
  cooling : Cooling cadenceSecs w
  sized : Sized w.state

theorem sound_new (cadenceSecs : Nat) : Sound cadenceSecs (World.new : World key cursor) where
  holding := holding_new
  cooling := cooling_new cadenceSecs
  sized :=
    { peers := Nat.zero_le _
      links := fun p entry h => by cases h }

theorem Sound.step (h : Sound cadenceSecs w) (hstep : w.step cadenceSecs a = some w') :
    Sound cadenceSecs w' := by
  cases a with
  | register peer now =>
      unfold World.step at hstep
      simp only [] at hstep
      split at hstep
      · cases hstep
      · rename_i hnow
        cases hstep
        have hregistered := register_registered w.state peer now
        refine ⟨h.holding.register peer now now, ?_, hregistered.sized h.sized⟩
        refine h.cooling.keep rfl (Nat.not_lt.mp hnow) ?_ ?_
        · intro p last hlast
          have hpruned : (w.state.pruned now).lastPass? p = some last := by
            rw [<- hregistered.lastPass p]
            exact hlast
          exact lastPass?_of_pruned hpruned
        · intro p last hlast
          show (w.state.register peer now).snd.lastPass? p = some last ∨ _
          rw [hregistered.lastPass p]
          exact lastPass?_pruned hlast now
  | active r active =>
      unfold World.step at hstep
      simp only [] at hstep
      split at hstep
      · cases hstep
        refine ⟨h.holding.mark r.peer r.link (fun _ => rfl), ?_, h.sized.changeLink _ _ _⟩
        exact h.cooling.same rfl (Nat.le_refl _) fun p => lastPass?_changeLink _ _ _ _ _
      · cases hstep
  | begin r now =>
      unfold World.step at hstep
      simp only [] at hstep
      split at hstep
      · rename_i hallowed
        rcases begin_cases w.state r.peer r.link now cadenceSecs with
          hrefused | ⟨entry, l, hbegins, hbegun⟩
        · rw [hrefused] at hstep
          cases hstep
          refine ⟨h.holding.keep (Sublist.refl _) (Sublist.refl _) h.holding.registered
            (Nat.le_refl _) (fun r' l' _ hl' => ⟨l', hl'⟩)
            (fun r' l' _ hl' hbusy => ⟨l', hl', hbusy⟩), ?_, h.sized⟩
          exact h.cooling.same rfl hallowed.right fun _ => rfl
        · rw [hbegun] at hstep
          cases hstep
          refine ⟨h.holding.begin hallowed.left hbegins now _, h.cooling.begin hallowed.right hbegins _,
            ?_⟩
          exact h.sized.change _ (fun entry => size_modify_le entry.links _ _)
      · cases hstep
  | finish r next =>
      unfold World.step at hstep
      simp only [] at hstep
      split at hstep
      · rename_i hr
        cases hstep
        have hsame : forall l : Link cursor, ({ l with cursor := next } : Link cursor).busy = l.busy :=
          fun _ => rfl
        have hmarked := h.holding.mark r.peer r.link hsame
        refine ⟨hmarked.over hr _, ?_, (h.sized.changeLink _ _ _).changeLink _ _ _⟩
        exact h.cooling.same rfl (Nat.le_refl _) fun p =>
          (lastPass?_changeLink _ _ _ _ _).trans (lastPass?_changeLink _ _ _ _ _)
      · cases hstep
  | dropPass r =>
      unfold World.step at hstep
      simp only [] at hstep
      split at hstep
      · rename_i hr
        cases hstep
        refine ⟨h.holding.over hr _, ?_, h.sized.changeLink _ _ _⟩
        exact h.cooling.same rfl (Nat.le_refl _) fun p => lastPass?_changeLink _ _ _ _ _
      · cases hstep
  | dropRegistration r =>
      unfold World.step at hstep
      simp only [] at hstep
      split at hstep
      · rename_i hr
        cases hstep
        refine ⟨h.holding.dropRegistration hr.right, ?_, ?_⟩
        · exact h.cooling.same rfl (Nat.le_refl _) fun p => lastPass?_dropRegistration _ _ _ _
        · exact h.sized.change _ (fun entry => size_filterMap_le _ _)
      · cases hstep

end History
end Rabbithole.Federation
