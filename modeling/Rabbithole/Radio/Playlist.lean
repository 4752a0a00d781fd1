import Mathlib.Data.List.Perm.Basic
import Mathlib.Data.List.Rotate

/-!
# Rotations

A list of tracks, an order to play them in, and a cursor into that order.  A shuffled order
is worked out from a seed whenever the list changes, so that the cursor has to be moved to
where its track stands in the new one.
-/

namespace Rabbithole.Radio

open List

structure Track where
  id : UInt64
  title : String
  artist : String
  durationMs : UInt64
  /-- The audio's content address, which nothing here looks into. -/
  source : BitVec 256
deriving DecidableEq

inductive RotationMode where
  | sequential
  | shuffle (seed : UInt64)
  | repeatOne
deriving DecidableEq

/-- One step of the generator: what it gives, and its next state. -/
def nextU64 (state : UInt64) : UInt64 × UInt64 :=
  let state := state + 0x9E3779B97F4A7C15
  let z := (state ^^^ (state >>> 30)) * 0xBF58476D1CE4E5B9
  let z := (z ^^^ (z >>> 27)) * 0x94D049BB133111EB
  (z ^^^ (z >>> 31), state)

/-- From a place down to the second. -/
def shuffleFrom : Nat -> UInt64 -> List Nat -> List Nat
  | 0, _, order => order
  | i + 1, state, order =>
      let drawn := nextU64 state
      shuffleFrom i drawn.snd (order.swap (i + 1) (drawn.fst.toNat % (i + 1 + 1)))

def shuffle (order : List Nat) (seed : UInt64) : List Nat :=
  shuffleFrom (order.length - 1) seed order

def computeOrder (tracks : List Track) : RotationMode -> List Nat
  | .shuffle seed => shuffle (List.range tracks.length) seed
  | _ => List.range tracks.length

structure Playlist where
  tracks : List Track
  mode : RotationMode
  /-- Places in the list. -/
  order : List Nat
  /-- A place in the order; none before the first track. -/
  cursor : Option Nat
deriving DecidableEq

namespace Playlist

def new (tracks : List Track) (mode : RotationMode) : Playlist where
  tracks := tracks
  mode := mode
  order := computeOrder tracks mode
  cursor := none

def setMode (p : Playlist) (mode : RotationMode) : Playlist :=
  { p with mode := mode, order := computeOrder p.tracks mode, cursor := none }

def push (p : Playlist) (track : Track) : Playlist :=
  { p with
    tracks := p.tracks ++ [track]
    order := computeOrder (p.tracks ++ [track]) p.mode
    cursor := none }

def playing (p : Playlist) : List Track :=
  p.order.filterMap (fun i => p.tracks[i]?)

def positionOf (p : Playlist) (id : UInt64) : Option Nat :=
  p.playing.findIdx? (fun t => t.id == id)

def reordered (p : Playlist) (tracks : List Track) : Playlist :=
  { p with tracks := tracks, order := computeOrder tracks p.mode, cursor := none }

/-- Where the cursor goes in a list that takes the place of one. -/
def moved (was : List UInt64) (p : Playlist) (c : Nat) : Option Nat :=
  let len := p.order.length
  if len = 0 then none
  else
    match (was[c]?).bind p.positionOf with
    | some here => some here
    | none =>
        -- gone: stand before what was coming next, in the order it was coming
        ((List.range' 1 (was.length - 1)).findSome? (fun step =>
          (was[(c + step) % was.length]?).bind p.positionOf)).map (fun next =>
            match p.mode with
            | .repeatOne => next
            | _ => (next + len - 1) % len)

def replace (p : Playlist) (tracks : List Track) : Playlist :=
  let was := p.playing.map Track.id
  let p' := p.reordered tracks
  { p' with cursor := p.cursor.bind (moved was p') }

def current (p : Playlist) : Option Track :=
  p.cursor.bind (fun c => (p.order[c]?).bind (fun i => p.tracks[i]?))

def advance (p : Playlist) : Option Track × Playlist :=
  if p.order = [] then (none, p)
  else
    let next :=
      match p.cursor, p.mode with
      | none, _ => 0
      | some c, .repeatOne => c
      | some c, _ => (c + 1) % p.order.length
    let p' := { p with cursor := some next }
    (p'.current, p')

/-!
## Orders
-/

theorem shuffleFrom_perm (i : Nat) (state : UInt64) (order : List Nat) :
    Perm (shuffleFrom i state order) order := by
  induction i generalizing state order with
  | zero => exact Perm.refl order
  | succ i ih => exact (ih _ _).trans (swap_perm _ _ _)

theorem computeOrder_perm (tracks : List Track) (mode : RotationMode) :
    Perm (computeOrder tracks mode) (List.range tracks.length) := by
  cases mode with
  | sequential | repeatOne => exact Perm.refl _
  | shuffle seed => exact shuffleFrom_perm _ _ _

/-- The order is the one that its tracks and its mode give, and the cursor stands in it. -/
structure Placed (p : Playlist) : Prop where
  order : p.order = computeOrder p.tracks p.mode
  cursor : forall c, p.cursor = some c -> c < p.order.length

variable {p : Playlist} {tracks : List Track}

section

variable (h : p.Placed)
include h

theorem Placed.order_perm : Perm p.order (List.range p.tracks.length) := by
  rw [h.order]
  exact computeOrder_perm p.tracks p.mode

theorem Placed.length_order : p.order.length = p.tracks.length := by
  rw [h.order_perm.length_eq, length_range]

theorem Placed.map_order : p.order.map (fun i => p.tracks[i]?) = p.playing.map some := by
  have hin : forall i, i ∈ p.order -> i < p.tracks.length := fun i hi =>
    mem_range.mp (h.order_perm.subset hi)
  unfold playing
  revert hin
  generalize p.order = order
  intro hin
  induction order with
  | nil => rfl
  | cons i order ih =>
      have hi := hin i mem_cons_self
      rw [filterMap_cons_some (getElem?_eq_getElem hi), map_cons, map_cons,
        getElem?_eq_getElem hi, ih (fun j hj => hin j (mem_cons_of_mem i hj))]

theorem Placed.length_playing : p.playing.length = p.order.length := by
  have hlength := congrArg List.length h.map_order
  rw [length_map, length_map] at hlength
  exact hlength.symm

theorem Placed.getElem?_playing (c : Nat) :
    (p.order[c]?).bind (fun i => p.tracks[i]?) = p.playing[c]? := by
  calc
    (p.order[c]?).bind (fun i => p.tracks[i]?) =
        ((p.order.map (fun i => p.tracks[i]?))[c]?).join := by
      rw [getElem?_map]
      cases p.order[c]? <;> rfl
    _ = ((p.playing.map some)[c]?).join := by rw [h.map_order]
    _ = p.playing[c]? := by
      rw [getElem?_map]
      cases p.playing[c]? <;> rfl

theorem Placed.playing_perm : Perm p.playing p.tracks := by
  have hperm := h.order_perm.map (fun i => p.tracks[i]?)
  have hrange : (List.range p.tracks.length).map (fun i => p.tracks[i]?) = p.tracks.map some := by
    apply ext_getElem
    · rw [length_map, length_map, length_range]
    · intro i hi hi'
      rw [length_map] at hi'
      rw [getElem_map, getElem_map, getElem_range, getElem?_eq_getElem hi']
  rw [h.map_order, hrange] at hperm
  exact (map_perm_map_iff (fun _ _ h => Option.some.inj h)).mp hperm

theorem Placed.current_eq : p.current = p.cursor.bind (fun c => p.playing[c]?) := by
  unfold current
  apply congrArg (Option.bind p.cursor)
  funext c
  exact h.getElem?_playing c

end

variable {id : UInt64} {here : Nat} {was : List UInt64}

theorem positionOf_eq_some (h : p.positionOf id = some here) :
    exists t, p.playing[here]? = some t ∧ t.id = id := by
  rcases findIdx?_eq_some_iff_getElem.mp h with ⟨hlt, hid, -⟩
  exact ⟨p.playing[here], getElem?_eq_getElem hlt, eq_of_beq hid⟩

theorem Placed.positionOf_eq_none (h : p.Placed) :
    p.positionOf id = none <-> id ∉ p.tracks.map Track.id := by
  unfold positionOf
  rw [findIdx?_eq_none_iff, ← (h.playing_perm.map Track.id).mem_iff, mem_map]
  constructor
  · rintro hnone ⟨t, ht, hid⟩
    have hne := hnone t ht
    rw [beq_eq_false_iff_ne] at hne
    exact hne hid
  · intro hno t ht
    exact beq_eq_false_iff_ne.mpr (fun hid => hno ⟨t, ht, hid⟩)

/-!
## Playing on
-/

/-- Where the next track stands in the order. -/
def upNext (p : Playlist) : Nat :=
  match p.cursor, p.mode with
  | none, _ => 0
  | some c, .repeatOne => c
  | some c, _ => (c + 1) % p.order.length

theorem advance_snd (h : p.order ≠ []) : p.advance.snd = { p with cursor := some p.upNext } := by
  unfold advance
  rw [if_neg h]
  rfl

theorem Placed.upNext_lt (h : p.Placed) (hne : p.order ≠ []) : p.upNext < p.order.length := by
  have hpos := length_pos_iff.mpr hne
  unfold upNext
  split
  · exact hpos
  · rename_i c hcursor hmode
    exact h.cursor c hcursor
  · exact Nat.mod_lt _ hpos

theorem Placed.advance (h : p.Placed) : p.advance.snd.Placed := by
  by_cases hne : p.order = []
  · unfold Playlist.advance
    rw [if_pos hne]
    exact h
  · rw [advance_snd hne]
    exact ⟨h.order, by rintro c ⟨⟩; exact h.upNext_lt hne⟩

theorem Placed.advance_fst (h : p.Placed) (hne : p.order ≠ []) :
    p.advance.fst = p.playing[p.upNext]? := by
  have hfst : p.advance.fst = p.advance.snd.current := by
    unfold Playlist.advance
    rw [if_neg hne]
  rw [hfst, h.advance.current_eq, advance_snd hne]
  rfl

def advances : Nat -> Playlist -> List (Option Track)
  | 0, _ => []
  | n + 1, p => p.advance.fst :: advances n p.advance.snd

theorem Placed.advances_eq (h : p.Placed) (hmode : p.mode ≠ .repeatOne) (hne : p.order ≠ [])
    (n : Nat) :
    advances n p =
      (List.range n).map (fun k => p.playing[(k + p.upNext) % p.playing.length]?) := by
  have hlt := h.upNext_lt hne
  induction n generalizing p with
  | zero => rfl
  | succ n ih =>
      have hnext := h.advance
      rw [advance_snd hne] at hnext
      have hup : Playlist.upNext { p with cursor := some p.upNext } =
          (p.upNext + 1) % p.order.length := by
        cases hm : p.mode with
        | sequential => rfl
        | shuffle seed => rfl
        | repeatOne => exact absurd hm hmode
      rw [range_succ_eq_map, map_cons, map_map]
      unfold advances
      rw [h.advance_fst hne, advance_snd hne, ih hnext hmode hne (hnext.upNext_lt hne), hup]
      have hfirst : (0 + p.upNext) % p.playing.length = p.upNext := by
        rw [Nat.zero_add, h.length_playing, Nat.mod_eq_of_lt hlt]
      rw [hfirst]
      apply congrArg (List.cons _)
      apply map_congr_left
      intro k _
      show p.playing[(k + (p.upNext + 1) % p.order.length) % p.playing.length]? =
        p.playing[(k + 1 + p.upNext) % p.playing.length]?
      rw [h.length_playing, Nat.add_mod_mod, show k + (p.upNext + 1) = k + 1 + p.upNext by omega]

theorem Placed.advances_perm (h : p.Placed) (hmode : p.mode ≠ .repeatOne) :
    Perm (advances p.tracks.length p) (p.tracks.map some) := by
  have hlength : p.playing.length = p.tracks.length := h.length_playing.trans h.length_order
  by_cases hne : p.order = []
  · have hempty : p.tracks = [] := by
      rw [← length_eq_zero_iff, ← h.length_order, hne]
      rfl
    rw [hempty]
    exact Perm.refl _
  · have hround : advances p.tracks.length p = (p.playing.rotate p.upNext).map some := by
      rw [h.advances_eq hmode hne]
      apply ext_getElem
      · rw [length_map, length_map, length_range, length_rotate, hlength]
      · intro k hk hk'
        have hlt : k < p.playing.length := by
          rw [length_map, length_rotate] at hk'
          exact hk'
        rw [getElem_map, getElem_map, getElem_range, ← getElem?_rotate hlt,
          getElem?_eq_getElem]
    rw [hround]
    exact ((rotate_perm _ _).trans h.playing_perm).map some

/-!
## Replacing the tracks
-/

theorem reordered_placed (p : Playlist) (tracks : List Track) : (p.reordered tracks).Placed :=
  ⟨rfl, nofun⟩

theorem steps_eq {before after : List UInt64} (h : was = before ++ id :: after) :
    (List.range' 1 (was.length - 1)).map (fun step => was[(before.length + step) % was.length]?) =
      (after ++ before).map some := by
  have hturn : was.rotate (before.length + 1) = after ++ before ++ [id] := by
    have hsplit : was = before ++ [id] ++ after := by
      rw [h, append_assoc]
      rfl
    have hfront : (before ++ [id]).length = before.length + 1 := length_append
    rw [hsplit, ← hfront, rotate_append_length_eq, append_assoc]
  have hlength : was.length = after.length + before.length + 1 := by
    rw [h, length_append, length_cons]
    omega
  apply ext_getElem
  · rw [length_map, length_map, length_range', length_append]
    omega
  · intro k hk hk'
    have hlt : k < (after ++ before).length := by
      rw [length_map] at hk'
      exact hk'
    have hwas : k < was.length := by
      rw [length_append] at hlt
      omega
    rw [getElem_map, getElem_map, getElem_range',
      show before.length + (1 + 1 * k) = k + (before.length + 1) by omega,
      ← getElem?_rotate hwas, hturn, getElem?_append_left hlt,
      getElem?_eq_getElem hlt]

theorem moved_of_here {c : Nat} (hid : was[c]? = some id) (hhere : p.positionOf id = some here)
    (hne : p.order ≠ []) : moved was p c = some here := by
  unfold moved
  rw [if_neg (mt length_eq_zero_iff.mp hne), hid, Option.bind_some, hhere]

/-- One that stands for a track that has gone goes before the first that follows and has
not. -/
theorem moved_of_gone {before after : List UInt64} (h : was = before ++ id :: after)
    (hgone : p.positionOf id = none) (hne : p.order ≠ []) :
    moved was p before.length = ((after ++ before).findSome? p.positionOf).map (fun next =>
      match p.mode with
      | .repeatOne => next
      | _ => (next + p.order.length - 1) % p.order.length) := by
  have hid : was[before.length]? = some id := by
    rw [h, getElem?_append_right (Nat.le_refl _), Nat.sub_self]
    rfl
  have hsteps : (List.range' 1 (was.length - 1)).findSome? (fun step =>
      (was[(before.length + step) % was.length]?).bind p.positionOf) =
      (after ++ before).findSome? p.positionOf := by
    calc
      _ = ((List.range' 1 (was.length - 1)).map (fun step =>
            was[(before.length + step) % was.length]?)).findSome?
              (fun id => id.bind p.positionOf) := by
        rw [findSome?_map]
        rfl
      _ = ((after ++ before).map some).findSome? (fun id => id.bind p.positionOf) := by
        rw [steps_eq h]
      _ = (after ++ before).findSome? p.positionOf := by
        rw [findSome?_map]
        rfl
  unfold moved
  rw [if_neg (mt length_eq_zero_iff.mp hne), hid, Option.bind_some, hgone, hsteps]

theorem Placed.positionOf_lt (h : p.Placed) (hhere : p.positionOf id = some here) :
    here < p.order.length := by
  rcases positionOf_eq_some hhere with ⟨t, ht, -⟩
  rw [← h.length_playing]
  exact (List.getElem?_eq_some_iff.mp ht).fst

theorem Placed.moved_lt (h : p.Placed) {c c' : Nat} (hmoved : moved was p c = some c') :
    c' < p.order.length := by
  unfold moved at hmoved
  simp only [] at hmoved
  split at hmoved
  · cases hmoved
  · split at hmoved
    · rename_i here hhere
      rcases Option.bind_eq_some_iff.mp hhere with ⟨id, -, hid⟩
      cases hmoved
      exact h.positionOf_lt hid
    · rcases Option.map_eq_some_iff.mp hmoved with ⟨next, hnext, hstand⟩
      rcases exists_of_findSome?_eq_some hnext with ⟨step, -, hstep⟩
      rcases Option.bind_eq_some_iff.mp hstep with ⟨id, -, hid⟩
      rw [← hstand]
      split
      · exact h.positionOf_lt hid
      · exact Nat.mod_lt _ (by omega)

theorem replace_placed (p : Playlist) (tracks : List Track) : (p.replace tracks).Placed := by
  refine ⟨rfl, ?_⟩
  intro c hc
  rcases Option.bind_eq_some_iff.mp hc with ⟨was, -, hmoved⟩
  exact (reordered_placed p tracks).moved_lt hmoved

theorem Placed.track_of_positionOf (h : p.Placed) (hdistinct : (p.tracks.map Track.id).Nodup)
    {t : Track} (ht : t ∈ p.tracks) (hhere : p.positionOf t.id = some here) :
    p.playing[here]? = some t := by
  rcases positionOf_eq_some hhere with ⟨t', ht', hid⟩
  have hmem := h.playing_perm.subset (mem_of_getElem? ht')
  rw [ht', inj_on_of_nodup_map hdistinct hmem ht hid]

/-!
## Keeping the place
-/

def Distinct (tracks : List Track) : Prop :=
  (tracks.map Track.id).Nodup

/-- The playlists that come of lists without the same track twice. -/
inductive Reached : Playlist -> Prop where
  | new (tracks : List Track) (mode : RotationMode) (distinct : Distinct tracks) :
      Reached (new tracks mode)
  | advance {p : Playlist} (h : Reached p) : Reached p.advance.snd
  | replace {p : Playlist} {tracks : List Track} (h : Reached p) (distinct : Distinct tracks) :
      Reached (p.replace tracks)
  | push {p : Playlist} {track : Track} (h : Reached p)
      (distinct : Distinct (p.tracks ++ [track])) : Reached (p.push track)
  | setMode {p : Playlist} (mode : RotationMode) (h : Reached p) : Reached (p.setMode mode)

theorem Reached.placed (h : Reached p) : p.Placed ∧ Distinct p.tracks := by
  induction h with
  | new tracks mode distinct | push _ distinct _ => exact ⟨⟨rfl, nofun⟩, distinct⟩
  | @advance p _ ih =>
      refine ⟨ih.left.advance, ?_⟩
      unfold Playlist.advance
      split
      · exact ih.right
      · exact ih.right
  | @replace p tracks _ distinct _ => exact ⟨replace_placed p tracks, distinct⟩
  | setMode _ _ ih => exact ⟨⟨rfl, nofun⟩, ih.right⟩

/-- The current track stays if it is there; if not, the first is next of those that were to
follow it and are there; and what has not started has not started. -/
structure KeepsPlace (p : Playlist) (tracks : List Track) : Prop where
  stays : forall t t', p.current = some t -> t' ∈ tracks -> t'.id = t.id ->
    (p.replace tracks).current = some t'
  handsOn : forall before t after, p.current = some t -> p.playing = before ++ t :: after ->
    t.id ∉ tracks.map Track.id ->
    (exists u, u ∈ after ++ before ∧ u.id ∈ tracks.map Track.id) ->
    exists skipped u rest t', after ++ before = skipped ++ u :: rest ∧
      (forall s, s ∈ skipped -> s.id ∉ tracks.map Track.id) ∧ t' ∈ tracks ∧ t'.id = u.id ∧
      (p.replace tracks).advance.fst = some t'
  unstarted : p.cursor = none -> (p.replace tracks).cursor = none

theorem Placed.stays (h : p.Placed) (hdistinct : Distinct tracks) {t t' : Track}
    (hcurrent : p.current = some t) (ht' : t' ∈ tracks) (hid : t'.id = t.id) :
    (p.replace tracks).current = some t' := by
  rw [h.current_eq] at hcurrent
  rcases Option.bind_eq_some_iff.mp hcurrent with ⟨c, hc, ht⟩
  have hq := reordered_placed p tracks
  cases hhere : (p.reordered tracks).positionOf t'.id with
  | none => exact absurd (mem_map_of_mem ht') (hq.positionOf_eq_none.mp hhere)
  | some here =>
      have hne : (p.reordered tracks).order ≠ [] := by
        intro hnil
        have hlt := hq.positionOf_lt hhere
        rw [hnil] at hlt
        exact absurd hlt (Nat.not_lt_zero _)
      have hwas : (p.playing.map Track.id)[c]? = some t'.id := by
        rw [getElem?_map, ht, hid]
        rfl
      have hcursor : (p.replace tracks).cursor = some here := by
        show p.cursor.bind _ = _
        rw [hc, Option.bind_some, moved_of_here hwas hhere hne]
      rw [(replace_placed p tracks).current_eq, hcursor]
      exact hq.track_of_positionOf hdistinct ht' hhere

theorem Placed.handsOn (h : p.Placed) (hp : Distinct p.tracks) (hdistinct : Distinct tracks)
    {before after : List Track} {t : Track} (hcurrent : p.current = some t)
    (hplaying : p.playing = before ++ t :: after) (hgone : t.id ∉ tracks.map Track.id)
    (hother : exists u, u ∈ after ++ before ∧ u.id ∈ tracks.map Track.id) :
    exists skipped u rest t', after ++ before = skipped ++ u :: rest ∧
      (forall s, s ∈ skipped -> s.id ∉ tracks.map Track.id) ∧ t' ∈ tracks ∧ t'.id = u.id ∧
      (p.replace tracks).advance.fst = some t' := by
  rw [h.current_eq] at hcurrent
  rcases Option.bind_eq_some_iff.mp hcurrent with ⟨c, hc, ht⟩
  have hq := reordered_placed p tracks
  -- no track stands twice in the order, so that the cursor is where the track is
  have hplace : c = before.length := by
    have hnodup : p.playing.Nodup :=
      h.playing_perm.nodup_iff.mpr (Nodup.of_map Track.id hp)
    have hat : p.playing[before.length]? = some t := by
      rw [hplaying, getElem?_append_right (Nat.le_refl _), Nat.sub_self]
      rfl
    exact (List.getElem?_inj (List.getElem?_eq_some_iff.mp ht).fst hnodup).mp (ht.trans hat.symm)
  have hwas : p.playing.map Track.id = before.map Track.id ++ t.id :: after.map Track.id := by
    rw [hplaying, map_append, map_cons]
  have hsurvives : forall u : Track, u.id ∈ tracks.map Track.id <->
      (p.reordered tracks).positionOf u.id ≠ none := fun u =>
    (not_iff_comm.mp hq.positionOf_eq_none.symm).symm
  cases hfound : (after ++ before).findSome?
      (fun u => (p.reordered tracks).positionOf u.id) with
  | none =>
      rcases hother with ⟨u, hu, hin⟩
      exact absurd (findSome?_eq_none_iff.mp hfound u hu) ((hsurvives u).mp hin)
  | some next =>
      rcases findSome?_eq_some_iff.mp hfound with ⟨skipped, u, rest, hsplit, hnext, hskip⟩
      have hu := (hsurvives u).mpr (by rw [hnext]; exact Option.some_ne_none next)
      rcases mem_map.mp hu with ⟨t', ht', hid⟩
      refine ⟨skipped, u, rest, t', hsplit, ?_, ht', hid, ?_⟩
      · intro s hs
        exact hq.positionOf_eq_none.mp (hskip s hs)
      · have hlt := hq.positionOf_lt hnext
        have hne : (p.reordered tracks).order ≠ [] := length_pos_iff.mp (by omega)
        have hids : (after.map Track.id ++ before.map Track.id).findSome?
            (p.reordered tracks).positionOf = some next := by
          rw [← map_append, findSome?_map]
          exact hfound
        have hcursor : (p.replace tracks).cursor = some
            (match p.mode with
              | .repeatOne => next
              | _ => (next + (p.reordered tracks).order.length - 1) %
                  (p.reordered tracks).order.length) := by
          have hmoved := moved_of_gone hwas (hq.positionOf_eq_none.mpr hgone) hne
          rw [length_map, hids] at hmoved
          show p.cursor.bind _ = _
          rw [hc, hplace, Option.bind_some, hmoved]
          rfl
        have hup : (p.replace tracks).upNext = next := by
          have hmode : (p.replace tracks).mode = p.mode := rfl
          have hround : ((next + (p.reordered tracks).order.length - 1) %
              (p.reordered tracks).order.length + 1) % (p.reordered tracks).order.length =
                next := by
            rw [Nat.mod_add_mod, show next + (p.reordered tracks).order.length - 1 + 1 =
              next + (p.reordered tracks).order.length by omega, Nat.add_mod_right,
              Nat.mod_eq_of_lt hlt]
          unfold upNext
          rw [hcursor, hmode]
          cases p.mode with
          | sequential | shuffle seed => exact hround
          | repeatOne => rfl
        rw [(replace_placed p tracks).advance_fst hne, hup]
        rw [← hid] at hnext
        exact hq.track_of_positionOf hdistinct ht' hnext

/-- A station keeps its place when its tracks change, and goes round all of them. -/
theorem keeps_place (h : Reached p) (hdistinct : Distinct tracks) :
    KeepsPlace p tracks ∧ (p.mode ≠ .repeatOne ->
      Perm (advances p.tracks.length p) (p.tracks.map some)) := by
  rcases h.placed with ⟨hplaced, hp⟩
  refine ⟨?_, hplaced.advances_perm⟩
  exact
    { stays := fun _ _ hcurrent ht' hid => hplaced.stays hdistinct hcurrent ht' hid
      handsOn := fun _ _ _ hcurrent hplaying hgone hother =>
        hplaced.handsOn hp hdistinct hcurrent hplaying hgone hother
      unstarted := by
        intro hnone
        show p.cursor.bind _ = none
        rw [hnone]
        rfl }

def song (id : UInt64) : Track where
  id := id
  title := "song"
  artist := "The Lagomorphs"
  durationMs := 1000
  source := 0

theorem keeps_place_second :
    KeepsPlace (new [song 1, song 2, song 3] .sequential).advance.snd.advance.snd
        [song 3, song 1] ∧
      ((new [song 1, song 2, song 3] .sequential).advance.snd.advance.snd.mode ≠ .repeatOne ->
        Perm (advances 3 (new [song 1, song 2, song 3] .sequential).advance.snd.advance.snd)
          ([song 1, song 2, song 3].map some)) :=
  keeps_place (.advance (.advance (.new _ _ (by unfold Distinct; decide))))
    (by unfold Distinct; decide)

end Playlist
end Rabbithole.Radio
