import Rabbithole.Federation.HistoryTurns

/-!
# Passes take turns

A link waits for every other active link of its peer: the last link stays on the way from
it round to the other one until that one has had its pass.
-/

namespace Rabbithole.Federation
namespace History

open Foundation List

variable {key cursor : Type} [DecidableEq key] {s : State key cursor} {peer p : key}
  {link id now cadenceSecs : Nat} {w w' : World key cursor} {a : Action key cursor}

/-- Between two passes of a link the last one stays on the way from it round to another
link that has not had its turn. -/
def OnTheWay (link other last : Nat) : Prop :=
  (link < other ∧ link <= last ∧ last < other) ∨
    (other < link ∧ (link <= last ∨ last < other))

theorem onTheWay_self {link other : Nat} (h : other ≠ link) : OnTheWay link other link := by
  unfold OnTheWay
  omega

theorem OnTheWay.turn {other last next : Nat} (h : OnTheWay link other last)
    (hturn : (last < next ∧ (last < other -> next <= other)) ∨
      (other <= last ∧ next <= other)) :
    next = other ∨ (next ≠ link ∧ OnTheWay link other next) := by
  unfold OnTheWay at *
  omega

/-- Whether a pass of the link is among those that have begun since. -/
def PassedSince (before w : World key cursor) (peer : key) (link : Nat) : Prop :=
  exists now, ⟨peer, link, now⟩ ∈ w.begun.drop before.begun.length

/-- What one step does to the turns, where another link of the peer stays. -/
theorem begun_step (hstep : w.step cadenceSecs a = some w') {l : Link cursor}
    (hthere : w.state.link? p id = some l) :
    (w'.begun = w.begun ∧ lastLink? w'.state p = lastLink? w.state p) ∨
      exists r now entry l, a = Action.begin r now ∧
        Begins w.state r.peer r.link now cadenceSecs entry l ∧
        w'.begun = w.begun ++ [⟨r.peer, r.link, now⟩] ∧
        lastLink? w'.state p = if p = r.peer then some r.link else lastLink? w.state p := by
  cases a with
  | register peer now =>
      unfold World.step at hstep
      simp only [] at hstep
      split at hstep
      · cases hstep
      · cases hstep
        exact Or.inl ⟨rfl, (register_registered w.state peer now).lastLink p id l hthere⟩
  | active r active | dropPass r =>
      unfold World.step at hstep
      simp only [] at hstep
      split at hstep
      · cases hstep
        exact Or.inl ⟨rfl, lastLink?_changeLink _ _ _ _ _⟩
      · cases hstep
  | begin r now =>
      unfold World.step at hstep
      simp only [] at hstep
      split at hstep
      · rcases begin_cases w.state r.peer r.link now cadenceSecs with
          hrefused | ⟨entry, l, hbegins, hbegun⟩
        · rw [hrefused] at hstep
          cases hstep
          exact Or.inl ⟨rfl, rfl⟩
        · rw [hbegun] at hstep
          cases hstep
          exact Or.inr ⟨r, now, entry, l, rfl, hbegins, rfl,
            lastLink?_begunState hbegins.found r.link now p⟩
      · cases hstep
  | finish r next =>
      unfold World.step at hstep
      simp only [] at hstep
      split at hstep
      · cases hstep
        exact Or.inl ⟨rfl, (lastLink?_changeLink _ _ _ _ _).trans (lastLink?_changeLink _ _ _ _ _)⟩
      · cases hstep
  | dropRegistration r =>
      unfold World.step at hstep
      simp only [] at hstep
      split at hstep
      · cases hstep
        exact Or.inl ⟨rfl, lastLink?_dropRegistration _ _ _ _⟩
      · cases hstep

/-- Since then the other link has had a pass, or the turn is still on its way to it. -/
structure Waiting (before : World key cursor) (peer : key) (link other : Nat)
    (w : World key cursor) : Prop where
  later : before.begun.length <= w.begun.length
  turn : PassedSince before w peer other ∨
    exists last, lastLink? w.state peer = some last ∧ OnTheWay link other last

omit [DecidableEq key] in
variable {before : World key cursor} {other : Nat} {entry : Peer cursor} {l : Link cursor}

theorem PassedSince.append (h : PassedSince before w p id) {more : List (Begun key)}
    (hbegun : w'.begun = w.begun ++ more) : PassedSince before w' p id := by
  rcases h with ⟨now, hmem⟩
  refine ⟨now, ?_⟩
  rw [hbegun, drop_append]
  exact mem_append_left _ hmem

theorem Begins.mem_ring (h : Begins w.state peer link now cadenceSecs entry l)
    (hactive : w.isActive peer id) : id ∈ entry.ring := by
  rcases hactive with ⟨l', hl', hon⟩
  unfold State.link? at hl'
  rw [h.found] at hl'
  exact History.mem_ring.mpr ⟨l', hl', hon⟩

theorem Begins.lastLink (h : Begins s peer link now cadenceSecs entry l) :
    lastLink? s peer = some entry.lastLink := by
  unfold lastLink?
  rw [h.found]
  rfl

theorem Waiting.step (h : Waiting before p link other w) (hactive : w.isActive p other)
    (hstep : w.step cadenceSecs a = some w') : Waiting before p link other w' := by
  rcases hactive with ⟨l, hl, hon⟩
  rcases begun_step hstep hl with ⟨hbegun, hlast⟩ | ⟨r, now, entry, lr, -, hbegins, hbegun, hlast⟩
  · constructor
    · rw [hbegun]
      exact h.later
    · rw [hlast]
      rcases h.turn with hpassed | hway
      · left
        exact hpassed.append (hbegun.trans (append_nil _).symm)
      · exact Or.inr hway
  · constructor
    · rw [hbegun, length_append]
      exact Nat.le_trans h.later (Nat.le_add_right _ _)
    · rcases h.turn with hpassed | ⟨last, hwas, hway⟩
      · exact Or.inl (hpassed.append hbegun)
      · by_cases hp : p = r.peer
        · subst hp
          rw [if_pos rfl] at hlast
          rw [hbegins.lastLink] at hwas
          cases hwas
          have hturn := turn_before hbegins.turn (hbegins.mem_ring ⟨l, hl, hon⟩)
          rcases hway.turn hturn with hother | ⟨-, hstill⟩
          · left
            refine ⟨now, ?_⟩
            rw [hbegun, drop_append_of_le_length h.later, <- hother]
            exact mem_append_right _ (mem_singleton_self _)
          · exact Or.inr ⟨r.link, hlast, hstill⟩
        · right
          rw [if_neg hp] at hlast
          exact ⟨last, hlast.trans hwas, hway⟩

theorem Waiting.run {acts : List (Action key cursor)} (h : Waiting before p link other w)
    (hactive : Along (World.step cadenceSecs) (fun w _ => w.isActive p other) w acts)
    (hrun : run? (World.step cadenceSecs) w acts = some w') : Waiting before p link other w' := by
  induction acts generalizing w with
  | nil =>
      cases hrun
      exact h
  | cons a rest ih =>
      rcases run?_cons_some hrun with ⟨next, hfirst, hrest⟩
      exact ih (h.step hactive.left hfirst) (hactive.right next hfirst) hrest

theorem Waiting.begin (h : Waiting before p link other w) (hactive : w.isActive p other)
    (hbegins : Begins w.state p link now cadenceSecs entry l) : PassedSince before w p other := by
  rcases h.turn with hpassed | ⟨last, hwas, hway⟩
  · exact hpassed
  · rw [hbegins.lastLink] at hwas
    cases hwas
    have hturn := turn_before hbegins.turn (hbegins.mem_ring hactive)
    rcases hway.turn hturn with hother | ⟨hnot, -⟩
    · have hon : OnTheWay link other entry.lastLink := hway
      unfold OnTheWay at hon
      omega
    · exact absurd rfl hnot

/-!
## Every run
-/

/-- A link is granted a pass. -/
def Granted (cadenceSecs : Nat) (w : World key cursor) (r : Handle key) (now : Nat)
    (w' : World key cursor) : Prop :=
  w.step cadenceSecs (.begin r now) = some w' ∧
    w'.begun = w.begun ++ [⟨r.peer, r.link, now⟩]

theorem Granted.begins {r : Handle key} (h : Granted cadenceSecs w r now w') :
    exists entry l, Begins w.state r.peer r.link now cadenceSecs entry l ∧
      w'.state = begunState w.state r.peer r.link now := by
  rcases h with ⟨hstep, hbegun⟩
  unfold World.step at hstep
  simp only [] at hstep
  split at hstep
  · rcases begin_cases w.state r.peer r.link now cadenceSecs with
      hrefused | ⟨entry, l, hbegins, hgranted⟩
    · rw [hrefused] at hstep
      cases hstep
      exact absurd (self_eq_append_right.mp hbegun) (cons_ne_nil _ _)
    · rw [hgranted] at hstep
      cases hstep
      exact ⟨entry, l, hbegins, rfl⟩
  · cases hstep

theorem Granted.waiting {r : Handle key} (h : Granted cadenceSecs w r now w')
    (hother : other ≠ r.link) : Waiting w' r.peer r.link other w' := by
  rcases h.begins with ⟨entry, l, hbegins, hstate⟩
  constructor
  · exact Nat.le_refl _
  · right
    refine ⟨r.link, ?_, onTheWay_self hother⟩
    rw [hstate, lastLink?_begunState hbegins.found, if_pos rfl]

/-- Whatever links and peers do: passes to one peer are never two at a time and begin the
interval apart, a link's next pass begins only after every other link of the peer that was
active throughout has had one, and the table keeps to its bounds. -/
theorem passes_spaced_and_in_turn {acts : List (Action key cursor)} {w : World key cursor}
    (hrun : run? (World.step cadenceSecs) World.new acts = some w) : w.begun.Pairwise (fun b b' =>
      b.peer = b'.peer -> b.instant + interval cadenceSecs <= b'.instant) ∧
    (w.passes.map Handle.peer).Nodup ∧
    w.state.peers.size <= 4096 ∧
    (forall p entry, w.state.peers.get? p = some entry -> entry.links.size <= 8) ∧
    (forall r now first between next now' second, Granted cadenceSecs w r now first ->
      run? (World.step cadenceSecs) first between = some next ->
      Granted cadenceSecs next r now' second ->
      forall other, other ≠ r.link ->
      Along (World.step cadenceSecs) (fun w _ => w.isActive r.peer other) first between ->
      next.isActive r.peer other -> PassedSince first next r.peer other) := by
  have hsound : Sound cadenceSecs w :=
    run?_invariant (fun _ _ _ h hstep => Sound.step h hstep) (sound_new cadenceSecs) hrun
  refine ⟨hsound.cooling.spaced, hsound.holding.single, hsound.sized.peers, hsound.sized.links, ?_⟩
  intro r now first between next now' second hfirst hbetween hsecond other hother hactive hnext
  have hwaiting := (hfirst.waiting hother).run hactive hbetween
  rcases hsecond.begins with ⟨entry, l, hbegins, -⟩
  exact hwaiting.begin hnext hbegins

instance World.isActive.decidable (w : World key cursor) (peer : key) (link : Nat) :
    Decidable (w.isActive peer link) :=
  decidable_of_iff ((w.state.link? peer link).any Link.active = true) (by
    unfold World.isActive
    rw [Option.any_eq_true])

def twoLinks : List (Action Nat Nat) :=
  [.register 7 0, .register 7 0, .active ⟨7, 1⟩ true, .active ⟨7, 2⟩ true]

/-- The second link has its pass before the first one has another. -/
def secondLink : List (Action Nat Nat) :=
  [.finish ⟨7, 1⟩ (some 40), .begin ⟨7, 1⟩ (seconds 5), .begin ⟨7, 2⟩ (seconds 5),
    .dropPass ⟨7, 2⟩]

theorem passes_spaced_and_in_turn_two_links :
    exists w first next second,
      run? (World.step 5) World.new twoLinks = some w ∧
      Granted 5 w ⟨7, 1⟩ 0 first ∧
      run? (World.step 5) first secondLink = some next ∧
      Granted 5 next ⟨7, 1⟩ (seconds 10) second ∧
      PassedSince first next 7 2 := by
  refine ⟨_, _, _, _, rfl, ⟨rfl, rfl⟩, rfl, ⟨rfl, rfl⟩, ?_⟩
  have hreach : run? (World.step 5) World.new twoLinks = some _ := rfl
  have hturns := (passes_spaced_and_in_turn hreach).right.right.right.right
  apply hturns ⟨7, 1⟩ 0 _ secondLink _ (seconds 10) _ ⟨rfl, rfl⟩ rfl ⟨rfl, rfl⟩ 2 (by decide)
  · decide
  · decide

end History
end Rabbithole.Federation
