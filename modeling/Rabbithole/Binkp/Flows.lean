import Rabbithole.Binkp.Direction

/-!
# One end while files go both ways

An event from the line moves one of the two directions, is never an error, and the end
finishes as soon as both directions are over.
-/

namespace Rabbithole.Binkp

open Foundation List Option

/-- An event of the part of a session in which files go both ways. -/
def Event.isTransfer : Event -> Bool
  | .command (.got _) => true
  | e => e.isBody

namespace Session

/-- Nothing more is to be sent or to come. -/
def Ready (s : Session) : Prop :=
  s.localEob = true ∧ s.peerEob = true ∧ s.sending = none ∧ s.receiving = none

theorem maybeFinish_of_ready {s : Session} (h : s.Ready) (hphase : s.phase = .transfer) :
    s.maybeFinish = ([.finished], { s with phase := .done }) := by
  unfold maybeFinish
  exact if_pos ⟨h.left, h.right.left, h.right.right.left, h.right.right.right, hphase⟩

theorem maybeFinish_of_not_ready {s : Session} (h : ¬ s.Ready) : s.maybeFinish = ([], s) := by
  unfold maybeFinish
  apply if_neg
  rintro ⟨hlocal, hpeer, hsending, hreceiving, -⟩
  exact h ⟨hlocal, hpeer, hsending, hreceiving⟩

end Session

namespace Side

def settle (side : Side) : Side :=
  (({ side with session := side.session.maybeFinish.snd } : Side).performAll
    side.session.maybeFinish.fst).fst

theorem performAll_maybeFinish (side : Side) :
    ({ side with session := side.session.maybeFinish.snd } : Side).performAll
      side.session.maybeFinish.fst = (side.settle, []) := by
  unfold settle
  rcases side.session.maybeFinish_cases with h | ⟨h, -⟩
  · rw [h]
    rfl
  · rw [h]
    rfl

/-- An end that lets its files go, and is finished once both directions are over. -/
structure Settled (side : Side) : Prop where
  authed : side.session.authed
  started : side.session.started = true
  launched : side.session.localEob = true ∨ side.session.sending ≠ none
  ready : side.session.phase = .done <-> side.session.Ready
  finished : side.finished = true <-> side.session.phase = .done

/-- What a settled end sends and takes in. -/
structure Became (side side' : Side) (out : Outbound) (into : Inbound) : Prop where
  settled : side'.Settled
  out : side'.outbound = out
  into : side'.inbound = into

theorem settle_became {side : Side} (hphase : side.session.phase = .transfer)
    (hstarted : side.session.started = true) (hfinished : side.finished = false)
    (hlaunched : side.session.localEob = true ∨ side.session.sending ≠ none) :
    Became side side.settle side.outbound side.inbound := by
  by_cases hready : side.session.Ready
  · have hsettle : side.settle =
        { side with session := { side.session with phase := .done }, finished := true } := by
      unfold settle
      rw [Session.maybeFinish_of_ready hready hphase]
      rfl
    rw [hsettle]
    refine ⟨⟨Or.inr rfl, hstarted, hlaunched, ?_, ?_⟩, rfl, rfl⟩
    · exact ⟨fun _ => hready, fun _ => rfl⟩
    · exact ⟨fun _ => rfl, fun _ => rfl⟩
  · have hsettle : side.settle = side := by
      unfold settle
      rw [Session.maybeFinish_of_not_ready hready]
      rfl
    rw [hsettle]
    refine ⟨⟨Or.inl hphase, hstarted, hlaunched, ?_, ?_⟩, rfl, rfl⟩
    · rw [hphase]
      exact ⟨fun h => (by cases h), fun h => absurd h hready⟩
    · rw [hphase, hfinished]
      exact ⟨fun h => (by cases h), fun h => (by cases h)⟩

theorem Settled.not_finished {side : Side} (h : side.Settled)
    (hphase : side.session.phase = .transfer) : side.finished = false := by
  rw [Bool.eq_false_iff]
  intro hfinished
  have hdone := h.finished.mp hfinished
  rw [hphase] at hdone
  cases hdone

/-- Announce the next of the files that are left, or the end. -/
theorem sendOn {side : Side} {rest : List (FileInfo × Bytes)}
    (hphase : side.session.phase = .transfer) (hstarted : side.session.started = true)
    (hfinished : side.finished = false) (hout : side.outbound = Outbound.ofFiles rest none []) :
    exists side', ({ side with session := side.session.startNextSend.snd } : Side).performAll
        side.session.startNextSend.fst = (side', (onward rest).snd) ∧
      Became side side' (onward rest).fst side.inbound := by
  have houtgoing : side.session.outgoing = rest.map Prod.fst := congrArg Outbound.outgoing hout
  have hsending : side.session.sending = none := congrArg Outbound.sending hout
  have heob : side.session.localEob = false := congrArg Outbound.localEob hout
  have hpending : side.pending = [] := congrArg Outbound.pending hout
  have hstreams : side.streams = rest.map Prod.snd := congrArg Outbound.streams hout
  cases rest with
  | nil =>
      have hstart := Session.startNextSend_nil houtgoing heob
      have hbecame := @settle_became
        { side with session := { side.session with localEob := true } } hphase hstarted hfinished
        (Or.inl rfl)
      have hperform := performAll_maybeFinish
        { side with session := { side.session with localEob := true } }
      refine ⟨_, ?_, hbecame.settled, ?_, hbecame.into⟩
      · rw [hstart]
        simp only [performAll, perform, hperform]
        rfl
      · rw [hbecame.out]
        unfold outbound
        simp only [houtgoing, hsending, hpending, hstreams, onward, map_nil]
  | cons file rest =>
      rcases file with ⟨info, content⟩
      have hstart := Session.startNextSend_cons houtgoing
      rw [hstart]
      refine ⟨{ side with
        session := { side.session with outgoing := rest.map Prod.fst, sending := some info.id }
        pending := side.pending ++ side.streams.headD []
        streams := side.streams.tail }, rfl,
        ⟨Or.inl hphase, hstarted, Or.inr (some_ne_none _), ?_, ?_⟩, ?_, rfl⟩
      · constructor
        · intro hdone
          cases hphase.symm.trans hdone
        · intro hready
          cases hready.right.right.left
      · constructor
        · intro htrue
          cases hfinished.symm.trans htrue
        · intro hdone
          cases hphase.symm.trans hdone
      · unfold outbound
        simp only [hpending, hstreams, heob, onward, Outbound.ofFiles, map_cons,
          headD_cons, tail_cons, nil_append]

/-!
## Events
-/

section Feed

variable {hashes : Hashes} {side : Side}

section

variable (hphase : side.session.phase = .transfer)
include hphase

theorem feed_transfer (e : Event) :
    side.feed hashes e =
      match side.session.advanceTransfer e with
      | (.error err, _) => .error err
      | (.ok actions, session) => .ok ({ side with session := session }.performAll actions) := by
  unfold feed Session.advance
  rcases side.session.advanceTransfer e with ⟨moved, session⟩
  cases moved with
  | error err | ok actions => simp only [hphase]

theorem feed_eob :
    side.feed hashes (.command .eob) =
      .ok (({ side with session := { side.session with peerEob := true } } : Side).settle, []) := by
  rw [feed_transfer hphase, ← performAll_maybeFinish]
  rfl

theorem feed_file {info : FileInfo} (hnone : side.session.receiving = none)
    (hsize : info.size ≠ 0) : side.feed hashes (.command (.file info)) = .ok ({ side with
        session := { side.session with receiving := some (info, 0) }
        current := some (info, []) }, []) := by
  have hfile : side.session.onFile info =
      (.ok [.expectFile info], { side.session with receiving := some (info, 0) }) := by
    unfold Session.onFile
    rw [hnone, if_neg (by simp), if_neg hsize]
  rw [feed_transfer hphase]
  unfold Session.advanceTransfer
  simp only [hfile]
  rfl

theorem feed_emptyFile {info : FileInfo} (hnone : side.session.receiving = none)
    (hsize : info.size = 0) : side.feed hashes (.command (.file info)) = .ok (({ side with
        current := none
        completed := side.completed ++ [(info.id, [])] } : Side).settle,
        [.command (.got info.id)]) := by
  have hfile : side.session.onFile info =
      (.ok (.expectFile info :: .sendCommand (.got info.id) :: .fileComplete info.id ::
        side.session.maybeFinish.fst), side.session.maybeFinish.snd) := by
    unfold Session.onFile
    rw [hnone, if_neg (by simp), if_pos hsize]
  have hperform := performAll_maybeFinish { side with
    current := none
    completed := side.completed ++ [(info.id, [])] }
  rw [feed_transfer hphase]
  unfold Session.advanceTransfer
  simp only [hfile, performAll, perform, map_some, toList_some, hperform]
  rfl

section

variable {info : FileInfo} {received : UInt64} {written : Bytes}
  (hopen : side.session.receiving = some (info, received))
  (hcurrent : side.current = some (info, written))
include hopen hcurrent

theorem feed_data {b : Bytes} (hmore : ¬ info.size <= received + UInt64.ofNat b.length) :
    side.feed hashes (.data b) =
      .ok ({ side with
        session := { side.session with
          receiving := some (info, received + UInt64.ofNat b.length) }
        current := some (info, written ++ b) }, []) := by
  have hdata : side.session.onData b =
      (.ok [.writeData b], { side.session with
        receiving := some (info, received + UInt64.ofNat b.length) }) := by
    unfold Session.onData
    rw [hopen]
    simp only [if_neg hmore]
  rw [feed_transfer hphase]
  unfold Session.advanceTransfer
  simp only [hdata, performAll, perform, hcurrent, map_some]
  rfl

theorem feed_lastData {b : Bytes} (hlast : info.size <= received + UInt64.ofNat b.length) :
    side.feed hashes (.data b) =
      .ok (({ side with
        session := { side.session with receiving := none }
        current := none
        completed := side.completed ++ [(info.id, written ++ b)] } : Side).settle,
        [.command (.got info.id)]) := by
  have hdata : side.session.onData b =
      (.ok (.writeData b :: .sendCommand (.got info.id) :: .fileComplete info.id ::
        { side.session with receiving := none }.maybeFinish.fst),
        { side.session with receiving := none }.maybeFinish.snd) := by
    unfold Session.onData
    rw [hopen]
    simp only [if_pos hlast]
  have hperform := performAll_maybeFinish { side with
    session := { side.session with receiving := none }
    current := none
    completed := side.completed ++ [(info.id, written ++ b)] }
  rw [feed_transfer hphase]
  unfold Session.advanceTransfer
  simp only [hdata, performAll, perform, hcurrent, map_some, toList_some, hperform]
  rfl

end

theorem feed_got {id : FileId} (hsending : side.session.sending = some id) (id' : FileId) :
    side.feed hashes (.command (.got id')) =
      .ok (({ side with
        session := { side.session with sending := none }.startNextSend.snd } : Side).performAll
          { side.session with sending := none }.startNextSend.fst) := by
  have hgot : side.session.onGot =
      (.ok { side.session with sending := none }.startNextSend.fst,
        { side.session with sending := none }.startNextSend.snd) := by
    unfold Session.onGot
    rw [hsending]
  rw [feed_transfer hphase]
  unfold Session.advanceTransfer
  simp only [hgot]

end

end Feed

end Side

/-!
## Either direction goes on
-/

theorem bodies_append (front back : List Event) :
    bodies (front ++ back) = bodies front ++ bodies back :=
  filter_append front back

theorem acks_append (front back : List Event) : acks (front ++ back) = acks front ++ acks back :=
  filterMap_append

theorem transfer_onward (files : List (FileInfo × Bytes)) :
    forall x, x ∈ (onward files).snd -> x.isTransfer = true := by
  intro x hx
  cases files with
  | nil | cons file rest =>
      rw [mem_singleton.mp hx]
      rfl

theorem bodies_onward (files : List (FileInfo × Bytes)) :
    bodies (onward files).snd = (onward files).snd := by
  cases files with
  | nil => rfl
  | cons file rest => rfl

theorem acks_onward (files : List (FileInfo × Bytes)) : acks (onward files).snd = [] := by
  cases files with
  | nil => rfl
  | cons file rest => rfl

/-- The two directions, as one end sees them. -/
structure Flows (mine theirs : List (FileInfo × Bytes)) (peerOut : Outbound) (peerIn : Inbound)
    (toMe toPeer : List Event) (side : Side) : Prop where
  coming : Direction theirs peerOut (bodies toMe) side.inbound (acks toPeer)
  going : Direction mine side.outbound (bodies toPeer) peerIn (acks toMe)

/-- The files are as long as they say. -/
def Sized (files : List (FileInfo × Bytes)) : Prop :=
  forall file, file ∈ files -> file.snd.length = file.fst.size.toNat

/-- What came of an event: the end is settled, and both directions go on. -/
structure Went (mine theirs : List (FileInfo × Bytes)) (peerOut : Outbound) (peerIn : Inbound)
    (rest toPeer : List Event) (side : Side) (sent : List Event) : Prop where
  settled : side.Settled
  transfer : forall x, x ∈ sent -> x.isTransfer = true
  flows : Flows mine theirs peerOut peerIn rest (toPeer ++ sent) side

section Flows

variable {hashes : Hashes} {mine theirs : List (FileInfo × Bytes)} {peerOut : Outbound}
  {peerIn : Inbound} {e : Event} {rest toPeer : List Event} {side : Side}

theorem Flows.phase (h : Flows mine theirs peerOut peerIn (e :: rest) toPeer side)
    (hsettled : side.Settled) (he : e.isTransfer = true) : side.session.phase = .transfer := by
  rcases hsettled.authed with hphase | hdone
  · exact hphase
  · exfalso
    have hready := hsettled.ready.mp hdone
    have hpeer := Direction.localEob_of_peerEob h.coming hready.right.left
    have hbodies := (Direction.over_of_localEob h.coming hpeer).right.right.right.right
      hready.right.left
    have hacks := (Direction.over_of_localEob h.going hready.left).left
    cases e with
    | data b => cases hbodies
    | command cmd =>
        cases cmd with
        | file info | eob => cases hbodies
        | got id => cases hacks
        | _ => cases he

section

variable (hgoing : Direction mine side.outbound (bodies toPeer) peerIn (acks rest))
  (hacks : acks toPeer = [])
include hgoing hacks

theorem Flows.acknowledge {side' : Side} {id : FileId} {into : Inbound}
    (hcoming : Direction theirs peerOut (bodies rest) into [id])
    (hbecame : Side.Became side side' side.outbound into) :
    Went mine theirs peerOut peerIn rest toPeer side' [.command (.got id)] := by
  refine ⟨hbecame.settled, ?_, ?_, ?_⟩
  · intro x hx
    rw [mem_singleton.mp hx]
    rfl
  · rw [hbecame.into, acks_append, hacks]
    exact hcoming
  · rw [hbecame.out, bodies_append]
    show Direction mine side.outbound (bodies toPeer ++ []) peerIn (acks rest)
    rw [append_nil]
    exact hgoing

theorem Flows.silent {side' : Side} {into : Inbound}
    (hcoming : Direction theirs peerOut (bodies rest) into [])
    (hbecame : Side.Became side side' side.outbound into) :
    Went mine theirs peerOut peerIn rest toPeer side' [] := by
  refine ⟨hbecame.settled, ?_, ?_, ?_⟩
  · intro x hx
    cases hx
  · rw [hbecame.into, append_nil, hacks]
    exact hcoming
  · rw [hbecame.out, append_nil]
    exact hgoing

end

theorem Flows.feed_live (hsized : Sized theirs) (hsettled : side.Settled)
    (h : Flows mine theirs peerOut peerIn (e :: rest) toPeer side) (he : e.isTransfer = true) :
    exists side' sent, side.feed hashes e = .ok (side', sent) ∧
      Went mine theirs peerOut peerIn rest toPeer side' sent := by
  have hphase := h.phase hsettled he
  have hfinished := hsettled.not_finished hphase
  have hwaits : forall s' : Session, s'.phase = .transfer -> s'.receiving ≠ none ->
      (s'.phase = .done <-> s'.Ready) := by
    intro s' htransfer hopen
    constructor
    · intro hdone
      cases htransfer.symm.trans hdone
    · intro hready
      exact absurd hready.right.right.right hopen
  cases e with
  | data b =>
      have hgoing : Direction mine side.outbound (bodies toPeer) peerIn (acks rest) := h.going
      rcases Direction.data hsized h.coming with
        ⟨hacks, info, received, written, completed, hinto, hlast, hmore⟩
      have hopen : side.session.receiving = some (info, received) :=
        congrArg Inbound.receiving hinto
      have hcurrent : side.current = some (info, written) := congrArg Inbound.current hinto
      have heob : side.session.peerEob = false := congrArg Inbound.peerEob hinto
      have hcompleted : side.completed = completed := congrArg Inbound.completed hinto
      by_cases hend : info.size <= received + UInt64.ofNat b.length
      · refine ⟨_, _, Side.feed_lastData hphase hopen hcurrent hend, ?_⟩
        refine Flows.acknowledge hgoing hacks (hlast hend) ?_
        have hbecame := @Side.settle_became { side with
          session := { side.session with receiving := none }
          current := none
          completed := side.completed ++ [(info.id, written ++ b)] } hphase hsettled.started
          hfinished hsettled.launched
        refine ⟨hbecame.settled, hbecame.out, hbecame.into.trans ?_⟩
        unfold Side.inbound
        simp only [heob, hcompleted]
      · refine ⟨_, _, Side.feed_data hphase hopen hcurrent hend, ?_⟩
        refine Flows.silent hgoing hacks (hmore hend) ⟨⟨Or.inl hphase, hsettled.started,
          hsettled.launched, hwaits _ hphase (by simp), hsettled.finished⟩, rfl, ?_⟩
        unfold Side.inbound
        simp only [heob, hcompleted]
  | command cmd =>
      cases cmd with
      | file info =>
          have hgoing : Direction mine side.outbound (bodies toPeer) peerIn (acks rest) := h.going
          rcases Direction.file hsized h.coming with ⟨hacks, completed, hinto, hempty, hmore⟩
          have hnone : side.session.receiving = none := congrArg Inbound.receiving hinto
          have heob : side.session.peerEob = false := congrArg Inbound.peerEob hinto
          have hcompleted : side.completed = completed := congrArg Inbound.completed hinto
          by_cases hsize : info.size = 0
          · refine ⟨_, _, Side.feed_emptyFile hphase hnone hsize, ?_⟩
            refine Flows.acknowledge hgoing hacks (hempty hsize) ?_
            have hbecame := @Side.settle_became { side with
              current := none
              completed := side.completed ++ [(info.id, [])] } hphase hsettled.started hfinished
              hsettled.launched
            refine ⟨hbecame.settled, hbecame.out, hbecame.into.trans ?_⟩
            unfold Side.inbound
            simp only [hnone, heob, hcompleted]
          · refine ⟨_, _, Side.feed_file hphase hnone hsize, ?_⟩
            refine Flows.silent hgoing hacks (hmore hsize) ⟨⟨Or.inl hphase, hsettled.started,
              hsettled.launched, hwaits _ hphase (by simp), hsettled.finished⟩, rfl, ?_⟩
            unfold Side.inbound
            simp only [heob, hcompleted]
      | eob =>
          have hgoing : Direction mine side.outbound (bodies toPeer) peerIn (acks rest) := h.going
          rcases Direction.eob h.coming with ⟨hrest, hacks, hinto, hover⟩
          refine ⟨_, _, Side.feed_eob hphase, ?_⟩
          have hbecame := @Side.settle_became { side with
            session := { side.session with peerEob := true } } hphase hsettled.started hfinished
            hsettled.launched
          have hnothing : bodies rest = [] := hrest
          rw [← hnothing] at hover
          refine Flows.silent hgoing hacks hover ⟨hbecame.settled, hbecame.out,
            hbecame.into.trans ?_⟩
          have hreceiving : side.session.receiving = none := congrArg Inbound.receiving hinto
          have hcurrent : side.current = none := congrArg Inbound.current hinto
          have hcompleted : side.completed = handed theirs := congrArg Inbound.completed hinto
          unfold Side.inbound
          simp only [hreceiving, hcurrent, hcompleted]
      | got id =>
          have hcoming : Direction theirs peerOut (bodies rest) side.inbound (acks toPeer) :=
            h.coming
          rcases Direction.got h.going with ⟨hacks, hbodies, past, left, hfiles, hout, hnext⟩
          have hsending : side.session.sending = some id := congrArg Outbound.sending hout
          have hcleared : ({ side with session := { side.session with sending := none } } :
              Side).outbound = Outbound.ofFiles left none [] := by
            have houtgoing : side.session.outgoing = left.map Prod.fst :=
              congrArg Outbound.outgoing hout
            have heob : side.session.localEob = false := congrArg Outbound.localEob hout
            have hpending : side.pending = [] := congrArg Outbound.pending hout
            have hstreams : side.streams = left.map Prod.snd := congrArg Outbound.streams hout
            unfold Side.outbound
            simp only [houtgoing, heob, hpending, hstreams]
            rfl
          rcases @Side.sendOn { side with session := { side.session with sending := none } } left
            hphase hsettled.started hfinished hcleared with ⟨side', hperform, hbecame⟩
          refine ⟨side', _, (Side.feed_got hphase hsending id).trans (congrArg Except.ok hperform),
            hbecame.settled, transfer_onward left, ?_, ?_⟩
          · rw [hbecame.into, acks_append, acks_onward, append_nil]
            exact hcoming
          · have hnone : acks rest = [] := hacks
            rw [hbecame.out, bodies_append, hbodies, bodies_onward, hnone]
            exact hnext
      | _ => cases he

end Flows
end Rabbithole.Binkp
