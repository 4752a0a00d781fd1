import Rabbithole.Binkp.Moves

/-!
# Two sessions on a line

The originating and the answering session, each with the driver that performs its actions and
a queue of events.  A driver streams a file in blocks of any length, while it goes on reading.
-/

namespace Rabbithole.Binkp

open Foundation List

def Role.other : Role -> Role
  | .originating => .answering
  | .answering => .originating

/--
A session and its driver: what is still to be streamed of the file that is out, the contents
of the files behind it, the file that comes in, and those that are complete.
-/
structure Side where
  session : Session
  pending : Bytes
  streams : List Bytes
  current : Option (FileInfo × Bytes)
  completed : List (FileId × Bytes)
  finished : Bool

namespace Side

/-- What the driver does for an action, and what it puts on the line. -/
def perform (side : Side) : Action -> Side × List Event
  | .sendCommand cmd => (side, [.command cmd])
  | .streamFile _ =>
      ({ side with
        pending := side.pending ++ side.streams.headD []
        streams := side.streams.tail }, [])
  | .expectFile info => ({ side with current := some (info, []) }, [])
  | .writeData bytes =>
      ({ side with current := side.current.map (fun file => (file.fst, file.snd ++ bytes)) }, [])
  | .fileComplete id =>
      ({ side with
        current := none
        completed := side.completed ++ (side.current.map (fun file => (id, file.snd))).toList }, [])
  | .finished => ({ side with finished := true }, [])
  | .authenticated => (side, [])
  | .aborted _ => (side, [])

def performAll (side : Side) : List Action -> Side × List Event
  | [] => (side, [])
  | a :: rest =>
      let (side, sent) := side.perform a
      let (side, behind) := side.performAll rest
      (side, sent ++ behind)

/-- One event from the line, and what it makes the driver do; an error changes nothing. -/
def feed (hashes : Hashes) (side : Side) (e : Event) : Except SessionError (Side × List Event) :=
  match side.session.advance hashes e with
  | (.error err, _) => .error err
  | (.ok actions, session) => .ok ({ side with session := session }.performAll actions)

end Side

/-- The two ends, the events on the way to each, and the errors that came up. -/
structure Net where
  sides : Role -> Side
  wires : Role -> List Event
  errors : List SessionError

inductive NetMove where
  | start (r : Role)
  | deliver (r : Role)
  | stream (r : Role) (length : Nat)

namespace Net

/-- One end after its actions, with the rest of what is on the way to it. -/
def put (n : Net) (r : Role) (side : Side) (rest sent : List Event) : Net where
  sides := Function.update n.sides r side
  wires := Function.update (Function.update n.wires r rest) r.other (n.wires r.other ++ sent)
  errors := n.errors

def step (hashes : Hashes) (n : Net) : NetMove -> Option Net
  | .start r =>
      let side := n.sides r
      if side.session.started then none
      else
        let (actions, session) := side.session.start
        let (side, sent) := { side with session := session }.performAll actions
        some (n.put r side (n.wires r) sent)
  | .deliver r =>
      -- a session is started before it is fed
      if !(n.sides r).session.started then none
      else
        match n.wires r with
        | [] => none
        | e :: rest =>
            match (n.sides r).feed hashes e with
            | .error err => some { n.put r (n.sides r) rest [] with errors := n.errors ++ [err] }
            | .ok (side, sent) => some (n.put r side rest sent)
  | .stream r length =>
      let side := n.sides r
      if 0 < length ∧ length <= side.pending.length then
        some (n.put r { side with pending := side.pending.drop length } (n.wires r)
          [.data (side.pending.take length)])
      else none

end Net

/-- What the two ends are set up with; the files come with their contents. -/
structure Setup where
  password : String
  addresses : Role -> List Address
  systemInfo : Role -> List String
  challenge : Role -> Option Bytes
  files : Role -> List (FileInfo × Bytes)

namespace Setup

def config (setup : Setup) (r : Role) : SessionConfig where
  addresses := setup.addresses r
  systemInfo := setup.systemInfo r
  password := setup.password
  challenge := setup.challenge r
  outgoing := (setup.files r).map Prod.fst

def side (hashes : Hashes) (setup : Setup) (r : Role) : Side where
  session := Session.new hashes r (setup.config r)
  pending := []
  streams := (setup.files r).map Prod.snd
  current := none
  completed := []
  finished := false

def net (hashes : Hashes) (setup : Setup) : Net where
  sides := setup.side hashes
  wires := fun _ => []
  errors := []

/-- Every file is as long as it says, and no line of information offers a challenge. -/
structure Proper (setup : Setup) : Prop where
  sized : forall r file, file ∈ setup.files r -> file.snd.length = file.fst.size.toNat
  plain : forall r line, line ∈ setup.systemInfo r -> parseChallenge line = none

end Setup

/-!
# The files of one direction

What one end still has to send, what is on the way, and what the other end has: a direction
is in one of few places, and each event on the line moves it to the next.
-/

structure Outbound where
  outgoing : List FileInfo
  sending : Option FileId
  localEob : Bool
  pending : Bytes
  streams : List Bytes

structure Inbound where
  receiving : Option (FileInfo × UInt64)
  peerEob : Bool
  current : Option (FileInfo × Bytes)
  completed : List (FileId × Bytes)

def Side.outbound (side : Side) : Outbound where
  outgoing := side.session.outgoing
  sending := side.session.sending
  localEob := side.session.localEob
  pending := side.pending
  streams := side.streams

def Side.inbound (side : Side) : Inbound where
  receiving := side.session.receiving
  peerEob := side.session.peerEob
  current := side.current
  completed := side.completed

/-- The part of a line that carries files. -/
def Event.isBody : Event -> Bool
  | .data _ => true
  | .command (.file _) => true
  | .command .eob => true
  | _ => false

def bodies (wire : List Event) : List Event :=
  wire.filter Event.isBody

/-- The part of a line that acknowledges files. -/
def acks (wire : List Event) : List FileId :=
  wire.filterMap (fun
    | .command (.got id) => some id
    | _ => none)

/-- The files as they arrive at the other end. -/
def handed (files : List (FileInfo × Bytes)) : List (FileId × Bytes) :=
  files.map (fun file => (file.fst.id, file.snd))

/-- What is left to send of these files. -/
def Outbound.ofFiles (files : List (FileInfo × Bytes)) (sending : Option FileId)
    (pending : Bytes) : Outbound where
  outgoing := files.map Prod.fst
  sending := sending
  localEob := false
  pending := pending
  streams := files.map Prod.snd

/-- The places a direction can be in, from the first file to the last. -/
inductive Direction (files : List (FileInfo × Bytes)) :
    Outbound -> List Event -> Inbound -> List FileId -> Prop where
  | idle :
      Direction files (Outbound.ofFiles files none []) [] ⟨none, false, none, []⟩ []
  | announced {past rest : List (FileInfo × Bytes)} {info : FileInfo} {content pending : Bytes}
      {blocks : List Bytes} (hfiles : files = past ++ (info, content) :: rest)
      (hblocks : forall b, b ∈ blocks -> b ≠ []) (hcontent : blocks.flatten ++ pending = content) :
      Direction files (Outbound.ofFiles rest (some info.id) pending)
        (.command (.file info) :: blocks.map Event.data) ⟨none, false, none, handed past⟩ []
  | arriving {past rest : List (FileInfo × Bytes)} {info : FileInfo} {content pending : Bytes}
      {blocks : List Bytes} {received : UInt64} {written : Bytes}
      (hfiles : files = past ++ (info, content) :: rest)
      (hblocks : forall b, b ∈ blocks -> b ≠ [])
      (hcontent : written ++ (blocks.flatten ++ pending) = content)
      (hreceived : received.toNat = written.length) (hmore : written.length < content.length) :
      Direction files (Outbound.ofFiles rest (some info.id) pending) (blocks.map Event.data)
        ⟨some (info, received), false, some (info, written), handed past⟩ []
  | acked {past rest : List (FileInfo × Bytes)} {info : FileInfo} {content : Bytes}
      (hfiles : files = past ++ (info, content) :: rest) :
      Direction files (Outbound.ofFiles rest (some info.id) []) []
        ⟨none, false, none, handed (past ++ [(info, content)])⟩ [info.id]
  | ended (arrived : Bool) :
      Direction files ⟨[], none, true, [], []⟩ (if arrived then [] else [.command .eob])
        ⟨none, arrived, none, handed files⟩ []

/-!
## Moves of a direction
-/

def onward : List (FileInfo × Bytes) -> Outbound × List Event
  | (info, content) :: rest => (Outbound.ofFiles rest (some info.id) content, [.command (.file info)])
  | [] => (⟨[], none, true, [], []⟩, [.command .eob])

namespace Direction

variable {files past rest : List (FileInfo × Bytes)} {out : Outbound} {wire : List Event}
  {into : Inbound} {acked : List FileId}

theorem send (hfiles : files = past ++ rest) :
    Direction files (onward rest).fst (onward rest).snd ⟨none, false, none, handed past⟩ [] := by
  cases rest with
  | nil =>
      rw [append_nil] at hfiles
      rw [← hfiles]
      exact Direction.ended false
  | cons file rest =>
      rcases file with ⟨info, content⟩
      exact @Direction.announced files past rest info content content [] hfiles
        (fun b hb => by cases hb) rfl

theorem begin (h : Direction files (Outbound.ofFiles files none []) wire into acked) :
    wire = [] ∧ acked = [] ∧ into = ⟨none, false, none, []⟩ ∧
      Direction files (onward files).fst (onward files).snd into [] := by
  generalize hout : Outbound.ofFiles files none [] = out at h
  have hsending := congrArg Outbound.sending hout
  have heob := congrArg Outbound.localEob hout
  cases h with
  | idle => exact ⟨rfl, rfl, rfl, @send files [] files rfl⟩
  | announced hfiles hblocks hcontent | arriving hfiles hblocks hcontent hreceived hmore
  | acked hfiles => cases hsending
  | ended arrived => cases heob

theorem got {id : FileId} (h : Direction files out wire into (id :: acked)) :
    acked = [] ∧ wire = [] ∧ exists past rest, files = past ++ rest ∧
      out = Outbound.ofFiles rest (some id) [] ∧
      Direction files (onward rest).fst (onward rest).snd into [] := by
  cases h with
  | acked hfiles =>
      rename_i past rest info content
      have hsplit : files = (past ++ [(info, content)]) ++ rest := by
        rw [append_assoc]
        exact hfiles
      exact ⟨rfl, rfl, _, rest, hsplit, rfl, send hsplit⟩

theorem flatten_stream (blocks : List Bytes) (pending : Bytes) (length : Nat) :
    (blocks ++ [pending.take length]).flatten ++ pending.drop length = blocks.flatten ++ pending := by
  rw [flatten_append, flatten_singleton, append_assoc, take_append_drop]

theorem blocks_stream {blocks : List Bytes} {pending : Bytes} {length : Nat} (hpos : 0 < length)
    (hlength : length <= pending.length) (hblocks : forall b, b ∈ blocks -> b ≠ []) :
    forall b, b ∈ blocks ++ [pending.take length] -> b ≠ [] := by
  intro b hb
  rcases mem_append.mp hb with hold | hnew
  · exact hblocks b hold
  · rw [mem_singleton.mp hnew]
    intro hnil
    have htake := congrArg List.length hnil
    rw [length_take, Nat.min_eq_left hlength] at htake
    exact Nat.ne_of_gt hpos htake

theorem map_stream (blocks : List Bytes) (b : Bytes) :
    (blocks ++ [b]).map Event.data = blocks.map Event.data ++ [.data b] := by
  rw [map_append]
  rfl

theorem stream {length : Nat} (h : Direction files out wire into acked) (hpos : 0 < length)
    (hlength : length <= out.pending.length) :
    Direction files { out with pending := out.pending.drop length }
      (wire ++ [.data (out.pending.take length)]) into acked := by
  have hempty : forall {b : Bytes}, b.length = 0 -> ¬ length <= b.length := by
    intro b hb hle
    omega
  cases h with
  | idle | acked hfiles | ended arrived => exact absurd hlength (hempty rfl)
  | announced hfiles hblocks hcontent =>
      rename_i past rest info content pending blocks
      have hmoved := @Direction.announced files past rest info content (pending.drop length)
        (blocks ++ [pending.take length]) hfiles (blocks_stream hpos hlength hblocks)
        ((flatten_stream blocks pending length).trans hcontent)
      rw [map_stream] at hmoved
      exact hmoved
  | arriving hfiles hblocks hcontent hreceived hmore =>
      rename_i past rest info content pending blocks received written
      have hmoved := @Direction.arriving files past rest info content (pending.drop length)
        (blocks ++ [pending.take length]) received written hfiles
        (blocks_stream hpos hlength hblocks)
        ((congrArg (written ++ ·) (flatten_stream blocks pending length)).trans hcontent)
        hreceived hmore
      rw [map_stream] at hmoved
      exact hmoved

theorem eob (h : Direction files out (.command .eob :: wire) into acked) :
    wire = [] ∧ acked = [] ∧ into = ⟨none, false, none, handed files⟩ ∧
      Direction files out [] ⟨none, true, none, handed files⟩ [] := by
  generalize hwire : Event.command .eob :: wire = whole at h
  cases h with
  | idle | announced hfiles hblocks hcontent | acked hfiles => cases hwire
  | arriving hfiles hblocks hcontent hreceived hmore =>
      rename_i blocks received written
      cases blocks with
      | nil | cons b blocks => cases hwire
  | ended arrived =>
      cases arrived with
      | true => cases hwire
      | false =>
          cases hwire
          exact ⟨rfl, rfl, rfl, Direction.ended true⟩

theorem blocks_nil {blocks : List Bytes} (hblocks : forall b, b ∈ blocks -> b ≠ [])
    (h : blocks.flatten = []) : blocks = [] := by
  apply eq_nil_iff_forall_not_mem.mpr
  intro b hb
  exact hblocks b hb (flatten_eq_nil_iff.mp h b hb)

theorem handed_append (past : List (FileInfo × Bytes)) (info : FileInfo) (content : Bytes) :
    handed (past ++ [(info, content)]) = handed past ++ [(info.id, content)] := by
  unfold handed
  rw [map_append]
  rfl

section

variable (hsized : forall file, file ∈ files -> file.snd.length = file.fst.size.toNat)
include hsized

theorem file {info : FileInfo}
    (h : Direction files out (.command (.file info) :: wire) into acked) :
    acked = [] ∧ exists completed, into = ⟨none, false, none, completed⟩ ∧
      (info.size = 0 ->
        Direction files out wire ⟨none, false, none, completed ++ [(info.id, [])]⟩ [info.id]) ∧
      (info.size ≠ 0 ->
        Direction files out wire ⟨some (info, 0), false, some (info, []), completed⟩ []) := by
  generalize hwire : Event.command (.file info) :: wire = whole at h
  cases h with
  | idle => cases hwire
  | arriving hfiles hblocks hcontent hreceived hmore =>
      rename_i blocks received written
      cases blocks with
      | nil | cons b blocks => cases hwire
  | acked hfiles => cases hwire
  | ended arrived =>
      cases arrived with
      | true | false => cases hwire
  | announced hfiles hblocks hcontent =>
      rename_i past rest info' content pending blocks
      cases hwire
      have hsize := hsized (info, content) (by rw [hfiles]; simp)
      refine ⟨rfl, _, rfl, ?_, ?_⟩
      · intro hzero
        rw [hzero] at hsize
        have hnil : content = [] := eq_nil_of_length_eq_zero hsize
        rw [hnil] at hcontent hfiles
        rcases append_eq_nil_iff.mp hcontent with ⟨hflat, hpending⟩
        rw [blocks_nil hblocks hflat, hpending, ← handed_append]
        exact Direction.acked hfiles
      · intro hzero
        refine Direction.arriving hfiles hblocks hcontent rfl ?_
        have hpos := UInt64.pos_iff_ne_zero.mpr hzero
        rw [UInt64.lt_iff_toNat_lt] at hpos
        show 0 < content.length
        rw [hsize]
        exact hpos

/-- A block comes in: the last one completes the file. -/
theorem data {b : Bytes} (h : Direction files out (.data b :: wire) into acked) :
    acked = [] ∧ exists info received written completed,
      into = ⟨some (info, received), false, some (info, written), completed⟩ ∧
      (info.size <= received + UInt64.ofNat b.length ->
        Direction files out wire ⟨none, false, none, completed ++ [(info.id, written ++ b)]⟩
          [info.id]) ∧
      (¬ info.size <= received + UInt64.ofNat b.length ->
        Direction files out wire ⟨some (info, received + UInt64.ofNat b.length), false,
          some (info, written ++ b), completed⟩ []) := by
  generalize hwire : Event.data b :: wire = whole at h
  cases h with
  | idle | announced hfiles hblocks hcontent | acked hfiles => cases hwire
  | ended arrived =>
      cases arrived with
      | true | false => cases hwire
  | arriving hfiles hblocks hcontent hreceived hmore =>
      rename_i past rest info content pending blocks received written
      cases blocks with
      | nil => cases hwire
      | cons first blocks =>
          cases hwire
          have hsize := hsized (info, content) (by rw [hfiles]; simp)
          have hparts : (written ++ b) ++ (blocks.flatten ++ pending) = content := by
            rw [← hcontent, flatten_cons]
            simp
          have htotal := congrArg List.length hparts
          rw [length_append, length_append] at htotal
          have hcount : (received + UInt64.ofNat b.length).toNat = written.length + b.length := by
            have hbound := info.size.toNat_lt
            rw [UInt64.toNat_add, UInt64.toNat_ofNat', hreceived]
            simp only [] at hsize
            omega
          have hrest : forall b', b' ∈ blocks -> b' ≠ [] :=
            fun b' hb' => hblocks b' (mem_cons_of_mem _ hb')
          refine ⟨rfl, _, _, _, _, rfl, ?_, ?_⟩
          · intro hlast
            rw [UInt64.le_iff_toNat_le, hcount] at hlast
            have hnil : blocks.flatten ++ pending = [] := by
              apply eq_nil_of_length_eq_zero
              simp only [] at hsize
              omega
            rcases append_eq_nil_iff.mp hnil with ⟨hflat, hpending⟩
            rw [hnil, append_nil] at hparts
            rw [blocks_nil hrest hflat, hpending, hparts, ← handed_append]
            exact Direction.acked hfiles
          · intro hmore
            rw [UInt64.le_iff_toNat_le, hcount] at hmore
            refine Direction.arriving hfiles hrest hparts ?_ ?_
            · rw [hcount, length_append]
            · rw [length_append]
              simp only [] at hsize
              omega

end

/-!
## The end of a direction
-/

theorem over_of_localEob (h : Direction files out wire into acked) (heob : out.localEob = true) :
    acked = [] ∧ out.sending = none ∧ into.receiving = none ∧ into.completed = handed files ∧
      (into.peerEob = true -> wire = []) := by
  cases h with
  | idle | announced hfiles hblocks hcontent | arriving hfiles hblocks hcontent hreceived hmore
  | acked hfiles => cases heob
  | ended arrived =>
      refine ⟨rfl, rfl, rfl, rfl, ?_⟩
      intro harrived
      have htrue : arrived = true := harrived
      rw [htrue]
      rfl

theorem localEob_of_peerEob (h : Direction files out wire into acked)
    (heob : into.peerEob = true) : out.localEob = true := by
  cases h with
  | idle | announced hfiles hblocks hcontent | arriving hfiles hblocks hcontent hreceived hmore
  | acked hfiles => cases heob
  | ended arrived => rfl

theorem quiet (h : Direction files out [] into []) (hpending : out.pending = []) :
    out = Outbound.ofFiles files none [] ∨ (out.localEob = true ∧ into.peerEob = true) := by
  generalize hwire : ([] : List Event) = wire at h
  generalize hacked : ([] : List FileId) = acked at h
  cases h with
  | idle => exact Or.inl rfl
  | announced hfiles hblocks hcontent => cases hwire
  | arriving hfiles hblocks hcontent hreceived hmore =>
      rename_i past rest info content pending blocks received written
      have hnone : pending = [] := hpending
      have hblocksNil : blocks = [] := map_eq_nil_iff.mp hwire.symm
      rw [hnone, hblocksNil, flatten_nil, append_nil, append_nil] at hcontent
      rw [hcontent] at hmore
      exact absurd hmore (Nat.lt_irrefl _)
  | acked hfiles => cases hacked
  | ended arrived =>
      cases arrived with
      | true => exact Or.inr ⟨rfl, rfl⟩
      | false => cases hwire

end Direction

end Rabbithole.Binkp
