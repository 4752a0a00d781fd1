import Rabbithole.Binkp.Moves

/-!
# A session against any peer

What a session may emit, whatever the peer sends.  The log of what was emitted says which
file is open for writing, and how much was written to it.
-/

namespace Rabbithole.Binkp

open Foundation List

/-!
## The log
-/

/-- The open file and how much was written to it, after one more action. -/
def inbound : Option (FileInfo × Nat) -> Action -> Option (FileInfo × Nat)
  | _, .expectFile info => some (info, 0)
  | some (info, written), .writeData bytes => some (info, written + bytes.length)
  | _, .fileComplete _ => none
  | opened, _ => opened

/-- The file that a log leaves open, with what was written since it was expected. -/
def openFile (log : List Action) : Option (FileInfo × Nat) :=
  log.foldl inbound none

def Whole (id : FileId) : Option (FileInfo × Nat) -> Prop
  | some (info, written) => info.id = id ∧ written = info.size.toNat
  | none => False

instance (id : FileId) (opened : Option (FileInfo × Nat)) : Decidable (Whole id opened) :=
  match opened with
  | some (info, written) => inferInstanceAs (Decidable (info.id = id ∧ written = info.size.toNat))
  | none => isFalse (fun h => h)

/-- A file is complete, and acknowledged, when its whole size has been written. -/
def CompleteWhenWritten (log : List Action) : Action -> Prop
  | .fileComplete id => Whole id (openFile log)
  | .sendCommand (.got id) => Whole id (openFile log)
  | _ => True

instance (log : List Action) (a : Action) : Decidable (CompleteWhenWritten log a) := by
  unfold CompleteWhenWritten
  split
  all_goals exact inferInstance

def WrittenWhileOpen (log : List Action) : Action -> Prop
  | .writeData _ => (openFile log).isSome = true
  | _ => True

/-- Nothing is written or streamed before authentication. -/
def AfterAuthentication (log : List Action) : Action -> Prop
  | .writeData _ => Action.authenticated ∈ log
  | .streamFile _ => Action.authenticated ∈ log
  | _ => True

/-- An action that has nothing to do with the file that comes in. -/
def Action.outward : Action -> Bool
  | .expectFile _ => false
  | .writeData _ => false
  | .fileComplete _ => false
  | .sendCommand (.got _) => false
  | _ => true

theorem inbound_outward {a : Action} (h : a.outward = true) (opened : Option (FileInfo × Nat)) :
    inbound opened a = opened := by
  cases a with
  | expectFile info | writeData bytes | fileComplete id => cases h
  | sendCommand cmd | streamFile info | authenticated | finished | aborted reason =>
      cases opened <;> rfl

theorem inbound_expect (opened : Option (FileInfo × Nat)) (info : FileInfo) :
    inbound opened (.expectFile info) = some (info, 0) := by
  cases opened with
  | none => rfl
  | some found => rfl

theorem inbound_write (opened : FileInfo × Nat) (bytes : Bytes) :
    inbound (some opened) (.writeData bytes) = some (opened.fst, opened.snd + bytes.length) := rfl

theorem inbound_complete (opened : Option (FileInfo × Nat)) (id : FileId) :
    inbound opened (.fileComplete id) = none := by
  cases opened with
  | none => rfl
  | some found => rfl

theorem openFile_append (front back : List Action) :
    openFile (front ++ back) = back.foldl inbound (openFile front) :=
  foldl_append

theorem openFile_snoc (log : List Action) (a : Action) :
    openFile (log ++ [a]) = inbound (openFile log) a :=
  openFile_append log [a]

theorem openFile_cons (log rest : List Action) (a : Action) :
    openFile (log ++ a :: rest) = openFile ((log ++ [a]) ++ rest) := by
  rw [append_assoc]
  rfl

theorem openFile_outward {log actions : List Action}
    (h : forall a, a ∈ actions -> a.outward = true) : openFile (log ++ actions) = openFile log := by
  rw [openFile_append]
  generalize openFile log = opened
  induction actions with
  | nil => rfl
  | cons a rest ih =>
      rw [foldl_cons, inbound_outward (h a mem_cons_self)]
      exact ih (fun b hb => h b (mem_cons_of_mem _ hb))

theorem complete_outward {a : Action} (h : a.outward = true) (log : List Action) :
    CompleteWhenWritten log a := by
  cases a with
  | fileComplete id => cases h
  | sendCommand cmd =>
      cases cmd with
      | got id => cases h
      | _ => trivial
  | _ => trivial

theorem written_outward {a : Action} (h : a.outward = true) (log : List Action) :
    WrittenWhileOpen log a := by
  cases a with
  | writeData bytes => cases h
  | _ => trivial

theorem afterAuthentication_of_mem {log : List Action} (h : Action.authenticated ∈ log)
    (a : Action) : AfterAuthentication log a := by
  cases a with
  | writeData bytes => exact h
  | streamFile info => exact h
  | _ => trivial

theorem eachFrom_afterAuthentication {log : List Action} (h : Action.authenticated ∈ log)
    (actions : List Action) : EachFrom AfterAuthentication log actions :=
  eachFrom_of_forall (fun front a _ =>
    afterAuthentication_of_mem (mem_append_left front h) a)

namespace Session

theorem outward_maybeFinish (s : Session) :
    forall a, a ∈ s.maybeFinish.fst -> a.outward = true := by
  intro a ha
  rcases s.maybeFinish_cases with h | ⟨h, -⟩
  · rw [h] at ha
    cases ha
  · rw [h, mem_singleton] at ha
    rw [ha]
    rfl

theorem outward_startNextSend (s : Session) :
    forall a, a ∈ s.startNextSend.fst -> a.outward = true := by
  intro a ha
  rcases s.startNextSend_cases with ⟨info, rest, -, h⟩ | ⟨-, front, hfront, h⟩
  · rw [h] at ha
    rcases mem_cons.mp ha with rfl | ha
    · rfl
    · rw [mem_singleton.mp ha]
      rfl
  · rw [h] at ha
    rcases mem_append.mp ha with ha | ha
    · rcases hfront with rfl | rfl
      · cases ha
      · rw [mem_singleton.mp ha]
        rfl
    · exact outward_maybeFinish _ a ha

def incoming (s : Session) : Option (FileInfo × Nat) :=
  s.receiving.map (fun opened => (opened.fst, opened.snd.toNat))

end Session

/-!
## Any sequence of calls
-/

inductive Call where
  | start
  | event (e : Event)

namespace Session

def call (hashes : Hashes) (s : Session) : Call -> List Action × Session
  | .start => s.start
  | .event e => (emitted (s.advance hashes e).fst, (s.advance hashes e).snd)

/--
The events that keep to what was announced: data that fits the rest of the open file, and
acknowledgements that name the file that is out.
-/
def Fits (s : Session) : Call -> Prop
  | .event (.data bytes) =>
      match s.phase, s.receiving with
      | .transfer, some (info, received) => received.toNat + bytes.length <= info.size.toNat
      | _, _ => True
  | .event (.command (.got id)) => s.phase = .transfer -> s.sending = none ∨ s.sending = some id
  | .event (.command (.skip id)) => s.phase = .transfer -> s.sending = none ∨ s.sending = some id
  | _ => True

instance (s : Session) (c : Call) : Decidable (s.Fits c) := by
  unfold Fits
  split
  · split
    all_goals exact inferInstance
  all_goals exact inferInstance

end Session

/-- A session with all that it emitted, and which calls took which files off the batch. -/
structure Watch where
  session : Session
  log : List Action
  removals : List (FileId × Call)

namespace Watch

def new (hashes : Hashes) (role : Role) (config : SessionConfig) : Watch where
  session := Session.new hashes role config
  log := []
  removals := []

/-- The files that are on the batch before and not after. -/
def taken (before after : Session) : List FileId :=
  before.batch.take (before.batch.length - after.batch.length)

def after (hashes : Hashes) (w : Watch) (c : Call) : Watch :=
  let (actions, session) := w.session.call hashes c
  { session := session
    log := w.log ++ actions
    removals := w.removals ++ (taken w.session session).map (fun id => (id, c)) }

def step (hashes : Hashes) (w : Watch) (c : Call) : Option Watch :=
  some (w.after hashes c)

end Watch

/-- The call is an acknowledgement or a refusal that names the file. -/
def Names (removal : FileId × Call) : Prop :=
  match removal.snd with
  | .event (.command (.got id)) => id = removal.fst
  | .event (.command (.skip id)) => id = removal.fst
  | _ => False

instance (removal : FileId × Call) : Decidable (Names removal) := by
  unfold Names
  split
  all_goals exact inferInstance

/-!
## What one event does to the log
-/

namespace Session

theorem outward_entered {s : Session} {front : List Action}
    (hfront : front = [.sendCommand (.ok "secure"), .authenticated] ∨ front = [.authenticated]) :
    forall a, a ∈ front ++ s.enterTransfer.fst -> a.outward = true := by
  intro a ha
  rcases mem_append.mp ha with ha | ha
  · rcases hfront with rfl | rfl
    · rcases mem_cons.mp ha with rfl | ha
      · rfl
      · rw [mem_singleton.mp ha]
        rfl
    · rw [mem_singleton.mp ha]
      rfl
  · exact outward_startNextSend _ a ha

theorem outward_failed {actions : List Action} {text : String}
    (hactions : actions = [.aborted text] ∨
      actions = [.sendCommand (.err text), .aborted text]) :
    forall a, a ∈ actions -> a.outward = true := by
  intro a ha
  rcases hactions with rfl | rfl
  · rw [mem_singleton.mp ha]
    rfl
  · rcases mem_cons.mp ha with rfl | ha
    · rfl
    · rw [mem_singleton.mp ha]
      rfl

/-- An event leaves the open file alone, or it is one of four that are about it. -/
inductive Inbound (s s' : Session) : Event -> List Action -> Prop where
  | aside {e : Event} {actions : List Action}
      (hout : forall a, a ∈ actions -> a.outward = true) (hsame : s'.receiving = s.receiving) :
      Inbound s s' e actions
  | opened {info : FileInfo} (hsize : info.size ≠ 0) (hafter : s'.receiving = some (info, 0)) :
      Inbound s s' (.command (.file info)) [.expectFile info]
  | empty {info : FileInfo} {after : List Action} (hsize : info.size = 0)
      (hout : forall a, a ∈ after -> a.outward = true) (hafter : s'.receiving = none) :
      Inbound s s' (.command (.file info))
        (.expectFile info :: .sendCommand (.got info.id) :: .fileComplete info.id :: after)
  | wrote {bytes : Bytes} {info : FileInfo} {received : UInt64} (hphase : s.phase = .transfer)
      (hopen : s.receiving = some (info, received))
      (hmore : ¬ info.size <= received + UInt64.ofNat bytes.length)
      (hafter : s'.receiving = some (info, received + UInt64.ofNat bytes.length)) :
      Inbound s s' (.data bytes) [.writeData bytes]
  | closed {bytes : Bytes} {info : FileInfo} {received : UInt64} {after : List Action}
      (hphase : s.phase = .transfer) (hopen : s.receiving = some (info, received))
      (hlast : info.size <= received + UInt64.ofNat bytes.length)
      (hout : forall a, a ∈ after -> a.outward = true) (hafter : s'.receiving = none) :
      Inbound s s' (.data bytes)
        (.writeData bytes :: .sendCommand (.got info.id) :: .fileComplete info.id :: after)

theorem Move.inbound {s s' : Session} {e : Event} {actions : List Action}
    (h : Move s e actions s') : Inbound s s' e actions := by
  cases h with
  | quiet challenge addresses =>
      refine Inbound.aside ?_ rfl
      intro a ha
      cases ha
  | password value addresses hphase =>
      refine Inbound.aside ?_ rfl
      intro a ha
      rw [mem_singleton.mp ha]
      rfl
  | entered hphase hfront =>
      exact Inbound.aside (outward_entered hfront) (receiving_startNextSend _)
  | failed hactions => exact Inbound.aside (outward_failed hactions) rfl
  | file hphase hnone hsize => exact Inbound.opened hsize rfl
  | emptyFile hphase hnone hsize =>
      exact Inbound.empty hsize (outward_maybeFinish s) ((receiving_maybeFinish s).trans hnone)
  | data hphase hopen hmore => exact Inbound.wrote hphase hopen hmore rfl
  | lastData hphase hopen hlast =>
      exact Inbound.closed hphase hopen hlast (outward_maybeFinish _) (receiving_maybeFinish _)
  | acked hphase hsending hevent =>
      exact Inbound.aside (outward_startNextSend _) (receiving_startNextSend _)
  | eob hphase => exact Inbound.aside (outward_maybeFinish _) (receiving_maybeFinish _)

section Inbound

variable {s s' : Session} {e : Event} {actions log : List Action}

section

variable (h : Inbound s s' e actions)
  (hopen : (openFile log).map Prod.fst = s.receiving.map Prod.fst)
include h hopen

theorem Inbound.keepsOpen :
    (openFile (log ++ actions)).map Prod.fst = s'.receiving.map Prod.fst := by
  cases h with
  | aside hout hsame =>
      rw [openFile_outward hout, hsame]
      exact hopen
  | opened hsize hafter =>
      rw [openFile_snoc, inbound_expect, hafter]
      rfl
  | empty hsize hout hafter | closed hphase hbefore hlast hout hafter =>
      rw [openFile_cons, openFile_cons, openFile_cons, openFile_outward hout, openFile_snoc,
        inbound_complete, hafter]
      rfl
  | wrote hphase hbefore hmore hafter =>
      rw [hbefore] at hopen
      rcases Option.map_eq_some_iff.mp hopen with ⟨found, hfound, hinfo⟩
      rw [openFile_snoc, hfound, inbound_write, hafter]
      exact congrArg some hinfo

theorem Inbound.writtenWhileOpen : EachFrom WrittenWhileOpen log actions := by
  have hread : forall info received, s.receiving = some (info, received) ->
      (openFile log).isSome = true := by
    intro info received hbefore
    rw [hbefore] at hopen
    rcases Option.map_eq_some_iff.mp hopen with ⟨found, hfound, -⟩
    rw [hfound]
    rfl
  cases h with
  | aside hout hsame => exact eachFrom_of_forall (fun _ a ha => written_outward (hout a ha) _)
  | opened hsize hafter => exact ⟨trivial, trivial⟩
  | empty hsize hout hafter =>
      exact ⟨trivial, trivial, trivial,
        eachFrom_of_forall (fun _ a ha => written_outward (hout a ha) _)⟩
  | wrote hphase hbefore hmore hafter => exact ⟨hread _ _ hbefore, trivial⟩
  | closed hphase hbefore hlast hout hafter =>
      exact ⟨hread _ _ hbefore, trivial, trivial,
        eachFrom_of_forall (fun _ a ha => written_outward (hout a ha) _)⟩

end

/-- The bytes that the session counts, while the data fits, are those written. -/
def Counted (s : Session) (log : List Action) : Prop :=
  openFile log = s.incoming ∧
    forall info received, s.receiving = some (info, received) ->
      received.toNat < info.size.toNat

/-- Data is no longer than the rest of the file that comes in. -/
def DataFits (s : Session) (e : Event) : Prop :=
  forall bytes info received, e = .data bytes -> s.phase = .transfer ->
    s.receiving = some (info, received) -> received.toNat + bytes.length <= info.size.toNat

theorem toNat_received {info : FileInfo} {received : UInt64} {bytes : Bytes}
    (h : received.toNat + bytes.length <= info.size.toNat) :
    (received + UInt64.ofNat bytes.length).toNat = received.toNat + bytes.length := by
  have hbound := info.size.toNat_lt
  rw [UInt64.toNat_add, UInt64.toNat_ofNat']
  omega

section

variable (h : Inbound s s' e actions) (hcounted : Counted s log) (hfits : DataFits s e)
include h hcounted hfits

theorem Inbound.counted : Counted s' (log ++ actions) := by
  rcases hcounted with ⟨hopen, hbelow⟩
  unfold Counted incoming
  cases h with
  | aside hout hsame =>
      rw [openFile_outward hout, hsame]
      exact ⟨hopen, hbelow⟩
  | opened hsize hafter =>
      rw [openFile_snoc, inbound_expect, hafter]
      refine ⟨rfl, ?_⟩
      intro info received heq
      cases heq
      rw [← UInt64.lt_iff_toNat_lt]
      exact UInt64.pos_iff_ne_zero.mpr hsize
  | empty hsize hout hafter | closed hphase hbefore hlast hout hafter =>
      rw [openFile_cons, openFile_cons, openFile_cons, openFile_outward hout, openFile_snoc,
        inbound_complete, hafter]
      exact ⟨rfl, fun info received heq => by cases heq⟩
  | wrote hphase hbefore hmore hafter =>
      have hcount := toNat_received (hfits _ _ _ rfl hphase hbefore)
      unfold incoming at hopen
      rw [openFile_snoc, hopen, hbefore, hafter]
      constructor
      · rw [Option.map_some, inbound_write, Option.map_some, hcount]
      · intro info received heq
        cases heq
        rw [UInt64.le_iff_toNat_le] at hmore
        exact Nat.lt_of_not_le hmore

theorem Inbound.completeWhenWritten : EachFrom CompleteWhenWritten log actions := by
  cases h with
  | aside hout hsame => exact eachFrom_of_forall (fun _ a ha => complete_outward (hout a ha) _)
  | opened hsize hafter | wrote hphase hbefore hmore hafter => exact ⟨trivial, trivial⟩
  | empty hsize hout hafter =>
      rename_i info after
      have hopen : openFile (log ++ [.expectFile info]) = some (info, 0) := by
        rw [openFile_snoc, inbound_expect]
      have hzero : (0 : Nat) = info.size.toNat := by
        rw [hsize]
        rfl
      have hwhole : Whole info.id (openFile (log ++ [.expectFile info])) := by
        rw [hopen]
        exact ⟨rfl, hzero⟩
      refine ⟨trivial, hwhole, ?_,
        eachFrom_of_forall (fun _ a ha => complete_outward (hout a ha) _)⟩
      show Whole info.id (openFile (log ++ [.expectFile info] ++ [.sendCommand (.got info.id)]))
      rw [openFile_snoc, hopen]
      exact ⟨rfl, hzero⟩
  | closed hphase hbefore hlast hout hafter =>
      rename_i bytes info received after
      have hfit := hfits _ _ _ rfl hphase hbefore
      have hopen : openFile (log ++ [.writeData bytes]) =
          some (info, received.toNat + bytes.length) := by
        have hincoming := hcounted.left
        unfold incoming at hincoming
        rw [openFile_snoc, hincoming, hbefore]
        rfl
      have hall : received.toNat + bytes.length = info.size.toNat := by
        rw [UInt64.le_iff_toNat_le, toNat_received hfit] at hlast
        exact Nat.le_antisymm hfit hlast
      have hwhole : Whole info.id (openFile (log ++ [.writeData bytes])) := by
        rw [hopen]
        exact ⟨rfl, hall⟩
      refine ⟨trivial, hwhole, ?_,
        eachFrom_of_forall (fun _ a ha => complete_outward (hout a ha) _)⟩
      show Whole info.id (openFile (log ++ [.writeData bytes] ++ [.sendCommand (.got info.id)]))
      rw [openFile_snoc, hopen]
      exact ⟨rfl, hall⟩

end

end Inbound

/-!
## Authentication, and the batch
-/

/-- No file is out before authentication. -/
def NothingOut (s : Session) : Prop :=
  s.phase = .greeting ∨ s.phase = .awaitOk -> s.sending = none

theorem nothingOut_of_authed {s : Session} (h : s.authed) : s.NothingOut := by
  intro hearly
  unfold authed at h
  rcases hearly with hphase | hphase
  all_goals
    rw [hphase] at h
    rcases h with h | h
    · cases h
    · cases h

section Authed

variable {s s' : Session} {e : Event} {actions log : List Action}

theorem mem_entered {front after : List Action}
    (hfront : front = [.sendCommand (.ok "secure"), .authenticated] ∨
      front = [.authenticated]) : Action.authenticated ∈ log ++ (front ++ after) := by
  apply mem_append_right
  apply mem_append_left
  rcases hfront with rfl | rfl
  · exact mem_cons_of_mem _ mem_cons_self
  · exact mem_cons_self

section

variable (h : Move s e actions s') (hlog : s.authed -> Action.authenticated ∈ log)
include h hlog

theorem Move.authed (hauthed : s'.authed) : Action.authenticated ∈ log ++ actions := by
  cases h with
  | quiet challenge addresses => exact mem_append_left _ (hlog hauthed)
  | password value addresses hphase | failed hactions =>
      rcases hauthed with h | h
      · cases h
      · cases h
  | entered hphase hfront => exact mem_entered hfront
  | file hphase hnone hsize | emptyFile hphase hnone hsize | data hphase hopen hmore
  | lastData hphase hopen hlast | acked hphase hsending hevent | eob hphase =>
      exact mem_append_left _ (hlog (Or.inl hphase))

theorem Move.afterAuthentication : EachFrom AfterAuthentication log actions := by
  cases h with
  | quiet challenge addresses => trivial
  | password value addresses hphase | file hphase hnone hsize => exact ⟨trivial, trivial⟩
  | entered hphase hfront =>
      refine eachFrom_append.mpr ⟨?_, eachFrom_afterAuthentication ?_ _⟩
      · rcases hfront with rfl | rfl
        · exact ⟨trivial, trivial, trivial⟩
        · exact ⟨trivial, trivial⟩
      · have hmem := @mem_entered log _ [] hfront
        rw [append_nil] at hmem
        exact hmem
  | failed hactions =>
      rcases hactions with rfl | rfl
      · exact ⟨trivial, trivial⟩
      · exact ⟨trivial, trivial, trivial⟩
  | emptyFile hphase hnone hsize | data hphase hopen hmore | lastData hphase hopen hlast
  | acked hphase hsending hevent | eob hphase =>
      exact eachFrom_afterAuthentication (hlog (Or.inl hphase)) _

end

theorem Move.batch (h : Move s e actions s') (hout : s.NothingOut) :
    s'.batch = s.batch ∨
      exists id id', s.phase = .transfer ∧ s.sending = some id ∧ s.batch = id :: s'.batch ∧
        (e = .command (.got id') ∨ e = .command (.skip id')) := by
  cases h with
  | quiet challenge addresses | password value addresses hphase | failed hactions
  | file hphase hnone hsize | data hphase hopen hmore => exact Or.inl rfl
  | entered hphase hfront =>
      have hrest : { s with phase := .transfer }.startNextSend.snd.batch =
          { s with phase := .transfer }.batch := batch_startNextSend (hout hphase)
      exact Or.inl hrest
  | emptyFile hphase hnone hsize => exact Or.inl (batch_maybeFinish s)
  | lastData hphase hopen hlast | eob hphase => exact Or.inl (batch_maybeFinish _)
  | acked hphase hsending hevent =>
      rename_i id id'
      refine Or.inr ⟨id, id', hphase, hsending, ?_, hevent⟩
      have hrest : { s with sending := none }.startNextSend.snd.batch =
          { s with sending := none }.batch := batch_startNextSend rfl
      rw [hrest]
      unfold Session.batch
      rw [hsending]
      rfl

theorem Move.nothingOut (h : Move s e actions s') (hout : s.NothingOut) : s'.NothingOut := by
  cases h with
  | quiet challenge addresses => exact hout
  | password value addresses hphase => exact fun _ => hout (Or.inl hphase)
  | entered hphase hfront => exact nothingOut_of_authed (authed_startNextSend (Or.inl rfl))
  | failed hactions =>
      intro hearly
      rcases hearly with h | h
      · cases h
      · cases h
  | file hphase hnone hsize | data hphase hopen hmore => exact nothingOut_of_authed (Or.inl hphase)
  | emptyFile hphase hnone hsize | lastData hphase hopen hlast | eob hphase =>
      exact nothingOut_of_authed (authed_maybeFinish (Or.inl hphase))
  | acked hphase hsending hevent =>
      exact nothingOut_of_authed (authed_startNextSend (Or.inl hphase))

end Authed
end Session

/-!
## Every run
-/

/-- What holds of a session, whatever it is fed. -/
structure Watch.Sound (config : SessionConfig) (w : Watch) : Prop where
  opened : (openFile w.log).map Prod.fst = w.session.receiving.map Prod.fst
  inside : Each WrittenWhileOpen w.log
  authed : w.session.authed -> Action.authenticated ∈ w.log
  late : Each AfterAuthentication w.log
  nothingOut : w.session.NothingOut
  account : w.removals.map Prod.fst ++ w.session.batch = config.outgoing.map FileInfo.id

/-- What holds beside it while the peer keeps to what it announced. -/
structure Watch.Exact (w : Watch) : Prop where
  counted : Session.Counted w.session w.log
  complete : Each CompleteWhenWritten w.log
  named : forall removal, removal ∈ w.removals -> Names removal

namespace Watch

variable {hashes : Hashes} {config : SessionConfig} {w : Watch}

theorem taken_of_eq {before after : Session} (h : after.batch = before.batch) :
    taken before after = [] := by
  unfold taken
  rw [h, Nat.sub_self, take_zero]

theorem taken_of_cons {before after : Session} {id : FileId}
    (h : before.batch = id :: after.batch) : taken before after = [id] := by
  unfold taken
  rw [h, length_cons, Nat.add_sub_cancel_left]
  rfl

theorem outward_start (s : Session) : forall a, a ∈ s.start.fst -> a.outward = true := by
  intro a ha
  unfold Session.start at ha
  split at ha
  · cases ha
  · rcases mem_append.mp ha with hline | hadr
    · rcases mem_map.mp hline with ⟨line, -, rfl⟩
      rfl
    · rw [mem_singleton.mp hadr]
      rfl

theorem afterAuthentication_start (s : Session) (log : List Action) :
    EachFrom AfterAuthentication log s.start.fst := by
  apply eachFrom_of_forall
  intro front a ha
  unfold Session.start at ha
  split at ha
  · cases ha
  · rcases mem_append.mp ha with hline | hadr
    · rcases mem_map.mp hline with ⟨line, -, rfl⟩
      trivial
    · rw [mem_singleton.mp hadr]
      trivial

theorem start_eq (s : Session) : s.start.snd = { s with started := true } := by
  unfold Session.start
  split
  · rename_i hstarted
    cases s
    cases hstarted
    rfl
  · rfl

theorem Sound.start (h : w.Sound config) : (w.after hashes .start).Sound config := by
  have hbatch : (w.session.start.snd).batch = w.session.batch := by
    rw [start_eq]
    rfl
  unfold after Session.call
  simp only []
  rw [taken_of_eq hbatch, map_nil, append_nil]
  constructor
  · simp only [openFile_outward (outward_start w.session), start_eq]
    exact h.opened
  · exact each_append.mpr ⟨h.inside,
      eachFrom_of_forall (fun _ a ha => written_outward (outward_start _ a ha) _)⟩
  · intro hauthed
    rw [start_eq] at hauthed
    exact mem_append_left _ (h.authed hauthed)
  · exact each_append.mpr ⟨h.late, afterAuthentication_start _ _⟩
  · rw [start_eq]
    exact h.nothingOut
  · simp only [hbatch]
    exact h.account

theorem Sound.event (h : w.Sound config) (e : Event) : (w.after hashes (.event e)).Sound config := by
  have hmove := w.session.move_of_advance hashes e
  unfold after Session.call
  simp only []
  constructor
  · exact hmove.inbound.keepsOpen h.opened
  · exact each_append.mpr ⟨h.inside, hmove.inbound.writtenWhileOpen h.opened⟩
  · exact hmove.authed h.authed
  · exact each_append.mpr ⟨h.late, hmove.afterAuthentication h.authed⟩
  · exact hmove.nothingOut h.nothingOut
  · simp only [map_append, map_map]
    rcases hmove.batch h.nothingOut with hsame | ⟨id, id', -, -, hcons, -⟩
    · rw [taken_of_eq hsame, hsame, map_nil, append_nil]
      exact h.account
    · rw [taken_of_cons hcons, append_assoc]
      rw [← h.account, hcons]
      rfl

theorem Exact.start (h : w.Exact) : (w.after hashes .start).Exact := by
  have hbatch : (w.session.start.snd).batch = w.session.batch := by
    rw [start_eq]
    rfl
  unfold after Session.call
  simp only []
  rw [taken_of_eq hbatch, map_nil, append_nil]
  constructor
  · unfold Session.Counted
    simp only [openFile_outward (outward_start w.session), start_eq]
    exact h.counted
  · exact each_append.mpr ⟨h.complete,
      eachFrom_of_forall (fun _ a ha => complete_outward (outward_start _ a ha) _)⟩
  · exact h.named

theorem Exact.event (hsound : w.Sound config) (h : w.Exact) {e : Event}
    (hfits : w.session.Fits (.event e)) : (w.after hashes (.event e)).Exact := by
  have hmove := w.session.move_of_advance hashes e
  have hdata : Session.DataFits w.session e := by
    intro bytes info received he hphase hopen
    rw [he] at hfits
    unfold Session.Fits at hfits
    simp only [hphase, hopen] at hfits
    exact hfits
  unfold after Session.call
  simp only []
  constructor
  · exact hmove.inbound.counted h.counted hdata
  · exact each_append.mpr ⟨h.complete, hmove.inbound.completeWhenWritten h.counted hdata⟩
  · intro removal hmem
    rcases mem_append.mp hmem with hold | hnew
    · exact h.named removal hold
    · rcases hmove.batch hsound.nothingOut with hsame | ⟨id, id', hphase, hsending, hcons, hevent⟩
      · rw [taken_of_eq hsame] at hnew
        cases hnew
      · rw [taken_of_cons hcons, map_singleton, mem_singleton] at hnew
        rw [hnew]
        rcases hevent with rfl | rfl
        all_goals
          rcases hfits hphase with hnone | hnamed
          · rw [hsending] at hnone
            cases hnone
          · rw [hsending] at hnamed
            exact (Option.some.inj hnamed).symm

theorem Sound.step (h : w.Sound config) {c : Call} {w' : Watch}
    (hstep : w.step hashes c = some w') : w'.Sound config := by
  cases hstep
  cases c with
  | start => exact h.start
  | event e => exact h.event e

theorem Exact.step (hsound : w.Sound config) (h : w.Exact) {c : Call} {w' : Watch}
    (hfits : w.session.Fits c) (hstep : w.step hashes c = some w') : w'.Exact := by
  cases hstep
  cases c with
  | start => exact h.start
  | event e => exact h.event hsound hfits

theorem new_sound (hashes : Hashes) (role : Role) (config : SessionConfig) :
    (new hashes role config).Sound config := by
  constructor
  · rfl
  · trivial
  · intro h
    rcases h with h | h
    · cases h
    · cases h
  · trivial
  · exact fun _ => rfl
  · rfl

theorem new_exact (hashes : Hashes) (role : Role) (config : SessionConfig) :
    (new hashes role config).Exact := by
  constructor
  · exact ⟨rfl, fun info received h => by cases h⟩
  · trivial
  · intro removal hmem
    cases hmem

end Watch

/--
Whatever a session is fed, it writes only into an open file, and nothing before
authentication.  While data fits what was announced and acknowledgements name the file that
is out, a file is complete exactly when it was written, and leaves the batch by its name.
-/
theorem session_safe (hashes : Hashes) (role : Role) (config : SessionConfig)
    (calls : List Call) (w : Watch)
    (hrun : run? (Watch.step hashes) (Watch.new hashes role config) calls = some w) :
    Each WrittenWhileOpen w.log ∧ Each AfterAuthentication w.log ∧
    w.removals.map Prod.fst ++ w.session.batch = config.outgoing.map FileInfo.id ∧
    (Along (Watch.step hashes) (fun w c => w.session.Fits c) (Watch.new hashes role config) calls ->
      Each CompleteWhenWritten w.log ∧ forall removal, removal ∈ w.removals -> Names removal) := by
  have hsound : w.Sound config :=
    run?_invariant (fun _ _ _ h hstep => h.step hstep) (Watch.new_sound hashes role config) hrun
  refine ⟨hsound.inside, hsound.late, hsound.account, ?_⟩
  intro hfits
  have hboth := @run?_invariant_along _ _ _ _ (fun w => w.Sound config ∧ w.Exact)
    (fun _ _ _ h hfit hstep => ⟨h.left.step hstep, h.right.step h.left hfit hstep⟩) _ _ _
    ⟨Watch.new_sound hashes role config, Watch.new_exact hashes role config⟩ hfits hrun
  exact ⟨hboth.right.complete, hboth.right.named⟩

/-!
A peer that sends more than it announced, and acknowledges a file that was never offered.
-/

/-- SHA-256 of the two passwords of an unsecured session. -/
def sampleHashes : Hashes where
  cramMd5Digest := fun _ _ => Vector.replicate 16 0
  sha256 := fun bytes =>
    if bytes = [] then
      #v[227, 176, 196, 66, 152, 252, 28, 20, 154, 251, 244, 200, 153, 111, 185, 36, 39, 174, 65,
        228, 100, 155, 147, 76, 164, 149, 153, 27, 120, 82, 184, 85]
    else
      #v[57, 115, 224, 34, 233, 50, 32, 249, 33, 44, 24, 208, 208, 197, 67, 174, 124, 48, 158, 70,
        100, 13, 169, 58, 74, 3, 20, 222, 153, 159, 81, 18]

def sampleConfig : SessionConfig where
  addresses := []
  systemInfo := []
  password := ""
  challenge := none
  outgoing := [⟨"out.pkt", 2, 100, 0⟩]

def sampleOpening : List Call :=
  [.start, .event (.command (.adr [])), .event (.command (.pwd "-")),
    .event (.command (.file ⟨"in.pkt", 5, 200, 0⟩))]

theorem session_safe_sample :
    exists w, run? (Watch.step sampleHashes) (Watch.new sampleHashes .answering sampleConfig)
        (sampleOpening ++ [.event (.data [1, 2]), .event (.command (.got ⟨"out.pkt", 2, 100⟩)),
          .event (.data [3, 4, 5])]) = some w ∧
      Action.fileComplete ⟨"in.pkt", 5, 200⟩ ∈ w.log ∧ w.session.batch = [] ∧
      Each CompleteWhenWritten w.log ∧ forall removal, removal ∈ w.removals -> Names removal := by
  have hrun : exists w, run? (Watch.step sampleHashes)
      (Watch.new sampleHashes .answering sampleConfig)
        (sampleOpening ++ [.event (.data [1, 2]), .event (.command (.got ⟨"out.pkt", 2, 100⟩)),
          .event (.data [3, 4, 5])]) = some w ∧
      Action.fileComplete ⟨"in.pkt", 5, 200⟩ ∈ w.log ∧ w.session.batch = [] :=
    ⟨_, rfl, by decide, by decide⟩
  rcases hrun with ⟨w, hrun, hcomplete, hbatch⟩
  rcases session_safe sampleHashes .answering sampleConfig _ w hrun with ⟨-, -, -, hfits⟩
  exact ⟨w, hrun, hcomplete, hbatch, hfits (by decide)⟩

theorem session_trusts_peer :
    exists w, run? (Watch.step sampleHashes) (Watch.new sampleHashes .answering sampleConfig)
        (sampleOpening ++ [.event (.data [1, 2, 3, 4, 5, 6]),
          .event (.command (.got ⟨"other.pkt", 9, 9⟩))]) = some w ∧
      Action.fileComplete ⟨"in.pkt", 5, 200⟩ ∈ w.log ∧ ¬ Each CompleteWhenWritten w.log ∧
      w.session.batch = [] ∧ ¬ forall removal, removal ∈ w.removals -> Names removal :=
  ⟨_, rfl, by decide, by decide, by decide, by decide⟩

end Rabbithole.Binkp
