import Rabbithole.Foundation.Dict
import Rabbithole.Foundation.Run

/-!
# The peer registry

Which other servers this one knows, which of them an admin has approved and under which
origin, and which have a session up.
-/

namespace Rabbithole.Federation

open Foundation

abbrev ServerKey := BitVec 256

inductive PeerState where
  | pending
  | disconnected
  | connected
deriving DecidableEq

structure PeerRecord where
  serverKey : ServerKey
  name : String
  origin : Option String
  addr : Option String
  state : PeerState
  approved : Bool
deriving DecidableEq

namespace PeerRecord

/-- A name is taken over when it is not empty. -/
def named (record : PeerRecord) (name : String) : PeerRecord :=
  if name = "" then record else { record with name := name }

def seenAt (record : PeerRecord) (addr : Option String) : PeerRecord :=
  if addr.isSome then { record with addr := addr } else record

/-- An approved record is not pending any more. -/
def leavePending (record : PeerRecord) : PeerRecord :=
  if record.state = .pending then { record with state := .disconnected } else record

section

variable (record : PeerRecord)
include record

@[simp] theorem state_named (name : String) : (record.named name).state = record.state := by
  unfold named
  split
  · rfl
  · rfl

@[simp] theorem origin_named (name : String) : (record.named name).origin = record.origin := by
  unfold named
  split
  · rfl
  · rfl

@[simp] theorem approved_named (name : String) :
    (record.named name).approved = record.approved := by
  unfold named
  split
  · rfl
  · rfl

@[simp] theorem state_seenAt (addr : Option String) :
    (record.seenAt addr).state = record.state := by
  unfold seenAt
  split
  · rfl
  · rfl

@[simp] theorem origin_seenAt (addr : Option String) :
    (record.seenAt addr).origin = record.origin := by
  unfold seenAt
  split
  · rfl
  · rfl

@[simp] theorem approved_seenAt (addr : Option String) :
    (record.seenAt addr).approved = record.approved := by
  unfold seenAt
  split
  · rfl
  · rfl

@[simp] theorem state_leavePending :
    record.leavePending.state =
      if record.state = .pending then .disconnected else record.state := by
  unfold leavePending
  split
  · rfl
  · rfl

@[simp] theorem origin_leavePending : record.leavePending.origin = record.origin := by
  unfold leavePending
  split
  · rfl
  · rfl

@[simp] theorem approved_leavePending : record.leavePending.approved = record.approved := by
  unfold leavePending
  split
  · rfl
  · rfl

end

end PeerRecord

structure PeerRegistry where
  inner : Dict ServerKey PeerRecord

namespace PeerRegistry

def new : PeerRegistry where
  inner := Dict.empty

def seedApproved (s : PeerRegistry) (key : ServerKey) (name : String)
    (origin : Option String) : PeerRegistry :=
  let record := (s.inner.get? key).getD ⟨key, "", origin, none, .disconnected, true⟩
  let record := { record with
    approved := true
    origin := if record.origin.isNone then origin else record.origin }
  ⟨s.inner.insert key (record.named name).leavePending⟩

def notePending (s : PeerRegistry) (key : ServerKey) (name origin : String)
    (addr : Option String) : PeerRegistry :=
  let record := (s.inner.get? key).getD ⟨key, "", some origin, none, .pending, false⟩
  let record := if record.approved then record
    else { record with state := .pending, origin := some origin }
  ⟨s.inner.insert key ((record.named name).seenAt addr)⟩

def isApproved (s : PeerRegistry) (key : ServerKey) : Bool :=
  ((s.inner.get? key).map PeerRecord.approved).getD false

/-- Tells whether the key was known. -/
def approveWithOrigin (s : PeerRegistry) (key : ServerKey) (origin : Option String) :
    Bool × PeerRegistry :=
  match s.inner.get? key with
  | some record =>
      let record := { record with
        approved := true
        origin := if origin.isSome then origin else record.origin }
      (true, ⟨s.inner.insert key record.leavePending⟩)
  | none => (false, ⟨s.inner.insert key ⟨key, "", origin, none, .disconnected, true⟩⟩)

def approveOrigin (s : PeerRegistry) (key : ServerKey) (origin : String) : Bool × PeerRegistry :=
  s.approveWithOrigin key (some origin)

/-- Tells whether the key was known. -/
def revoke (s : PeerRegistry) (key : ServerKey) : Bool × PeerRegistry :=
  match s.inner.get? key with
  | some record =>
      (true, ⟨s.inner.insert key { record with approved := false, state := .pending }⟩)
  | none => (false, s)

/-- Tells whether the session is up now. -/
def setConnectedIfApprovedOrigin (s : PeerRegistry) (key : ServerKey) (origin name : String)
    (addr : Option String) : Bool × PeerRegistry :=
  match s.inner.get? key with
  | none => (false, s)
  | some record =>
      if record.approved = false ∨ record.origin ≠ some origin then (false, s)
      else
        let record := { record with state := .connected }
        (true, ⟨s.inner.insert key ((record.named name).seenAt addr)⟩)

def setDisconnected (s : PeerRegistry) (key : ServerKey) : PeerRegistry :=
  match s.inner.get? key with
  | none => s
  | some record =>
      if record.state = .connected then
        ⟨s.inner.insert key { record with state := .disconnected }⟩
      else s

end PeerRegistry

/-!
## Runs

Beside the registry a run keeps, for each key, the origin of the last session that was
marked up: what a session was connected under.
-/

inductive Op where
  | seedApproved (key : ServerKey) (name : String) (origin : Option String)
  | notePending (key : ServerKey) (name origin : String) (addr : Option String)
  | approveOrigin (key : ServerKey) (origin : String)
  | revoke (key : ServerKey)
  | setConnectedIfApprovedOrigin (key : ServerKey) (origin name : String)
      (addr : Option String)
  | setDisconnected (key : ServerKey)

namespace Op

def run (s : PeerRegistry) : Op -> PeerRegistry
  | .seedApproved key name origin => s.seedApproved key name origin
  | .notePending key name origin addr => s.notePending key name origin addr
  | .approveOrigin key origin => (s.approveOrigin key origin).snd
  | .revoke key => (s.revoke key).snd
  | .setConnectedIfApprovedOrigin key origin name addr =>
      (s.setConnectedIfApprovedOrigin key origin name addr).snd
  | .setDisconnected key => s.setDisconnected key

/-- The calls that what a remote peer does leads to. -/
def Remote : Op -> Prop
  | .notePending _ _ _ _ => True
  | .setConnectedIfApprovedOrigin _ _ _ _ => True
  | .setDisconnected _ => True
  | _ => False

/-- The session the call marks up, if it does. -/
def connects (s : PeerRegistry) : Op -> Option (ServerKey × String)
  | .setConnectedIfApprovedOrigin key origin name addr =>
      if (s.setConnectedIfApprovedOrigin key origin name addr).fst then some (key, origin)
      else none
  | _ => none

/-- The approval of another origin for a key with a session up. -/
def Rebinds (s : PeerRegistry) : Op -> Prop
  | .approveOrigin key origin => exists record, s.inner.get? key = some record ∧
      record.state = .connected ∧ record.origin ≠ some origin
  | _ => False

end Op

structure World where
  registry : PeerRegistry
  connectedUnder : ServerKey -> Option String

namespace World

def new : World where
  registry := PeerRegistry.new
  connectedUnder := fun _ => none

def run (w : World) (op : Op) : World where
  registry := op.run w.registry
  connectedUnder := fun k =>
    match op.connects w.registry with
    | some (key, origin) => if k = key then some origin else w.connectedUnder k
    | none => w.connectedUnder k

def step (w : World) (op : Op) : Option World :=
  some (w.run op)

end World

/-!
## What holds of a record
-/

/-- Pending when not approved, and up under the origin it is bound to. -/
structure PeerRecord.Consistent (record : PeerRecord) (under : Option String) : Prop where
  pending : record.state = .pending <-> record.approved = false
  bound : record.state = .connected -> record.origin.isSome ∧ record.origin = under

/-- Every record of the registry is consistent. -/
def World.Consistent (w : World) : Prop :=
  forall key record, w.registry.inner.get? key = some record ->
    record.Consistent (w.connectedUnder key)

/-- Nobody is approved or loses it, and no approved key is bound anew. -/
def PeerRegistry.SameTrust (s after : PeerRegistry) : Prop :=
  forall key, after.isApproved key = s.isApproved key ∧
    forall record, s.inner.get? key = some record ->
      exists record', after.inner.get? key = some record' ∧
        record'.approved = record.approved ∧
        (record.approved = true -> record'.origin = record.origin)

theorem World.Consistent.insert {w : World} (h : w.Consistent) {key : ServerKey}
    {record : PeerRecord} {under : ServerKey -> Option String}
    (hrecord : record.Consistent (under key))
    (hsame : forall k, k ≠ key -> under k = w.connectedUnder k) :
    World.Consistent ⟨⟨w.registry.inner.insert key record⟩, under⟩ := by
  intro k found hfound
  have hget : (w.registry.inner.insert key record).get? k = some found := hfound
  rw [Dict.get?_insert] at hget
  split at hget
  · rename_i heq
    subst heq
    cases hget
    exact hrecord
  · rename_i hne
    show found.Consistent (under k)
    rw [hsame k hne]
    exact h k found hget

section Records

variable {record after : PeerRecord} {under : Option String}

theorem PeerRecord.Consistent.of_disconnected (hstate : record.state = .disconnected)
    (happroved : record.approved = true) : record.Consistent under where
  pending := by
    rw [hstate, happroved]
    decide
  bound := by
    rw [hstate]
    exact nofun

theorem PeerRecord.Consistent.of_pending (hstate : record.state = .pending)
    (happroved : record.approved = false) : record.Consistent under where
  pending := by
    rw [hstate, happroved]
    decide
  bound := by
    rw [hstate]
    exact nofun

theorem PeerRecord.Consistent.same (h : record.Consistent under)
    (hstate : after.state = record.state) (happroved : after.approved = record.approved)
    (horigin : after.origin = record.origin) : after.Consistent under where
  pending := by
    rw [hstate, happroved]
    exact h.pending
  bound := by
    rw [hstate, horigin]
    exact h.bound

theorem PeerRecord.Consistent.approve (h : record.Consistent under)
    (happroved : after.approved = true)
    (hstate : after.state = if record.state = .pending then .disconnected else record.state)
    (horigin : record.state = .connected -> after.origin = record.origin) :
    after.Consistent under where
  pending := by
    rw [hstate, happroved]
    simp only [Bool.true_eq_false, iff_false]
    split
    · exact nofun
    · assumption
  bound := by
    rw [hstate]
    split
    · exact nofun
    · intro hconnected
      rw [horigin hconnected]
      exact h.bound hconnected

end Records

/-!
## One call
-/

theorem PeerRegistry.setConnected_cases (s : PeerRegistry) (key : ServerKey)
    (origin name : String) (addr : Option String) :
    s.setConnectedIfApprovedOrigin key origin name addr = (false, s) ∨
      exists record, s.inner.get? key = some record ∧ record.approved = true ∧
        record.origin = some origin ∧
        s.setConnectedIfApprovedOrigin key origin name addr = (true, ⟨s.inner.insert key
            (({ record with state := .connected }.named name).seenAt addr)⟩) := by
  unfold PeerRegistry.setConnectedIfApprovedOrigin
  cases hfound : s.inner.get? key with
  | none => exact Or.inl rfl
  | some record =>
      simp only []
      split
      · exact Or.inl rfl
      · rename_i hmatch
        rw [not_or, Bool.not_eq_false, not_not] at hmatch
        exact Or.inr ⟨record, rfl, hmatch.left, hmatch.right, rfl⟩

namespace World.Consistent

variable {w : World}

section

variable (h : w.Consistent)
include h

theorem seedApproved (key : ServerKey) (name : String) (origin : Option String) :
    (w.run (.seedApproved key name origin)).Consistent := by
  refine h.insert ?_ (fun _ _ => rfl)
  show PeerRecord.Consistent _ (w.connectedUnder key)
  cases hfound : w.registry.inner.get? key with
  | none => exact PeerRecord.Consistent.of_disconnected (by simp) (by simp)
  | some record =>
      apply (h key record hfound).approve
      · simp
      · simp
      · intro hconnected
        have hbound := ((h key record hfound).bound hconnected).left
        rcases Option.isSome_iff_exists.mp hbound with ⟨bound, hbound⟩
        simp [hbound]

theorem notePending (key : ServerKey) (name origin : String) (addr : Option String) :
    (w.run (.notePending key name origin addr)).Consistent := by
  refine h.insert ?_ (fun _ _ => rfl)
  show PeerRecord.Consistent _ (w.connectedUnder key)
  cases hfound : w.registry.inner.get? key with
  | none => exact PeerRecord.Consistent.of_pending (by simp) (by simp)
  | some record =>
      cases happroved : record.approved with
      | false => exact PeerRecord.Consistent.of_pending (by simp [happroved]) (by simp [happroved])
      | true =>
          apply (h key record hfound).same
          all_goals simp [happroved]

theorem revoke (key : ServerKey) : (w.run (.revoke key)).Consistent := by
  show World.Consistent ⟨(w.registry.revoke key).snd, w.connectedUnder⟩
  unfold PeerRegistry.revoke
  cases hfound : w.registry.inner.get? key with
  | none => exact h
  | some record =>
      apply h.insert
      · exact PeerRecord.Consistent.of_pending rfl rfl
      · exact fun _ _ => rfl

theorem setDisconnected (key : ServerKey) : (w.run (.setDisconnected key)).Consistent := by
  show World.Consistent ⟨w.registry.setDisconnected key, w.connectedUnder⟩
  unfold PeerRegistry.setDisconnected
  cases hfound : w.registry.inner.get? key with
  | none => exact h
  | some record =>
      simp only []
      split
      · rename_i hconnected
        apply h.insert
        · apply PeerRecord.Consistent.of_disconnected rfl
          cases happroved : record.approved with
          | true => rfl
          | false =>
              have hpending := (h key record hfound).pending.mpr happroved
              rw [hconnected] at hpending
              cases hpending
        · exact fun _ _ => rfl
      · exact h

theorem approveOrigin {key : ServerKey} {origin : String}
    (hkeeps : ¬ (Op.approveOrigin key origin).Rebinds w.registry) :
    (w.run (.approveOrigin key origin)).Consistent := by
  show World.Consistent ⟨(w.registry.approveOrigin key origin).snd, w.connectedUnder⟩
  unfold PeerRegistry.approveOrigin PeerRegistry.approveWithOrigin
  cases hfound : w.registry.inner.get? key with
  | none =>
      apply h.insert
      · exact PeerRecord.Consistent.of_disconnected rfl rfl
      · exact fun _ _ => rfl
  | some record =>
      apply h.insert
      · apply (h key record hfound).approve
        · simp
        · simp
        · intro hconnected
          rw [PeerRecord.origin_leavePending]
          by_contra hother
          exact hkeeps ⟨record, hfound, hconnected, fun horigin => hother horigin.symm⟩
      · exact fun _ _ => rfl

theorem setConnected (key : ServerKey) (origin name : String) (addr : Option String) :
    (w.run (.setConnectedIfApprovedOrigin key origin name addr)).Consistent := by
  unfold World.run Op.run Op.connects
  simp only []
  rcases w.registry.setConnected_cases key origin name addr with
    hrefused | ⟨record, hfound, happroved, horigin, hup⟩
  · rw [hrefused]
    exact h
  · rw [hup]
    apply h.insert
    · refine ⟨?_, ?_⟩
      · simp [happroved]
      · simp [horigin]
    · intro k hne
      exact if_neg hne

theorem run {op : Op} (hkeeps : ¬ op.Rebinds w.registry) : (w.run op).Consistent := by
  cases op with
  | seedApproved key name origin => exact h.seedApproved key name origin
  | notePending key name origin addr => exact h.notePending key name origin addr
  | approveOrigin key origin => exact h.approveOrigin hkeeps
  | revoke key => exact h.revoke key
  | setConnectedIfApprovedOrigin key origin name addr =>
      exact h.setConnected key origin name addr
  | setDisconnected key => exact h.setDisconnected key

theorem not_run {op : Op} (hrebinds : op.Rebinds w.registry) : ¬ (w.run op).Consistent := by
  cases op with
  | approveOrigin key origin =>
      rcases hrebinds with ⟨record, hfound, hconnected, hother⟩
      intro hafter
      have hget : (w.run (.approveOrigin key origin)).registry.inner.get? key =
          some { record with approved := true, origin := some origin } := by
        show (w.registry.approveOrigin key origin).snd.inner.get? key = _
        unfold PeerRegistry.approveOrigin PeerRegistry.approveWithOrigin
        rw [hfound]
        simp [PeerRecord.leavePending, hconnected]
      have hnow := ((hafter key _ hget).bound hconnected).right
      have hbefore := ((h key record hfound).bound hconnected).right
      apply hother
      rw [hbefore]
      exact hnow.symm
  | seedApproved key name origin | notePending key name origin addr | revoke key
  | setConnectedIfApprovedOrigin key origin name addr | setDisconnected key => cases hrebinds

end

end World.Consistent

/-!
## What a remote peer can do
-/

namespace PeerRegistry.SameTrust

variable {s : PeerRegistry}

theorem refl (s : PeerRegistry) : s.SameTrust s :=
  fun _ => ⟨rfl, fun record hrecord => ⟨record, hrecord, rfl, fun _ => rfl⟩⟩

theorem insert {key : ServerKey} {after : PeerRecord}
    (hnew : s.inner.get? key = none -> after.approved = false)
    (hold : forall record, s.inner.get? key = some record ->
      after.approved = record.approved ∧
      (record.approved = true -> after.origin = record.origin)) :
    s.SameTrust ⟨s.inner.insert key after⟩ := by
  intro k
  unfold PeerRegistry.isApproved
  simp only []
  rw [Dict.get?_insert]
  split
  · rename_i heq
    subst heq
    cases hfound : s.inner.get? k with
    | none => exact ⟨hnew hfound, fun _ h => absurd h (by simp)⟩
    | some record =>
        refine ⟨(hold record hfound).left, ?_⟩
        intro found heq
        cases heq
        exact ⟨after, rfl, hold record hfound⟩
  · exact ⟨rfl, fun record hrecord => ⟨record, hrecord, rfl, fun _ => rfl⟩⟩

theorem notePending (s : PeerRegistry) (key : ServerKey) (name origin : String)
    (addr : Option String) : s.SameTrust (s.notePending key name origin addr) := by
  apply insert
  · intro hnone
    simp [hnone]
  · intro record hfound
    cases happroved : record.approved with
    | false | true => simp [hfound, happroved]

theorem setDisconnected (s : PeerRegistry) (key : ServerKey) :
    s.SameTrust (s.setDisconnected key) := by
  unfold PeerRegistry.setDisconnected
  cases hfound : s.inner.get? key with
  | none => exact refl s
  | some record =>
      simp only []
      split
      · apply insert
        · intro hnone
          rw [hfound] at hnone
          cases hnone
        · intro found heq
          rw [hfound] at heq
          cases heq
          exact ⟨rfl, fun _ => rfl⟩
      · exact refl s

theorem setConnected (s : PeerRegistry) (key : ServerKey) (origin name : String)
    (addr : Option String) :
    s.SameTrust (s.setConnectedIfApprovedOrigin key origin name addr).snd := by
  rcases s.setConnected_cases key origin name addr with
    hrefused | ⟨record, hfound, _, _, hup⟩
  · rw [hrefused]
    exact refl s
  · rw [hup]
    apply insert
    · intro hnone
      rw [hfound] at hnone
      cases hnone
    · intro found heq
      rw [hfound] at heq
      cases heq
      simp

theorem of_remote (s : PeerRegistry) {op : Op} (hremote : op.Remote) : s.SameTrust (op.run s) := by
  cases op with
  | notePending key name origin addr => exact notePending s key name origin addr
  | setConnectedIfApprovedOrigin key origin name addr =>
      exact setConnected s key origin name addr
  | setDisconnected key => exact setDisconnected s key
  | seedApproved key name origin | approveOrigin key origin | revoke key => cases hremote

end PeerRegistry.SameTrust

/-!
## Every run
-/

/-- The records are consistent, and what a remote peer does changes no trust. -/
def World.Trusted (w : World) : Prop :=
  w.Consistent ∧ forall op : Op, op.Remote -> w.registry.SameTrust (op.run w.registry)

theorem World.consistent_new : World.new.Consistent :=
  fun _ _ hfound => nomatch hfound

theorem along_iff_consistent {w : World} (h : w.Consistent) (ops : List Op) :
    Along World.step (fun w op => ¬ op.Rebinds w.registry) w ops <->
      forall front w', front <+: ops -> run? World.step w front = some w' -> w'.Consistent := by
  induction ops generalizing w with
  | nil =>
      refine ⟨?_, fun _ => trivial⟩
      intro _ front w' hfront hrun
      rw [List.prefix_nil.mp hfront] at hrun
      cases hrun
      exact h
  | cons op rest ih =>
      constructor
      · intro halong front w' hfront hrun
        cases front with
        | nil =>
            cases hrun
            exact h
        | cons first front =>
            rw [List.cons_prefix_cons] at hfront
            rcases hfront with ⟨rfl, hfront⟩
            have hnext := h.run halong.left
            exact (ih hnext).mp (halong.right _ rfl) front w' hfront hrun
      · intro hall
        have hkeeps : ¬ op.Rebinds w.registry := by
          intro hrebinds
          apply h.not_run hrebinds
          exact hall [op] (w.run op) (by simp) rfl
        refine along_cons hkeeps rfl ((ih (h.run hkeeps)).mpr ?_)
        intro front w' hfront hrun
        exact hall (op :: front) w' (List.cons_prefix_cons.mpr ⟨rfl, hfront⟩) hrun

/--
A record is pending exactly when it is not approved, a session that is up was connected under
the origin it is bound to, and no remote peer changes any trust: exactly when no step
approves another origin for a key with a session up.
-/
theorem peers_trusted_iff (ops : List Op) :
    (forall front w, front <+: ops -> run? World.step World.new front = some w -> w.Trusted) <->
      Along World.step (fun w op => ¬ op.Rebinds w.registry) World.new ops := by
  rw [along_iff_consistent World.consistent_new]
  constructor
  · intro h front w hfront hrun
    exact (h front w hfront hrun).left
  · intro h front w hfront hrun
    exact ⟨h front w hfront hrun, fun op hremote =>
      PeerRegistry.SameTrust.of_remote w.registry hremote⟩

def rebound : List Op :=
  [.seedApproved 7 "p" (some "a.example"),
    .setConnectedIfApprovedOrigin 7 "a.example" "p" none, .approveOrigin 7 "b.example"]

/-- A session that came up under one origin is up under another. -/
theorem connected_under_another :
    exists w record, run? World.step World.new rebound = some w ∧
      w.registry.inner.get? 7 = some record ∧ record.state = .connected ∧
      record.origin = some "b.example" ∧ w.connectedUnder 7 = some "a.example" ∧
      ¬ w.Trusted := by
  refine ⟨rebound.foldl World.run World.new,
    ⟨7, "p", some "b.example", none, .connected, true⟩, rfl, by decide, rfl, rfl, by decide, ?_⟩
  intro htrusted
  have hbound := (htrusted.left 7 ⟨7, "p", some "b.example", none, .connected, true⟩
    (by decide)).bound rfl
  exact absurd hbound.right (by decide)

end Rabbithole.Federation
