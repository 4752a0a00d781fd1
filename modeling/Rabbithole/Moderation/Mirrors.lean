import Rabbithole.Foundation.Run
import Rabbithole.Foundation.Memo
import Rabbithole.Moderation.Service

/-!
# Mirrors and tables

Seen as a table and its mirror over all subjects, every step of the service changes nothing,
stores, or brings a stored change to the mirror; the mirrors answer for the tables as long as
no change is brought too late.
-/

namespace Rabbithole.Moderation

open Foundation Function

/-- What a call is about. -/
inductive Subject where
  | content (kind : UInt8) (subjectRef : Bytes)
  | hash (hash : Hash)
deriving DecidableEq

namespace Call

def subject : Call -> Subject
  | .quarantineSet kind subjectRef _ _ => .content kind subjectRef
  | .quarantineClear kind subjectRef _ => .content kind subjectRef
  | .denyAdd hash _ _ => .hash hash
  | .denyRemove hash _ => .hash hash

/-- Whether the call puts its subject in, or takes it out. -/
def puts : Call -> Bool
  | .quarantineSet _ _ _ _ => true
  | .quarantineClear _ _ _ => false
  | .denyAdd _ _ _ => true
  | .denyRemove _ _ => false

end Call

/-- What a call at this point has changed in the tables and not in the mirrors. -/
def Progress.unmirrored : Progress -> Option (Subject × Bool)
  | .checked _ => none
  | .stored call _ => some (call.subject, call.puts)
  | .mirrored _ => none

namespace ModerationService

def hasRow (s : ModerationService) : Subject -> Bool
  | .content kind subjectRef => s.quarantineRows.contains (kind, subjectRef)
  | .hash hash => s.denyRows.contains hash

def isHeld (s : ModerationService) : Subject -> Bool
  | .content kind subjectRef => s.isQuarantined kind subjectRef
  | .hash hash => s.isDenied hash

def view (s : ModerationService) : WriteThrough Nat Subject where
  table := s.hasRow
  mirror := s.isHeld
  pending := fun id => (s.calls.get? id).bind Progress.unmirrored

end ModerationService

/--
A call comes to the mirrors in time: the table is as the call left it, or another call that
has changed the same subject in the table has still to come.
-/
def Timely (s : ModerationService) : Event -> Prop
  | .mirror id =>
      match s.view.pending id with
      | some (subject, put) => s.view.InTime id subject put
      | none => True
  | _ => True

/-!
## Tables
-/

section Tables

variable {key : Type} [DecidableEq key] {rows : Dict key Row} {k k' : key}

theorem contains_upsert {reason addedBy : String} {now : Int} :
    (upsert rows k reason addedBy now).contains k' = if k' = k then true else rows.contains k' := by
  unfold upsert Dict.contains
  split
  all_goals
    rw [Dict.get?_insert]
    split
    · rfl
    · rfl

theorem contains_erase :
    (rows.erase k).contains k' = if k' = k then false else rows.contains k' := by
  unfold Dict.contains
  rw [Dict.get?_erase]
  split
  · rfl
  · rfl

theorem mem_keys : k ∈ keys rows <-> rows.contains k = true := by
  unfold keys Dict.contains
  rw [List.mem_toFinset, ← not_iff_not, ← Dict.get?_eq_none_iff, Bool.not_eq_true,
    Option.isSome_eq_false_iff, Option.isNone_iff_eq_none]

theorem decide_mem_insert {held : Finset key} :
    decide (k' ∈ insert k held) = if k' = k then true else decide (k' ∈ held) := by
  by_cases h : k' = k
  · simp [h]
  · simp [h]

theorem decide_mem_erase {held : Finset key} :
    decide (k' ∈ held.erase k) = if k' = k then false else decide (k' ∈ held) := by
  by_cases h : k' = k
  · simp [h]
  · simp [h]

end Tables

/-!
## One call
-/

section OneCall

variable {s : ModerationService} {call : Call} {now : Int}

theorem hasRow_execute (subject : Subject) :
    (s.execute call now).fst.hasRow subject =
      if subject = call.subject then call.puts else s.hasRow subject := by
  cases call with
  | quarantineSet kind subjectRef reason moderator =>
      cases subject with
      | content kind' subjectRef' =>
          show (upsert s.quarantineRows _ _ _ _).contains _ = _
          rw [contains_upsert]
          simp [Call.subject, Call.puts, ModerationService.hasRow]
      | hash hash' => rfl
  | quarantineClear kind subjectRef moderator =>
      cases subject with
      | content kind' subjectRef' =>
          show (s.quarantineRows.erase _).contains _ = _
          rw [contains_erase]
          simp [Call.subject, Call.puts, ModerationService.hasRow]
      | hash hash' => rfl
  | denyAdd hash reason moderator =>
      cases subject with
      | content kind' subjectRef' => rfl
      | hash hash' =>
          show (upsert s.denyRows _ _ _ _).contains _ = _
          rw [contains_upsert]
          simp [Call.subject, Call.puts, ModerationService.hasRow]
  | denyRemove hash moderator =>
      cases subject with
      | content kind' subjectRef' => rfl
      | hash hash' =>
          show (s.denyRows.erase _).contains _ = _
          rw [contains_erase]
          simp [Call.subject, Call.puts, ModerationService.hasRow]

theorem isHeld_mirror (subject : Subject) :
    (s.mirror call).isHeld subject =
      if subject = call.subject then call.puts else s.isHeld subject := by
  cases call with
  | quarantineSet kind subjectRef reason moderator =>
      cases subject with
      | content kind' subjectRef' =>
          show decide ((kind', subjectRef') ∈ insert (kind, subjectRef) s.quarantine) = _
          rw [decide_mem_insert]
          simp [Call.subject, Call.puts, ModerationService.isHeld,
            ModerationService.isQuarantined]
      | hash hash' => rfl
  | quarantineClear kind subjectRef moderator =>
      cases subject with
      | content kind' subjectRef' =>
          show decide ((kind', subjectRef') ∈ s.quarantine.erase (kind, subjectRef)) = _
          rw [decide_mem_erase]
          simp [Call.subject, Call.puts, ModerationService.isHeld,
            ModerationService.isQuarantined]
      | hash hash' => rfl
  | denyAdd hash reason moderator =>
      cases subject with
      | content kind' subjectRef' => rfl
      | hash hash' =>
          show decide (hash' ∈ insert hash s.deny) = _
          rw [decide_mem_insert]
          simp [Call.subject, Call.puts, ModerationService.isHeld, ModerationService.isDenied]
  | denyRemove hash moderator =>
      cases subject with
      | content kind' subjectRef' => rfl
      | hash hash' =>
          show decide (hash' ∈ s.deny.erase hash) = _
          rw [decide_mem_erase]
          simp [Call.subject, Call.puts, ModerationService.isHeld, ModerationService.isDenied]

theorem hasRow_mirror : (s.mirror call).hasRow = s.hasRow := by
  cases call with
  | quarantineSet kind subjectRef reason moderator | quarantineClear kind subjectRef moderator
  | denyAdd hash reason moderator | denyRemove hash moderator => rfl

theorem isHeld_execute : (s.execute call now).fst.isHeld = s.isHeld := by
  cases call with
  | quarantineSet kind subjectRef reason moderator | quarantineClear kind subjectRef moderator
  | denyAdd hash reason moderator | denyRemove hash moderator => rfl

theorem pending_execute : (s.execute call now).fst.view.pending = s.view.pending := by
  cases call with
  | quarantineSet kind subjectRef reason moderator | quarantineClear kind subjectRef moderator
  | denyAdd hash reason moderator | denyRemove hash moderator => rfl

theorem pending_mirror : (s.mirror call).view.pending = s.view.pending := by
  cases call with
  | quarantineSet kind subjectRef reason moderator | quarantineClear kind subjectRef moderator
  | denyAdd hash reason moderator | denyRemove hash moderator => rfl

end OneCall

/-!
## Steps
-/

section Steps

variable {s s' : ModerationService} {id : Nat}

theorem pending_put {progress : Progress} :
    (s.put id progress).view.pending = Function.update s.view.pending id progress.unmirrored := by
  funext other
  show ((s.calls.insert id progress).get? other).bind _ = _
  rw [Dict.get?_insert, update_apply]
  split
  · rfl
  · rfl

theorem pending_finish {answer : Answer} :
    (s.finish id answer).view.pending = Function.update s.view.pending id none := by
  funext other
  show ((s.calls.erase id).get? other).bind _ = _
  rw [Dict.get?_erase, update_apply]
  split
  · rfl
  · rfl

theorem view_put {progress : Progress} (hbefore : s.view.pending id = none)
    (hafter : progress.unmirrored = none) : (s.put id progress).view = s.view := by
  apply WriteThrough.ext
  · rfl
  · rfl
  · rw [pending_put, hafter, ← hbefore, update_eq_self]

theorem view_finish {answer : Answer} (hbefore : s.view.pending id = none) :
    (s.finish id answer).view = s.view := by
  apply WriteThrough.ext
  · rfl
  · rfl
  · rw [pending_finish, ← hbefore, update_eq_self]

theorem view_execute {call : Call} {removed : Bool} {now : Int} :
    ((s.execute call now).fst.put id (.stored call removed)).view =
      s.view.store id call.subject call.puts := by
  apply WriteThrough.ext
  · funext subject
    show (s.execute call now).fst.hasRow subject =
      Function.update s.hasRow call.subject call.puts subject
    rw [update_apply]
    exact hasRow_execute subject
  · exact isHeld_execute
  · rw [pending_put, pending_execute]
    rfl

theorem view_bring {call : Call} (hrow : s'.hasRow = s.hasRow)
    (hheld : s'.isHeld = (s.mirror call).isHeld)
    (hpending : s'.view.pending = Function.update s.view.pending id none) :
    s'.view = s.view.bring id call.subject call.puts := by
  apply WriteThrough.ext
  · exact hrow
  · funext subject
    show s'.isHeld subject = Function.update s.isHeld call.subject call.puts subject
    rw [hheld, update_apply]
    exact isHeld_mirror subject
  · exact hpending

theorem step_view {hex : Bytes -> String} {e : Event} (h : step hex s e = some s') :
    ((forall id, e ≠ .mirror id) ∧ s'.view = s.view) ∨
    (exists id subject put, (forall id, e ≠ .mirror id) ∧ s.view.pending id = none ∧
      s'.view = s.view.store id subject put) ∨
    exists id subject put, e = .mirror id ∧ s.view.pending id = some (subject, put) ∧
      s'.view = s.view.bring id subject put := by
  cases e with
  | call id call =>
      refine Or.inl ⟨fun _ hevent => (by cases hevent), ?_⟩
      simp only [step] at h
      split at h
      · cases h
      · rename_i hfresh
        rw [not_or, Bool.not_eq_true, Option.isSome_eq_false_iff,
          Option.isNone_iff_eq_none] at hfresh
        have hpending : s.view.pending id = none := by
          show (s.calls.get? id).bind _ = none
          rw [hfresh.left]
          rfl
        cases hcheck : call.check with
        | error e =>
            rw [hcheck] at h
            cases h
            exact view_finish hpending
        | ok call =>
            rw [hcheck] at h
            cases h
            exact view_put hpending rfl
  | store id ok now =>
      simp only [step] at h
      split at h
      · rename_i call hcall
        have hpending : s.view.pending id = none := by
          show (s.calls.get? id).bind _ = none
          rw [hcall]
          rfl
        split at h
        · cases h
          exact Or.inr (Or.inl ⟨id, call.subject, call.puts, fun _ hevent => (by cases hevent),
            hpending, view_execute⟩)
        · cases h
          exact Or.inl ⟨fun _ hevent => (by cases hevent), view_finish hpending⟩
      · cases h
  | mirror id =>
      simp only [step] at h
      split at h
      · rename_i call removed hcall
        have hpending : s.view.pending id = some (call.subject, call.puts) := by
          show (s.calls.get? id).bind _ = _
          rw [hcall]
          rfl
        refine Or.inr (Or.inr ⟨id, call.subject, call.puts, rfl, hpending, ?_⟩)
        split at h
        · cases h
          apply view_bring
          · exact hasRow_mirror
          · rfl
          · rw [pending_put, pending_mirror]
            rfl
        · cases h
          apply view_bring
          · exact hasRow_mirror
          · rfl
          · rw [pending_finish, pending_mirror]
      · cases h
  | audit id ok =>
      refine Or.inl ⟨fun _ hevent => (by cases hevent), ?_⟩
      simp only [step] at h
      split at h
      · rename_i call hcall
        have hpending : s.view.pending id = none := by
          show (s.calls.get? id).bind _ = none
          rw [hcall]
          rfl
        split at h
        · cases h
          exact @view_finish s id (call.answer true) hpending
        · cases h
          exact view_finish hpending
      · cases h

theorem timely_mirror {subject : Subject} {put : Bool}
    (hpending : s.view.pending id = some (subject, put)) :
    Timely s (.mirror id) <-> s.view.InTime id subject put := by
  simp only [Timely]
  rw [hpending]

theorem timely_of_ne {e : Event} (h : forall id, e ≠ .mirror id) : Timely s e := by
  cases e with
  | mirror id => exact absurd rfl (h id)
  | call id call | store id ok now | audit id ok => trivial

theorem settled_step_iff {hex : Bytes -> String} {e : Event} (hsettled : s.view.Settled)
    (h : step hex s e = some s') : s'.view.Settled <-> Timely s e := by
  rcases step_view h with ⟨hevent, hsame⟩ | ⟨id, subject, put, hevent, hfree, hstore⟩ |
    ⟨id, subject, put, rfl, hpending, hbring⟩
  · rw [hsame]
    exact ⟨fun _ => timely_of_ne hevent, fun _ => hsettled⟩
  · rw [hstore]
    exact ⟨fun _ => timely_of_ne hevent, fun _ => hsettled.store hfree⟩
  · rw [hbring, timely_mirror hpending]
    constructor
    · intro hafter
      by_contra hlate
      rcases WriteThrough.wrong_of_late hlate with ⟨hquiet, hwrong⟩
      exact hwrong (hafter subject hquiet)
    · exact hsettled.bring hpending

end Steps

/-!
## Runs
-/

section Runs

variable {s : ModerationService}

theorem settled_start (quarantineRows : Dict (UInt8 × Bytes) Row) (denyRows : Dict Hash Row)
    (auditRows : List AuditRow) :
    (ModerationService.start quarantineRows denyRows auditRows).view.Settled := by
  intro subject _
  cases subject with
  | content kind subjectRef =>
      show decide ((kind, subjectRef) ∈ keys quarantineRows) = quarantineRows.contains _
      rw [Bool.eq_iff_iff, decide_eq_true_iff]
      exact mem_keys
  | hash hash =>
      show decide (hash ∈ keys denyRows) = denyRows.contains hash
      rw [Bool.eq_iff_iff, decide_eq_true_iff]
      exact mem_keys

theorem keys_of_settled (hsettled : s.view.Settled) (hidle : s.calls.isEmpty = true) :
    s.quarantine = keys s.quarantineRows ∧ s.deny = keys s.denyRows := by
  have hagree : s.isHeld = s.hasRow := by
    apply hsettled.agrees
    intro id
    show (s.calls.get? id).bind _ = none
    rw [Dict.isEmpty_iff.mp hidle id]
    rfl
  constructor
  · ext ⟨kind, subjectRef⟩
    have hsubject : decide ((kind, subjectRef) ∈ s.quarantine) =
        s.quarantineRows.contains (kind, subjectRef) :=
      congrFun hagree (.content kind subjectRef)
    rw [mem_keys, ← hsubject, decide_eq_true_iff]
  · ext hash
    have hsubject : decide (hash ∈ s.deny) = s.denyRows.contains hash :=
      congrFun hagree (.hash hash)
    rw [mem_keys, ← hsubject, decide_eq_true_iff]

/--
In a run where every call comes to the mirrors in time, the mirrors hold exactly the rows of
their tables whenever no call is in progress, and a restart on these tables changes no answer.
-/
theorem mirrors_agree_of_timely (hex : Bytes -> String)
    (quarantineRows : Dict (UInt8 × Bytes) Row) (denyRows : Dict Hash Row)
    (auditRows : List AuditRow) (events : List Event) (htimely : Along (step hex) Timely
      (ModerationService.start quarantineRows denyRows auditRows) events)
    (hrun : run? (step hex) (ModerationService.start quarantineRows denyRows auditRows) events =
      some s) (hidle : s.calls.isEmpty = true) :
    (s.quarantine = keys s.quarantineRows ∧ s.deny = keys s.denyRows) ∧
      (forall kind subjectRef,
        (ModerationService.start s.quarantineRows s.denyRows s.auditRows).isQuarantined kind
          subjectRef = s.isQuarantined kind subjectRef) ∧
      forall hash,
        (ModerationService.start s.quarantineRows s.denyRows s.auditRows).isDenied hash =
          s.isDenied hash := by
  have hsettled : s.view.Settled :=
    @run?_invariant_along _ _ _ _ (fun s => s.view.Settled)
      (fun _ _ _ hbefore hcond hstep => (settled_step_iff hbefore hstep).mpr hcond) _ _ _
      (settled_start quarantineRows denyRows auditRows) htimely hrun
  rcases keys_of_settled hsettled hidle with ⟨hquarantine, hdeny⟩
  refine ⟨⟨hquarantine, hdeny⟩, ?_, ?_⟩
  · intro kind subjectRef
    show decide ((kind, subjectRef) ∈ keys s.quarantineRows) = s.isQuarantined kind subjectRef
    rw [← hquarantine]
    rfl
  · intro hash
    show decide (hash ∈ keys s.denyRows) = s.isDenied hash
    rw [← hdeny]
    rfl

end Runs

/-!
## Two moderators on one post
-/

/-- One moderator holds a post back and another clears it; both have changed the table. -/
def crossing : List Event :=
  [.call 0 (.quarantineSet SubjectKind.post (List.replicate 32 7) "spam" "mo"),
    .call 1 (.quarantineClear SubjectKind.post (List.replicate 32 7) "ada"),
    .store 0 true 100, .store 1 true 101]

def hexEncode (bytes : Bytes) : String :=
  String.join (bytes.map (fun b =>
    String.ofList [Nat.digitChar (b.toNat / 16), Nat.digitChar (b.toNat % 16)]))

def empty : ModerationService :=
  ModerationService.start Dict.empty Dict.empty []

theorem mirrors_agree_of_timely_crossing : exists s, run? (step hexEncode) empty
        (crossing ++ [.mirror 0, .audit 0 false, .mirror 1, .audit 1 true]) = some s ∧
      s.quarantine = keys s.quarantineRows := by
  refine ⟨_, rfl, ?_⟩
  have htimely : Along (step hexEncode) Timely empty
      (crossing ++ [.mirror 0, .audit 0 false, .mirror 1, .audit 1 true]) := by
    refine along_cons trivial rfl (along_cons trivial rfl (along_cons trivial rfl
      (along_cons trivial rfl ?_)))
    -- The clear has still to come to the mirror when the set does.
    refine along_cons ((timely_mirror rfl).mpr (Or.inr ⟨1, false, by decide, rfl⟩)) rfl ?_
    refine along_cons trivial rfl ?_
    refine along_cons ((timely_mirror rfl).mpr (Or.inl rfl)) rfl ?_
    exact along_cons trivial rfl trivial
  exact (mirrors_agree_of_timely hexEncode Dict.empty Dict.empty [] _ htimely rfl
    (by decide)).left.left

/-- The clear comes to the mirror first, and the post stays hidden until a restart. -/
theorem cleared_post_stays_hidden :
    ¬ (forall (hex : Bytes -> String) (quarantineRows : Dict (UInt8 × Bytes) Row)
      (denyRows : Dict Hash Row) (auditRows : List AuditRow) (events : List Event)
      (s : ModerationService),
      run? (step hex) (ModerationService.start quarantineRows denyRows auditRows) events = some s ->
        s.calls.isEmpty = true ->
        s.quarantine = keys s.quarantineRows ∧ s.deny = keys s.denyRows) := by
  intro hall
  have hagree := hall hexEncode Dict.empty Dict.empty []
    (crossing ++ [.mirror 1, .audit 1 true, .mirror 0, .audit 0 true]) _ rfl (by decide)
  exact absurd hagree.left (by decide)

end Rabbithole.Moderation
