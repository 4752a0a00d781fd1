import Mathlib.Data.List.Basic
import Mathlib.Data.List.Induction

/-!
# Runs of a partial transition function

A component is a partial function that gives the state after an action, or nothing where
the action is not enabled.  Runs are lists of actions; an invariant is carried along a run,
or along those whose every step meets a condition.
-/

namespace Rabbithole.Foundation

open List

variable {state action : Type*}

/-- Run a list of actions from a state; undefined once one is not enabled. -/
def run? (step : state -> action -> Option state) : state -> List action -> Option state
  | s, [] => some s
  | s, a :: rest =>
      match step s a with
      | none => none
      | some s' => run? step s' rest

theorem run?_cons (step : state -> action -> Option state)
    (s : state) (a : action) (rest : List action) :
    run? step s (a :: rest) =
      match step s a with
      | none => none
      | some s' => run? step s' rest := rfl

variable {step : state -> action -> Option state} {s : state} {cond : state -> action -> Prop}
  {actions rest : List action} {a : action}

theorem run?_cons_some {t : state} (h : run? step s (a :: rest) = some t) :
    exists s', step s a = some s' ∧ run? step s' rest = some t := by
  rw [run?_cons] at h
  cases hstep : step s a with
  | none =>
      rw [hstep] at h
      cases h
  | some s' =>
      rw [hstep] at h
      exact ⟨s', rfl, h⟩

theorem run?_cons_of_some {s' t : state} (hstep : step s a = some s')
    (hrest : run? step s' rest = some t) : run? step s (a :: rest) = some t := by
  rw [run?_cons, hstep]
  exact hrest

theorem run?_append (step : state -> action -> Option state)
    (s : state) (front back : List action) :
    run? step s (front ++ back) =
      match run? step s front with
      | none => none
      | some s' => run? step s' back := by
  induction front generalizing s with
  | nil => rfl
  | cons a rest ih =>
      rw [cons_append, run?_cons, run?_cons]
      cases step s a with
      | none => rfl
      | some s' => exact ih s'

/-!
## Invariants

What one enabled step preserves, a whole run preserves.
-/

/-- Every step of the run is taken from a state that meets the condition. -/
def Along (step : state -> action -> Option state)
    (cond : state -> action -> Prop) : state -> List action -> Prop
  | _, [] => True
  | s, a :: rest =>
      cond s a ∧ forall s', step s a = some s' -> Along step cond s' rest

theorem along_cons {s' : state} (hcond : cond s a) (hstep : step s a = some s')
    (hrest : Along step cond s' rest) : Along step cond s (a :: rest) := by
  refine ⟨hcond, ?_⟩
  intro t ht
  rw [hstep] at ht
  cases ht
  exact hrest

instance Along.decidable {step : state -> action -> Option state}
    {cond : state -> action -> Prop} [forall s a, Decidable (cond s a)] :
    forall s actions, Decidable (Along step cond s actions)
  | _, [] => isTrue trivial
  | s, a :: rest =>
      match hstep : step s a with
      | none =>
          decidable_of_iff (cond s a)
            ⟨fun h => ⟨h, fun s' h' => by rw [hstep] at h'; cases h'⟩, And.left⟩
      | some s' =>
          haveI : Decidable (Along step cond s' rest) := Along.decidable s' rest
          decidable_of_iff (cond s a ∧ Along step cond s' rest)
            ⟨fun h => along_cons h.left hstep h.right, fun h => ⟨h.left, h.right s' hstep⟩⟩

theorem along_mono {cond' : state -> action -> Prop} (hcond : forall s a, cond s a -> cond' s a)
    (h : Along step cond s actions) : Along step cond' s actions := by
  induction actions generalizing s with
  | nil =>
      trivial
  | cons a rest ih =>
      refine ⟨hcond s a h.left, ?_⟩
      intro s' hstep
      exact ih (h.right s' hstep)

theorem along_and {cond' : state -> action -> Prop} (h : Along step cond s actions)
    (h' : Along step cond' s actions) : Along step (fun s a => cond s a ∧ cond' s a) s actions := by
  induction actions generalizing s with
  | nil =>
      trivial
  | cons a rest ih =>
      refine ⟨⟨h.left, h'.left⟩, ?_⟩
      intro s' hstep
      exact ih (h.right s' hstep) (h'.right s' hstep)

theorem along_of_forall {p : action -> Prop} (hp : forall a, a ∈ actions -> p a)
    (h : Along step cond s actions) : Along step (fun s a => p a ∧ cond s a) s actions := by
  induction actions generalizing s with
  | nil =>
      trivial
  | cons a rest ih =>
      refine ⟨⟨hp a mem_cons_self, h.left⟩, ?_⟩
      intro s' hstep
      exact ih (fun b hb => hp b (mem_cons_of_mem _ hb)) (h.right s' hstep)

theorem along_of_invariant (inv : state -> Prop)
    (hstep : forall s a s', inv s -> step s a = some s' -> inv s')
    (hcond : forall s a, a ∈ actions -> inv s -> cond s a) (hs : inv s) :
    Along step cond s actions := by
  induction actions generalizing s with
  | nil =>
      trivial
  | cons a rest ih =>
      refine ⟨hcond s a mem_cons_self hs, ?_⟩
      intro s' hfirst
      exact ih (fun t b hb => hcond t b (mem_cons_of_mem _ hb))
        (hstep s a s' hs hfirst)

/--
A relation between the actions taken so far and the state reached, kept by
every step that extends the run, holds of the whole run.
-/
theorem run?_history_along (rel : List action -> state -> Prop)
    (hstep : forall past s a s', rel past s -> cond s a -> step s a = some s' ->
      rel (past ++ [a]) s') {past : List action} {t : state} (hs : rel past s)
    (hcond : Along step cond s actions) (hrun : run? step s actions = some t) :
    rel (past ++ actions) t := by
  induction actions generalizing past s with
  | nil =>
      cases hrun
      simpa using hs
  | cons a rest ih =>
      rcases run?_cons_some hrun with ⟨s', hfirst, hrest⟩
      have hnext := ih (hstep past s a s' hs hcond.left hfirst)
        (hcond.right s' hfirst) hrest
      simpa using hnext

theorem run?_history {step : state -> action -> Option state}
    {rel : List action -> state -> Prop}
    (hstep : forall past s a s', rel past s -> step s a = some s' ->
      rel (past ++ [a]) s')
    {past : List action} {s t : state} {actions : List action}
    (hs : rel past s) (hrun : run? step s actions = some t) : rel (past ++ actions) t := by
  have hall : Along step (fun _ _ => True) s actions :=
    along_of_invariant (fun _ => True) (fun _ _ _ _ _ => trivial) (fun _ _ _ _ => trivial) trivial
  exact run?_history_along rel (fun past s a s' h _ => hstep past s a s' h) hs hall hrun

theorem run?_invariant_along {step : state -> action -> Option state}
    {cond : state -> action -> Prop} {inv : state -> Prop}
    (hstep : forall s a s', inv s -> cond s a -> step s a = some s' -> inv s')
    {s t : state} {actions : List action} (hs : inv s) (hcond : Along step cond s actions)
    (hrun : run? step s actions = some t) : inv t :=
  @run?_history_along _ _ _ _ _ _ (fun _ => inv) (fun _ => hstep) [] _ hs hcond hrun

theorem run?_invariant {step : state -> action -> Option state}
    {inv : state -> Prop} (hstep : forall s a s', inv s -> step s a = some s' -> inv s')
    {s t : state} {actions : List action}
    (hs : inv s) (hrun : run? step s actions = some t) : inv t :=
  @run?_history _ _ _ (fun _ => inv) (fun _ => hstep) [] _ _ _ hs hrun

/-!
# Conditions on the entries of a log

A condition on each entry of a log may speak of everything logged before it.  It is checked
entry by entry as the log grows, and says what holds wherever the log can be cut.
-/

variable {entry : Type*}

def EachFrom (cond : List entry -> entry -> Prop) : List entry -> List entry -> Prop
  | _, [] => True
  | before, e :: rest => cond before e ∧ EachFrom cond (before ++ [e]) rest

abbrev Each (cond : List entry -> entry -> Prop) (log : List entry) : Prop :=
  EachFrom cond [] log

instance EachFrom.decidable {cond : List entry -> entry -> Prop}
    [forall before e, Decidable (cond before e)] :
    forall before log, Decidable (EachFrom cond before log)
  | _, [] => isTrue trivial
  | before, e :: rest =>
      haveI : Decidable (EachFrom cond (before ++ [e]) rest) :=
        EachFrom.decidable (before ++ [e]) rest
      inferInstanceAs (Decidable (cond before e ∧ EachFrom cond (before ++ [e]) rest))

variable {cond : List entry -> entry -> Prop}

theorem eachFrom_append {before front back : List entry} :
    EachFrom cond before (front ++ back) <->
      EachFrom cond before front ∧ EachFrom cond (before ++ front) back := by
  induction front generalizing before with
  | nil =>
      rw [nil_append, append_nil]
      exact ⟨fun h => ⟨trivial, h⟩, fun h => h.right⟩
  | cons e rest ih =>
      have hsplit : before ++ e :: rest = before ++ [e] ++ rest := by simp
      rw [hsplit]
      constructor
      · rintro ⟨hfirst, hrest⟩
        rcases ih.mp hrest with ⟨hfront, hback⟩
        exact ⟨⟨hfirst, hfront⟩, hback⟩
      · rintro ⟨⟨hfirst, hfront⟩, hback⟩
        exact ⟨hfirst, ih.mpr ⟨hfront, hback⟩⟩

theorem each_append {front back : List entry} :
    Each cond (front ++ back) <-> Each cond front ∧ EachFrom cond front back :=
  eachFrom_append

theorem eachFrom_of_forall {before log : List entry}
    (h : forall front e, e ∈ log -> cond (before ++ front) e) : EachFrom cond before log := by
  induction log generalizing before with
  | nil => trivial
  | cons e rest ih =>
      constructor
      · have hfirst := h [] e mem_cons_self
        rw [append_nil] at hfirst
        exact hfirst
      · apply ih
        intro front e' he'
        rw [append_assoc]
        exact h _ e' (mem_cons_of_mem _ he')

end Rabbithole.Foundation
