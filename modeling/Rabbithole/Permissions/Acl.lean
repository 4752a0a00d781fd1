import Mathlib.Data.List.Induction

/-!
# Access rules

Rules stand on `/`-separated paths, each for one principal, whose rule at a path is the one
inserted last.  The levels of a path are the path itself, its prefixes cut at a `/`, and the
root.
-/

namespace Rabbithole.Permissions

open List

/-- Capability bits. -/
abbrev Caps := BitVec 64

inductive Role where
  | guest
  | user
  | moderator
  | admin
  | superuser
deriving DecidableEq

inductive Principal where
  | everyone
  | role (role : Role)
  | class_ (id : Int)
  | account (id : Int)
deriving DecidableEq

/-- Allow these bits, deny those. -/
structure AclRule where
  allow : Caps
  deny : Caps
deriving DecidableEq

def AclRule.default : AclRule where
  allow := 0
  deny := 0

/-- A resource path, by its characters. -/
abbrev Path := List Char

abbrev Entries := List (Principal × AclRule)

structure AclTable where
  rules : Path -> Option Entries
  nodup : forall path entries, rules path = some entries ->
    (entries.map Prod.fst).Nodup

/-- Replace the rule of a principal, or add one at the end. -/
def Entries.put : Entries -> Principal -> AclRule -> Entries
  | [], principal, rule => [(principal, rule)]
  | (p, old) :: rest, principal, rule =>
      if p = principal then (p, rule) :: rest
      else (p, old) :: Entries.put rest principal rule

namespace Entries

theorem mem_keys_put {entries : Entries} {principal p : Principal} {rule : AclRule} :
    p ∈ (entries.put principal rule).map Prod.fst <->
      p = principal ∨ p ∈ entries.map Prod.fst := by
  induction entries with
  | nil =>
      simp [put]
  | cons entry rest ih =>
      rcases entry with ⟨q, old⟩
      simp only [put]
      split
      · rename_i heq
        subst heq
        simp
      · rw [map_cons, mem_cons, ih, map_cons, mem_cons]
        tauto

theorem nodup_put {entries : Entries} (h : (entries.map Prod.fst).Nodup)
    (principal : Principal) (rule : AclRule) :
    ((entries.put principal rule).map Prod.fst).Nodup := by
  induction entries with
  | nil =>
      simp [put]
  | cons entry rest ih =>
      rcases entry with ⟨q, old⟩
      rw [map_cons, nodup_cons] at h
      simp only [put]
      split
      · rw [map_cons, nodup_cons]
        exact h
      · rename_i hne
        rw [map_cons, nodup_cons]
        refine ⟨?_, ih h.right⟩
        intro hmem
        rcases mem_keys_put.mp hmem with heq | hold
        · exact hne heq
        · exact h.left hold

end Entries

namespace AclTable

def empty : AclTable where
  rules := fun _ => none
  nodup := by simp

/-- `AclTable::insert`. -/
def insert (acl : AclTable) (resource : Path) (principal : Principal) (rule : AclRule) :
    AclTable where
  rules := Function.update acl.rules resource
    (some (((acl.rules resource).getD []).put principal rule))
  nodup := by
    intro path entries h
    by_cases heq : path = resource
    · subst heq
      rw [Function.update_self] at h
      cases h
      apply Entries.nodup_put
      cases hold : acl.rules path with
      | none =>
          exact nodup_nil
      | some old =>
          exact acl.nodup path old hold
    · rw [Function.update_of_ne heq] at h
      exact acl.nodup path entries h

theorem rules_insert (acl : AclTable) (resource : Path) (principal : Principal) (rule : AclRule) :
    (acl.insert resource principal rule).rules = Function.update acl.rules resource
      (some (((acl.rules resource).getD []).put principal rule)) := rfl

theorem nodup_rules (acl : AclTable) (resource : Path) :
    (((acl.rules resource).getD []).map Prod.fst).Nodup := by
  cases hold : acl.rules resource with
  | none =>
      exact nodup_nil
  | some old =>
      exact acl.nodup resource old hold

/-- One entry of a level, added to the rule combined so far. -/
def addMatching (principals : List Principal) (combined : Option AclRule)
    (entry : Principal × AclRule) : Option AclRule :=
  if principals.contains entry.1 then
    let c := combined.getD AclRule.default
    some { allow := c.allow ||| entry.2.allow, deny := c.deny ||| entry.2.deny }
  else
    combined

/-- The combined rule of every entry at a level that matches; none if none does. -/
def levelRule (acl : AclTable) (resource : Path) (principals : List Principal) : Option AclRule :=
  match acl.rules resource with
  | none => none
  | some entries => entries.foldl (addMatching principals) none

end AclTable

/-!
## The rules in force
-/

/-- One insert of a rule. -/
structure Grant where
  resource : Path
  principal : Principal
  rule : AclRule
deriving DecidableEq

/-- The rule in force for a principal at a path: the one inserted last. -/
def lastRule (grants : List Grant) (resource : Path) (principal : Principal) : Option AclRule :=
  (grants.reverse.find? (fun g =>
    decide (g.resource = resource ∧ g.principal = principal))).map Grant.rule

def AclTable.ofGrants (grants : List Grant) : AclTable :=
  grants.foldl (fun acl g => acl.insert g.resource g.principal g.rule) AclTable.empty

theorem lastRule_append (grants : List Grant) (g : Grant) (resource : Path)
    (principal : Principal) :
    lastRule (grants ++ [g]) resource principal =
      if g.resource = resource ∧ g.principal = principal then some g.rule
      else lastRule grants resource principal := by
  unfold lastRule
  rw [reverse_append, reverse_singleton, singleton_append, find?_cons]
  by_cases h : g.resource = resource ∧ g.principal = principal
  · simp [h]
  · simp [h]

theorem AclTable.ofGrants_append (grants : List Grant) (g : Grant) :
    AclTable.ofGrants (grants ++ [g]) =
      (AclTable.ofGrants grants).insert g.resource g.principal g.rule := by
  unfold AclTable.ofGrants
  rw [foldl_append]
  rfl

variable {path level resource : Path} {principals : List Principal} {entries : Entries}
  {rule : AclRule} {grants : List Grant}

theorem Entries.mem_put (h : (entries.map Prod.fst).Nodup) {principal p : Principal} {r : AclRule} :
    (p, r) ∈ entries.put principal rule <->
      if p = principal then r = rule else (p, r) ∈ entries := by
  induction entries with
  | nil =>
      simp only [put, mem_singleton, Prod.mk.injEq]
      split
      · rename_i heq
        simp [heq]
      · rename_i hne
        simp [hne]
  | cons entry rest ih =>
      rcases entry with ⟨q, old⟩
      rw [map_cons, nodup_cons] at h
      have ih := ih h.right
      simp only [put]
      split
      · rename_i heq
        subst heq
        rw [mem_cons, Prod.mk.injEq]
        split
        · rename_i heq
          subst heq
          constructor
          · intro hmem
            rcases hmem with hnew | hold
            · exact hnew.right
            · exact absurd (mem_map.mpr ⟨_, hold, rfl⟩) h.left
          · intro hr
            exact Or.inl ⟨rfl, hr⟩
        · rename_i hne
          rw [mem_cons, Prod.mk.injEq]
          simp [hne]
      · rename_i hne
        rw [mem_cons, ih, Prod.mk.injEq]
        split
        · rename_i heq
          subst heq
          constructor
          · intro hmem
            rcases hmem with hfirst | hrest
            · exact absurd hfirst.left.symm hne
            · exact hrest
          · intro hr
            exact Or.inr hr
        · rw [mem_cons, Prod.mk.injEq]

theorem AclTable.mem_rules_iff {p : Principal} {r : AclRule} :
    (p, r) ∈ ((AclTable.ofGrants grants).rules resource).getD [] <->
      lastRule grants resource p = some r := by
  induction grants using List.reverseRecOn with
  | nil =>
      simp [AclTable.ofGrants, AclTable.empty, lastRule]
  | append_singleton grants g ih =>
      rw [lastRule_append, AclTable.ofGrants_append]
      by_cases hresource : resource = g.resource
      · subst hresource
        have hnodup := (AclTable.ofGrants grants).nodup_rules g.resource
        rw [AclTable.rules_insert, Function.update_self, Option.getD_some,
          Entries.mem_put hnodup, ih]
        by_cases hp : p = g.principal
        · simp [hp, eq_comm]
        · have hp' : ¬ g.principal = p := fun heq => hp heq.symm
          simp [hp, hp']
      · have hresource' : ¬ g.resource = resource := fun heq => hresource heq.symm
        rw [AclTable.rules_insert, Function.update_of_ne hresource, ih]
        simp [hresource']

/-!
## Combining the rules of a level
-/

theorem AclTable.foldl_addMatching_none {combined : Option AclRule} :
    entries.foldl (AclTable.addMatching principals) combined = none <->
      combined = none ∧ forall p r, (p, r) ∈ entries -> p ∉ principals := by
  induction entries generalizing combined with
  | nil =>
      simp
  | cons entry rest ih =>
      rcases entry with ⟨q, old⟩
      rw [foldl_cons, ih]
      unfold AclTable.addMatching
      by_cases hq : q ∈ principals
      · constructor
        · intro h
          simp [hq] at h
        · intro h
          exact absurd hq (h.right q old mem_cons_self)
      · simp only [contains_eq_mem, decide_eq_true_eq, if_neg hq]
        constructor
        · intro h
          refine ⟨h.left, ?_⟩
          intro p r hmem
          rcases mem_cons.mp hmem with heq | hrest
          · cases heq
            exact hq
          · exact h.right p r hrest
        · intro h
          exact ⟨h.left, fun p r hmem => h.right p r (mem_cons_of_mem _ hmem)⟩

/-- The bits of a combined rule are those of the entries that match. -/
theorem AclTable.foldl_addMatching_bit (bits : AclRule -> Caps) {combined : Option AclRule}
    {i : Nat} (hbits : forall c r : AclRule,
      bits { allow := c.allow ||| r.allow, deny := c.deny ||| r.deny } = bits c ||| bits r)
    (h : entries.foldl (AclTable.addMatching principals) combined = some rule) :
    (bits rule).getLsbD i = true <->
      (bits (combined.getD AclRule.default)).getLsbD i = true ∨
        exists p r, (p, r) ∈ entries ∧ p ∈ principals ∧ (bits r).getLsbD i = true := by
  induction entries generalizing combined with
  | nil =>
      rw [foldl_nil] at h
      rw [h]
      simp
  | cons entry rest ih =>
      rcases entry with ⟨q, old⟩
      rw [foldl_cons] at h
      rw [ih h]
      unfold AclTable.addMatching
      by_cases hq : q ∈ principals
      · simp only [contains_eq_mem, decide_eq_true_eq, if_pos hq, Option.getD_some, hbits,
          BitVec.getLsbD_or, Bool.or_eq_true]
        constructor
        · intro hbit
          rcases hbit with (hc | hold) | ⟨p, r, hmem, hp, hr⟩
          · exact Or.inl hc
          · exact Or.inr ⟨q, old, mem_cons_self, hq, hold⟩
          · exact Or.inr ⟨p, r, mem_cons_of_mem _ hmem, hp, hr⟩
        · intro hbit
          rcases hbit with hc | ⟨p, r, hmem, hp, hr⟩
          · exact Or.inl (Or.inl hc)
          · rcases mem_cons.mp hmem with heq | hrest
            · cases heq
              exact Or.inl (Or.inr hr)
            · exact Or.inr ⟨p, r, hrest, hp, hr⟩
      · simp only [contains_eq_mem, decide_eq_true_eq, if_neg hq]
        constructor
        · intro hbit
          rcases hbit with hc | ⟨p, r, hmem, hp, hr⟩
          · exact Or.inl hc
          · exact Or.inr ⟨p, r, mem_cons_of_mem _ hmem, hp, hr⟩
        · intro hbit
          rcases hbit with hc | ⟨p, r, hmem, hp, hr⟩
          · exact Or.inl hc
          · rcases mem_cons.mp hmem with heq | hrest
            · cases heq
              exact absurd hp hq
            · exact Or.inr ⟨p, r, hrest, hp, hr⟩

theorem AclTable.levelRule_eq (acl : AclTable) (resource : Path) (principals : List Principal) :
    acl.levelRule resource principals =
      ((acl.rules resource).getD []).foldl (AclTable.addMatching principals) none := by
  unfold AclTable.levelRule
  cases acl.rules resource with
  | none =>
      rfl
  | some entries =>
      rfl

theorem AclTable.levelRule_none :
    (AclTable.ofGrants grants).levelRule resource principals = none <->
      forall p, p ∈ principals -> lastRule grants resource p = none := by
  rw [AclTable.levelRule_eq, AclTable.foldl_addMatching_none]
  constructor
  · intro h p hp
    cases hlast : lastRule grants resource p with
    | none =>
        rfl
    | some r =>
        exact absurd hp (h.right p r (AclTable.mem_rules_iff.mpr hlast))
  · intro h
    refine ⟨rfl, ?_⟩
    intro p r hmem hp
    rw [AclTable.mem_rules_iff, h p hp] at hmem
    cases hmem

theorem AclTable.levelRule_bit (bits : AclRule -> Caps) {i : Nat} (hbits : forall c r : AclRule,
      bits { allow := c.allow ||| r.allow, deny := c.deny ||| r.deny } = bits c ||| bits r)
    (hnone : bits AclRule.default = 0)
    (h : (AclTable.ofGrants grants).levelRule resource principals = some rule) :
    (bits rule).getLsbD i = true <->
      exists p r, p ∈ principals ∧ lastRule grants resource p = some r ∧
        (bits r).getLsbD i = true := by
  rw [AclTable.levelRule_eq] at h
  rw [AclTable.foldl_addMatching_bit bits hbits h, Option.getD_none, hnone]
  constructor
  · intro hbit
    rcases hbit with hzero | ⟨p, r, hmem, hp, hr⟩
    · simp at hzero
    · exact ⟨p, r, hp, AclTable.mem_rules_iff.mp hmem, hr⟩
  · intro hbit
    rcases hbit with ⟨p, r, hp, hlast, hr⟩
    exact Or.inr ⟨p, r, AclTable.mem_rules_iff.mpr hlast, hp, hr⟩

/-!
## Levels of a path
-/

/-- `str::rfind`: where a character stands last. -/
def rfind (c : Char) : Path -> Option Nat
  | [] => none
  | d :: rest =>
      match rfind c rest with
      | some i => some (i + 1)
      | none => if d = c then some 0 else none

/-- The path up to its last `/`; the root when it has none. -/
def cut (path : Path) : Path :=
  match rfind '/' path with
  | none => []
  | some i => path.take i

/-- At most so many levels of a path, most specific first. -/
def ancestorsUpTo : Nat -> Path -> List Path
  | 0, path => [path]
  | bound + 1, path =>
      if path = [] then [path]
      else path :: ancestorsUpTo bound (cut path)

/-- `"a/b/c"` gives `["a/b/c", "a/b", "a", ""]`: a path has no more levels than characters. -/
def ancestors (path : Path) : List Path :=
  ancestorsUpTo path.length path

/-- A level of a path: itself, a prefix cut at a `/`, or the root. -/
def IsLevel (level path : Path) : Prop :=
  level = path ∨ level ++ ['/'] <+: path ∨ level = []

theorem rfind_none {c : Char} (h : rfind c path = none) : c ∉ path := by
  induction path with
  | nil =>
      exact not_mem_nil
  | cons d rest ih =>
      simp only [rfind] at h
      cases hrest : rfind c rest with
      | some i =>
          rw [hrest] at h
          cases h
      | none =>
          rw [hrest] at h
          intro hmem
          rcases mem_cons.mp hmem with heq | hmem
          · rw [heq] at h
            simp at h
          · exact ih hrest hmem

theorem rfind_some {c : Char} {i : Nat} (h : rfind c path = some i) :
    exists name, path = path.take i ++ c :: name ∧ c ∉ name := by
  induction path generalizing i with
  | nil =>
      cases h
  | cons d rest ih =>
      simp only [rfind] at h
      cases hrest : rfind c rest with
      | some j =>
          rw [hrest] at h
          cases h
          rcases ih hrest with ⟨name, hpath, hname⟩
          refine ⟨name, ?_, hname⟩
          rw [take_succ_cons, cons_append, ← hpath]
      | none =>
          rw [hrest] at h
          simp only [] at h
          split at h
          · rename_i heq
            cases h
            refine ⟨rest, ?_, rfind_none hrest⟩
            rw [heq]
            rfl
          · cases h

theorem cut_cases (path : Path) :
    (cut path = [] ∧ '/' ∉ path) ∨
      exists name, path = cut path ++ '/' :: name ∧ '/' ∉ name := by
  unfold cut
  cases hfound : rfind '/' path with
  | none =>
      exact Or.inl ⟨rfl, rfind_none hfound⟩
  | some i =>
      exact Or.inr (rfind_some hfound)

theorem cut_isPrefix (path : Path) : cut path <+: path := by
  rcases cut_cases path with ⟨hroot, _⟩ | ⟨name, hpath, _⟩
  · rw [hroot]
    exact nil_prefix
  · exact ⟨'/' :: name, hpath.symm⟩

theorem length_cut_lt (h : path ≠ []) : (cut path).length < path.length := by
  rcases cut_cases path with ⟨hroot, _⟩ | ⟨name, hpath, _⟩
  · rw [hroot]
    exact length_pos_iff.mpr h
  · calc
      (cut path).length < (cut path ++ '/' :: name).length := by simp
      _ = path.length := by rw [← hpath]

theorem ancestorsUpTo_nil (bound : Nat) : ancestorsUpTo bound [] = [[]] := by
  cases bound <;> rfl

theorem ancestorsUpTo_eq {bound bound' : Nat} (h : path.length <= bound)
    (h' : path.length <= bound') : ancestorsUpTo bound path = ancestorsUpTo bound' path := by
  induction bound generalizing path bound' with
  | zero =>
      have hroot : path = [] := length_eq_zero_iff.mp (Nat.le_zero.mp h)
      rw [hroot, ancestorsUpTo_nil, ancestorsUpTo_nil]
  | succ bound ih =>
      by_cases hroot : path = []
      · rw [hroot, ancestorsUpTo_nil, ancestorsUpTo_nil]
      · have hcut := length_cut_lt hroot
        cases bound' with
        | zero =>
            exact absurd (length_eq_zero_iff.mp (Nat.le_zero.mp h')) hroot
        | succ bound' =>
            simp only [ancestorsUpTo, if_neg hroot]
            rw [ih (Nat.le_of_lt_succ (Nat.lt_of_lt_of_le hcut h))
              (Nat.le_of_lt_succ (Nat.lt_of_lt_of_le hcut h'))]

theorem ancestors_nil : ancestors [] = [[]] := rfl

theorem ancestors_of_ne (h : path ≠ []) : ancestors path = path :: ancestors (cut path) := by
  have hcut := length_cut_lt h
  unfold ancestors
  cases hlength : path.length with
  | zero =>
      exact absurd (length_eq_zero_iff.mp hlength) h
  | succ n =>
      rw [hlength] at hcut
      simp only [ancestorsUpTo, if_neg h]
      rw [ancestorsUpTo_eq (Nat.le_of_lt_succ hcut) (Nat.le_refl _)]

theorem path_induction {motive : Path -> Prop} (root : motive [])
    (step : forall path, path ≠ [] -> motive (cut path) -> motive path) (path : Path) :
    motive path := by
  have hbound : forall n (path : Path), path.length <= n -> motive path := by
    intro n
    induction n with
    | zero =>
        intro path h
        rw [length_eq_zero_iff.mp (Nat.le_zero.mp h)]
        exact root
    | succ n ih =>
        intro path h
        by_cases hroot : path = []
        · rw [hroot]
          exact root
        · apply step path hroot
          apply ih
          exact Nat.le_of_lt_succ (Nat.lt_of_lt_of_le (length_cut_lt hroot) h)
  exact hbound path.length path (Nat.le_refl _)

theorem IsLevel.isPrefix (h : IsLevel level path) : level <+: path := by
  rcases h with heq | hpre | hroot
  · subst heq
    exact prefix_rfl
  · exact (prefix_append level ['/']).trans hpre
  · rw [hroot]
    exact nil_prefix

theorem IsLevel.length_le (h : IsLevel level path) : level.length <= path.length :=
  h.isPrefix.length_le

theorem isLevel_of_prefix {front name : Path} (hpre : level ++ ['/'] <+: path)
    (hsplit : path = front ++ '/' :: name) (hname : '/' ∉ name) : IsLevel level front := by
  have hfront : front <+: path := ⟨'/' :: name, hsplit.symm⟩
  have hlevel : level <+: path := (prefix_append level ['/']).trans hpre
  rcases Nat.lt_trichotomy level.length front.length with hlt | heq | hgt
  · refine Or.inr (Or.inl (prefix_of_prefix_length_le hpre hfront ?_))
    rw [length_append]
    exact hlt
  · left
    exact (prefix_of_prefix_length_le hlevel hfront (Nat.le_of_eq heq)).eq_of_length heq
  · exfalso
    rcases prefix_of_prefix_length_le hfront hlevel (Nat.le_of_lt hgt) with ⟨rest, hrest⟩
    rcases hpre with ⟨tail, htail⟩
    rw [← hrest, hsplit, append_assoc, append_assoc] at htail
    have hsame := append_cancel_left htail
    cases rest with
    | nil =>
        rw [← hrest, append_nil] at hgt
        exact absurd hgt (Nat.lt_irrefl _)
    | cons c rest =>
        rw [cons_append, List.cons.injEq] at hsame
        apply hname
        rw [← hsame.right]
        simp

theorem isLevel_cut_iff (hne : level ≠ path) : IsLevel level (cut path) <-> IsLevel level path := by
  constructor
  · intro h
    rcases h with heq | hpre | hroot
    · rcases cut_cases path with ⟨hcut, _⟩ | ⟨name, hsplit, _⟩
      · exact Or.inr (Or.inr (heq.trans hcut))
      · refine Or.inr (Or.inl ⟨name, ?_⟩)
        rw [heq, append_assoc, singleton_append]
        exact hsplit.symm
    · exact Or.inr (Or.inl (hpre.trans (cut_isPrefix path)))
    · exact Or.inr (Or.inr hroot)
  · intro h
    rcases h with heq | hpre | hroot
    · exact absurd heq hne
    · rcases cut_cases path with ⟨_, hslash⟩ | ⟨name, hsplit, hname⟩
      · exfalso
        apply hslash
        exact hpre.subset (by simp)
      · exact isLevel_of_prefix hpre hsplit hname
    · exact Or.inr (Or.inr hroot)

theorem mem_ancestors : level ∈ ancestors path <-> IsLevel level path := by
  induction path using path_induction with
  | root =>
      rw [ancestors_nil, mem_singleton]
      constructor
      · intro h
        exact Or.inl h
      · intro h
        exact length_eq_zero_iff.mp (Nat.le_zero.mp h.length_le)
  | step path hpath ih =>
      rw [ancestors_of_ne hpath, mem_cons, ih]
      by_cases heq : level = path
      · constructor
        all_goals
          intro _
          exact Or.inl heq
      · rw [isLevel_cut_iff heq]
        constructor
        · intro h
          exact h.resolve_left heq
        · intro h
          exact Or.inr h

theorem ancestors_pairwise (path : Path) :
    (ancestors path).Pairwise (fun near far => far.length < near.length) := by
  induction path using path_induction with
  | root =>
      exact pairwise_singleton _ _
  | step path hpath ih =>
      rw [ancestors_of_ne hpath, pairwise_cons]
      refine ⟨?_, ih⟩
      intro level hlevel
      exact Nat.lt_of_le_of_lt (mem_ancestors.mp hlevel).length_le (length_cut_lt hpath)

end Rabbithole.Permissions
