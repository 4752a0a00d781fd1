import Rabbithole.Foundation.Memo
import Rabbithole.Foundation.Run
import Rabbithole.Permissions.Acl

/-!
# The permission evaluator

A subject's base capabilities come from its role, its class and its account; the
nearest level of the resource that has a rule for the subject overrides them.
Answers are kept under everything they depend on, and dropped when a rule changes.
-/

namespace Rabbithole.Permissions

open Foundation List

namespace Caps

def see : Caps := 1 <<< 0
def who : Caps := 1 <<< 1
def chatRead : Caps := 1 <<< 8
def chatSend : Caps := 1 <<< 9
def chatCreateRoom : Caps := 1 <<< 10
def chatModerate : Caps := 1 <<< 11
def dmSend : Caps := 1 <<< 16
def boardRead : Caps := 1 <<< 20
def boardPost : Caps := 1 <<< 21
def boardModerate : Caps := 1 <<< 22
def fileList : Caps := 1 <<< 28
def fileDownload : Caps := 1 <<< 29
def fileUpload : Caps := 1 <<< 30
def fileManage : Caps := 1 <<< 31
def dropboxView : Caps := 1 <<< 32
def swarmAdvertise : Caps := 1 <<< 40
def doorRun : Caps := 1 <<< 44
def userKick : Caps := 1 <<< 48
def userBan : Caps := 1 <<< 49
def accountAdmin : Caps := 1 <<< 50
def configAdmin : Caps := 1 <<< 51
def broadcast : Caps := 1 <<< 52
def auditRead : Caps := 1 <<< 53
def moderate : Caps := 1 <<< 54

end Caps

namespace Role

def ordinal : Role -> BitVec 8
  | guest => 0
  | user => 1
  | moderator => 2
  | admin => 3
  | superuser => 4

/-- The default mask of a role. -/
def defaultCaps (role : Role) : Caps :=
  let guestCaps := Caps.see ||| Caps.who ||| Caps.chatRead ||| Caps.chatSend |||
    Caps.boardRead ||| Caps.fileList
  let userCaps := guestCaps ||| Caps.dmSend ||| Caps.boardPost ||| Caps.fileDownload |||
    Caps.fileUpload ||| Caps.chatCreateRoom ||| Caps.swarmAdvertise ||| Caps.doorRun
  let moderatorCaps := userCaps ||| Caps.chatModerate ||| Caps.boardModerate |||
    Caps.userKick ||| Caps.dropboxView ||| Caps.auditRead ||| Caps.moderate
  let adminCaps := moderatorCaps ||| Caps.userBan ||| Caps.accountAdmin |||
    Caps.configAdmin ||| Caps.broadcast ||| Caps.fileManage
  match role with
  | guest => guestCaps
  | user => userCaps
  | moderator => moderatorCaps
  | admin => adminCaps
  | superuser => BitVec.allOnes 64

end Role

/-- The identity facts evaluation needs. -/
structure Subject where
  accountId : Int
  role : Role
  classId : Option Int
  classMask : Caps
  grantMask : Caps
  revokeMask : Caps
deriving DecidableEq

/-- What an answer is kept under. -/
structure CacheKey where
  accountId : Int
  baseCaps : Caps
  role : BitVec 8
  classId : Int
  resource : Path
deriving DecidableEq

namespace Subject

/-- The mask before any rule: role, class, account; a superuser has everything. -/
def baseCaps (subject : Subject) : Caps :=
  if subject.role = .superuser then BitVec.allOnes 64
  else
    (subject.role.defaultCaps ||| subject.classMask ||| subject.grantMask) &&&
      ~~~subject.revokeMask

def principals (subject : Subject) : List Principal :=
  [.everyone, .role subject.role, .account subject.accountId] ++
    (match subject.classId with
    | some c => [.class_ c]
    | none => [])

def cacheKey (subject : Subject) (resource : Path) : CacheKey where
  accountId := subject.accountId
  baseCaps := subject.baseCaps
  role := subject.role.ordinal
  classId := subject.classId.getD (-1)
  resource := resource

end Subject

structure PermissionEvaluator where
  acl : AclTable
  generation : BitVec 64
  cache : Memo CacheKey (BitVec 64) Caps

namespace PermissionEvaluator

def new : PermissionEvaluator where
  acl := AclTable.empty
  generation := 0
  cache := Memo.cleared

def invalidate (evaluator : PermissionEvaluator) : PermissionEvaluator :=
  { evaluator with generation := evaluator.generation + 1, cache := Memo.cleared }

def replaceTable (evaluator : PermissionEvaluator) (acl : AclTable) : PermissionEvaluator :=
  invalidate { evaluator with acl := acl }

def insertRule (evaluator : PermissionEvaluator) (resource : Path) (principal : Principal)
    (rule : AclRule) : PermissionEvaluator :=
  invalidate { evaluator with acl := evaluator.acl.insert resource principal rule }

/-- The first level with a matching rule decides; deny wins there. -/
def walk (acl : AclTable) (principals : List Principal) (caps : Caps) : List Path -> Caps
  | [] => caps
  | level :: rest =>
      match acl.levelRule level principals with
      | some rule => (caps ||| rule.allow) &&& ~~~rule.deny
      | none => walk acl principals caps rest

/-- The effective capabilities of a subject on a resource. -/
def effective (evaluator : PermissionEvaluator) (subject : Subject) (resource : Path) :
    Caps × PermissionEvaluator :=
  if subject.role = .superuser then (BitVec.allOnes 64, evaluator)
  else
    let key := subject.cacheKey resource
    match evaluator.cache.current evaluator.generation key with
    | some caps => (caps, evaluator)
    | none =>
        let caps := walk evaluator.acl subject.principals subject.baseCaps (ancestors resource)
        (caps, { evaluator with
          cache := evaluator.cache.insert key (evaluator.generation, caps) })

end PermissionEvaluator

/-!
## Runs

Any sequence of changes and questions.  A table handed to the evaluator as a whole
was built by inserts, as there is no other way to build one.
-/

inductive Op where
  | insertRule (grant : Grant)
  | replaceTable (grants : List Grant)
  | effective (subject : Subject) (resource : Path)

def Op.run (evaluator : PermissionEvaluator) : Op -> PermissionEvaluator
  | .insertRule grant => evaluator.insertRule grant.resource grant.principal grant.rule
  | .replaceTable grants => evaluator.replaceTable (AclTable.ofGrants grants)
  | .effective subject resource => (evaluator.effective subject resource).snd

def step (evaluator : PermissionEvaluator) (op : Op) : Option PermissionEvaluator :=
  some (op.run evaluator)

/-- The inserts in force after an operation. -/
def Op.grants (inForce : List Grant) : Op -> List Grant
  | .insertRule grant => inForce ++ [grant]
  | .replaceTable grants => grants
  | .effective _ _ => inForce

def inForce (ops : List Op) : List Grant :=
  ops.foldl Op.grants []

/-!
## The uncached rule
-/

namespace Subject

/-- The principals a subject's rules are for. -/
def Matches (subject : Subject) : Principal -> Prop
  | .everyone => True
  | .role role => role = subject.role
  | .class_ id => subject.classId = some id
  | .account id => id = subject.accountId

/-- A class id, when there is one, is not negative. -/
def ClassIdNonneg (subject : Subject) : Prop :=
  forall id, subject.classId = some id -> 0 <= id

end Subject

/-- A level has a rule in force for the subject. -/
def HasRule (grants : List Grant) (subject : Subject) (level : Path) : Prop :=
  exists p r, subject.Matches p ∧ lastRule grants level p = some r

/-- The nearest level of a resource that has a rule in force for the subject. -/
def Nearest (grants : List Grant) (subject : Subject) (resource level : Path) : Prop :=
  IsLevel level resource ∧ HasRule grants subject level ∧
    forall other, IsLevel other resource -> HasRule grants subject other ->
      other.length <= level.length

/-- The base with what the level's rules allow added, and what they deny removed. -/
def Overridden (grants : List Grant) (subject : Subject) (level : Path) (caps : Caps) : Prop :=
  forall i, caps.getLsbD i = true <->
    (subject.baseCaps.getLsbD i = true ∨
      exists p r, subject.Matches p ∧ lastRule grants level p = some r ∧
        r.allow.getLsbD i = true) ∧
    ¬ exists p r, subject.Matches p ∧ lastRule grants level p = some r ∧
        r.deny.getLsbD i = true

/-- What the rules in force say a subject may do on a resource. -/
def Entitled (grants : List Grant) (subject : Subject) (resource : Path) (caps : Caps) : Prop :=
  if subject.role = .superuser then caps = BitVec.allOnes 64
  else
    (exists level, Nearest grants subject resource level ∧
      Overridden grants subject level caps) ∨
    ((forall level, IsLevel level resource -> ¬ HasRule grants subject level) ∧
      caps = subject.baseCaps)

variable {subject : Subject} {grants : List Grant} {resource : Path}
  {evaluator : PermissionEvaluator}

theorem Subject.mem_principals {p : Principal} : p ∈ subject.principals <-> subject.Matches p := by
  unfold Subject.principals Subject.Matches
  cases p with
  | everyone =>
      simp
  | role role | account id =>
      cases subject.classId <;> simp
  | class_ id =>
      cases subject.classId with
      | none =>
          simp
      | some c =>
          simp [eq_comm]

theorem levelRule_none_iff {level : Path} :
    (AclTable.ofGrants grants).levelRule level subject.principals = none <->
      ¬ HasRule grants subject level := by
  rw [AclTable.levelRule_none]
  constructor
  · intro h hrule
    rcases hrule with ⟨p, r, hmatches, hlast⟩
    rw [h p (Subject.mem_principals.mpr hmatches)] at hlast
    cases hlast
  · intro h p hp
    cases hlast : lastRule grants level p with
    | none =>
        rfl
    | some r =>
        exact absurd ⟨p, r, Subject.mem_principals.mp hp, hlast⟩ h

theorem overridden_of_levelRule {level : Path} {rule : AclRule}
    (h : (AclTable.ofGrants grants).levelRule level subject.principals = some rule) :
    Overridden grants subject level ((subject.baseCaps ||| rule.allow) &&& ~~~rule.deny) := by
  intro i
  have hallow := AclTable.levelRule_bit AclRule.allow (i := i) (fun _ _ => rfl) rfl h
  have hdeny := AclTable.levelRule_bit AclRule.deny (i := i) (fun _ _ => rfl) rfl h
  simp only [Subject.mem_principals] at hallow hdeny
  rw [← hallow, ← hdeny]
  rw [BitVec.getLsbD_and, BitVec.getLsbD_or, BitVec.getLsbD_not]
  by_cases hi : i < 64
  · simp [hi]
  · have hbase := BitVec.getLsbD_of_ge subject.baseCaps i (Nat.le_of_not_lt hi)
    have hrule := BitVec.getLsbD_of_ge rule.allow i (Nat.le_of_not_lt hi)
    simp [hbase, hrule]

theorem walk_cases (acl : AclTable) (principals : List Principal) (caps : Caps)
    (levels : List Path) :
    ((forall level, level ∈ levels -> acl.levelRule level principals = none) ∧
      PermissionEvaluator.walk acl principals caps levels = caps) ∨
    (exists front level rest rule, levels = front ++ level :: rest ∧
      (forall near, near ∈ front -> acl.levelRule near principals = none) ∧
      acl.levelRule level principals = some rule ∧
      PermissionEvaluator.walk acl principals caps levels =
        (caps ||| rule.allow) &&& ~~~rule.deny) := by
  induction levels with
  | nil =>
      left
      exact ⟨by simp, rfl⟩
  | cons first rest ih =>
      unfold PermissionEvaluator.walk
      cases hfirst : acl.levelRule first principals with
      | some rule =>
          right
          exact ⟨[], first, rest, rule, rfl, by simp, hfirst, rfl⟩
      | none =>
          rcases ih with ⟨hnone, hwalk⟩ | ⟨front, level, back, rule, heq, hfront, hlevel, hwalk⟩
          · left
            refine ⟨?_, hwalk⟩
            intro level hmem
            rcases mem_cons.mp hmem with heq | hrest
            · rw [heq]
              exact hfirst
            · exact hnone level hrest
          · right
            refine ⟨first :: front, level, back, rule, by rw [heq]; rfl, ?_, hlevel, hwalk⟩
            intro near hmem
            rcases mem_cons.mp hmem with heq | hmem
            · rw [heq]
              exact hfirst
            · exact hfront near hmem

theorem entitled_walk (hrole : subject.role ≠ .superuser) : Entitled grants subject resource
      (PermissionEvaluator.walk (AclTable.ofGrants grants) subject.principals
        subject.baseCaps (ancestors resource)) := by
  unfold Entitled
  rw [if_neg hrole]
  rcases walk_cases (AclTable.ofGrants grants) subject.principals subject.baseCaps
    (ancestors resource) with
    ⟨hnone, hwalk⟩ | ⟨front, level, rest, rule, heq, hfront, hlevel, hwalk⟩
  · right
    refine ⟨?_, hwalk⟩
    intro level hisLevel
    exact levelRule_none_iff.mp (hnone level (mem_ancestors.mpr hisLevel))
  · left
    refine ⟨level, ⟨?_, ?_, ?_⟩, ?_⟩
    · rw [← mem_ancestors, heq]
      simp
    · by_contra hno
      rw [levelRule_none_iff.mpr hno] at hlevel
      cases hlevel
    · intro other hother hrule
      rw [← mem_ancestors, heq] at hother
      have hsorted := ancestors_pairwise resource
      rw [heq, pairwise_append, pairwise_cons] at hsorted
      rcases mem_append.mp hother with hmem | hmem
      · exact absurd hrule (levelRule_none_iff.mp (hfront other hmem))
      · rcases mem_cons.mp hmem with hsame | hfar
        · exact Nat.le_of_eq (congrArg List.length hsame)
        · exact Nat.le_of_lt (hsorted.right.left.left other hfar)
    · rw [hwalk]
      exact overridden_of_levelRule hlevel

theorem Nearest.unique {a b : Path} (ha : Nearest grants subject resource a)
    (hb : Nearest grants subject resource b) : a = b := by
  have hlength : a.length = b.length :=
    Nat.le_antisymm (hb.right.right a ha.left ha.right.left)
      (ha.right.right b hb.left hb.right.left)
  exact (prefix_of_prefix_length_le ha.left.isPrefix hb.left.isPrefix
    (Nat.le_of_eq hlength)).eq_of_length hlength

theorem Entitled.unique {caps caps' : Caps} (h : Entitled grants subject resource caps)
    (h' : Entitled grants subject resource caps') : caps = caps' := by
  unfold Entitled at h h'
  split at h
  · rename_i hrole
    rw [if_pos hrole] at h'
    rw [h, h']
  · rename_i hrole
    rw [if_neg hrole] at h'
    rcases h with ⟨level, hnearest, hcaps⟩ | ⟨hnone, hcaps⟩
    · rcases h' with ⟨level', hnearest', hcaps'⟩ | ⟨hnone', _⟩
      · rw [hnearest'.unique hnearest] at hcaps'
        apply BitVec.eq_of_getLsbD_eq
        intro i _
        rw [Bool.eq_iff_iff, hcaps i, hcaps' i]
      · exact absurd hnearest.right.left (hnone' level hnearest.left)
    · rcases h' with ⟨level', hnearest', _⟩ | ⟨_, hcaps'⟩
      · exact absurd hnearest'.right.left (hnone level' hnearest'.left)
      · rw [hcaps, hcaps']

/-!
## The cache
-/

theorem Role.ordinal_injective {a b : Role} (h : a.ordinal = b.ordinal) : a = b := by
  revert h
  cases a <;> cases b <;> decide

/-- A question that reaches the cache. -/
def Cacheable (question : Subject × Path) : Prop :=
  question.fst.ClassIdNonneg

def keyOf (question : Subject × Path) : CacheKey :=
  question.fst.cacheKey question.snd

def answerFrom (acl : AclTable) (question : Subject × Path) : Caps :=
  PermissionEvaluator.walk acl question.fst.principals question.fst.baseCaps
    (ancestors question.snd)

theorem classId_of_getD {a b : Subject} (ha : a.ClassIdNonneg) (hb : b.ClassIdNonneg)
    (h : a.classId.getD (-1) = b.classId.getD (-1)) : a.classId = b.classId := by
  unfold Subject.ClassIdNonneg at ha hb
  cases hca : a.classId with
  | none =>
      cases hcb : b.classId with
      | none =>
          rfl
      | some cb =>
          have hnonneg := hb cb hcb
          rw [hca, hcb] at h
          simp only [Option.getD_none, Option.getD_some] at h
          omega
  | some ca =>
      have hnonneg := ha ca hca
      cases hcb : b.classId with
      | none =>
          rw [hca, hcb] at h
          simp only [Option.getD_none, Option.getD_some] at h
          omega
      | some cb =>
          rw [hca, hcb] at h
          exact congrArg some h

theorem answerFrom_of_key (acl : AclTable) {a b : Subject × Path} (ha : Cacheable a)
    (hb : Cacheable b) (h : keyOf a = keyOf b) : answerFrom acl a = answerFrom acl b := by
  unfold keyOf Subject.cacheKey at h
  simp only [CacheKey.mk.injEq] at h
  rcases h with ⟨haccount, hbase, hrole, hclass, hresource⟩
  have hrole := Role.ordinal_injective hrole
  have hclass := classId_of_getD ha hb hclass
  have hprincipals : a.fst.principals = b.fst.principals := by
    unfold Subject.principals
    rw [haccount, hrole, hclass]
  unfold answerFrom
  rw [hprincipals, hbase, hresource]

/-- What holds between operations. -/
structure InStep (grants : List Grant) (evaluator : PermissionEvaluator) : Prop where
  acl : evaluator.acl = AclTable.ofGrants grants
  cache : Memo.Sound Cacheable keyOf (answerFrom evaluator.acl) evaluator.generation
    evaluator.cache

theorem InStep.effective (h : InStep grants evaluator) (hclass : subject.ClassIdNonneg)
    (resource : Path) :
    Entitled grants subject resource (evaluator.effective subject resource).fst ∧
      InStep grants (evaluator.effective subject resource).snd := by
  unfold PermissionEvaluator.effective
  by_cases hrole : subject.role = .superuser
  · rw [if_pos hrole]
    refine ⟨?_, h⟩
    unfold Entitled
    rw [if_pos hrole]
  · have hentitled : Entitled grants subject resource
        (answerFrom evaluator.acl (subject, resource)) := by
      unfold answerFrom
      rw [h.acl]
      exact entitled_walk hrole
    rw [if_neg hrole]
    simp only []
    cases hcached : evaluator.cache.current evaluator.generation
        (subject.cacheKey resource) with
    | some caps =>
        refine ⟨?_, h⟩
        have hanswer := h.cache (subject, resource) hclass caps hcached
        rw [hanswer]
        exact hentitled
    | none =>
        refine ⟨hentitled, h.acl, ?_⟩
        apply h.cache.insert (x := (subject, resource))
        intro other hother hkey
        exact answerFrom_of_key evaluator.acl hother hclass hkey

theorem InStep.invalidate (h : evaluator.acl = AclTable.ofGrants grants) :
    InStep grants evaluator.invalidate where
  acl := h
  cache := Memo.sound_cleared

/-- The questions of a run are for subjects with no negative class id. -/
def Op.ClassIdNonneg : Op -> Prop
  | .effective subject _ => subject.ClassIdNonneg
  | _ => True

theorem InStep.step {past : List Op} {evaluator' : PermissionEvaluator} {op : Op}
    (h : InStep (inForce past) evaluator) (hclass : op.ClassIdNonneg)
    (hstep : step evaluator op = some evaluator') : InStep (inForce (past ++ [op])) evaluator' := by
  have hforce : inForce (past ++ [op]) = op.grants (inForce past) := by
    unfold inForce
    rw [foldl_append]
    rfl
  rw [hforce]
  cases hstep
  cases op with
  | insertRule grant =>
      apply InStep.invalidate
      show evaluator.acl.insert grant.resource grant.principal grant.rule =
        AclTable.ofGrants (inForce past ++ [grant])
      rw [AclTable.ofGrants_append, h.acl]
  | replaceTable grants =>
      exact InStep.invalidate rfl
  | effective subject resource =>
      exact (h.effective hclass resource).right

/--
After every run of inserts, replacements and questions, a question is answered with
exactly what the rules in force at that moment say, whatever was asked before.
-/
theorem effective_follows_rules_in_force {ops : List Op} {evaluator : PermissionEvaluator}
    {subject : Subject} (resource : Path) (hops : forall op, op ∈ ops -> op.ClassIdNonneg)
    (hrun : run? step PermissionEvaluator.new ops = some evaluator)
    (hclass : subject.ClassIdNonneg) (caps : Caps) :
    (evaluator.effective subject resource).fst = caps <->
      Entitled (inForce ops) subject resource caps := by
  have hstart : InStep (inForce []) PermissionEvaluator.new :=
    { acl := rfl, cache := Memo.sound_cleared }
  have halong : Along step (fun _ op => op.ClassIdNonneg) PermissionEvaluator.new ops :=
    along_of_invariant (fun _ => True) (fun _ _ _ _ _ => trivial)
      (fun _ op hop _ => hops op hop) trivial
  have hend := run?_history_along (fun past evaluator => InStep (inForce past) evaluator)
    (fun _ _ _ _ h hclass hstep => h.step hclass hstep) hstart halong hrun
  rw [nil_append] at hend
  have hentitled := (hend.effective hclass resource).left
  constructor
  · intro heq
    rw [← heq]
    exact hentitled
  · intro hcaps
    exact hentitled.unique hcaps

/-- A member of class 3. -/
def member : Subject where
  accountId := 7
  role := .user
  classId := some 3
  classMask := 0
  grantMask := 0
  revokeMask := 0

/-- Asked, refused the class on a folder, allowed everyone deeper in, and asked again. -/
def askedBetweenRules : List Op :=
  [.effective member "files/new/a".toList,
    .insertRule
      { resource := "files".toList
        principal := .class_ 3
        rule := { allow := 0, deny := Caps.fileDownload } },
    .effective member "files/new/a".toList,
    .insertRule
      { resource := "files/new".toList
        principal := .everyone
        rule := { allow := Caps.dropboxView, deny := 0 } }]

theorem effective_follows_rules_in_force_member :
    exists evaluator, run? step PermissionEvaluator.new askedBetweenRules = some evaluator ∧
      Entitled (inForce askedBetweenRules) member "files/new/a".toList
        (evaluator.effective member "files/new/a".toList).fst := by
  have hmember : member.ClassIdNonneg := by
    intro id hid
    cases hid
    decide
  have hops : forall op, op ∈ askedBetweenRules -> op.ClassIdNonneg := by
    intro op hop
    simp only [askedBetweenRules, mem_cons, not_mem_nil, or_false] at hop
    rcases hop with rfl | rfl | rfl | rfl
    · exact hmember
    · trivial
    · exact hmember
    · trivial
  exact ⟨_, rfl, (effective_follows_rules_in_force _ hops rfl hmember _).mp rfl⟩

end Rabbithole.Permissions
