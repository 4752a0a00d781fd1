import Mathlib.Data.List.Infix

/-!
# Chains of keys

A chain key gives the next one and a key for one message.  Ideally neither tells two chain
keys apart that are not the same; then a chain that does not come round gives every message
a key of its own, and two chains that do not meet give them different ones.
-/

namespace Rabbithole.Foundation

structure ChainKdf (chain key : Type*) where
  derive : chain -> chain × key

namespace ChainKdf

variable {chain key label : Type*}

def next (kdf : ChainKdf chain key) (ck : chain) : chain :=
  (kdf.derive ck).fst

def messageKey (kdf : ChainKdf chain key) (ck : chain) : key :=
  (kdf.derive ck).snd

structure Ideal (kdf : ChainKdf chain key) : Prop where
  next_injective : Function.Injective kdf.next
  messageKey_injective : Function.Injective kdf.messageKey

def after (kdf : ChainKdf chain key) : Nat -> chain -> chain
  | 0, ck => ck
  | n + 1, ck => kdf.after n (kdf.next ck)

variable {kdf : ChainKdf chain key}

@[simp] theorem after_zero (ck : chain) : kdf.after 0 ck = ck := rfl

theorem after_add (m n : Nat) (ck : chain) :
    kdf.after (m + n) ck = kdf.after n (kdf.after m ck) := by
  induction m generalizing ck with
  | zero =>
      rw [Nat.zero_add]
      rfl
  | succ m ih =>
      rw [Nat.add_right_comm]
      exact ih (kdf.next ck)

theorem next_after (n : Nat) (ck : chain) : kdf.next (kdf.after n ck) = kdf.after (n + 1) ck :=
  (after_add n 1 ck).symm

theorem after_injective (hideal : kdf.Ideal) (n : Nat) : Function.Injective (kdf.after n) := by
  induction n with
  | zero => exact Function.injective_id
  | succ n ih => exact fun a b heq => hideal.next_injective (ih heq)

/-- The chain never comes round. -/
def Endless (kdf : ChainKdf chain key) (ck : chain) : Prop :=
  forall n, kdf.after (n + 1) ck ≠ ck

variable {ck : chain}

theorem after_inj (hideal : kdf.Ideal) (hendless : kdf.Endless ck) {m n : Nat}
    (heq : kdf.after m ck = kdf.after n ck) : m = n := by
  have hlt : forall {m n}, kdf.after m ck = kdf.after n ck -> ¬ m < n := by
    intro m n heq hlt
    rcases Nat.exists_eq_add_of_lt hlt with ⟨d, rfl⟩
    apply hendless d
    apply after_injective hideal m
    rw [← after_add, heq, Nat.add_right_comm, Nat.add_comm m]
  rcases Nat.lt_trichotomy m n with hless | hsame | hmore
  · exact absurd hless (hlt heq)
  · exact hsame
  · exact absurd hmore (hlt heq.symm)

/-- Neither chain is further along the other. -/
def Apart (kdf : ChainKdf chain key) (ck ck' : chain) : Prop :=
  forall n, kdf.after n ck ≠ ck' ∧ kdf.after n ck' ≠ ck

theorem Apart.symm {ck' : chain} (h : kdf.Apart ck ck') : kdf.Apart ck' ck :=
  fun n => ⟨(h n).right, (h n).left⟩

theorem Apart.after_ne (hideal : kdf.Ideal) {ck' : chain} (h : kdf.Apart ck ck') (m n : Nat) :
    kdf.after m ck ≠ kdf.after n ck' := by
  have hle : forall {a b : chain}, kdf.Apart a b -> forall {m n : Nat}, m <= n ->
      kdf.after m a ≠ kdf.after n b := by
    intro a b hab m n hle heq
    rcases Nat.exists_eq_add_of_le hle with ⟨d, rfl⟩
    apply (hab d).right
    apply after_injective hideal m
    rw [← after_add, Nat.add_comm d m]
    exact heq.symm
  rcases Nat.le_total m n with hmn | hnm
  · exact hle h hmn
  · exact fun heq => hle h.symm hnm heq.symm

/-!
## Keys for later

The keys of messages that are passed over are kept under their numbers.
-/

def stage (kdf : ChainKdf chain key) (name : UInt32 -> label) :
    Nat -> UInt32 -> chain -> List (label × key) × chain
  | 0, _, ck => ([], ck)
  | count + 1, number, ck =>
      let derived := kdf.derive ck
      let more := kdf.stage name count (number + 1) derived.fst
      ((name number, derived.snd) :: more.fst, more.snd)

@[simp] theorem length_stage (name : UInt32 -> label) (count : Nat) (number : UInt32)
    (ck : chain) : (kdf.stage name count number ck).fst.length = count := by
  induction count generalizing number ck with
  | zero => rfl
  | succ count ih =>
      show (kdf.stage name count (number + 1) _).fst.length + 1 = _
      rw [ih]

@[simp] theorem stage_snd (name : UInt32 -> label) (count : Nat) (number : UInt32)
    (ck : chain) : (kdf.stage name count number ck).snd = kdf.after count ck := by
  induction count generalizing number ck with
  | zero => rfl
  | succ count ih => exact ih _ _

theorem mem_stage {name : UInt32 -> label} {count : Nat} {number : UInt32} {staged : label × key}
    (h : staged ∈ (kdf.stage name count number ck).fst) :
    exists i, i < count ∧
      staged = (name (number + UInt32.ofNat i), kdf.messageKey (kdf.after i ck)) := by
  induction count generalizing number ck with
  | zero => cases h
  | succ count ih =>
      rcases List.mem_cons.mp h with rfl | hmore
      · refine ⟨0, Nat.succ_pos _, ?_⟩
        rw [show UInt32.ofNat 0 = 0 from rfl, UInt32.add_zero]
        rfl
      · rcases ih hmore with ⟨i, hi, rfl⟩
        refine ⟨i + 1, Nat.succ_lt_succ hi, ?_⟩
        rw [UInt32.ofNat_add, UInt32.add_comm (UInt32.ofNat i), ← UInt32.add_assoc]
        rfl

theorem stage_mem {name : UInt32 -> label} {count : Nat} {number : UInt32} {i : Nat}
    (hi : i < count) : (name (number + UInt32.ofNat i), kdf.messageKey (kdf.after i ck)) ∈
      (kdf.stage name count number ck).fst := by
  induction count generalizing number ck i with
  | zero => cases hi
  | succ count ih =>
      cases i with
      | zero =>
          rw [show UInt32.ofNat 0 = 0 from rfl, UInt32.add_zero]
          exact List.mem_cons_self
      | succ i =>
          rw [UInt32.ofNat_add, UInt32.add_comm (UInt32.ofNat i), ← UInt32.add_assoc]
          exact List.mem_cons_of_mem _ (ih (Nat.lt_of_succ_lt_succ hi))

end ChainKdf

/-!
# Chains from a root

A root key gives, for every input, another root key and the first key of a chain.  What has
been put in, the last first, is where a root or a chain is.  Ideally the outputs tell the
inputs apart, no chain begins where another goes on, and no root is the first one again; then
every message key has one place.
-/

structure RootKdf (root input chain : Type*) where
  derive : root -> input -> root × chain

namespace RootKdf

variable {root input chain key : Type*}

structure Ideal (rkdf : RootKdf root input chain) (kdf : ChainKdf chain key) : Prop where
  root_inj : forall {rk rk' d d'}, (rkdf.derive rk d).fst = (rkdf.derive rk' d').fst ->
    rk = rk' ∧ d = d'
  chain_inj : forall {rk rk' d d'}, (rkdf.derive rk d).snd = (rkdf.derive rk' d').snd ->
    rk = rk' ∧ d = d'
  chain_ne_next : forall rk d ck, (rkdf.derive rk d).snd ≠ kdf.next ck

/-- No root key comes out as the one it all starts from. -/
def Underived (rkdf : RootKdf root input chain) (start : root) : Prop :=
  forall rk d, (rkdf.derive rk d).fst ≠ start

def path (rkdf : RootKdf root input chain) (start : root) : List input -> root
  | [] => start
  | d :: ds => (rkdf.derive (rkdf.path start ds) d).fst

def chainAt (rkdf : RootKdf root input chain) (start : root) : List input -> Option chain
  | [] => none
  | d :: ds => some (rkdf.derive (rkdf.path start ds) d).snd

def keyAt (rkdf : RootKdf root input chain) (kdf : ChainKdf chain key) (start : root)
    (place : List input) (n : Nat) : Option key :=
  (rkdf.chainAt start place).map (fun ck => kdf.messageKey (kdf.after n ck))

variable {rkdf : RootKdf root input chain} {kdf : ChainKdf chain key} {start : root}

theorem path_injective (hideal : rkdf.Ideal kdf) (hstart : rkdf.Underived start)
    {ds ds' : List input} (h : rkdf.path start ds = rkdf.path start ds') : ds = ds' := by
  induction ds generalizing ds' with
  | nil =>
      cases ds' with
      | nil => rfl
      | cons d' ds' => exact absurd h.symm (hstart _ _)
  | cons d ds ih =>
      cases ds' with
      | nil => exact absurd h (hstart _ _)
      | cons d' ds' =>
          rcases hideal.root_inj h with ⟨hpath, rfl⟩
          rw [ih hpath]

variable {place place' : List input} {ck : chain}

section

variable (hideal : rkdf.Ideal kdf)
include hideal

theorem chainAt_injective (hstart : rkdf.Underived start) (h : rkdf.chainAt start place = some ck)
    (h' : rkdf.chainAt start place' = some ck) : place = place' := by
  cases place with
  | nil => cases h
  | cons d ds =>
      cases place' with
      | nil => cases h'
      | cons d' ds' =>
          have heq := Option.some.inj (h.trans h'.symm)
          rcases hideal.chain_inj heq with ⟨hpath, rfl⟩
          rw [path_injective hideal hstart hpath]

theorem chainAt_ne_next (h : rkdf.chainAt start place = some ck) (ck' : chain) :
    ck ≠ kdf.next ck' := by
  cases place with
  | nil => cases h
  | cons d ds =>
      cases h
      exact hideal.chain_ne_next _ _ _

theorem after_chainAt_inj (hkdf : kdf.Ideal) (hstart : rkdf.Underived start) {ck' : chain}
    {n n' : Nat} (h : rkdf.chainAt start place = some ck)
    (h' : rkdf.chainAt start place' = some ck') (heq : kdf.after n ck = kdf.after n' ck') :
    place = place' ∧ n = n' := by
  induction n generalizing n' with
  | zero =>
      cases n' with
      | zero =>
          rw [ChainKdf.after_zero, ChainKdf.after_zero] at heq
          rw [← heq] at h'
          exact ⟨chainAt_injective hideal hstart h h', rfl⟩
      | succ n' =>
          rw [← ChainKdf.next_after] at heq
          exact absurd heq (chainAt_ne_next hideal h _)
  | succ n ih =>
      cases n' with
      | zero =>
          rw [← ChainKdf.next_after] at heq
          exact absurd heq.symm (chainAt_ne_next hideal h' _)
      | succ n' =>
          rw [← ChainKdf.next_after, ← ChainKdf.next_after] at heq
          rcases ih (hkdf.next_injective heq) with ⟨hplace, hn⟩
          exact ⟨hplace, congrArg Nat.succ hn⟩

theorem keyAt_inj (hkdf : kdf.Ideal) (hstart : rkdf.Underived start) {n n' : Nat} {mk : key}
    (h : rkdf.keyAt kdf start place n = some mk) (h' : rkdf.keyAt kdf start place' n' = some mk) :
    place = place' ∧ n = n' := by
  rcases Option.map_eq_some_iff.mp h with ⟨ck, hchain, hmk⟩
  rcases Option.map_eq_some_iff.mp h' with ⟨ck', hchain', hmk'⟩
  exact after_chainAt_inj hideal hkdf hstart hchain hchain'
    (hkdf.messageKey_injective (hmk.trans hmk'.symm))

end

theorem eq_nil_of_chainAt (h : rkdf.chainAt start place = none) : place = [] := by
  cases place with
  | nil => rfl
  | cons d ds => cases h

theorem keyAt_of_chainAt (h : rkdf.chainAt start place = some ck) (n : Nat) :
    rkdf.keyAt kdf start place n = some (kdf.messageKey (kdf.after n ck)) := by
  unfold keyAt
  rw [h]
  rfl

end RootKdf

end Rabbithole.Foundation
