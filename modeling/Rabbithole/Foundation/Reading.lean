import Rabbithole.Foundation.Codec

/-!
# Readers that accept one encoding

A reader takes its input from a state, which it leaves changed even if it fails.  It is
exact for an encoding when it reads back what was encoded, and nothing but the encoding of a
value reads as that value.  Exact readers compose.
-/

namespace Rabbithole.Foundation

open List

def Reading (state error value : Type) : Type :=
  state -> Except error value × state

namespace Reading

variable {state error value value' : Type}

def pure (v : value) : Reading state error value :=
  fun s => (.ok v, s)

def fail (e : state -> error) : Reading state error value :=
  fun s => (.error (e s), s)

def bind (x : Reading state error value) (f : value -> Reading state error value') :
    Reading state error value' :=
  fun s =>
    match x s with
    | (.error e, s') => (.error e, s')
    | (.ok v, s') => f v s'

instance : Monad (Reading state error) where
  pure := pure
  bind := bind

def require (cond : state -> Bool) (e : state -> error) : Reading state error Unit :=
  fun s => if cond s then (.ok (), s) else (.error (e s), s)

def update (change : state -> state) : Reading state error Unit :=
  fun s => (.ok (), change s)

def many (x : Reading state error value) : Nat -> Reading state error (List value)
  | 0 => pure []
  | count + 1 => bind x (fun v => bind (many x count) (fun vs => pure (v :: vs)))

variable {f : value -> Reading state error value'}

theorem bind_ok {x : Reading state error value} {s t : state} {v' : value'}
    (h : bind x f s = (.ok v', t)) : exists v s', x s = (.ok v, s') ∧ f v s' = (.ok v', t) := by
  unfold bind at h
  split at h
  · cases h
  · rename_i v s' hx
    exact ⟨v, s', hx, h⟩

theorem bind_of_ok {x : Reading state error value} {s s' : state} {v : value}
    (h : x s = (.ok v, s')) : bind x f s = f v s' := by
  unfold bind
  rw [h]

/-!
## What every run keeps
-/

/-- A condition on the state that holds after, whatever happens. -/
def Keeps (inv : state -> Prop) (x : Reading state error value) : Prop :=
  forall s, inv s -> inv (x s).snd

variable {inv : state -> Prop}

theorem keeps_pure (v : value) : Keeps inv (pure v : Reading state error value) :=
  fun _ h => h

theorem keeps_fail (e : state -> error) : Keeps inv (fail e : Reading state error value) :=
  fun _ h => h

variable {x : Reading state error value}

theorem Keeps.bind (hx : Keeps inv x) (hf : forall v, Keeps inv (f v)) :
    Keeps inv (Reading.bind x f) := by
  intro s hs
  have hmid := hx s hs
  unfold Reading.bind
  split
  · rename_i e s' heq
    rw [heq] at hmid
    exact hmid
  · rename_i v s' heq
    rw [heq] at hmid
    exact hf v s' hmid

theorem Keeps.require {cond : state -> Bool} {e : state -> error}
    (hx : forall s, inv s -> cond s = true -> inv (x s).snd) :
    Keeps inv (Reading.bind (Reading.require cond e) (fun _ => x)) := by
  intro s hs
  unfold Reading.bind Reading.require
  split
  · rename_i hread
    split at hread
    · cases hread
    · cases hread
      exact hs
  · rename_i hread
    split at hread
    · rename_i hmet
      cases hread
      exact hx s hs hmet
    · cases hread

theorem Keeps.check {cond : state -> Bool} {e : state -> error} (hx : Keeps inv x) :
    Keeps inv (Reading.bind (Reading.require cond e) (fun _ => x)) :=
  Keeps.require (fun s hs _ => hx s hs)

theorem Keeps.many (hx : Keeps inv x) (count : Nat) : Keeps inv (Reading.many x count) := by
  induction count with
  | zero => exact keeps_pure []
  | succ count ih => exact hx.bind (fun v => ih.bind (fun vs => keeps_pure (v :: vs)))

/-!
## Exact readers
-/

section Exact

variable (rest : state -> Bytes) (inv : state -> Prop)

/-- What is read, and what else can be read as the same. -/
structure Exact (x : Reading state error value) (encode : value -> Bytes)
    (valid : value -> Prop) : Prop where
  sound : forall {s s' v}, inv s -> x s = (.ok v, s') ->
    inv s' ∧ valid v ∧ rest s = encode v ++ rest s'
  complete : forall {s v behind}, inv s -> valid v -> rest s = encode v ++ behind ->
    exists s', x s = (.ok v, s') ∧ inv s' ∧ rest s' = behind

variable {rest inv} {encode : value -> Bytes} {valid : value -> Prop}

theorem exact_pure (v : value) :
    Exact rest inv (pure v : Reading state error value) (fun _ => []) (fun v' => v' = v) where
  sound := by
    intro s s' v' hs h
    cases h
    exact ⟨hs, rfl, rfl⟩
  complete := by
    intro s v' behind hs hv hrest
    subst hv
    exact ⟨s, rfl, hs, hrest⟩

variable {x : Reading state error value}

section

variable (hx : Exact rest inv x encode valid)
include hx

theorem Exact.bind {f : value -> Reading state error value'} {encode' : value -> value' -> Bytes}
    {valid' : value -> value' -> Prop}
    (hf : forall v, valid v -> Exact rest inv (f v) (encode' v) (valid' v))
    (first : value' -> value) (hfirst : forall v v', valid v -> valid' v v' -> first v' = v) :
    Exact rest inv (Reading.bind x f) (fun v' => encode (first v') ++ encode' (first v') v')
      (fun v' => valid (first v') ∧ valid' (first v') v') where
  sound := by
    intro s s' v' hs h
    rcases bind_ok h with ⟨v, mid, hread, hthen⟩
    rcases hx.sound hs hread with ⟨hmid, hv, hrest⟩
    rcases (hf v hv).sound hmid hthen with ⟨hs', hv', hrest'⟩
    rw [hfirst v v' hv hv', hrest, hrest', append_assoc]
    exact ⟨hs', ⟨hv, hv'⟩, rfl⟩
  complete := by
    intro s v' behind hs hv hrest
    rw [append_assoc] at hrest
    rcases hx.complete hs hv.left hrest with ⟨mid, hread, hmid, hrest'⟩
    rcases (hf _ hv.left).complete hmid hv.right hrest' with ⟨s', hthen, hs', hbehind⟩
    rw [bind_of_ok hread]
    exact ⟨s', hthen, hs', hbehind⟩

theorem Exact.congr {encode' : value -> Bytes} {valid' : value -> Prop}
    (hvalid : forall v, valid v <-> valid' v)
    (hencode : forall v, valid v -> encode v = encode' v) : Exact rest inv x encode' valid' where
  sound := by
    intro s s' v hs h
    rcases hx.sound hs h with ⟨hs', hv, hrest⟩
    rw [← hencode v hv]
    exact ⟨hs', (hvalid v).mp hv, hrest⟩
  complete := by
    intro s v behind hs hv hrest
    have hv' := (hvalid v).mpr hv
    rw [← hencode v hv'] at hrest
    exact hx.complete hs hv' hrest

theorem Exact.require (cond : state -> Bool) (e : state -> error) {p : Prop}
    (hneeds : forall {s}, cond s = true -> p)
    (hcond : forall {s v behind}, p -> inv s -> valid v -> rest s = encode v ++ behind ->
      cond s = true) : Exact rest inv (Reading.bind (Reading.require cond e) (fun _ => x)) encode
      (fun v => p ∧ valid v) where
  sound := by
    intro s s' v hs h
    rcases bind_ok h with ⟨u, mid, hcheck, hthen⟩
    unfold Reading.require at hcheck
    split at hcheck
    · rename_i hmet
      cases hcheck
      rcases hx.sound hs hthen with ⟨hs', hv, hrest⟩
      exact ⟨hs', ⟨hneeds hmet, hv⟩, hrest⟩
    · cases hcheck
  complete := by
    intro s v behind hs hv hrest
    have hcheck : Reading.require cond e s = (.ok (), s) :=
      if_pos (hcond hv.left hs hv.right hrest)
    rw [bind_of_ok hcheck]
    exact hx.complete hs hv.right hrest

theorem Exact.update (change : state -> state) (hrest : forall s, rest (change s) = rest s)
    (hinv : forall s, inv s -> inv (change s)) :
    Exact rest inv (Reading.bind (Reading.update change) (fun _ => x)) encode valid where
  sound := by
    intro s s' v hs h
    rw [← hrest s]
    exact hx.sound (hinv s hs) h
  complete := by
    intro s v behind hs hv hencoded
    rw [← hrest s] at hencoded
    exact hx.complete (hinv s hs) hv hencoded

theorem Exact.many (count : Nat) :
    Exact rest inv (Reading.many x count) (fun vs => vs.flatMap encode)
      (fun vs => vs.length = count ∧ forall v, v ∈ vs -> valid v) where
  sound := by
    intro s s' vs hs h
    induction count generalizing s vs with
    | zero =>
        cases h
        exact ⟨hs, ⟨rfl, fun v hv => nomatch hv⟩, rfl⟩
    | succ count ih =>
        rcases bind_ok h with ⟨v, mid, hread, hthen⟩
        rcases bind_ok hthen with ⟨vs', mid', hmany, hlast⟩
        cases hlast
        rcases hx.sound hs hread with ⟨hmid, hv, hrest⟩
        rcases ih hmid hmany with ⟨hs', ⟨hlength, hall⟩, hrest'⟩
        refine ⟨hs', ⟨by rw [length_cons, hlength], ?_⟩, ?_⟩
        · rw [forall_mem_cons]
          exact ⟨hv, hall⟩
        · rw [hrest, hrest', flatMap_cons, append_assoc]
  complete := by
    intro s vs behind hs hvs hrest
    induction count generalizing s vs with
    | zero =>
        have hnil : vs = [] := length_eq_zero_iff.mp hvs.left
        subst hnil
        exact ⟨s, rfl, hs, hrest⟩
    | succ count ih =>
        cases vs with
        | nil => cases hvs.left
        | cons v vs =>
            rcases hvs with ⟨hlength, hall⟩
            rw [forall_mem_cons] at hall
            rw [flatMap_cons, append_assoc] at hrest
            rcases hx.complete hs hall.left hrest with ⟨mid, hread, hmid, hrest'⟩
            rcases ih hmid ⟨Nat.succ.inj hlength, hall.right⟩ hrest' with
              ⟨s', hmany, hs', hbehind⟩
            refine ⟨s', ?_, hs', hbehind⟩
            unfold Reading.many
            rw [bind_of_ok hread, bind_of_ok hmany]
            rfl

end

end Exact

end Reading

end Rabbithole.Foundation
