import Mathlib.Algebra.Ring.Nat

/-!
# Have-maps

A have-map says which units of a file a peer holds: bit `i`, least significant first in each
byte, stands for the unit at `i * unit`.  A source without one holds the whole file.
-/

namespace Rabbithole.Swarm

open List

/-- The unit a have-map counts in (`HAVE_UNIT`). -/
def haveUnit : Nat := 1024 * 1024

/-- The unit the scheduler fetches in (`UNIT_SIZE`). -/
def unitSize : Nat := 1024 * 1024

/-- Bytes covered by one Bao block on the peer wire (`PEER_BLOCK_BYTES`). -/
def peerBlockBytes : Nat := 16 * 1024

abbrev Byte := BitVec 8

/-- The byte with only bit `i % 8` set. -/
def bitMask (i : Nat) : Byte :=
  1#8 <<< (i % 8)

def bit (bits : List Byte) (i : Nat) : Bool :=
  match bits[i / 8]? with
  | none => false
  | some b => b &&& bitMask i != 0#8

def setBit (bits : List Byte) (i : Nat) : List Byte :=
  let grown :=
    if bits.length <= i / 8 then
      bits ++ List.replicate (i / 8 + 1 - bits.length) 0#8
    else
      bits
  grown.modify (i / 8) (fun b => b ||| bitMask i)

def clearBit (bits : List Byte) (i : Nat) : List Byte :=
  bits.modify (i / 8) (fun b => b &&& ~~~ bitMask i)

structure HaveMap where
  unit : Nat
  bits : List Byte
deriving DecidableEq

namespace HaveMap

/-- Every unit of a `size`-byte file. -/
def whole (size : Nat) : HaveMap :=
  let units := max ((size + haveUnit - 1) / haveUnit) 1
  let bytes := (units + 7) / 8
  let full : List Byte := List.replicate bytes 0xFF#8
  { unit := haveUnit
    bits :=
      if units % 8 = 0 then full
      else full.set (bytes - 1) ((1#8 <<< (units % 8)) - 1#8) }

/-- Whether every unit touching `[offset, offset + len)` is held. -/
def covers (map : HaveMap) (offset len : Nat) : Bool :=
  if map.unit = 0 ∨ len = 0 then false
  else
    let first := offset / map.unit
    let last := (offset + len - 1) / map.unit
    (List.range' first (last + 1 - first)).all (bit map.bits)

/-- Forget one unit: the peer said it does not hold it after all. -/
def clear (map : HaveMap) (index : Nat) : HaveMap :=
  { map with bits := clearBit map.bits index }

end HaveMap

/-- What a worker knows of which units its source holds. -/
inductive Holds where
  /-- The whole file: a whole seed, or one that predates the question. -/
  | all
  | map (m : HaveMap)
deriving DecidableEq

namespace Holds

def covers : Holds -> Nat -> Nat -> Bool
  | all, _, _ => true
  | map m, offset, len => m.covers offset len

/-- The units touching a range are forgotten, one by one. -/
def lacksMap (m : HaveMap) (offset len : Nat) : HaveMap :=
  let first := offset / m.unit
  let last := (offset + max len 1 - 1) / m.unit
  (List.range' first (last + 1 - first)).foldl HaveMap.clear m

/-- The source does not hold `[offset, offset + len)` after all. -/
def lacks (holds : Holds) (offset len size : Nat) : Holds :=
  match holds with
  | all => map (lacksMap (HaveMap.whole size) offset len)
  | map m => map (lacksMap m offset len)

end Holds

/-!
## Reading a bit back

A byte tested against a one-bit mask answers with that bit, so setting and
clearing act on one index and leave every other as it was.
-/

theorem and_bitMask_ne_zero (b : Byte) (i : Nat) :
    (b &&& bitMask i != 0#8) = b.getLsbD (i % 8) := by
  have hlt : i % 8 < 8 := Nat.mod_lt i (by decide)
  unfold bitMask
  rw [← BitVec.twoPow_eq, BitVec.and_twoPow]
  cases hb : b.getLsbD (i % 8) with
  | false => simp
  | true =>
      have hne : BitVec.twoPow 8 (i % 8) ≠ 0#8 := by
        intro h
        have hbit := congrArg (fun v => BitVec.getLsbD v (i % 8)) h
        simp [BitVec.getLsbD_twoPow] at hbit
        omega
      simpa using hne

theorem bit_eq_getLsbD (bits : List Byte) (i : Nat) :
    bit bits i =
      match bits[i / 8]? with
      | none => false
      | some b => b.getLsbD (i % 8) := by
  unfold bit
  cases bits[i / 8]? with
  | none => rfl
  | some b => exact and_bitMask_ne_zero b i

theorem getLsbD_bitMask (i k : Nat) (hk : k < 8) : (bitMask i).getLsbD k = decide (i % 8 = k) := by
  unfold bitMask
  rw [← BitVec.twoPow_eq, BitVec.getLsbD_twoPow]
  by_cases h : i % 8 = k
  · simp [h, hk]
  · simp [h]

theorem eq_of_div_mod_eq {i j : Nat} (hdiv : i / 8 = j / 8) (hmod : i % 8 = j % 8) : i = j := by
  rw [← Nat.div_add_mod i 8, ← Nat.div_add_mod j 8, hdiv, hmod]

theorem getLsbD_and_not_bitMask (b : Byte) (j k : Nat) (hk : k < 8) :
    (b &&& ~~~ bitMask j).getLsbD k = (b.getLsbD k && decide (j % 8 ≠ k)) := by
  rw [BitVec.getLsbD_and, BitVec.getLsbD_not, getLsbD_bitMask j k hk]
  simp [hk]

theorem getLsbD_or_bitMask (b : Byte) (j k : Nat) (hk : k < 8) :
    (b ||| bitMask j).getLsbD k = (b.getLsbD k || decide (j % 8 = k)) := by
  rw [BitVec.getLsbD_or, getLsbD_bitMask j k hk]

theorem bit_clearBit (bits : List Byte) (i j : Nat) :
    bit (clearBit bits j) i = (bit bits i && decide (i ≠ j)) := by
  have hlt : i % 8 < 8 := Nat.mod_lt i (by decide)
  rw [bit_eq_getLsbD, bit_eq_getLsbD]
  unfold clearBit
  rw [getElem?_modify]
  cases hb : bits[i / 8]? with
  | none => simp
  | some b =>
      by_cases hdiv : j / 8 = i / 8
      · have hiff : j % 8 ≠ i % 8 <-> i ≠ j := by
          constructor
          · intro hmod hij
            exact hmod (by rw [hij])
          · intro hij hmod
            exact hij (eq_of_div_mod_eq hdiv.symm hmod.symm)
        show (if j / 8 = i / 8 then b &&& ~~~ bitMask j else b).getLsbD (i % 8) = _
        rw [if_pos hdiv]
        show _ = (b.getLsbD (i % 8) && decide (i ≠ j))
        rw [getLsbD_and_not_bitMask b j _ hlt, decide_eq_decide.mpr hiff]
      · have hij : i ≠ j := by
          intro h
          exact hdiv (by rw [h])
        simp [hdiv, hij]

theorem bit_grow (bits : List Byte) (n i : Nat) :
    bit (bits ++ List.replicate n 0#8) i = bit bits i := by
  rw [bit_eq_getLsbD, bit_eq_getLsbD]
  by_cases h : i / 8 < bits.length
  · rw [getElem?_append_left h]
  · rw [getElem?_append_right (by omega), getElem?_replicate]
    rw [getElem?_eq_none (by omega)]
    by_cases hn : i / 8 - bits.length < n
    · simp [hn]
    · simp [hn]

theorem bit_setBit (bits : List Byte) (i j : Nat) :
    bit (setBit bits j) i = (bit bits i || decide (i = j)) := by
  have hlt : i % 8 < 8 := Nat.mod_lt i (by decide)
  let grown : List Byte :=
    if bits.length <= j / 8 then
      bits ++ List.replicate (j / 8 + 1 - bits.length) 0#8
    else
      bits
  have hset : setBit bits j = grown.modify (j / 8) (fun b => b ||| bitMask j) := rfl
  have hgrown : bit grown i = bit bits i := by
    show bit (if bits.length <= j / 8 then _ else _) i = _
    by_cases h : bits.length <= j / 8
    · rw [if_pos h]
      exact bit_grow bits _ i
    · rw [if_neg h]
  have hlen : j / 8 < grown.length := by
    show j / 8 < List.length (if bits.length <= j / 8 then _ else _)
    by_cases h : bits.length <= j / 8
    · rw [if_pos h, length_append, length_replicate]
      omega
    · rw [if_neg h]
      omega
  rw [hset, ← hgrown, bit_eq_getLsbD, bit_eq_getLsbD, getElem?_modify]
  by_cases hdiv : j / 8 = i / 8
  · have hi : i / 8 < grown.length := by omega
    rw [getElem?_eq_getElem hi]
    have hiff : j % 8 = i % 8 <-> i = j := by
      constructor
      · intro hmod
        exact eq_of_div_mod_eq hdiv.symm hmod.symm
      · intro hij
        rw [hij]
    show (if j / 8 = i / 8 then grown[i / 8] ||| bitMask j
      else grown[i / 8]).getLsbD (i % 8) = _
    rw [if_pos hdiv]
    show _ = (grown[i / 8].getLsbD (i % 8) || decide (i = j))
    rw [getLsbD_or_bitMask _ j _ hlt, decide_eq_decide.mpr hiff]
  · have hij : i ≠ j := by
      intro h
      exact hdiv (by rw [h])
    cases grown[i / 8]? with
    | none => simp [hij]
    | some b => simp [hdiv, hij]

/-!
## What a refusal clears

After a source is recorded as lacking a range, no unit touching the range is
left in its map, whatever unit the map counts in.
-/

theorem bit_foldl_clear (indices : List Nat) (m : HaveMap) (i : Nat) :
    bit (indices.foldl HaveMap.clear m).bits i = (bit m.bits i && decide (i ∉ indices)) := by
  induction indices generalizing m with
  | nil => simp
  | cons j rest ih =>
      rw [foldl_cons, ih]
      show (bit (clearBit m.bits j) i && _) = _
      rw [bit_clearBit]
      by_cases hij : i = j
      · simp [hij]
      · simp [hij]

theorem unit_foldl_clear (indices : List Nat) (m : HaveMap) :
    (indices.foldl HaveMap.clear m).unit = m.unit := by
  induction indices generalizing m with
  | nil => rfl
  | cons j rest ih =>
      rw [foldl_cons, ih]
      rfl

theorem lacksMap_not_covers (m : HaveMap) (offset len : Nat) :
    (Holds.lacksMap m offset len).covers offset len = false := by
  unfold HaveMap.covers
  by_cases hzero : (Holds.lacksMap m offset len).unit = 0 ∨ len = 0
  · rw [if_pos hzero]
  · rw [if_neg hzero]
    have hlen : len ≠ 0 := fun h => hzero (Or.inr h)
    have hunit : (Holds.lacksMap m offset len).unit = m.unit :=
      unit_foldl_clear _ m
    have hle : offset / m.unit <= (offset + len - 1) / m.unit :=
      Nat.div_le_div_right (by omega)
    rw [hunit]
    rw [all_eq_false]
    refine ⟨offset / m.unit, ?_, ?_⟩
    · rw [mem_range'_1]
      omega
    · unfold Holds.lacksMap
      rw [bit_foldl_clear]
      have hmax : max len 1 = len := by omega
      have hmem : offset / m.unit ∈
          List.range' (offset / m.unit)
            ((offset + max len 1 - 1) / m.unit + 1 - offset / m.unit) := by
        rw [mem_range'_1, hmax]
        omega
      simp [hmem]

theorem covers_of_lacksMap {m : HaveMap} {off len offset want : Nat}
    (h : (Holds.lacksMap m off len).covers offset want = true) : m.covers offset want = true := by
  unfold HaveMap.covers at h ⊢
  have hunit : (Holds.lacksMap m off len).unit = m.unit := unit_foldl_clear _ m
  rw [hunit] at h
  by_cases hzero : m.unit = 0 ∨ want = 0
  · rw [if_pos hzero] at h
    cases h
  · rw [if_neg hzero] at h ⊢
    rw [all_eq_true] at h ⊢
    intro i hi
    have hbit := h i hi
    unfold Holds.lacksMap at hbit
    rw [bit_foldl_clear, Bool.and_eq_true] at hbit
    exact hbit.left

theorem HaveMap.covers_of_truncated {m : HaveMap} {n offset len : Nat}
    (h : HaveMap.covers { m with bits := m.bits.take n } offset len = true) :
    m.covers offset len = true := by
  unfold HaveMap.covers at h ⊢
  by_cases hzero : m.unit = 0 ∨ len = 0
  · rw [if_pos hzero] at h
    cases h
  · rw [if_neg hzero] at h ⊢
    rw [all_eq_true] at h ⊢
    intro i hi
    have hbit := h i hi
    rw [bit_eq_getLsbD] at hbit ⊢
    rw [getElem?_take] at hbit
    by_cases hin : i / 8 < n
    · rw [if_pos hin] at hbit
      exact hbit
    · rw [if_neg hin] at hbit
      cases hbit

end Rabbithole.Swarm
