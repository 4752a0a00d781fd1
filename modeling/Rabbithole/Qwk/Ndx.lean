import Rabbithole.Foundation.Binary32
import Rabbithole.Qwk.Messages

/-!
# Index files

An index has five bytes for a message: a pointer as a number in the old binary format of
Microsoft, whose exponent is two more than the one of a single-precision number, and the
low byte of the conference.
-/

namespace Rabbithole.Qwk

open Foundation

namespace Mbf

/-- The four bytes of a number, the mantissa low byte first and then the exponent. -/
def encodeF32 (x : Binary32) : Bytes :=
  if x.isZero || !x.isFinite then [0, 0, 0, 0]
  else if x.exponent = 0 then [0, 0, 0, 0]
  else
    let mbfExp := x.exponent.toNat + 2
    let sign := if x.sign then 0x80 else 0
    if 0xFF < mbfExp then [0xFF, 0xFF, UInt8.ofNat (0x7F + sign), 0xFF]
    else
      let mant := x.mantissa.toNat
      [UInt8.ofNat (mant % 256), UInt8.ofNat (mant / 256 % 256),
        UInt8.ofNat (mant / 65536 % 128 + sign), UInt8.ofNat mbfExp]

def decodeF32 (b0 b1 b2 b3 : UInt8) : Binary32 :=
  if b3 < 3 then Binary32.zero
  else
    { sign := decide (0x80 <= b2)
      exponent := BitVec.ofNat 8 (b3.toNat - 2)
      mantissa := BitVec.ofNat 23 (b2.toNat % 128 * 65536 + b1.toNat * 256 + b0.toNat) }

def encode (value : UInt32) : Bytes :=
  encodeF32 (Binary32.ofU32 value)

def decode (b0 b1 b2 b3 : UInt8) : UInt32 :=
  let v := decodeF32 b0 b1 b2 b3
  if v.sign || v.isNan then 0 else v.roundToU32

end Mbf

structure NdxRecord where
  number : UInt32
  conference : UInt8
deriving DecidableEq

namespace Ndx

def recordLen : Nat := 5

def encode (records : List NdxRecord) : Bytes :=
  records.flatMap (fun r => Mbf.encode r.number ++ [r.conference])

def readRecords : Bytes -> List NdxRecord
  | b0 :: b1 :: b2 :: b3 :: conference :: rest =>
      { number := Mbf.decode b0 b1 b2 b3, conference := conference } :: readRecords rest
  | _ => []

def decode (bytes : Bytes) : Except QwkError (List NdxRecord) :=
  let remainder := bytes.length % recordLen
  if remainder ≠ 0 then .error (.partialRecord recordLen remainder)
  else .ok (readRecords bytes)

end Ndx

/-!
## Pointers are read back
-/

theorem Mbf.decodeF32_encodeF32 {x : Binary32} (hpos : x.exponent.toNat ≠ 0)
    (hexp : x.exponent.toNat + 2 <= 0xFF) (hsign : x.sign = false) :
    exists b0 b1 b2 b3, Mbf.encodeF32 x = [b0, b1, b2, b3] ∧ Mbf.decodeF32 b0 b1 b2 b3 = x := by
  rcases x with ⟨sign, exponent, mantissa⟩
  dsimp only at hpos hexp hsign
  subst hsign
  have hmant : mantissa.toNat < 2 ^ 23 := mantissa.isLt
  have hne : exponent ≠ 0 := by
    intro heq
    rw [heq] at hpos
    exact hpos rfl
  have hne' : exponent ≠ 255 := by
    intro heq
    rw [heq] at hexp
    exact absurd hexp (by decide)
  have hzero : (Binary32.mk false exponent mantissa).isZero = false := by
    show (exponent == 0 && mantissa == 0) = false
    rw [beq_false_of_ne hne, Bool.false_and]
  have hfinite : (Binary32.mk false exponent mantissa).isFinite = true := by
    show (exponent != 255) = true
    exact bne_iff_ne.mpr hne'
  have hb0 : (UInt8.ofNat (mantissa.toNat % 256)).toNat = mantissa.toNat % 256 := by
    rw [UInt8.toNat_ofNat']
    exact Nat.mod_mod _ _
  have hb1 : (UInt8.ofNat (mantissa.toNat / 256 % 256)).toNat = mantissa.toNat / 256 % 256 := by
    rw [UInt8.toNat_ofNat']
    exact Nat.mod_mod _ _
  have hb2 : (UInt8.ofNat (mantissa.toNat / 65536 % 128 + 0)).toNat =
      mantissa.toNat / 65536 % 128 := by
    rw [UInt8.toNat_ofNat']
    omega
  have hb3 : (UInt8.ofNat (exponent.toNat + 2)).toNat = exponent.toNat + 2 := by
    rw [UInt8.toNat_ofNat']
    omega
  refine ⟨UInt8.ofNat (mantissa.toNat % 256), UInt8.ofNat (mantissa.toNat / 256 % 256),
    UInt8.ofNat (mantissa.toNat / 65536 % 128 + 0), UInt8.ofNat (exponent.toNat + 2), ?_, ?_⟩
  · unfold Mbf.encodeF32
    rw [hzero, hfinite]
    exact (if_neg Bool.false_ne_true).trans ((if_neg hne).trans (if_neg (Nat.not_lt_of_le hexp)))
  · have hlow : ¬ UInt8.ofNat (exponent.toNat + 2) < 3 := by
      rw [UInt8.lt_iff_toNat_lt, hb3]
      show ¬ exponent.toNat + 2 < 3
      omega
    have hpositive : ¬ (0x80 : UInt8) <= UInt8.ofNat (mantissa.toNat / 65536 % 128 + 0) := by
      rw [UInt8.le_iff_toNat_le, hb2]
      show ¬ 128 <= mantissa.toNat / 65536 % 128
      omega
    unfold Mbf.decodeF32
    rw [if_neg hlow, decide_eq_false hpositive, hb0, hb1, hb2, hb3]
    congr 1
    · rw [Nat.add_sub_cancel, BitVec.ofNat_toNat, BitVec.setWidth_eq]
    · have hsum : mantissa.toNat / 65536 % 128 % 128 * 65536 + mantissa.toNat / 256 % 256 * 256 +
          mantissa.toNat % 256 = mantissa.toNat := by omega
      rw [hsum, BitVec.ofNat_toNat, BitVec.setWidth_eq]

theorem Mbf.decode_encode {value : UInt32} (h : value.toNat < 2 ^ 24) :
    exists b0 b1 b2 b3, Mbf.encode value = [b0, b1, b2, b3] ∧
      Mbf.decode b0 b1 b2 b3 = value := by
  by_cases hzero : value = 0
  · subst hzero
    exact ⟨0, 0, 0, 0, by decide, by decide⟩
  · rcases Binary32.ofU32_small hzero h with ⟨e, he, hsign, hexponent, -⟩
    have hpos : (Binary32.ofU32 value).exponent.toNat ≠ 0 := by omega
    rcases Mbf.decodeF32_encodeF32 hpos (by omega) hsign with ⟨b0, b1, b2, b3, hbytes, hback⟩
    refine ⟨b0, b1, b2, b3, hbytes, ?_⟩
    have hnan : (Binary32.ofU32 value).isNan = false := by
      have hne : (Binary32.ofU32 value).exponent ≠ 255 := by
        intro heq
        rw [heq] at hexponent
        exact absurd hexponent (by show 255 ≠ e + 127; omega)
      show (!((Binary32.ofU32 value).exponent != 255) && _) = false
      rw [bne_iff_ne.mpr hne]
      rfl
    unfold Mbf.decode
    rw [hback]
    dsimp only
    rw [hsign, hnan, Bool.or_false, if_neg Bool.false_ne_true]
    exact Binary32.roundToU32_ofU32 h

theorem Ndx.decode_encode {records : List NdxRecord}
    (h : forall r, r ∈ records -> r.number.toNat < 2 ^ 24) :
    Ndx.decode (Ndx.encode records) = .ok records := by
  have hread : (Ndx.encode records).length = recordLen * records.length ∧
      Ndx.readRecords (Ndx.encode records) = records := by
    induction records with
    | nil => exact ⟨rfl, rfl⟩
    | cons r records ih =>
        rcases ih (fun r' hr' => h r' (List.mem_cons_of_mem r hr')) with ⟨hlength, hback⟩
        rcases Mbf.decode_encode (h r List.mem_cons_self) with ⟨b0, b1, b2, b3, hbytes, hnumber⟩
        have hcons : Ndx.encode (r :: records) =
            b0 :: b1 :: b2 :: b3 :: r.conference :: Ndx.encode records := by
          unfold Ndx.encode
          rw [List.flatMap_cons, hbytes]
          rfl
        rw [hcons]
        constructor
        · simp only [List.length_cons, hlength]
          unfold recordLen
          omega
        · unfold Ndx.readRecords
          rw [hnumber, hback]
  unfold Ndx.decode
  rw [hread.left, Nat.mul_mod_right]
  dsimp only
  rw [if_neg (by decide), hread.right]

end Rabbithole.Qwk
