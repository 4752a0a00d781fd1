import Rabbithole.Foundation.Codec
import Rabbithole.Foundation.Text

/-!
# Commands and passwords of binkp

The commands two mailers exchange, and the password of a session: in the clear, or the
keyed digest of a challenge which the answering side offers in an information line.
-/

namespace Rabbithole.Binkp

open Foundation

/-- `zone:net/node.point@domain`. -/
structure Address where
  zone : UInt16
  net : UInt16
  node : UInt16
  point : UInt16
  domain : Option String
deriving DecidableEq

structure FileId where
  name : String
  size : UInt64
  unixtime : UInt64
deriving DecidableEq

structure FileInfo where
  name : String
  size : UInt64
  unixtime : UInt64
  offset : UInt64
deriving DecidableEq

def FileInfo.id (info : FileInfo) : FileId where
  name := info.name
  size := info.size
  unixtime := info.unixtime

inductive Command where
  | nul (line : String)
  | adr (addresses : List Address)
  | pwd (value : String)
  | file (info : FileInfo)
  | ok (text : String)
  | eob
  | got (id : FileId)
  | err (text : String)
  | bsy (text : String)
  | get (id : FileId)
  | skip (id : FileId)
deriving DecidableEq

def commandName : Command -> String
  | .nul _ => "M_NUL"
  | .adr _ => "M_ADR"
  | .pwd _ => "M_PWD"
  | .file _ => "M_FILE"
  | .ok _ => "M_OK"
  | .eob => "M_EOB"
  | .got _ => "M_GOT"
  | .err _ => "M_ERR"
  | .bsy _ => "M_BSY"
  | .get _ => "M_GET"
  | .skip _ => "M_SKIP"

/-!
## Challenges
-/

/-- The digests: HMAC-MD5 of a challenge under a password, and SHA-256. -/
structure Hashes where
  cramMd5Digest : Bytes -> Bytes -> Vector UInt8 16
  sha256 : Bytes -> Vector UInt8 32

open List

def cramMd5Prefix : String := "CRAM-MD5-"

def hexDigits : List Char :=
  ['0', '1', '2', '3', '4', '5', '6', '7', '8', '9', 'a', 'b', 'c', 'd', 'e', 'f']

def hexPair (b : UInt8) : List Char :=
  [hexDigits.getD (b >>> 4).toNat '0', hexDigits.getD (b &&& 0x0f).toNat '0']

def toHex (bytes : Bytes) : List Char :=
  bytes.flatMap hexPair

def nibble (c : Char) : Option UInt8 :=
  if '0' <= c ∧ c <= '9' then some (UInt8.ofNat (c.toNat - '0'.toNat))
  else if 'a' <= c ∧ c <= 'f' then some (UInt8.ofNat (c.toNat - 'a'.toNat + 10))
  else if 'A' <= c ∧ c <= 'F' then some (UInt8.ofNat (c.toNat - 'A'.toNat + 10))
  else none

def fromPair (a b : Char) : Option UInt8 :=
  match nibble a, nibble b with
  | some high, some low => some (high <<< 4 ||| low)
  | _, _ => none

def fromHex : List Char -> Option Bytes
  | [] => some []
  | [_] => none
  | a :: b :: rest =>
      match fromPair a b, fromHex rest with
      | some byte, some bytes => some (byte :: bytes)
      | _, _ => none

/-- What follows the prefix in the first word that has it. -/
def parseChallenge (line : String) : Option Bytes :=
  match (splitWhitespace line.toList).findSome? cramMd5Prefix.toList.isPrefixOf? with
  | some hex => fromHex hex
  | none => none

def cramMd5Option (challenge : Bytes) : String :=
  cramMd5Prefix ++ String.ofList (toHex challenge)

def cramMd5Response (hashes : Hashes) (password challenge : Bytes) : String :=
  cramMd5Prefix ++ String.ofList (toHex (hashes.cramMd5Digest password challenge).toList)

/-!
The challenge that is offered is the challenge that is read.
-/

set_option maxRecDepth 8000 in
theorem fromPair_hexPair (b : UInt8) : exists high low, hexPair b = [high, low] ∧
    fromPair high low = some b ∧ isWhitespace high = false ∧ isWhitespace low = false := by
  have hall : (List.range 256).all (fun n =>
      let pair := hexPair (UInt8.ofNat n)
      decide (fromPair pair.head! pair.getLast! = some (UInt8.ofNat n)) &&
        pair.all (fun c => !isWhitespace c)) = true := by
    decide
  have hb := all_eq_true.mp hall b.toNat (mem_range.mpr b.toNat_lt)
  rw [UInt8.ofNat_toNat] at hb
  refine ⟨_, _, rfl, ?_⟩
  simpa [hexPair] using hb

theorem fromHex_toHex (bytes : Bytes) : fromHex (toHex bytes) = some bytes := by
  induction bytes with
  | nil => rfl
  | cons b bytes ih =>
      rcases fromPair_hexPair b with ⟨high, low, hpair, hback, -, -⟩
      have hcons : toHex (b :: bytes) = high :: low :: toHex bytes := by
        unfold toHex
        rw [flatMap_cons, hpair]
        rfl
      rw [hcons]
      unfold fromHex
      rw [hback, ih]

theorem not_whitespace_of_mem_toHex {bytes : Bytes} {c : Char} (h : c ∈ toHex bytes) :
    isWhitespace c = false := by
  rcases mem_flatMap.mp h with ⟨b, -, hc⟩
  rcases fromPair_hexPair b with ⟨high, low, hpair, -, hhigh, hlow⟩
  rw [hpair] at hc
  rcases mem_cons.mp hc with rfl | hc
  · exact hhigh
  · rw [mem_singleton.mp hc]
    exact hlow

theorem parseChallenge_option (challenge : Bytes) :
    parseChallenge ("OPT " ++ cramMd5Option challenge) = some challenge := by
  have hwords : splitWhitespace ("OPT " ++ cramMd5Option challenge).toList =
      ["OPT".toList, cramMd5Prefix.toList ++ toHex challenge] := by
    have hlist : ("OPT " ++ cramMd5Option challenge).toList =
        "OPT".toList ++ ' ' :: (cramMd5Prefix.toList ++ toHex challenge) := by
      unfold cramMd5Option
      rw [String.toList_append, String.toList_append]
      simp only [String.toList_ofList]
      rfl
    have hopt : "OPT".toList.all (fun c => !isWhitespace c) = true := by decide
    have hprefix : cramMd5Prefix.toList.all (fun c => !isWhitespace c) = true := by decide
    rw [hlist]
    apply splitWhitespace_two
    · decide
    · intro c hc
      exact Bool.not_eq_true' _ |>.mp (all_eq_true.mp hopt c hc)
    · decide
    · intro c hc
      rcases mem_append.mp hc with hfront | hhex
      · exact Bool.not_eq_true' _ |>.mp (all_eq_true.mp hprefix c hfront)
      · exact not_whitespace_of_mem_toHex hhex
    · exact append_ne_nil_of_left_ne_nil (by decide) _
  unfold parseChallenge
  rw [hwords]
  have hfirst : cramMd5Prefix.toList.isPrefixOf? "OPT".toList = none := by decide
  rw [findSome?_cons, hfirst]
  simp only []
  rw [findSome?_cons, isPrefixOf?_append]
  exact fromHex_toHex challenge

end Rabbithole.Binkp
