import Rabbithole.Foundation.Text
import Rabbithole.Foundation.Utf8
import Rabbithole.Foundation.Cp437

/-!
# Line editing

What each byte of data does to the line that is typed: terminators, erasing, and characters
that are whole before they are shown.
-/

namespace Rabbithole.Telnet

open Foundation

inductive Encoding where
  | utf8
  | cp437
deriving DecidableEq

def cp437ToChar (b : UInt8) : Char :=
  if b < 128 then Char.ofNat b.toNat else cp437Char b

def decode (encoding : Encoding) (bytes : Bytes) : String :=
  match encoding with
  | .utf8 => String.ofList (fromUtf8Lossy bytes)
  | .cp437 => String.ofList (bytes.map cp437ToChar)

inductive Echo where
  | on
  | hidden
deriving DecidableEq

def maxLine : Nat := 1024

def replacement : Bytes := [0xEF, 0xBF, 0xBD]

/-- The line that is typed, with what is held of an unfinished character. -/
structure Line where
  encoding : Encoding
  swallowLf : Bool
  lineBuf : Bytes
  utf8Pending : Bytes
  utf8Discard : UInt8
deriving DecidableEq

/-- Without the bytes of the last character. -/
def popLast (encoding : Encoding) : Bytes -> Bytes
  | [] => []
  | b :: reversed =>
      if encoding = .cp437 ∨ b &&& 0xC0 ≠ 0x80 then reversed else popLast encoding reversed

def popChar (encoding : Encoding) (buf : Bytes) : Bytes :=
  (popLast encoding buf.reverse).reverse

/-- How many bytes a character has that begins with this one. -/
def charWidth (b : UInt8) : Option UInt8 :=
  if 0xC2 <= b ∧ b <= 0xDF then some 2
  else if 0xE0 <= b ∧ b <= 0xEF then some 3
  else if 0xF0 <= b ∧ b <= 0xF4 then some 4
  else none

namespace Line

def new (encoding : Encoding) : Line where
  encoding := encoding
  swallowLf := false
  lineBuf := []
  utf8Pending := []
  utf8Discard := 0

def discard (line : Line) : Line :=
  { line with lineBuf := [], utf8Pending := [], utf8Discard := 0 }

/-- A whole character, if it fits, and the echo of it. -/
def lineChar (echo : Echo) (line : Line) (bytes : Bytes) : Line × Bytes :=
  if line.lineBuf.length + bytes.length <= maxLine then
    ({ line with lineBuf := line.lineBuf ++ bytes }, if echo = .on then bytes else [])
  else (line, [])

def finishUtf8 (echo : Echo) (line : Line) : Line × Bytes :=
  if line.utf8Pending.isEmpty then ({ line with utf8Discard := 0 }, [])
  else
    let (line, out) := { line with utf8Pending := [] }.lineChar echo replacement
    ({ line with utf8Discard := 0 }, out)

/-- A byte that begins a character, or is none. -/
def freshByte (echo : Echo) (line : Line) (b : UInt8) : Line × Bytes :=
  if 0x20 <= b ∧ b <= 0x7E then line.lineChar echo [b]
  else
    match charWidth b with
    | none => line.lineChar echo replacement
    | some width =>
        if line.lineBuf.length + width.toNat <= maxLine then
          ({ line with utf8Pending := line.utf8Pending ++ [b] }, [])
        else ({ line with utf8Discard := width - 1 }, [])

/-- A byte behind an unfinished character. -/
def pendingByte (echo : Echo) (line : Line) (b : UInt8) : Line × Bytes :=
  if line.utf8Pending.isEmpty then line.freshByte echo b
  else
    let pending := line.utf8Pending ++ [b]
    match checkUtf8 pending with
    | none => { line with utf8Pending := [] }.lineChar echo pending
    | some .unfinished => ({ line with utf8Pending := pending }, [])
    | some .invalid =>
        -- what was there is broken off, and the byte is a fresh one
        let (line, out) := { line with utf8Pending := [] }.lineChar echo replacement
        let (line, more) := line.freshByte echo b
        (line, out ++ more)

def lineByte (echo : Echo) (line : Line) (b : UInt8) : Line × Bytes :=
  if line.encoding = .cp437 then line.lineChar echo [b]
  else if line.utf8Discard ≠ 0 ∧ b &&& 0xC0 = 0x80 then
    ({ line with utf8Discard := line.utf8Discard - 1 }, [])
  else { line with utf8Discard := 0 }.pendingByte echo b

def erase (echo : Echo) (line : Line) : Line × Bytes :=
  if line.utf8Pending ≠ [] ∨ line.utf8Discard ≠ 0 then
    -- no part of the character was echoed, so only that is erased
    ({ line with utf8Pending := [], utf8Discard := 0 }, [])
  else if line.lineBuf = [] then (line, [])
  else
    ({ line with lineBuf := popChar line.encoding line.lineBuf },
      if echo = .on then [0x08, 0x20, 0x08] else [])

/-- One byte of data: the echo of it, and whether it ends the line. -/
def byte (echo : Echo) (line : Line) (b : UInt8) : Line × Bytes × Bool :=
  if line.swallowLf ∧ (b = 0x0A ∨ b = 0) then ({ line with swallowLf := false }, [], false)
  else if b = 0x0D then
    let (line, out) := { line with swallowLf := true }.finishUtf8 echo
    (line, out, true)
  else if b = 0x0A then
    let (line, out) := { line with swallowLf := false }.finishUtf8 echo
    (line, out, true)
  else if b = 0x08 ∨ b = 0x7F then
    let (line, out) := { line with swallowLf := false }.erase echo
    (line, out, false)
  else if b < 0x20 then
    let (line, out) := { line with swallowLf := false }.finishUtf8 echo
    (line, out, false)
  else
    let (line, out) := { line with swallowLf := false }.lineByte echo b
    (line, out, false)

/-- The bytes up to the end of the line: the echo of them, whether it came, what is behind it. -/
def bytes (echo : Echo) : Line -> Bytes -> Line × Bytes × Bool × Bytes
  | line, [] => (line, [], false, [])
  | line, b :: rest =>
      match line.byte echo b with
      | (line, out, true) => (line, out, true, rest)
      | (line, out, false) =>
          let (line, more, done, left) := line.bytes echo rest
          (line, out ++ more, done, left)

def text (line : Line) : String :=
  decode line.encoding line.lineBuf

def next (line : Line) : Line :=
  { line with lineBuf := [] }

end Line
end Rabbithole.Telnet
