import Rabbithole.Foundation.Codec

/-!
# Telnet commands in a byte stream

The push parser for what a peer sends: plain data, option negotiation, subnegotiations and
bare commands, with the state that is held between reads.
-/

namespace Rabbithole.Telnet

open Foundation List

def IAC : UInt8 := 255
def DONT : UInt8 := 254
def DO : UInt8 := 253
def WONT : UInt8 := 252
def WILL : UInt8 := 251
def SB : UInt8 := 250
def SE : UInt8 := 240

def optEcho : UInt8 := 1
def optSga : UInt8 := 3
def optTtype : UInt8 := 24
def optNaws : UInt8 := 31

def ttypeIs : UInt8 := 0
def ttypeSend : UInt8 := 1

def maxSubneg : Nat := 1024

inductive Event where
  | data (bytes : Bytes)
  | will (option : UInt8)
  | wont (option : UInt8)
  | do (option : UInt8)
  | dont (option : UInt8)
  | subnegotiation (option : UInt8) (payload : Bytes)
  | command (cmd : UInt8)
deriving DecidableEq

inductive ParserState where
  | data
  | iac
  | opt (cmd : UInt8)
  | subOpt
  | sub (option : UInt8)
  | subIac (option : UInt8)
deriving DecidableEq

structure Parser where
  state : ParserState
  subbuf : Bytes
deriving DecidableEq

/-- A parser within one read, with the data that is not yet an event, and the events. -/
structure Feed where
  parser : Parser
  data : Bytes
  events : List Event

def flushData (data : Bytes) : List Event :=
  if data.isEmpty then [] else [.data data]

namespace Parser

def new : Parser :=
  ⟨.data, []⟩

def pushSub (p : Parser) (b : UInt8) : Parser :=
  if p.subbuf.length < maxSubneg then { p with subbuf := p.subbuf ++ [b] } else p

end Parser

namespace Feed

def push (f : Feed) (e : Event) : Feed :=
  { f with data := [], events := f.events ++ flushData f.data ++ [e] }

def afterIac (f : Feed) (b : UInt8) : Feed :=
  if b = IAC then
    { f with data := f.data ++ [IAC], parser := { f.parser with state := .data } }
  else if b = WILL ∨ b = WONT ∨ b = DO ∨ b = DONT then
    { f with parser := { f.parser with state := .opt b } }
  else if b = SB then { f with parser := ⟨.subOpt, []⟩ }
  else { f.push (.command b) with parser := { f.parser with state := .data } }

def byte (f : Feed) (b : UInt8) : Feed :=
  match f.parser.state with
  | .data =>
      if b = IAC then { f with parser := { f.parser with state := .iac } }
      else { f with data := f.data ++ [b] }
  | .iac => f.afterIac b
  | .opt cmd =>
      { f.push (if cmd = WILL then .will b else if cmd = WONT then .wont b
          else if cmd = DO then .do b else .dont b) with
        parser := { f.parser with state := .data } }
  | .subOpt => { f with parser := { f.parser with state := .sub b } }
  | .sub option =>
      if b = IAC then { f with parser := { f.parser with state := .subIac option } }
      else { f with parser := f.parser.pushSub b }
  | .subIac option =>
      if b = IAC then
        { f with parser := { f.parser.pushSub IAC with state := .sub option } }
      else if b = SE then
        { f.push (.subnegotiation option f.parser.subbuf) with parser := ⟨.data, []⟩ }
      else
        -- the end was forgotten: the byte is that of the next command
        { f.push (.subnegotiation option f.parser.subbuf) with
          parser := { f.parser with subbuf := [] } }.afterIac b

end Feed

def Parser.feed (p : Parser) (input : Bytes) : List Event × Parser :=
  let f := input.foldl Feed.byte ⟨p, [], []⟩
  (f.events ++ flushData f.data, f.parser)

def escapeIac (bytes : Bytes) : Bytes :=
  bytes.flatMap (fun b => if b = IAC then [b, IAC] else [b])

theorem escapeIac_append (front back : Bytes) :
    escapeIac (front ++ back) = escapeIac front ++ escapeIac back :=
  flatMap_append

/-!
## What is read, byte for byte

The events of a read say where it ends only by how they cut the data.
-/

/-- A byte of data, or an event that is none. -/
inductive Item where
  | byte (b : UInt8)
  | event (e : Event)
deriving DecidableEq

def Event.items : Event -> List Item
  | .data bytes => bytes.map Item.byte
  | e => [.event e]

def items (events : List Event) : List Item :=
  events.flatMap Event.items

def Feed.items (f : Feed) : List Item :=
  Telnet.items f.events ++ f.data.map Item.byte

/-- What a stream of bytes holds, however it is read. -/
def Parser.items : Parser -> Bytes -> List Item
  | _, [] => []
  | p, b :: rest =>
      let f := Feed.byte ⟨p, [], []⟩ b
      f.items ++ f.parser.items rest

theorem items_append (front back : List Event) : items (front ++ back) = items front ++ items back :=
  flatMap_append

@[simp] theorem items_flushData (data : Bytes) : items (flushData data) = data.map Item.byte := by
  cases data with
  | nil => rfl
  | cons b data => exact append_nil _

namespace Feed

theorem items_push (f : Feed) {e : Event} (he : e.items = [.event e]) :
    (f.push e).items = f.items ++ [.event e] := by
  unfold push items
  simp only [items_append, items_flushData, map_nil, append_nil]
  unfold Telnet.items
  rw [flatMap_singleton, he]

theorem items_data (f : Feed) (b : UInt8) :
    ({ f with data := f.data ++ [b] } : Feed).items = f.items ++ [.byte b] := by
  unfold items
  rw [map_append, ← append_assoc]
  rfl

/-- The same parser, with more read before. -/
structure Extends (front : List Item) (f g : Feed) : Prop where
  parser : f.parser = g.parser
  items : f.items = front ++ g.items

section Extends

variable {front : List Item} {f g : Feed}

theorem Extends.reparse (h : Extends front f g) (p : Parser) :
    Extends front { f with parser := p } { g with parser := p } :=
  ⟨rfl, h.items⟩

theorem Extends.add (h : Extends front f g) (b : UInt8) :
    Extends front { f with data := f.data ++ [b] } { g with data := g.data ++ [b] } := by
  refine ⟨h.parser, ?_⟩
  rw [items_data, items_data, h.items, append_assoc]

theorem Extends.push (h : Extends front f g) {e : Event} (he : e.items = [.event e]) :
    Extends front (f.push e) (g.push e) := by
  refine ⟨h.parser, ?_⟩
  rw [items_push f he, items_push g he, h.items, append_assoc]

theorem Extends.afterIac (h : Extends front f g) (b : UInt8) :
    Extends front (f.afterIac b) (g.afterIac b) := by
  unfold Feed.afterIac
  rw [h.parser]
  split
  · exact (h.add IAC).reparse _
  · split
    · exact h.reparse _
    · split
      · exact h.reparse _
      · exact (h.push rfl).reparse _

theorem Extends.byte (h : Extends front f g) (b : UInt8) : Extends front (f.byte b) (g.byte b) := by
  unfold Feed.byte
  rw [h.parser]
  cases g.parser.state with
  | data =>
      dsimp only
      split
      · exact h.reparse _
      · exact (h.add b).reparse g.parser
  | iac => exact h.afterIac b
  | opt cmd =>
      refine (h.push ?_).reparse _
      split
      · rfl
      · split
        · rfl
        · split
          · rfl
          · rfl
  | subOpt => exact h.reparse _
  | sub option =>
      dsimp only
      split
      all_goals exact h.reparse _
  | subIac option =>
      dsimp only
      split
      · exact h.reparse _
      · split
        · exact (h.push rfl).reparse _
        · exact ((h.push rfl).reparse _).afterIac b

end Extends

theorem byte_items (f : Feed) (b : UInt8) :
    (f.byte b).parser = (Feed.byte ⟨f.parser, [], []⟩ b).parser ∧
      (f.byte b).items = f.items ++ (Feed.byte ⟨f.parser, [], []⟩ b).items := by
  have hempty : Extends f.items f ⟨f.parser, [], []⟩ := ⟨rfl, (append_nil _).symm⟩
  have hbyte := hempty.byte b
  exact ⟨hbyte.parser, hbyte.items⟩

theorem foldl_items (f : Feed) (input more : Bytes) :
    (input.foldl Feed.byte f).items ++ (input.foldl Feed.byte f).parser.items more =
      f.items ++ f.parser.items (input ++ more) := by
  induction input generalizing f with
  | nil => rfl
  | cons b input ih =>
      rcases byte_items f b with ⟨hparser, hitems⟩
      rw [foldl_cons, ih, hitems, hparser, append_assoc]
      rfl

end Feed

theorem Parser.items_feed (p : Parser) (input more : Bytes) :
    Telnet.items (p.feed input).fst ++ (p.feed input).snd.items more = p.items (input ++ more) := by
  have hfold := Feed.foldl_items ⟨p, [], []⟩ input more
  unfold Parser.feed
  rw [items_append, items_flushData]
  exact hfold

end Rabbithole.Telnet
