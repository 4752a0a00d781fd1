import Mathlib
import Rabbithole.Foundation.Cp437

/-!
# Art

A file of terminal art is run into a grid of cells, byte by byte.  The machine's sums,
differences and products, and what memory holds, have their limits, and going past one is a
panic.
-/

namespace Rabbithole.Art

open Foundation List

def maxHeight : Nat := 10000

def maxParam : Nat := 32767

def maxParams : Nat := 32

def u16Max : Nat := 2 ^ 16 - 1

def add (bits a b : Nat) : Option Nat :=
  if a + b < 2 ^ bits then some (a + b) else none

def sub (a b : Nat) : Option Nat :=
  if b <= a then some (a - b) else none

def mul (bits a b : Nat) : Option Nat :=
  if a * b < 2 ^ bits then some (a * b) else none

namespace Attrs

def bold : UInt8 := 1

def blink : UInt8 := 2

def reverse : UInt8 := 4

end Attrs

structure Cell where
  ch : Char
  fg : Nat
  bg : Nat
  attrs : UInt8

def Cell.default : Cell :=
  ⟨' ', 7, 0, 0⟩

structure Canvas where
  cells : List Cell
  width : Nat
  height : Nat
  /-- The column and the row. -/
  cursor : Nat × Nat

namespace Canvas

def new (width : Nat) : Canvas :=
  ⟨[], max width 1, 0, (0, 0)⟩

variable (memory : Nat)

/-- As many cells as that, if there is memory for them. -/
def resize (cells : List Cell) (len : Nat) : Option (List Cell) :=
  if len <= memory then
    some (cells.take len ++ List.replicate (len - cells.length) Cell.default)
  else none

def ensureRow (c : Canvas) (y : Nat) : Option Canvas :=
  if c.height <= min y (maxHeight - 1) then do
    let height <- add 64 (min y (maxHeight - 1)) 1
    let len <- mul 64 height c.width
    let cells <- resize memory c.cells len
    some { c with cells := cells, height := height }
  else some c

def set (c : Canvas) (x y : Nat) (cell : Cell) : Option Canvas := do
  let c <- c.ensureRow memory y
  if x < c.width ∧ y < c.height then
    let line <- mul 64 y c.width
    let place <- add 64 line x
    if place < c.cells.length then some { c with cells := c.cells.set place cell } else none
  else some c

def clearAll (c : Canvas) : Canvas :=
  { c with cells := List.replicate c.cells.length Cell.default }

/-- Clears the cells from one place up to another, as far as there are cells. -/
def clearRange (c : Canvas) (start stop : Nat) : Canvas :=
  let start := min start c.cells.length
  let stop := min stop c.cells.length
  if start < stop then
    { c with
      cells := c.cells.take start ++ List.replicate (stop - start) Cell.default ++
        c.cells.drop stop }
  else c

end Canvas

structure Pen where
  fg : Nat
  bg : Nat
  bold : Bool
  blink : Bool
  reverse : Bool

def Pen.default : Pen :=
  ⟨7, 0, false, false, false⟩

/-- What one parameter does to the pen. -/
def Pen.select (pen : Pen) (p : Nat) : Option Pen :=
  if p = 0 then some Pen.default
  else if p = 1 then some { pen with bold := true }
  else if p = 5 ∨ p = 6 then some { pen with blink := true }
  else if p = 7 then some { pen with reverse := true }
  else if p = 22 then some { pen with bold := false }
  else if p = 25 then some { pen with blink := false }
  else if p = 27 then some { pen with reverse := false }
  else if 30 <= p ∧ p <= 37 then do
    let fg <- sub p 30
    some { pen with fg := fg }
  else if p = 39 then some { pen with fg := 7 }
  else if 90 <= p ∧ p <= 97 then do
    let color <- sub p 90
    let fg <- add 8 color 8
    some { pen with fg := fg }
  else if 40 <= p ∧ p <= 47 then do
    let bg <- sub p 40
    some { pen with bg := bg }
  else if p = 49 then some { pen with bg := 0 }
  else if 100 <= p ∧ p <= 107 then do
    let color <- sub p 100
    let bg <- add 8 color 8
    some { pen with bg := bg }
  else some pen

inductive State where
  | ground
  | escape
  | escapeIntermediate
  | csi

structure AnsiParser where
  canvas : Canvas
  state : State
  pen : Pen
  savedCursor : Option (Nat × Nat)
  iceColors : Bool
  params : List Nat
  curParam : Option Nat
  isPrivate : Bool
  done : Bool

namespace AnsiParser

def withWidth (width : Nat) : AnsiParser :=
  ⟨Canvas.new width, .ground, Pen.default, none, false, [], none, false, false⟩

def setIceColors (p : AnsiParser) (on : Bool) : AnsiParser :=
  { p with iceColors := on }

def moveTo (p : AnsiParser) (x y : Nat) : AnsiParser :=
  { p with canvas := { p.canvas with cursor := (x, y) } }

def restoreCursor (p : AnsiParser) : AnsiParser :=
  match p.savedCursor with
  | none => p
  | some (x, y) => p.moveTo x y

def pushParam (p : AnsiParser) : AnsiParser :=
  { p with
    params := if p.params.length < maxParams then p.params ++ [p.curParam.getD 0] else p.params
    curParam := none }

def paramOr (p : AnsiParser) (i default : Nat) : Nat :=
  if p.params.getD i 0 = 0 then default else p.params.getD i 0

def dispatchPrivate (p : AnsiParser) (final : UInt8) : AnsiParser :=
  if final = 0x68 ∧ p.params.head? = some 33 then { p with iceColors := true }
  else if final = 0x6c ∧ p.params.head? = some 33 then { p with iceColors := false }
  else p

def sgr (p : AnsiParser) : Option AnsiParser :=
  if p.params = [] then some { p with pen := Pen.default }
  else do
    let pen <- p.params.foldlM Pen.select p.pen
    some { p with pen := pen }

def eraseDisplay (p : AnsiParser) : Option AnsiParser := do
  let x := p.canvas.cursor.fst
  let y := p.canvas.cursor.snd
  if p.params.getD 0 0 = 0 then
    let line <- mul 64 y p.canvas.width
    let start <- add 64 line x
    some { p with canvas := p.canvas.clearRange start p.canvas.cells.length }
  else if p.params.getD 0 0 = 1 then
    let line <- mul 64 y p.canvas.width
    let place <- add 64 line x
    let stop <- add 64 place 1
    some { p with canvas := p.canvas.clearRange 0 stop }
  else if p.params.getD 0 0 = 2 ∨ p.params.getD 0 0 = 3 then
    some { p with canvas := { p.canvas.clearAll with cursor := (0, 0) } }
  else some p

def eraseLine (p : AnsiParser) : Option AnsiParser := do
  let x := p.canvas.cursor.fst
  let y := p.canvas.cursor.snd
  if p.canvas.height <= y then some p
  else
    let line <- mul 64 y p.canvas.width
    if p.params.getD 0 0 = 0 then
      let start <- add 64 line x
      let stop <- add 64 line p.canvas.width
      some { p with canvas := p.canvas.clearRange start stop }
    else if p.params.getD 0 0 = 1 then
      let place <- add 64 line x
      let stop <- add 64 place 1
      some { p with canvas := p.canvas.clearRange line stop }
    else if p.params.getD 0 0 = 2 then
      let stop <- add 64 line p.canvas.width
      some { p with canvas := p.canvas.clearRange line stop }
    else some p

def dispatchCsi (p : AnsiParser) (final : UInt8) : Option AnsiParser := do
  let x := p.canvas.cursor.fst
  let y := p.canvas.cursor.snd
  if p.isPrivate then some (p.dispatchPrivate final)
  else if final = 0x6d then p.sgr
  else if final = 0x41 then some (p.moveTo x (y - p.paramOr 0 1))
  else if final = 0x42 then
    let row <- add 64 y (p.paramOr 0 1)
    some (p.moveTo x (min row (maxHeight - 1)))
  else if final = 0x43 then
    let col <- add 64 x (p.paramOr 0 1)
    let last <- sub p.canvas.width 1
    some (p.moveTo (min col last) y)
  else if final = 0x44 then some (p.moveTo (x - p.paramOr 0 1) y)
  else if final = 0x48 ∨ final = 0x66 then
    let row <- sub (p.paramOr 0 1) 1
    let col <- sub (p.paramOr 1 1) 1
    let last <- sub p.canvas.width 1
    some (p.moveTo (min col last) (min row (maxHeight - 1)))
  else if final = 0x73 then some { p with savedCursor := some p.canvas.cursor }
  else if final = 0x75 then some p.restoreCursor
  else if final = 0x4a then p.eraseDisplay
  else if final = 0x4b then p.eraseLine
  else some p

variable (memory : Nat)

/-- A color, or the bright one of the same kind. -/
def bright (on : Bool) (color : Nat) : Option Nat :=
  if on ∧ color < 8 then add 8 color 8 else some color

def putChar (p : AnsiParser) (ch : Char) : Option AnsiParser := do
  let x := p.canvas.cursor.fst
  let y := p.canvas.cursor.snd
  let fg <- bright p.pen.bold p.pen.fg
  let bg <- bright (p.iceColors && p.pen.blink) p.pen.bg
  let attrs := (if p.pen.bold then Attrs.bold else 0) |||
    (if p.pen.blink ∧ ¬ p.iceColors then Attrs.blink else 0) |||
    (if p.pen.reverse then Attrs.reverse else 0)
  let canvas <- p.canvas.set memory x y ⟨ch, fg, bg, attrs⟩
  let next <- add 64 x 1
  if canvas.width <= next then
    let row <- add 64 y 1
    some ({ p with canvas := canvas }.moveTo 0 (min row (maxHeight - 1)))
  else some ({ p with canvas := canvas }.moveTo next y)

def ground (p : AnsiParser) (b : UInt8) : Option AnsiParser := do
  let x := p.canvas.cursor.fst
  let y := p.canvas.cursor.snd
  if b = 0x1b then some { p with state := .escape }
  else if b = 0x1a then some { p with done := true }
  else if b = 0x0d then some (p.moveTo 0 y)
  else if b = 0x0a then
    let row <- add 64 y 1
    some (p.moveTo x (min row (maxHeight - 1)))
  else if b = 0x09 then
    let stops <- add 64 (x / 8) 1
    let next <- mul 64 stops 8
    some (p.moveTo (min next (p.canvas.width - 1)) y)
  else if b = 0x00 ∨ b = 0x07 ∨ b = 0x08 ∨ b = 0x0b ∨ b = 0x0c ∨ (0x0e <= b ∧ b <= 0x19) ∨
      (0x1c <= b ∧ b <= 0x1f) then some p
  else p.putChar memory (cp437Char b)

def escape (p : AnsiParser) (b : UInt8) : AnsiParser :=
  if b = 0x5b then { p with params := [], curParam := none, isPrivate := false, state := .csi }
  else if b = 0x37 then { p with savedCursor := some p.canvas.cursor, state := .ground }
  else if b = 0x38 then { p.restoreCursor with state := .ground }
  else if b = 0x1b then p
  else if 0x20 <= b ∧ b <= 0x2f then { p with state := .escapeIntermediate }
  else { p with state := .ground }

def escapeIntermediate (p : AnsiParser) (b : UInt8) : AnsiParser :=
  if 0x20 <= b ∧ b <= 0x2f then p
  else if b = 0x1b then { p with state := .escape }
  else { p with state := .ground }

def csi (p : AnsiParser) (b : UInt8) : Option AnsiParser :=
  if 0x30 <= b ∧ b <= 0x39 then do
    let d <- sub b.toNat 0x30
    some { p with
      curParam := some (min (min (min (p.curParam.getD 0 * 10) u16Max + d) u16Max) maxParam) }
  else if b = 0x3b ∨ b = 0x3a then some p.pushParam
  else if b = 0x3f ∨ b = 0x3c ∨ b = 0x3d ∨ b = 0x3e then some { p with isPrivate := true }
  else if b = 0x1b then some { p with state := .escape }
  else if 0x20 <= b ∧ b <= 0x2f then some p
  else if 0x40 <= b ∧ b <= 0x7e then do
    let p <- p.pushParam.dispatchCsi b
    some { p with state := .ground }
  else some { p with state := .ground }

def step (p : AnsiParser) (b : UInt8) : Option AnsiParser :=
  match p.state with
  | .ground => p.ground memory b
  | .escape => some (p.escape b)
  | .escapeIntermediate => some (p.escapeIntermediate b)
  | .csi => p.csi b

def feed : AnsiParser -> List UInt8 -> Option AnsiParser
  | p, [] => some p
  | p, b :: rest =>
      if p.done then some p
      else do
        let p <- p.step memory b
        feed p rest

end AnsiParser

/-!
## What no byte breaks
-/

/-- There is no panic, and what comes of it is such. -/
def Gives {value : Type} (r : Option value) (P : value -> Prop) : Prop :=
  exists v, r = some v ∧ P v

section

variable {value value' : Type} {P : value -> Prop} {Q : value' -> Prop}

theorem Gives.bind {r : Option value} {f : value -> Option value'} (h : Gives r P)
    (hf : forall v, P v -> Gives (f v) Q) : Gives (r >>= f) Q := by
  rcases h with ⟨v, rfl, hv⟩
  exact hf v hv

theorem gives_ite {c : Prop} [Decidable c] {r r' : Option value} (h : c -> Gives r P)
    (h' : ¬ c -> Gives r' P) : Gives (if c then r else r') P := by
  split
  · rename_i hc
    exact h hc
  · rename_i hc
    exact h' hc

theorem gives_add {bits a b : Nat} {f : Nat -> Option value} (h : a + b < 2 ^ bits)
    (hf : Gives (f (a + b)) P) : Gives (add bits a b >>= f) P := by
  unfold add
  rw [if_pos h]
  exact hf

theorem gives_sub {a b : Nat} {f : Nat -> Option value} (h : b <= a)
    (hf : Gives (f (a - b)) P) : Gives (sub a b >>= f) P := by
  unfold sub
  rw [if_pos h]
  exact hf

theorem gives_mul {bits a b : Nat} {f : Nat -> Option value} (h : a * b < 2 ^ bits)
    (hf : Gives (f (a * b)) P) : Gives (mul bits a b >>= f) P := by
  unfold mul
  rw [if_pos h]
  exact hf

end

def Palette (cells : List Cell) : Prop :=
  forall cell, cell ∈ cells -> cell.fg <= 15 ∧ cell.bg <= 15

/-- There is room for a canvas of all the rows that there can be. -/
structure Room (memory width : Nat) : Prop where
  pos : 0 < width
  addresses : width * maxHeight < 2 ^ 64
  cells : width * maxHeight <= memory

def Inside (width : Nat) (cursor : Nat × Nat) : Prop :=
  cursor.fst < width ∧ cursor.snd < maxHeight

structure Canvas.Sound (width : Nat) (c : Canvas) : Prop where
  width_eq : c.width = width
  inside : Inside width c.cursor
  full : c.cells.length = c.height * width
  low : c.height <= maxHeight
  palette : Palette c.cells

structure AnsiParser.Sound (width : Nat) (p : AnsiParser) : Prop where
  canvas : p.canvas.Sound width
  pen : p.pen.fg <= 15 ∧ p.pen.bg <= 15
  few : p.params.length <= maxParams
  params : forall v, v ∈ p.params -> v <= maxParam
  current : p.curParam.getD 0 <= maxParam
  saved : forall cursor, p.savedCursor = some cursor -> Inside width cursor

section

variable {memory width : Nat} {cells : List Cell} {c : Canvas}

theorem inside_origin (h : 0 < width) : Inside width (0, 0) :=
  ⟨h, by decide⟩

theorem palette_default : Pen.default.fg <= 15 ∧ Pen.default.bg <= 15 := by
  decide

theorem palette_replicate (n : Nat) : Palette (List.replicate n Cell.default) := by
  intro cell hcell
  rw [eq_of_mem_replicate hcell]
  exact ⟨by decide, by decide⟩

theorem Palette.append {cells' : List Cell} (h : Palette cells) (h' : Palette cells') :
    Palette (cells ++ cells') := by
  intro cell hcell
  rcases mem_append.mp hcell with hleft | hright
  · exact h cell hleft
  · exact h' cell hright

theorem place_lt {x y height : Nat} (hx : x < width) (hy : y < height) :
    y * width + x < height * width := by
  have hrows : (y + 1) * width <= height * width := Nat.mul_le_mul_right width hy
  rw [Nat.succ_mul] at hrows
  omega

theorem Room.place (h : Room memory width) {x y : Nat} (hx : x < width) (hy : y < maxHeight) :
    y * width + x + 1 < 2 ^ 64 ∧ y * width + width < 2 ^ 64 := by
  have hplace := place_lt hx hy
  have hend := place_lt (Nat.sub_lt h.pos Nat.one_pos) hy
  have hroom := h.addresses
  rw [Nat.mul_comm] at hroom
  omega

namespace Canvas

theorem Sound.ensureRow (hroom : Room memory width) (h : c.Sound width) {y : Nat}
    (hy : y < maxHeight) :
    Gives (c.ensureRow memory y) (fun c' => c'.Sound width ∧ y < c'.height) := by
  have hmin : min y (maxHeight - 1) = y := Nat.min_eq_left (Nat.le_sub_one_of_lt hy)
  unfold Canvas.ensureRow
  rw [hmin]
  split
  · have hlen : (y + 1) * c.width <= width * maxHeight := by
      rw [h.width_eq, Nat.mul_comm]
      exact Nat.mul_le_mul_left width hy
    have hadd : y + 1 < 2 ^ 64 := by
      unfold maxHeight at hy
      omega
    apply gives_add hadd
    apply gives_mul (Nat.lt_of_le_of_lt hlen hroom.addresses)
    unfold resize
    rw [if_pos (Nat.le_trans hlen hroom.cells)]
    refine ⟨_, rfl, ⟨h.width_eq, h.inside, ?_, hy, ?_⟩, Nat.lt_succ_self y⟩
    · dsimp only
      rw [length_append, length_take, length_replicate, h.width_eq]
      omega
    · exact Palette.append (fun cell hcell => h.palette cell (mem_of_mem_take hcell))
        (palette_replicate _)
  · rename_i hless
    exact ⟨c, rfl, h, Nat.lt_of_not_le hless⟩

theorem Sound.set (hroom : Room memory width) (h : c.Sound width) {x y : Nat} {cell : Cell}
    (hxy : Inside width (x, y)) (hcell : cell.fg <= 15 ∧ cell.bg <= 15) :
    Gives (c.set memory x y cell) (Sound width) := by
  apply (h.ensureRow hroom hxy.right).bind
  rintro c' ⟨h', hrow⟩
  split
  · have hx : x < width := hxy.left
    have hplace := hroom.place hx hxy.right
    dsimp only at hplace
    rw [h'.width_eq]
    apply gives_mul (by omega)
    apply gives_add (by omega)
    rw [if_pos (h'.full ▸ place_lt hx hrow)]
    refine ⟨_, rfl, rfl, h'.inside, ?_, h'.low, ?_⟩
    · dsimp only
      rw [length_set]
      exact h'.full
    · intro other hother
      rcases mem_or_eq_of_mem_set hother with hold | hnew
      · exact h'.palette other hold
      · rw [hnew]
        exact hcell
  · exact ⟨c', rfl, h'⟩

theorem Sound.clearRange (h : c.Sound width) (start stop : Nat) :
    (c.clearRange start stop).Sound width := by
  unfold Canvas.clearRange
  dsimp only
  split
  · refine ⟨h.width_eq, h.inside, ?_, h.low, ?_⟩
    · dsimp only
      rw [<- h.full, length_append, length_append, length_take, length_replicate, length_drop]
      omega
    · apply Palette.append
      · exact Palette.append (fun cell hcell => h.palette cell (mem_of_mem_take hcell))
          (palette_replicate _)
      · exact fun cell hcell => h.palette cell (mem_of_mem_drop hcell)
  · exact h

end Canvas

theorem gives_select {pen : Pen} (h : pen.fg <= 15 ∧ pen.bg <= 15) (v : Nat) :
    Gives (pen.select v) (fun pen' => pen'.fg <= 15 ∧ pen'.bg <= 15) := by
  rcases h with ⟨hfg, hbg⟩
  have hsame : forall bold blink reverse, Gives (some (Pen.mk pen.fg pen.bg bold blink reverse))
        (fun pen' => pen'.fg <= 15 ∧ pen'.bg <= 15) :=
    fun _ _ _ => ⟨_, rfl, hfg, hbg⟩
  unfold Pen.select
  refine gives_ite (fun _ => ⟨_, rfl, by decide, by decide⟩) (fun _ => ?_)
  refine gives_ite (fun _ => hsame _ _ _) (fun _ => ?_)
  refine gives_ite (fun _ => hsame _ _ _) (fun _ => ?_)
  refine gives_ite (fun _ => hsame _ _ _) (fun _ => ?_)
  refine gives_ite (fun _ => hsame _ _ _) (fun _ => ?_)
  refine gives_ite (fun _ => hsame _ _ _) (fun _ => ?_)
  refine gives_ite (fun _ => hsame _ _ _) (fun _ => ?_)
  refine gives_ite (fun hdark => gives_sub hdark.left ?_) (fun _ => ?_)
  · exact ⟨_, rfl, by dsimp only; omega, hbg⟩
  refine gives_ite (fun _ => ⟨_, rfl, by dsimp only; omega, hbg⟩) (fun _ => ?_)
  refine gives_ite (fun hbright => gives_sub hbright.left (gives_add (by omega) ?_)) (fun _ => ?_)
  · exact ⟨_, rfl, by dsimp only; omega, hbg⟩
  refine gives_ite (fun hdark => gives_sub hdark.left ?_) (fun _ => ?_)
  · exact ⟨_, rfl, hfg, by dsimp only; omega⟩
  refine gives_ite (fun _ => ⟨_, rfl, hfg, by dsimp only; omega⟩) (fun _ => ?_)
  refine gives_ite (fun hbright => gives_sub hbright.left (gives_add (by omega) ?_))
    (fun _ => hsame _ _ _)
  exact ⟨_, rfl, hfg, by dsimp only; omega⟩

theorem gives_selects {pen : Pen} (h : pen.fg <= 15 ∧ pen.bg <= 15) (params : List Nat) :
    Gives (params.foldlM Pen.select pen) (fun pen' => pen'.fg <= 15 ∧ pen'.bg <= 15) := by
  induction params generalizing pen with
  | nil => exact ⟨pen, rfl, h⟩
  | cons v rest ih =>
      rw [foldlM_cons]
      exact (gives_select h v).bind (fun pen' h' => ih h')

namespace AnsiParser

variable {p : AnsiParser}

theorem Sound.moved (h : p.Sound width) {x y : Nat} (hx : x < width) (hy : y < maxHeight) :
    Gives (some (p.moveTo x y)) (Sound width) :=
  ⟨_, rfl, ⟨h.canvas.width_eq, ⟨hx, hy⟩, h.canvas.full, h.canvas.low, h.canvas.palette⟩, h.pen,
    h.few, h.params, h.current, h.saved⟩

theorem Sound.redrawn (h : p.Sound width) (hc : c.Sound width) :
    Sound width { p with canvas := c } :=
  ⟨hc, h.pen, h.few, h.params, h.current, h.saved⟩

theorem Sound.restored (h : p.Sound width) : Gives (some p.restoreCursor) (Sound width) := by
  unfold restoreCursor
  cases hsaved : p.savedCursor with
  | none => exact ⟨p, rfl, h⟩
  | some cursor => exact h.moved (h.saved cursor hsaved).left (h.saved cursor hsaved).right

theorem Sound.pushed (h : p.Sound width) : p.pushParam.Sound width := by
  refine ⟨h.canvas, h.pen, ?_, ?_, Nat.zero_le _, h.saved⟩
  · unfold pushParam
    dsimp only
    split
    · rename_i hless
      rw [length_append]
      exact hless
    · exact h.few
  · unfold pushParam
    dsimp only
    split
    · intro v hv
      rcases mem_append.mp hv with hold | hnew
      · exact h.params v hold
      · rw [mem_singleton.mp hnew]
        exact h.current
    · exact h.params

theorem Sound.paramOr_le (h : p.Sound width) (i : Nat) :
    p.paramOr i 1 <= maxParam ∧ 1 <= p.paramOr i 1 := by
  have hle : p.params.getD i 0 <= maxParam := by
    rw [getD_eq_getElem?_getD]
    cases hget : p.params[i]? with
    | none => exact Nat.zero_le _
    | some v => exact h.params v (mem_of_getElem? hget)
  unfold paramOr
  split
  · exact ⟨by decide, Nat.le_refl 1⟩
  · rename_i hne
    exact ⟨hle, Nat.pos_of_ne_zero hne⟩

section Bytes

variable (hroom : Room memory width)
include hroom

section

variable (h : p.Sound width)
include h

theorem Sound.eraseDisplay : Gives p.eraseDisplay (Sound width) := by
  have hplace := hroom.place h.canvas.inside.left h.canvas.inside.right
  dsimp only [AnsiParser.eraseDisplay]
  rw [h.canvas.width_eq]
  refine gives_ite (fun _ => ?_) (fun _ => gives_ite (fun _ => ?_) (fun _ => gives_ite
    (fun _ => ?_) (fun _ => ⟨p, rfl, h⟩)))
  · refine gives_mul (by omega) (gives_add (by omega) ?_)
    exact ⟨_, rfl, h.redrawn (h.canvas.clearRange _ _)⟩
  · refine gives_mul (by omega) (gives_add (by omega) (gives_add hplace.left ?_))
    exact ⟨_, rfl, h.redrawn (h.canvas.clearRange _ _)⟩
  · refine ⟨_, rfl, h.redrawn ⟨h.canvas.width_eq, inside_origin hroom.pos, ?_, h.canvas.low,
      palette_replicate _⟩⟩
    exact length_replicate.trans h.canvas.full

theorem Sound.eraseLine : Gives p.eraseLine (Sound width) := by
  have hplace := hroom.place h.canvas.inside.left h.canvas.inside.right
  dsimp only [AnsiParser.eraseLine]
  rw [h.canvas.width_eq]
  refine gives_ite (fun _ => ⟨p, rfl, h⟩) (fun _ => gives_mul (by omega) ?_)
  refine gives_ite (fun _ => ?_) (fun _ => gives_ite (fun _ => ?_) (fun _ => gives_ite
    (fun _ => ?_) (fun _ => ⟨p, rfl, h⟩)))
  · refine gives_add (by omega) (gives_add hplace.right ?_)
    exact ⟨_, rfl, h.redrawn (h.canvas.clearRange _ _)⟩
  · refine gives_add (by omega) (gives_add hplace.left ?_)
    exact ⟨_, rfl, h.redrawn (h.canvas.clearRange _ _)⟩
  · refine gives_add hplace.right ?_
    exact ⟨_, rfl, h.redrawn (h.canvas.clearRange _ _)⟩

theorem Sound.dispatchCsi (final : UInt8) : Gives (p.dispatchCsi final) (Sound width) := by
  have hx := h.canvas.inside.left
  have hy := h.canvas.inside.right
  have hpos := hroom.pos
  have hwide := hroom.addresses
  have hfirst := h.paramOr_le 0
  have hsecond := h.paramOr_le 1
  have hlast : forall n, min n (width - 1) < width :=
    fun n => Nat.lt_of_le_of_lt (Nat.min_le_right n _) (Nat.sub_lt hpos Nat.one_pos)
  have hlow : forall n, min n (maxHeight - 1) < maxHeight :=
    fun n => Nat.lt_of_le_of_lt (Nat.min_le_right n _) (by decide)
  unfold maxHeight at hwide
  unfold maxParam at hfirst
  dsimp only [AnsiParser.dispatchCsi]
  rw [h.canvas.width_eq]
  refine gives_ite (fun _ => ?_) (fun _ => gives_ite (fun _ => ?_) (fun _ => gives_ite
    (fun _ => h.moved hx (Nat.lt_of_le_of_lt (Nat.sub_le _ _) hy)) (fun _ => gives_ite
    (fun _ => ?_) (fun _ => gives_ite (fun _ => ?_) (fun _ => gives_ite
    (fun _ => h.moved (Nat.lt_of_le_of_lt (Nat.sub_le _ _) hx) hy) (fun _ => gives_ite
    (fun _ => ?_) (fun _ => gives_ite (fun _ => ?_) (fun _ => gives_ite
    (fun _ => h.restored) (fun _ => gives_ite (fun _ => h.eraseDisplay hroom)
    (fun _ => gives_ite (fun _ => h.eraseLine hroom) (fun _ => ⟨p, rfl, h⟩)))))))))))
  · unfold dispatchPrivate
    split
    · exact ⟨_, rfl, h.canvas, h.pen, h.few, h.params, h.current, h.saved⟩
    · split
      · exact ⟨_, rfl, h.canvas, h.pen, h.few, h.params, h.current, h.saved⟩
      · exact ⟨p, rfl, h⟩
  · unfold sgr
    split
    · exact ⟨_, rfl, h.canvas, palette_default, h.few, h.params, h.current, h.saved⟩
    · apply (gives_selects h.pen p.params).bind
      intro pen hpen
      exact ⟨_, rfl, h.canvas, hpen, h.few, h.params, h.current, h.saved⟩
  · exact gives_add (by unfold maxHeight at hy; omega) (h.moved hx (hlow _))
  · exact gives_add (by omega) (gives_sub hpos (h.moved (hlast _) hy))
  · exact gives_sub hfirst.right (gives_sub hsecond.right (gives_sub hpos
      (h.moved (hlast _) (hlow _))))
  · refine ⟨_, rfl, h.canvas, h.pen, h.few, h.params, h.current, ?_⟩
    intro cursor hcursor
    cases hcursor
    exact h.canvas.inside

theorem Sound.putChar (ch : Char) : Gives (p.putChar memory ch) (Sound width) := by
  have hx := h.canvas.inside.left
  have hy := h.canvas.inside.right
  have hwide := hroom.addresses
  rcases h.pen with ⟨hfg, hbg⟩
  unfold maxHeight at hwide
  have hbright : forall on color, color <= 15 -> Gives (bright on color) (fun v => v <= 15) := by
    intro on color hcolor
    exact gives_ite (fun hdark => ⟨color + 8, if_pos (by omega), by omega⟩)
      (fun _ => ⟨color, rfl, hcolor⟩)
  dsimp only [AnsiParser.putChar]
  apply (hbright _ _ hfg).bind
  intro fg hfg'
  apply (hbright _ _ hbg).bind
  intro bg hbg'
  apply (h.canvas.set hroom h.canvas.inside ⟨hfg', hbg'⟩).bind
  intro canvas hcanvas
  have hdrawn := h.redrawn hcanvas
  refine gives_add (by omega) (gives_ite (fun _ => gives_add ?_ ?_) (fun hmore => ?_))
  · unfold maxHeight at hy
    omega
  · exact hdrawn.moved hroom.pos (Nat.lt_of_le_of_lt (Nat.min_le_right _ _) (by decide))
  · rw [hcanvas.width_eq] at hmore
    exact hdrawn.moved (Nat.lt_of_not_le hmore) hy

theorem Sound.ground (b : UInt8) : Gives (p.ground memory b) (Sound width) := by
  have hx := h.canvas.inside.left
  have hy := h.canvas.inside.right
  have hpos := hroom.pos
  have hwide := hroom.addresses
  unfold maxHeight at hwide
  dsimp only [AnsiParser.ground]
  rw [h.canvas.width_eq]
  refine gives_ite (fun _ => ?_) (fun _ => gives_ite (fun _ => ?_) (fun _ => gives_ite
    (fun _ => h.moved hpos hy) (fun _ => gives_ite (fun _ => gives_add ?_ (h.moved hx ?_))
    (fun _ => gives_ite (fun _ => gives_add (by omega) (gives_mul (by omega)
    (h.moved (by omega) hy))) (fun _ => gives_ite (fun _ => ⟨p, rfl, h⟩)
    (fun _ => h.putChar hroom _))))))
  · exact ⟨_, rfl, h.canvas, h.pen, h.few, h.params, h.current, h.saved⟩
  · exact ⟨_, rfl, h.canvas, h.pen, h.few, h.params, h.current, h.saved⟩
  · unfold maxHeight at hy
    omega
  · exact Nat.lt_of_le_of_lt (Nat.min_le_right _ _) (by decide)

theorem Sound.step (b : UInt8) : Gives (p.step memory b) (Sound width) := by
  unfold AnsiParser.step
  have hplain : forall state, Sound width { p with state := state } :=
    fun _ => ⟨h.canvas, h.pen, h.few, h.params, h.current, h.saved⟩
  split
  · exact h.ground hroom b
  · unfold escape
    split
    · exact ⟨_, rfl, h.canvas, h.pen, Nat.zero_le _, nofun, Nat.zero_le _, h.saved⟩
    split
    · refine ⟨_, rfl, h.canvas, h.pen, h.few, h.params, h.current, ?_⟩
      intro cursor hcursor
      cases hcursor
      exact h.canvas.inside
    split
    · rcases h.restored with ⟨p', hp', h'⟩
      cases hp'
      exact ⟨_, rfl, h'.canvas, h'.pen, h'.few, h'.params, h'.current, h'.saved⟩
    split
    · exact ⟨p, rfl, h⟩
    split
    all_goals exact ⟨_, rfl, hplain _⟩
  · unfold escapeIntermediate
    split
    · exact ⟨p, rfl, h⟩
    split
    all_goals exact ⟨_, rfl, hplain _⟩
  · unfold csi
    refine gives_ite (fun hdigit => gives_sub (UInt8.le_iff_toNat_le.mp hdigit.left) ?_)
      (fun _ => gives_ite (fun _ => ⟨_, rfl, h.pushed⟩) (fun _ => gives_ite (fun _ => ?_)
      (fun _ => gives_ite (fun _ => ⟨_, rfl, hplain _⟩) (fun _ => gives_ite
      (fun _ => ⟨p, rfl, h⟩) (fun _ => gives_ite (fun _ => ?_)
      (fun _ => ⟨_, rfl, hplain _⟩))))))
    · exact ⟨_, rfl, h.canvas, h.pen, h.few, h.params, Nat.min_le_right _ _, h.saved⟩
    · exact ⟨_, rfl, h.canvas, h.pen, h.few, h.params, h.current, h.saved⟩
    · apply (h.pushed.dispatchCsi hroom b).bind
      intro p' h'
      exact ⟨_, rfl, h'.canvas, h'.pen, h'.few, h'.params, h'.current, h'.saved⟩

theorem Sound.feed (bytes : List UInt8) : Gives (feed memory p bytes) (Sound width) := by
  induction bytes generalizing p with
  | nil => exact ⟨p, rfl, h⟩
  | cons b rest ih =>
      unfold AnsiParser.feed
      exact gives_ite (fun _ => ⟨p, rfl, h⟩) (fun _ => (h.step hroom b).bind (fun p' => ih))

end

end Bytes

/-- Whatever bytes come, there is no panic, and the canvas is whole and the cursor on it. -/
def Total (memory width : Nat) : Prop :=
  forall iceColors bytes,
    Gives (feed memory ((withWidth width).setIceColors iceColors) bytes) (Sound (max width 1))

theorem feed_lines (hstate : p.state = .ground) (hdone : p.done = false) (n : Nat)
    (hn : p.canvas.cursor.snd + n < maxHeight) (rest : List UInt8) :
    feed memory p (List.replicate n 0x0a ++ rest) =
      feed memory (p.moveTo p.canvas.cursor.fst (p.canvas.cursor.snd + n)) rest := by
  induction n generalizing p with
  | zero => rfl
  | succ n ih =>
      have hrow : p.canvas.cursor.snd + 1 < 2 ^ 64 := by
        unfold maxHeight at hn
        omega
      have hstep : p.step memory 0x0a =
          some (p.moveTo p.canvas.cursor.fst (p.canvas.cursor.snd + 1)) := by
        unfold step
        rw [hstate]
        show (add 64 p.canvas.cursor.snd 1 >>= _) = _
        unfold add
        rw [if_pos hrow]
        show some (p.moveTo _ (min _ _)) = _
        rw [Nat.min_eq_left (by omega)]
      have hlater := @ih (p.moveTo p.canvas.cursor.fst (p.canvas.cursor.snd + 1)) hstate hdone
        (by show p.canvas.cursor.snd + 1 + n < maxHeight; omega)
      rw [replicate_succ, cons_append, feed, if_neg (by rw [hdone]; decide), hstep]
      refine hlater.trans (congrArg (fun y => feed memory (p.moveTo _ y) rest) ?_)
      exact Nat.succ_add_eq_add_succ _ n

theorem row_of_total (h : Total memory width) {y : Nat} (hy : y < maxHeight) :
    (y + 1) * max width 1 < 2 ^ 64 ∧ (y + 1) * max width 1 <= memory := by
  have hlast : min y (maxHeight - 1) = y := Nat.min_eq_left (Nat.le_sub_one_of_lt hy)
  have hadd : y + 1 < 2 ^ 64 := by
    unfold maxHeight at hy
    omega
  rcases h false (List.replicate y 0x0a ++ [0x78]) with ⟨p, hfeed, -⟩
  rw [feed_lines rfl rfl y (by rwa [<- Nat.zero_add y] at hy)] at hfeed
  have hrow : (Canvas.mk [] (max width 1) 0 (0, 0 + y)).ensureRow memory (0 + y) ≠ none := by
    intro hnone
    have hpanic : feed memory (((withWidth width).setIceColors false).moveTo 0 (0 + y)) [0x78] =
        none := by
      show ((Canvas.ensureRow memory (Canvas.mk [] (max width 1) 0 (0, 0 + y)) (0 + y) >>= _)
        >>= _) >>= _ = none
      rw [hnone]
      rfl
    cases hpanic.symm.trans hfeed
  unfold Canvas.ensureRow at hrow
  rw [Nat.zero_add, hlast, if_pos (Nat.zero_le y), add, if_pos hadd] at hrow
  have hlen : (y + 1) * max width 1 < 2 ^ 64 := by
    by_contra hover
    apply hrow
    show (mul 64 (y + 1) (max width 1) >>= _) = none
    unfold mul
    rw [if_neg hover]
    rfl
  refine ⟨hlen, ?_⟩
  by_contra hover
  apply hrow
  show (mul 64 (y + 1) (max width 1) >>= fun len => Canvas.resize memory [] len >>= _) = none
  unfold mul
  rw [if_pos hlen]
  show (Canvas.resize memory [] ((y + 1) * max width 1) >>= _) = none
  unfold Canvas.resize
  rw [if_neg hover]
  rfl

theorem room_of_total (h : Total memory width) : Room memory (max width 1) := by
  have hlast := row_of_total h (Nat.sub_lt (by decide : 0 < maxHeight) Nat.one_pos)
  rw [Nat.mul_comm] at hlast
  exact ⟨Nat.lt_of_lt_of_le Nat.one_pos (Nat.le_max_right _ _), hlast.left, hlast.right⟩

theorem wide_not_total : ¬ Total (2 ^ 60 - 1) (2 ^ 63) :=
  fun h => absurd (room_of_total h).addresses (by decide)

/-- The interpreter is total where a canvas of all the rows can be addressed and held. -/
theorem total_iff (memory width : Nat) : Total memory width <-> Room memory (max width 1) := by
  constructor
  · exact room_of_total
  · intro hroom iceColors bytes
    refine Sound.feed hroom ?_ bytes
    exact ⟨⟨rfl, inside_origin hroom.pos, (Nat.zero_mul _).symm, Nat.zero_le _, nofun⟩,
      palette_default, Nat.zero_le _, nofun, Nat.zero_le _, nofun⟩

end AnsiParser

end

end Rabbithole.Art
