import Dekit.Term.Screen

namespace Dekit

namespace Term

open Slice Vt

namespace Screen

variable {I : Type} (x : Externs I)

def glSet (s : Screen I) : CharSet := s.charsets s.gl

section cells

/-- Where the cell before the cursor is: on its row, or at the end of the previous one when that wrapped here. -/
def prevPos (s : Screen I) : Option (Option Pos) := do
  let g := s.activeGrid
  let pos := g.pos
  if g.marginLeft < pos.col ∧ pos.col ≤ g.size.width then some (some ⟨pos.row, pos.col - 1⟩)
  else if 0 < pos.row ∧ pos.col = g.marginLeft ∧ (g.drawingRow (pos.row - 1)).any Row.wrapped then
    let lastCol ← g.lastCol
    some (some ⟨pos.row - 1, lastCol⟩)
  else some none

/-- The cell at a position, or the wide cell whose right half it is. -/
def wholeCell (g : Grid) (pos : Pos) : Option (Pos × Cell) := do
  let cell ← g.drawingCell pos
  if cell.isContinuation ∧ 0 < pos.col then
    let pos := { pos with col := pos.col - 1 }
    let cell ← g.drawingCell pos
    some (pos, cell)
  else some (pos, cell)

/-- The cell before the cursor, if there is one to attach to. -/
def prevCell (s : Screen I) : Option (Option Pos × Prev) := do
  let pos ← s.prevPos
  let g := s.activeGrid
  some (match pos.bind (wholeCell g) with
    | none => (none, .none)
    | some (pos, cell) =>
      if !cell.hasContents || cell.text.isImage then (none, .none)
      else
        let text := cell.text.asStr g.tables.graphemes
        let first := text.head?.getD ' '
        (some pos,
          { isThere := true
            afterZwj := text.getLast?.getD ' ' = zwj
            loneRi := isRegionalIndicator first && text.length ≤ 1
            emojiBase := isEmojiBase first
            width := cell.width }))

def join (s : Screen I) (pos : Pos) (c : Char) (widen : Option ℕ) : Option (Screen I) :=
  let g := s.activeGrid
  match g.drawingCell pos with
  | none => some s
  | some cell =>
    let text := cell.text.asStr g.tables.graphemes
    if maxClusterBytes < utf8Len text + c.utf8Size then some s
    else
      let width := widen.getD (max cell.width 1)
      let (text, g) := g.cellText (text ++ [c]) width
      if width = 2 ∧ cell.width < 2 then do
        let next ← add16 pos.col 1
        if g.size.width ≤ next then
          -- No room: it stays narrow.
          let g ← g.writeCell pos (text.withWidth 1) cell.style
          some (s.putGrid g)
        else
          let cursor := g.pos
          let g ← g.writeCell pos text cell.style
          -- The cell grows to the right; a cursor sitting there moves on.
          some (s.putGrid (if cursor.row = pos.row ∧ cursor.col = next then g.colInc 1 else g))
      else do
        let g ← g.writeCell pos text cell.style
        some (s.putGrid g)

/-- Puts the cursor where the next cell of a width goes, and says whether it fits there. -/
def makeRoom (autowrap : Bool) (w : ℕ) (style : StyleId) (g : Grid) : Option (Bool × Grid) := do
  let needed ← add16 g.pos.col w
  let room ← add16 g.marginRight 1
  if room < needed then
    -- The line goes on in the next row.
    if autowrap then
      let g ← g.colWrap x.charWidth w style
      some (true, g)
    else
      let g := g.colStay
      let next ← add16 g.pos.col 1
      -- A wide character on the last column does not fit.
      some (!(w = 2 ∧ g.marginRight < next), g)
  else some (true, g)

def writeNew (s : Screen I) (c : Char) (w : ℕ) : Option (Screen I) := do
  let (style, s) := s.styleId
  let (fits, g) ← makeRoom x s.modes.autowrap w style s.activeGrid
  if !fits then some (s.putGrid g)
  else
    let g ← if s.modes.insert then g.insertCells w style else some g
    let g ← g.writeCell g.pos (.ofScalar c w) style
    some { s.putGrid (g.colInc w) with lastChar := some c, placeholderMarks := 0 }

def repeatLast (s : Screen I) (count : ℕ) : Option (Screen I) :=
  match s.lastChar with
  | none => some s
  | some c =>
    let width := max ((scalarWidth x.charWidth c).getD 1) 1
    times (fun s => s.writeNew x c width) (min (max count 1) s.activeGrid.size.width) s

end cells

section placeholders

def colorId (color : Color) : ℕ :=
  match color with
  | .default => 0
  | .idx n => n.toNat
  | .rgb r g b => r.toNat * 65536 + g.toNat * 256 + b.toNat

/-- What part of its image a placeholder shows: the next of the one to its left, if that is of the same image. -/
def partAfter (left : Option Cell) (slot : ℕ) : ℕ × ℕ :=
  match left.map Cell.text with
  | some (.image s row col) => if s = slot then (row, saturatingAdd16 col 1) else (0, 0)
  | _ => (0, 0)

def writePlaceholder (s : Screen I) : Option (Screen I) := do
  let (style, s) := s.styleId
  let g := s.activeGrid
  let g ← if g.marginRight < g.pos.col then
      if s.modes.autowrap then g.colWrap x.charWidth 1 style else some g.colStay
    else some g
  let (slot, g) := g.placeholderSlot (colorId s.style.fg) (colorId s.style.ul)
  match slot with
  | none => some (s.putGrid g)
  | some slot =>
    let left := if g.pos.col = 0 then none else g.drawingCell { g.pos with col := g.pos.col - 1 }
    let part := partAfter left slot
    let g ← g.writeCell g.pos (.ofImage slot part.1 part.2) style
    some { s.putGrid (g.colInc 1) with placeholderMarks := 0, lastChar := none }

/-- Applies a diacritic to the placeholder at a position; false when the cell there is none. -/
def markPlaceholder (s : Screen I) (pos : Pos) (mark : ℕ) : Option (Bool × Screen I) :=
  let g := s.activeGrid
  match g.drawingCell pos with
  | some ⟨.image slot row col, style⟩ =>
    let (text, g) : Option CellText × Grid := match s.placeholderMarks with
      | 0 => (some (.ofImage slot mark col), g)
      | 1 => (some (.ofImage slot row mark), g)
      | 2 =>
        -- The third diacritic is the image id's high byte.
        match g.placeholderIds slot with
        | none => (none, g)
        | some (imageId, placementId) =>
          let (slot, g) := g.placeholderSlot (imageId % 16777216 + mark % 256 * 16777216) placementId
          (slot.map fun slot => .ofImage slot row col, g)
      | _ => (none, g)
    match text with
    | none => some (true, s.putGrid g)
    | some text => do
      let g ← g.writeCell pos text style
      some (true, { s.putGrid g with placeholderMarks := s.placeholderMarks + 1 })
  | _ => some (false, s)

end placeholders

section runs

/-- One scalar after the character set, and the marks of placeholders. -/
def putScalar (s : Screen I) (c : Char) : Option (Screen I) := do
  let prev ← s.prevCell
  match attach x.charWidth c prev.2 with
  | .new width => s.writeNew x c width
  | .join => match prev.1 with
    | some pos => s.join pos c none
    | none => some s
  | .joinWide => match prev.1 with
    | some pos => s.join pos c (some 2)
    | none => some s

def putChar (s : Screen I) (c : Char) : Option (Screen I) :=
  let set := match s.singleShift with
    | some g => s.charsets g
    | none => s.glSet
  let s := { s with singleShift := none }
  let c := if c.toNat < 0x80 then set.translate c else c
  if (scalarWidth x.charWidth c).isNone then some s
  else if c = CellText.placeholder then s.writePlaceholder x
  else do
    -- A placeholder's diacritics say which part of the image it shows.
    let (marked, s) ← match markIndex c with
      | none => some (false, s)
      | some mark => do
        match ← s.prevPos with
        | none => some (false, s)
        | some pos => s.markPlaceholder pos mark
    if marked then some s else s.putScalar x c

def isPlain (c : Char) : Bool := 0x20 ≤ c.toNat ∧ c.toNat ≤ 0x7E

/-- Writes a run of plain ASCII within the current row: how many characters of it. -/
def blit (s : Screen I) (run : List Char) : Option (ℕ × Screen I) :=
  let g := s.activeGrid
  if run.isEmpty ∨ g.marginRight < g.pos.col then some (0, s)
  else do
    let stop ← add16 g.marginRight 1
    let room ← sub stop g.pos.col
    let n := min run.length room
    let pos := g.pos
    let s ← s.withStyle fun style g => do
      let g ← g.writeAsciiRow pos (run.take n) style
      some (g.colInc n)
    let last ← (run.take n).getLast?
    some (n, { s with lastChar := some last, placeholderMarks := 0 })

/-- One scalar of a run, and the plain ASCII after it as far as it goes in the row: how many characters of that. -/
def textTurn (s : Screen I) (c : Char) (rest : List Char) : Option (ℕ × Screen I) := do
  let s ← s.putChar x c
  -- Anything but plain ASCII may absorb what follows.
  if !isPlain c || s.modes.insert || s.glSet ≠ .ascii then some (0, s) else s.blit (rest.takeWhile isPlain)

/-- A run of printable text, some characters of which are written already. -/
def textRun : ℕ → List Char → Screen I → Option (Screen I)
  | _, [], s => some s
  | skip + 1, _ :: rest, s => textRun skip rest s
  | 0, c :: rest, s => do
    let (n, s) ← s.textTurn x c rest
    textRun n rest s

end runs

end Screen

end Term

end Dekit
