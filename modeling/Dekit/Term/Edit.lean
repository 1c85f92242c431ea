import Dekit.Term.Grid

namespace Dekit

namespace Term

open Slice

namespace Grid

section touching

def hit (abs start stop : ℕ) (p : Placement) : Bool :=
  p.cells && p.row ≤ abs && abs < p.row + p.rows && p.col < stop && start < saturatingAdd16 p.col p.cols

/-- Cells of a live row are about to be written: a placement drawn into its cells goes if it is one of them. -/
def touch (g : Grid) (row start stop : ℕ) : Grid :=
  if g.placements.isEmpty ∨ stop ≤ start then g
  else
    let hit := hit (g.rowBase + row) start stop
    { g with
      droppedImages := g.droppedImages ++ (g.placements.filter hit).map Placement.key
      placements := g.placements.filter fun p => !hit p }

def shiftPlacements (g : Grid) (top bottom : ℕ) (delta : ℤ) : Grid :=
  let top := g.rowBase + top
  let bottom := g.rowBase + bottom
  { g with placements := g.placements.filterMap fun p =>
      if p.isVirtual ∨ p.row < top ∨ bottom < p.row then some p
      else
        let moved := (p.row : ℤ) + delta
        if moved < top ∨ (bottom : ℤ) < moved then none else some { p with row := moved.toNat } }

end touching

section writing

/-- Puts text, keeping wide cells whole on both sides. A wide text at the last column is written as a blank. -/
def writeCell (g : Grid) (pos : Pos) (text : CellText) (style : StyleId) : Option Grid :=
  let width := g.size.width
  if width ≤ pos.col ∨ g.size.height ≤ pos.row then some g
  else do
    let stop ← add16 pos.col (if text.isWide then 2 else 1)
    let g := g.touch pos.row pos.col stop
    g.modifyRow pos.row fun row => do
      let row := row.set pos.col ⟨text, style⟩
      if text.isWide then
        let next ← add16 pos.col 1
        if next < width then some (row.set next ⟨.continuation, style⟩) else some (row.set pos.col (.filler style))
      else some row

/-- Clears the half of a wide cell that is cut at a column, in its own style. -/
def clearOwn (row : Row) (col : ℕ) : Option Row := do
  let cell ← row.cells[col]?
  some (row.clearWide col cell.style)

/-- Writes a run of single-width ASCII into one row, without moving the cursor. -/
def writeAsciiRow (g : Grid) (pos : Pos) (bytes : List Char) (style : StyleId) : Option Grid :=
  if bytes.isEmpty ∨ g.size.height ≤ pos.row then some g
  else
    let stop := min (pos.col + bytes.length) g.size.width
    let g := g.touch pos.row pos.col stop
    g.modifyRow pos.row fun row => do
      -- The halves of wide cells cut at either end of the run keep their own style.
      let row ← clearOwn row pos.col
      let row ← if 0 < stop then clearOwn row (stop - 1) else some row
      let cells ← onRange row.cells pos.col stop fun old =>
        (bytes.take old.length).map fun b => ⟨.ofScalar b 1, style⟩
      some { row with cells := cells }

end writing

section erasing

def eraseAll (g : Grid) (style : StyleId) : Grid :=
  { g with
    rows := g.rows.map fun row => blankInPlace row style
    droppedImages := g.droppedImages ++ (g.placements.filter Placement.cells).map Placement.key
    placements := g.placements.filter Placement.isVirtual }

def blankRow (g : Grid) (style : StyleId) (row : ℕ) : Option Grid :=
  (g.touch row 0 g.size.width).modifyRow row fun row => some (blankInPlace row style)

def eraseCols (g : Grid) (start stop : ℕ) (style : StyleId) : Option Grid :=
  (g.touch g.pos.row start stop).modifyRow g.pos.row fun row =>
    some ((List.range' start (stop - start)).foldl (fun row col => row.erase col style) row)

def eraseRow (g : Grid) (style : StyleId) : Option Grid :=
  (g.touch g.pos.row 0 g.size.width).modifyRow g.pos.row fun row => some (row.clear style)

def eraseRowForward (g : Grid) (style : StyleId) : Option Grid := do
  let lastCol ← g.lastCol
  g.eraseCols (min g.pos.col lastCol) g.size.width style

def eraseRowBackward (g : Grid) (style : StyleId) : Option Grid := do
  let lastCol ← g.lastCol
  let stop ← add16 (min g.pos.col lastCol) 1
  g.eraseCols 0 stop style

def eraseAllForward (g : Grid) (style : StyleId) : Option Grid := do
  let first := g.pos.row + 1
  let g ← (List.range' first (g.rows.length - first)).foldlM (fun g row => g.blankRow style row) g
  g.eraseRowForward style

def eraseAllBackward (g : Grid) (style : StyleId) : Option Grid := do
  let g ← (List.range (min g.pos.row g.rows.length)).foldlM (fun g row => g.blankRow style row) g
  g.eraseRowBackward style

def eraseCells (g : Grid) (count : ℕ) (style : StyleId) : Option Grid := do
  let lastCol ← g.lastCol
  let col := min g.pos.col lastCol
  g.eraseCols col (min (saturatingAdd16 col (max count 1)) g.size.width) style

end erasing

section editing

/-- The column an edit of the margins starts at, none when the cursor is outside them. -/
def editCol (g : Grid) : Option (Option ℕ) := do
  let lastCol ← g.lastCol
  let col := min g.pos.col lastCol
  some (if col < g.marginLeft ∨ g.marginRight < col then none else some col)

/-- An edit of the cells of a row from a column to the right margin. -/
def editRow (g : Grid) (row col : ℕ) (f : Row → Option Row) : Option Grid := do
  let stop ← add16 g.marginRight 1
  (g.touch row col stop).modifyRow row f

def insertCells (g : Grid) (count : ℕ) (style : StyleId) : Option Grid := do
  match ← g.editCol with
  | none => some g
  | some col => g.editRow g.pos.row col fun row => row.insertBlanks col (max count 1) g.marginRight style

def deleteCells (g : Grid) (count : ℕ) (style : StyleId) : Option Grid := do
  match ← g.editCol with
  | none => some g
  | some col => g.editRow g.pos.row col fun row => row.deleteCells col (max count 1) g.marginRight style

def regionRows (g : Grid) : List ℕ := List.range' g.scrollTop (g.scrollBottom + 1 - g.scrollTop)

def insertColumns (g : Grid) (count : ℕ) (style : StyleId) : Option Grid := do
  match ← g.editCol with
  | none => some g
  | some col => g.regionRows.foldlM (fun g row => g.editRow row col fun row =>
      row.insertBlanks col (max count 1) g.marginRight style) g

def deleteColumns (g : Grid) (count : ℕ) (style : StyleId) : Option Grid := do
  match ← g.editCol with
  | none => some g
  | some col => g.regionRows.foldlM (fun g row => g.editRow row col fun row =>
      row.deleteCells col (max count 1) g.marginRight style) g

end editing

section lines

/-- Copies the cells between the margins from a row, or blanks where there is none, into another row. -/
def copyCells (g : Grid) (source : Option ℕ) (style : StyleId) (row : ℕ) : Option Grid := do
  let stop ← add16 g.marginRight 1
  let g := g.touch row g.marginLeft stop
  let cells ← match source with
    | some source => do
      let source ← g.rows[source]?
      Slice.range source.cells g.marginLeft (g.marginRight + 1)
    | none => do
      let span ← sub g.marginRight g.marginLeft
      some (Row.blanks (span + 1) style)
  g.modifyRow row fun row => do
    let cells ← onRange row.cells g.marginLeft (g.marginRight + 1) fun _ => cells
    some ⟨cells, false⟩

/-- Shifts the cells between the margins of rows up; blanks enter at the bottom. -/
def shiftCellsUp (g : Grid) (top bottom count : ℕ) (style : StyleId) : Option Grid :=
  (List.range' top (bottom + 1 - top)).foldlM (fun g row =>
    g.copyCells (if row + count ≤ bottom then some (row + count) else none) style row) g

def shiftCellsDown (g : Grid) (top bottom count : ℕ) (style : StyleId) : Option Grid :=
  (List.range' top (bottom + 1 - top)).reverse.foldlM (fun g row =>
    g.copyCells (if top + count ≤ row then some (row - count) else none) style row) g

variable (charWidth : Char → Option ℕ)

def maxScrollback (g : Grid) : ℕ := g.history.rowsAt charWidth g.size.width

def dropScrolledPlacements (g : Grid) : Grid :=
  let first := g.rowBase - g.maxScrollback charWidth
  { g with placements := g.placements.filter fun p => p.isVirtual || first < p.row + p.rows }

/-- The top row of the region moves to the bottom and is blanked there, after history has it. -/
def scrollOne (top bottom : ℕ) (toHistory : Bool) (style : StyleId) (g : Grid) : Option Grid := do
  let rows ← onRange g.rows top (bottom + 1) (rotateLeft 1)
  let gone ← rows[bottom]?
  let g := if toHistory then
      { g with
        history := g.history.commit charWidth gone g.tables
        viewOffset := if 0 < g.viewOffset then g.viewOffset + 1 else g.viewOffset }
    else g
  some { g with rows := rows.set bottom (blankInPlace gone style) }

/-- Scrolls the region up: the top row leaves, into history when the region is the whole screen. -/
def scrollUp (g : Grid) (count : ℕ) (style : StyleId) : Option Grid := do
  let top := g.scrollTop
  let bottom := g.scrollBottom
  let span ← sub bottom top
  let count := min count (span + 1)
  if count = 0 then some g
  else if ← g.marginsActive then g.shiftCellsUp top bottom count style
  else
    let fullScreen := !(← g.scrollRegionActive)
    let toHistory := fullScreen && 0 < g.history.capacity
    let g ← times (scrollOne charWidth top bottom toHistory style) count g
    let g := if fullScreen then dropScrolledPlacements charWidth { g with rowBase := g.rowBase + count }
      else g.shiftPlacements top bottom (-count)
    some (if 0 < g.viewOffset then
        -- History may have dropped lines at the top.
        { g with viewOffset := min g.viewOffset (g.maxScrollback charWidth), viewStale := true }
      else g)

/-- A blank row enters at the top of rows, and the one that leaves at the bottom is reused for it. -/
def rotateOne (top bottom : ℕ) (style : StyleId) (g : Grid) : Option Grid := do
  let rows ← onRange g.rows top (bottom + 1) (rotateRight 1)
  let entering ← rows[top]?
  some { g with rows := rows.set top (blankInPlace entering style) }

def rotateDown (g : Grid) (top bottom count : ℕ) (style : StyleId) : Option Grid := do
  let g ← times (rotateOne top bottom style) count g
  g.modifyRow g.scrollBottom fun row => some (row.wrap false)

def scrollDown (g : Grid) (count : ℕ) (style : StyleId) : Option Grid := do
  let top := g.scrollTop
  let bottom := g.scrollBottom
  let span ← sub bottom top
  let count := min count (span + 1)
  if count = 0 then some g
  else if ← g.marginsActive then g.shiftCellsDown top bottom count style
  else
    let g ← g.rotateDown top bottom count style
    some (g.shiftPlacements top bottom count)

def insertLines (g : Grid) (count : ℕ) (style : StyleId) : Option Grid :=
  if !g.inScrollRegion then some g
  else do
    let top := g.pos.row
    let bottom := g.scrollBottom
    let span ← sub bottom top
    let count := min (max count 1) (span + 1)
    if ← g.marginsActive then g.shiftCellsDown top bottom count style
    else
      let g ← g.rotateDown top bottom count style
      some (g.shiftPlacements top bottom count)

/-- The top of the rows leaves them, and a blank one enters at the bottom. -/
def deleteOne (top bottom : ℕ) (style : StyleId) (g : Grid) : Option Grid := do
  let rows ← onRange g.rows top (bottom + 1) (rotateLeft 1)
  let entering ← rows[bottom]?
  some { g with rows := rows.set bottom (blankInPlace entering style) }

def deleteLines (g : Grid) (count : ℕ) (style : StyleId) : Option Grid :=
  if !g.inScrollRegion then some g
  else do
    let top := g.pos.row
    let bottom := g.scrollBottom
    let span ← sub bottom top
    let count := min (max count 1) (span + 1)
    if ← g.marginsActive then g.shiftCellsUp top bottom count style
    else
      let g ← times (deleteOne top bottom style) count g
      some (g.shiftPlacements top bottom (-count))

end lines

section moving

variable (charWidth : Char → Option ℕ)

/-- Moves down, scrolling the region when the cursor leaves it at the bottom: how many lines scrolled. -/
def rowIncScroll (g : Grid) (count : ℕ) (style : StyleId) : Option (ℕ × Grid) := do
  let inRegion := g.inScrollRegion
  let (lines, g) ← { g with pos := { g.pos with row := saturatingAdd16 g.pos.row count } }.rowClampBottom inRegion
  if inRegion ∧ 0 < lines then
    let g ← g.scrollUp charWidth lines style
    some (lines, g)
  else some (0, g)

def rowDecScroll (g : Grid) (count : ℕ) (style : StyleId) : Option Grid :=
  let inRegion := g.inScrollRegion
  let extra := count - g.pos.row
  let (lines, g) := { g with pos := { g.pos with row := g.pos.row - count } }.rowClampTop inRegion
  if inRegion then do
    let lines ← add16 lines extra
    g.scrollDown lines style
  else some g

/-- The blank room from a column to the right margin becomes padding. A glyph already there stays. -/
def padRow (start right : ℕ) (style : StyleId) (row : Row) : Row :=
  (List.range' start (right + 1 - start)).foldl (fun row col =>
    match row.get col with
    | some cell => if !cell.hasContents && !cell.isContinuation then row.set col (.filler style) else row
    | none => row) row

/-- Marks a row as going on in another when that is the next one. -/
def markWrapped (g : Grid) (prevRow newRow : ℕ) : Option Grid := do
  let fullWidth := !(← g.marginsActive)
  let next ← add16 prevRow 1
  match g.drawingRow prevRow with
  | none => some g
  | some row => some { g with rows := g.rows.set prevRow (row.wrap (fullWidth && next = newRow)) }

/-- The column for the next cell of a width, wrapping to the next line when it does not fit. -/
def colWrap (g : Grid) (width : ℕ) (style : StyleId) : Option Grid := do
  let right := g.marginRight
  let needed ← add16 g.pos.col width
  let room ← add16 right 1
  if room < needed then
    let prevRow := g.pos.row
    let g ← if g.pos.col ≤ right then
        (g.touch prevRow g.pos.col room).modifyRow prevRow fun row => some (padRow g.pos.col right style row)
      else some g
    let (scrolled, g) ← { g with pos := { g.pos with col := g.marginLeft } }.rowIncScroll charWidth 1 style
    g.markWrapped (prevRow - scrolled) g.pos.row
  else some g

end moving

section view

variable (charWidth : Char → Option ℕ)

def refreshView (g : Grid) : Grid :=
  if g.viewOffset = 0 then { g with viewStale := false, viewAbove := [] }
  else
    let (rows, tables) :=
      g.history.rowsAbove charWidth g.viewOffset (min g.viewOffset g.size.height) g.size.width g.tables
    { g with viewStale := false, viewAbove := rows, tables := tables }

def settleView (g : Grid) : Grid := if g.viewStale then g.refreshView charWidth else g

def setScrollback (g : Grid) (rows : ℕ) : Grid :=
  refreshView charWidth { g with viewOffset := min rows (g.maxScrollback charWidth) }

def clearHistory (g : Grid) : Grid :=
  { g with
    history := g.history.clear
    viewOffset := 0
    viewAbove := []
    placements := g.placements.filter fun p => p.isVirtual || g.rowBase < p.row + p.rows }

end view

section text

@[irreducible] def maxLineText : ℕ := 4096

@[irreducible] def maxPlaceholderSlots : ℕ := 1024

/-- The first row of the logical line that a row ends. -/
def lineStart (rows : List Row) : ℕ → Option ℕ
  | 0 => some 0
  | row + 1 => do
    let above ← rows[row]?
    if above.wrapped then lineStart rows row else some (row + 1)

/-- The characters that fit in so many bytes. -/
def cutBytes : ℕ → List Char → List Char
  | _, [] => []
  | n, c :: text => if c.utf8Size ≤ n then c :: cutBytes (n - c.utf8Size) text else []

def isWhitespace (c : Char) : Bool :=
  let n := c.toNat
  (0x09 ≤ n ∧ n ≤ 0x0D) ∨ n = 0x20 ∨ n = 0x85 ∨ n = 0xA0 ∨ n = 0x1680 ∨ (0x2000 ≤ n ∧ n ≤ 0x200A) ∨ n = 0x2028 ∨
    n = 0x2029 ∨ n = 0x202F ∨ n = 0x205F ∨ n = 0x3000

def trimEnd (text : List Char) : List Char := (text.reverse.dropWhile isWhitespace).reverse

def pushRowText (g : Grid) (text : List Char) (row : ℕ) : Option (List Char) :=
  if maxLineText ≤ utf8Len text then some text
  else do
    let row ← g.rows[row]?
    some (text ++ row.textOf row.cells.length g.tables.graphemes)

/-- The text of the logical line that a row ends, cut, trailing blanks trimmed. -/
def lineText (g : Grid) (row : ℕ) : Option (List Char) := do
  let row := min row (g.rows.length - 1)
  let first ← lineStart g.rows row
  let text := match first, g.history.isOpen, g.history.lines.getLast? with
    | 0, true, some line => line.text
    | _, _, _ => []
  let text ← (List.range' first (row + 1 - first)).foldlM g.pushRowText text
  some (trimEnd (cutBytes maxLineText text))

def placeholderSlot (g : Grid) (imageId placementId : ℕ) : Option ℕ × Grid :=
  match g.placeholderSlots.findIdx? (· = (imageId, placementId)) with
  | some i => (some i, g)
  | none =>
    if maxPlaceholderSlots ≤ g.placeholderSlots.length then (none, g)
    else (some g.placeholderSlots.length, { g with placeholderSlots := g.placeholderSlots ++ [(imageId, placementId)] })

def placeholderIds (g : Grid) (slot : ℕ) : Option (ℕ × ℕ) := g.placeholderSlots[slot]?

end text

end Grid

end Term

end Dekit
