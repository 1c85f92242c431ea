import Dekit.Term.Edit

namespace Dekit

namespace Term

open Slice

/-- Where a placement's top-left cell is before a reflow: at a cell offset of a live line or of a history line, or on a
blank row so far below the content. -/
inductive Anchor where
  | line (line offset : ℕ)
  | history (index offset : ℕ)
  | below (k : ℕ)

/-- The live rows as logical lines: those done, the cells of the next one, and where each row's cells start. -/
structure Flat where
  lines : List (List Cell)
  current : List Cell
  rowStarts : List (ℕ × ℕ)

/-- For each place that is looked for, the row and column it is found at. -/
abbrev Found := List (Option (ℕ × ℕ))

/-- The lines that history gives back: their rows, before the live ones, and for each line its index, how many of its
rows stay in history and how many are live. -/
structure Back where
  rows : List Row
  history : History
  tables : Tables
  backRows : ℕ
  back : List (ℕ × ℕ × ℕ × Line)

namespace Grid

section flattening

def usedLen (g : Grid) (row : Row) : ℕ := row.usedLen fun id => (g.tables.styles.get id).isVisibleBlank

def usedRows (g : Grid) : ℕ := max (g.rows.reverse.dropWhile fun row => g.usedLen row = 0).length (g.pos.row + 1)

/-- The cells of a line in its rows, and only those: neither fillers nor what pads the last row. -/
def pullCells : ℕ → List Row → List Cell
  | _, [] => []
  | remaining, row :: rows =>
    let cells := (row.cells.filter fun c => !c.text.isFiller).take remaining
    cells ++ pullCells (remaining - cells.length) rows

def flattenRow (g : Grid) (usedRows : ℕ) (s : Flat) (p : Row × ℕ) : Flat :=
  let row := p.1
  let wrapped := row.wrapped && p.2 + 1 < usedRows
  let len := if wrapped then g.size.width else g.usedLen row
  -- A wide cell's other half comes along.
  let len := if (row.cells[len]?).any Cell.isContinuation then len + 1 else len
  let current := s.current ++ (row.cells.take len).filter fun c => !c.text.isFiller
  let rowStarts := s.rowStarts ++ [(s.lines.length, s.current.length)]
  if wrapped then ⟨s.lines, current, rowStarts⟩ else ⟨s.lines ++ [current], [], rowStarts⟩

def flatten (g : Grid) (usedRows : ℕ) (current : List Cell) : Flat :=
  let s := (g.rows.take usedRows).zipIdx.foldl (g.flattenRow usedRows) ⟨[], current, []⟩
  if s.current.isEmpty then s else { s with lines := s.lines ++ [s.current], current := [] }

end flattening

section anchors

variable (charWidth : Char → Option ℕ)

/-- Where a classic placement is, none when it is nowhere in history any more. -/
def anchorOf (g : Grid) (usedRows pulledRows : ℕ) (pulled : Option Line) (rowStarts : List (ℕ × ℕ)) (p : Placement) :
    Option Anchor :=
  let width := g.size.width
  if g.rowBase ≤ p.row then
    let i := p.row - g.rowBase
    match rowStarts[i]? with
    | some (line, start) => some (.line line (start + p.col))
    | none => some (.below (i - usedRows))
  else
    let above := g.rowBase - p.row
    if above ≤ pulledRows then
      let row := pulledRows - above
      let start := match pulled with
        | some line => line.offsetOfRow charWidth width row
        | none => row * width
      some (.line 0 (start + p.col))
    else match g.history.locate charWidth (above - pulledRows) width with
      | some (index, row) =>
        let start := match g.history.lines[index]? with
          | some line => line.offsetOfRow charWidth width row
          | none => 0
        some (.history index (start + p.col))
      | none => none

/-- The classic placements that are somewhere, by their place in the list, with their anchors. -/
def placementAnchors (g : Grid) (usedRows pulledRows : ℕ) (pulled : Option Line) (rowStarts : List (ℕ × ℕ)) :
    List (ℕ × Anchor) :=
  g.placements.zipIdx.filterMap fun p =>
    if p.1.isVirtual then none
    else (g.anchorOf charWidth usedRows pulledRows pulled rowStarts p.1).map fun anchor => (p.2, anchor)

/-- Where an anchor landed. `bottom` is the absolute row of the first reflowed row. -/
def landing (h : History) (found : Found) (bottom reflowedRows width : ℕ) (p : Placement) (slot : ℕ) (anchor : Anchor) :
    Option (ℕ × ℕ) :=
  match anchor with
  | .line _ _ => (found[slot]?.getD none).map fun at' => (bottom + at'.1, min at'.2 65535)
  | .below k => some (bottom + (reflowedRows + k), p.col)
  | .history index offset =>
    match h.lines[index]? with
    | none => none
    | some line =>
      let at' := line.rowColOf charWidth width offset
      let below := 1 + h.rowsBelow charWidth index at'.1 width
      if below ≤ bottom then some (bottom - below, at'.2) else none

/-- The placements where their anchors landed; those whose anchor is nowhere go. -/
def placeAnchors (placements : List Placement) (h : History) (anchors : List (ℕ × Anchor)) (found : Found)
    (bottom reflowedRows width : ℕ) : List Placement :=
  placements.zipIdx.filterMap fun (p, pi) =>
    if p.isVirtual then some p
    else match anchors.zipIdx.find? fun a => a.1.1 = pi with
      | none => none
      | some ((_, anchor), slot) =>
        (landing charWidth h found bottom reflowedRows width p slot anchor).map fun at' =>
          { p with row := at'.1, col := at'.2 }

end anchors

section wrapping

def note (wanted : List (ℕ × ℕ)) (offset : ℕ) (at' : ℕ × ℕ) (found : Found) : Option Found :=
  wanted.foldlM (fun found w => if w.1 = offset then setAt found w.2 (some at') else some found) found

/-- A row that a wide cell did not fit in: the room it skips is padding. -/
def padded (width : ℕ) (cells : List Cell) : List Cell :=
  cells ++ List.replicate (width - cells.length) (.filler ((cells.getLast?.map Cell.style).getD 0))

/-- Wraps the cells of a line from an offset on: rows done, the cells of the row in the making. -/
def wrapCells (width firstRow : ℕ) (wanted : List (ℕ × ℕ)) :
    List Cell → ℕ → List (List Cell) → List Cell → Found → Option (List (List Cell) × Found)
  | [], _, done, row, found => some (done ++ [row], found)
  | cell :: cells, i, done, row, found => do
    let full := width < row.length + max cell.width 1 ∧ row ≠ []
    let done := if full then done ++ [padded width row] else done
    let row := if full then [] else row
    let found ← note wanted i (firstRow + done.length, row.length) found
    let row := row ++ [cell]
    if cell.isWide then
      match cells with
      | half :: rest =>
        if half.isContinuation then
          let found ← note wanted (i + 1) (firstRow + done.length, row.length) found
          wrapCells width firstRow wanted rest (i + 2) done (row ++ [half]) found
        else wrapCells width firstRow wanted (half :: rest) (i + 1) done (row ++ [⟨.continuation, cell.style⟩]) found
      | [] => wrapCells width firstRow wanted [] (i + 1) done (row ++ [⟨.continuation, cell.style⟩]) found
    else wrapCells width firstRow wanted cells (i + 1) done row found

/-- A place past the cells of a line: blanks lead to it, and the cursor alone wraps onto rows of its own. -/
def pastEnd (width lastRow rowLen count cursorSlot : ℕ) (s : ℕ × Found) (w : ℕ × ℕ) : Option (ℕ × Found) := do
  let old ← s.2[w.2]?
  if old.isSome then some s
  else
    let room := width - rowLen
    let index := w.1 - count
    if index < room ∨ w.2 ≠ cursorSlot then
      let found ← setAt s.2 w.2 (some (lastRow, rowLen + index))
      some (s.1, found)
    else if index = room then
      let found ← setAt s.2 w.2 (some (lastRow, width))
      some (s.1, found)
    else
      let extra := (index - room) / width + 1
      let found ← setAt s.2 w.2 (some (lastRow + extra, (index - room) % width))
      some (extra, found)

def rowsOf (width : ℕ) (lines : List (List Cell)) : List Row :=
  lines.zipIdx.map fun (cells, i) => (Row.fromCells cells width).wrap (i + 1 < lines.length)

/-- Wraps a line at the new width, after the rows so far. -/
def wrapLine (width cursorSlot : ℕ) (wanted : List (ℕ × ℕ)) (s : List Row × Found) (cells : List Cell) :
    Option (List Row × Found) := do
  let firstRow := s.1.length
  let (lines, found) ← wrapCells width firstRow wanted cells 0 [] [] s.2
  let lastLine ← lines.getLast?
  let (extend, found) ←
    wanted.foldlM (pastEnd width (firstRow + (lines.length - 1)) lastLine.length cells.length cursorSlot) (0, found)
  some (s.1 ++ rowsOf width (lines ++ List.replicate extend []), found)

/-- The offsets to find on a line, and their slots. -/
def wantedOn (anchors : List (ℕ × Anchor)) (cursorLine cursorOffset line : ℕ) : List (ℕ × ℕ) :=
  (anchors.zipIdx.filterMap fun (a, slot) =>
    match a.2 with
    | .line l offset => if l = line then some (offset, slot) else none
    | _ => none) ++ if cursorLine = line then [(cursorOffset, anchors.length)] else []

def wrapLines (width : ℕ) (anchors : List (ℕ × Anchor)) (cursorLine cursorOffset : ℕ) (lines : List (List Cell)) :
    Option (List Row × Found) :=
  lines.zipIdx.foldlM (fun s p =>
    wrapLine width anchors.length (wantedOn anchors cursorLine cursorOffset p.2) s p.1)
    ([], List.replicate (anchors.length + 1) none)

end wrapping

section back

variable (charWidth : Char → Option ℕ)

/-- Lines that history holds come back while the screen has room, the last of them split at the top. -/
def pullBack (height width : ℕ) : ℕ → Back → Back
  | 0, s => s
  | n + 1, s =>
    if s.rows.length < height then
      match s.history.popLast charWidth with
      | (none, _) => s
      | (some line, history) =>
        let (lineRows, tables) := line.rows charWidth width s.tables
        let keep := lineRows.length - (height - s.rows.length)
        let history := (lineRows.take keep).foldl (fun h row => h.commit charWidth row tables) history
        let live := lineRows.drop keep
        let s' : Back := ⟨live ++ s.rows, history, tables, s.backRows + live.length,
          s.back ++ [(s.history.lines.length - 1, keep, live.length, line)]⟩
        if 0 < keep then s' else pullBack height width n s'
    else s

/-- The lines that came back from the top, each with the first of its live rows. -/
def backStarts : ℕ → List (ℕ × ℕ × ℕ × Line) → List (ℕ × ℕ × ℕ × Line)
  | _, [] => []
  | firstRow, (index, keep, live, line) :: back => (index, keep, firstRow, line) :: backStarts (firstRow + live) back

/-- An anchor in a line that came back is live now. -/
def revive (width : ℕ) (starts : List (ℕ × ℕ × ℕ × Line)) (s : List (ℕ × Anchor) × Found)
    (p : (ℕ × Anchor) × ℕ) : Option (List (ℕ × Anchor) × Found) :=
  match p.1.2 with
  | .history index offset =>
    match starts.find? fun b => b.1 = index with
    | some (_, keep, firstRow, line) => do
      let at' := line.rowColOf charWidth width offset
      -- It may still be on the part kept in history.
      if at'.1 < keep then some (s.1 ++ [p.1], s.2)
      else
        let found ← setAt s.2 p.2 (some (firstRow + at'.1 - keep, at'.2))
        some (s.1 ++ [(p.1.1, .line 0 0)], found)
    | none => some (s.1 ++ [p.1], s.2)
  | _ => some (s.1 ++ [p.1], s.2)

def reviveAll (width : ℕ) (b : Back) (anchors : List (ℕ × Anchor)) (found : Found) :
    Option (List (ℕ × Anchor) × Found) :=
  if b.backRows = 0 then some (anchors, found)
  else
    let found := found.map fun at' => at'.map fun at' => (at'.1 + b.backRows, at'.2)
    anchors.zipIdx.foldlM (revive charWidth width (backStarts 0 b.back.reverse)) ([], found)

end back

section resizing

/-- Tab stops at a new width: the old ones kept, defaults beyond them. -/
def defaultTabsLike (old : List Bool) (width : ℕ) : List Bool :=
  (List.range width).map fun col => (old[col]?).getD (col % 8 = 0)

variable (charWidth : Char → Option ℕ)

/-- Replaces the live rows; what does not fit goes into history. -/
def settleRows (g : Grid) (size : Size) (rows : List Row) (bottom : ℕ) (cursor : ℕ × ℕ) : Grid :=
  let overflow := rows.length - size.height
  let kept := rows.drop overflow
  let history := (rows.take overflow).foldl (fun h row => h.commit charWidth row g.tables) g.history
  let g := dropScrolledPlacements charWidth
    { g with
      size := size
      tabs := defaultTabsLike g.tabs size.width
      marginLeft := 0
      marginRight := size.width - 1
      rows := kept ++ List.replicate (size.height - kept.length) (.new size.width)
      history := history.setWidth charWidth size.width
      rowBase := bottom + overflow }
  let g :=
    { g with
      -- The column may be one past the last: a pending wrap.
      pos := ⟨min (cursor.1 - overflow) (size.height - 1), min cursor.2 size.width⟩
      savedPos := ⟨min g.savedPos.row (size.height - 1), min g.savedPos.col (size.width - 1)⟩
      scrollTop := 0
      scrollBottom := size.height - 1 }
  refreshView charWidth { g with viewOffset := min g.viewOffset (g.maxScrollback charWidth) }

/-- Reflows the live rows to a new size: wrapped rows rejoin and wrap again, rows that no longer fit go into history,
and the cursor follows its text. -/
def setSize (g : Grid) (size : Size) : Option Grid :=
  let size : Size := ⟨max size.height 1, max size.width 1⟩
  if size = g.size then some g
  else do
    let usedRows := g.usedRows
    let (pulled, history) := g.history.popOpen charWidth
    let (pulledRows, tables) := match pulled with
      | some line => line.rows charWidth g.size.width g.tables
      | none => ([], g.tables)
    let current := match pulled with
      | some line => pullCells line.cellCount pulledRows
      | none => []
    let g := { g with history := history, tables := tables }
    let flat := g.flatten usedRows current
    let (cursorLine, start) ← flat.rowStarts[g.pos.row]?
    let anchors := g.placementAnchors charWidth usedRows pulledRows.length pulled flat.rowStarts
    let (rows, found) ←
      wrapLines size.width anchors cursorLine (start + min g.pos.col g.size.width) flat.lines
    let b := pullBack charWidth size.height size.width g.history.lines.length ⟨rows, g.history, g.tables, 0, []⟩
    let (anchors, found) ← reviveAll charWidth size.width b anchors found
    let cursor ← found[anchors.length]?
    let bottom := g.rowBase - (pulledRows.length + b.backRows)
    let g :=
      { g with
        history := b.history
        tables := b.tables
        placements := placeAnchors charWidth g.placements b.history anchors found bottom b.rows.length size.width }
    some (g.settleRows charWidth size b.rows bottom (cursor.getD (0, 0)))

end resizing

end Grid

end Term

end Dekit
