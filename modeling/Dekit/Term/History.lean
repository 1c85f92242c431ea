import Dekit.Term.Row
import Dekit.Term.Unicode
import Dekit.Term.Utf8

namespace Dekit

namespace Term

@[irreducible] def u16Max : ℕ := 65535

@[irreducible] def maxLineCells : ℕ := 65536

@[irreducible] def maxCellBytes : ℕ := 255

def pushRun {α : Type} [DecidableEq α] (runs : List (α × ℕ)) (value : α) : List (α × ℕ) :=
  match runs.getLast? with
  | some (last, n) => if last = value ∧ n < u16Max then runs.dropLast ++ [(last, n + 1)] else runs ++ [(value, 1)]
  | none => [(value, 1)]

def expand {α : Type} (runs : List (α × ℕ)) : List α := runs.flatMap fun run => List.replicate run.2 run.1

/-- The text between two places in bytes, nothing when they do not lie between characters. -/
def sliceBytes (text : List Char) (start stop : ℕ) : List Char :=
  ((dropBytes start text).bind fun text => takeBytes (stop - start) text).getD []

/-- Lays cells out in rows: for each cell the row and column it starts at, and the position after the last. -/
def wrapFrom (width : ℕ) : ℕ × ℕ → List ℕ → List (ℕ × ℕ) × (ℕ × ℕ)
  | p, [] => ([], p)
  | p, w :: widths =>
    if w = 0 then
      -- The right half of a wide cell.
      let more := wrapFrom width p widths
      ((p.1, p.2 - 1) :: more.1, more.2)
    else
      let start := if p.2 + w > width ∧ 0 < p.2 then (p.1 + 1, 0) else p
      let more := wrapFrom width (start.1, start.2 + w) widths
      (start :: more.1, more.2)

def wrap (widths : List ℕ) (width : ℕ) : List (ℕ × ℕ) := (wrapFrom (max width 1) (0, 0) widths).1

def wrapEnd (widths : List ℕ) (width : ℕ) : ℕ × ℕ := (wrapFrom (max width 1) (0, 0) widths).2

/-- A logical line: the text of its cells in order, and in runs how many bytes each has and its style. -/
structure Line where
  text : List Char
  cells : List (ℕ × ℕ)
  styles : List (Style × ℕ)
deriving DecidableEq

/-- A cell of a line; the right half of a wide cell has width 0. -/
structure LineCell where
  text : List Char
  style : Style
  width : ℕ
deriving DecidableEq

namespace Line

def new : Line := ⟨[], [], []⟩

def cellCount (l : Line) : ℕ := (l.cells.map Prod.snd).sum

def pushCell (styles : StyleTable) (graphemes : GraphemeTable) (l : Line) (cell : Cell) : Line :=
  -- Padding before a wrapped wide character is no text.
  if cell.text.isFiller then l
  else
    let l :=
      if cell.isContinuation then { l with cells := pushRun l.cells 0 }
      else
        let text := if cell.text.isImage then [' '] else cell.text.asStr graphemes
        let text := if text.isEmpty then [' '] else text
        let text := if maxCellBytes < utf8Len text then ['\uFFFD'] else text
        { l with text := l.text ++ text, cells := pushRun l.cells (utf8Len text) }
    { l with styles := pushRun l.styles (styles.get cell.style) }

def pushCells (l : Line) (cells : List Cell) (styles : StyleTable) (graphemes : GraphemeTable) : Line :=
  cells.foldl (pushCell styles graphemes) l

/-- The cells from a place in the text on, of the byte counts and styles left. -/
def cellsFrom (charWidth : Char → Option ℕ) (text : List Char) : ℕ → List ℕ → List Style → List LineCell
  | _, [], _ => []
  | start, bytes :: counts, styles =>
    let stop := min (start + bytes) (utf8Len text)
    let cell := sliceBytes text start stop
    let width := if bytes = 0 then 0 else if cell = [' '] then 1 else max (clusterWidth charWidth cell) 1
    ⟨cell, styles.head?.getD .default, width⟩ :: cellsFrom charWidth text stop counts styles.tail

def lineCells (charWidth : Char → Option ℕ) (l : Line) : List LineCell :=
  cellsFrom charWidth l.text 0 (expand l.cells) (expand l.styles)

def widths (charWidth : Char → Option ℕ) (l : Line) : List ℕ := (l.lineCells charWidth).map LineCell.width

def rowsAt (charWidth : Char → Option ℕ) (l : Line) (width : ℕ) : ℕ :=
  if l.cellCount ≤ max width 1 then 1
  else match (wrap (l.widths charWidth) width).getLast? with
    | some p => p.1 + 1
    | none => 1

/-- The cell offset where a row starts, the end of the line for a row that it does not have. -/
def offsetOfRow (charWidth : Char → Option ℕ) (l : Line) (width row : ℕ) : ℕ :=
  if row = 0 then 0
  else ((wrap (l.widths charWidth) width).findIdx? fun p => p.1 = row).getD l.cellCount

/-- The row and column that a cell offset lands on. Past the cells, blanks lead to it. -/
def rowColOf (charWidth : Char → Option ℕ) (l : Line) (width offset : ℕ) : ℕ × ℕ :=
  let positions := wrap (l.widths charWidth) width
  match positions[offset]? with
  | some p => p
  | none =>
    let width := max width 1
    let stop := wrapEnd (l.widths charWidth) width
    let extra := offset - positions.length
    let room := width - stop.2
    if extra < room then (stop.1, stop.2 + extra)
    else (stop.1 + 1 + (extra - room) / width, (extra - room) % width)

/-- The text of a cell for a row: a blank was stored as a space. -/
def cellText (text : List Char) (width : ℕ) (graphemes : GraphemeTable) : CellText × GraphemeTable :=
  if text = [' '] then (.empty, graphemes) else CellText.of text width graphemes

/-- Rows in the making: those done, the cells of the next one, and its place among the rows. -/
structure Layout where
  rows : List Row
  cells : List Cell
  current : ℕ
  tables : Tables

/-- A row before the last of a line: padded where a wide cell did not fit. -/
def paddedRow (cells : List Cell) (width : ℕ) : Row :=
  let pad := (cells.getLast?.map Cell.style).getD 0
  (Row.fromCells (cells ++ List.replicate (width - cells.length) (.filler pad)) width).wrap true

def layCell (width : ℕ) (s : Layout) (p : LineCell × (ℕ × ℕ)) : Layout :=
  let cell := p.1
  -- The right half comes with its wide cell.
  if cell.width = 0 then s
  else
    let s := if p.2.1 ≠ s.current then
        { s with rows := s.rows ++ [paddedRow s.cells width], cells := [], current := p.2.1 }
      else s
    let (style, styles) := s.tables.styles.intern cell.style
    let (text, graphemes) := cellText cell.text cell.width s.tables.graphemes
    let cells := s.cells ++ [⟨text, style⟩]
    { s with
      cells := if cell.width = 2 then cells ++ [⟨.continuation, style⟩] else cells
      tables := { s.tables with styles := styles, graphemes := graphemes } }

/-- The rows of the line at a width, with its styles and clusters interned. -/
def rows (charWidth : Char → Option ℕ) (l : Line) (width : ℕ) (tables : Tables) : List Row × Tables :=
  let width := max width 1
  let s := ((l.lineCells charWidth).zip (wrap (l.widths charWidth) width)).foldl (layCell width) ⟨[], [], 0, tables⟩
  (s.rows ++ [.fromCells s.cells width], s.tables)

end Line

/-- The scrollback of a grid. `rows` is how many rows the lines take at the width last asked about. -/
structure History where
  lines : List Line
  capacity : ℕ
  isOpen : Bool
  rows : Option (ℕ × ℕ)
deriving DecidableEq

namespace History

variable (charWidth : Char → Option ℕ)

def new (capacity : ℕ) : History := ⟨[], capacity, false, none⟩

/-- Appends a line, and drops the first when there are too many: the line dropped. -/
def push (h : History) (line : Line) : Option Line × History :=
  if h.capacity = 0 then (none, h)
  else
    let lines := h.lines ++ [line]
    if h.capacity < lines.length then (lines.head?, { h with lines := lines.tail }) else (none, { h with lines := lines })

def rowsAdded (h : History) (line : Line) : History :=
  { h with rows := h.rows.map fun p => (p.1, p.2 + line.rowsAt charWidth p.1) }

def rowsRemoved (h : History) (line : Line) : History :=
  { h with rows := h.rows.map fun p => (p.1, p.2 - line.rowsAt charWidth p.1) }

/-- Commits a row that scrolled off: up to its last visible cell, or whole when it is wrapped. -/
def commit (h : History) (row : Row) (tables : Tables) : History :=
  if h.capacity = 0 then h
  else
    let len := if row.wrapped then row.cells.length
      else row.usedLen fun id => (tables.styles.get id).isVisibleBlank
    let (line, h) : Line × History := match h.isOpen, h.lines.getLast? with
      | true, some last => (last, rowsRemoved charWidth { h with lines := h.lines.dropLast } last)
      | _, _ => (.new, h)
    let line := line.pushCells (row.cells.take len) tables.styles tables.graphemes
    let h := rowsAdded charWidth h line
    let (dropped, h) := h.push line
    let h := match dropped with
      | some dropped => rowsRemoved charWidth h dropped
      | none => h
    { h with isOpen := row.wrapped && line.cellCount < maxLineCells }

def popLast (h : History) : Option Line × History :=
  match h.lines.getLast? with
  | some line => (some line, rowsRemoved charWidth { h with isOpen := false, lines := h.lines.dropLast } line)
  | none => (none, { h with isOpen := false })

def popOpen (h : History) : Option Line × History := if h.isOpen then popLast charWidth h else (none, h)

def clear (h : History) : History := { h with lines := [], isOpen := false, rows := h.rows.map fun p => (p.1, 0) }

def countRows (h : History) (width : ℕ) : ℕ := (h.lines.map fun line => line.rowsAt charWidth width).sum

def setWidth (h : History) (width : ℕ) : History :=
  if h.rows.any fun p => p.1 = width then h else { h with rows := some (width, countRows charWidth h width) }

def rowsAt (h : History) (width : ℕ) : ℕ :=
  match h.rows with
  | some (w, rows) => if w = width then rows else countRows charWidth h width
  | none => countRows charWidth h width

/-- The line, and the row in it, that lies so many rows above the screen: a search from the last line up. -/
def locate (h : History) (rowsAbove width : ℕ) : Option (ℕ × ℕ) :=
  if rowsAbove = 0 then none else go rowsAbove 0 h.lines.reverse
where
  go (rowsAbove covered : ℕ) : List Line → Option (ℕ × ℕ)
    | [] => none
    | line :: lines =>
      let covered := covered + line.rowsAt charWidth width
      if rowsAbove ≤ covered then some (lines.length, covered - rowsAbove) else go rowsAbove covered lines

def rowsBelow (h : History) (index row width : ℕ) : ℕ :=
  let own := ((h.lines[index]?).map fun line => line.rowsAt charWidth width).getD 1
  ((h.lines.drop (index + 1)).map fun line => line.rowsAt charWidth width).sum + (own - (row + 1))

/-- The lines from the last up that cover so many rows, and how many they cover. -/
def covering (offset width : ℕ) : ℕ → List Line → List Line × ℕ
  | covered, [] => ([], covered)
  | covered, line :: lines =>
    if offset ≤ covered then ([], covered)
    else
      let more := covering offset width (covered + line.rowsAt charWidth width) lines
      (more.1 ++ [line], more.2)

/-- Rows of the lines after the first ones, until there are enough. -/
def rowsOf (width count : ℕ) : ℕ → List Row → Tables → List Line → List Row × Tables
  | _, rows, tables, [] => (rows, tables)
  | skip, rows, tables, line :: lines =>
    let (laid, tables) := line.rows charWidth width tables
    let rows := rows ++ laid.drop skip
    if 0 < count ∧ count ≤ rows.length then (rows.take count, tables)
    else rowsOf width count (skip - laid.length) rows tables lines

def rowsAbove (h : History) (offset count width : ℕ) (tables : Tables) : List Row × Tables :=
  let (lines, covered) := covering charWidth offset width 0 h.lines.reverse
  rowsOf charWidth width count (covered - offset) [] tables lines

end History

end Term

end Dekit
