import Dekit.Lib.Slice
import Dekit.Term.Cell

namespace Dekit

namespace Term

open Slice

namespace Row

def new (cols : ℕ) : Row := ⟨List.replicate cols .empty, false⟩

def blank (cols : ℕ) (style : StyleId) : Row := ⟨List.replicate cols (.blank style), false⟩

def clear (r : Row) (style : StyleId) : Row := ⟨r.cells.map fun _ => .blank style, false⟩

def get (r : Row) (col : ℕ) : Option Cell := r.cells[col]?

def wrap (r : Row) (wrap : Bool) : Row := { r with wrapped := wrap }

/-- Blanks the half of a wide cell that lies at a column. -/
def blankOther (r : Row) (other : ℕ) (style : StyleId) : Row :=
  match r.cells[other]? with
  | none => r
  | some cell => { r with cells := r.cells.set other (.blank (if style = 0 then cell.style else style)) }

/-- Blanks the other half of the wide cell at a column, if it is one half. -/
def clearWide (r : Row) (col : ℕ) (style : StyleId) : Row :=
  match r.cells[col]? with
  | none => r
  | some cell =>
    if cell.isWide then r.blankOther (col + 1) style
    else if cell.isContinuation ∧ 0 < col then r.blankOther (col - 1) style
    else r

/-- Puts a cell; a wide cell that it overwrites loses its other half too. -/
def set (r : Row) (col : ℕ) (cell : Cell) : Row :=
  match r.cells[col]? with
  | none => r
  | some old => let r := r.clearWide col old.style; { r with cells := r.cells.set col cell }

def erase (r : Row) (col : ℕ) (style : StyleId) : Row :=
  match r.cells[col]? with
  | none => r
  | some old =>
    let r := r.clearWide col style
    let r := { r with cells := r.cells.set col (.blank style) }
    if col + (if old.isWide then 2 else 1) = r.cells.length then { r with wrapped := false } else r

def blanks (count : ℕ) (style : StyleId) : List Cell := List.replicate count (.blank style)

/-- Within `col..=right`, blanks enter at `col` and as many cells leave at `right`. -/
def insertBlanks (r : Row) (col count right : ℕ) (style : StyleId) : Option Row :=
  if col > right ∨ r.cells.length ≤ right then some r
  else
    let count := min count (right + 1 - col)
    if count = 0 then some r
    else do
      -- A wide cell split by the insertion point loses both halves.
      let r ← match r.cells[col]? with
        | none => none
        | some cell =>
          if cell.isContinuation then
            let r := r.clearWide col style
            some { r with cells := r.cells.set col (.blank style) }
          else some r
      let cells ← onRange r.cells col (right + 1) (rotateRight count)
      let cells ← onRange cells col (col + count) fun _ => blanks count style
      -- A wide cell now cut at the right end loses its half too.
      let last ← cells[right]?
      let cells := if last.isWide then cells.set right (.blank style) else cells
      some ⟨cells, false⟩

/-- Within `col..=right`, cells leave at `col` and as many blanks enter at `right`. -/
def deleteCells (r : Row) (col count right : ℕ) (style : StyleId) : Option Row :=
  if col > right ∨ r.cells.length ≤ right then some r
  else
    let count := min count (right + 1 - col)
    if count = 0 then some r
    else do
      -- Wide cells cut at either end of the deleted range lose their other half.
      let r := r.clearWide col style
      let r := r.clearWide (col + count - 1) style
      let cells ← onRange r.cells col (right + 1) (rotateLeft count)
      let cells ← onRange cells (right + 1 - count) (right + 1) fun _ => blanks count style
      some ⟨cells, false⟩

def usedLen (r : Row) (visible : StyleId → Bool) : ℕ :=
  (r.cells.reverse.dropWhile fun cell => !(cell.hasContents || visible cell.style)).length

def fromCells (cells : List Cell) (cols : ℕ) : Row :=
  ⟨cells.take cols ++ List.replicate (cols - cells.length) .empty, false⟩

/-- The text of the columns: blanks as spaces, the right halves of wide cells and wrap fillers skipped. -/
def textOf (r : Row) (cols : ℕ) (graphemes : GraphemeTable) : List Char :=
  (r.cells.take cols).flatMap fun cell =>
    if cell.isContinuation || cell.text.isFiller then []
    else
      let text := cell.text.asStr graphemes
      if text.isEmpty then [' '] else text

end Row

end Term

end Dekit
