import Mathlib.Data.Int.Notation
import Dekit.Term.History

namespace Dekit

namespace Term

open Slice

structure Size where
  height : ℕ
  width : ℕ
deriving DecidableEq

structure Pos where
  row : ℕ
  col : ℕ
deriving DecidableEq

def Pos.home : Pos := ⟨0, 0⟩

abbrev ImageKey := ℕ

structure SrcRect where
  x : ℕ
  y : ℕ
  w : ℕ
  h : ℕ
deriving DecidableEq

/-- Where an image shows, anchored to an absolute row. One drawn into its cells goes once any of them is written over. -/
structure Placement where
  key : ImageKey
  id : ℕ
  row : ℕ
  col : ℕ
  cols : ℕ
  rows : ℕ
  src : SrcRect
  offsetX : ℕ
  offsetY : ℕ
  z : ℤ
  isVirtual : Bool
  cells : Bool
deriving DecidableEq

/-- The live screen of a terminal and the history its rows scroll into. `viewOffset` is how many rows the view is
scrolled back, `rowBase` the absolute row of row 0. -/
structure Grid where
  size : Size
  rows : List Row
  history : History
  viewOffset : ℕ
  viewAbove : List Row
  viewStale : Bool
  tables : Tables
  pos : Pos
  savedPos : Pos
  scrollTop : ℕ
  scrollBottom : ℕ
  marginLeft : ℕ
  marginRight : ℕ
  originMode : Bool
  savedOriginMode : Bool
  tabs : List Bool
  rowBase : ℕ
  placements : List Placement
  placeholderSlots : List (ℕ × ℕ)
  droppedImages : List ImageKey
deriving DecidableEq

def add16 (a b : ℕ) : Option ℕ := Slice.add 65536 a b

def saturatingAdd16 (a b : ℕ) : ℕ := min (a + b) 65535

def clamp (x lo hi : ℕ) : Option ℕ := if lo ≤ hi then some (max lo (min x hi)) else none

def defaultTabs (width : ℕ) : List Bool := (List.range width).map fun col => col % 8 = 0 ∧ col ≠ 0

/-- Blanks a row. One that a frame holds is replaced by a blank row of the grid's width, which every row has. -/
def blankInPlace (row : Row) (style : StyleId) : Row := row.clear style

namespace Grid

section cursor

def new (size : Size) (scrollbackLen : ℕ) : Grid :=
  let size : Size := ⟨max size.height 1, max size.width 1⟩
  { size := size
    rows := List.replicate size.height (.new size.width)
    history := { History.new scrollbackLen with rows := some (size.width, 0) }
    viewOffset := 0
    viewAbove := []
    viewStale := false
    tables := .new
    pos := .home
    savedPos := .home
    scrollTop := 0
    scrollBottom := size.height - 1
    marginLeft := 0
    marginRight := size.width - 1
    originMode := false
    savedOriginMode := false
    tabs := defaultTabs size.width
    rowBase := 0
    placements := []
    placeholderSlots := []
    droppedImages := [] }

def internStyle (g : Grid) (style : Style) : StyleId × Grid :=
  let (id, styles) := g.tables.styles.intern style
  (id, { g with tables := { g.tables with styles := styles } })

def internLink (g : Grid) (link : Link) : LinkId × Grid :=
  let (id, links) := g.tables.links.intern link
  (id, { g with tables := { g.tables with links := links } })

def cellText (g : Grid) (text : List Char) (width : ℕ) : CellText × Grid :=
  let (t, graphemes) := CellText.of text width g.tables.graphemes
  (t, { g with tables := { g.tables with graphemes := graphemes } })

def drawingRow (g : Grid) (row : ℕ) : Option Row := g.rows[row]?

def drawingCell (g : Grid) (pos : Pos) : Option Cell := (g.drawingRow pos.row).bind fun row => row.get pos.col

def lastRow (g : Grid) : Option ℕ := sub g.size.height 1

def lastCol (g : Grid) : Option ℕ := sub g.size.width 1

/-- A row rewritten, which fails where there is none. -/
def modifyRow (g : Grid) (row : ℕ) (f : Row → Option Row) : Option Grid := do
  let old ← g.rows[row]?
  let new ← f old
  some { g with rows := g.rows.set row new }

def setPosAbsolute (g : Grid) (pos : Pos) : Option Grid := do
  let lastRow ← g.lastRow
  let lastCol ← g.lastCol
  some { g with pos := ⟨min pos.row lastRow, min pos.col lastCol⟩ }

def rowClampTop (g : Grid) (limitToRegion : Bool) : ℕ × Grid :=
  if limitToRegion ∧ g.pos.row < g.scrollTop then
    (g.scrollTop - g.pos.row, { g with pos := { g.pos with row := g.scrollTop } })
  else (0, g)

def rowClampBottom (g : Grid) (limitToRegion : Bool) : Option (ℕ × Grid) := do
  let bottom ← if limitToRegion then some g.scrollBottom else g.lastRow
  if bottom < g.pos.row then some (g.pos.row - bottom, { g with pos := { g.pos with row := bottom } })
  else some (0, g)

def rowClamp (g : Grid) : Option Grid := do
  let lastRow ← g.lastRow
  some { g with pos := { g.pos with row := min g.pos.row lastRow } }

def colClamp (g : Grid) : Option Grid := do
  let lastCol ← g.lastCol
  some { g with pos := { g.pos with col := min g.pos.col lastCol } }

def setPos (g : Grid) (pos : Pos) : Option Grid := do
  let pos := if g.originMode then
      ⟨saturatingAdd16 pos.row g.scrollTop, saturatingAdd16 pos.col g.marginLeft⟩
    else pos
  let (_, g) := { g with pos := pos }.rowClampTop g.originMode
  let (_, g) ← g.rowClampBottom g.originMode
  if g.originMode then
    let col ← clamp g.pos.col g.marginLeft g.marginRight
    some { g with pos := { g.pos with col := col } }
  else g.colClamp

def saveCursor (g : Grid) : Grid := { g with savedPos := g.pos, savedOriginMode := g.originMode }

def restoreCursor (g : Grid) : Option Grid := do
  let g ← { g with pos := g.savedPos, originMode := g.savedOriginMode }.rowClamp
  g.colClamp

def rowSet (g : Grid) (row : ℕ) : Option Grid :=
  if g.originMode then do
    let (_, g) := { g with pos := { g.pos with row := saturatingAdd16 row g.scrollTop } }.rowClampTop true
    let (_, g) ← g.rowClampBottom true
    some g
  else { g with pos := { g.pos with row := row } }.rowClamp

def colSet (g : Grid) (col : ℕ) : Option Grid :=
  if g.originMode then do
    let col ← clamp (saturatingAdd16 col g.marginLeft) g.marginLeft g.marginRight
    some { g with pos := { g.pos with col := col } }
  else { g with pos := { g.pos with col := col } }.colClamp

def inScrollRegion (g : Grid) : Bool := g.scrollTop ≤ g.pos.row ∧ g.pos.row ≤ g.scrollBottom

def inMargins (g : Grid) : Bool := g.marginLeft ≤ g.pos.col ∧ g.pos.col ≤ g.marginRight

def scrollRegionActive (g : Grid) : Option Bool := do
  let lastRow ← g.lastRow
  some (g.scrollTop ≠ 0 || g.scrollBottom ≠ lastRow)

def marginsActive (g : Grid) : Option Bool := do
  let lastCol ← g.lastCol
  some (g.marginLeft ≠ 0 || g.marginRight ≠ lastCol)

def rowIncClamp (g : Grid) (count : ℕ) : Option Grid := do
  let inRegion := g.inScrollRegion
  let (_, g) ← { g with pos := { g.pos with row := saturatingAdd16 g.pos.row count } }.rowClampBottom inRegion
  some g

def rowDecClamp (g : Grid) (count : ℕ) : Grid :=
  let inRegion := g.inScrollRegion
  ({ g with pos := { g.pos with row := g.pos.row - count } }.rowClampTop inRegion).2

def colInc (g : Grid) (count : ℕ) : Grid := { g with pos := { g.pos with col := saturatingAdd16 g.pos.col count } }

def colIncClamp (g : Grid) (count : ℕ) : Option Grid :=
  let inMargins := g.inMargins
  let g := { g with pos := { g.pos with col := saturatingAdd16 g.pos.col count } }
  if inMargins then some { g with pos := { g.pos with col := min g.pos.col g.marginRight } } else g.colClamp

def colDec (g : Grid) (count : ℕ) : Option Grid := do
  let inMargins := g.inMargins
  let lastCol ← g.lastCol
  -- A pending wrap is undone by the move.
  let col := min g.pos.col lastCol - count
  some { g with pos := { g.pos with col := if inMargins then max col g.marginLeft else col } }

def colStay (g : Grid) : Grid := { g with pos := { g.pos with col := min g.pos.col g.marginRight } }

end cursor

section tabs

/-- The first of the columns with a tab stop, which fails at a column past the tabs. -/
def findTab (tabs : List Bool) : List ℕ → Option (Option ℕ)
  | [] => some none
  | col :: cols => do
    let set ← tabs[col]?
    if set then some (some col) else findTab tabs cols

def nextTab (tabs : List Bool) (right col : ℕ) : Option ℕ := do
  let start ← add16 col 1
  let next ← findTab tabs (List.range' start (right + 1 - start))
  some (next.getD right)

def prevTab (tabs : List Bool) (left col : ℕ) : Option ℕ := do
  let prev ← findTab tabs (List.range' left (col - left)).reverse
  some (prev.getD left)

def tabForward (g : Grid) (count : ℕ) : Option Grid := do
  let lastCol ← g.lastCol
  let right := min g.marginRight lastCol
  let col ← times (nextTab g.tabs right) (max count 1) (min g.pos.col right)
  some { g with pos := { g.pos with col := col } }

def colTab (g : Grid) : Option Grid := g.tabForward 1

def tabBack (g : Grid) (count : ℕ) : Option Grid := do
  let lastCol ← g.lastCol
  let col ← times (prevTab g.tabs g.marginLeft) (max count 1) (min g.pos.col lastCol)
  some { g with pos := { g.pos with col := col } }

def putTab (g : Grid) (tab : Bool) : Option Grid := do
  let lastCol ← g.lastCol
  let tabs ← setAt g.tabs (min g.pos.col lastCol) tab
  some { g with tabs := tabs }

def setTab (g : Grid) : Option Grid := g.putTab true

def clearTab (g : Grid) : Option Grid := g.putTab false

def clearAllTabs (g : Grid) : Grid := { g with tabs := g.tabs.map fun _ => false }

end tabs

section regions

def setScrollRegion (g : Grid) (top bottom : ℕ) : Option Grid := do
  let lastRow ← g.lastRow
  let bottom := min bottom lastRow
  let g := if top < bottom then { g with scrollTop := top, scrollBottom := bottom }
    else { g with scrollTop := 0, scrollBottom := lastRow }
  g.setPos .home

def setMargins (g : Grid) (left right : ℕ) : Option Grid := do
  let lastCol ← g.lastCol
  let right := min right lastCol
  let g := if left < right then { g with marginLeft := left, marginRight := right }
    else { g with marginLeft := 0, marginRight := lastCol }
  g.setPos .home

def setOriginMode (g : Grid) (mode : Bool) : Option Grid := { g with originMode := mode }.setPos .home

end regions

end Grid

end Term

end Dekit
