import Dekit.Term.Text

namespace Dekit

namespace Term

open Slice Vt

namespace Screen

variable {I : Type} (x : Externs I)

section csi

def eraseDisplay (s : Screen I) (mode : ℕ) : Option (Screen I) :=
  let (style, s) := s.styleId
  match mode with
  | 0 => s.withGrid fun g => g.eraseAllForward style
  | 1 => s.withGrid fun g => g.eraseAllBackward style
  | 2 => some (s.putGrid (s.activeGrid.eraseAll style))
  | 3 => some (s.putGrid s.activeGrid.clearHistory)
  | _ => some s

def eraseLine (s : Screen I) (mode : ℕ) : Option (Screen I) :=
  let (style, s) := s.styleId
  match mode with
  | 0 => s.withGrid fun g => g.eraseRowForward style
  | 1 => s.withGrid fun g => g.eraseRowBackward style
  | 2 => s.withGrid fun g => g.eraseRow style
  | _ => some s

/-- The position a report says: within the margins in origin mode, never past the last column. -/
def cursorReportPos (s : Screen I) : Option Pos := do
  let g := s.activeGrid
  let lastCol ← g.lastCol
  let col := min g.pos.col lastCol
  some (if g.originMode then ⟨g.pos.row - g.scrollTop, col - g.marginLeft⟩ else ⟨g.pos.row, col⟩)

def deviceStatus (s : Screen I) (p : Params) : Option (Screen I) :=
  match p.get 0 0 with
  | 5 => some (s.reply .ok)
  | 6 => do
    let pos ← s.cursorReportPos
    some (s.reply (.cpr pos.row pos.col))
  | _ => some s

def decDeviceStatus (s : Screen I) (p : Params) : Option (Screen I) :=
  match p.get 0 0 with
  | 6 => do
    let pos ← s.cursorReportPos
    some (s.reply (.decxcpr pos.row pos.col))
  | 15 => some (s.reply .printer)
  | 25 => some (s.reply .udk)
  | 26 => some (s.reply .keyboard)
  | 53 | 55 => some (s.reply .locator)
  | _ => some s

def windowOp (s : Screen I) (p : Params) : Screen I :=
  let size := s.activeGrid.size
  let height := size.height * s.cellPixels.2
  let width := size.width * s.cellPixels.1
  match p.get 0 0 with
  | 14 => s.reply (.window 4 height width)
  | 15 => s.reply (.window 5 height width)
  | 16 => s.reply (.window 6 s.cellPixels.2 s.cellPixels.1)
  | 18 => s.reply (.window 8 size.height size.width)
  | 19 => s.reply (.window 9 size.height size.width)
  | 20 => s.reply (.title 0x4C s.title)
  | 21 => s.reply (.title 0x6C s.title)
  | 22 => if s.titleStack.length < 16 then { s with titleStack := s.titleStack ++ [s.title] } else s
  | 23 => match s.titleStack.getLast? with
    | some title => { s with titleStack := s.titleStack.dropLast, title := title }
    | none => s
  | _ => s

def graphicsAttributes (s : Screen I) (p : Params) : Screen I :=
  match p.get 0 0, p.get 1 0 with
  | 1, 1 | 1, 4 | 2, 1 | 2, 4 => s.reply (.graphics (p.get 0 0) (p.get 1 0))
  | 3, action => s.reply (.graphics 3 action)
  | _, _ => s

def kittyKeyboard (s : Screen I) (p : Params) : Screen I :=
  if p.prefixByte = 0x3F then s.reply (.kittyFlags s.kitty.active)
  else if p.prefixByte = 0x3E then { s with kitty := s.kitty.push (min (p.get 0 0) 255) }
  else if p.prefixByte = 0x3C then { s with kitty := s.kitty.pop (max (p.get 0 1) 1) }
  else if p.prefixByte = 0x3D then { s with kitty := s.kitty.set (min (p.get 0 0) 255) (p.get 1 1) }
  else s

/-- An edit of columns from the left margin, the cursor staying where it is. -/
def shiftColumns (edit : Grid → Option Grid) (g : Grid) : Option Grid := do
  let pos := g.pos
  let g ← g.setPosAbsolute ⟨g.scrollTop, g.marginLeft⟩
  let g ← edit g
  g.setPosAbsolute pos

def setRegion (s : Screen I) (p : Params) : Option (Screen I) := do
  let top := max (p.get16 0 1) 1
  let bottom := match p.getOpt 1 with
    | some _ => max (p.get16 1 1) 1
    | none => s.activeGrid.size.height
  let top ← sub top 1
  let bottom ← sub bottom 1
  s.withGrid fun g => g.setScrollRegion top bottom

def setSideMargins (s : Screen I) (p : Params) : Option (Screen I) := do
  let left := max (p.get16 0 1) 1
  let right := match p.getOpt 1 with
    | some _ => max (p.get16 1 1) 1
    | none => s.activeGrid.size.width
  let left ← sub left 1
  let right ← sub right 1
  s.withGrid fun g => g.setMargins left right

def pushStyle (s : Screen I) : Screen I :=
  if s.sgrStack.length < 16 then { s with sgrStack := s.sgrStack ++ [s.style] } else s

def popStyle (s : Screen I) : Screen I :=
  match s.sgrStack.getLast? with
  | some style => { s with sgrStack := s.sgrStack.dropLast, style := style.withLink s.style.link }
  | none => s

/-- The sequences without a prefix or an intermediate, by their final byte. -/
def csiPlain (s : Screen I) (style : StyleId) (p : Params) : Option (Screen I) :=
  let n := max (p.get16 0 1) 1
  match p.final with
  -- @ ICH
  | 0x40 => s.withGrid fun g => g.insertCells (p.get16 0 1) style
  -- A CUU, B CUD, C CUF, D CUB
  | 0x41 => some (s.putGrid (s.activeGrid.rowDecClamp n))
  | 0x42 => s.withGrid fun g => g.rowIncClamp n
  | 0x43 => s.withGrid fun g => g.colIncClamp n
  | 0x44 => s.withGrid fun g => g.colDec n
  -- E CNL, F CPL
  | 0x45 => s.withGrid fun g => do
    let g ← g.rowIncClamp n
    g.colSet 0
  | 0x46 => s.withGrid fun g => (g.rowDecClamp n).colSet 0
  -- G CHA, ` HPA
  | 0x47 | 0x60 => do
    let col ← sub n 1
    s.withGrid fun g => g.colSet col
  -- H CUP, f HVP
  | 0x48 | 0x66 => do
    let row ← sub n 1
    let col ← sub (max (p.get16 1 1) 1) 1
    s.withGrid fun g => g.setPos ⟨row, col⟩
  -- I CHT
  | 0x49 => s.withGrid fun g => g.tabForward n
  -- J ED, K EL
  | 0x4A => s.eraseDisplay (p.get16 0 0)
  | 0x4B => s.eraseLine (p.get16 0 0)
  -- L IL, M DL, P DCH
  | 0x4C => s.withGrid fun g => g.insertLines n style
  | 0x4D => s.withGrid fun g => g.deleteLines n style
  | 0x50 => s.withGrid fun g => g.deleteCells n style
  -- S SU, T SD with one parameter
  | 0x53 => s.withGrid fun g => g.scrollUp x.charWidth n style
  | 0x54 => if p.values.length ≤ 1 then s.withGrid fun g => g.scrollDown n style else some s
  -- X ECH, Z CBT, b REP
  | 0x58 => s.withGrid fun g => g.eraseCells n style
  | 0x5A => s.withGrid fun g => g.tabBack n
  | 0x62 => s.repeatLast x n
  -- c DA1
  | 0x63 => some (s.reply .da1)
  -- d VPA, e VPR
  | 0x64 => do
    let row ← sub n 1
    s.withGrid fun g => g.rowSet row
  | 0x65 => s.withGrid fun g => g.rowIncClamp n
  -- g TBC
  | 0x67 => match p.get 0 0 with
    | 0 => s.withGrid Grid.clearTab
    | 3 => some (s.putGrid s.activeGrid.clearAllTabs)
    | _ => some s
  -- h SM, l RM, m SGR, n DSR
  | 0x68 | 0x6C => s.setModes x p
  | 0x6D => some (s.sgr p)
  | 0x6E => s.deviceStatus p
  -- r DECSTBM, s DECSLRM, or SCOSC when margins are off, u SCORC, t XTWINOPS
  | 0x72 => s.setRegion p
  | 0x73 => if s.modes.margins then s.setSideMargins p else some s.saveCursor
  | 0x75 => if p.values.isEmpty then s.restoreCursor else some s
  | 0x74 => some (s.windowOp p)
  | _ => some s

def csiInter (s : Screen I) (style : StyleId) (p : Params) : Option (Screen I) :=
  let n := max (p.get16 0 1) 1
  match p.inter, p.final with
  -- SL and SR
  | 0x20, 0x40 => s.withGrid (shiftColumns fun g => g.deleteColumns n style)
  | 0x20, 0x41 => s.withGrid (shiftColumns fun g => g.insertColumns n style)
  -- DECSTR
  | 0x21, 0x70 => s.softReset
  -- DECRQM
  | 0x24, 0x70 => some (s.requestMode p)
  -- DECSCUSR
  | 0x20, 0x71 => some { s with cursorStyle := .fromU16 (p.get16 0 0) }
  -- DECIC and DECDC
  | 0x27, 0x7D => s.withGrid fun g => g.insertColumns n style
  | 0x27, 0x7E => s.withGrid fun g => g.deleteColumns n style
  -- XTPUSHSGR and XTPOPSGR
  | 0x23, 0x7B | 0x23, 0x70 => some s.pushStyle
  | 0x23, 0x7D | 0x23, 0x71 => some s.popStyle
  | _, _ => some s

/-- The sequences with a prefix and no intermediate. -/
def csiPrefixed (s : Screen I) (p : Params) : Option (Screen I) :=
  match p.prefixByte, p.final with
  -- DECSED and DECSEL
  | 0x3F, 0x4A => s.eraseDisplay (p.get16 0 0)
  | 0x3F, 0x4B => s.eraseLine (p.get16 0 0)
  -- XTSMGRAPHICS
  | 0x3F, 0x53 => some (s.graphicsAttributes p)
  -- DA2, DA3
  | 0x3E, 0x63 => some (s.reply .da2)
  | 0x3D, 0x63 => some (s.reply .da3)
  -- DECSET, DECRST
  | 0x3F, 0x68 | 0x3F, 0x6C => s.setModes x p
  -- DECDSR
  | 0x3F, 0x6E => s.decDeviceStatus p
  -- XTVERSION
  | 0x3E, 0x71 => some (s.reply .xtversion)
  -- The kitty keyboard protocol
  | 0x3F, 0x75 | 0x3E, 0x75 | 0x3C, 0x75 | 0x3D, 0x75 => some (s.kittyKeyboard p)
  | _, _ => some s

def csi (s : Screen I) (p : Params) : Option (Screen I) :=
  if p.invalid then some s
  else
    let (style, s) := s.styleId
    if p.inter = 0 then if p.prefixByte = 0 then s.csiPlain x style p else s.csiPrefixed x p
    -- DECRQM alone takes a prefix beside its intermediate.
    else if p.prefixByte = 0 ∨ p.prefixByte = 0x3F ∧ p.inter = 0x24 ∧ p.final = 0x70 then s.csiInter style p
    else some s

end csi

section control

def lineFinished (s : Screen I) (row : ℕ) : Option (Screen I) :=
  if !s.lineTap || 4096 ≤ s.finishedLines.length then some s
  else do
    let text ← s.activeGrid.lineText row
    -- A carriage return followed by a line feed reports the line once.
    some (if s.finishedLines.getLast? = some text then s else { s with finishedLines := s.finishedLines ++ [text] })

def rowIncScroll (s : Screen I) : Option (Screen I) :=
  s.withStyle fun style g => do
    let (_, g) ← g.rowIncScroll x.charWidth 1 style
    some g

def linefeed (s : Screen I) : Option (Screen I) := do
  let s ← s.lineFinished s.activeGrid.pos.row
  let s ← s.rowIncScroll x
  if s.modes.newline then s.withGrid fun g => g.colSet g.marginLeft else some s

def reverseIndex (s : Screen I) : Option (Screen I) := s.withStyle fun style g => g.rowDecScroll 1 style

def carriageReturn (s : Screen I) : Option (Screen I) := do
  -- What was on the line before the program overwrites it counts as a finished line.
  let s ← if s.lineTap && 0 < s.activeGrid.pos.col then s.lineFinished s.activeGrid.pos.row else some s
  s.withGrid fun g => g.colSet (if g.marginLeft ≤ g.pos.col then g.marginLeft else 0)

def control (s : Screen I) (b : UInt8) : Option (Screen I) :=
  match b with
  | 0x08 => s.withGrid fun g => g.colDec 1
  | 0x09 => s.withGrid Grid.colTab
  | 0x0A | 0x0B | 0x0C => s.linefeed x
  | 0x0D => s.carriageReturn
  | 0x0E => some { s with gl := .g1 }
  | 0x0F => some { s with gl := .g0 }
  -- The legacy C1 byte for a reverse index.
  | 0x8D => s.reverseIndex
  | _ => some s

def nextLine (s : Screen I) : Option (Screen I) := do
  let s ← s.lineFinished s.activeGrid.pos.row
  let left := s.activeGrid.marginLeft
  let s ← s.rowIncScroll x
  s.withGrid fun g => g.colSet left

def escape (s : Screen I) (final : UInt8) : Option (Screen I) :=
  match final with
  -- 7 DECSC, 8 DECRC
  | 0x37 => some s.saveCursor
  | 0x38 => s.restoreCursor
  -- = DECKPAM, > DECKPNM
  | 0x3D => some { s with modes := { s.modes with appKeypad := true } }
  | 0x3E => some { s with modes := { s.modes with appKeypad := false } }
  -- D IND, E NEL, H HTS, M RI
  | 0x44 => s.rowIncScroll x
  | 0x45 => s.nextLine x
  | 0x48 => s.withGrid Grid.setTab
  | 0x4D => s.reverseIndex
  -- N SS2, O SS3, n LS2, o LS3
  | 0x4E => some { s with singleShift := some .g2 }
  | 0x4F => some { s with singleShift := some .g3 }
  | 0x6E => some { s with gl := .g2 }
  | 0x6F => some { s with gl := .g3 }
  -- c RIS
  | 0x63 => some (s.reset x)
  | _ => some s

def designate (s : Screen I) (g : Slot) (set : CharSet) : Screen I :=
  { s with charsets := fun g' => if g' = g then set else s.charsets g' }

def screenAlignment (s : Screen I) : Option (Screen I) := do
  let size := s.activeGrid.size
  let (style, s) := s.internStyle .default
  s.withGrid fun g => do
    let lastRow ← sub size.height 1
    let g ← g.setScrollRegion 0 lastRow
    let lastCol ← sub size.width 1
    let g ← g.setMargins 0 lastCol
    let g ← (List.range size.height).foldlM (fun g row =>
      (List.range size.width).foldlM (fun g col => g.writeCell ⟨row, col⟩ (.ofScalar 'E' 1) style) g) g
    g.setPos .home

def escapeNf (s : Screen I) (inter final : UInt8) : Option (Screen I) :=
  let set := (CharSet.fromFinal final).getD .ascii
  match inter with
  | 0x28 => some (s.designate .g0 set)
  | 0x29 => some (s.designate .g1 set)
  | 0x2A => some (s.designate .g2 set)
  | 0x2B => some (s.designate .g3 set)
  -- 96-character sets: treated as ASCII.
  | 0x2D => some (s.designate .g1 .ascii)
  | 0x2E => some (s.designate .g2 .ascii)
  | 0x2F => some (s.designate .g3 .ascii)
  | 0x23 => if final = 0x38 then s.screenAlignment else some s
  | _ => some s

end control

section strings

/-- What `parse` makes of a number of 32 bits: digits, perhaps after a plus. -/
def parseU32 (text : List Char) : Option ℕ :=
  let digits := match text with
    | '+' :: digits => digits
    | digits => digits
  if digits.isEmpty || !digits.all Char.isDigit then none
  else
    let n := digits.foldl (fun n c => n * 10 + (c.toNat - 48)) 0
    if n < 4294967296 then some n else none

/-- A text split at the first of a character. -/
def splitOnce (sep : Char) (text : List Char) : Option (List Char × List Char) :=
  let head := text.takeWhile (· ≠ sep)
  match text.drop head.length with
  | [] => none
  | _ :: rest => some (head, rest)

/-- A text split at each of a character. -/
def splitAll (sep : Char) : List Char → List (List Char)
  | [] => [[]]
  | c :: text => match splitAll sep text with
    | [] => [[]]
    | first :: more => if c = sep then [] :: first :: more else (c :: first) :: more

def setLink (s : Screen I) (link : Option Link) : Screen I :=
  if s.link = link then s else { s with link := link, linkId := none, altLinkId := none }

def oscHyperlink (s : Screen I) (pt : List Char) : Screen I :=
  let (params, uri) := (splitOnce ';' pt).getD ([], pt)
  if uri.isEmpty then s.setLink none
  else
    let pairs := (splitAll ':' params).filterMap (splitOnce '=')
    s.setLink (some ⟨uri, (pairs.find? fun kv => kv.1 = ['i', 'd']).map Prod.snd⟩)

/-- Titles and links. The commands for colors, the clipboard, notifications and directories change nothing here. -/
def osc (s : Screen I) (data : List UInt8) : Screen I :=
  match fromUtf8 data with
  | none => s
  | some text =>
    let (ps, pt) := (splitOnce ';' text).getD (text, [])
    match parseU32 ps with
    | some 0 | some 2 => { s with title := pt }
    | some 8 => s.oscHyperlink pt
    | _ => s

/-- How many cells an image takes: one at least, and no more than 16 bits hold. -/
def clampCells (n : ℕ) : ℕ := max 1 (min n 65535)

/-- Scrolls so that an image of so many rows fits below the cursor, as far as it can: the row it is at then. -/
def makeImageRoom (rows : ℕ) (style : StyleId) (g : Grid) : Option (ℕ × Grid) := do
  let scroll := min (g.pos.row + rows - g.size.height) g.pos.row
  let row := g.pos.row
  if 0 < scroll then
    let g ← g.scrollUp x.charWidth scroll style
    let row ← sub row scroll
    some (row, g)
  else some (row, g)

def placeImage (s : Screen I) (shown : Shown) (cells : Bool) : Option (Screen I) :=
  let cols := clampCells shown.cols
  let rows := clampCells shown.rows
  let placement : Placement :=
    ⟨shown.key, shown.id, 0, 0, cols, rows, shown.src, min shown.offsetX 65535, min shown.offsetY 65535, shown.z,
      shown.unicode, cells⟩
  if shown.unicode then
    let g := s.activeGrid
    let kept := g.placements.filter fun p => !(p.isVirtual && p.key = shown.key && p.id = shown.id)
    some (s.putGrid { g with placements := kept ++ [placement] })
  else s.withStyle fun style g => do
    let size := g.size
    let lastCol ← g.lastCol
    let col := min g.pos.col lastCol
    let (row, g) ← makeImageRoom x rows style g
    -- A placement with the same id on this image is replaced.
    let kept := if shown.id = 0 then g.placements
      else g.placements.filter fun p => !(p.key = shown.key && p.id = shown.id && !p.isVirtual)
    let g := { g with placements := kept ++ [{ placement with row := g.rowBase + row, col := col }] }
    if shown.cursorStay then some g
    else do
      let lastRow ← sub size.height 1
      let nextCol := saturatingAdd16 col cols
      let g ← g.setPos ⟨min (row + rows - 1) lastRow, min nextCol lastCol⟩
      some (if size.width ≤ nextCol then g.colInc 1 else g)

def act (s : Screen I) : GraphicsAct → Option (Screen I)
  | .place shown => s.placeImage x shown false
  | .remove pick =>
    let g := s.activeGrid
    some (s.putGrid { g with placements := g.placements.filter fun p => !pick p })

def apc (s : Screen I) (data : List UInt8) : Option (Screen I) :=
  match data with
  | 0x47 :: body => do
    let (images, did) ← x.graphics s.images s.activeGrid s.cellPixels body
    let s := { s with images := images }
    match did with
    | none => some s
    | some did => s.act x did
  | _ => some s

/-- An image goes into its cells, and the cursor to the line after it. -/
def sixel (s : Screen I) (data : List UInt8) : Option (Screen I) := do
  let (images, shown) ← x.sixel s.images s.cellPixels data
  let s := { s with images := images }
  match shown with
  | none => some s
  | some shown => do
    let s ← s.placeImage x shown true
    let left := s.activeGrid.marginLeft
    let s ← s.rowIncScroll x
    s.withGrid fun g => g.colSet left

def isSixel (data : List UInt8) : Bool :=
  (data.dropWhile fun b => 0x30 ≤ b && b ≤ 0x39 || b = 0x3B).head? = some 0x71

def dcs (s : Screen I) (data : List UInt8) : Option (Screen I) := if isSixel data then s.sixel x data else some s

end strings

section process

def apply (s : Screen I) (seq : Seq) : Option (Screen I) :=
  match seq with
  | .text text => textRun x 0 ((fromUtf8 text).getD []) s
  | .ctl b => s.control x b
  | .esc inter final => if inter = 0 then s.escape x final else s.escapeNf inter final
  | .csi p => s.csi x p
  | .osc data => some (s.osc data)
  | .dcs data => s.dcs x data
  | .apc data => s.apc x data
  -- An output scanner never produces them.
  | .escChar _ | .ss3 _ | .x10Mouse _ _ _ => some s

/-- After a chunk: the views, and the images that nothing shows any more. -/
def settleViews (s : Screen I) : Screen I :=
  let grid := s.grid.settleView x.charWidth
  let altGrid := s.altGrid.settleView x.charWidth
  let dropped := grid.droppedImages ++ altGrid.droppedImages
  { s with
    grid := { grid with droppedImages := [] }
    altGrid := { altGrid with droppedImages := [] }
    images := x.settle s.images (grid.placements ++ altGrid.placements) dropped }

def process (s : Screen I) (data : List UInt8) : Option (Screen I) := do
  let scanned := s.scanner.feed data
  let s ← scanned.2.foldlM (fun s seq => s.apply x seq) s
  some ({ s with scanner := scanned.1 }.settleViews x)

end process

end Screen

end Term

end Dekit
