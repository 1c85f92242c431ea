import Dekit.Term.Reflow
import Dekit.Vt.Scan

namespace Dekit

namespace Term

open Slice Vt

structure Modes where
  appKeypad : Bool
  appCursor : Bool
  hideCursor : Bool
  altScreen : Bool
  bracketedPaste : Bool
  autowrap : Bool
  insert : Bool
  newline : Bool
  focusReport : Bool
  altScroll : Bool
  sync : Bool
  graphemeClusters : Bool
  inbandResize : Bool
  reverseVideo : Bool
  cursorBlink : Bool
  margins : Bool
  altSavedCursor : Bool
  metaSendsEsc : Bool
  keyboardActionLocked : Bool
deriving DecidableEq

def Modes.default : Modes where
  appKeypad := false
  appCursor := false
  hideCursor := false
  altScreen := false
  bracketedPaste := false
  autowrap := true
  insert := false
  newline := false
  focusReport := false
  altScroll := true
  sync := false
  graphemeClusters := false
  inbandResize := false
  reverseVideo := false
  cursorBlink := true
  margins := false
  altSavedCursor := false
  metaSendsEsc := true
  keyboardActionLocked := false

inductive MouseMode where
  | none
  | press
  | pressRelease
  | buttonMotion
  | anyMotion
deriving DecidableEq

inductive MouseEncoding where
  | default
  | utf8
  | sgr
  | urxvt
  | sgrPixels
deriving DecidableEq

inductive CursorStyle where
  | default
  | blinkingBlock
  | steadyBlock
  | blinkingUnderline
  | steadyUnderline
  | blinkingBar
  | steadyBar
deriving DecidableEq

def CursorStyle.fromU16 (n : ℕ) : CursorStyle :=
  match n with
  | 1 => blinkingBlock
  | 2 => steadyBlock
  | 3 => blinkingUnderline
  | 4 => steadyUnderline
  | 5 => blinkingBar
  | 6 => steadyBar
  | _ => default

inductive ModeState where
  | notRecognized
  | set
  | reset
  | permanentlySet
  | permanentlyReset
deriving DecidableEq

/-- What a program that asks with a CSI sequence is told, without the bytes that say it. -/
inductive Reply where
  | da1
  | da2
  | da3
  | xtversion
  | ok
  | cpr (row col : ℕ)
  | decxcpr (row col : ℕ)
  | printer
  | udk
  | keyboard
  | locator
  | decrqm (dec : Bool) (mode : ℕ) (state : ModeState)
  | window (code height width : ℕ)
  | title (code : UInt8) (title : List Char)
  | kittyFlags (flags : ℕ)
  | graphics (item action : ℕ)
  | inbandResize (height width heightPx widthPx : ℕ)
deriving DecidableEq

/-- The flags of the kitty keyboard protocol, the last active. -/
abbrev KittyStack := List ℕ

namespace KittyStack

def maxDepth : ℕ := 16

def allFlags : ℕ := 31

def active (s : KittyStack) : ℕ := s.getLast?.getD 0

def push (s : KittyStack) (flags : ℕ) : KittyStack :=
  (if maxDepth ≤ s.length then s.tail else s) ++ [flags &&& allFlags]

def pop (s : KittyStack) (n : ℕ) : KittyStack := s.take (s.length - max n 1)

def set (s : KittyStack) (flags mode : ℕ) : KittyStack :=
  let flags := flags &&& allFlags
  let s := if s.isEmpty then [0] else s
  let top := s.getLast?.getD 0
  s.dropLast ++ [match mode with
    | 2 => top ||| flags
    | 3 => top - (top &&& flags)
    | _ => flags]

end KittyStack

/-- What a graphics command puts on the grid: an image's part, its size in cells as asked for, and whether the cursor
stays. -/
structure Shown where
  key : ImageKey
  id : ℕ
  cols : ℕ
  rows : ℕ
  src : SrcRect
  offsetX : ℕ
  offsetY : ℕ
  z : ℤ
  unicode : Bool
  cursorStay : Bool

inductive GraphicsAct where
  | place (shown : Shown)
  | remove (pick : Placement → Bool)

/-- What the screen takes from elsewhere: the widths of the Unicode tables, and of the images, `I` being the store and
the transmission under way, what a graphics command or a sixel body asks of the grid, if no number in it overflows, and
which images go with the placements that were written over. -/
structure Externs (I : Type) where
  charWidth : Char → Option ℕ
  fresh : I
  graphics : I → Grid → ℕ × ℕ → List UInt8 → Option (I × Option GraphicsAct)
  sixel : I → ℕ × ℕ → List UInt8 → Option (I × Option Shown)
  settle : I → List Placement → List ImageKey → I

/-- The graphic sets a character set is designated to. -/
inductive Slot
  | g0
  | g1
  | g2
  | g3
  deriving DecidableEq

structure Screen (I : Type) where
  scanner : Scanner
  grid : Grid
  altGrid : Grid
  style : Style
  savedStyle : Style
  link : Option Link
  linkId : Option LinkId
  altLinkId : Option LinkId
  sgrStack : List Style
  modes : Modes
  mouseMode : MouseMode
  mouseEncoding : MouseEncoding
  cursorStyle : CursorStyle
  charsets : Slot → CharSet
  gl : Slot
  singleShift : Option Slot
  kitty : KittyStack
  altKitty : KittyStack
  title : List Char
  titleStack : List (List Char)
  cellPixels : ℕ × ℕ
  lastChar : Option Char
  placeholderMarks : ℕ
  images : I
  replies : List Reply
  lineTap : Bool
  finishedLines : List (List Char)

namespace Screen

variable {I : Type} (x : Externs I)

def new (size : Size) (scrollbackLen : ℕ) : Screen I where
  scanner := .new .output
  grid := .new size scrollbackLen
  altGrid := .new size 0
  style := .default
  savedStyle := .default
  link := none
  linkId := none
  altLinkId := none
  sgrStack := []
  modes := .default
  mouseMode := .none
  mouseEncoding := .default
  cursorStyle := .default
  charsets := fun _ => .ascii
  gl := .g0
  singleShift := none
  kitty := []
  altKitty := []
  title := []
  titleStack := []
  cellPixels := (8, 16)
  lastChar := none
  placeholderMarks := 0
  images := x.fresh
  replies := []
  lineTap := false
  finishedLines := []

/-- Back to the initial state at the current size; the owner's settings and what is owed stay. -/
def reset (s : Screen I) : Screen I :=
  { new x s.grid.size s.grid.history.capacity with
    scanner := s.scanner
    cellPixels := s.cellPixels
    lineTap := s.lineTap
    replies := s.replies
    finishedLines := s.finishedLines }

def reply (s : Screen I) (r : Reply) : Screen I := { s with replies := s.replies ++ [r] }

section grids

def activeGrid (s : Screen I) : Grid := if s.modes.altScreen then s.altGrid else s.grid

def putGrid (s : Screen I) (g : Grid) : Screen I :=
  if s.modes.altScreen then { s with altGrid := g } else { s with grid := g }

def withGrid (s : Screen I) (f : Grid → Option Grid) : Option (Screen I) := do
  let g ← f s.activeGrid
  some (s.putGrid g)

def internStyle (s : Screen I) (style : Style) : StyleId × Screen I :=
  let (id, g) := s.activeGrid.internStyle style
  (id, s.putGrid g)

def currentLinkId (s : Screen I) : LinkId × Screen I :=
  match s.link with
  | none => (0, s)
  | some link => match if s.modes.altScreen then s.altLinkId else s.linkId with
    | some id => (id, s)
    | none =>
      let (id, g) := s.activeGrid.internLink link
      let s := s.putGrid g
      (id, if s.modes.altScreen then { s with altLinkId := some id } else { s with linkId := some id })

/-- The current style with the current link, interned in the active grid. -/
def styleId (s : Screen I) : StyleId × Screen I :=
  let (link, s) := s.currentLinkId
  s.internStyle (s.style.withLink link)

/-- The active grid rewritten with the current style. -/
def withStyle (s : Screen I) (f : StyleId → Grid → Option Grid) : Option (Screen I) :=
  let (style, s) := s.styleId
  s.withGrid (f style)

def enterAlternateGrid (s : Screen I) (clear : Bool) : Option (Screen I) :=
  let s := { s with grid := s.grid.setScrollback x.charWidth 0 }
  let s := if s.modes.altScreen then s
    else { s with modes := { s.modes with altScreen := true }, kitty := s.altKitty, altKitty := s.kitty }
  if clear then do
    let (style, g) := s.altGrid.internStyle .default
    let g ← { g.eraseAll style with placements := [] }.setPos .home
    some { s with altGrid := g }
  else some s

def exitAlternateGrid (s : Screen I) : Screen I :=
  if s.modes.altScreen then
    { s with modes := { s.modes with altScreen := false }, kitty := s.altKitty, altKitty := s.kitty }
  else s

def saveCursor (s : Screen I) : Screen I :=
  let s := s.putGrid s.activeGrid.saveCursor
  { s with savedStyle := s.style, modes := { s.modes with altSavedCursor := true } }

def restoreCursor (s : Screen I) : Option (Screen I) := do
  let s ← s.withGrid Grid.restoreCursor
  some { s with style := s.savedStyle.withLink s.style.link }

def reportSizeInband (s : Screen I) : Screen I :=
  let size := s.grid.size
  s.reply (.inbandResize size.height size.width (size.height * s.cellPixels.2) (size.width * s.cellPixels.1))

def setSize (s : Screen I) (rows cols : ℕ) : Option (Screen I) :=
  let size : Size := ⟨rows, cols⟩
  if s.grid.size = size then some s
  else do
    let grid ← s.grid.setSize x.charWidth size
    let altGrid ← s.altGrid.setSize x.charWidth size
    let s := { s with grid := grid, altGrid := altGrid }
    some (if s.modes.inbandResize then s.reportSizeInband else s)

/-- A grid without regions, margins and origin mode. -/
def plainGrid (height width : ℕ) (g : Grid) : Option Grid := do
  let lastRow ← sub height 1
  let g ← g.setScrollRegion 0 lastRow
  let lastCol ← sub width 1
  let g ← g.setMargins 0 lastCol
  g.setOriginMode false

def softReset (s : Screen I) : Option (Screen I) := do
  let size := s.grid.size
  let grid ← plainGrid size.height size.width s.grid
  let altGrid ← plainGrid size.height size.width s.altGrid
  let s := { s with
    modes := { Modes.default with altScreen := s.modes.altScreen }
    style := .default
    savedStyle := .default
    link := none
    linkId := none
    altLinkId := none
    cursorStyle := .default
    charsets := fun _ => .ascii
    gl := .g0
    singleShift := none
    mouseMode := .none
    mouseEncoding := .default
    grid := grid
    altGrid := altGrid }
  s.withGrid fun g => g.setPos s.grid.pos

end grids

section rendition

/-- The color argument of an SGR parameter, and the index after it. -/
def sgrColor (p : Params) (i : ℕ) : Color × ℕ :=
  match p.get (i + 1) 2 with
  | 2 =>
    -- The colon form may carry an empty color space before the components.
    let i := if p.isSub (i + 2) && (p.getOpt (i + 2)).isNone then i + 1 else i
    let part (k : ℕ) : UInt8 := UInt8.ofNat (min (p.get (i + k) 0) 255)
    (.rgb (part 2) (part 3) (part 4), i + 5)
  | 5 => (.idx (UInt8.ofNat (min (p.get (i + 2) 0) 255)), i + 3)
  | _ => (.default, i + 2)

def resetStyle (style : Style) : Style := Style.default.withLink style.link

def sgrIdx (n base : ℕ) : Color := .idx (UInt8.ofNat (n - base))

/-- The style that a parameter makes of one, and the index of the next parameter. -/
def sgrStep (p : Params) (i : ℕ) (s : Style) : Style × ℕ :=
  let n := p.get i 0
  if n = 0 then (resetStyle s, i + 1)
  else if n = 1 then ({ s with bold := true }, i + 1)
  else if n = 2 then ({ s with dim := true }, i + 1)
  else if n = 3 then ({ s with italic := true }, i + 1)
  else if n = 4 then
    let shape := if p.isSub (i + 1) then Underline.fromU8 (min (p.get (i + 1) 1) 255) else .single
    ({ s with underline := shape }, i + 1)
  else if n = 5 ∨ n = 6 then ({ s with blink := true }, i + 1)
  else if n = 7 then ({ s with inverse := true }, i + 1)
  else if n = 8 then ({ s with hidden := true }, i + 1)
  else if n = 9 then ({ s with strike := true }, i + 1)
  else if n = 21 then ({ s with underline := .double }, i + 1)
  else if n = 22 then ({ s with bold := false, dim := false }, i + 1)
  else if n = 23 then ({ s with italic := false }, i + 1)
  else if n = 24 then ({ s with underline := .none }, i + 1)
  else if n = 25 then ({ s with blink := false }, i + 1)
  else if n = 27 then ({ s with inverse := false }, i + 1)
  else if n = 28 then ({ s with hidden := false }, i + 1)
  else if n = 29 then ({ s with strike := false }, i + 1)
  else if 30 ≤ n ∧ n ≤ 37 then ({ s with fg := sgrIdx n 30 }, i + 1)
  else if n = 38 then ({ s with fg := (sgrColor p i).1 }, (sgrColor p i).2)
  else if n = 39 then ({ s with fg := .default }, i + 1)
  else if 40 ≤ n ∧ n ≤ 47 then ({ s with bg := sgrIdx n 40 }, i + 1)
  else if n = 48 then ({ s with bg := (sgrColor p i).1 }, (sgrColor p i).2)
  else if n = 49 then ({ s with bg := .default }, i + 1)
  else if n = 53 then ({ s with overline := true }, i + 1)
  else if n = 55 then ({ s with overline := false }, i + 1)
  else if n = 58 then ({ s with ul := (sgrColor p i).1 }, (sgrColor p i).2)
  else if n = 59 then ({ s with ul := .default }, i + 1)
  else if 90 ≤ n ∧ n ≤ 97 then ({ s with fg := sgrIdx n 82 }, i + 1)
  else if 100 ≤ n ∧ n ≤ 107 then ({ s with bg := sgrIdx n 92 }, i + 1)
  else (s, i + 1)

/-- The style after the parameters from an index on. Each step goes to a later one. -/
def sgrFrom (p : Params) : ℕ → ℕ → Style → Style
  | 0, _, s => s
  | fuel + 1, i, s =>
    if p.values.length ≤ i then s
    -- A subparameter of an attribute that does not use it.
    else if p.isSub i then sgrFrom p fuel (i + 1) s
    else sgrFrom p fuel (sgrStep p i s).2 (sgrStep p i s).1

def sgr (s : Screen I) (p : Params) : Screen I :=
  if p.values.isEmpty then { s with style := resetStyle s.style }
  else { s with style := sgrFrom p p.values.length 0 s.style }

end rendition

section modes

def setAnsiMode (s : Screen I) (mode : ℕ) (set : Bool) : Screen I :=
  match mode with
  | 2 => { s with modes := { s.modes with keyboardActionLocked := set } }
  | 4 => { s with modes := { s.modes with insert := set } }
  | 20 => { s with modes := { s.modes with newline := set } }
  | _ => s

def setMouseMode (s : Screen I) (mode : MouseMode) (set : Bool) : Screen I :=
  if set then { s with mouseMode := mode } else if s.mouseMode = mode then { s with mouseMode := .none } else s

def setMouseEncoding (s : Screen I) (encoding : MouseEncoding) (set : Bool) : Screen I :=
  if set then { s with mouseEncoding := encoding }
  else if s.mouseEncoding = encoding then { s with mouseEncoding := .default } else s

def setDecMode (s : Screen I) (mode : ℕ) (set : Bool) : Option (Screen I) :=
  match mode with
  | 1 => some { s with modes := { s.modes with appCursor := set } }
  | 5 => some { s with modes := { s.modes with reverseVideo := set } }
  | 6 => s.withGrid fun g => g.setOriginMode set
  | 7 => some { s with modes := { s.modes with autowrap := set } }
  | 9 => some (s.setMouseMode .press set)
  | 12 => some { s with modes := { s.modes with cursorBlink := set } }
  | 25 => some { s with modes := { s.modes with hideCursor := !set } }
  | 66 => some { s with modes := { s.modes with appKeypad := set } }
  | 69 =>
    let s := { s with modes := { s.modes with margins := set } }
    if set then some s
    else do
      let lastCol ← s.activeGrid.lastCol
      s.withGrid fun g => g.setMargins 0 lastCol
  | 47 | 1047 => if set then s.enterAlternateGrid x false else some s.exitAlternateGrid
  | 1048 => if set then some s.saveCursor else s.restoreCursor
  | 1049 => if set then s.saveCursor.enterAlternateGrid x true else s.exitAlternateGrid.restoreCursor
  | 1000 => some (s.setMouseMode .pressRelease set)
  | 1002 => some (s.setMouseMode .buttonMotion set)
  | 1003 => some (s.setMouseMode .anyMotion set)
  | 1004 => some { s with modes := { s.modes with focusReport := set } }
  | 1005 => some (s.setMouseEncoding .utf8 set)
  | 1006 => some (s.setMouseEncoding .sgr set)
  | 1007 => some { s with modes := { s.modes with altScroll := set } }
  | 1015 => some (s.setMouseEncoding .urxvt set)
  | 1016 => some (s.setMouseEncoding .sgrPixels set)
  | 1034 => some { s with modes := { s.modes with metaSendsEsc := set } }
  | 2004 => some { s with modes := { s.modes with bracketedPaste := set } }
  | 2026 => some { s with modes := { s.modes with sync := set } }
  | 2027 => some { s with modes := { s.modes with graphemeClusters := set } }
  | 2048 =>
    let s := { s with modes := { s.modes with inbandResize := set } }
    some (if set then s.reportSizeInband else s)
  | _ => some s

/-- A mode that is named by a parameter. -/
def setMode (p : Params) (s : Screen I) (i : ℕ) : Option (Screen I) :=
  if p.isSub i then some s
  else match p.getOpt i with
    | none => some s
    | some mode =>
      if p.prefixByte = 0x3F then s.setDecMode x mode (p.final = 0x68) else some (s.setAnsiMode mode (p.final = 0x68))

def setModes (s : Screen I) (p : Params) : Option (Screen I) := (List.range p.values.length).foldlM (setMode x p) s

def stateOf (on : Bool) : ModeState := if on then .set else .reset

def ansiModeState (s : Screen I) (mode : ℕ) : ModeState :=
  match mode with
  | 2 => stateOf s.modes.keyboardActionLocked
  | 4 => stateOf s.modes.insert
  | 20 => stateOf s.modes.newline
  | 34 => .permanentlyReset
  | _ => .notRecognized

def decModeState (s : Screen I) (mode : ℕ) : ModeState :=
  match mode with
  | 1 => stateOf s.modes.appCursor
  | 2 => .permanentlySet
  | 3 | 4 | 8 => .permanentlyReset
  | 5 => stateOf s.modes.reverseVideo
  | 6 => stateOf s.activeGrid.originMode
  | 7 => stateOf s.modes.autowrap
  | 9 => stateOf (s.mouseMode = .press)
  | 12 => stateOf s.modes.cursorBlink
  | 25 => stateOf !s.modes.hideCursor
  | 66 => stateOf s.modes.appKeypad
  | 67 => .permanentlyReset
  | 69 => stateOf s.modes.margins
  | 47 | 1047 | 1049 => stateOf s.modes.altScreen
  | 1048 => stateOf s.modes.altSavedCursor
  | 1000 => stateOf (s.mouseMode = .pressRelease)
  | 1001 => .permanentlyReset
  | 1002 => stateOf (s.mouseMode = .buttonMotion)
  | 1003 => stateOf (s.mouseMode = .anyMotion)
  | 1004 => stateOf s.modes.focusReport
  | 1005 => stateOf (s.mouseEncoding = .utf8)
  | 1006 => stateOf (s.mouseEncoding = .sgr)
  | 1007 => stateOf s.modes.altScroll
  | 1015 => stateOf (s.mouseEncoding = .urxvt)
  | 1016 => stateOf (s.mouseEncoding = .sgrPixels)
  | 1034 => stateOf s.modes.metaSendsEsc
  | 2004 => stateOf s.modes.bracketedPaste
  | 2026 => stateOf s.modes.sync
  | 2027 => stateOf s.modes.graphemeClusters
  | 2048 => stateOf s.modes.inbandResize
  | _ => .notRecognized

def requestMode (s : Screen I) (p : Params) : Screen I :=
  match p.getOpt 0 with
  | none => s
  | some mode =>
    let dec : Bool := p.prefixByte = 0x3F
    s.reply (.decrqm dec mode (if dec then s.decModeState mode else s.ansiModeState mode))

end modes

end Screen

end Term

end Dekit
