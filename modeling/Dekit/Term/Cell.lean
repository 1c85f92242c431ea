import Dekit.Term.Style

namespace Dekit

namespace Term

/-- What a cell shows. The numbers in it are cut to the bits that hold them. -/
inductive CellText where
  | empty
  | filler
  | scalar (c : Char) (width : ℕ)
  | grapheme (index width : ℕ)
  | continuation
  | image (slot row col : ℕ)
deriving DecidableEq

namespace CellText

def ofScalar (c : Char) (width : ℕ) : CellText := .scalar c (width % 4)

def ofGrapheme (index width : ℕ) : CellText := .grapheme (index % 16777216) (width % 4)

def ofImage (slot row col : ℕ) : CellText := .image (slot % 1024) (row % 512) (col % 512)

def isEmpty : CellText → Bool
  | .empty | .filler => true
  | _ => false

def isFiller : CellText → Bool
  | .filler => true
  | _ => false

def isContinuation : CellText → Bool
  | .continuation => true
  | _ => false

def isImage : CellText → Bool
  | .image _ _ _ => true
  | _ => false

def width : CellText → ℕ
  | .scalar _ w | .grapheme _ w => w
  | .image _ _ _ => 1
  | _ => 0

def isWide (t : CellText) : Bool := 2 ≤ t.width

def withWidth (t : CellText) (width : ℕ) : CellText :=
  match t with
  | .scalar c _ => .scalar c (width % 4)
  | .grapheme i _ => .grapheme i (width % 4)
  | t => t

end CellText

/-- The clusters of more than one scalar in a grid, each once. -/
abbrev GraphemeTable := List (List Char)

@[irreducible] def maxGraphemes : ℕ := 16777216

namespace GraphemeTable

def lookup (t : GraphemeTable) (text : List Char) : Option ℕ := t.findIdx? (· = text)

def intern (t : GraphemeTable) (text : List Char) : Option ℕ × GraphemeTable :=
  match t.lookup text with
  | some i => (some i, t)
  | none => if maxGraphemes ≤ t.length then (none, t) else (some t.length, t ++ [text])

def get (t : GraphemeTable) (index : ℕ) : List Char := t[index]?.getD ['\uFFFD']

end GraphemeTable

namespace CellText

def of (text : List Char) (width : ℕ) (graphemes : GraphemeTable) : CellText × GraphemeTable :=
  match text with
  | [] => (.empty, graphemes)
  | [c] => (ofScalar c width, graphemes)
  | text => match graphemes.intern text with
    | (some i, graphemes) => (ofGrapheme i width, graphemes)
    | (none, graphemes) => (ofScalar '\uFFFD' 1, graphemes)

def placeholder : Char := Char.ofNat 0x10EEEE

def asStr (t : CellText) (graphemes : GraphemeTable) : List Char :=
  match t with
  | .empty | .filler | .continuation => []
  | .scalar c _ => [c]
  | .grapheme i _ => graphemes.get i
  | .image _ _ _ => [placeholder]

end CellText

structure Cell where
  text : CellText
  style : StyleId
deriving DecidableEq

namespace Cell

def empty : Cell := ⟨.empty, 0⟩

def blank (style : StyleId) : Cell := ⟨.empty, style⟩

def filler (style : StyleId) : Cell := ⟨.filler, style⟩

def width (c : Cell) : ℕ := c.text.width

def isWide (c : Cell) : Bool := c.text.isWide

def isContinuation (c : Cell) : Bool := c.text.isContinuation

def hasContents (c : Cell) : Bool := !c.text.isEmpty && !c.text.isContinuation

end Cell

/-- What the cells of a grid refer to. -/
structure Tables where
  styles : StyleTable
  graphemes : GraphemeTable
  links : LinkTable
deriving DecidableEq

def Tables.new : Tables := ⟨.new, [], []⟩

/-- A row of the live screen. -/
structure Row where
  cells : List Cell
  wrapped : Bool
deriving DecidableEq

end Term

end Dekit
