import Mathlib.Data.List.Basic

namespace Dekit

namespace Term

@[irreducible] def maxClusterBytes : ℕ := 64

def zwj : Char := '\u200D'

def vs16 : Char := '\uFE0F'

def isRegionalIndicator (c : Char) : Bool := 0x1F1E6 ≤ c.toNat ∧ c.toNat ≤ 0x1F1FF

def isEmojiModifier (c : Char) : Bool := 0x1F3FB ≤ c.toNat ∧ c.toNat ≤ 0x1F3FF

/-- The code points that can take emoji presentation. -/
def emojiBases : List (ℕ × ℕ) :=
  [(0x203C, 0x203C), (0x2049, 0x2049), (0x2122, 0x2122), (0x2139, 0x2139), (0x2194, 0x2199), (0x21A9, 0x21AA),
    (0x231A, 0x231B), (0x2328, 0x2328), (0x23CF, 0x23CF), (0x23E9, 0x23F3), (0x23F8, 0x23FA),
    (0x24C2, 0x24C2), (0x25AA, 0x25AB), (0x25B6, 0x25B6), (0x25C0, 0x25C0), (0x25FB, 0x25FE),
    (0x2600, 0x27BF), (0x2934, 0x2935), (0x2B05, 0x2B07), (0x2B1B, 0x2B1C),
    (0x2B50, 0x2B50), (0x2B55, 0x2B55), (0x3030, 0x3030), (0x303D, 0x303D), (0x3297, 0x3297), (0x3299, 0x3299),
    (0x1F000, 0x1FAFF)]

def isEmojiBase (c : Char) : Bool := emojiBases.any fun range => range.1 ≤ c.toNat ∧ c.toNat ≤ range.2

/-- The width of a scalar on its own, none for a control character. `charWidth` is the width that the Unicode tables
give it, none where they give none. -/
def scalarWidth (charWidth : Char → Option ℕ) (c : Char) : Option ℕ :=
  if c.toNat < 0x20 ∨ 0x7F ≤ c.toNat ∧ c.toNat < 0xA0 then none
  else match charWidth c with
    | some 0 => some 0
    | some 1 => some 1
    | some _ => some 2
    | none => some 1

/-- How a scalar relates to the cell written just before it. -/
inductive Attach where
  | new (width : ℕ)
  | join
  | joinWide
deriving DecidableEq

/-- What attachment depends on of the previous cell. -/
structure Prev where
  isThere : Bool
  afterZwj : Bool
  loneRi : Bool
  emojiBase : Bool
  width : ℕ

def Prev.none : Prev := ⟨false, false, false, false, 0⟩

def attach (charWidth : Char → Option ℕ) (c : Char) (prev : Prev) : Attach :=
  let width := (scalarWidth charWidth c).getD 0
  if !prev.isThere then .new (max width (if width = 0 then 1 else width))
  else if prev.afterZwj && (width = 0 || isEmojiBase c) then
    if width = 2 ∧ prev.width < 2 then .joinWide else .join
  else if c = vs16 then if prev.width < 2 && prev.emojiBase then .joinWide else .join
  else if width = 0 then .join
  else if isRegionalIndicator c && prev.loneRi then .joinWide
  else if isEmojiModifier c && prev.emojiBase then if prev.width < 2 then .joinWide else .join
  else .new width

/-- The width of a cluster so far and what it is to attach to, after one more scalar. -/
def clusterStep (charWidth : Char → Option ℕ) (p : ℕ × Prev) (c : Char) : ℕ × Prev :=
  match attach charWidth c p.2 with
  | .new w => (w, ⟨true, c = zwj, isRegionalIndicator c, isEmojiBase c, w⟩)
  | .join => (p.1, { p.2 with loneRi := false, afterZwj := c = zwj })
  | .joinWide => (2, { p.2 with width := 2, loneRi := false, afterZwj := c = zwj })

def clusterWidth (charWidth : Char → Option ℕ) (text : List Char) : ℕ :=
  (text.foldl (clusterStep charWidth) (0, .none)).1

inductive CharSet where
  | ascii
  | uk
  | decLineDrawing
deriving DecidableEq

namespace CharSet

def fromFinal (final : UInt8) : Option CharSet :=
  if final = 0x41 then some uk
  else if final = 0x42 ∨ final = 0x31 ∨ final = 0x32 then some ascii
  else if final = 0x30 then some decLineDrawing
  else none

/-- What the characters from `_` to `~` are in the line drawing set. -/
def lineDrawing : List Char :=
  [' ', '◆', '▒', '␉', '␌', '␍', '␊', '°', '±', '␤', '␋', '┘', '┐', '┌', '└', '┼', '⎺', '⎻', '─', '⎼', '⎽', '├', '┤',
    '┴', '┬', '│', '≤', '≥', 'π', '≠', '£', '·']

def decLineDrawingOf (c : Char) : Char :=
  if c.toNat < 0x5F then c else (lineDrawing[c.toNat - 0x5F]?).getD c

def translate (set : CharSet) (c : Char) : Char :=
  match set with
  | ascii => c
  | uk => if c = '#' then '£' else c
  | decLineDrawing => decLineDrawingOf c

end CharSet

/-- The combining marks that say which row or column of an image a placeholder shows, in order. -/
def marks : List ℕ :=
  [0x305, 0x30D, 0x30E, 0x310, 0x312, 0x33D, 0x33E, 0x33F, 0x346, 0x34A, 0x34B, 0x34C, 0x350, 0x351, 0x352,
    0x357, 0x35B, 0x363, 0x364, 0x365, 0x366, 0x367, 0x368, 0x369, 0x36A, 0x36B, 0x36C, 0x36D, 0x36E, 0x36F,
    0x483, 0x484, 0x485, 0x486, 0x487, 0x592, 0x593, 0x594, 0x595, 0x597, 0x598, 0x599, 0x59C, 0x59D, 0x59E,
    0x59F, 0x5A0, 0x5A1, 0x5A8, 0x5A9, 0x5AB, 0x5AC, 0x5AF, 0x5C4, 0x610, 0x611, 0x612, 0x613, 0x614, 0x615,
    0x616, 0x617, 0x657, 0x658, 0x659, 0x65A, 0x65B, 0x65D, 0x65E, 0x6D6, 0x6D7, 0x6D8, 0x6D9, 0x6DA, 0x6DB,
    0x6DC, 0x6DF, 0x6E0, 0x6E1, 0x6E2, 0x6E4, 0x6E7, 0x6E8, 0x6EB, 0x6EC, 0x730, 0x732, 0x733, 0x735, 0x736,
    0x73A, 0x73D, 0x73F, 0x740, 0x741, 0x743, 0x745, 0x747, 0x749, 0x74A, 0x7EB, 0x7EC, 0x7ED, 0x7EE, 0x7EF,
    0x7F0, 0x7F1, 0x7F3, 0x816, 0x817, 0x818, 0x819, 0x81B, 0x81C, 0x81D, 0x81E, 0x81F, 0x820, 0x821, 0x822,
    0x823, 0x825, 0x826, 0x827, 0x829, 0x82A, 0x82B, 0x82C, 0x82D, 0x951, 0x953, 0x954, 0xF82, 0xF83, 0xF86,
    0xF87, 0x135D, 0x135E, 0x135F, 0x17DD, 0x193A, 0x1A17, 0x1A75, 0x1A76, 0x1A77, 0x1A78, 0x1A79, 0x1A7A,
    0x1A7B, 0x1A7C, 0x1B6B, 0x1B6D, 0x1B6E, 0x1B6F, 0x1B70, 0x1B71, 0x1B72, 0x1B73, 0x1CD0, 0x1CD1, 0x1CD2,
    0x1CDA, 0x1CDB, 0x1CE0, 0x1DC0, 0x1DC1, 0x1DC3, 0x1DC4, 0x1DC5, 0x1DC6, 0x1DC7, 0x1DC8, 0x1DC9, 0x1DCB,
    0x1DCC, 0x1DD1, 0x1DD2, 0x1DD3, 0x1DD4, 0x1DD5, 0x1DD6, 0x1DD7, 0x1DD8, 0x1DD9, 0x1DDA, 0x1DDB, 0x1DDC,
    0x1DDD, 0x1DDE, 0x1DDF, 0x1DE0, 0x1DE1, 0x1DE2, 0x1DE3, 0x1DE4, 0x1DE5, 0x1DE6, 0x1DFE, 0x20D0, 0x20D1,
    0x20D4, 0x20D5, 0x20D6, 0x20D7, 0x20DB, 0x20DC, 0x20E1, 0x20E7, 0x20E9, 0x20F0, 0x2CEF, 0x2CF0, 0x2CF1,
    0x2DE0, 0x2DE1, 0x2DE2, 0x2DE3, 0x2DE4, 0x2DE5, 0x2DE6, 0x2DE7, 0x2DE8, 0x2DE9, 0x2DEA, 0x2DEB, 0x2DEC,
    0x2DED, 0x2DEE, 0x2DEF, 0x2DF0, 0x2DF1, 0x2DF2, 0x2DF3, 0x2DF4, 0x2DF5, 0x2DF6, 0x2DF7, 0x2DF8, 0x2DF9,
    0x2DFA, 0x2DFB, 0x2DFC, 0x2DFD, 0x2DFE, 0x2DFF, 0xA66F, 0xA67C, 0xA67D, 0xA6F0, 0xA6F1, 0xA8E0, 0xA8E1,
    0xA8E2, 0xA8E3, 0xA8E4, 0xA8E5, 0xA8E6, 0xA8E7, 0xA8E8, 0xA8E9, 0xA8EA, 0xA8EB, 0xA8EC, 0xA8ED, 0xA8EE,
    0xA8EF, 0xA8F0, 0xA8F1, 0xAAB0, 0xAAB2, 0xAAB3, 0xAAB7, 0xAAB8, 0xAABE, 0xAABF, 0xAAC1, 0xFE20, 0xFE21,
    0xFE22, 0xFE23, 0xFE24, 0xFE25, 0xFE26, 0x10A0F, 0x10A38, 0x1D185, 0x1D186, 0x1D187, 0x1D188, 0x1D189,
    0x1D1AA, 0x1D1AB, 0x1D1AC, 0x1D1AD, 0x1D242, 0x1D243, 0x1D244]

def markIndex (c : Char) : Option ℕ := if c.toNat < 0x300 then none else marks.findIdx? (· = c.toNat)

end Term

end Dekit
